import ObjectModel.Proofs.Comparison.Equality

/-!
# Actions that leave what was there

An action is sparing when its runs that have an end do nothing to objects that were there before, but may
make others. Comparisons and conversions to ints are sparing (`sparing_compare`, `sparing_toInt`), whatever
they are made of.
-/

namespace ObjectModel

open ObjectModel.Action Behavior

/-- Every run of the action that has an end leaves what was there as it was. -/
class Action.Sparing (action : Action α) : Prop where
  ends : ∀ {s Q E}, action.Ends s Q E → action.Ends s (fun a t => Q a t ∧ s.Keeps t) fun t => E t ∧ s.Keeps t

namespace Action

variable {α β : Type}

theorem Sparing.of_step {action : Action α} (f : State → α × State)
    (hrun : ∀ s, action.run s = .ok (f s).1 (f s).2) (hkeeps : ∀ s : State, s.Keeps (f s).2) :
    Sparing action := by
  constructor
  intro s Q E h
  rw [ends_of_run (hrun s)] at h ⊢
  exact ⟨h, hkeeps s⟩

theorem Sparing.of_read {action : Action α} (find : State → α)
    (hrun : ∀ s, action.run s = .ok (find s) s) : Sparing action :=
  .of_step (fun s => (find s, s)) hrun .refl

theorem Sparing.bind {x : Action α} {f : α → Action β} [hx : Sparing x] (hf : ∀ a, Sparing (f a)) :
    Sparing (x >>= f) := by
  constructor
  intro s Q E h
  rw [ends_bind] at h ⊢
  refine (hx.ends h).imp ?_ fun _ h => h
  rintro a t ⟨hrest, hkeeps⟩
  refine ((hf a).ends hrest).imp ?_ ?_
  · rintro b u ⟨hb, hthen⟩
    exact ⟨hb, hkeeps.trans hthen⟩
  · rintro u ⟨hu, hthen⟩
    exact ⟨hu, hkeeps.trans hthen⟩

instance sparing_bind (x : Action α) (f : α → Action β) [Sparing x] [∀ a, Sparing (f a)] :
    Sparing (x >>= f) := .bind inferInstance

instance sparing_ite (c : Prop) [Decidable c] (x y : Action α) [hx : Sparing x] [hy : Sparing y] :
    Sparing (if c then x else y) := by
  split
  · exact hx
  · exact hy

instance sparing_pure (a : α) : Sparing (pure a : Action α) := .of_read (fun _ => a) fun _ => rfl

instance sparing_get : Sparing (get : Action State) := .of_read (fun s => s) fun _ => rfl

instance sparing_payload (o : Ref) : Sparing (payload o) := .of_read _ (run_payload o)

instance sparing_kind (o : Ref) : Sparing (kind o) := .of_read _ (run_kind o)

instance sparing_nothing : Sparing nothing := .of_read _ run_nothing

instance sparing_nameBytes? (o : Ref) : Sparing (nameBytes? o) := .of_read _ (run_nameBytes? o)

instance sparing_orNothing (o : Option Ref) : Sparing (orNothing o) := .of_read _ (run_orNothing o)

instance sparing_argument (args : List Ref) (index : Nat) : Sparing (argument args index) :=
  .of_read _ (run_argument args index)

instance sparing_create (payload : Payload) : Sparing (create payload) :=
  .of_step (fun s => (s.heap.next, s.made payload)) (run_create payload) fun s => (State.Grown.made s payload).keeps

instance sparing_raise (fault : Fault) : Sparing (raise fault : Action α) :=
  ⟨fun h => ⟨h, (State.raised_faulting _ fault).keeps⟩⟩

instance sparing_exhausted : Sparing (throw .exhausted : Action α) := ⟨fun h => h.elim⟩

end Action

instance Behavior.Lists.sparing_compareItems (run : Dispatcher) [∀ a b, Sparing (run.compare a b)]
    (lefts rights : List Ref) : Sparing (compareItems run lefts rights) := by
  induction lefts generalizing rights with
  | nil => exact sparing_pure 0
  | cons left lefts ih =>
    cases rights with
    | nil => exact sparing_pure 0
    | cons right rights => unfold compareItems; infer_instance

instance sparing_compare (host : Host) (rounds : Nat) (left right : Ref) :
    Sparing ((machine host rounds).compare left right) := by
  induction rounds generalizing left right with
  | zero => exact ⟨fun h => h.elim⟩
  | succ rounds ih =>
    constructor
    intro s Q E h
    by_cases hlists : s.kind left = .list ∧ s.kind right = .list
    · obtain ⟨lefts, hlefts⟩ := State.payload_of_list hlists.1
      obtain ⟨rights, hrights⟩ := State.payload_of_list hlists.2
      by_cases hsize : lefts.size = rights.size
      · rw [ends_compare_list host rounds hlefts hrights hsize] at h ⊢
        have : ∀ a b, Sparing ((machine host rounds).toDispatcher.compare a b) := ih
        refine (Sparing.ends h).imp ?_ ?_
        · rintro n t ⟨hn, hkeeps⟩
          exact ⟨hn, (hkeeps.thenMade _).unheld⟩
        · rintro t ⟨ht, hkeeps⟩
          exact ⟨ht, hkeeps.unheld⟩
      · refine (h.and (ends_compare_unequal host rounds hlefts hrights hsize)).imp ?_ fun _ h => h.2.elim
        rintro n t ⟨hn, -, hgrown⟩
        exact ⟨hn, hgrown.keeps⟩
    · by_cases hsettled : s.Settled left right
      · refine (h.and (ends_compare_settled host rounds hsettled)).imp ?_ fun _ h => h.2.elim
        rintro n t ⟨hn, -, hgrown⟩
        exact ⟨hn, hgrown.keeps⟩
      · cases rounds with
        -- A string and a buffer need a second round, in which one is converted.
        | zero => exact absurd h.halts (not_halts_compare_mixed host (State.mixed_of_not_settled hlists hsettled))
        | succ rounds =>
          refine (h.and (ends_compare_single host rounds hlists)).imp_value ?_
          rintro n t ⟨hn, -, hkeeps⟩
          exact ⟨hn, hkeeps⟩

-- ---------------------------------------------------------------------------
-- Conversions to ints
-- ---------------------------------------------------------------------------

theorem sparing_toIntHandler {kind : Kind} {machine : Machine} {args : List Ref} {body : Handler}
    (h : kind.handler .toInt = some body) : Sparing (body machine args) := by
  cases kind with
  | int => cases h; unfold Numbers.itself; infer_instance
  | float => cases h; unfold Numbers.floatToInt Numbers.floatOrZero createInt; infer_instance
  | string =>
    cases h
    unfold Strings.toInt Strings.bytesOfArgument Strings.ofArgument createInt
    infer_instance
  | buffer =>
    cases h
    have htext (object : Ref) : Sparing (Buffers.textBytes object) := by
      unfold Buffers.textBytes
      refine .bind fun payload => ?_
      split <;> infer_instance
    unfold Buffers.toInt createInt
    infer_instance
  | _ => cases h

instance sparing_toInt (host : Host) (rounds : Nat) (o : Ref) : Sparing ((machine host rounds).toInt o) := by
  have hanswer (kind : Kind) (args : List Ref) : Sparing ((machine host rounds).behave kind .toInt args) := by
    cases rounds with
    | zero => exact sparing_exhausted
    | succ rounds =>
      show Sparing (behave host (rounds + 1) kind .toInt args)
      unfold behave
      split
      · rename_i body hbody
        exact sparing_toIntHandler hbody
      · infer_instance
  have hexpect (o : Ref) : Sparing (Dispatcher.expectInt o) := by
    unfold Dispatcher.expectInt
    refine .bind fun payload => ?_
    split <;> infer_instance
  unfold Dispatcher.toInt Dispatcher.unary Dispatcher.dispatch
  refine .bind fun payload => ?_
  split <;> infer_instance

instance sparing_intArgument (host : Host) (rounds : Nat) (args : List Ref) (index : Nat) :
    Sparing ((machine host rounds).intArgument args index) := by
  unfold Dispatcher.intArgument; infer_instance

end ObjectModel
