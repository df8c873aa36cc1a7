import ObjectModel.Proofs.Laws.Machines

/-!
# What a run ends in

`Ends` says of the run of an action that it has an end, and what holds of it: of the value and the state
for a run that gives a value, of the state for a run that raises. It takes sequences and the steps of
actions apart by rewriting, so that what a handler does is read off its text.
-/

namespace ObjectModel

namespace State

/-- The state while other objects are held on behalf of operations. -/
def withHeld (s : State) (held : List (List Ref)) : State := { s with held }

def deeper (s : State) : State := { s with delegations := s.delegations + 1 }

def shallower (s : State) : State := { s with delegations := s.delegations - 1 }

def framed (s : State) (callable : Ref) : State := { s with frames := callable :: s.frames }

def inside (s : State) (scope : Ref) : State := { s with scopes := scope :: s.scopes }

/-- How many calls and delegations still fit inside one another. -/
def room (s : State) : Nat := s.limits.depth - s.depth

variable (s : State) (held : List (List Ref)) (o : Ref)

@[simp] theorem payload_withHeld : (s.withHeld held).payload o = s.payload o := rfl
@[simp] theorem kind_withHeld : (s.withHeld held).kind o = s.kind o := rfl
@[simp] theorem held_withHeld : (s.withHeld held).held = held := rfl
@[simp] theorem withHeld_withHeld (inner : List (List Ref)) :
    (s.withHeld held).withHeld inner = s.withHeld inner := rfl

@[simp] theorem room_withHeld : (s.withHeld held).room = s.room := rfl
@[simp] theorem limits_withHeld : (s.withHeld held).limits = s.limits := rfl
@[simp] theorem limits_deeper : s.deeper.limits = s.limits := rfl

@[simp] theorem room_deeper : s.deeper.room = s.room - 1 := by
  simp only [room, deeper, depth]
  omega

@[simp] theorem room_framed (callable : Ref) : (s.framed callable).room = s.room - 1 := by
  simp only [room, framed, depth, List.length_cons]
  omega

theorem room_eq_zero : s.room = 0 ↔ s.limits.depth ≤ s.depth := Nat.sub_eq_zero_iff_le

@[simp] theorem size_made (payload : Payload) : (s.made payload).heap.size = s.heap.size + 1 := by
  simp [made, Heap.push, Heap.size]

@[simp] theorem size_stored (payload : Payload) : (s.stored o payload).heap.size = s.heap.size := by
  simp [stored, Heap.set, Heap.size]

theorem contains_stored (payload : Payload) (other : Ref) :
    (s.stored o payload).heap.Contains other ↔ s.heap.Contains other := by
  simp only [Heap.Contains, size_stored]

@[simp] theorem stored_stored (first second : Payload) :
    (s.stored o first).stored o second = s.stored o second := by
  simp only [stored, Heap.set, Array.setIfInBounds_setIfInBounds]

variable {s : State} {o : Ref}

theorem stored_self {payload : Payload} (h : s.payload o = payload) :
    s.stored o payload = s := by
  have hsame : s.heap.payloads.setIfInBounds o.index payload = s.heap.payloads := by
    refine Array.ext (by simp) fun i _ hi => ?_
    by_cases hindex : o.index = i
    · subst hindex
      simp [← h, State.payload, Heap.get, hi]
    · exact Array.getElem_setIfInBounds_ne hi hindex
  simp only [stored, Heap.set, hsame]

theorem kind_of_payload {found : Payload} (h : s.payload o = found) : s.kind o = found.kind :=
  congrArg Payload.kind h

theorem payload_of_string (h : s.kind o = .string) : ∃ text, s.payload o = .string text := by
  cases ho : s.payload o <;> simp [kind, ho, Payload.kind] at h ⊢

theorem payload_of_buffer (h : s.kind o = .buffer) : ∃ made, s.payload o = .buffer made := by
  cases ho : s.payload o <;> simp [kind, ho, Payload.kind] at h ⊢

theorem payload_of_list (h : s.kind o = .list) : ∃ items, s.payload o = .list items := by
  cases ho : s.payload o <;> simp [kind, ho, Payload.kind] at h ⊢

theorem payload_of_map (h : s.kind o = .map) : ∃ cells, s.payload o = .map cells := by
  cases ho : s.payload o <;> simp [kind, ho, Payload.kind] at h ⊢

theorem payload_of_cell (h : s.kind o = .cell) : ∃ key value, s.payload o = .cell key value := by
  cases ho : s.payload o <;> simp [kind, ho, Payload.kind] at h ⊢

theorem payload_of_function (h : s.kind o = .function) :
    ∃ function, s.payload o = .function function := by
  cases ho : s.payload o <;> simp [kind, ho, Payload.kind] at h ⊢

theorem payload_of_native (h : s.kind o = .native) : ∃ function, s.payload o = .native function := by
  cases ho : s.payload o <;> simp [kind, ho, Payload.kind] at h ⊢

end State

namespace Action

variable {α β : Type}

/-- The run has an end, of which `Q` holds if it gives a value and `E` if it raises. -/
def Ends (action : Action α) (s : State) (Q : α → State → Prop) (E : State → Prop) : Prop :=
  match action.run s with
  | .ok a t => Q a t
  | .error .raised t => E t
  | .error .exhausted _ => False

variable {s t : State} {Q R : α → State → Prop} {E F : State → Prop}

theorem Ends.imp {action : Action α} (h : action.Ends s Q E) (hQ : ∀ a t, Q a t → R a t)
    (hE : ∀ t, E t → F t) : action.Ends s R F := by
  unfold Ends at *
  split at h
  · exact hQ _ _ h
  · exact hE _ h
  · exact h

theorem Ends.imp_value {action : Action α} (h : action.Ends s Q E) (hQ : ∀ a t, Q a t → R a t) :
    action.Ends s R E := h.imp hQ fun _ h => h

theorem Ends.imp_sure {action : Action α} (h : action.Ends s Q fun _ => False)
    (hQ : ∀ a t, Q a t → R a t) : action.Ends s R F := h.imp hQ fun _ h => h.elim

theorem Ends.and {action : Action α} (h : action.Ends s Q E) (h' : action.Ends s R F) :
    action.Ends s (fun a t => Q a t ∧ R a t) fun t => E t ∧ F t := by
  unfold Ends at *
  split at h
  · rename_i hrun
    rw [hrun] at h'
    exact ⟨h, h'⟩
  · rename_i hrun
    rw [hrun] at h'
    exact ⟨h, h'⟩
  · exact h

/-- What holds of a run that gives a value may be used of that run. -/
theorem Ends.and_run {action : Action α} (h : action.Ends s Q E) :
    action.Ends s (fun a t => Q a t ∧ action.run s = .ok a t) E := by
  unfold Ends at *
  split at h
  · exact ⟨h, ‹_›⟩
  · exact h
  · exact h

theorem ends_of_run {action : Action α} (h : action.run s = .ok a t) :
    action.Ends s Q E ↔ Q a t := by
  simp [Ends, h]

theorem ends_of_raised {action : Action α} (h : action.run s = .error .raised t) :
    action.Ends s Q E ↔ E t := by
  simp [Ends, h]

theorem Ends.exists_run {action : Action α} (h : action.Ends s Q fun _ => False) :
    ∃ a t, action.run s = .ok a t ∧ Q a t := by
  unfold Ends at h
  split at h
  · exact ⟨_, _, ‹_›, h⟩
  · exact h.elim
  · exact h.elim

/-- What holds of a run in whichever way it ends holds of the state that it ends in. -/
theorem Ends.of_ending? {action : Action α} {P : State → Prop} {e : Ending}
    (h : action.Ends s (fun _ u => P u) P) (hend : action.ending? s = some (e, t)) : P t := by
  rcases ending?_cases hend with ⟨a, ha, -⟩ | ⟨ha, -⟩
  · exact (ends_of_run ha).mp h
  · exact (ends_of_raised ha).mp h

def Halts (action : Action α) (s : State) : Prop := action.Ends s (fun _ _ => True) fun _ => True

theorem halts_of_ending? {action : Action α} {e : Ending} (h : action.ending? s = some (e, t)) :
    action.Halts s := by
  rcases ending?_cases h with ⟨a, ha, -⟩ | ⟨ha, -⟩
  · exact (ends_of_run ha).mpr trivial
  · exact (ends_of_raised ha).mpr trivial

theorem Ends.halts {action : Action α} (h : action.Ends s Q E) : action.Halts s :=
  h.imp (fun _ _ _ => trivial) fun _ _ => trivial

-- ---------------------------------------------------------------------------
-- Sequences and steps
-- ---------------------------------------------------------------------------

@[simp] theorem ends_bind (x : Action β) (f : β → Action α) :
    (x >>= f).Ends s Q E ↔ x.Ends s (fun b t => (f b).Ends t Q E) E := by
  unfold Ends
  rw [EStateM.run_bind]
  cases x.run s with
  | ok => rfl
  | error stop => cases stop <;> rfl

@[simp] theorem ends_discard (x : Action β) {Q : Unit → State → Prop} :
    (discard x).Ends s Q E ↔ x.Ends s (fun _ t => Q () t) E := by
  rw [discard_eq, ends_bind]
  rfl

@[simp] theorem ends_pure (a : α) : (pure a : Action α).Ends s Q E ↔ Q a s := .rfl

@[simp] theorem ends_map (f : β → α) (x : Action β) :
    (f <$> x).Ends s Q E ↔ x.Ends s (fun b t => Q (f b) t) E := by
  have hbind : f <$> x = x >>= fun b => pure (f b) := map_eq_pure_bind f x
  rw [hbind, ends_bind]
  rfl

@[simp] theorem ends_get {Q : State → State → Prop} :
    (get : Action State).Ends s Q E ↔ Q s s := .rfl

@[simp] theorem ends_modify (f : State → State) {Q : Unit → State → Prop} :
    (modify f : Action Unit).Ends s Q E ↔ Q () (f s) := .rfl

@[simp] theorem ends_raise (fault : Fault) :
    (raise fault : Action α).Ends s Q E ↔ E (s.faulting fault) := .rfl

@[simp] theorem ends_payload (o : Ref) {Q : Payload → State → Prop} :
    (payload o).Ends s Q E ↔ Q (s.payload o) s := .rfl

@[simp] theorem ends_kind (o : Ref) {Q : Kind → State → Prop} :
    (kind o).Ends s Q E ↔ Q (s.kind o) s := .rfl

@[simp] theorem ends_nothing {Q : Ref → State → Prop} : nothing.Ends s Q E ↔ Q s.nothing s := .rfl

@[simp] theorem ends_isNothing (o : Ref) {Q : Bool → State → Prop} :
    (isNothing o).Ends s Q E ↔ Q (decide (o = s.nothing)) s := .rfl

@[simp] theorem ends_nameBytes? (o : Ref) {Q : Option Bytes → State → Prop} :
    (nameBytes? o).Ends s Q E ↔ Q (s.nameBytes? o) s := .rfl

@[simp] theorem ends_orNothing (object : Option Ref) {Q : Ref → State → Prop} :
    (orNothing object).Ends s Q E ↔ Q (object.getD s.nothing) s := by
  simp [Ends]

@[simp] theorem ends_argument (args : List Ref) (index : Nat) {Q : Ref → State → Prop} :
    (argument args index).Ends s Q E ↔ Q (args[index]?.getD s.nothing) s := by
  simp [Ends]

@[simp] theorem ends_argument_first (o : Ref) (rest : List Ref) {Q : Ref → State → Prop} :
    (argument (o :: rest) 0).Ends s Q E ↔ Q o s := ends_argument (o :: rest) 0

@[simp] theorem ends_argument_second (o p : Ref) (rest : List Ref) {Q : Ref → State → Prop} :
    (argument (o :: p :: rest) 1).Ends s Q E ↔ Q p s := ends_argument (o :: p :: rest) 1

@[simp] theorem ends_argument_third (o p q : Ref) (rest : List Ref) {Q : Ref → State → Prop} :
    (argument (o :: p :: q :: rest) 2).Ends s Q E ↔ Q q s := ends_argument (o :: p :: q :: rest) 2

@[simp] theorem ends_optional (args : List Ref) (index : Nat) {Q : Option Ref → State → Prop} :
    (optional args index).Ends s Q E ↔ Q (args[index]?.filter (· ≠ s.nothing)) s := by
  unfold optional
  cases args[index]? with
  | none => rfl
  | some o => by_cases h : o = s.nothing <;> simp [h, Option.filter]

@[simp] theorem ends_create (payload : Payload) {Q : Ref → State → Prop} :
    (create payload).Ends s Q E ↔ Q s.heap.next (s.made payload) := .rfl

@[simp] theorem ends_createInt (n : Int64) {Q : Ref → State → Prop} :
    (createInt n).Ends s Q E ↔ Q s.heap.next (s.made (.int n)) := .rfl

@[simp] theorem ends_createString (text : String) {Q : Ref → State → Prop} :
    (createString text).Ends s Q E ↔ Q s.heap.next (s.made (.string text)) := .rfl

@[simp] theorem ends_store (o : Ref) (payload : Payload) {Q : Unit → State → Prop} :
    (store o payload).Ends s Q E ↔ Q () (s.stored o payload) := .rfl

-- ---------------------------------------------------------------------------
-- Steps around an action
-- ---------------------------------------------------------------------------

@[simp] theorem ends_holding (objects : List Ref) (action : Action α) :
    (holding objects action).Ends s Q E ↔ action.Ends (s.withHeld (objects :: s.held))
      (fun a t => Q a (t.withHeld s.held)) fun t => E (t.withHeld s.held) := by
  unfold Ends State.withHeld
  rw [run_holding]
  cases action.run { s with held := objects :: s.held } with
  | ok => rfl
  | error stop => cases stop <;> rfl

theorem ends_checkDepth {Q : Unit → State → Prop} : checkDepth.Ends s Q E ↔
    (s.room = 0 → E (s.faulting (.depth s.limits.depth))) ∧ (s.room ≠ 0 → Q () s) := by
  unfold Ends
  rw [run_checkDepth]
  by_cases h : s.limits.depth ≤ s.depth <;> simp [h, State.room_eq_zero]

theorem ends_attempt (action : Action α) {Q : Option α → State → Prop} :
    (attempt action).Ends s Q E ↔ action.Ends s (fun a t => Q (some a) t) (Q none) := by
  unfold Ends
  rw [run_attempt]
  cases action.run s with
  | ok => rfl
  | error stop => cases stop <;> rfl

theorem ends_takePending {Q : Option Pending → State → Prop} :
    takePending.Ends s Q E ↔ Q s.pending { s with pending := none } := .rfl

theorem ends_followedBy (action : Action α) (after : Action Unit) :
    (followedBy action after).Ends s Q E ↔
      action.Ends s (fun a t => after.Ends t (fun _ u => Q a u) E)
        fun t => after.Ends t (fun _ => E) E := by
  unfold Ends
  rw [run_followedBy]
  cases action.run s with
  | ok a t =>
    dsimp only
    cases after.run t with
    | ok => rfl
    | error stop => cases stop <;> rfl
  | error stop t =>
    cases stop with
    | raised =>
      dsimp only
      cases after.run t with
      | ok => rfl
      | error stop => cases stop <;> rfl
    | exhausted => rfl

theorem ends_followedBy_modify (action : Action α) (f : State → State) :
    (followedBy action (modify f)).Ends s Q E ↔
      action.Ends s (fun a t => Q a (f t)) fun t => E (f t) := by
  simp only [ends_followedBy, ends_modify]

theorem ends_inFrame (callable : Ref) (action : Action α) : (inFrame callable action).Ends s Q E ↔
    (s.room = 0 → E (s.faulting (.depth s.limits.depth))) ∧
    (s.room ≠ 0 → (followedBy action (popFrame callable)).Ends (s.framed callable) Q E) := by
  simp only [inFrame, pushFrame, ends_bind, ends_checkDepth, ends_modify]
  rfl

theorem ends_popFrame {callable : Ref} {rest : List Ref} (h : s.frames = callable :: rest)
    {Q : Unit → State → Prop} :
    (popFrame callable).Ends s Q E ↔ Q () { s with frames := rest } := by
  simp only [popFrame, ends_bind, ends_get, h, ends_modify, if_true, ends_pure]

theorem ends_inScope (scope : Ref) (action : Action α) : (inScope scope action).Ends s Q E ↔
    action.Ends (s.inside scope) (fun a t => Q a t.unscoped) fun t => E t.unscoped := by
  have hpop : (discard popScope : Action Unit) = modify State.unscoped := funext run_discard_popScope
  simp only [inScope, pushScope, hpop, ends_bind, ends_modify, ends_followedBy_modify]
  rfl

theorem ends_delegated (action : Action α) : (delegated action).Ends s Q E ↔
    (s.room = 0 → E (s.faulting (.depth s.limits.depth))) ∧
    (s.room ≠ 0 → action.Ends s.deeper (fun a t => Q a t.shallower) fun t => E t.shallower) := by
  simp only [delegated, ends_bind, ends_checkDepth, ends_modify, ends_followedBy_modify]
  rfl

-- ---------------------------------------------------------------------------
-- Runs that have an end
-- ---------------------------------------------------------------------------

theorem halts_popFrame (callable : Ref) : (popFrame callable).Halts s := by
  simp only [Halts, popFrame, ends_bind, ends_get]
  split
  · simp
  · by_cases h : ‹Ref› = callable <;> simp [h]

theorem halts_inFrame (callable : Ref) (action : Action α) :
    (inFrame callable action).Halts s ↔ (s.room ≠ 0 → action.Halts (s.framed callable)) := by
  rw [Halts, ends_inFrame]
  refine ⟨fun h hroom => ?_, fun h => ⟨fun _ => trivial, fun hroom => ?_⟩⟩
  · exact ((ends_followedBy ..).mp (h.2 hroom)).halts
  · exact (ends_followedBy ..).mpr ((h hroom).imp (fun _ _ _ => halts_popFrame callable)
      fun _ _ => halts_popFrame callable)

theorem halts_inScope (scope : Ref) (action : Action α) :
    (inScope scope action).Halts s ↔ action.Halts (s.inside scope) := ends_inScope scope action

end Action

namespace Dispatcher

open ObjectModel.Action

variable (run : Dispatcher) {s : State} {o : Ref} {value : Int64} (h : s.payload o = .int value)
include h

theorem run_toInt : (run.toInt o).run s = .ok value s := by
  simp only [toInt, EStateM.run_bind, run_payload, h, EStateM.run_pure]

theorem ends_toInt {Q : Int64 → State → Prop} {E : State → Prop} : (run.toInt o).Ends s Q E ↔ Q value s :=
  ends_of_run (run.run_toInt h)

end Dispatcher

end ObjectModel
