import ObjectModel.Proofs.Operators.Sparing
import ObjectModel.Proofs.Text.Conversions

/-!
# Operands of ints

The right operand of an int is converted to an int first. Ints, floats, strings and buffers stand for one, and
this does not depend on who holds them or on what else is made (`State.StandsFor`). Operations on an int make
what they compute from it and from the int that the other object stands for, and nothing else
(`ends_binary_onInts`).
-/

namespace ObjectModel

open ObjectModel.Action Behavior

variable {s t : State} {o p : Ref} {n a b : Int64} {rounds : Nat}

-- ---------------------------------------------------------------------------
-- Ints that objects stand for
-- ---------------------------------------------------------------------------

namespace State

def int? (s : State) (o : Ref) : Option Int64 :=
  match s.payload o with
  | .int n => some n
  | .float x => some x.toInt
  | .string text => some (Numeral.leadingInt (Bytes.ofText text))
  | .buffer b => some (Numeral.leadingInt ((b.textBytes? s.memory).getD []))
  | _ => none

/-- The object stands for an int, which is found in as many rounds. Ints are found in none. -/
structure StandsFor (s : State) (rounds : Nat) (o : Ref) (n : Int64) : Prop where
  int : s.int? o = some n
  rounds : rounds = 0 → s.payload o = .int n

theorem StandsFor.of_int (h : s.payload o = .int n) : s.StandsFor rounds o n :=
  ⟨by simp only [int?, h], fun _ => h⟩

theorem StandsFor.of_string {text : String} (h : s.payload o = .string text)
    (hn : Numeral.leadingInt (Bytes.ofText text) = n) : s.StandsFor (rounds + 1) o n :=
  ⟨by simp only [int?, h, hn], nofun⟩

theorem payload_of_int (h : s.kind o = .int) : ∃ n, s.payload o = .int n := by
  cases ho : s.payload o <;> simp [kind, ho, Payload.kind] at h ⊢

theorem contains_of_int? (h : s.int? o = some n) : s.heap.Contains o := by
  refine contains_of_kind_ne fun hkind => ?_
  unfold int? at h
  unfold kind at hkind
  cases ho : s.payload o <;> rw [ho] at h hkind <;> cases h <;> cases hkind

theorem StandsFor.grown {note : Option (Std.TreeSet Nat)} (h : s.StandsFor rounds o n)
    (hgrown : s.Grown t note) : t.StandsFor rounds o n := by
  have hkept := hgrown.kept o (contains_of_int? h.int)
  have hmemory : t.memory = s.memory := by rw [hgrown.rest]
  exact ⟨by rw [int?, hkept, hmemory]; exact h.int, fun hrounds => by rw [hkept]; exact h.rounds hrounds⟩

theorem StandsFor.held (h : s.StandsFor rounds o n) (held : List (List Ref)) :
    (s.withHeld held).StandsFor rounds o n := ⟨h.int, h.rounds⟩

end State

theorem ends_behave_of_none {kind : Kind} {operation : Operation} (host : Host) (rounds : Nat) (args : List Ref)
    (h : kind.handler operation = none) {Q : Ref → State → Prop} {E : State → Prop} :
    (behave host (rounds + 1) kind operation args).Ends s Q E ↔ E (s.faulting (.undefined operation kind)) := by
  unfold behave
  rw [h, ends_raise]

theorem ends_toInt (host : Host) (rounds : Nat) (s : State) (o : Ref) :
    ((machine host (rounds + 1)).toInt o).Ends s (fun n t => s.int? o = some n ∧ s.Grown t s.shown)
      fun _ => s.int? o = none := by
  have hanswer (handler : Handler) {n : Int64} (h : (s.kind o).handler .toInt = some handler)
      (hmakes : (handler (machine host rounds) [o]).Ends s (s.Makes (.int n)) fun _ => False) :
      ((machine host (rounds + 1)).unary .toInt o >>= Dispatcher.expectInt).Ends s
        (fun m t => some n = some m ∧ s.Grown t s.shown) fun _ => some n = none := by
    rw [ends_bind, Dispatcher.unary, Dispatcher.ends_dispatch]
    refine (ends_behave handler host rounds _ h).mpr (hmakes.imp_sure ?_)
    rintro _ _ ⟨rfl, rfl⟩
    simp only [Dispatcher.expectInt, ends_bind, ends_payload, payload_made_next, ends_pure]
    exact ⟨trivial, .made s _⟩
  unfold Dispatcher.toInt State.int?
  rw [ends_bind, ends_payload]
  cases ho : s.payload o with
  | int n => exact ⟨rfl, .refl s⟩
  | float x =>
    refine hanswer Numbers.floatToInt (by rw [State.kind_of_payload ho]; rfl) ?_
    simp only [Numbers.floatToInt, Numbers.floatOrZero, ends_bind, ends_argument_first, ends_payload, ho,
      ends_pure, ends_createInt]
    exact ⟨rfl, rfl⟩
  | string text =>
    refine hanswer Strings.toInt (by rw [State.kind_of_payload ho]; rfl) ?_
    rw [Strings.toInt, ends_bind, Strings.ends_bytesOfArgument ho, ends_createInt]
    exact ⟨rfl, rfl⟩
  | buffer b =>
    refine hanswer Buffers.toInt (by rw [State.kind_of_payload ho]; rfl) ?_
    simp only [Buffers.toInt, Buffers.textBytes, ends_bind, ends_argument_first, ends_payload, ho, ends_get,
      ends_pure, ends_createInt]
    exact ⟨rfl, rfl⟩
  | _ =>
    have hnone : (s.kind o).handler .toInt = none := by rw [State.kind_of_payload ho]; rfl
    show ((machine host (rounds + 1)).unary .toInt o >>= Dispatcher.expectInt).Ends s _ _
    rw [ends_bind, Dispatcher.unary, Dispatcher.ends_dispatch]
    exact (ends_behave_of_none host rounds _ hnone).mpr rfl

theorem toInt_exhausted (host : Host) (ho : s.kind o ≠ .int) : ¬ ((machine host 0).toInt o).Halts s := by
  unfold Halts Dispatcher.toInt
  rw [ends_bind, ends_payload]
  unfold State.kind at ho
  cases hpayload : s.payload o with
  | int n => exact absurd (by rw [hpayload]; rfl) ho
  | _ => exact id

/-- Where a conversion to an int succeeds, it gives the int that the object stands for. -/
theorem State.StandsFor.of_run {host : Host} (h : ((machine host rounds).toInt o).run s = .ok n t) :
    s.StandsFor rounds o n := by
  by_cases hkind : s.kind o = .int
  · obtain ⟨m, hm⟩ := State.payload_of_int hkind
    rw [Dispatcher.run_toInt _ hm] at h
    cases h
    exact .of_int hm
  · cases rounds with
    | zero => exact absurd ((ends_of_run h).mpr trivial) (toInt_exhausted host hkind)
    | succ rounds => exact ⟨((ends_of_run h).mp (ends_toInt host rounds s o)).1, nofun⟩

theorem State.StandsFor.ends_toInt (h : s.StandsFor rounds o n) (host : Host) :
    ((machine host rounds).toInt o).Ends s (fun m t => m = n ∧ s.Grown t s.shown) fun _ => False := by
  cases rounds with
  | zero => exact (Dispatcher.ends_toInt _ (h.rounds rfl)).mpr ⟨rfl, .refl s⟩
  | succ rounds =>
    refine (ObjectModel.ends_toInt host rounds s o).imp (fun m t hm => ?_) fun t hnone => ?_
    · exact ⟨Option.some.inj (hm.1.symm.trans h.int), hm.2⟩
    · exact nomatch hnone.symm.trans h.int

-- ---------------------------------------------------------------------------
-- Operations on ints
-- ---------------------------------------------------------------------------

namespace State

/-- The answer is a number that was made, and nothing else is another. -/
def AnswersInt (s : State) (n : Int64) (answer : Ref) (t : State) : Prop :=
  t.payload answer = .int n ∧ s.Grown t s.shown

end State

theorem Behavior.Numbers.ends_intOperands (host : Host) (ho : s.payload o = .int a)
    (hp : s.StandsFor rounds p b) : (intOperands (machine host rounds) [o, p]).Ends s
      (fun operands t => operands = (a, b) ∧ s.Grown t s.shown) fun _ => False := by
  simp only [intOperands, Dispatcher.intArgument, ends_bind, ends_argument_first, ends_argument_second,
    Dispatcher.ends_toInt _ ho, ends_pure]
  refine (hp.ends_toInt host).imp_value ?_
  rintro _ t ⟨rfl, hgrown⟩
  exact ⟨rfl, hgrown⟩

theorem ends_binary_onInts (host : Host) (ho : s.payload o = .int a) (hp : s.StandsFor rounds p b)
    {operation : Operation} {compute : Int64 → Int64 → Int64}
    (h : Kind.int.handler operation = some (Numbers.onInts compute)) :
    ((machine host (rounds + 1)).binary operation o p).Ends s (s.AnswersInt (compute a b)) fun _ => False := by
  have hheld : (s.withHeld ([o, p] :: s.held)).payload o = .int a := ho
  rw [ends_binary host rounds (State.kind_of_payload ho) h, Numbers.onInts, ends_bind]
  refine (Numbers.ends_intOperands host hheld (hp.held _)).imp_value ?_
  rintro _ t ⟨rfl, hgrown⟩
  rw [ends_createInt]
  exact ⟨payload_made_next .., (hgrown.thenMade _).unheld⟩

theorem ends_binary_onIntsNonzero (host : Host) (ho : s.payload o = .int a) (hp : s.StandsFor rounds p b)
    {operation : Operation} {fault : Fault} {compute : Int64 → Int64 → Int64}
    (h : Kind.int.handler operation = some (Numbers.onIntsNonzero fault compute)) :
    ((machine host (rounds + 1)).binary operation o p).Ends s
      (fun answer t => b ≠ 0 ∧ s.AnswersInt (compute a b) answer t) fun t => b = 0 ∧ s.Raised fault t := by
  have hheld : (s.withHeld ([o, p] :: s.held)).payload o = .int a := ho
  rw [ends_binary host rounds (State.kind_of_payload ho) h, Numbers.onIntsNonzero, ends_bind]
  refine (Numbers.ends_intOperands host hheld (hp.held _)).imp_sure ?_
  rintro _ t ⟨rfl, hgrown⟩
  by_cases hzero : b = 0
  · simp only [hzero, if_true, ends_bind, ends_raise]
    exact ⟨trivial, (hgrown.thenRaised (t.raised_faulting fault)).unheld⟩
  · simp only [hzero, if_false, ends_createInt]
    exact ⟨hzero, payload_made_next .., (hgrown.thenMade _).unheld⟩

end ObjectModel
