import ObjectModel.Proofs.Laws.Endings
import ObjectModel.Proofs.Rendering.Answers

/-!
# The order of objects that ask no others

All pairs but two lists, and but a buffer and a string, tell their order by themselves: they make an
int, and change nothing that was there (`ends_compare_leaf`).
-/

namespace ObjectModel

open ObjectModel.Action Behavior

variable {s : State} {left right : Ref}

-- ---------------------------------------------------------------------------
-- Comparisons and their answers
-- ---------------------------------------------------------------------------

theorem ends_behave {kind : Kind} {operation : Operation} (handler : Handler) (host : Host) (rounds : Nat)
    (args : List Ref) (h : kind.handler operation = some handler) {Q : Ref → State → Prop}
    {E : State → Prop} : (behave host (rounds + 1) kind operation args).Ends s Q E ↔
      (handler (machine host rounds) args).Ends s Q E := by
  rw [behave_succ handler host rounds args h]

@[simp] theorem Dispatcher.ends_dispatch (run : Dispatcher) (operation : Operation) (o : Ref)
    (rest : List Ref) {Q : Ref → State → Prop} {E : State → Prop} :
    (run.dispatch operation (o :: rest)).Ends s Q E ↔
      (run.behave (s.kind o) operation (o :: rest)).Ends s Q E := .rfl

section Answers

variable (host : Host) (rounds : Nat) {o key value : Ref} {kind : Kind} {operation : Operation} {handler : Handler}

theorem ends_binary (hkind : s.kind left = kind) (h : kind.handler operation = some handler)
    {Q : Ref → State → Prop} {E : State → Prop} : ((machine host (rounds + 1)).binary operation left right).Ends s Q E ↔
      (handler (machine host rounds) [left, right]).Ends (s.withHeld ([left, right] :: s.held))
        (fun a t => Q a (t.withHeld s.held)) fun t => E (t.withHeld s.held) := by
  rw [Dispatcher.binary, ends_holding, Dispatcher.ends_dispatch, State.kind_withHeld, hkind]
  exact ends_behave handler host rounds _ h

theorem ends_setIndex (hkind : s.kind o = kind) (h : kind.handler .setIndex = some handler)
    {Q : Unit → State → Prop} {E : State → Prop} : ((machine host (rounds + 1)).setIndex o key value).Ends s Q E ↔
      (handler (machine host rounds) [o, key, value]).Ends (s.withHeld ([o, key, value] :: s.held))
        (fun _ t => Q () (t.withHeld s.held)) fun t => E (t.withHeld s.held) := by
  rw [Dispatcher.setIndex, ends_discard, ends_holding, Dispatcher.ends_dispatch, State.kind_withHeld, hkind]
  exact ends_behave handler host rounds _ h

end Answers

/-- The order that an answer to a comparison stands for. -/
def State.verdict (s : State) (answer : Ref) : Int64 :=
  match s.payload answer with
  | .int value => Integer.sign value
  | _ => 1

theorem State.verdict_int {answer : Ref} (h : s.payload answer = .int n) :
    s.verdict answer = Integer.sign n := by
  simp [verdict, h]

theorem Integer.ofOrdering_mem (o : Ordering) : Integer.ofOrdering o ∈ [-1, 0, 1] := by
  cases o <;> simp [Integer.ofOrdering]

theorem Integer.sign_mem (n : Int64) : Integer.sign n ∈ [-1, 0, 1] := Integer.ofOrdering_mem _

theorem Integer.sign_ofOrdering (o : Ordering) : Integer.sign (Integer.ofOrdering o) = Integer.ofOrdering o := by
  cases o <;> decide

theorem Integer.ofOrdering_eq_zero {o : Ordering} : Integer.ofOrdering o = 0 ↔ o = .eq := by
  cases o <;> decide

theorem Dispatcher.ends_compare (run : Dispatcher) (left right : Ref) {Q : Int64 → State → Prop}
    {E : State → Prop} : (run.compare left right).Ends s Q E ↔
      (run.behave (s.kind left) .compare [left, right]).Ends (s.withHeld ([left, right] :: s.held))
        (fun answer t => Q (t.verdict answer) (t.withHeld s.held)) fun t => E (t.withHeld s.held) := by
  simp only [compare, binary, ends_bind, ends_holding, ends_dispatch, ends_payload,
    State.payload_withHeld, State.kind_withHeld]
  refine ⟨fun h => h.imp_value (fun answer t h => ?_),
    fun h => h.imp_value (fun answer t h => ?_)⟩
  · unfold State.verdict
    cases hp : t.payload answer <;> simpa [hp] using h
  · unfold State.verdict at h
    cases hp : t.payload answer <;> simpa [hp] using h

-- ---------------------------------------------------------------------------
-- Leaves
-- ---------------------------------------------------------------------------

/-- The two are not two lists, and not a buffer and a string, which is made a buffer first. -/
def State.Leaf (s : State) (left right : Ref) : Prop :=
  ¬ (s.kind left = .list ∧ s.kind right = .list) ∧ ¬ (s.kind left = .buffer ∧ s.kind right = .string)

def State.leafOrder (s : State) (left right : Ref) : Int64 :=
  match s.payload left, s.payload right with
  | .int a, .int b => Integer.ofOrdering (Integer.order a b)
  | .float a, .float b => ((a.order? b).map Integer.ofOrdering).getD 1
  | .string a, .string b => Integer.ofOrdering (Bytes.order (Bytes.ofText a) (Bytes.ofText b))
  | .string a, .buffer b =>
    Integer.ofOrdering (Bytes.order (Bytes.ofText a) (Bytes.ofText (b.text s.memory)))
  | .buffer a, .buffer b => Buffers.order s.memory a.view b.view
  | .int _, _ | .float _, _ | .string _, _ | .buffer _, _ | .list _, _ => 1
  | _, _ => if left = right then 0 else 1

/-- What a leaf answers is an int that it makes. A string asks a buffer for its text first. -/
theorem ends_leafOrder (host : Host) (rounds : Nat) (h : s.Leaf left right)
    (hbuffer : ¬ (s.kind left = .string ∧ s.kind right = .buffer)) :
    (behave host (rounds + 1) (s.kind left) .compare [left, right]).Ends s
      (fun answer t => t.payload answer = .int (s.leafOrder left right) ∧ s.Grown t s.shown)
      fun _ => False := by
  have hmade (n : Int64) : (createInt n).Ends s
      (fun answer t => t.payload answer = .int n ∧ s.Grown t s.shown) fun _ => False :=
    ⟨payload_made_next s _, .made s _⟩
  unfold State.Leaf State.kind at h
  unfold State.kind at hbuffer
  unfold State.kind State.leafOrder
  cases hl : s.payload left with
  | int a =>
    rw [Payload.kind, ends_behave Numbers.intCompare host _ _ rfl]
    simp only [Numbers.intCompare, ends_bind, ends_argument_first, ends_argument_second, ends_payload, hl]
    cases s.payload right <;> exact hmade _
  | float a =>
    rw [Payload.kind, ends_behave Numbers.floatCompare host _ _ rfl]
    simp only [Numbers.floatCompare, ends_bind, ends_argument_first, ends_argument_second, ends_payload, hl]
    cases s.payload right <;> exact hmade _
  | list items =>
    rw [Payload.kind, ends_behave Lists.compare host _ _ rfl]
    simp only [Lists.compare, Lists.itemsOf, ends_bind, ends_argument_first, ends_argument_second,
      ends_payload, ends_pure]
    cases hr : s.payload right with
    | list others => simp [hl, hr, Payload.kind] at h
    | _ => exact hmade _
  | string a =>
    rw [Payload.kind, ends_behave Strings.compare host _ _ rfl]
    simp only [Strings.compare, Strings.bytesOfArgument, Strings.ofArgument, ends_bind,
      ends_argument_first, ends_argument_second, ends_payload, ends_kind, ends_pure, hl, State.kind]
    cases hr : s.payload right with
    | string b =>
      simp only [Payload.kind, ends_bind, Dispatcher.toText, ends_payload, hr]
      exact hmade _
    | buffer b => simp [hl, hr, Payload.kind] at hbuffer
    | _ => exact hmade _
  | buffer a =>
    rw [Payload.kind, ends_behave Buffers.compare host _ _ rfl]
    simp only [Buffers.compare, Buffers.viewOf, ends_bind, ends_argument_first, ends_argument_second,
      ends_payload, ends_pure, ends_kind, hl, State.kind]
    cases hr : s.payload right with
    | string b => simp [hl, hr, Payload.kind] at h
    | buffer b =>
      simp only [Payload.kind, ends_bind, ends_payload, hr]
      exact hmade _
    | _ => exact hmade _
  | _ =>
    rw [Payload.kind, ends_behave Shared.compare host _ _ rfl]
    simp only [Shared.compare, ends_bind, ends_argument_first, ends_argument_second]
    exact hmade _

theorem ends_toText_buffer (host : Host) (rounds : Nat) {o : Ref} (h : s.payload o = .buffer b) :
    ((machine host (rounds + 1)).toText o).Ends s
      (fun text t => text = b.text s.memory ∧ s.Grown t s.shown) fun _ => False := by
  have hkind : s.kind o = .buffer := by simp [State.kind, h, Payload.kind]
  simp only [Dispatcher.toText, ends_bind, ends_payload, h, Dispatcher.unary,
    Dispatcher.ends_dispatch, hkind]
  show (behave host (rounds + 1) .buffer .toText [o]).Ends _ _ _
  rw [ends_behave Buffers.toText host _ _ rfl]
  simp [Buffers.toText, Buffers.textOf, h, Dispatcher.expectText, payload_made_next, State.Grown.made]

theorem ends_leafOrder_buffer (host : Host) (rounds : Nat) (hleft : s.kind left = .string)
    (hright : s.kind right = .buffer) :
    (behave host (rounds + 2) (s.kind left) .compare [left, right]).Ends s
      (fun answer t => t.payload answer = .int (s.leafOrder left right) ∧ s.Grown t s.shown)
      fun _ => False := by
  obtain ⟨text, hl⟩ := State.payload_of_string hleft
  obtain ⟨buffer, hr⟩ := State.payload_of_buffer hright
  rw [hleft, ends_behave Strings.compare host _ _ rfl]
  simp only [Strings.compare, Strings.bytesOfArgument, Strings.ofArgument, ends_bind,
    ends_argument_first, ends_argument_second, ends_payload, ends_kind, ends_pure, hl, hright,
    ends_createInt]
  refine (ends_toText_buffer host rounds hr).imp_value ?_
  rintro _ t ⟨rfl, hgrown⟩
  refine ⟨?_, hgrown.thenMade _⟩
  rw [payload_made_next, State.leafOrder, hl, hr]
  rfl

theorem Dispatcher.ends_compare_of_answer (run : Dispatcher) {n : Int64}
    (h : ∀ held, (run.behave (s.kind left) .compare [left, right]).Ends (s.withHeld held)
      (fun answer t => t.payload answer = .int n ∧ (s.withHeld held).Grown t s.shown) fun _ => False) :
    (run.compare left right).Ends s (fun m t => m = Integer.sign n ∧ s.Grown t s.shown)
      fun _ => False := by
  rw [ends_compare]
  refine (h _).imp_value fun answer t ⟨hint, hgrown⟩ => ?_
  exact ⟨State.verdict_int hint, hgrown.unheld⟩

/-- The two are a leaf, and do not ask each other for a text. -/
def State.Settled (s : State) (left right : Ref) : Prop :=
  s.Leaf left right ∧ ¬ (s.kind left = .string ∧ s.kind right = .buffer)

theorem ends_compare_settled (host : Host) (rounds : Nat) (h : s.Settled left right) :
    ((machine host (rounds + 1)).compare left right).Ends s
      (fun n t => n = Integer.sign (s.leafOrder left right) ∧ s.Grown t s.shown) fun _ => False :=
  Dispatcher.ends_compare_of_answer _ fun held =>
    ends_leafOrder (s := s.withHeld held) host rounds h.1 h.2

theorem ends_compare_leaf (host : Host) (rounds : Nat) (h : s.Leaf left right) :
    ((machine host (rounds + 2)).compare left right).Ends s
      (fun n t => n = Integer.sign (s.leafOrder left right) ∧ s.Grown t s.shown) fun _ => False := by
  by_cases hbuffer : s.kind left = .string ∧ s.kind right = .buffer
  · exact Dispatcher.ends_compare_of_answer _ fun held =>
      ends_leafOrder_buffer (s := s.withHeld held) host rounds hbuffer.1 hbuffer.2
  · exact ends_compare_settled host (rounds + 1) ⟨h, hbuffer⟩

end ObjectModel
