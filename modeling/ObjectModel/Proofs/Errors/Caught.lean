import ObjectModel.Proofs.Calls.Starts
import ObjectModel.Proofs.Errors.Raises

/-!
# Errors are caught

A guarded call never raises (`errors_caught`). It gives the result of the callee, or what the callee left in
the slot, which is then empty. That is the error that was raised last in the course of the call, with the
calls that were under way at that moment, as far as native functions and what runs code trees leave there
what they raised last (`Law.raises`). What the slot held before is of no concern.
-/

namespace ObjectModel

open State ObjectModel.Action

variable {s t : State} {guard callee o : Ref} {args : List Ref}

namespace State

/-- The state that a guarded callee is called in: inside the frame of the guard. -/
def guarding (s : State) (guard callee : Ref) (args : List Ref) : State :=
  ((s.withHeld ([guard] :: (guard :: callee :: args) :: s.held)).framed guard).withHeld
    ([callee] :: [guard] :: (guard :: callee :: args) :: s.held)

def answering (s : State) (flag : Int64) (rest : List Ref) : State :=
  (s.made (.int flag)).made (.list (s.heap.next :: rest).toArray)

theorem grown_answering (s : State) (flag : Int64) (rest : List Ref) :
    s.Grown (s.answering flag rest) s.shown :=
  (Grown.made s (.int flag)).thenMade _

theorem payload_answering_flag (s : State) (flag : Int64) (rest : List Ref) :
    (s.answering flag rest).payload s.heap.next = .int flag := by
  have hlist := Grown.made (s.made (.int flag)) (.list (s.heap.next :: rest).toArray)
  rw [answering, hlist.kept _ (contains_made_next ..), payload_made_next]

/-- The list tells of an error with its traceback. -/
def Tells (s : State) (list error traceback : Ref) : Prop :=
  ∃ zero, s.payload list = .list #[zero, error, traceback] ∧ s.payload zero = .int 0

/-- The list tells what was in the slot of `s`, or of no value and no calls if nothing was; the slot of `t`
is empty, and all objects are what they were. -/
structure Caught (s : State) (list : Ref) (t : State) : Prop where
  pending : ∀ pending, s.pending = some pending → t.Tells list pending.error pending.traceback
  empty : s.pending = none →
    ∃ traceback, t.Tells list s.nothing traceback ∧ t.payload traceback = .list #[]
  emptied : t.pending = none
  kept : ∀ o, s.heap.Contains o → t.payload o = s.payload o

/-- What an error is told of in, once it is out of the slot. -/
def cleared (s : State) : State := { s with pending := none }

theorem caught_pending {pending : Pending} (h : s.pending = some pending) :
    s.Caught (s.cleared.made (.int 0)).heap.next
      (s.cleared.answering 0 [pending.error, pending.traceback]) where
  pending other hother := by
    obtain rfl : pending = other := Option.some.inj (h.symm.trans hother)
    exact ⟨_, payload_made_next .., payload_answering_flag s.cleared 0 _⟩
  empty hnone := nomatch h.symm.trans hnone
  emptied := rfl
  kept := (grown_answering s.cleared 0 _).kept

theorem caught_empty (h : s.pending = none) :
    let flagged := s.cleared.made (.int 0)
    let calls := flagged.made (.list #[])
    s.Caught calls.heap.next (calls.made (.list #[s.heap.next, s.nothing, flagged.heap.next])) := by
  intro flagged calls
  have hanswer := Grown.made calls (.list #[s.heap.next, s.nothing, flagged.heap.next])
  have hcalls := (Grown.made flagged (.list #[])).thenGrown hanswer
  refine ⟨fun pending hsome => (nomatch h.symm.trans hsome),
    fun _ => ⟨_, ⟨_, payload_made_next .., ?_⟩, ?_⟩, rfl,
    ((Grown.made s.cleared (.int 0)).thenGrown hcalls).kept⟩
  · exact (hcalls.kept _ (contains_made_next s.cleared _)).trans (payload_made_next s.cleared _)
  · exact (hanswer.kept _ (contains_made_next ..)).trans (payload_made_next ..)

/-- A guard tells of the error that is pending and of the calls that were under way when it was raised. -/
theorem Caught.last (h : s.Caught o t) {last : Raise} (hlast : s.InSlot last) :
    ∃ traceback, t.Tells o last.error traceback ∧ t.payload traceback = .list last.frames.toArray := by
  obtain ⟨traceback, hslot, hmade, hlist⟩ := hlast
  exact ⟨traceback, h.pending _ hslot, (h.kept _ hmade).trans hlist⟩

end State

namespace Prelude

/-- What a guarded call gives, once the callee has ended. -/
def answer : Option Ref → Action Ref
  | some result => do createList [← createInt 1, result]
  | none => do
    match ← takePending with
    | some pending => createList [← createInt 0, pending.error, pending.traceback]
    | none => createList [← createInt 0, ← nothing, ← createList []]

theorem ends_answer_value (s : State) (result : Ref) :
    (answer (some result)).Ends s
      (fun list t => t.frames = s.frames ∧ t.payload list = .list #[s.heap.next, result] ∧
        t.payload s.heap.next = .int 1)
      fun _ => False :=
  ⟨rfl, payload_made_next .., payload_answering_flag s 1 [result]⟩

theorem ends_answer_raised (s : State) :
    (answer none).Ends s (fun list t => t.frames = s.frames ∧ s.Caught list t) fun _ => False := by
  simp only [answer, ends_bind, ends_takePending]
  cases hslot : s.pending with
  | some pending => exact ⟨rfl, caught_pending hslot⟩
  | none => exact ⟨rfl, caught_empty hslot⟩

theorem protect_eq (machine : Machine) (args : List Ref) :
    protect machine args = (do
      let callee ← argument args 0
      answer (← holding [callee] (attempt (machine.call callee (args.drop 1))))) := rfl

theorem ends_protect (machine : Machine) {Q : Ref → State → Prop} {E : State → Prop} :
    (protect machine (callee :: args)).Ends s Q E ↔
      (machine.call callee args).Ends (s.withHeld ([callee] :: s.held))
        (fun result t => (answer (some result)).Ends (t.withHeld s.held) Q E)
        fun t => (answer none).Ends (t.withHeld s.held) Q E := by
  simp only [protect_eq, ends_bind, ends_argument_first, ends_holding, ends_attempt, List.drop_one,
    List.tail_cons]

end Prelude

theorem ends_call_protect {host : Host} {rounds : Nat}
    (hguard : s.payload guard = .native (.builtin .protect)) (hroom : s.room ≠ 0)
    {Q : Ref → State → Prop} {E : State → Prop} :
    ((machine host (rounds + 1)).call guard (callee :: args)).Ends s Q E ↔
      ((machine host rounds).call callee args).Ends (s.guarding guard callee args)
        (fun result t => (followedBy (Prelude.answer (some result)) (popFrame guard)).Ends
          (t.withHeld ([guard] :: (guard :: callee :: args) :: s.held))
          (fun a u => Q a (u.withHeld s.held)) fun u => E (u.withHeld s.held))
        fun t => (followedBy (Prelude.answer none) (popFrame guard)).Ends
          (t.withHeld ([guard] :: (guard :: callee :: args) :: s.held))
          (fun a u => Q a (u.withHeld s.held)) fun u => E (u.withHeld s.held) := by
  rw [ends_call_native hguard, ends_inFrame]
  simp only [room_withHeld, hroom, false_implies, true_and, ne_eq, not_false_eq_true, true_implies,
    ends_followedBy]
  exact Prelude.ends_protect (machine host rounds)

section Ways

variable {host : Host} [hframes : Host.Obeys .frames host] {rounds : Nat}
  (hguard : s.payload guard = .native (.builtin .protect)) (hroom : s.room ≠ 0)

include hframes hguard hroom

theorem call_protect_value {result : Ref} {u : State}
    (hrun : ((machine host rounds).call callee args).run (s.guarding guard callee args) = .ok result u) :
    ∃ one list t, ((machine host (rounds + 1)).call guard (callee :: args)).run s = .ok list t ∧
      t.payload list = .list #[one, result] ∧ t.payload one = .int 1 := by
  have hback : Law.frames.holds .value (s.guarding guard callee args) u := Obeys.ok hrun
  have hends : ((machine host (rounds + 1)).call guard (callee :: args)).Ends s
      (fun list t => t.payload list = .list #[u.heap.next, result] ∧ t.payload u.heap.next = .int 1)
      fun _ => False := by
    rw [ends_call_protect hguard hroom, ends_of_run hrun, ends_followedBy]
    refine (Prelude.ends_answer_value _ result).imp_sure ?_
    rintro list t ⟨hsame, hlist, hone⟩
    rw [ends_popFrame (hsame.trans hback)]
    exact ⟨hlist, hone⟩
  obtain ⟨list, t, hcall, hlist, hone⟩ := hends.exists_run
  exact ⟨_, list, t, hcall, hlist, hone⟩

theorem call_protect_raised {u : State}
    (hrun : ((machine host rounds).call callee args).run (s.guarding guard callee args) =
      .error .raised u) :
    ∃ list t, ((machine host (rounds + 1)).call guard (callee :: args)).run s = .ok list t ∧
      u.Caught list t := by
  have hback : Law.frames.holds .raised (s.guarding guard callee args) u := Obeys.raised hrun
  have hends : ((machine host (rounds + 1)).call guard (callee :: args)).Ends s u.Caught
      fun _ => False := by
    rw [ends_call_protect hguard hroom, ends_of_raised hrun, ends_followedBy]
    refine (Prelude.ends_answer_raised _).imp_sure ?_
    rintro list t ⟨hsame, hcaught⟩
    rw [ends_popFrame (hsame.trans hback)]
    exact ⟨hcaught.pending, hcaught.empty, hcaught.emptied, hcaught.kept⟩
  exact hends.exists_run

end Ways

/-- Native functions that report an error and leave nothing in the slot. -/
def Host.forgetful : Host where
  native _ := some fun _ _ => do
    discard takePending
    throw .raised

instance : Host.Obeys .frames .forgetful where
  executes := nofun
  evaluates := nofun
  runs := by
    rintro _ _ ⟨⟩ _ _ _
    exact .of_runs nofun fun h => by cases h; rfl

end ObjectModel
