import ObjectModel.Proofs.Streams.Readings

/-!
# What functions of texts and bytes are given

Strings stand for their own text, and buffers for the text of their bytes before the first zero. A number
may be left out, or be given as no value. These lemmas say what conversions of arguments give and leave.
-/

namespace ObjectModel

open ObjectModel.Action

variable {s t : State} {o : Ref} {args : List Ref} {place : Nat} {text : String} {b : Buffer} {n : Int64}
  {fallback : Int64} {bytes : Bytes} {E : State → Prop}

namespace State

/-- The number that an argument stands for is an int, or another number when it is missing or no value. -/
def GivesInt (s : State) (args : List Ref) (place : Nat) (fallback n : Int64) : Prop :=
  match args[place]?.filter (· ≠ s.nothing) with
  | some o => s.payload o = .int n
  | none => n = fallback

theorem GivesInt.of_int (ho : args[place]? = some o) (h : s.payload o = .int n) (hvalue : o ≠ s.nothing) :
    s.GivesInt args place fallback n := by
  rw [GivesInt, ho, Option.filter_some, if_pos (decide_eq_true hvalue)]
  exact h

theorem GivesInt.of_fallback (ho : args[place]? = some o) (h : s.payload o = .int fallback) :
    s.GivesInt args place fallback fallback := by
  by_cases hvalue : o = s.nothing
  · rw [GivesInt, ho, Option.filter_some, if_neg (by simpa using hvalue)]
  · exact .of_int ho h hvalue

theorem GivesInt.kept (h : s.GivesInt args place fallback n) (hkeeps : s.Keeps t) :
    t.GivesInt args place fallback n := by
  unfold GivesInt at h ⊢
  rw [hkeeps.nothing]
  cases hgiven : args[place]?.filter (· ≠ s.nothing) with
  | none => rwa [hgiven] at h
  | some o =>
    rw [hgiven] at h
    exact hkeeps.payload_eq h (by simp [Payload.kind])

end State

namespace Dispatcher

theorem ends_textArgument_string (run : Dispatcher) (ho : args[place]? = some o)
    (h : s.payload o = .string text) {Q : String → State → Prop} :
    (run.textArgument args place).Ends s Q E ↔ Q text s := by
  simp only [textArgument, toText, ends_bind, ends_argument, ho, Option.getD_some, ends_holding,
    ends_payload, State.payload_withHeld, h, ends_pure]
  rfl

theorem ends_textArgument_buffer (host : Host) (rounds : Nat) (ho : args[place]? = some o)
    (h : s.payload o = .buffer b) :
    ((machine host (rounds + 1)).textArgument args place).Ends s
      (fun text t => text = b.text s.memory ∧ s.Grown t s.shown) fun _ => False := by
  simp only [textArgument, ends_bind, ends_argument, ho, Option.getD_some, ends_holding]
  have hheld : (s.withHeld ([o] :: s.held)).payload o = .buffer b := h
  refine (ends_toText_buffer host rounds hheld).imp_value ?_
  rintro _ t ⟨rfl, hgrown⟩
  exact ⟨rfl, hgrown.unheld⟩

theorem ends_intArgumentOr (run : Dispatcher) (h : s.GivesInt args place fallback n)
    {Q : Int64 → State → Prop} : (run.intArgumentOr args place fallback).Ends s Q E ↔ Q n s := by
  unfold State.GivesInt at h
  simp only [intArgumentOr, ends_bind, ends_optional]
  cases hgiven : args[place]?.filter (· ≠ s.nothing) with
  | some o =>
    rw [hgiven] at h
    exact ends_toInt run h
  | none =>
    rw [hgiven] at h
    rw [h]
    exact ends_pure fallback

end Dispatcher

theorem Behavior.Buffers.ends_sizedBytes (use : UnsizedUse) (h : s.bytes? o = some bytes)
    {Q : Bytes → State → Prop} : (sizedBytes use o).Ends s Q E ↔ Q bytes s := by
  obtain ⟨b, hb, hbytes⟩ := State.exists_buffer_of_bytes? h
  simp only [sizedBytes, viewOf, ends_bind, ends_payload, hb, ends_pure, ends_get,
    show b.view.bytes? s.memory = some bytes from hbytes]

end ObjectModel
