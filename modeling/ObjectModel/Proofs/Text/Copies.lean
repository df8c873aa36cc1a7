import ObjectModel.Proofs.Text.Slices

/-!
# Strings and the buffers that they make

What is asked of a string is also asked of the buffer that it makes. If the function of strings answers one
payload, and that of buffers answers it for every buffer of the same bytes, both answers are that payload
(`ends_askBoth`).
-/

namespace ObjectModel

open ObjectModel.Action Behavior

variable {s t : State} {o : Ref} {text : String} {bytes : Bytes} {value : Payload} {E : State → Prop}

namespace State

/-- A new object is the answer, and nothing else was made. -/
def Makes (s : State) (value : Payload) (answer : Ref) (t : State) : Prop :=
  answer = s.heap.next ∧ t = s.made value

theorem Makes.payload_eq {answer : Ref} (h : s.Makes value answer t) : t.payload answer = value := by
  obtain ⟨rfl, rfl⟩ := h
  exact payload_made_next s value

/-- The bytes have a buffer of their own, in memory that was taken for them alone. -/
structure Buffered (s : State) (bytes : Bytes) (copy : Ref) (t : State) : Prop where
  fits : s.memory.Fits bytes.length
  shown : t.HasBytes copy bytes
  keeps : s.Keeps t
  blocks : t.memory.blocks.size ≤ s.memory.blocks.size + 1

theorem Buffered.unheld {copy : Ref} {held : List (List Ref)} (h : (s.withHeld held).Buffered bytes copy t) :
    s.Buffered bytes copy (t.withHeld s.held) :=
  ⟨h.fits, ⟨h.shown.bytes, h.shown.readable⟩, h.keeps.unheld, h.blocks⟩

end State

theorem ends_toBuffer_buffered (host : Host) (rounds : Nat) (ho : s.payload o = .string text) :
    ((machine host (rounds + 1)).toBuffer o).Ends s (s.Buffered (Bytes.ofText text))
      (s.LacksMemory (Bytes.ofText text).length) := by
  rw [ends_toBuffer_text host rounds ho, ends_createBuffer]
  exact ⟨State.lacksMemory_faulting, fun hfits =>
    ⟨hfits, (State.fresh_withBlock hfits).hasBytes, s.keeps_withBlock _, s.memory.count_allocate_le _⟩⟩

theorem Dispatcher.ends_bufferArgument_string (host : Host) (rounds : Nat) {args : List Ref} {place : Nat}
    (ho : args[place]? = some o) (h : s.payload o = .string text) :
    ((machine host (rounds + 1)).bufferArgument args place).Ends s (s.Buffered (Bytes.ofText text))
      (s.LacksMemory (Bytes.ofText text).length) := by
  simp only [bufferArgument, ends_bind, ends_argument, ho, Option.getD_some, ends_holding]
  have hheld : (s.withHeld ([o] :: s.held)).payload o = .string text := h
  exact (ends_toBuffer_buffered host rounds hheld).imp (fun _ _ hbuffered => hbuffered.unheld)
    fun _ hlacks => hlacks.unheld

def askBoth (machine : Machine) (o : Ref) (ofObject ofCopy : Ref → Action Ref) : Action (Ref × Ref) := do
  let direct ← ofObject o
  let copy ← Builtin.toBuffer.body machine [o]
  let copied ← ofCopy copy
  return (direct, copied)

theorem ends_askBoth (host : Host) (rounds : Nat) (ho : s.payload o = .string text) {ofObject ofCopy : Ref → Action Ref}
    (hkind : value.kind ≠ .singlet) (hobject : (ofObject o).Ends s (s.Makes value) fun _ => False)
    (hcopy : ∀ t copy, s.Buffered (Bytes.ofText text) copy t →
      (ofCopy copy).Ends t (fun answer u => u.payload answer = value ∧ t.Keeps u) E)
    (hlacks : ∀ u : State, s.LacksMemoryAfter 0 (Bytes.ofText text).length u → E u) :
    (askBoth (machine host (rounds + 1)) o ofObject ofCopy).Ends s
      (fun answers t => s.memory.Fits (Bytes.ofText text).length ∧
        t.payload answers.1 = value ∧ t.payload answers.2 = value) E := by
  have hbuffer : Builtin.toBuffer.body (machine host (rounds + 1)) [o] =
      (machine host (rounds + 1)).toBuffer o := rfl
  simp only [askBoth, ends_bind, ends_pure, hbuffer]
  refine hobject.imp_sure ?_
  rintro _ _ ⟨rfl, rfl⟩
  have hmade : s.Keeps (s.made value) := (State.Grown.made s value).keeps
  have hstring : (s.made value).payload o = .string text := hmade.payload_eq ho (by simp [Payload.kind])
  refine (ends_toBuffer_buffered host rounds hstring).imp ?_ fun u h => hlacks u (h.after (Nat.le_refl _))
  intro copy t hbuffered
  have hfirst : s.Buffered (Bytes.ofText text) copy t := { hbuffered with keeps := hmade.trans hbuffered.keeps }
  refine (hcopy t copy hfirst).imp_value ?_
  rintro copied u ⟨hanswer, hkeeps⟩
  have hdirect := (hbuffered.keeps.trans hkeeps).payload_eq (payload_made_next s value) hkind
  exact ⟨hbuffered.fits, hdirect, hanswer⟩

end ObjectModel
