import ObjectModel.Proofs.Text.Copies
import ObjectModel.Proofs.Text.Decimals

/-!
# Numbers of strings and of their copies

A buffer is read as a number up to its first zero alone. Nothing is lost by that: no scan for a part of a
numeral passes a zero, so neither number depends on what is behind one, and a string and the buffer that it
makes are converted alike (`numbers_untilZero`).
-/

namespace ObjectModel

open ObjectModel.Action Behavior

-- ---------------------------------------------------------------------------
-- Scans that stop at a zero
-- ---------------------------------------------------------------------------

namespace Bytes

variable {p : UInt8 → Bool}

theorem untilZero_zero (rest : Bytes) : untilZero (0 :: rest) = [] := rfl

theorem untilZero_cons {byte : UInt8} (h : byte ≠ 0) (rest : Bytes) :
    untilZero (byte :: rest) = byte :: untilZero rest :=
  List.takeWhile_cons_of_pos (decide_eq_true h)

theorem takeWhile_untilZero (hzero : p 0 = false) (bytes : Bytes) :
    bytes.untilZero.takeWhile p = bytes.takeWhile p := by
  induction bytes with
  | nil => rfl
  | cons byte rest ih =>
    by_cases hbyte : byte = 0
    · rw [hbyte, untilZero_zero, List.takeWhile_cons_of_neg (by simp [hzero]), List.takeWhile_nil]
    · rw [untilZero_cons hbyte, List.takeWhile_cons, List.takeWhile_cons, ih]

theorem dropWhile_untilZero (hzero : p 0 = false) (bytes : Bytes) :
    bytes.untilZero.dropWhile p = untilZero (bytes.dropWhile p) := by
  induction bytes with
  | nil => rfl
  | cons byte rest ih =>
    by_cases hbyte : byte = 0
    · rw [hbyte, untilZero_zero, List.dropWhile_cons_of_neg (by simp [hzero]), untilZero_zero,
        List.dropWhile_nil]
    · rw [untilZero_cons hbyte, List.dropWhile_cons, List.dropWhile_cons, ih]
      split
      · rfl
      · rw [untilZero_cons hbyte]

end Bytes

namespace Numeral

open Bytes

theorem takeSign_untilZero (bytes : Bytes) :
    takeSign bytes.untilZero = ((takeSign bytes).1, (takeSign bytes).2.untilZero) := by
  cases bytes with
  | nil => rfl
  | cons byte rest =>
    by_cases hbyte : byte = 0
    · rw [hbyte]; rfl
    · rw [untilZero_cons hbyte]
      simp only [takeSign]
      split
      · rfl
      · rw [untilZero_cons hbyte]

theorem takeFraction_untilZero (bytes : Bytes) : takeFraction bytes.untilZero =
    ((takeFraction bytes).1, (takeFraction bytes).2.1, (takeFraction bytes).2.2.untilZero) := by
  cases bytes with
  | nil => rfl
  | cons byte rest =>
    by_cases hbyte : byte = 0
    · rw [hbyte]; rfl
    · rw [untilZero_cons hbyte]
      simp only [takeFraction]
      split
      · rw [takeWhile_untilZero (by decide), dropWhile_untilZero (by decide)]
      · rw [untilZero_cons hbyte]

/-- A marker whose digits are cut off is no exponent, with or without what is behind the zero. -/
theorem takeExponent_untilZero (bytes : Bytes) : takeExponent bytes.untilZero = takeExponent bytes := by
  cases bytes with
  | nil => rfl
  | cons byte rest =>
    by_cases hbyte : byte = 0
    · rw [hbyte]; rfl
    · rw [untilZero_cons hbyte]
      simp only [takeExponent, takeSign_untilZero]
      rw [takeWhile_untilZero (by decide)]

theorem takeDecimal_untilZero (bytes : Bytes) : takeDecimal bytes.untilZero = takeDecimal bytes := by
  simp only [takeDecimal, takeSign_untilZero]
  rw [takeWhile_untilZero (by decide), dropWhile_untilZero (by decide)]
  simp only [takeFraction_untilZero, takeExponent_untilZero]

theorem leadingInt_untilZero (bytes : Bytes) : leadingInt bytes.untilZero = leadingInt bytes := by
  simp only [leadingInt]
  rw [dropWhile_untilZero (by decide)]
  simp only [takeSign_untilZero]
  rw [takeWhile_untilZero (by decide)]

theorem leadingFloat_untilZero (bytes : Bytes) : leadingFloat bytes.untilZero = leadingFloat bytes := by
  rw [leadingFloat_eq, dropWhile_untilZero (by decide), takeDecimal_untilZero, leadingFloat_eq]

end Numeral

-- ---------------------------------------------------------------------------
-- Strings and buffers as numbers
-- ---------------------------------------------------------------------------

variable {s : State} {o : Ref} {text : String} {bytes : Bytes} {conversion : Builtin} {number : Payload}

/-- The number that a conversion reads at the start of bytes. -/
inductive Numeral.Reads (bytes : Bytes) : Builtin → Payload → Prop
  | int : Reads bytes .toInt (.int (leadingInt bytes))
  | float : Reads bytes .toFloat (.float (leadingFloat bytes))

theorem Numeral.Reads.of_leadingInt {n : Int64} (h : leadingInt bytes = n) : Reads bytes .toInt (.int n) :=
  h ▸ .int

theorem Numeral.Reads.kind_ne (h : Numeral.Reads bytes conversion number) : number.kind ≠ .singlet := by
  cases h <;> simp [Payload.kind]

theorem ends_operation {kind : Kind} {operation : Operation} (handler : Handler) (host : Host) (rounds : Nat)
    (args : List Ref) (hkind : s.kind o = kind) (h : kind.handler operation = some handler)
    {Q : Ref → State → Prop} {E : State → Prop} :
    (Prelude.operation operation (machine host (rounds + 1)) (o :: args)).Ends s Q E ↔
      (handler (machine host rounds) (o :: args)).Ends s Q E := by
  rw [Prelude.operation, Dispatcher.ends_dispatch, hkind]
  exact ends_behave handler host rounds _ h

theorem Behavior.Strings.ends_bytesOfArgument (ho : s.payload o = .string text) {Q : Bytes → State → Prop}
    {E : State → Prop} : (bytesOfArgument [o] 0).Ends s Q E ↔ Q (Bytes.ofText text) s := by
  simp only [bytesOfArgument, ofArgument, ends_bind, ends_argument_first, ends_payload, ends_pure, ho]
  rfl

theorem Behavior.Buffers.ends_textBytes (h : s.bytes? o = some bytes) {Q : Bytes → State → Prop}
    {E : State → Prop} : (textBytes o).Ends s Q E ↔ Q bytes.untilZero s := by
  obtain ⟨b, hb, hbytes⟩ := State.exists_buffer_of_bytes? h
  simp only [textBytes, ends_bind, ends_payload, hb, ends_get, ends_pure, Buffer.textBytes?, hbytes,
    Option.map_some, Option.getD_some]

theorem ends_conversion_string (host : Host) (rounds : Nat) (ho : s.payload o = .string text)
    (h : Numeral.Reads (Bytes.ofText text) conversion number) :
    (conversion.body (machine host (rounds + 1)) [o]).Ends s (s.Makes number) fun _ => False := by
  have hkind := State.kind_of_payload ho
  cases h with
  | int =>
    rw [Builtin.body, ends_operation Strings.toInt host rounds _ hkind rfl, Strings.toInt, ends_bind,
      Strings.ends_bytesOfArgument ho, ends_createInt]
    exact ⟨rfl, rfl⟩
  | float =>
    rw [Builtin.body, ends_operation Strings.toFloat host rounds _ hkind rfl, Strings.toFloat, ends_bind,
      Strings.ends_bytesOfArgument ho, ends_create]
    exact ⟨rfl, rfl⟩

theorem ends_conversion_buffer (host : Host) (rounds : Nat) (ho : s.bytes? o = some bytes)
    (h : Numeral.Reads bytes conversion number) :
    (conversion.body (machine host (rounds + 1)) [o]).Ends s (s.Makes number) fun _ => False := by
  obtain ⟨b, hb, -⟩ := State.exists_buffer_of_bytes? ho
  have hkind := State.kind_of_payload hb
  cases h with
  | int =>
    rw [Builtin.body, ends_operation Buffers.toInt host rounds _ hkind rfl, Buffers.toInt, ends_bind,
      ends_argument_first, ends_bind, Buffers.ends_textBytes ho, ends_createInt, Numeral.leadingInt_untilZero]
    exact ⟨rfl, rfl⟩
  | float =>
    rw [Builtin.body, ends_operation Buffers.toFloat host rounds _ hkind rfl, Buffers.toFloat, ends_bind,
      ends_argument_first, ends_bind, Buffers.ends_textBytes ho, ends_create, Numeral.leadingFloat_untilZero]
    exact ⟨rfl, rfl⟩

def convertBoth (conversion : Builtin) (machine : Machine) (o : Ref) : Action (Ref × Ref) :=
  askBoth machine o (fun o => conversion.body machine [o]) fun copy => conversion.body machine [copy]

theorem ends_convertBoth (host : Host) (rounds : Nat) (ho : s.payload o = .string text)
    (h : Numeral.Reads (Bytes.ofText text) conversion number) :
    (convertBoth conversion (machine host (rounds + 1)) o).Ends s
      (fun answers t => t.payload answers.1 = number ∧ t.payload answers.2 = number)
      (s.LacksMemoryAfter 0 (Bytes.ofText text).length) := by
  have hdirect := ends_conversion_string host rounds ho h
  refine (ends_askBoth host rounds ho h.kind_ne hdirect ?_ fun _ h => h).imp_value fun _ _ h => h.2
  intro t copy hbuffered
  refine (ends_conversion_buffer host rounds hbuffered.shown.bytes h).imp_sure ?_
  rintro _ _ ⟨rfl, rfl⟩
  exact ⟨payload_made_next .., (State.Grown.made t number).keeps⟩

/-- Bytes that are the same up to the first zero start with the same int and with the same float: neither
depends on a zero or on anything behind it. So a string, with zeros anywhere, and the buffer that it makes,
which reads no further than that, are converted to one int, and to one float with the same bits. -/
theorem numbers_untilZero (host : Host) (rounds : Nat) :
    (∀ bytes others : Bytes, bytes.untilZero = others.untilZero →
      Numeral.leadingInt bytes = Numeral.leadingInt others ∧
      Numeral.leadingFloat bytes = Numeral.leadingFloat others) ∧
    ∀ (s : State) (o : Ref) (text : String), s.payload o = .string text →
      (convertBoth .toInt (machine host (rounds + 1)) o).Ends s
          (fun answers t => t.payload answers.1 = .int (Numeral.leadingInt (Bytes.ofText text)) ∧
            t.payload answers.2 = t.payload answers.1)
          (s.LacksMemoryAfter 0 (Bytes.ofText text).length) ∧
        (convertBoth .toFloat (machine host (rounds + 1)) o).Ends s
          (fun answers t => t.payload answers.1 = .float (Numeral.leadingFloat (Bytes.ofText text)) ∧
            t.payload answers.2 = t.payload answers.1)
          (s.LacksMemoryAfter 0 (Bytes.ofText text).length) := by
  refine ⟨fun bytes others h => ⟨?_, ?_⟩, fun s o text ho => ⟨?_, ?_⟩⟩
  · rw [← Numeral.leadingInt_untilZero bytes, h, Numeral.leadingInt_untilZero]
  · rw [← Numeral.leadingFloat_untilZero bytes, h, Numeral.leadingFloat_untilZero]
  · refine (ends_convertBoth host rounds ho .int).imp_value ?_
    exact fun answers t h => ⟨h.1, h.2.trans h.1.symm⟩
  · refine (ends_convertBoth host rounds ho .float).imp_value ?_
    exact fun answers t h => ⟨h.1, h.2.trans h.1.symm⟩

/-- A zero takes the digits of an exponent away, and with them its marker. -/
theorem numbers_untilZero_exponent :
    let s := { Globals.bare {} .discard {} with
      heap := ⟨#[.singlet "None", .map [], .map [], .string "-1.5e\x007"]⟩ }
    Numeral.leadingFloat (Bytes.ofText "-1.5e\x007") = Numeral.leadingFloat (Bytes.ofText "-1.5e\x00é") ∧
      (convertBoth .toInt (machine {} 1) ⟨3⟩).Ends s
        (fun answers t => t.payload answers.1 = .int (-1) ∧ t.payload answers.2 = .int (-1))
        (fun _ => False) ∧
      (convertBoth .toFloat (machine {} 1) ⟨3⟩).Ends s
        (fun answers t => t.payload answers.1 = .float ⟨0xBFF8000000000000⟩ ∧
          t.payload answers.2 = .float ⟨0xBFF8000000000000⟩) fun _ => False := by
  intro s
  have ho : s.payload ⟨3⟩ = .string "-1.5e\x007" := rfl
  have hempty : s.memory.blocks.size = 0 := rfl
  clear_value s
  have hroom (t : State) : ¬ s.LacksMemoryAfter 0 (Bytes.ofText "-1.5e\x007").length t :=
    State.not_lacksMemoryAfter (by decide +kernel) (by rw [hempty]; decide)
  have hint : Numeral.leadingInt (Bytes.ofText "-1.5e\x007") = -1 := by decide +kernel
  have hfloat : Numeral.leadingFloat (Bytes.ofText "-1.5e\x007") = ⟨0xBFF8000000000000⟩ := by
    decide +kernel
  obtain ⟨hbytes, hboth⟩ := numbers_untilZero {} 0
  obtain ⟨hints, hfloats⟩ := hboth s _ _ ho
  rw [hint] at hints
  rw [hfloat] at hfloats
  refine ⟨(hbytes _ _ (by decide +kernel)).2, hints.imp ?_ ?_, hfloats.imp ?_ ?_⟩
  · exact fun answers t h => ⟨h.1, h.2.trans h.1⟩
  · exact hroom
  · exact fun answers t h => ⟨h.1, h.2.trans h.1⟩
  · exact hroom

end ObjectModel
