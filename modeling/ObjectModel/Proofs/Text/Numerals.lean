import Mathlib.Data.List.Induction
import Mathlib.Data.List.TakeWhile
import Mathlib.Data.Nat.Digits.Defs
import ObjectModel.Text.Numeral

/-!
# The int at the start of a byte string

A byte string is cut into blanks, at most one sign, digits and what is left, each as long as it can be
(`IntParts.Cuts`), in one way only. The int that is read is the number in base ten of these digits with this
sign, as far as a machine word holds it. A vertical tab is no blank: where it is among the space in front, no
digit is read (`leadingInt_parts`).
-/

namespace ObjectModel.Numeral

-- ---------------------------------------------------------------------------
-- Runs of bytes
-- ---------------------------------------------------------------------------

variable {p : UInt8 → Bool} {bytes run sign rest : Bytes}

theorem takeWhile_run (hrun : ∀ byte ∈ run, p byte = true) (hrest : ∀ byte ∈ rest.head?, p byte = false) :
    (run ++ rest).takeWhile p = run := by
  rw [List.takeWhile_append_of_pos hrun]
  cases rest with
  | nil => simp
  | cons byte rest => rw [List.takeWhile_cons_of_neg (by simp [hrest byte rfl]), List.append_nil]

theorem dropWhile_run (hrun : ∀ byte ∈ run, p byte = true) (hrest : ∀ byte ∈ rest.head?, p byte = false) :
    (run ++ rest).dropWhile p = rest := by
  rw [List.dropWhile_append_of_pos hrun]
  cases rest with
  | nil => rfl
  | cons byte rest => rw [List.dropWhile_cons_of_neg (by simp [hrest byte rfl])]

theorem head?_dropWhile_false (p : UInt8 → Bool) (bytes : Bytes) :
    ∀ byte ∈ (bytes.dropWhile p).head?, p byte = false := by
  intro byte hbyte
  have h := List.head?_dropWhile_not p bytes
  rw [Option.mem_def.mp hbyte] at h
  exact h

def signs : List Bytes := [[], [0x2B], [0x2D]]

def Unsigned (rest : Bytes) : Prop := ∀ byte ∈ rest.head?, byte ≠ 0x2B ∧ byte ≠ 0x2D

theorem takeSign_cons (byte : UInt8) (rest : Bytes) : takeSign (byte :: rest) =
    if byte = 0x2B ∨ byte = 0x2D then ([byte], rest) else ([], byte :: rest) := by
  simp [takeSign]

theorem takeSign_spec (bytes : Bytes) : (takeSign bytes).1 ++ (takeSign bytes).2 = bytes ∧
    (takeSign bytes).1 ∈ signs ∧ ((takeSign bytes).1 = [] → Unsigned (takeSign bytes).2) := by
  cases bytes with
  | nil => exact ⟨rfl, List.mem_cons_self, fun _ => nofun⟩
  | cons byte rest =>
    rw [takeSign_cons]
    split
    case isTrue h => exact ⟨rfl, by simpa [signs] using h, nofun⟩
    case isFalse h =>
      refine ⟨rfl, List.mem_cons_self, ?_⟩
      rintro - _ ⟨⟩
      exact not_or.mp h

theorem takeSign_sign (hsign : sign ∈ signs) (hrest : sign = [] → Unsigned rest) :
    takeSign (sign ++ rest) = (sign, rest) := by
  simp only [signs, List.mem_cons, List.not_mem_nil, or_false] at hsign
  rcases hsign with rfl | rfl | rfl
  · cases rest with
    | nil => rfl
    | cons byte rest =>
      have hbyte := hrest rfl byte rfl
      simp [takeSign, hbyte.1, hbyte.2]
  · rfl
  · rfl

-- ---------------------------------------------------------------------------
-- The number of a run of digits
-- ---------------------------------------------------------------------------

def decimal (digits : Bytes) : Nat := Nat.ofDigits 10 (digits.reverse.map digitValue)

theorem decimal_concat (digits : Bytes) (digit : UInt8) :
    decimal (digits ++ [digit]) = decimal digits * 10 + digitValue digit := by
  rw [decimal, List.reverse_append, List.reverse_singleton, List.singleton_append, List.map_cons,
    Nat.ofDigits_cons, decimal, Nat.mul_comm, Nat.add_comm]

/-- Arithmetic that wraps gives the same rest as the number itself. -/
theorem wrappedValue_eq (digits : Bytes) : wrappedValue digits = Int64.ofNat (decimal digits) := by
  -- The last digit is the one that is added last, so the induction is from the right.
  induction digits using List.reverseRecOn with
  | nil => rfl
  | append_singleton digits digit ih =>
    have hstep : wrappedValue (digits ++ [digit]) =
        wrappedValue digits * 10 + Int64.ofNat (digitValue digit) := by
      rw [wrappedValue, List.foldl_append]
      rfl
    rw [hstep, ih, decimal_concat, Int64.ofNat_add, Int64.ofNat_mul]
    rfl

-- ---------------------------------------------------------------------------
-- The parts of an int
-- ---------------------------------------------------------------------------

/-- What a byte string that starts with an int is made of. -/
structure IntParts where
  blanks : Bytes
  sign : Bytes
  digits : Bytes
  rest : Bytes

namespace IntParts

def value (parts : IntParts) : Int :=
  if isMinus parts.sign then -(decimal parts.digits : Int) else decimal parts.digits

def numeral (parts : IntParts) : Bytes := parts.sign ++ (parts.digits ++ parts.rest)

/-- The parts make up the bytes, and none of them could be longer. -/
structure Cuts (blank : UInt8 → Bool) (bytes : Bytes) (parts : IntParts) : Prop where
  whole : parts.blanks ++ parts.numeral = bytes
  blanks : ∀ byte ∈ parts.blanks, blank byte = true
  blanks_end : ∀ byte ∈ parts.numeral.head?, blank byte = false
  sign : parts.sign ∈ signs
  unsigned : parts.sign = [] → Unsigned (parts.digits ++ parts.rest)
  digits : ∀ byte ∈ parts.digits, isDigit byte = true
  digits_end : ∀ byte ∈ parts.rest.head?, isDigit byte = false

def taken (blank : UInt8 → Bool) (bytes : Bytes) : IntParts where
  blanks := bytes.takeWhile blank
  sign := (takeSign (bytes.dropWhile blank)).1
  digits := (takeSign (bytes.dropWhile blank)).2.takeWhile isDigit
  rest := (takeSign (bytes.dropWhile blank)).2.dropWhile isDigit

variable {blank : UInt8 → Bool} {parts : IntParts}

theorem numeral_taken (blank : UInt8 → Bool) (bytes : Bytes) :
    (taken blank bytes).numeral = bytes.dropWhile blank := by
  rw [numeral, taken, List.takeWhile_append_dropWhile, (takeSign_spec _).1]

theorem cuts_taken (blank : UInt8 → Bool) (bytes : Bytes) : (taken blank bytes).Cuts blank bytes where
  whole := by rw [numeral_taken]; exact List.takeWhile_append_dropWhile
  blanks _ := List.mem_takeWhile_imp
  blanks_end := by rw [numeral_taken]; exact head?_dropWhile_false blank bytes
  sign := (takeSign_spec _).2.1
  unsigned h := by
    rw [taken, List.takeWhile_append_dropWhile]
    exact (takeSign_spec _).2.2 h
  digits _ := List.mem_takeWhile_imp
  digits_end := head?_dropWhile_false isDigit _

/-- There is one way only to cut bytes. -/
theorem Cuts.eq_taken (h : parts.Cuts blank bytes) : parts = taken blank bytes := by
  obtain ⟨rfl, hblanks, hblanks_end, hsign, hunsigned, hdigits, hdigits_end⟩ := h
  rw [taken, takeWhile_run hblanks hblanks_end, dropWhile_run hblanks hblanks_end, numeral,
    takeSign_sign hsign hunsigned, takeWhile_run hdigits hdigits_end, dropWhile_run hdigits hdigits_end]

theorem value_of_empty (h : parts.digits = []) : parts.value = 0 := by
  rw [value, h]
  split <;> rfl

end IntParts

-- ---------------------------------------------------------------------------
-- The int that is read
-- ---------------------------------------------------------------------------

open IntParts

variable {parts : IntParts}

theorem leadingInt_eq (bytes : Bytes) : leadingInt bytes = Int64.ofInt (taken isBlank bytes).value := by
  show (if isMinus (taken isBlank bytes).sign then -wrappedValue (taken isBlank bytes).digits
    else wrappedValue (taken isBlank bytes).digits) = _
  rw [wrappedValue_eq, value]
  split
  · rw [Int64.neg_ofNat]
  · rw [Int64.ofInt_eq_ofNat]

theorem leadingInt_of_cuts (h : parts.Cuts isBlank bytes) : leadingInt bytes = Int64.ofInt parts.value := by
  rw [leadingInt_eq, h.eq_taken]

/-- White space: a space, and the codes from the tab on to the carriage return. The vertical tab is among
them, and is no blank. -/
def isSpace (byte : UInt8) : Bool := byte = 0x20 || (0x09 ≤ byte && byte ≤ 0x0D)

theorem forall_byte {P : UInt8 → Prop} (h : ∀ code : Fin 256, P (UInt8.ofNat code)) (byte : UInt8) :
    P byte := by
  have hbyte := h ⟨byte.toNat, byte.toNat_lt⟩
  rwa [UInt8.ofNat_toNat] at hbyte

theorem isBlank_iff : ∀ byte : UInt8, isBlank byte = true ↔ isSpace byte = true ∧ byte ≠ 0x0B :=
  forall_byte (by decide +kernel)

theorem IntParts.Cuts.of_space (h : parts.Cuts isSpace bytes) (htab : 0x0B ∉ parts.blanks) :
    parts.Cuts isBlank bytes where
  whole := h.whole
  blanks byte hbyte := (isBlank_iff byte).mpr ⟨h.blanks byte hbyte, ne_of_mem_of_not_mem hbyte htab⟩
  blanks_end byte hbyte := by
    rw [← Bool.not_eq_true, isBlank_iff, h.blanks_end byte hbyte]
    simp
  sign := h.sign
  unsigned := h.unsigned
  digits := h.digits
  digits_end := h.digits_end

/-- Nothing is read behind a vertical tab. -/
theorem leadingInt_of_tab (h : parts.Cuts isSpace bytes) (htab : 0x0B ∈ parts.blanks) :
    leadingInt bytes = 0 := by
  obtain ⟨before, behind, hsplit, hbefore⟩ := List.eq_append_cons_of_mem htab
  have hwhole : before ++ 0x0B :: (behind ++ parts.numeral) = bytes := by
    rw [← h.whole, hsplit, List.append_assoc, List.cons_append]
  have hcuts : IntParts.Cuts isBlank bytes ⟨before, [], [], 0x0B :: (behind ++ parts.numeral)⟩ := {
    whole := hwhole
    blanks := fun byte hbyte => by
      have hspace := h.blanks byte (by rw [hsplit]; exact List.mem_append_left _ hbyte)
      exact (isBlank_iff byte).mpr ⟨hspace, ne_of_mem_of_not_mem hbyte hbefore⟩
    blanks_end := by rintro _ ⟨⟩; rfl
    sign := List.mem_cons_self
    unsigned := by rintro - _ ⟨⟩; decide
    digits := nofun
    digits_end := by rintro _ ⟨⟩; rfl }
  rw [leadingInt_of_cuts hcuts, value_of_empty rfl]
  rfl

/-- Whatever counts as blank, a byte string is cut in one way into blanks, at most one sign, digits and what
is left, each as long as it can be. The int that is read is the number of the digits with this sign, as far as
a machine word holds it, and so 0 where there is no digit; blanks are all white space but the vertical tab. With
all white space in front it is this number if there is no vertical tab among it, and else 0. -/
theorem leadingInt_parts (bytes : Bytes) :
    (∀ blank : UInt8 → Bool, ∃! parts : IntParts, parts.Cuts blank bytes) ∧
    (∀ parts : IntParts, parts.Cuts isBlank bytes → leadingInt bytes = Int64.ofInt parts.value) ∧
    (∀ parts : IntParts, parts.digits = [] → parts.value = 0) ∧
    ∀ parts : IntParts, parts.Cuts isSpace bytes →
      leadingInt bytes = if 0x0B ∈ parts.blanks then 0 else Int64.ofInt parts.value := by
  refine ⟨fun blank => ⟨taken blank bytes, cuts_taken blank bytes, fun _ h => h.eq_taken⟩,
    fun _ => leadingInt_of_cuts, fun _ => value_of_empty, fun parts h => ?_⟩
  split
  case isTrue htab => exact leadingInt_of_tab h htab
  case isFalse htab => exact leadingInt_of_cuts (h.of_space htab)

/-- A number that is too large by three, with two signs of which the second ends it, and one behind a vertical
tab. -/
theorem leadingInt_parts_wrapped :
    leadingInt (Bytes.ofText "\t-9223372036854775811-1") = 9223372036854775805 ∧
      leadingInt (Bytes.ofText "\x0b42") = 0 ∧ (taken isSpace (Bytes.ofText "\x0b42")).value = 42 := by
  obtain ⟨-, hblank, -, -⟩ := leadingInt_parts (Bytes.ofText "\t-9223372036854775811-1")
  obtain ⟨-, -, -, hspace⟩ := leadingInt_parts (Bytes.ofText "\x0b42")
  refine ⟨?_, ?_, by decide +kernel⟩
  · rw [hblank _ (cuts_taken isBlank _)]
    decide +kernel
  · rw [hspace _ (cuts_taken isSpace _)]
    decide +kernel

end ObjectModel.Numeral
