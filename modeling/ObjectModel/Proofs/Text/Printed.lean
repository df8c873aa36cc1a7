import Mathlib.Tactic.IntervalCases
import ObjectModel.Proofs.Text.Conversions
import ObjectModel.Proofs.Text.Numerals

/-!
# Ints that are printed and read

The text of an int is a sign and digits, with one digit more for every power of ten, and reading it takes them
off again. So an int is read back from its text, behind blanks and in front of anything that is no digit, and
from a buffer of that text (`int_reread`).
-/

namespace ObjectModel

open ObjectModel.Action Behavior

-- ---------------------------------------------------------------------------
-- Bytes of characters
-- ---------------------------------------------------------------------------

namespace Bytes

theorem ofText_append (first second : String) :
    ofText (first ++ second) = ofText first ++ ofText second := by
  simp [ofText]

theorem forall_mem_ofText {P : UInt8 → Prop} {text : String}
    (h : ∀ char ∈ text.toList, ∀ byte ∈ String.utf8EncodeChar char, P byte) :
    ∀ byte ∈ ofText text, P byte := by
  intro byte hbyte
  rw [← String.ofList_toList (s := text), ofText_ofList] at hbyte
  obtain ⟨char, hchar, hmem⟩ := List.mem_flatMap.mp hbyte
  exact h char hchar byte hmem

theorem isDigit_iff (byte : UInt8) : Numeral.isDigit byte = true ↔ 48 ≤ byte.toNat ∧ byte.toNat ≤ 57 := by
  simp [Numeral.isDigit, UInt8.le_iff_toNat_le]

/-- Only a digit has bytes that begin like one. -/
theorem isDigit_of_head?_encode {char : Char} {byte : UInt8}
    (hbyte : byte ∈ (String.utf8EncodeChar char).head?) (h : Numeral.isDigit byte = true) :
    char.isDigit = true := by
  rw [isDigit_iff] at h
  have hplain : byte < 128 := UInt8.lt_iff_toNat_lt.mpr (show byte.toNat < 128 by omega)
  have hcode := (code_of_mem_encode (List.mem_of_mem_head? hbyte) hplain).1
  simp only [Char.isDigit, Bool.and_eq_true, decide_eq_true_eq, ge_iff_le, UInt32.le_iff_toNat_le]
  exact ⟨show 48 ≤ _ by omega, show _ ≤ 57 by omega⟩

theorem isDigit_head?_ofText {text : String} (h : ∀ char ∈ text.toList.head?, char.isDigit = false) :
    ∀ byte ∈ (ofText text).head?, Numeral.isDigit byte = false := by
  intro byte hbyte
  rw [← String.ofList_toList (s := text), ofText_ofList] at hbyte
  cases hchars : text.toList with
  | nil => rw [hchars] at hbyte; cases hbyte
  | cons char rest =>
    rw [hchars, List.flatMap_cons, List.head?_append_of_ne_nil _ String.utf8EncodeChar_ne_nil] at hbyte
    have hchar := h char (by rw [hchars]; rfl)
    by_contra hdigit
    rw [isDigit_of_head?_encode hbyte (by simpa using hdigit)] at hchar
    cases hchar

end Bytes

-- ---------------------------------------------------------------------------
-- Digits of numbers
-- ---------------------------------------------------------------------------

namespace Numeral

open Bytes

variable {n : Nat}

theorem encode_digitChar (h : n < 10) : String.utf8EncodeChar n.digitChar = [UInt8.ofNat (48 + n)] := by
  interval_cases n <;> rfl

/-- The text of a number ends with its last digit, behind the text of the number without it. -/
theorem ofText_repr (n : Nat) : ofText n.repr =
    (if n < 10 then [] else ofText (n / 10).repr) ++ [UInt8.ofNat (48 + n % 10)] := by
  rw [Nat.repr_eq_ofList_toDigits, ofText_ofList, Nat.toDigits_eq_if (by decide)]
  split
  case isTrue h => rw [List.flatMap_singleton, encode_digitChar h, Nat.mod_eq_of_lt h, List.nil_append]
  case isFalse =>
    rw [List.flatMap_append, List.flatMap_singleton, encode_digitChar (Nat.mod_lt n (by decide)),
      Nat.repr_eq_ofList_toDigits, ofText_ofList]

theorem ofText_repr_ne_nil (n : Nat) : ofText n.repr ≠ [] := by
  rw [ofText_repr]
  exact List.append_ne_nil_of_right_ne_nil _ (List.cons_ne_nil _ _)

theorem digit_spec (h : n < 10) :
    isDigit (UInt8.ofNat (48 + n)) = true ∧ digitValue (UInt8.ofNat (48 + n)) = n := by
  interval_cases n <;> decide

theorem isDigit_of_mem_repr (n : Nat) : ∀ byte ∈ ofText n.repr, isDigit byte = true := by
  induction n using Nat.strong_induction_on with
  | h n ih =>
    intro byte hbyte
    rw [ofText_repr, List.mem_append, List.mem_singleton] at hbyte
    rcases hbyte with hbyte | rfl
    · split at hbyte
      case isTrue => cases hbyte
      case isFalse h => exact ih (n / 10) (by omega) byte hbyte
    · exact (digit_spec (Nat.mod_lt n (by decide))).1

theorem decimal_repr (n : Nat) : decimal (ofText n.repr) = n := by
  induction n using Nat.strong_induction_on with
  | h n ih =>
    rw [ofText_repr, decimal_concat, (digit_spec (Nat.mod_lt n (by decide))).2]
    split
    case isTrue h =>
      show 0 * 10 + n % 10 = n
      omega
    case isFalse h =>
      rw [ih (n / 10) (by omega)]
      omega

theorem length_repr_le {count : Nat} (h : n < 10 ^ count) : (ofText n.repr).length ≤ count + 1 := by
  induction count generalizing n with
  | zero =>
    obtain rfl : n = 0 := by omega
    exact Nat.le_refl 1
  | succ count ih =>
    rw [ofText_repr, List.length_append, List.length_singleton]
    split
    case isTrue => exact Nat.succ_le_succ (Nat.zero_le _)
    case isFalse =>
      have hrest : n / 10 < 10 ^ count := by rw [Nat.pow_succ] at h; omega
      exact Nat.succ_le_succ (ih hrest)

-- ---------------------------------------------------------------------------
-- Ints behind blanks
-- ---------------------------------------------------------------------------

/-- The parts of an int that is printed between blanks and a rest. -/
def IntParts.printed (blanks : String) (n : Int) (rest : String) : IntParts where
  blanks := ofText blanks
  sign := if n < 0 then [0x2D] else []
  digits := ofText n.natAbs.repr
  rest := ofText rest

theorem ofText_toString (n : Int) :
    ofText (toString n) = (if n < 0 then [0x2D] else []) ++ ofText n.natAbs.repr := by
  rw [Int.toString_eq_repr, Int.repr_eq_if]
  by_cases h : n < 0
  · rw [if_neg (by omega), if_pos h, ofText_append, show (-n).toNat = n.natAbs by omega]
    rfl
  · rw [if_pos (by omega), if_neg h, show n.toNat = n.natAbs by omega, List.nil_append]

theorem IntParts.value_printed (blanks : String) (n : Int) (rest : String) :
    (printed blanks n rest).value = n := by
  simp only [value, printed, decimal_repr]
  by_cases h : n < 0
  · rw [if_pos h, if_pos (by decide)]
    omega
  · rw [if_neg h, if_neg (by decide)]
    omega

theorem head?_repr_append (n : Nat) (rest : Bytes) :
    ∀ byte ∈ (ofText n.repr ++ rest).head?, isDigit byte = true := by
  intro byte hbyte
  rw [List.head?_append_of_ne_nil _ (ofText_repr_ne_nil n)] at hbyte
  exact isDigit_of_mem_repr n byte (List.mem_of_mem_head? hbyte)

theorem not_blank_of_isDigit : ∀ byte : UInt8, isDigit byte = true →
    isBlank byte = false ∧ byte ≠ 0x2B ∧ byte ≠ 0x2D :=
  forall_byte (by decide +kernel)

theorem IntParts.cuts_printed {blanks rest : String} (n : Int)
    (hblanks : ∀ char ∈ blanks.toList, char = ' ' ∨ char = '\t' ∨ char = '\n')
    (hrest : ∀ char ∈ rest.toList.head?, char.isDigit = false) :
    (printed blanks n rest).Cuts isBlank (ofText (blanks ++ toString n ++ rest)) where
  whole := by
    rw [ofText_append, ofText_append, ofText_toString, numeral, printed]
    simp only [List.append_assoc]
  blanks := by
    refine forall_mem_ofText fun char hchar => ?_
    rcases hblanks char hchar with rfl | rfl | rfl <;> decide +kernel
  blanks_end := by
    intro byte hbyte
    by_cases h : n < 0
    · rw [numeral, printed, if_pos h] at hbyte
      obtain rfl := Option.some.inj hbyte
      rfl
    · rw [numeral, printed, if_neg h] at hbyte
      exact (not_blank_of_isDigit byte (head?_repr_append _ _ byte hbyte)).1
  sign := by
    show (if n < 0 then [0x2D] else []) ∈ signs
    split <;> decide
  unsigned := fun _ byte hbyte => (not_blank_of_isDigit byte (head?_repr_append _ _ byte hbyte)).2
  digits := isDigit_of_mem_repr _
  digits_end := isDigit_head?_ofText hrest

theorem leadingInt_printed (blanks rest : String) (n : Int64)
    (hblanks : ∀ char ∈ blanks.toList, char = ' ' ∨ char = '\t' ∨ char = '\n')
    (hrest : ∀ char ∈ rest.toList.head?, char.isDigit = false) :
    leadingInt (ofText (blanks ++ toString n.toInt ++ rest)) = n := by
  rw [leadingInt_of_cuts (IntParts.cuts_printed n.toInt hblanks hrest), IntParts.value_printed,
    Int64.ofInt_toInt]

theorem leadingInt_toString (n : Int64) : leadingInt (ofText (toString n.toInt)) = n := by
  have hprinted := leadingInt_printed "" "" n nofun nofun
  rwa [String.empty_append, String.append_empty] at hprinted

theorem length_toString_le (n : Int64) : (ofText (toString n.toInt)).length ≤ 21 := by
  have hlow := Int64.le_toInt n
  have hhigh := Int64.toInt_lt n
  have hdigits : (ofText n.toInt.natAbs.repr).length ≤ 20 := length_repr_le (show _ < 10 ^ 19 by omega)
  rw [ofText_toString, List.length_append]
  split <;> simp only [List.length_singleton, List.length_nil] <;> omega

end Numeral

-- ---------------------------------------------------------------------------
-- Texts and buffers of ints
-- ---------------------------------------------------------------------------

variable {s : State} {o : Ref} {n : Int64}

theorem ends_toText_int (host : Host) (rounds : Nat) (ho : s.payload o = .int n) :
    (Builtin.toText.body (machine host (rounds + 1)) [o]).Ends s (s.Makes (.string (toString n.toInt)))
      fun _ => False := by
  rw [Builtin.body, ends_operation Numbers.intToText host rounds _ (State.kind_of_payload ho) rfl]
  simp only [Numbers.intToText, Numbers.intOrZero, ends_bind, ends_argument_first, ends_payload, ends_pure, ho,
    ends_createString]
  exact ⟨rfl, rfl⟩

theorem Dispatcher.ends_textArgument_int (host : Host) (rounds : Nat) {args : List Ref} {place : Nat}
    (ho : args[place]? = some o) (h : s.payload o = .int n) :
    ((machine host (rounds + 1)).textArgument args place).Ends s
      (fun text t => text = toString n.toInt ∧ s.Grown t s.shown) fun _ => False := by
  simp only [textArgument, toText, ends_bind, ends_argument, ho, Option.getD_some, ends_holding,
    ends_payload, State.payload_withHeld, h]
  have hheld : (s.withHeld ([o] :: s.held)).payload o = .int n := h
  refine (ends_toText_int host rounds hheld).imp_value ?_
  rintro _ _ ⟨rfl, rfl⟩
  simp only [expectText, ends_bind, ends_payload, payload_made_next, ends_pure, true_and]
  exact (State.Grown.made _ _).unheld

/-- A block can hold the text of an int, so that only for want of any block at all it makes no buffer. -/
theorem ends_toBuffer_int (host : Host) (rounds : Nat) (ho : s.payload o = .int n) :
    (Builtin.toBuffer.body (machine host (rounds + 2)) [o]).Ends s
      (fun copy t => t.HasBytes copy (Bytes.ofText (toString n.toInt)))
      fun t => s.memory.blocks.size = Memory.lanes ∧
        s.LacksMemoryAfter 0 (Bytes.ofText (toString n.toInt)).length t := by
  have hfirst : [o][0]? = some o := rfl
  have hlength : (Bytes.ofText (toString n.toInt)).length ≤ Memory.lane :=
    Nat.le_trans (Numeral.length_toString_le n) (by decide)
  rw [Builtin.body, ends_operation Shared.toBuffer host (rounds + 1) _ (State.kind_of_payload ho) rfl,
    Shared.toBuffer, ends_bind]
  refine (Dispatcher.ends_textArgument_int host rounds hfirst ho).imp_sure ?_
  rintro _ t ⟨rfl, hgrown⟩
  have hmemory : t.memory = s.memory := by rw [hgrown.rest]
  rw [ends_createBuffer]
  refine ⟨fun hlarge => ⟨?_, ?_⟩, fun hfits => (State.fresh_withBlock hfits).hasBytes⟩
  · rw [← hmemory]
    exact Memory.count_eq_of_not_fits hlarge hlength
  · exact (State.lacksMemory_faulting hlarge).after (by rw [hmemory]; exact Nat.le_refl _)

/-- Reads an int from what another conversion makes of an object. -/
def reread (conversion : Builtin) (machine : Machine) (o : Ref) : Action Ref := do
  let converted ← conversion.body machine [o]
  Builtin.toInt.body machine [converted]

theorem ends_reread_text (host : Host) (rounds : Nat) (ho : s.payload o = .int n) :
    (reread .toText (machine host (rounds + 1)) o).Ends s (fun answer t => t.payload answer = .int n)
      fun _ => False := by
  rw [reread, ends_bind]
  refine (ends_toText_int host rounds ho).imp_value ?_
  rintro _ _ ⟨rfl, rfl⟩
  have hread := Numeral.Reads.of_leadingInt (Numeral.leadingInt_toString n)
  exact (ends_conversion_string host rounds (payload_made_next ..) hread).imp_value fun _ _ h => h.payload_eq

theorem ends_reread_buffer (host : Host) (rounds : Nat) (ho : s.payload o = .int n) :
    (reread .toBuffer (machine host (rounds + 2)) o).Ends s (fun answer t => t.payload answer = .int n)
      fun t => s.memory.blocks.size = Memory.lanes ∧
        s.LacksMemoryAfter 0 (Bytes.ofText (toString n.toInt)).length t := by
  rw [reread, ends_bind]
  refine (ends_toBuffer_int host rounds ho).imp_value fun copy t hcopy => ?_
  have hread := Numeral.Reads.of_leadingInt (Numeral.leadingInt_toString n)
  exact (ends_conversion_buffer host (rounds + 1) hcopy.bytes hread).imp_sure fun _ _ h => h.payload_eq

/-- An int is read back from its text behind spaces, tabs and line feeds, and in front of what does not begin with
a digit; and so it is from a buffer of the same bytes. In particular it is read back from the string and from the
buffer that are made of it, which only the want of any block at all can prevent. The least int is no exception:
its digits wrap to itself, and so does their negative. -/
theorem int_reread (host : Host) (rounds : Nat) (n : Int64) :
    (∀ blanks rest : String, (∀ char ∈ blanks.toList, char = ' ' ∨ char = '\t' ∨ char = '\n') →
      (∀ char ∈ rest.toList.head?, char.isDigit = false) →
      ∀ (s : State) (o : Ref), s.payload o = .string (blanks ++ toString n.toInt ++ rest) →
        (Builtin.toInt.body (machine host (rounds + 1)) [o]).Ends s
          (fun answer t => t.payload answer = .int n) (fun _ => False) ∧
        (convertBoth .toInt (machine host (rounds + 1)) o).Ends s
          (fun answers t => t.payload answers.1 = .int n ∧ t.payload answers.2 = .int n)
          (s.LacksMemoryAfter 0 (Bytes.ofText (blanks ++ toString n.toInt ++ rest)).length)) ∧
    ∀ (s : State) (o : Ref), s.payload o = .int n →
      (Builtin.toText.body (machine host (rounds + 1)) [o]).Ends s
        (fun answer t => t.payload answer = .string (toString n.toInt)) (fun _ => False) ∧
      (reread .toText (machine host (rounds + 1)) o).Ends s (fun answer t => t.payload answer = .int n)
        (fun _ => False) ∧
      (reread .toBuffer (machine host (rounds + 2)) o).Ends s (fun answer t => t.payload answer = .int n)
        fun t => s.memory.blocks.size = Memory.lanes ∧
          s.LacksMemoryAfter 0 (Bytes.ofText (toString n.toInt)).length t := by
  refine ⟨fun blanks rest hblanks hrest s o ho => ?_, fun s o ho => ⟨?_, ?_, ?_⟩⟩
  · have hread := Numeral.Reads.of_leadingInt (Numeral.leadingInt_printed blanks rest n hblanks hrest)
    refine ⟨?_, ends_convertBoth host rounds ho hread⟩
    exact (ends_conversion_string host rounds ho hread).imp_value fun _ _ h => h.payload_eq
  · exact (ends_toText_int host rounds ho).imp_value fun _ _ h => h.payload_eq
  · exact ends_reread_text host rounds ho
  · exact ends_reread_buffer host rounds ho

/-- The least int, and its text behind blanks and in front of a second sign. -/
theorem int_reread_least :
    let s := { Globals.bare {} .discard {} with
      heap := ⟨#[.singlet "None", .map [], .map [], .int Int64.minValue,
        .string " \t\n-9223372036854775808-1"]⟩ }
    (reread .toText (machine {} 1) ⟨3⟩).Ends s (fun answer t => t.payload answer = .int Int64.minValue)
        (fun _ => False) ∧
      (reread .toBuffer (machine {} 2) ⟨3⟩).Ends s (fun answer t => t.payload answer = .int Int64.minValue)
        (fun _ => False) ∧
      (convertBoth .toInt (machine {} 1) ⟨4⟩).Ends s
        (fun answers t => t.payload answers.1 = .int Int64.minValue ∧
          t.payload answers.2 = .int Int64.minValue) fun _ => False := by
  intro s
  have hint : s.payload ⟨3⟩ = .int Int64.minValue := rfl
  have hjoined : " \t\n-9223372036854775808-1" = " \t\n" ++ toString Int64.minValue.toInt ++ "-1" := by
    decide +kernel
  have htext : s.payload ⟨4⟩ = .string (" \t\n" ++ toString Int64.minValue.toInt ++ "-1") := hjoined ▸ rfl
  have hempty : s.memory.blocks.size = 0 := rfl
  clear_value s
  obtain ⟨hprinted, hmade⟩ := int_reread {} 0 Int64.minValue
  obtain ⟨-, hstring, hbuffer⟩ := hmade s _ hint
  obtain ⟨-, hboth⟩ := hprinted _ _ (by simp) (by simp) s _ htext
  refine ⟨hstring, hbuffer.imp (fun _ _ h => h) fun t h => ?_, hboth.imp (fun _ _ h => h) fun t h => ?_⟩
  · rw [hempty] at h
    exact absurd h.1 (by decide)
  · exact State.not_lacksMemoryAfter (by decide +kernel) (by rw [hempty]; decide) h

end ObjectModel
