import Mathlib.Data.String.Basic
import ObjectModel.Proofs.Comparison.Ties

/-!
# The names of a function's parts

A part of a function is read under the bytes of its name and written under the text of these bytes. Bytes that
are not well formed have a text as well, in which other characters stand for them. But those are never plain
ones, so that a name of plain characters is the text of its own bytes alone (`toText_eq_iff`).
-/

namespace ObjectModel

namespace Utf8

/-- A character of a single byte that is not zero. -/
def IsPlain (char : Char) : Prop := 0 < char.toNat ∧ char.toNat < 0x80

instance (char : Char) : Decidable (IsPlain char) :=
  inferInstanceAs (Decidable (0 < char.toNat ∧ char.toNat < 0x80))

/-- The smallest code point that a sequence under way can come to. -/
def Sequence.least (sequence : Sequence) : Nat :=
  sequence.code * 64 ^ sequence.missing + (sequence.low.toNat - 0x80) * 64 ^ (sequence.missing - 1)

variable {sequence : Sequence} {byte : UInt8} {bytes : Bytes}

theorem toNat_ofNat {code : Nat} (h : code.isValidChar) : (Char.ofNat code).toNat = code := by
  have hchar : Char.ofNat code = Char.ofNatAux code h := dif_pos h
  rw [hchar]
  rfl

theorem not_isPlain_ofNat {code : Nat} (h : 0x80 ≤ code) : ¬ IsPlain (Char.ofNat code) := by
  unfold IsPlain
  by_cases hvalid : code.isValidChar
  · rw [toNat_ofNat hvalid]
    omega
  · simp [Char.ofNat, hvalid, Char.toNat]

theorem not_isPlain_replacement : ¬ IsPlain replacement := by decide

theorem least_extend (sequence : Sequence) (byte : UInt8) : (sequence.extend byte).least =
    (sequence.extend byte).code * 64 ^ (sequence.extend byte).missing := by
  have hlow : (0x80 : UInt8).toNat - 0x80 = 0 := by decide
  simp only [Sequence.least, Sequence.extend, hlow, Nat.zero_mul, Nat.add_zero]

theorem least_le_extend (hmissing : sequence.missing ≠ 0) (h : sequence.accepts byte = true) :
    sequence.least ≤ (sequence.extend byte).least := by
  obtain ⟨missing, low, high, code⟩ := sequence
  obtain ⟨rest, rfl⟩ := Nat.exists_eq_succ_of_ne_zero hmissing
  simp only [Sequence.accepts, Bool.and_eq_true, decide_eq_true_eq, UInt8.le_iff_toNat_le] at h
  have hlow : low.toNat - 0x80 ≤ byte.toNat - 0x80 := by omega
  rw [least_extend]
  simp only [Sequence.least, Sequence.extend, Nat.succ_eq_add_one, Nat.add_sub_cancel]
  calc code * 64 ^ (rest + 1) + (low.toNat - 0x80) * 64 ^ rest
      = (code * 64 + (low.toNat - 0x80)) * 64 ^ rest := by
        rw [Nat.pow_succ', ← Nat.mul_assoc, ← Nat.add_mul]
    _ ≤ (code * 64 + (byte.toNat - 0x80)) * 64 ^ rest :=
        Nat.mul_le_mul_right _ (Nat.add_le_add_left hlow _)

theorem encode_of_announce {char : Char} (h : announce byte = some (.inl char)) :
    String.utf8EncodeChar char = [byte] := by
  simp only [announce, ite_eq_iff, Option.some.injEq, Sum.inl.injEq, reduceCtorEq, and_false, or_false] at h
  obtain ⟨hbyte, rfl⟩ := h
  have hcode : (Char.ofNat byte.toNat).val.toNat = byte.toNat := toNat_ofNat (.inl (by omega))
  rw [String.utf8EncodeChar, hcode, if_pos (by omega), UInt8.ofNat_toNat]

theorem least_of_announce (h : announce byte = some (.inr sequence)) :
    sequence.missing ≠ 0 ∧ 0x80 ≤ sequence.least := by
  simp only [announce, ite_eq_iff, Option.some.injEq, Sum.inr.injEq, reduceCtorEq, and_false, or_false,
    false_or] at h
  obtain ⟨-, hstart, h⟩ := h
  rcases h with ⟨_, rfl⟩ | ⟨_, ⟨_, rfl⟩ | ⟨_, ⟨_, rfl⟩ | ⟨_, ⟨_, rfl⟩ |
    ⟨_, ⟨_, rfl⟩ | ⟨_, ⟨_, rfl⟩ | ⟨_, _, rfl⟩⟩⟩⟩⟩⟩
  all_goals
    simp [Sequence.least]
  all_goals omega

theorem exists_not_isPlain (hmissing : sequence.missing ≠ 0) (hleast : 0x80 ≤ sequence.least)
    (bytes : Bytes) : ∃ char ∈ characters (some sequence) bytes, ¬ IsPlain char := by
  induction bytes generalizing sequence with
  | nil => exact ⟨replacement, by simp [characters], not_isPlain_replacement⟩
  | cons byte rest ih =>
    unfold characters
    split
    next haccepts =>
      have hnext := Nat.le_trans hleast (least_le_extend hmissing haccepts)
      dsimp only
      split
      next hlast =>
        rw [least_extend, hlast, Nat.pow_zero, Nat.mul_one] at hnext
        exact ⟨_, List.mem_cons_self, not_isPlain_ofNat hnext⟩
      next hmore => exact ih hmore hnext
    next => exact ⟨replacement, List.mem_cons_self, not_isPlain_replacement⟩

/-- Bytes that are read as plain characters are the bytes of these. -/
theorem characters_of_isPlain (h : ∀ char ∈ characters none bytes, IsPlain char) :
    (characters none bytes).flatMap String.utf8EncodeChar = bytes := by
  induction bytes with
  | nil => rfl
  | cons byte rest ih =>
    unfold characters at h ⊢
    cases hbyte : announce byte with
    | none =>
      simp only [hbyte] at h
      exact absurd (h _ List.mem_cons_self) not_isPlain_replacement
    | some first =>
      cases first with
      | inl char =>
        simp only [hbyte] at h ⊢
        rw [List.flatMap_cons, encode_of_announce hbyte,
          ih fun char hchar => h char (List.mem_cons_of_mem _ hchar), List.singleton_append]
      | inr sequence =>
        simp only [hbyte] at h
        obtain ⟨hmissing, hleast⟩ := least_of_announce hbyte
        obtain ⟨char, hchar, hplain⟩ := exists_not_isPlain hmissing hleast rest
        exact absurd (h char hchar) hplain

end Utf8

namespace Bytes

variable {bytes : Bytes} {text : String}

/-- A text of plain characters is that of its own bytes alone. -/
theorem toText_eq_iff (h : ∀ char ∈ text.toList, Utf8.IsPlain char) :
    bytes.toText = text ↔ bytes = ofText text := by
  refine ⟨?_, fun hbytes => by rw [hbytes, toText_ofText]⟩
  rintro rfl
  unfold toText at h ⊢
  split
  next text hvalid =>
    obtain ⟨_, ⟨⟩⟩ := Option.dite_none_right_eq_some.mp hvalid
    simp [ofText, String.fromUTF8]
  next hvalid =>
    simp only [hvalid, String.toList_ofList] at h
    rw [ofText_ofList, Utf8.characters_of_isPlain h]

end Bytes

/-- The parts of a function that have names. -/
inductive FunctionField where
  | name
  | closure
  | attributes
  | body
  | params
  | rest
  | annotations

namespace FunctionField

def key : FunctionField → String
  | .name => "name"
  | .closure => "closure"
  | .attributes => "udata"
  | .body => "stmt"
  | .params => "args"
  | .rest => "rest"
  | .annotations => "annos"

def bytes (field : FunctionField) : Bytes := Bytes.ofText field.key

theorem isPlain_key (field : FunctionField) : ∀ char ∈ field.key.toList, Utf8.IsPlain char := by
  cases field <;> simp [key, Utf8.IsPlain]

theorem toText_eq_key {name : Bytes} (field : FunctionField) : name.toText = field.key ↔ name = field.bytes :=
  Bytes.toText_eq_iff field.isPlain_key

end FunctionField

end ObjectModel
