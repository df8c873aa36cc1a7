import ObjectModel.Proofs.Comparison.Order

/-!
# Objects that are found equal at once

Numbers, strings and buffers are found equal by what they hold, other objects by being one object
(`sign_leafOrder_eq_zero`). Which of two comes first matters for a string and a buffer only: the text of
the buffer is compared with a string before it, and all bytes of the buffer with a string behind it
(`Coincide.symm`).
-/

namespace ObjectModel

open Behavior

variable {s : State} {left right : Ref}

-- ---------------------------------------------------------------------------
-- Numbers, bytes and views
-- ---------------------------------------------------------------------------

theorem Integer.order_eq_iff {a b : Int64} : order a b = .eq ↔ a = b := by
  rw [← Int64.toInt_inj]
  simp only [order, Int64.lt_iff_toInt_lt]
  split
  · simp; omega
  · split
    · simp; omega
    · simp; omega

theorem Integer.sign_ofOrdering_eq_zero {o : Ordering} : sign (ofOrdering o) = 0 ↔ o = .eq := by
  rw [sign_ofOrdering, ofOrdering_eq_zero]

theorem Integer.sign_eq_zero {n : Int64} : sign n = 0 ↔ n = 0 := by
  refine Iff.trans ?_ order_eq_iff
  unfold sign
  cases order n 0 <;> decide

namespace Bytes

theorem ofText_inj {a b : String} : ofText a = ofText b ↔ a = b := by
  constructor
  · intro h
    exact String.toByteArray_inj.mp (ByteArray.ext (Array.toList_inj.mp h))
  · rintro rfl
    rfl

theorem order_eq_iff {a b : Bytes} : order a b = .eq ↔ a = b := by
  induction a generalizing b with
  | nil => cases b <;> simp [order]
  | cons x xs ih =>
    cases b with
    | nil => simp [order]
    | cons y ys =>
      simp only [order, List.cons.injEq, UInt8.lt_iff_toNat_lt, ← UInt8.toNat_inj]
      split
      · simp; omega
      · split
        · simp; omega
        · simp [ih]; omega

theorem ofText_ofList (chars : List Char) :
    ofText (String.ofList chars) = chars.flatMap String.utf8EncodeChar := by
  simp [ofText, List.utf8Encode]

theorem fromUTF8?_ofText (text : String) : String.fromUTF8? (ofText text).toByteArray = some text := by
  have hbytes : (ofText text).toByteArray = text.toByteArray := by
    apply ByteArray.ext
    simp [ofText]
  have hvalid : text.toByteArray.IsValidUTF8 := text.isValidUTF8
  simp only [hbytes, String.fromUTF8?, hvalid, dite_true]
  rfl

theorem toText_ofText (text : String) : (ofText text).toText = text := by
  rw [toText, fromUTF8?_ofText]

theorem code_of_mem_encode {char : Char} {byte : UInt8} (hbyte : byte ∈ String.utf8EncodeChar char)
    (hplain : byte < 128) : byte.toNat = char.val.toNat ∧ String.utf8EncodeChar char = [byte] := by
  have hlarge {n : Nat} (h : 128 ≤ n % 256) : byte ≠ UInt8.ofNat n := by
    rintro rfl
    rw [UInt8.lt_iff_toNat_lt, UInt8.toNat_ofNat'] at hplain
    exact absurd hplain (Nat.not_lt.mpr h)
  unfold String.utf8EncodeChar at hbyte ⊢
  dsimp only at hbyte ⊢
  split at hbyte
  case isTrue h =>
    obtain rfl := List.mem_singleton.mp hbyte
    exact ⟨UInt8.toNat_ofNat_of_lt (Nat.lt_of_le_of_lt h (by decide)), if_pos h⟩
  case isFalse =>
    -- Each of several bytes is 128 or more.
    exfalso
    revert hbyte
    split
    · simp only [List.mem_cons, List.not_mem_nil, or_false, imp_false, not_or]
      exact ⟨hlarge (by omega), hlarge (by omega)⟩
    · split
      · simp only [List.mem_cons, List.not_mem_nil, or_false, imp_false, not_or]
        exact ⟨hlarge (by omega), hlarge (by omega), hlarge (by omega)⟩
      · simp only [List.mem_cons, List.not_mem_nil, or_false, imp_false, not_or]
        exact ⟨hlarge (by omega), hlarge (by omega), hlarge (by omega), hlarge (by omega)⟩

theorem zero_notMem_encode {char : Char} (h : char ≠ '\x00') : 0 ∉ String.utf8EncodeChar char := by
  intro hzero
  exact h (Char.ext (UInt32.toNat_inj.mp (code_of_mem_encode hzero (by decide)).1.symm))

theorem untilZero_ofList (chars : List Char) : (ofText (String.ofList chars)).untilZero =
    ofText (String.ofList (chars.takeWhile (· ≠ '\x00'))) := by
  simp only [ofText_ofList, untilZero]
  induction chars with
  | nil => rfl
  | cons char chars ih =>
    by_cases hzero : char = '\x00'
    · simp [hzero, String.utf8EncodeChar]
    · have hbytes : ∀ byte ∈ String.utf8EncodeChar char, decide (byte ≠ 0) = true := by
        rintro _ hmem
        simpa using ne_of_mem_of_not_mem hmem (zero_notMem_encode hzero)
      rw [List.flatMap_cons, List.takeWhile_append_of_pos hbytes, ih]
      simp [hzero]

/-- A text that is read back from its bytes up to the first zero has no zero. -/
theorem untilZero_of_toText {text : String} (h : (ofText text).untilZero.toText = text) :
    (ofText text).untilZero = ofText text := by
  obtain ⟨chars, rfl⟩ : ∃ chars, text = String.ofList chars := ⟨text.toList, by simp⟩
  rw [untilZero_ofList, toText_ofText] at h
  rw [untilZero_ofList, h]

end Bytes

theorem Binary64.order?_eq_iff {a b : Binary64} : a.order? b = some .eq ↔
    a.isNaN = false ∧ b.isNaN = false ∧ a.rank = b.rank := by
  unfold order?
  cases ha : a.isNaN <;> cases hb : b.isNaN <;> simp

/-- Two views show the same bytes. A view of unknown size shows as many as the other, and two of them
show none that could be compared. -/
def View.Alike (memory : Memory) : View → View → Prop
  | .sized a n, .sized b m => n = m ∧ bytesAt memory a n = bytesAt memory b m
  | .sized a n, .unsized b => bytesAt memory a n = bytesAt memory b n
  | .unsized a, .sized b m => bytesAt memory a m = bytesAt memory b m
  | .unsized _, .unsized _ => False

/-- A view shows the bytes, and no others if its size is known. -/
def View.Shows (memory : Memory) : View → Bytes → Prop
  | .sized a n, bytes => n = bytes.length ∧ bytesAt memory a n = bytes
  | .unsized a, bytes => bytesAt memory a bytes.length = bytes

theorem View.Alike.symm {memory : Memory} {a b : View} (h : a.Alike memory b) : b.Alike memory a := by
  cases a <;> cases b
  · exact ⟨h.1.symm, h.2.symm⟩
  · exact Eq.symm h
  · exact Eq.symm h
  · exact h

theorem Behavior.Buffers.sign_order_eq_zero {memory : Memory} {a b : View} :
    Integer.sign (order memory a b) = 0 ↔ a.Alike memory b := by
  cases a <;> cases b
  case sized.sized a n b m =>
    unfold order View.Alike
    by_cases hsize : n = m
    · simp [hsize, Integer.sign_ofOrdering_eq_zero, Bytes.order_eq_iff]
    · simp [hsize]
      decide
  case unsized.unsized => simp [order, View.Alike]; decide
  all_goals exact Integer.sign_ofOrdering_eq_zero.trans Bytes.order_eq_iff

-- ---------------------------------------------------------------------------
-- Leaves
-- ---------------------------------------------------------------------------

/-- The payload of an object that is compared by what it holds. Objects of other kinds are compared by
being one object, whatever they hold. -/
@[simp]
def Payload.seen? : Payload → Option Payload
  | .int value => some (.int value)
  | .float value => some (.float value)
  | .string value => some (.string value)
  | .list items => some (.list items)
  | .buffer b => some (.buffer b)
  | _ => none

namespace State

/-- Two objects, unless they are two lists, are found equal. -/
def Coincide (s : State) (left right : Ref) : Prop :=
  match (s.payload left).seen?, (s.payload right).seen? with
  | some (.int a), some (.int b) => a = b
  | some (.float a), some (.float b) => a.isNaN = false ∧ b.isNaN = false ∧ a.rank = b.rank
  | some (.string a), some (.string b) => a = b
  | some (.string a), some (.buffer b) => b.text s.memory = a
  | some (.buffer a), some (.string b) => a.view.Shows s.memory (Bytes.ofText b)
  | some (.buffer a), some (.buffer b) => a.view.Alike s.memory b.view
  | some _, _ => False
  | none, _ => left = right

theorem sign_leafOrder_eq_zero (h : s.Leaf left right) :
    Integer.sign (s.leafOrder left right) = 0 ↔ s.Coincide left right := by
  have hone : Integer.sign 1 ≠ 0 := by decide
  have horder {a b : Bytes} : Integer.sign (Integer.ofOrdering (Bytes.order a b)) = 0 ↔ a = b :=
    Integer.sign_ofOrdering_eq_zero.trans Bytes.order_eq_iff
  have hfloat {o : Option Ordering} :
      Integer.sign ((o.map Integer.ofOrdering).getD 1) = 0 ↔ o = some .eq := by
    cases o with
    | none => simp [hone]
    | some o => simp [Integer.sign_ofOrdering_eq_zero]
  unfold Leaf kind at h
  unfold leafOrder Coincide
  cases hl : s.payload left with
  | int a =>
    cases s.payload right with
    | int b => exact Integer.sign_ofOrdering_eq_zero.trans Integer.order_eq_iff
    | _ => simp [hone]
  | float a =>
    cases s.payload right with
    | float b => exact hfloat.trans Binary64.order?_eq_iff
    | _ => simp [hone]
  | string a =>
    cases s.payload right with
    | string b => exact horder.trans Bytes.ofText_inj
    | buffer b => exact horder.trans (Bytes.ofText_inj.trans eq_comm)
    | _ => simp [hone]
  | buffer a =>
    cases hr : s.payload right with
    | string b => simp [hl, hr, Payload.kind] at h
    | buffer b => exact Buffers.sign_order_eq_zero
    | _ => simp [hone]
  | list items => simp [hone]
  | _ =>
    by_cases hsame : left = right
    · simp [hsame]
      decide
    · simp [hsame, hone]

/-- A string and a buffer, in one of the two orders. -/
def Mixed (s : State) (left right : Ref) : Prop :=
  (s.kind left = .string ∧ s.kind right = .buffer) ∨ (s.kind left = .buffer ∧ s.kind right = .string)

theorem Coincide.symm (h : s.Coincide left right) (hmixed : ¬ s.Mixed left right) :
    s.Coincide right left := by
  unfold Mixed kind at hmixed
  unfold Coincide at *
  cases hl : s.payload left with
  | int a => cases hr : s.payload right <;> simp_all
  | float a => cases hr : s.payload right <;> simp_all
  | string a => cases hr : s.payload right <;> simp_all [Payload.kind]
  | buffer a =>
    cases hr : s.payload right with
    | buffer b =>
      simp only [hl, hr] at h ⊢
      exact h.symm
    | _ => simp_all [Payload.kind]
  | list items => simp [hl] at h
  | _ => cases hr : s.payload right <;> simp_all

end State

end ObjectModel
