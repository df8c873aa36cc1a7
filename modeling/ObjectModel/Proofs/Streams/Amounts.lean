import ObjectModel.Files.Stream

/-!
# What a read takes

Of the bytes ahead of a stream a read takes an initial part: all of them, so many, or a line as far as it
fits. `take_eq` says which part, and when the bytes ahead came to their end first.
-/

namespace ObjectModel

namespace Bytes

/-- The bytes up to the first line feed, which is the last of them. -/
def line : Bytes → Bytes
  | [] => []
  | byte :: rest => if byte = 0x0A then [byte] else byte :: line rest

theorem prefix_line (bytes : Bytes) : line bytes <+: bytes := by
  induction bytes with
  | nil => exact List.prefix_refl []
  | cons byte rest ih =>
    unfold line
    split
    · exact ⟨rest, rfl⟩
    · exact (List.prefix_cons_inj byte).mpr ih

theorem last_of_line_feed {bytes : Bytes} {i : Nat} (h : (line bytes)[i]? = some 0x0A) :
    i + 1 = (line bytes).length := by
  induction bytes generalizing i with
  | nil => simp [line] at h
  | cons byte rest ih =>
    unfold line at h ⊢
    by_cases hfeed : byte = 0x0A
    · rw [if_pos hfeed] at h ⊢
      obtain ⟨hi, -⟩ := List.getElem?_eq_some_iff.mp h
      simpa using hi
    · rw [if_neg hfeed] at h ⊢
      cases i with
      | zero => exact absurd (by simpa using h) hfeed
      | succ i => simpa using ih (by simpa using h)

theorem line_ne_nil {bytes : Bytes} (h : bytes ≠ []) : line bytes ≠ [] := by
  cases bytes with
  | nil => exact absurd rfl h
  | cons byte rest =>
    unfold line
    split <;> simp

end Bytes

namespace ReadAmount

def taken : ReadAmount → Bytes → Bytes
  | .all, ahead => ahead
  | .line limit, ahead => ahead.line.take limit
  | .count limit, ahead => ahead.take limit

/-- The bytes ahead end before the amount is met. No end meets a read of everything. -/
def Short : ReadAmount → Bytes → Prop
  | .all, _ => True
  | .line limit, ahead => 0x0A ∉ ahead ∧ ahead.length < limit
  | .count limit, ahead => ahead.length < limit

instance (amount : ReadAmount) (ahead : Bytes) : Decidable (amount.Short ahead) := by
  cases amount <;> unfold Short <;> infer_instance

variable {amount : ReadAmount} {contents : ByteArray} {position limit : Nat} {ahead : Bytes}

theorem prefix_taken (amount : ReadAmount) (ahead : Bytes) : amount.taken ahead <+: ahead := by
  cases amount with
  | all => exact List.prefix_refl ahead
  | line limit => exact (List.take_prefix limit _).trans (Bytes.prefix_line ahead)
  | count limit => exact List.take_prefix limit ahead

theorem taken_eq_take (amount : ReadAmount) (ahead : Bytes) :
    amount.taken ahead = ahead.take (amount.taken ahead).length :=
  List.prefix_iff_eq_take.mp (prefix_taken amount ahead)

/-- A read that comes short takes all that is ahead. -/
theorem taken_of_short (h : amount.Short ahead) : amount.taken ahead = ahead := by
  cases amount with
  | all => rfl
  | line limit =>
    obtain ⟨hfeed, hlength⟩ := h
    have hline : ahead.line = ahead := by
      clear hlength
      induction ahead with
      | nil => rfl
      | cons byte rest ih =>
        obtain ⟨hbyte, hrest⟩ := not_or.mp (mt List.mem_cons.mpr hfeed)
        rw [Bytes.line, if_neg (Ne.symm hbyte), ih hrest]
    rw [taken, hline, List.take_of_length_le (Nat.le_of_lt hlength)]
  | count limit => exact List.take_of_length_le (Nat.le_of_lt h)

theorem length_taken_line_le (limit : Nat) (ahead : Bytes) :
    ((line limit).taken ahead).length ≤ limit := List.length_take_le limit _

theorem last_of_taken_line_feed {i : Nat} (h : ((line limit).taken ahead)[i]? = some 0x0A) :
    i + 1 = ((line limit).taken ahead).length := by
  obtain ⟨hi, -⟩ := List.getElem?_eq_some_iff.mp h
  simp only [taken] at h hi ⊢
  rw [List.getElem?_take] at h
  split at h
  · have hlast := Bytes.last_of_line_feed h
    rw [List.length_take] at hi ⊢
    omega
  · cases h

theorem taken_line_ne_nil (h : 0 < limit) (hshort : ¬ (line limit).Short ahead) :
    (line limit).taken ahead ≠ [] := by
  have hahead : ahead ≠ [] := by
    rintro rfl
    exact hshort ⟨by simp, h⟩
  simp only [taken, ne_eq, List.take_eq_nil_iff, not_or]
  exact ⟨Nat.ne_of_gt h, Bytes.line_ne_nil hahead⟩

-- ---------------------------------------------------------------------------
-- Reads of contents
-- ---------------------------------------------------------------------------

theorem getElem?_contents (contents : ByteArray) (position : Nat) :
    contents[position]? = contents.data.toList[position]? := by
  by_cases h : position < contents.size
  · rw [getElem?_pos contents position h, List.getElem?_eq_getElem (by simpa using h)]
    rfl
  · rw [getElem?_neg contents position h, List.getElem?_eq_none (by simpa using h)]

theorem lineEnd_eq (contents : ByteArray) (position limit : Nat) :
    lineEnd contents position limit =
      (position + ((line limit).taken (contents.data.toList.drop position)).length,
        decide ((line limit).Short (contents.data.toList.drop position))) := by
  induction limit generalizing position with
  | zero => simp [lineEnd, taken, Short]
  | succ limit ih =>
    rw [lineEnd, getElem?_contents]
    cases hbyte : contents.data.toList[position]? with
    | none =>
      have hdrop := List.drop_eq_nil_iff.mpr (List.getElem?_eq_none_iff.mp hbyte)
      simp [hdrop, taken, Short, Bytes.line]
    | some byte =>
      obtain ⟨hlt, rfl⟩ := List.getElem?_eq_some_iff.mp hbyte
      rw [List.drop_eq_getElem_cons hlt]
      by_cases hfeed : contents.data.toList[position] = 0x0A
      · simp [hfeed, taken, Short, Bytes.line]
      · simp only [hfeed, if_false, ih, taken, Short, Bytes.line, List.take_succ_cons, List.length_cons,
          List.mem_cons, Ne.symm hfeed, false_or, Nat.add_lt_add_iff_right, Prod.mk.injEq, and_true]
        omega

/-- A read takes its part of the bytes ahead of the position. -/
theorem take_eq (amount : ReadAmount) (contents : ByteArray) (position : Nat) :
    amount.take contents position = (amount.taken (contents.data.toList.drop position),
      decide (amount.Short (contents.data.toList.drop position))) := by
  have hahead : (contents.data.toList.drop position).length = contents.size - position := by simp
  cases amount with
  | all =>
    refine Prod.ext ?_ rfl
    simp only [take, extent, Bytes.part_eq, taken, ← hahead, List.take_length]
  | line limit =>
    simp only [take, extent, lineEnd_eq, Nat.add_sub_cancel_left, Bytes.part_eq, Prod.mk.injEq, and_true]
    exact (taken_eq_take ..).symm
  | count limit =>
    simp only [take, extent, Bytes.part_eq, taken, Short, ← hahead, ← List.take_eq_take_min]

end ReadAmount

end ObjectModel
