import Mathlib.Tactic.Ring
import ObjectModel.Memory.View

/-!
# Scalars that are read back

A scalar that was written in a format reads back as what the format has room for: `Format.Keeps` says
for every format what this is, and `View.decodeHead_encoding` that the bytes written give it back,
whatever bytes come after them.
-/

namespace ObjectModel

namespace Bytes

@[simp] theorem length_ofNat (width value : Nat) : (ofNat width value).length = width := by
  induction width generalizing value with
  | zero => rfl
  | succ width ih => simp [ofNat, ih]

theorem toNat_ofNat (width value : Nat) : toNat (ofNat width value) = value % 256 ^ width := by
  induction width generalizing value with
  | zero => simp [ofNat, toNat, Nat.mod_one]
  | succ width ih =>
    have hbyte : (UInt8.ofNat value).toNat = value % 256 := UInt8.toNat_ofNat'
    rw [ofNat, toNat, ih, hbyte, Nat.pow_succ', Nat.mod_mul]

theorem untilZero_append_zero {bytes : Bytes} (h : 0 ∉ bytes) (rest : Bytes) :
    untilZero (bytes ++ 0 :: rest) = bytes := by
  have hall : ∀ byte ∈ bytes, decide (byte ≠ 0) = true := by
    intro byte hbyte
    simpa using ne_of_mem_of_not_mem hbyte h
  rw [untilZero, List.takeWhile_append_of_pos hall]
  simp

end Bytes

namespace Format

variable {format : Format} {n kept : Int64}

/-- What is left of an int in a format: its lowest bits, behind copies of their sign or behind zeros. -/
def reduced? : Format → Int64 → Option Int64
  | .uint8, n | .byte, n => some n.toUInt64.toUInt8.toUInt64.toInt64
  | .uint16, n => some n.toUInt64.toUInt16.toUInt64.toInt64
  | .uint32, n | .uint, n => some n.toUInt64.toUInt32.toUInt64.toInt64
  | .int8, n => some n.toInt8.toInt64
  | .int16, n => some n.toInt16.toInt64
  | .int32, n | .int, n => some n.toInt32.toInt64
  | .uint64, n | .ulong, n | .int64, n | .long, n => some n
  | _, _ => none

/-- A scalar written in a format reads back as another: an int as what is left of it, and characters,
addresses, doubles and texts without a zero byte as they are. -/
inductive Keeps : Format → Scalar → Scalar → Prop
  | int {format : Format} {n kept : Int64} (h : format.reduced? n = some kept) :
      Keeps format (.int n) (.int kept)
  | char (c : UInt8) : Keeps .char (.char c) (.char c)
  | pointer (address : Address) : Keeps .pointer (.address address) (.address address)
  | double (x : Binary64) : Keeps .double (.float x) (.float x)
  | text {bytes : Bytes} (h : 0 ∉ bytes) : Keeps .text (.bytes bytes) (.bytes bytes)

namespace Layout

theorem decode_unsigned (n : UInt64) (width : Nat) :
    decode .unsigned width (Bytes.ofNat width n.toNat) =
      .int (UInt64.ofNat (n.toNat % 256 ^ width)).toInt64 := by
  rw [decode, Bytes.toNat_ofNat]
  rfl

theorem decode_signed (n : Int64) {width : Nat} (h : width ≤ 8) :
    decode .signed width (Bytes.ofNat width n.toUInt64.toNat) =
      .int (Int64.ofInt (n.toInt.bmod (2 ^ (8 * width)))) := by
  have hpow : 256 ^ width = 2 ^ (8 * width) := by rw [Nat.pow_mul]
  have hdvd : 2 ^ (8 * width) ∣ 2 ^ 64 := Nat.pow_dvd_pow 2 (by omega)
  have hint : n.toInt = Int.bmod n.toUInt64.toNat (2 ^ 64) := BitVec.toInt_eq_toNat_bmod n.toBitVec
  rw [decode, Bytes.toNat_ofNat, hint, Int.bmod_bmod_of_dvd hdvd, hpow, Int.natCast_mod]
  exact congrArg (fun m => Scalar.int (Int64.ofInt m)) (Int.emod_bmod _ _)

end Layout

theorem decode_encode_int (h : format.reduced? n = some kept) : ∃ width layout bytes,
    format.fixed? = some (width, layout) ∧ layout.encode? width (.int n) = some bytes ∧
      bytes.length = width ∧ layout.decode width bytes = .int kept := by
  have hunsigned (width : Nat) (m : UInt64) (hm : m.toNat = n.toUInt64.toNat % 256 ^ width) :
      Layout.decode .unsigned width (Bytes.ofNat width n.toUInt64.toNat) = .int m.toInt64 := by
    rw [Layout.decode_unsigned, ← hm, UInt64.ofNat_toNat]
  have hsigned (width : Nat) (hwidth : width ≤ 8) (m : Int64)
      (hm : m.toInt = n.toInt.bmod (2 ^ (8 * width))) :
      Layout.decode .signed width (Bytes.ofNat width n.toUInt64.toNat) = .int m := by
    rw [Layout.decode_signed n hwidth, ← hm, Int64.ofInt_toInt]
  cases format with
  | uint8 | byte | uint16 | uint32 | uint =>
    obtain rfl := Option.some.inj h
    exact ⟨_, _, _, rfl, rfl, Bytes.length_ofNat _ _, hunsigned _ _ (by simp)⟩
  | int8 | int16 | int32 | int =>
    obtain rfl := Option.some.inj h
    exact ⟨_, _, _, rfl, rfl, Bytes.length_ofNat _ _, hsigned _ (by decide) _ (by simp)⟩
  | uint64 | ulong =>
    obtain rfl := Option.some.inj h
    exact ⟨_, _, _, rfl, rfl, Bytes.length_ofNat _ _, hunsigned 8 n.toUInt64 (by simp)⟩
  | int64 | long =>
    obtain rfl := Option.some.inj h
    exact ⟨_, _, _, rfl, rfl, Bytes.length_ofNat _ _, hsigned 8 (by decide) n (by simp)⟩
  | _ => cases h

/-- Every kept scalar of a fixed width is what its bytes stand for. -/
theorem Keeps.decode_encode (h : format.Keeps scalar back) (hwidth : format ≠ .text) :
    ∃ width layout bytes, format.fixed? = some (width, layout) ∧
      layout.encode? width scalar = some bytes ∧ bytes.length = width ∧
      layout.decode width bytes = back := by
  have hdecode (width value : Nat) (hvalue : value < 256 ^ width) :
      (Bytes.ofNat width value).toNat = value := by
    rw [Bytes.toNat_ofNat, Nat.mod_eq_of_lt hvalue]
  cases h with
  | int h => exact decode_encode_int h
  | char c =>
    refine ⟨_, _, _, rfl, rfl, Bytes.length_ofNat _ _, ?_⟩
    rw [Layout.decode, hdecode 1 _ c.toNat_lt, UInt8.ofNat_toNat]
  | pointer address =>
    refine ⟨_, _, _, rfl, rfl, Bytes.length_ofNat _ _, ?_⟩
    rw [Layout.decode, hdecode 8 _ address.toNat_lt, UInt64.ofNat_toNat]
  | double x =>
    refine ⟨_, _, _, rfl, rfl, Bytes.length_ofNat _ _, ?_⟩
    rw [Layout.decode, hdecode 8 _ x.bits.toNat_lt, UInt64.ofNat_toNat]
  | text => exact absurd rfl hwidth

end Format

theorem View.decodeHead_encoding (h : format.Keeps scalar back) :
    ∃ bytes, encoding format scalar = some bytes ∧
      ∀ rest, decodeHead format (bytes ++ rest) = some back := by
  by_cases htext : format = .text
  · subst htext
    cases h with
    | int h => cases h
    | @text bytes hzero =>
      refine ⟨bytes ++ [0], rfl, fun rest => ?_⟩
      show some (Scalar.bytes (Bytes.untilZero _)) = _
      rw [List.append_assoc, List.singleton_append, Bytes.untilZero_append_zero hzero]
  · obtain ⟨width, layout, bytes, hfixed, hencode, hlength, hdecode⟩ := h.decode_encode htext
    refine ⟨bytes, by simp only [encoding, hfixed, hencode], fun rest => ?_⟩
    have hroom : width ≤ (bytes ++ rest).length := by simp [hlength]
    simp only [decodeHead, hfixed, hroom, if_true, List.take_left' hlength, hdecode]

end ObjectModel
