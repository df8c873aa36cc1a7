import Mathlib.Data.List.TakeWhile
import ObjectModel.Builtin.Globals
import ObjectModel.Proofs.Lists.Sequences
import ObjectModel.Proofs.Text.Arguments

/-!
# Codes of bytes

The code of a byte is asked of a text. A string's bytes are those of its text, but a buffer is asked for the
text of its bytes before the first zero, and the bytes of that are its own only if they are well formed. So
an int comes back from the byte that was made of it if that byte is a character (`ord_byte`).
-/

namespace ObjectModel

open ObjectModel.Action Behavior

-- ---------------------------------------------------------------------------
-- Bytes
-- ---------------------------------------------------------------------------

namespace Bytes

variable {bytes : Bytes} {byte : UInt8}

theorem wrappedAt?_eq (bytes : Bytes) (index : Int64) :
    wrappedAt? bytes index.toInt = Sequence.itemAt? bytes (Sequence.place index bytes.length) := by
  simp only [wrappedAt?, Sequence.ite_eq_place, Sequence.itemAt?, ← Int.not_lt, ite_not]

theorem itemAt?_eq_none {index : Int64}
    (h : Sequence.itemAt? bytes (Sequence.place index bytes.length) = none) :
    ¬ (-(bytes.length : Int) ≤ index.toInt ∧ index.toInt < bytes.length) := by
  rintro ⟨hlow, hhigh⟩
  simp only [Sequence.itemAt?, Sequence.place, Int64.lt_iff_toInt_lt, Int64.toInt_zero] at h
  split at h <;> split at h
  all_goals first
    | (rw [List.getElem?_eq_none_iff] at h; omega)
    | omega

theorem untilZero_eq_self : bytes.untilZero = bytes ↔ 0 ∉ bytes := by
  rw [untilZero, List.takeWhile_eq_self_iff]
  simp only [decide_eq_true_eq]
  exact ⟨fun h hzero => h 0 hzero rfl, fun h byte hbyte => ne_of_mem_of_not_mem hbyte h⟩

theorem ofText_untilZero_eq_self :
    ofText bytes.untilZero.toText = bytes ↔ 0 ∉ bytes ∧ ∃ text, bytes = ofText text := by
  constructor
  · intro h
    refine ⟨untilZero_eq_self.mp ?_, _, h.symm⟩
    have hread : (ofText bytes.untilZero.toText).untilZero.toText = bytes.untilZero.toText := by rw [h]
    rw [← h]
    exact untilZero_of_toText hread
  · rintro ⟨hzero, text, rfl⟩
    rw [untilZero_eq_self.mpr hzero, toText_ofText]

/-- The code that a byte of its own comes back as: none for zero, and that of the character for ill-formed
bytes for those that are no characters. -/
def codeBack? (byte : UInt8) : Option UInt8 :=
  if byte = 0 then none else if byte < 128 then some byte else some 0xEF

theorem getElem?_text_singleton (byte : UInt8) :
    (ofText (untilZero [byte]).toText)[0]? = codeBack? byte := by
  have hall : ∀ code : Fin 256,
      (ofText (untilZero [UInt8.ofNat code]).toText)[0]? = codeBack? (UInt8.ofNat code) := by
    decide +kernel
  have hbyte := hall ⟨byte.toNat, byte.toNat_lt⟩
  rwa [UInt8.ofNat_toNat] at hbyte

end Bytes

-- ---------------------------------------------------------------------------
-- Codes of the bytes of a text
-- ---------------------------------------------------------------------------

variable {s t : State} {o c : Ref} {args rest : List Ref} {place : Nat} {fallback n index : Int64}
  {bytes : Bytes}

namespace State

/-- The object is a string of the bytes, or a buffer whose text has them. -/
inductive ReadsAs (s : State) (o : Ref) : Bytes → Prop
  | string (h : s.payload o = .string text) : ReadsAs s o (Bytes.ofText text)
  | buffer (h : s.payload o = .buffer b) : ReadsAs s o (Bytes.ofText (b.text s.memory))

/-- The error that there is no such byte was raised, and nothing else changed. -/
def RaisesNoByte (s t : State) : Prop :=
  s.Raised .ordOutOfBounds t ∧ ∃ pending, t.pending = some pending ∧
    t.payload pending.error = .string "Compute ord of out-of-bounds index"

theorem Raised.noByte (h : s.Raised .ordOutOfBounds t) : s.RaisesNoByte t := by
  obtain ⟨error, traceback, hpending, hmessage, -⟩ := h.pending
  exact ⟨h, _, hpending, hmessage⟩

theorem readsAs_of_bytes? (h : s.bytes? o = some bytes) :
    s.ReadsAs o (Bytes.ofText bytes.untilZero.toText) := by
  obtain ⟨b, hb, hbytes⟩ := exists_buffer_of_bytes? h
  have htext : b.text s.memory = bytes.untilZero.toText := by
    simp only [Buffer.text, Buffer.textBytes?, hbytes, Option.map_some]
  exact htext ▸ .buffer hb

/-- What it is read as are its own bytes if there is no zero among them and they are well formed. -/
theorem ReadsAs.eq_bytes_iff {raw : Bytes} (h : s.ReadsAs o bytes) (hraw : s.bytes? o = some raw) :
    bytes = raw ↔ 0 ∉ raw ∧ ∃ text, raw = Bytes.ofText text := by
  obtain ⟨b, hb, hbytes⟩ := exists_buffer_of_bytes? hraw
  rw [← Bytes.ofText_untilZero_eq_self]
  cases h with
  | string htext => exact nomatch hb.symm.trans htext
  | buffer hother =>
    obtain rfl : b = _ := Payload.buffer.inj (hb.symm.trans hother)
    simp only [Buffer.text, Buffer.textBytes?, hbytes, Option.map_some]

end State

theorem Dispatcher.ends_textArgument_read (host : Host) (rounds : Nat) (ho : args[place]? = some o)
    (h : s.ReadsAs o bytes) : ((machine host (rounds + 1)).textArgument args place).Ends s
      (fun text t => Bytes.ofText text = bytes ∧ s.Grown t s.shown) fun _ => False := by
  cases h with
  | string h => exact (ends_textArgument_string _ ho h).mpr ⟨rfl, .refl s⟩
  | buffer h =>
    exact (ends_textArgument_buffer host rounds ho h).imp_value fun _ _ h => ⟨congrArg _ h.1, h.2⟩

/-- The answer is the byte at the place that the index stands for, if there is one. -/
theorem ends_ord (host : Host) (rounds : Nat) (h : s.ReadsAs o bytes)
    (hindex : s.GivesInt (o :: rest) 1 0 index) :
    (Builtin.ord.body (machine host (rounds + 1)) (o :: rest)).Ends s
      (fun answer t => ∃ byte,
        Sequence.itemAt? bytes (Sequence.place index bytes.length) = some byte ∧
        t.payload answer = .int (Int64.ofNat byte.toNat))
      fun t => Sequence.itemAt? bytes (Sequence.place index bytes.length) = none ∧
        s.RaisesNoByte t := by
  simp only [Builtin.body, Prelude.ord, ends_bind]
  have hfirst : (o :: rest)[0]? = some o := rfl
  refine (Dispatcher.ends_textArgument_read host rounds hfirst h).imp_sure ?_
  rintro text t ⟨rfl, hgrown⟩
  rw [Dispatcher.ends_intArgumentOr _ (hindex.kept hgrown.keeps), Bytes.ofTextWrappedAt?_eq,
    Bytes.wrappedAt?_eq]
  cases hbyte : Sequence.itemAt? (Bytes.ofText text) (Sequence.place index (Bytes.ofText text).length) with
  | some byte => exact (ends_createInt _).mpr ⟨byte, rfl, payload_made_next ..⟩
  | none => exact (ends_raise _).mpr ⟨rfl, (hgrown.thenRaised (t.raised_faulting _)).noByte⟩

-- ---------------------------------------------------------------------------
-- Bytes of codes
-- ---------------------------------------------------------------------------

def Integer.lowest (n : Int64) : UInt8 := n.toUInt64.toUInt8

theorem Integer.toNat_lowest (n : Int64) : ((lowest n).toNat : Int) = n.toInt % 256 := by
  have hword : n.toInt = (n.toUInt64.toNat : Int).bmod (2 ^ 64) := BitVec.toInt_eq_toNat_bmod n.toBitVec
  rw [lowest, UInt64.toNat_toUInt8, hword, Int.bmod_def]
  split <;> omega

/-- Asks for the code of the byte that is made of an int. -/
def codeOfByte (machine : Machine) (c : Ref) : Action Ref := do
  let byte ← Builtin.chr.body machine [c]
  Builtin.ord.body machine [byte]

theorem ends_codeOfByte (host : Host) (rounds : Nat) (hc : s.payload c = .int n) :
    (codeOfByte (machine host (rounds + 1)) c).Ends s
      (fun answer t => ∃ byte, Bytes.codeBack? (Integer.lowest n) = some byte ∧
        t.payload answer = .int (Int64.ofNat byte.toNat))
      fun t => s.LacksMemory 1 t ∨
        Integer.lowest n = 0 ∧ (s.withBlock [Integer.lowest n]).RaisesNoByte t := by
  simp only [codeOfByte, Builtin.body, Prelude.chr, Dispatcher.intArgument, ends_bind,
    ends_argument_first, Dispatcher.ends_toInt _ hc]
  rw [show n.toUInt64.toUInt8 = Integer.lowest n from rfl, ends_createBuffer]
  refine ⟨fun hlarge => .inl (State.lacksMemory_faulting hlarge), fun hfits => ?_⟩
  have hreads := State.readsAs_of_bytes? (State.fresh_withBlock hfits).bytes?
  have hcode : Sequence.itemAt? (Bytes.ofText (Bytes.untilZero [Integer.lowest n]).toText)
      (Sequence.place 0 (Bytes.ofText (Bytes.untilZero [Integer.lowest n]).toText).length) =
        Bytes.codeBack? (Integer.lowest n) := Bytes.getElem?_text_singleton _
  have hzero : (s.withBlock [Integer.lowest n]).GivesInt [s.heap.next] 1 0 0 := rfl
  have hord := ends_ord host rounds hreads hzero
  rw [hcode] at hord
  refine hord.imp (fun _ _ h => h) ?_
  rintro t ⟨hnone, hraises⟩
  refine .inr ⟨?_, hraises⟩
  by_contra hzero
  unfold Bytes.codeBack? at hnone
  rw [if_neg hzero] at hnone
  split at hnone <;> cases hnone

theorem toInt_codeBack {code : UInt8} (h : Bytes.codeBack? (Integer.lowest n) = some code) :
    0 < n.toInt % 256 ∧ (Int64.ofNat code.toNat).toInt =
      if n.toInt % 256 < 128 then n.toInt % 256 else 239 := by
  have hlowest := Integer.toNat_lowest n
  have hcode : (Int64.ofNat code.toNat).toInt = code.toNat :=
    Int64.toInt_ofNat_of_lt (Nat.lt_trans code.toNat_lt (by decide))
  have hsmall : Integer.lowest n < 128 ↔ n.toInt % 256 < 128 := by
    rw [UInt8.lt_iff_toNat_lt, ← hlowest]
    exact Int.ofNat_lt.symm
  rw [hcode]
  unfold Bytes.codeBack? at h
  split at h
  case isTrue => cases h
  case isFalse hzero =>
    have hpos : (Integer.lowest n).toNat ≠ 0 := fun h0 => hzero (UInt8.toNat_inj.mp h0)
    refine ⟨by omega, ?_⟩
    simp only [hsmall] at h
    split at h <;> rename_i hlow <;> simp only [hlow, if_true, if_false] <;> cases h
    · exact hlowest
    · rfl

/-- The code of the byte at an index is that of the byte of the text which the object is read as, counted from
the end for a negative index, and an error where there is no such byte. A string is read as its own bytes; a
buffer of known size is if there is no zero among them and they are well formed. The code of the byte that is
made of an int is its rest by 256 below 128, but for zero, which is read as no byte at all; all others are
read as the character for ill-formed bytes. The byte takes a block of memory, which may be lacking. -/
theorem ord_byte (host : Host) (rounds : Nat) (s : State) :
    (∀ (o : Ref) (rest : List Ref) (bytes : Bytes) (index : Int64), s.ReadsAs o bytes →
      s.GivesInt (o :: rest) 1 0 index →
      (Builtin.ord.body (machine host (rounds + 1)) (o :: rest)).Ends s
        (fun answer t => ∃ byte,
          Sequence.itemAt? bytes (Sequence.place index bytes.length) = some byte ∧
          t.payload answer = .int (Int64.ofNat byte.toNat))
        fun t => ¬ (-(bytes.length : Int) ≤ index.toInt ∧ index.toInt < bytes.length) ∧
          s.RaisesNoByte t) ∧
    (∀ (o : Ref) (raw bytes : Bytes), s.bytes? o = some raw → s.ReadsAs o bytes →
      (bytes = raw ↔ 0 ∉ raw ∧ ∃ text, raw = Bytes.ofText text)) ∧
    ∀ (c : Ref) (n : Int64), s.payload c = .int n →
      (codeOfByte (machine host (rounds + 1)) c).Ends s
        (fun answer t => ∃ code, t.payload answer = .int code ∧ 0 < n.toInt % 256 ∧
          code.toInt = if n.toInt % 256 < 128 then n.toInt % 256 else 239)
        fun t => s.LacksMemory 1 t ∨
          n.toInt % 256 = 0 ∧ (s.withBlock [Integer.lowest n]).RaisesNoByte t := by
  refine ⟨fun o rest bytes index h hindex => ?_, fun o raw bytes hraw h => h.eq_bytes_iff hraw,
    fun c n hc => ?_⟩
  · exact (ends_ord host rounds h hindex).imp (fun _ _ h => h) fun t h =>
      ⟨Bytes.itemAt?_eq_none h.1, h.2⟩
  · refine (ends_codeOfByte host rounds hc).imp (fun answer t h => ?_) fun t h => h.imp_right fun h => ?_
    · obtain ⟨byte, hbyte, hanswer⟩ := h
      exact ⟨_, hanswer, toInt_codeBack hbyte⟩
    · refine ⟨?_, h.2⟩
      rw [← Integer.toNat_lowest, h.1]
      rfl

/-- The last byte of a string, and the code of the byte that is made of 322. -/
theorem ord_byte_last :
    let s := { Globals.bare {} .discard {} with
      heap := ⟨#[.singlet "None", .map [], .map [], .string "abc", .int (-1), .int 322]⟩ }
    (Builtin.ord.body (machine {} 1) [⟨3⟩, ⟨4⟩]).Ends s (fun answer t => t.payload answer = .int 99)
        (fun _ => False) ∧
      (codeOfByte (machine {} 1) ⟨5⟩).Ends s (fun answer t => t.payload answer = .int 66)
        fun _ => False := by
  intro s
  have ho : s.payload ⟨3⟩ = .string "abc" := rfl
  have hindex : s.GivesInt [⟨3⟩, ⟨4⟩] 1 0 (-1) := rfl
  have hc : s.payload ⟨5⟩ = .int 322 := rfl
  have hfits : s.memory.Fits 1 := by decide
  clear_value s
  obtain ⟨hord, -, hcode⟩ := ord_byte {} 0 s
  constructor
  · have hlast : Sequence.itemAt? (Bytes.ofText "abc")
        (Sequence.place (-1) (Bytes.ofText "abc").length) = some 99 := by decide +kernel
    refine (hord _ _ _ _ (.string ho) hindex).imp (fun answer t h => ?_) fun t h => ?_
    · obtain ⟨byte, hbyte, hanswer⟩ := h
      rw [hlast] at hbyte
      cases hbyte
      exact hanswer
    · exact h.1 (by decide +kernel)
  · refine (hcode _ _ hc).imp (fun answer t h => ?_) fun t h => ?_
    · obtain ⟨code, hanswer, -, hcode⟩ := h
      have hint : code.toInt = (66 : Int64).toInt := hcode.trans (by decide +kernel)
      rw [hanswer, Int64.toInt_inj.mp hint]
    · rcases h with hlacks | hzero
      · exact hlacks.1 hfits
      · exact absurd hzero.1 (by decide +kernel)

end ObjectModel
