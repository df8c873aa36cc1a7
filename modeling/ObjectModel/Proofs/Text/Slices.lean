import ObjectModel.Builtin.Globals
import ObjectModel.Proofs.Functions.Names
import ObjectModel.Proofs.Lists.Sequences
import ObjectModel.Proofs.Streams.Lines
import ObjectModel.Proofs.Text.Arguments

/-!
# Slices of strings and buffers

A bound counts from the end if it is negative, and is moved to the nearer end if it lies outside
(`Sequence.clamped`). What strings and buffers make between two bounds is the bytes from one place up to the
other (`Bytes.between`), as a text or as a copy in a block of its own. So a buffer is what it was cut into, and
a string of bytes below 128 is cut as a copy of it is (`sub_between`).
-/

namespace ObjectModel

open ObjectModel.Action Behavior

-- ---------------------------------------------------------------------------
-- Bounds
-- ---------------------------------------------------------------------------

namespace Sequence

/-- The place that a bound stands for, or the nearer end if it lies outside. -/
def clamped (bound : Int64) (length : Nat) : Nat := (max 0 (min (place bound length) length)).toNat

variable {bound : Int64} {length : Nat}

theorem bound_eq_clamped (bound : Int64) (length : Nat) :
    Bytes.bound length bound.toInt = clamped bound length := by
  rw [bound_eq, clamped]
  omega

theorem clamped_le (bound : Int64) (length : Nat) : clamped bound length ≤ length := by
  unfold clamped
  omega

theorem clamped_zero (length : Nat) : clamped 0 length = 0 := by
  rw [clamped, place_of_nonneg (by decide), Int64.toInt_zero]
  omega

theorem clamped_ofLength (length : Nat) :
    clamped (Integer.ofLength length) length = min length Int64.maxValue.toInt.toNat := by
  have hword := toInt_ofLength_eq_min length
  rw [clamped, place_of_nonneg (by omega), hword]
  omega

theorem clamped_ofLength_of_le (h : length ≤ Int64.maxValue.toInt) :
    clamped (Integer.ofLength length) length = length := by
  rw [clamped_ofLength]
  omega

end Sequence

-- ---------------------------------------------------------------------------
-- Bytes between bounds
-- ---------------------------------------------------------------------------

namespace Bytes

/-- The bytes from the place of one bound up to that of another. -/
def between (bytes : Bytes) (low high : Int64) : Bytes :=
  bytes.extract (Sequence.clamped low bytes.length) (Sequence.clamped high bytes.length)

variable {bytes : Bytes} {low high bound : Int64}

theorem slice_eq_between (bytes : Bytes) (low high : Int64) :
    slice bytes low.toInt high.toInt = bytes.between low high := by
  rw [slice, Sequence.bound_eq_clamped, Sequence.bound_eq_clamped, between, List.extract_eq_take_drop,
    List.drop_take]

theorem length_between (bytes : Bytes) (low high : Int64) : (bytes.between low high).length =
    Sequence.clamped high bytes.length - Sequence.clamped low bytes.length := by
  have hhigh := Sequence.clamped_le high bytes.length
  rw [between, List.extract_eq_take_drop, List.length_take, List.length_drop]
  omega

theorem length_between_le (bytes : Bytes) (low high : Int64) :
    (bytes.between low high).length ≤ bytes.length := by
  have hhigh := Sequence.clamped_le high bytes.length
  rw [length_between]
  omega

theorem mem_of_mem_between {byte : UInt8} (h : byte ∈ bytes.between low high) : byte ∈ bytes := by
  rw [between, List.extract_eq_take_drop] at h
  exact List.mem_of_mem_drop (List.mem_of_mem_take h)

/-- The bytes up to a bound and those from it on are all bytes. -/
theorem between_append (bound : Int64) (h : bytes.length ≤ Int64.maxValue.toInt) :
    bytes.between 0 bound ++ bytes.between bound (Integer.ofLength bytes.length) = bytes := by
  have hrest : (bytes.drop (Sequence.clamped bound bytes.length)).length =
      bytes.length - Sequence.clamped bound bytes.length := List.length_drop
  simp only [between, List.extract_eq_take_drop, Sequence.clamped_zero, Sequence.clamped_ofLength_of_le h,
    List.drop_zero, Nat.sub_zero, ← hrest, List.take_length, List.take_append_drop]

end Bytes

theorem Utf8.encode_characters {bytes : Bytes} (h : ∀ byte ∈ bytes, byte < 128) :
    (characters none bytes).flatMap String.utf8EncodeChar = bytes := by
  induction bytes with
  | nil => rfl
  | cons byte rest ih =>
    have hsmall : byte.toNat < 0x80 := UInt8.lt_iff_toNat_lt.mp (h byte List.mem_cons_self)
    have hbyte : announce byte = some (.inl (Char.ofNat byte.toNat)) := if_pos hsmall
    simp only [characters, hbyte]
    rw [List.flatMap_cons, encode_of_announce hbyte, List.singleton_append,
      ih fun other hother => h other (List.mem_cons_of_mem _ hother)]

theorem Bytes.ofText_toText {bytes : Bytes} (h : ∀ byte ∈ bytes, byte < 128) :
    ofText bytes.toText = bytes := by
  have htext : bytes = ofText (String.ofList (Utf8.characters none bytes)) := by
    rw [ofText_ofList, Utf8.encode_characters h]
  rw [htext, toText_ofText]

-- ---------------------------------------------------------------------------
-- One slice
-- ---------------------------------------------------------------------------

variable {s t u : State} {o p zero k : Ref} {rest : List Ref} {text : String} {bytes : Bytes}
  {low high bound : Int64}

namespace State

/-- The arguments behind the first give the bounds, which are the start and the length if they are left out. -/
structure GivesBounds (s : State) (args : List Ref) (length : Nat) (low high : Int64) : Prop where
  low : s.GivesInt args 1 0 low
  high : s.GivesInt args 2 (Integer.ofLength length) high

theorem GivesBounds.kept {args : List Ref} {length : Nat} (h : s.GivesBounds args length low high)
    (hkeeps : s.Keeps t) : t.GivesBounds args length low high :=
  ⟨h.low.kept hkeeps, h.high.kept hkeeps⟩

theorem GivesBounds.of_other {length : Nat} (h : s.GivesBounds (o :: rest) length low high) :
    s.GivesBounds (p :: rest) length low high := ⟨h.low, h.high⟩

/-- The answer is a new buffer that owns the bytes. It shares none with what was there before, and that is
as it was. -/
structure OwnsCopy (s : State) (answer : Ref) (bytes : Bytes) (t : State) : Prop where
  made : answer = s.heap.next
  owned : ∃ address,
    t.payload answer = .buffer { view := .sized address bytes.length, ownership := .owned }
  fits : s.memory.Fits bytes.length
  bytes : t.HasBytes answer bytes
  alone : s.Alone t answer
  extended : s.Extends t
  blocks : t.memory.blocks.size ≤ s.memory.blocks.size + 1

theorem ownsCopy_withBlock {s : State} (hfits : s.memory.Fits bytes.length) :
    s.OwnsCopy s.heap.next bytes (s.withBlock bytes) where
  made := rfl
  owned := (fresh_withBlock hfits).payload
  fits := hfits
  bytes := (fresh_withBlock hfits).hasBytes
  alone := alone_withBlock hfits
  extended := s.extends_withBlock bytes
  blocks := s.memory.count_allocate_le bytes

end State

theorem ends_sub_string (machine : Machine) (ho : s.payload o = .string text)
    (hbounds : s.GivesBounds (o :: rest) (Bytes.ofText text).length low high) :
    (Builtin.stringSub.body machine (o :: rest)).Ends s
      (fun answer t => answer = s.heap.next ∧
        t = s.made (.string ((Bytes.ofText text).between low high).toText)) fun _ => False := by
  have hfirst : (o :: rest)[0]? = some o := rfl
  simp only [Builtin.body, Strings.sub, ends_bind, Dispatcher.ends_textArgument_string _ hfirst ho,
    Dispatcher.ends_intArgumentOr _ hbounds.low, Dispatcher.ends_intArgumentOr _ hbounds.high,
    Bytes.slice_eq_between, ends_createString, and_self]

theorem ends_sub_buffer (machine : Machine) (ho : s.bytes? o = some bytes)
    (hbounds : s.GivesBounds (o :: rest) bytes.length low high) :
    (Builtin.bufferSub.body machine (o :: rest)).Ends s
      (fun answer t => s.OwnsCopy answer (bytes.between low high) t)
      (s.LacksMemory (bytes.between low high).length) := by
  simp only [Builtin.body, Buffers.sub, ends_bind, ends_argument_first, Buffers.ends_sizedBytes _ ho,
    Dispatcher.ends_intArgumentOr _ hbounds.low, Dispatcher.ends_intArgumentOr _ hbounds.high,
    Bytes.slice_eq_between, ends_createBuffer]
  exact ⟨State.lacksMemory_faulting, State.ownsCopy_withBlock⟩

-- ---------------------------------------------------------------------------
-- Two slices
-- ---------------------------------------------------------------------------

def halves (machine : Machine) (o zero k : Ref) : Action (Ref × Ref) := do
  let head ← Builtin.bufferSub.body machine [o, zero, k]
  let tail ← Builtin.bufferSub.body machine [o, k]
  return (head, tail)

/-- A buffer of which both parts fit into memory is no longer than numbers count. -/
theorem Bytes.length_le_maxValue (hhead : (bytes.between 0 bound).length ≤ Memory.lane)
    (htail : (bytes.between bound (Integer.ofLength bytes.length)).length ≤ Memory.lane) :
    bytes.length ≤ Int64.maxValue.toInt := by
  rw [length_between, Sequence.clamped_zero, Memory.lane_eq] at hhead
  rw [length_between, Sequence.clamped_ofLength, Memory.lane_eq, Int64.toInt_maxValue] at htail
  rw [Int64.toInt_maxValue]
  omega

theorem ends_halves (machine : Machine) (ho : s.HasBytes o bytes) (hzero : s.payload zero = .int 0)
    (hk : s.payload k = .int bound) (hvalue : k ≠ s.nothing) :
    (halves machine o zero k).Ends s
      (fun parts t => ∃ head tail,
        t.bytes? parts.1 = some head ∧ t.bytes? parts.2 = some tail ∧ head ++ tail = bytes)
      fun t => ∃ length ≤ bytes.length, s.LacksMemoryAfter 1 length t := by
  have hhead : s.GivesBounds [o, zero, k] bytes.length 0 bound :=
    ⟨.of_fallback rfl hzero, .of_int rfl hk hvalue⟩
  have htail : s.GivesBounds [o, k] bytes.length bound (Integer.ofLength bytes.length) :=
    ⟨.of_int rfl hk hvalue, rfl⟩
  simp only [halves, ends_bind, ends_pure]
  refine (ends_sub_buffer machine ho.bytes hhead).imp (fun head t hcopy => ?_) fun t h =>
    ⟨_, Bytes.length_between_le .., h.after (Nat.le_add_right _ _)⟩
  have hkept := ho.extends hcopy.extended
  refine (ends_sub_buffer machine hkept.bytes (htail.kept hcopy.extended.toKeeps)).imp
    (fun tail u hrest => ?_) fun u h => ⟨_, Bytes.length_between_le .., h.after hcopy.blocks⟩
  have hfirst := hcopy.bytes.extends hrest.extended
  exact ⟨_, _, hfirst.bytes, hrest.bytes.bytes,
    Bytes.between_append bound (Bytes.length_le_maxValue hcopy.fits.1 hrest.fits.1)⟩

def subOfBoth (machine : Machine) (o copy : Ref) (bounds : List Ref) : Action (Ref × Ref) := do
  let piece ← Builtin.stringSub.body machine (o :: bounds)
  let part ← Builtin.bufferSub.body machine (copy :: bounds)
  return (piece, part)

theorem ends_subOfBoth (machine : Machine) (ho : s.payload o = .string text)
    (hplain : ∀ byte ∈ Bytes.ofText text, byte < 128) (hcopy : s.HasBytes p (Bytes.ofText text))
    (hbounds : s.GivesBounds (o :: rest) (Bytes.ofText text).length low high) :
    (subOfBoth machine o p rest).Ends s
      (fun parts t => ∃ piece, t.payload parts.1 = .string piece ∧
        t.bytes? parts.2 = some (Bytes.ofText piece))
      fun t => ∃ length ≤ (Bytes.ofText text).length, s.LacksMemoryAfter 0 length t := by
  simp only [subOfBoth, ends_bind, ends_pure]
  refine (ends_sub_string machine ho hbounds).imp_sure ?_
  rintro _ _ ⟨rfl, rfl⟩
  let t := s.made (.string ((Bytes.ofText text).between low high).toText)
  have hgrown : s.Grown t s.shown := .made s _
  have hpiece : t.payload s.heap.next = .string ((Bytes.ofText text).between low high).toText :=
    payload_made_next ..
  have hkept := hcopy.extends hgrown.extends
  refine (ends_sub_buffer machine hkept.bytes (hbounds.of_other.kept hgrown.keeps)).imp
    (fun part u hpart => ?_) fun u h => ⟨_, Bytes.length_between_le .., h.after (Nat.le_refl _)⟩
  have hbytes : ∀ byte ∈ (Bytes.ofText text).between low high, byte < 128 := fun byte hbyte =>
    hplain byte (Bytes.mem_of_mem_between hbyte)
  refine ⟨_, hpart.extended.payload_eq hpiece (by simp [Payload.kind]), ?_⟩
  rw [Bytes.ofText_toText hbytes]
  exact hpart.bytes.bytes

/-- What is cut out of a string or of a buffer of known size is the bytes from the place of one bound up to that
of the other, where a negative bound counts from the end, one that lies outside is moved to the nearer end, and
bounds that are left out are the two ends. A string makes the text of these bytes, a buffer a copy that it owns.
No place lies outside, and a machine word is moved on to one without overflow. The parts of a buffer up to a
bound and from it on are all of its bytes, and a string of bytes below 128 is cut as a copy of it is. -/
theorem sub_between (machine : Machine) (s : State) :
    (∀ (o : Ref) (rest : List Ref) (text : String) (low high : Int64), s.payload o = .string text →
      s.GivesBounds (o :: rest) (Bytes.ofText text).length low high →
      (Builtin.stringSub.body machine (o :: rest)).Ends s
        (fun answer t => answer = s.heap.next ∧
          t = s.made (.string ((Bytes.ofText text).between low high).toText)) fun _ => False) ∧
    (∀ (o : Ref) (rest : List Ref) (bytes : Bytes) (low high : Int64), s.bytes? o = some bytes →
      s.GivesBounds (o :: rest) bytes.length low high →
      (Builtin.bufferSub.body machine (o :: rest)).Ends s
        (fun answer t => s.OwnsCopy answer (bytes.between low high) t)
        (s.LacksMemory (bytes.between low high).length)) ∧
    (∀ (bound : Int64) (length : Nat), length ≤ Int64.maxValue.toInt →
      (Sequence.wrapped bound length).toInt = Sequence.place bound length ∧
      Sequence.clamped bound length ≤ length ∧ Sequence.clamped 0 length = 0 ∧
      Sequence.clamped (Integer.ofLength length) length = length) ∧
    (∀ (bytes : Bytes) (low high : Int64), (bytes.between low high).length =
      Sequence.clamped high bytes.length - Sequence.clamped low bytes.length) ∧
    (∀ (o zero k : Ref) (bytes : Bytes) (bound : Int64), s.HasBytes o bytes → s.payload zero = .int 0 →
      s.payload k = .int bound → k ≠ s.nothing →
      (halves machine o zero k).Ends s
        (fun parts t => ∃ head tail,
          t.bytes? parts.1 = some head ∧ t.bytes? parts.2 = some tail ∧ head ++ tail = bytes)
        fun t => ∃ length ≤ bytes.length, s.LacksMemoryAfter 1 length t) ∧
    ∀ (o copy : Ref) (bounds : List Ref) (text : String) (low high : Int64), s.payload o = .string text →
      (∀ byte ∈ Bytes.ofText text, byte < 128) → s.HasBytes copy (Bytes.ofText text) →
      s.GivesBounds (o :: bounds) (Bytes.ofText text).length low high →
      (subOfBoth machine o copy bounds).Ends s
        (fun parts t => ∃ piece, t.payload parts.1 = .string piece ∧
          t.bytes? parts.2 = some (Bytes.ofText piece))
        fun t => ∃ length ≤ (Bytes.ofText text).length, s.LacksMemoryAfter 0 length t :=
  ⟨fun _ _ _ _ _ => ends_sub_string machine, fun _ _ _ _ _ => ends_sub_buffer machine,
    fun bound length h => ⟨Sequence.toInt_wrapped h, Sequence.clamped_le bound length,
      Sequence.clamped_zero length, Sequence.clamped_ofLength_of_le h⟩,
    Bytes.length_between, fun _ _ _ _ _ => ends_halves machine,
    fun _ _ _ _ _ _ => ends_subOfBoth machine⟩

/-- The end of a string, and of a copy of it that is cut in two as well. -/
theorem sub_between_end :
    let s := { Globals.bare {} .discard {} with
      heap := ⟨#[.singlet "None", .map [], .map [], .string "hello", .int (-3), .int 0, .int 2]⟩ }
    let copied := s.withBlock (Bytes.ofText "hello")
    (Builtin.stringSub.body (machine {} 1) [⟨3⟩, ⟨4⟩]).Ends copied
        (fun answer t => t.payload answer = .string "llo") (fun _ => False) ∧
      (Builtin.bufferSub.body (machine {} 1) [⟨7⟩, ⟨4⟩]).Ends copied
        (fun answer t => t.bytes? answer = some (Bytes.ofText "llo"))
        (fun _ => False) ∧
      (Sequence.wrapped (-3) 5).toInt = 2 ∧
      (halves (machine {} 1) ⟨7⟩ ⟨5⟩ ⟨6⟩).Ends copied
        (fun parts t => ∃ head tail, t.bytes? parts.1 = some head ∧
          t.bytes? parts.2 = some tail ∧ head ++ tail = Bytes.ofText "hello") (fun _ => False) ∧
      (subOfBoth (machine {} 1) ⟨3⟩ ⟨7⟩ [⟨4⟩]).Ends copied
        (fun parts t => ∃ piece, t.payload parts.1 = .string piece ∧
          t.bytes? parts.2 = some (Bytes.ofText piece)) fun _ => False := by
  intro s copied
  have ho : copied.payload ⟨3⟩ = .string "hello" := rfl
  have hzero : copied.payload ⟨5⟩ = .int 0 := rfl
  have hk : copied.payload ⟨6⟩ = .int 2 := rfl
  have hvalue : (⟨6⟩ : Ref) ≠ copied.nothing := by decide
  have hbounds : copied.GivesBounds [⟨3⟩, ⟨4⟩] (Bytes.ofText "hello").length (-3)
      (Integer.ofLength (Bytes.ofText "hello").length) := ⟨rfl, rfl⟩
  have hcopy : copied.HasBytes ⟨7⟩ (Bytes.ofText "hello") :=
    (State.fresh_withBlock (s := s) (by decide +kernel)).hasBytes
  have hblocks : copied.memory.blocks.size ≤ 1 := s.memory.count_allocate_le _
  clear_value copied
  have hplain : ∀ byte ∈ Bytes.ofText "hello", byte < 128 := by decide +kernel
  have hend : (Bytes.ofText "hello").between (-3) (Integer.ofLength (Bytes.ofText "hello").length) =
      Bytes.ofText "llo" := by decide +kernel
  have hroom {t : State} {length : Nat} (h : length ≤ 5) : ¬ copied.LacksMemoryAfter 1 length t :=
    State.not_lacksMemoryAfter (by rw [Memory.lane_eq]; omega) (by rw [Memory.lanes_eq]; omega)
  obtain ⟨hstring, hbuffer, hplace, -, hhalves, hboth⟩ := sub_between (machine {} 1) copied
  refine ⟨?_, ?_, (hplace (-3) 5 (by decide)).1, ?_, ?_⟩
  · refine (hstring _ _ _ _ _ ho hbounds).imp_sure ?_
    rintro _ _ ⟨rfl, rfl⟩
    rw [hend, Bytes.toText_ofText]
    exact payload_made_next ..
  · refine (hbuffer _ _ _ _ _ hcopy.bytes hbounds.of_other).imp (fun answer t h => ?_) fun t h => ?_
    · rw [hend] at h
      exact h.bytes.bytes
    · exact hroom (by rw [hend]; decide +kernel) (h.after (Nat.le_add_right _ _))
  · refine (hhalves _ _ _ _ _ hcopy hzero hk hvalue).imp (fun _ _ h => h) ?_
    rintro t ⟨length, hlength, h⟩
    exact hroom hlength h
  · refine (hboth _ _ _ _ _ _ ho hplain hcopy hbounds).imp (fun _ _ h => h) ?_
    rintro t ⟨length, hlength, h⟩
    exact hroom hlength (h.mono (by omega))

end ObjectModel
