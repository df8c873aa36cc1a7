import ObjectModel.Proofs.Text.Numerals
import ObjectModel.Proofs.Text.Slices

/-!
# The numeral at the start of a byte string

A scan by places finds the end of a numeral: behind a sign, digits, a point with digits, and an exponent, each
of which may be missing. A mark of an exponent without digits is passed and given back. Each place is where
the part that was taken ends, so no place is outside of the bytes; and no numeral that the bytes start with is
longer. What a reader of whole texts makes of the numeral is what the bytes start with
(`leadingBy_longest`).
-/

namespace ObjectModel.Numeral

variable {bytes behind front rest run sign : Bytes} {byte : UInt8} {p : UInt8 → Bool} {parts : Parts}
  {exponent : Exponent}

-- ---------------------------------------------------------------------------
-- Numerals
-- ---------------------------------------------------------------------------

def isMarker (byte : UInt8) : Bool := byte = 0x65 || byte = 0x45

/-- A mark, a sign that may be missing, and at least one digit. -/
structure Exponent.WellFormed (exponent : Exponent) : Prop where
  marker : isMarker exponent.marker = true
  sign : exponent.sign ∈ signs
  digits : ∀ byte ∈ exponent.digits, isDigit byte = true
  nonempty : exponent.digits ≠ []

/-- A sign, digits, a point with digits behind it, and an exponent, each of which may be missing. -/
structure Parts.WellFormed (parts : Parts) : Prop where
  sign : parts.sign ∈ signs
  whole : ∀ byte ∈ parts.whole, isDigit byte = true
  point : parts.point = [0x2E] ∨ parts.point = [] ∧ parts.fraction = []
  fraction : ∀ byte ∈ parts.fraction, isDigit byte = true
  exponent : ∀ exponent ∈ parts.exponent, exponent.WellFormed

/-- The bytes are those of a numeral, which may have no digits. -/
def IsDecimal (bytes : Bytes) : Prop := ∃ parts : Parts, parts.WellFormed ∧ parts.bytes = bytes

/-- There is a digit before any mark of an exponent. -/
def HasDigit (bytes : Bytes) : Prop := ∃ byte ∈ bytes.takeWhile (!isMarker ·), isDigit byte = true

instance : DecidablePred HasDigit := fun bytes =>
  inferInstanceAs (Decidable (∃ byte ∈ bytes.takeWhile (!isMarker ·), isDigit byte = true))

def ending (exponent : Option Exponent) : Bytes := (exponent.map Exponent.bytes).getD []

namespace Parts

def fractional (parts : Parts) (behind : Bytes) : Bytes := parts.point ++ (parts.fraction ++ behind)

def mantissa (parts : Parts) (behind : Bytes) : Bytes :=
  parts.sign ++ (parts.whole ++ parts.fractional behind)

theorem bytes_eq (parts : Parts) : parts.bytes = parts.mantissa (ending parts.exponent) := by
  simp only [bytes, mantissa, fractional, ending, List.append_assoc]

end Parts

theorem spec_of_isDigit : ∀ byte : UInt8, isDigit byte = true →
    byte < 128 ∧ isMarker byte = false ∧ byte ≠ 0x2B ∧ byte ≠ 0x2D :=
  forall_byte (by decide +kernel)

theorem spec_of_isMarker : ∀ byte : UInt8, isMarker byte = true →
    byte < 128 ∧ isDigit byte = false ∧ byte ≠ 0x2E ∧ byte ≠ 0x2B ∧ byte ≠ 0x2D :=
  forall_byte (by decide +kernel)

theorem spec_of_mem_signs : ∀ sign ∈ signs, ∀ byte ∈ sign,
    byte < 128 ∧ isDigit byte = false ∧ isMarker byte = false := by
  decide +kernel

-- ---------------------------------------------------------------------------
-- Where the parts end
-- ---------------------------------------------------------------------------

theorem drop_behind {start : Nat} (h : run ++ rest = bytes.drop start) :
    bytes.drop (start + run.length) = rest := by
  rw [← List.drop_drop, ← h, List.drop_left]

theorem signEnd_eq (bytes : Bytes) (start : Nat) :
    signEnd bytes start = start + (takeSign (bytes.drop start)).1.length := by
  rw [signEnd, ← List.head?_drop]
  cases bytes.drop start with
  | nil => rfl
  | cons byte rest =>
    rw [takeSign_cons]
    by_cases h : byte = 0x2B ∨ byte = 0x2D <;> simp [h]

theorem drop_signEnd (bytes : Bytes) (start : Nat) :
    bytes.drop (signEnd bytes start) = (takeSign (bytes.drop start)).2 := by
  rw [signEnd_eq, drop_behind (takeSign_spec _).1]

theorem drop_digitsEnd (bytes : Bytes) (start : Nat) :
    bytes.drop (digitsEnd bytes start) = (bytes.drop start).dropWhile isDigit :=
  drop_behind List.takeWhile_append_dropWhile

theorem takeFraction_cons (byte : UInt8) (rest : Bytes) : takeFraction (byte :: rest) =
    if byte = 0x2E then ([byte], rest.takeWhile isDigit, rest.dropWhile isDigit)
    else ([], [], byte :: rest) := rfl

theorem takeFraction_of_head (h : ∀ byte ∈ bytes.head?, byte ≠ 0x2E) :
    takeFraction bytes = ([], [], bytes) := by
  cases bytes with
  | nil => rfl
  | cons byte rest => rw [takeFraction_cons, if_neg (h byte rfl)]

theorem takeFraction_spec (bytes : Bytes) :
    ((takeFraction bytes).1 ++ (takeFraction bytes).2.1) ++ (takeFraction bytes).2.2 = bytes := by
  cases bytes with
  | nil => rfl
  | cons byte rest =>
    rw [takeFraction_cons]
    split
    · exact congrArg (byte :: ·) List.takeWhile_append_dropWhile
    · rfl

theorem fractionEnd_eq (bytes : Bytes) (start : Nat) : fractionEnd bytes start =
    start + ((takeFraction (bytes.drop start)).1 ++ (takeFraction (bytes.drop start)).2.1).length := by
  rw [fractionEnd, ← List.head?_drop, digitsEnd, ← List.drop_drop]
  cases bytes.drop start with
  | nil => rfl
  | cons byte rest =>
    rw [takeFraction_cons, List.drop_one, List.tail_cons]
    by_cases h : byte = 0x2E
    · rw [if_pos (by rw [h]; rfl), if_pos h]
      simp only [List.singleton_append, List.length_cons]
      omega
    · rw [if_neg (by simpa using h), if_neg h]
      rfl

theorem drop_fractionEnd (bytes : Bytes) (start : Nat) :
    bytes.drop (fractionEnd bytes start) = (takeFraction (bytes.drop start)).2.2 := by
  rw [fractionEnd_eq, drop_behind (takeFraction_spec _)]

theorem takeExponent_cons (marker : UInt8) (rest : Bytes) : takeExponent (marker :: rest) =
    if isMarker marker = true ∧ (takeSign rest).2.takeWhile isDigit ≠ [] then
      some ⟨marker, (takeSign rest).1, (takeSign rest).2.takeWhile isDigit⟩
    else none := by
  simp only [takeExponent, isMarker]
  generalize (takeSign rest).2.takeWhile isDigit = digits
  cases digits <;> simp

theorem exponentEnd_eq (bytes : Bytes) (start : Nat) :
    exponentEnd bytes start = start + (ending (takeExponent (bytes.drop start))).length := by
  rw [exponentEnd, ← List.head?_drop]
  simp only [digitsEnd, drop_signEnd]
  rw [signEnd_eq, ← List.drop_drop]
  cases bytes.drop start with
  | nil => rfl
  | cons marker rest =>
    rw [takeExponent_cons, List.drop_one, List.tail_cons]
    generalize (takeSign rest).2.takeWhile isDigit = digits
    have hmark : (some marker = some 0x65 || some marker = some 0x45) = isMarker marker := by simp [isMarker]
    rw [List.head?_cons, hmark]
    cases hmarker : isMarker marker with
    | false => rfl
    | true =>
      cases digits with
      | nil => simp [ending]
      | cons digit digits =>
        have hlonger (n : Nat) : n < n + (digit :: digits).length := Nat.lt_add_of_pos_right (Nat.succ_pos _)
        rw [if_pos rfl, if_pos (hlonger _), if_pos ⟨rfl, List.cons_ne_nil _ _⟩]
        simp only [ending, Exponent.bytes, Option.map_some, Option.getD_some, List.length_cons,
          List.length_append]
        omega

-- ---------------------------------------------------------------------------
-- The parts that are taken
-- ---------------------------------------------------------------------------

def afterSign (bytes : Bytes) : Bytes := (takeSign bytes).2

def afterWhole (bytes : Bytes) : Bytes := (afterSign bytes).dropWhile isDigit

def afterFraction (bytes : Bytes) : Bytes := (takeFraction (afterWhole bytes)).2.2

theorem takeDecimal_eq (bytes : Bytes) : takeDecimal bytes =
    { sign := (takeSign bytes).1
      whole := (afterSign bytes).takeWhile isDigit
      point := (takeFraction (afterWhole bytes)).1
      fraction := (takeFraction (afterWhole bytes)).2.1
      exponent := takeExponent (afterFraction bytes) } := rfl

theorem decimalEnd_eq (bytes : Bytes) : decimalEnd bytes = (takeDecimal bytes).bytes.length := by
  rw [decimalEnd, exponentEnd_eq, drop_fractionEnd, fractionEnd_eq, drop_digitsEnd, drop_signEnd, digitsEnd,
    drop_signEnd, signEnd_eq, List.drop_zero, Nat.zero_add, Parts.bytes_eq, Parts.mantissa, Parts.fractional,
    takeDecimal_eq]
  simp only [List.length_append, Nat.add_assoc]
  rfl

theorem append_prefix_bytes (h : run ++ rest = bytes) (hfront : front <+: rest) : run ++ front <+: bytes :=
  h ▸ (List.prefix_append_right_inj run).mpr hfront

theorem ending_prefix_bytes (bytes : Bytes) : ending (takeExponent bytes) <+: bytes := by
  cases bytes with
  | nil => exact List.nil_prefix
  | cons marker rest =>
    rw [takeExponent_cons]
    split
    case isTrue =>
      refine (List.prefix_cons_inj marker).mpr ?_
      exact append_prefix_bytes (takeSign_spec rest).1 (List.takeWhile_prefix isDigit)
    case isFalse => exact List.nil_prefix

theorem takeDecimal_prefix_bytes (bytes : Bytes) : (takeDecimal bytes).bytes <+: bytes := by
  rw [Parts.bytes_eq, Parts.mantissa, Parts.fractional, ← List.append_assoc (takeDecimal bytes).point]
  refine append_prefix_bytes (takeSign_spec bytes).1 ?_
  refine append_prefix_bytes List.takeWhile_append_dropWhile ?_
  exact append_prefix_bytes (takeFraction_spec (afterWhole bytes)) (ending_prefix_bytes _)

theorem take_decimalEnd (bytes : Bytes) : bytes.take (decimalEnd bytes) = (takeDecimal bytes).bytes := by
  rw [decimalEnd_eq, ← List.prefix_iff_eq_take.mp (takeDecimal_prefix_bytes bytes)]

theorem wellFormed_takeExponent (bytes : Bytes) : ∀ exponent ∈ takeExponent bytes, exponent.WellFormed := by
  intro exponent hexponent
  cases bytes with
  | nil => cases hexponent
  | cons marker rest =>
    rw [takeExponent_cons] at hexponent
    split at hexponent
    case isFalse => cases hexponent
    case isTrue h =>
      obtain rfl := Option.some.inj hexponent
      exact ⟨h.1, (takeSign_spec rest).2.1, fun _ => List.mem_takeWhile_imp, h.2⟩

theorem wellFormed_takeFraction (bytes : Bytes) :
    ((takeFraction bytes).1 = [0x2E] ∨ (takeFraction bytes).1 = [] ∧ (takeFraction bytes).2.1 = []) ∧
      ∀ byte ∈ (takeFraction bytes).2.1, isDigit byte = true := by
  cases bytes with
  | nil => exact ⟨.inr ⟨rfl, rfl⟩, nofun⟩
  | cons byte rest =>
    rw [takeFraction_cons]
    split
    case isTrue h => exact ⟨.inl (congrArg ([·]) h), fun _ => List.mem_takeWhile_imp⟩
    case isFalse => exact ⟨.inr ⟨rfl, rfl⟩, nofun⟩

theorem wellFormed_takeDecimal (bytes : Bytes) : (takeDecimal bytes).WellFormed where
  sign := (takeSign_spec bytes).2.1
  whole _ := List.mem_takeWhile_imp
  point := (wellFormed_takeFraction _).1
  fraction := (wellFormed_takeFraction _).2
  exponent := wellFormed_takeExponent _

-- ---------------------------------------------------------------------------
-- No numeral is longer
-- ---------------------------------------------------------------------------

/-- A run is not longer than the one that is taken, and if it is shorter nothing follows it. -/
theorem run_prefix_taken (hrun : ∀ byte ∈ run, p byte = true) (hrest : ∀ byte ∈ rest.head?, p byte = false)
    (h : run ++ rest <+: bytes) (htaken : rest <+: bytes.dropWhile p → rest <+: behind) :
    run ++ rest <+: bytes.takeWhile p ++ behind := by
  obtain ⟨more, rfl⟩ := h
  cases rest with
  | nil =>
    rw [List.append_nil, List.takeWhile_append_of_pos hrun, List.append_assoc]
    exact List.prefix_append _ _
  | cons byte rest =>
    have hend : ∀ other ∈ (byte :: rest ++ more).head?, p other = false := hrest
    rw [List.append_assoc] at htaken ⊢
    rw [dropWhile_run hrun hend] at htaken
    rw [takeWhile_run hrun hend]
    exact (List.prefix_append_right_inj run).mpr (htaken (List.prefix_append _ _))

theorem sign_prefix_taken (hsign : sign ∈ signs) (hrest : Unsigned rest) (h : sign ++ rest <+: bytes) :
    sign ++ rest = [] ∨ sign = (takeSign bytes).1 ∧ rest <+: (takeSign bytes).2 := by
  obtain ⟨more, rfl⟩ := h
  by_cases hempty : sign ++ rest = []
  · exact .inl hempty
  · have hunsigned : sign = [] → Unsigned (rest ++ more) := by
      rintro rfl
      rw [List.nil_append] at hempty
      rw [Unsigned, List.head?_append_of_ne_nil _ hempty]
      exact hrest
    rw [List.append_assoc, takeSign_sign hsign hunsigned]
    exact .inr ⟨rfl, List.prefix_append _ _⟩

theorem Exponent.WellFormed.takeExponent_append (h : exponent.WellFormed) (rest : Bytes) :
    takeExponent (exponent.bytes ++ rest) =
      some { exponent with digits := exponent.digits ++ rest.takeWhile isDigit } := by
  obtain ⟨marker, sign, digits⟩ := exponent
  obtain ⟨digit, digits, rfl⟩ := List.exists_cons_of_ne_nil h.nonempty
  have hunsigned : Unsigned (digit :: digits ++ rest) := by
    rintro _ ⟨⟩
    exact (spec_of_isDigit digit (h.digits digit List.mem_cons_self)).2.2
  show takeExponent (marker :: (sign ++ (digit :: digits) ++ rest)) = _
  rw [takeExponent_cons, List.append_assoc, takeSign_sign h.sign fun _ => hunsigned,
    List.takeWhile_append_of_pos h.digits, if_pos ⟨h.marker, List.cons_ne_nil _ _⟩]

theorem Exponent.WellFormed.bytes_prefix_taken (h : exponent.WellFormed) (hfront : exponent.bytes <+: bytes) :
    exponent.bytes <+: ending (takeExponent bytes) := by
  obtain ⟨rest, rfl⟩ := hfront
  rw [h.takeExponent_append rest]
  refine (List.prefix_cons_inj exponent.marker).mpr ?_
  exact (List.prefix_append_right_inj exponent.sign).mpr (List.prefix_append _ _)

namespace Parts.WellFormed

theorem ending_head (h : parts.WellFormed) : ∀ byte ∈ (ending parts.exponent).head?, isMarker byte = true := by
  intro byte hbyte
  cases hexponent : parts.exponent with
  | none => simp [ending, hexponent] at hbyte
  | some exponent =>
    obtain rfl : exponent.marker = byte := by simpa [ending, hexponent, Exponent.bytes] using hbyte
    exact (h.exponent exponent hexponent).marker

theorem fractional_head (h : parts.WellFormed) (hbehind : ∀ byte ∈ behind.head?, isMarker byte = true) :
    ∀ byte ∈ (parts.fractional behind).head?, isDigit byte = false ∧ byte ≠ 0x2B ∧ byte ≠ 0x2D := by
  intro byte hbyte
  rw [fractional] at hbyte
  rcases h.point with hpoint | ⟨hpoint, hfraction⟩
  · rw [hpoint] at hbyte
    obtain rfl := Option.some.inj hbyte
    decide
  · rw [hpoint, hfraction] at hbyte
    obtain ⟨-, hdigit, -, hsign⟩ := spec_of_isMarker byte (hbehind byte hbyte)
    exact ⟨hdigit, hsign⟩

theorem unsigned (h : parts.WellFormed) (hbehind : ∀ byte ∈ behind.head?, isMarker byte = true) :
    Unsigned (parts.whole ++ parts.fractional behind) := by
  intro byte hbyte
  cases hwhole : parts.whole with
  | nil =>
    rw [hwhole] at hbyte
    exact (h.fractional_head hbehind byte hbyte).2
  | cons digit digits =>
    rw [hwhole] at hbyte
    obtain rfl := Option.some.inj hbyte
    exact (spec_of_isDigit digit (h.whole digit (hwhole ▸ List.mem_cons_self))).2.2

theorem ending_prefix_taken (h : parts.WellFormed) (hfront : ending parts.exponent <+: bytes) :
    ending parts.exponent <+: ending (takeExponent bytes) := by
  cases hexponent : parts.exponent with
  | none => exact List.nil_prefix
  | some exponent =>
    rw [hexponent] at hfront
    exact (h.exponent exponent hexponent).bytes_prefix_taken hfront

theorem fractional_prefix_taken (h : parts.WellFormed)
    (hfront : parts.fractional (ending parts.exponent) <+: bytes) :
    parts.fractional (ending parts.exponent) <+: (takeFraction bytes).1 ++ ((takeFraction bytes).2.1 ++
      ending (takeExponent (takeFraction bytes).2.2)) := by
  rw [fractional] at hfront ⊢
  rcases h.point with hpoint | ⟨hpoint, hfraction⟩
  · rw [hpoint] at hfront ⊢
    obtain ⟨more, rfl⟩ := hfront
    have hend : ∀ byte ∈ (ending parts.exponent).head?, isDigit byte = false := fun byte hbyte =>
      (spec_of_isMarker byte (h.ending_head byte hbyte)).2.1
    rw [List.append_assoc, List.singleton_append, List.singleton_append, takeFraction_cons, if_pos rfl]
    refine (List.prefix_cons_inj _).mpr ?_
    exact run_prefix_taken h.fraction hend (List.prefix_append _ _) h.ending_prefix_taken
  · rw [hpoint, hfraction, List.nil_append, List.nil_append] at hfront ⊢
    by_cases hempty : ending parts.exponent = []
    · rw [hempty]
      exact List.nil_prefix
    · have hhead : ∀ byte ∈ bytes.head?, byte ≠ 0x2E := by
        obtain ⟨more, rfl⟩ := hfront
        rw [List.head?_append_of_ne_nil _ hempty]
        exact fun byte hbyte => (spec_of_isMarker byte (h.ending_head byte hbyte)).2.2.1
      rw [takeFraction_of_head hhead]
      exact h.ending_prefix_taken hfront

/-- A numeral that the bytes start with is not longer than the one that is taken. -/
theorem bytes_prefix_taken (h : parts.WellFormed) (hfront : parts.bytes <+: bytes) :
    parts.bytes <+: (takeDecimal bytes).bytes := by
  rw [bytes_eq] at hfront ⊢
  rcases sign_prefix_taken h.sign (h.unsigned h.ending_head) hfront with hempty | ⟨hsign, hrest⟩
  · rw [mantissa, hempty]
    exact List.nil_prefix
  · rw [bytes_eq, mantissa, hsign]
    refine (List.prefix_append_right_inj _).mpr ?_
    have hend := fun byte hbyte => (h.fractional_head h.ending_head byte hbyte).1
    exact run_prefix_taken h.whole hend hrest h.fractional_prefix_taken

end Parts.WellFormed

-- ---------------------------------------------------------------------------
-- What a numeral is read as
-- ---------------------------------------------------------------------------

namespace Parts.WellFormed

theorem takeDecimal_mantissa (h : parts.WellFormed) (hbehind : ∀ byte ∈ behind.head?, isMarker byte = true) :
    takeDecimal (parts.mantissa behind) = { parts with exponent := takeExponent behind } := by
  have hsign : takeSign (parts.mantissa behind) = (parts.sign, parts.whole ++ parts.fractional behind) :=
    takeSign_sign h.sign fun _ => h.unsigned hbehind
  have hend := fun byte hbyte => (h.fractional_head hbehind byte hbyte).1
  have hwhole : afterWhole (parts.mantissa behind) = parts.fractional behind := by
    rw [afterWhole, afterSign, hsign, dropWhile_run h.whole hend]
  have hfraction : takeFraction (parts.fractional behind) = (parts.point, parts.fraction, behind) := by
    rw [fractional]
    rcases h.point with hpoint | ⟨hpoint, hempty⟩
    · have hdigits : ∀ byte ∈ behind.head?, isDigit byte = false := fun byte hbyte =>
        (spec_of_isMarker byte (hbehind byte hbyte)).2.1
      rw [hpoint, List.singleton_append, takeFraction_cons, if_pos rfl, takeWhile_run h.fraction hdigits,
        dropWhile_run h.fraction hdigits]
    · rw [hpoint, hempty]
      exact takeFraction_of_head fun byte hbyte => (spec_of_isMarker byte (hbehind byte hbyte)).2.2.1
  rw [takeDecimal_eq, afterFraction, hwhole, hfraction, afterSign, hsign, takeWhile_run h.whole hend]

/-- A numeral has one reading only. -/
theorem takeDecimal_bytes (h : parts.WellFormed) : takeDecimal parts.bytes = parts := by
  have hexponent : takeExponent (ending parts.exponent) = parts.exponent := by
    cases hexponent : parts.exponent with
    | none => rfl
    | some exponent =>
      have hwhole := (h.exponent exponent hexponent).takeExponent_append []
      rwa [List.append_nil, List.takeWhile_nil, List.append_nil] at hwhole
  rw [bytes_eq, h.takeDecimal_mantissa h.ending_head, hexponent]

theorem spec_of_mem_point (h : parts.WellFormed) :
    ∀ byte ∈ parts.point, byte < 128 ∧ isDigit byte = false ∧ isMarker byte = false := by
  rcases h.point with hpoint | ⟨hpoint, -⟩ <;> rw [hpoint] <;> decide +kernel

theorem lt_of_mem_bytes (h : parts.WellFormed) : ∀ byte ∈ parts.bytes, byte < 128 := by
  have hdigits {digits : Bytes} (hrun : ∀ byte ∈ digits, isDigit byte = true) : ∀ byte ∈ digits, byte < 128 :=
    fun byte hbyte => (spec_of_isDigit byte (hrun byte hbyte)).1
  have hsign {sign : Bytes} (h : sign ∈ signs) : ∀ byte ∈ sign, byte < 128 := fun byte hbyte =>
    (spec_of_mem_signs sign h byte hbyte).1
  have hending : ∀ byte ∈ ending parts.exponent, byte < 128 := by
    cases hexponent : parts.exponent with
    | none => exact nofun
    | some exponent =>
      have hformed := h.exponent exponent hexponent
      refine List.forall_mem_cons.mpr ⟨(spec_of_isMarker _ hformed.marker).1, ?_⟩
      exact List.forall_mem_append.mpr ⟨hsign hformed.sign, hdigits hformed.digits⟩
  simp only [bytes_eq, mantissa, fractional, List.forall_mem_append]
  exact ⟨hsign h.sign, hdigits h.whole, fun byte hbyte => (h.spec_of_mem_point byte hbyte).1,
    hdigits h.fraction, hending⟩

theorem takeWhile_bytes (h : parts.WellFormed) :
    parts.bytes.takeWhile (!isMarker ·) = parts.mantissa [] := by
  have hrun : ∀ byte ∈ parts.mantissa [], (!isMarker byte) = true := by
    simp only [mantissa, fractional, List.append_nil, List.forall_mem_append, Bool.not_eq_true']
    exact ⟨fun byte hbyte => (spec_of_mem_signs _ h.sign byte hbyte).2.2,
      fun byte hbyte => (spec_of_isDigit byte (h.whole byte hbyte)).2.1,
      fun byte hbyte => (h.spec_of_mem_point byte hbyte).2.2,
      fun byte hbyte => (spec_of_isDigit byte (h.fraction byte hbyte)).2.1⟩
  have hend : ∀ byte ∈ (ending parts.exponent).head?, (!isMarker byte) = false := fun byte hbyte => by
    rw [h.ending_head byte hbyte]
    rfl
  have hbytes : parts.bytes = parts.mantissa [] ++ ending parts.exponent := by
    simp only [bytes_eq, mantissa, fractional, List.append_assoc, List.nil_append]
  rw [hbytes, takeWhile_run hrun hend]

theorem hasDigit_iff (h : parts.WellFormed) : HasDigit parts.bytes ↔ parts.whole ++ parts.fraction ≠ [] := by
  rw [HasDigit, h.takeWhile_bytes]
  constructor
  · rintro ⟨byte, hbyte, hdigit⟩ hempty
    obtain ⟨hwhole, hfraction⟩ := List.append_eq_nil_iff.mp hempty
    rw [mantissa, fractional, hwhole, hfraction, List.nil_append, List.append_nil, List.append_nil,
      List.mem_append] at hbyte
    rcases hbyte with hsign | hbyte
    · rw [(spec_of_mem_signs _ h.sign byte hsign).2.1] at hdigit
      cases hdigit
    · rw [(h.spec_of_mem_point byte hbyte).2.1] at hdigit
      cases hdigit
  · intro hnonempty
    obtain ⟨byte, hbyte⟩ := List.exists_mem_of_ne_nil _ hnonempty
    rcases List.mem_append.mp hbyte with hwhole | hfraction
    · exact ⟨byte, by simp [mantissa, hwhole], h.whole byte hwhole⟩
    · exact ⟨byte, by simp [mantissa, fractional, hfraction], h.fraction byte hfraction⟩

end Parts.WellFormed

theorem isDecimal_takeDecimal (bytes : Bytes) : IsDecimal (takeDecimal bytes).bytes :=
  ⟨_, wellFormed_takeDecimal bytes, rfl⟩

/-- The reader of decimal numerals reads those that have a digit before any exponent. -/
theorem isSome_readDecimal? {text : String} (h : IsDecimal (Bytes.ofText text)) :
    (readDecimal? text).isSome ↔ HasDigit (Bytes.ofText text) := by
  obtain ⟨parts, hparts, hbytes⟩ := h
  rw [readDecimal?, ← hbytes, hparts.takeDecimal_bytes, hparts.hasDigit_iff]
  simp

theorem leadingBy_eq (read : String → Option Binary64) (bytes : Bytes) : ∃ text,
    Bytes.ofText text = (takeDecimal (bytes.dropWhile isBlank)).bytes ∧
    leadingBy read bytes = (read text).getD .zero := by
  have hplain := (wellFormed_takeDecimal (bytes.dropWhile isBlank)).lt_of_mem_bytes
  refine ⟨_, Bytes.ofText_toText hplain, ?_⟩
  rw [leadingBy, take_decimalEnd]
  conv_lhs => rw [← Bytes.ofText_toText hplain]
  rw [Bytes.fromUTF8?_ofText]
  rfl

theorem leadingFloat_eq (bytes : Bytes) :
    leadingFloat bytes = (takeDecimal (bytes.dropWhile isBlank)).toFloat := by
  obtain ⟨text, htext, heq⟩ := leadingBy_eq readDecimal? bytes
  rw [leadingFloat, heq, readDecimal?, htext, (wellFormed_takeDecimal _).takeDecimal_bytes]
  generalize takeDecimal (bytes.dropWhile isBlank) = parts
  cases hdigits : (parts.whole ++ parts.fraction).isEmpty with
  | false => simp
  | true =>
    rw [Parts.toFloat, if_pos hdigits]
    simp

theorem takeExponent_eq_none {marker : UInt8} (hsign : sign ∈ signs) (hunsigned : sign = [] → Unsigned behind)
    (hbehind : ∀ byte ∈ behind.head?, isDigit byte = false) :
    takeExponent (marker :: (sign ++ behind)) = none := by
  have hdigits : behind.takeWhile isDigit = [] := by
    rw [← List.nil_append behind]
    exact takeWhile_run nofun hbehind
  rw [takeExponent_cons, takeSign_sign hsign hunsigned, hdigits, if_neg fun h => h.2 rfl]

theorem Parts.WellFormed.takeDecimal_append (h : parts.WellFormed) (hnone : parts.exponent = none)
    (hbehind : ∀ byte ∈ behind.head?, isMarker byte = true) (hexponent : takeExponent behind = none) :
    takeDecimal (parts.bytes ++ behind) = parts := by
  have hbytes : parts.bytes ++ behind = parts.mantissa behind := by
    simp [bytes_eq, mantissa, fractional, ending, hnone]
  rw [hbytes, h.takeDecimal_mantissa hbehind, hexponent, ← hnone]

/-- Behind the blanks the scan ends within the bytes. What is before its end is ASCII and a numeral, and no
longer part that the bytes start with is one; a mark of an exponent without digits is not among it. If a
reader of texts reads just those numerals that have a digit before any exponent, what it reads is the result,
and without such a digit the result is zero. The reader of decimal numerals is one of these. -/
theorem leadingBy_longest (bytes : Bytes) :
    let rest := bytes.dropWhile isBlank
    let front := rest.take (decimalEnd rest)
    decimalEnd rest ≤ rest.length ∧ (∀ byte ∈ front, byte < 128) ∧ IsDecimal front ∧
    (∀ other, other <+: rest → IsDecimal other → other.length ≤ decimalEnd rest) ∧
    (∀ (parts : Parts) (marker : UInt8) (sign behind : Bytes), parts.WellFormed → parts.exponent = none →
      isMarker marker = true → sign ∈ signs → (sign = [] → Unsigned behind) →
      (∀ byte ∈ behind.head?, isDigit byte = false) →
      rest = parts.bytes ++ marker :: (sign ++ behind) → front = parts.bytes) ∧
    (∀ read : String → Option Binary64, (∀ text, IsDecimal (Bytes.ofText text) →
        ((read text).isSome ↔ HasDigit (Bytes.ofText text))) →
      ∃ text, Bytes.ofText text = front ∧
        (HasDigit front → read text = some (leadingBy read bytes)) ∧
        (¬ HasDigit front → leadingBy read bytes = .zero)) ∧
    (∀ text, IsDecimal (Bytes.ofText text) →
      ((readDecimal? text).isSome ↔ HasDigit (Bytes.ofText text))) ∧
    leadingFloat bytes = leadingBy readDecimal? bytes := by
  intro rest front
  have hfront : front = (takeDecimal rest).bytes := take_decimalEnd rest
  have hdecimal : IsDecimal front := hfront ▸ isDecimal_takeDecimal rest
  refine ⟨?_, ?_, hdecimal, ?_, ?_, ?_, fun _ => isSome_readDecimal?, rfl⟩
  · rw [decimalEnd_eq]
    exact (takeDecimal_prefix_bytes rest).length_le
  · rw [hfront]
    exact (wellFormed_takeDecimal rest).lt_of_mem_bytes
  · rintro _ hother ⟨parts, hparts, rfl⟩
    rw [decimalEnd_eq]
    exact (hparts.bytes_prefix_taken hother).length_le
  · intro parts marker sign behind hparts hnone hmarker hsign hunsigned hbehind hrest
    have hhead : ∀ byte ∈ (marker :: (sign ++ behind)).head?, isMarker byte = true := by
      rintro _ ⟨⟩
      exact hmarker
    rw [hfront, hrest, hparts.takeDecimal_append hnone hhead (takeExponent_eq_none hsign hunsigned hbehind)]
  · intro read hread
    obtain ⟨text, htext, heq⟩ := leadingBy_eq read bytes
    replace htext : Bytes.ofText text = front := htext.trans hfront.symm
    have hsome := hread text (htext ▸ hdecimal)
    rw [htext] at hsome
    refine ⟨text, htext, fun hdigit => ?_, fun hdigit => ?_⟩
    · obtain ⟨value, hvalue⟩ := Option.isSome_iff_exists.mp (hsome.mpr hdigit)
      rw [heq, hvalue, Option.getD_some]
    · rw [heq, Option.not_isSome_iff_eq_none.mp (mt hsome.mp hdigit), Option.getD_none]

/-- A numeral before a mark of an exponent with a sign and no digit, and one that has its only digit in the
exponent. -/
theorem leadingBy_longest_dangling :
    leadingFloat (Bytes.ofText " -1.5e+x") = ⟨0xBFF8000000000000⟩ ∧
      (Bytes.ofText "-1.").length ≤ decimalEnd (Bytes.ofText "-1.5e+x") ∧
      leadingFloat (Bytes.ofText ".e5") = .zero := by
  have hblank : (Bytes.ofText " -1.5e+x").dropWhile isBlank = Bytes.ofText "-1.5e+x" := by decide +kernel
  obtain ⟨-, -, -, hlongest, hdangling, hread, hreader, hfloat⟩ := leadingBy_longest (Bytes.ofText " -1.5e+x")
  obtain ⟨-, -, -, -, -, hother, -, hzero⟩ := leadingBy_longest (Bytes.ofText ".e5")
  rw [hblank] at hlongest hdangling hread
  have hfront : (Bytes.ofText "-1.5e+x").take (decimalEnd (Bytes.ofText "-1.5e+x")) = Bytes.ofText "-1.5" :=
    hdangling ⟨[0x2D], [0x31], [0x2E], [0x35], none⟩ 0x65 [0x2B] [0x78]
      ⟨by decide +kernel, by decide +kernel, .inl rfl, by decide +kernel, nofun⟩ rfl rfl (by decide +kernel)
      nofun (by decide +kernel) (by decide +kernel)
  refine ⟨?_, ?_, ?_⟩
  · obtain ⟨text, htext, hdigit, -⟩ := hread readDecimal? hreader
    rw [hfront] at htext hdigit
    obtain rfl := Bytes.ofText_inj.mp htext
    have hvalue := hdigit (by decide +kernel)
    rw [← hfloat] at hvalue
    exact Option.some.inj (hvalue.symm.trans (by decide +kernel))
  · refine hlongest _ (by decide +kernel) ⟨⟨[0x2D], [0x31], [0x2E], [], none⟩, ?_, by decide +kernel⟩
    exact ⟨by decide +kernel, by decide +kernel, .inl rfl, nofun, nofun⟩
  · obtain ⟨text, -, -, hdigit⟩ := hother readDecimal? hreader
    rw [hzero, hdigit (by decide +kernel)]

end ObjectModel.Numeral
