import ObjectModel.Proofs.Text.Numerals
import ObjectModel.Proofs.Text.Splits

/-!
# Runs between separators

The parts that bytes are split into are the runs of bytes between separators, all of them and in order, less
the empty ones. So nothing but separators is lost. A byte below 128 is a character of its own, and where the
separators are such bytes, no part has less than whole characters: what a text is split into are texts
(`split_lossless`).
-/

namespace ObjectModel

open ObjectModel.Action Behavior

namespace Bytes

-- ---------------------------------------------------------------------------
-- Runs of bytes and their places
-- ---------------------------------------------------------------------------

/-- A part of a byte string in its place: what is before it, and what is behind it. -/
structure Cut where
  before : Bytes
  part : Bytes
  behind : Bytes

namespace Cut

def shift (byte : UInt8) (cut : Cut) : Cut := { cut with before := byte :: cut.before }

/-- The part has no separator, and could not be longer: on each side of it is a separator or an end of the
bytes. -/
structure Between (separators bytes : Bytes) (cut : Cut) : Prop where
  whole : cut.before ++ (cut.part ++ cut.behind) = bytes
  inside : ∀ byte ∈ cut.part, byte ∉ separators
  starts : ∀ byte ∈ cut.before.getLast?, byte ∈ separators
  ends : ∀ byte ∈ cut.behind.head?, byte ∈ separators

/-- A maximal run that is not empty. -/
structure IsRun (separators bytes : Bytes) (cut : Cut) : Prop where
  between : cut.Between separators bytes
  nonempty : cut.part ≠ []

end Cut

variable {separators bytes rest run part : Bytes} {byte : UInt8} {cut : Cut}

def first (separators bytes : Bytes) : Cut where
  before := []
  part := bytes.takeWhile (· ∉ separators)
  behind := bytes.dropWhile (· ∉ separators)

def later (separators : Bytes) : Bytes → List Cut
  | [] => []
  | byte :: rest =>
    let runs := if byte ∈ separators then first separators rest :: later separators rest
      else later separators rest
    runs.map (Cut.shift byte)

def cuts (separators bytes : Bytes) : List Cut := first separators bytes :: later separators bytes

theorem later_cons (separators : Bytes) (byte : UInt8) (rest : Bytes) : later separators (byte :: rest) =
    (if byte ∈ separators then cuts separators rest else later separators rest).map (Cut.shift byte) := rfl

theorem between_start (h : cut.before = []) :
    cut.Between separators bytes ↔ cut = first separators bytes := by
  obtain ⟨before, part, behind⟩ := cut
  obtain rfl : before = [] := h
  constructor
  · rintro ⟨rfl, hinside, -, hends⟩
    have hrun : ∀ byte ∈ part, decide (byte ∉ separators) = true := by simpa using hinside
    have hend : ∀ byte ∈ behind.head?, decide (byte ∉ separators) = false := by simpa using hends
    rw [first, List.nil_append, Numeral.takeWhile_run hrun hend, Numeral.dropWhile_run hrun hend]
  · rintro ⟨⟩
    refine ⟨List.takeWhile_append_dropWhile, fun byte hbyte => ?_, nofun, fun byte hbyte => ?_⟩
    · simpa using List.mem_takeWhile_imp hbyte
    · simpa using Numeral.head?_dropWhile_false _ bytes byte hbyte

theorem between_shift : (cut.shift byte).Between separators (byte :: rest) ↔
    cut.Between separators rest ∧ (cut.before = [] → byte ∈ separators) := by
  obtain ⟨before, part, behind⟩ := cut
  have hwhole : byte :: before ++ (part ++ behind) = byte :: rest ↔ before ++ (part ++ behind) = rest := by
    rw [List.cons_append, List.cons.injEq, and_iff_right rfl]
  have hstarts : (∀ last ∈ (byte :: before).getLast?, last ∈ separators) ↔
      (∀ last ∈ before.getLast?, last ∈ separators) ∧ (before = [] → byte ∈ separators) := by
    cases before <;> simp
  constructor
  · intro h
    obtain ⟨hlast, hfirst⟩ := hstarts.mp h.starts
    exact ⟨⟨hwhole.mp h.whole, h.inside, hlast, h.ends⟩, hfirst⟩
  · rintro ⟨h, hfirst⟩
    exact ⟨hwhole.mpr h.whole, h.inside, hstarts.mpr ⟨h.starts, hfirst⟩, h.ends⟩

theorem exists_shift_of_between (h : cut.Between separators (byte :: rest)) (hbefore : cut.before ≠ []) :
    ∃ inner : Cut, cut = inner.shift byte := by
  obtain ⟨before, part, behind⟩ := cut
  cases before with
  | nil => exact (hbefore rfl).elim
  | cons head before =>
    obtain rfl := (List.cons.inj h.whole).1
    exact ⟨⟨before, part, behind⟩, rfl⟩

theorem before_ne_nil (h : cut ∈ later separators bytes) : cut.before ≠ [] := by
  cases bytes with
  | nil => cases h
  | cons byte rest =>
    rw [later_cons] at h
    obtain ⟨_, -, rfl⟩ := List.mem_map.mp h
    exact List.cons_ne_nil _ _

theorem mem_later : cut ∈ later separators bytes ↔ cut ∈ cuts separators bytes ∧ cut.before ≠ [] := by
  rw [cuts, List.mem_cons]
  constructor
  · exact fun h => ⟨.inr h, before_ne_nil h⟩
  · rintro ⟨rfl | h, hbefore⟩
    · exact (hbefore rfl).elim
    · exact h

theorem mem_cuts_start (h : cut.before = []) :
    cut ∈ cuts separators bytes ↔ cut.Between separators bytes := by
  rw [between_start h, cuts, List.mem_cons, or_iff_left fun hlater => before_ne_nil hlater h]

/-- The runs that are listed are all there are. -/
theorem mem_cuts : cut ∈ cuts separators bytes ↔ cut.Between separators bytes := by
  by_cases hstart : cut.before = []
  · exact mem_cuts_start hstart
  induction bytes generalizing cut with
  | nil =>
    refine ⟨fun h => (nomatch mem_later.mpr ⟨h, hstart⟩), fun h => (hstart ?_).elim⟩
    exact (List.append_eq_nil_iff.mp h.whole).1
  | cons byte rest ih =>
    have hrest {inner : Cut} : inner ∈ cuts separators rest ↔ inner.Between separators rest := by
      by_cases hinner : inner.before = []
      · exact mem_cuts_start hinner
      · exact ih hinner
    constructor
    · intro h
      replace h := mem_later.mpr ⟨h, hstart⟩
      rw [later_cons] at h
      obtain ⟨inner, hinner, rfl⟩ := List.mem_map.mp h
      refine between_shift.mpr ?_
      split at hinner
      case isTrue hbyte => exact ⟨hrest.mp hinner, fun _ => hbyte⟩
      case isFalse =>
        obtain ⟨hmem, hbefore⟩ := mem_later.mp hinner
        exact ⟨hrest.mp hmem, fun h => (hbefore h).elim⟩
    · intro h
      obtain ⟨inner, rfl⟩ := exists_shift_of_between h hstart
      obtain ⟨hbetween, hfirst⟩ := between_shift.mp h
      refine (mem_later.mp ?_).1
      rw [later_cons]
      refine List.mem_map_of_mem ?_
      split
      case isTrue => exact hrest.mpr hbetween
      case isFalse hbyte => exact mem_later.mpr ⟨hrest.mpr hbetween, fun h => hbyte (hfirst h)⟩

theorem pairwise_cuts (separators bytes : Bytes) :
    (cuts separators bytes).Pairwise fun cut next => cut.before.length < next.before.length := by
  have hfirst {bytes : Bytes} (h : (later separators bytes).Pairwise fun cut next =>
      cut.before.length < next.before.length) :
      (cuts separators bytes).Pairwise fun cut next => cut.before.length < next.before.length :=
    List.pairwise_cons.mpr ⟨fun next hnext => List.length_pos_of_ne_nil (before_ne_nil hnext), h⟩
  refine hfirst ?_
  induction bytes with
  | nil => exact .nil
  | cons byte rest ih =>
    rw [later_cons, List.pairwise_map]
    split
    · exact (hfirst ih).imp Nat.succ_lt_succ
    · exact ih.imp Nat.succ_lt_succ

-- ---------------------------------------------------------------------------
-- The parts that bytes are split into
-- ---------------------------------------------------------------------------

theorem pieces_cons (separators : Bytes) (byte : UInt8) (rest : Bytes) : pieces separators (byte :: rest) =
    beforePieces separators byte (pieces separators rest) := rfl

theorem pieces_separator (h : byte ∈ separators) :
    pieces separators (byte :: rest) = [] :: pieces separators rest := by
  simp [pieces_cons, beforePieces, h]

theorem pieces_eq (separators bytes : Bytes) : pieces separators bytes =
    (cuts separators bytes).map Cut.part := by
  have hshift (byte : UInt8) (runs : List Cut) :
      (runs.map (Cut.shift byte)).map Cut.part = runs.map Cut.part := by
    rw [List.map_map]
    rfl
  induction bytes with
  | nil => rfl
  | cons byte rest ih =>
    show _ = (first separators (byte :: rest)).part :: (later separators (byte :: rest)).map Cut.part
    rw [later_cons, hshift]
    by_cases hbyte : byte ∈ separators
    · rw [pieces_separator hbyte, ih, if_pos hbyte, first, List.takeWhile_cons_of_neg (by simpa using hbyte)]
    · simp [pieces_cons, ih, beforePieces, cuts, first, hbyte]

theorem tokens_eq (separators bytes : Bytes) : tokens separators bytes =
    ((cuts separators bytes).filter fun cut => !cut.part.isEmpty).map Cut.part := by
  rw [tokens, pieces_eq, List.filter_map]
  rfl

theorem exists_runs (separators bytes : Bytes) : ∃ runs : List Cut,
    (∀ cut, cut ∈ runs ↔ cut.IsRun separators bytes) ∧
    runs.Pairwise (fun cut next => cut.before.length < next.before.length) ∧
    tokens separators bytes = runs.map Cut.part := by
  refine ⟨_, fun cut => ?_, (pairwise_cuts separators bytes).filter _, tokens_eq separators bytes⟩
  rw [List.mem_filter, mem_cuts, Bool.not_eq_true', List.isEmpty_eq_false_iff]
  exact ⟨fun h => ⟨h.1, h.2⟩, fun h => ⟨h.between, h.nonempty⟩⟩

theorem ne_nil_of_mem_tokens (h : part ∈ tokens separators bytes) :
    part ≠ [] ∧ ∀ byte ∈ part, byte ∉ separators := by
  obtain ⟨runs, hruns, -, heq⟩ := exists_runs separators bytes
  rw [heq, List.mem_map] at h
  obtain ⟨cut, hcut, rfl⟩ := h
  exact ⟨((hruns cut).mp hcut).nonempty, ((hruns cut).mp hcut).between.inside⟩

theorem pieces_append (hrun : ∀ byte ∈ run, byte ∉ separators) : ∃ piece others,
    pieces separators rest = piece :: others ∧ pieces separators (run ++ rest) = (run ++ piece) :: others := by
  induction run with
  | nil => exact ⟨_, _, pieces_eq separators rest, pieces_eq separators rest⟩
  | cons byte run ih =>
    obtain ⟨hbyte, hrun⟩ := List.forall_mem_cons.mp hrun
    obtain ⟨piece, others, hrest, happend⟩ := ih hrun
    refine ⟨piece, others, hrest, ?_⟩
    simp [pieces_cons, happend, beforePieces, hbyte]

theorem flatten_pieces (separators bytes : Bytes) :
    (pieces separators bytes).flatten = bytes.filter (· ∉ separators) := by
  induction bytes with
  | nil => rfl
  | cons byte rest ih =>
    by_cases hbyte : byte ∈ separators
    · rw [pieces_separator hbyte, List.flatten_cons, List.nil_append, ih,
        List.filter_cons_of_neg (by simpa using hbyte)]
    · obtain ⟨piece, others, hrest, hcons⟩ := pieces_append (List.forall_mem_singleton.mpr hbyte)
      rw [List.singleton_append] at hcons
      rw [hcons, List.filter_cons_of_pos (by simpa using hbyte), ← ih, hrest]
      rfl

theorem flatten_tokens (separators bytes : Bytes) :
    (tokens separators bytes).flatten = bytes.filter (· ∉ separators) := by
  rw [tokens, List.flatten_filter_not_isEmpty, flatten_pieces]

-- ---------------------------------------------------------------------------
-- The parts of a text
-- ---------------------------------------------------------------------------

/-- What is between separators below 128 is whole characters. -/
theorem exists_text_of_mem_pieces (hplain : ∀ byte ∈ separators, byte < 128) (text : String) :
    ∀ piece ∈ pieces separators (ofText text), ∃ inner, piece = ofText inner := by
  rw [← String.ofList_toList (s := text), ofText_ofList]
  induction text.toList with
  | nil =>
    intro piece hpiece
    exact ⟨"", List.mem_singleton.mp hpiece⟩
  | cons char chars ih =>
    rw [List.flatMap_cons]
    by_cases hchar : ∀ byte ∈ String.utf8EncodeChar char, byte ∉ separators
    · obtain ⟨piece, others, hrest, happend⟩ := pieces_append hchar
      rw [hrest] at ih
      obtain ⟨⟨inner, hinner⟩, hothers⟩ := List.forall_mem_cons.mp ih
      rw [happend]
      refine List.forall_mem_cons.mpr ⟨⟨String.ofList (char :: inner.toList), ?_⟩, hothers⟩
      rw [ofText_ofList, List.flatMap_cons, ← ofText_ofList, String.ofList_toList, hinner]
    · push Not at hchar
      obtain ⟨byte, hbyte, hseparator⟩ := hchar
      rw [(code_of_mem_encode hbyte (hplain byte hseparator)).2, List.singleton_append, pieces_separator hseparator]
      exact List.forall_mem_cons.mpr ⟨⟨"", rfl⟩, ih⟩

theorem map_ofText_textsBetween {separators : String} (hplain : ∀ byte ∈ ofText separators, byte < 128)
    (text : String) :
    (textsBetween separators (ofText text)).map ofText = tokens (ofText separators) (ofText text) := by
  have hpart : ∀ part ∈ tokens (ofText separators) (ofText text), ofText part.toText = part := by
    intro part hpart
    obtain ⟨inner, rfl⟩ := exists_text_of_mem_pieces hplain text part (List.mem_of_mem_filter hpart)
    rw [toText_ofText]
  rw [textsBetween, List.map_map]
  exact (List.map_congr_left hpart).trans (List.map_id' _)

end Bytes

-- ---------------------------------------------------------------------------
-- What a string is split into
-- ---------------------------------------------------------------------------

/-- Bytes are split into their maximal runs without a separator, those that are not empty, from the left to the
right. So no part is empty or has a separator, and the parts one after another are the bytes less all
separators. Where the separators of a string are bytes below 128, every part is the bytes of a text, and the
answer is these texts. -/
theorem split_lossless (machine : Machine) :
    (∀ separators bytes : Bytes,
      (∃ runs : List Bytes.Cut, (∀ cut, cut ∈ runs ↔ cut.IsRun separators bytes) ∧
        runs.Pairwise (fun cut next => cut.before.length < next.before.length) ∧
        Bytes.tokens separators bytes = runs.map Bytes.Cut.part) ∧
      (∀ part ∈ Bytes.tokens separators bytes, part ≠ [] ∧ ∀ byte ∈ part, byte ∉ separators) ∧
      (Bytes.tokens separators bytes).flatten = bytes.filter (· ∉ separators)) ∧
    ∀ (s : State) (o p : Ref) (text separators : String), s.payload o = .string text →
      s.payload p = .string separators → (∀ byte ∈ Bytes.ofText separators, byte < 128) →
      ∃ texts : List String,
        texts.map Bytes.ofText = Bytes.tokens (Bytes.ofText separators) (Bytes.ofText text) ∧
        (Builtin.stringSplit.body machine [o, p]).Ends s (fun answer t => t.AnswersTexts answer texts)
          fun _ => False := by
  refine ⟨fun separators bytes => ⟨Bytes.exists_runs separators bytes, fun _ => Bytes.ne_nil_of_mem_tokens,
    Bytes.flatten_tokens separators bytes⟩, fun s o p text separators ho hp hplain => ?_⟩
  refine ⟨Bytes.textsBetween separators (Bytes.ofText text), Bytes.map_ofText_textsBetween hplain text, ?_⟩
  exact (ends_split_string machine ho hp).imp_value fun _ _ h => h.2

/-- Characters of two bytes between separators that stand at both ends and next to each other. -/
theorem split_lossless_adjacent :
    let s := { Globals.bare {} .discard {} with
      heap := ⟨#[.singlet "None", .map [], .map [], .string ",é,;ü;", .string ";,"]⟩ }
    (Builtin.stringSplit.body (machine {} 1) [⟨3⟩, ⟨4⟩]).Ends s
      (fun answer t => t.AnswersTexts answer ["é", "ü"]) fun _ => False := by
  intro s
  have ho : s.payload ⟨3⟩ = .string ",é,;ü;" := rfl
  have hp : s.payload ⟨4⟩ = .string ";," := rfl
  clear_value s
  have htokens : Bytes.tokens (Bytes.ofText ";,") (Bytes.ofText ",é,;ü;") = ["é", "ü"].map Bytes.ofText := by
    decide +kernel
  obtain ⟨texts, htexts, hsplit⟩ := (split_lossless (machine {} 1)).2 s _ _ _ _ ho hp (by decide +kernel)
  obtain rfl := List.map_injective_iff.mpr (fun _ _ => Bytes.ofText_inj.mp) (htexts.trans htokens)
  exact hsplit

end ObjectModel
