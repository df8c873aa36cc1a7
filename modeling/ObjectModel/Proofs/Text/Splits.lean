import Mathlib.Data.List.TakeWhile
import ObjectModel.Proofs.Code.Copies
import ObjectModel.Proofs.Text.Copies

/-!
# Parts of texts

A string is split at all of its bytes, the buffer that it makes at those of its text, which ends before the
first zero. So what a string and its buffer are split into agrees up to there (`split_copies`), and a part
behind a zero is found in the string alone (`split_copies_cut`).
-/

namespace ObjectModel

open ObjectModel.Action Behavior

variable {s t : State} {answer o : Ref} {text separators : String} {args : List Ref}

-- ---------------------------------------------------------------------------
-- Lists of texts
-- ---------------------------------------------------------------------------

namespace State

/-- The answer is a list of the texts, or no value where there are none. -/
def AnswersTexts (t : State) (answer : Ref) : List String → Prop
  | [] => answer = t.nothing
  | texts => t.ShowsEach (fun item text => t.payload item = .string text) answer texts

theorem ShowsEach.texts_unique {texts others : List String}
    (h : t.ShowsEach (fun item text => t.payload item = .string text) answer texts)
    (h' : t.ShowsEach (fun item text => t.payload item = .string text) answer others) :
    texts = others := by
  obtain ⟨items, hitems, hshows⟩ := h
  obtain ⟨items', hitems', hshows'⟩ := h'
  obtain rfl : items = items' := Payload.list.inj (hitems.symm.trans hitems')
  have hread {objects : List Ref} {read : List String}
      (h : List.Forall₂ (fun item text => t.payload item = .string text) objects read) :
      read = objects.map fun item => (t.payload item).stringOrEmpty := by
    induction h with
    | nil => rfl
    | cons hitem _ ih => rw [ih, List.map_cons, hitem]; rfl
  rw [hread hshows, hread hshows']

/-- An answer is one list of texts only, unless the object for no value is a list. -/
theorem AnswersTexts.unique {texts others : List String} (hnothing : t.kind t.nothing ≠ .list)
    (h : t.AnswersTexts answer texts) (h' : t.AnswersTexts answer others) : texts = others := by
  have hlist {texts : List String} {text : String} (h : t.AnswersTexts t.nothing (text :: texts)) :
      False := by
    obtain ⟨items, hitems, -⟩ := h
    exact hnothing (kind_of_payload hitems)
  cases texts with
  | nil =>
    obtain rfl : answer = t.nothing := h
    cases others with
    | nil => rfl
    | cons => exact (hlist h').elim
  | cons =>
    cases others with
    | nil =>
      obtain rfl : answer = t.nothing := h'
      exact (hlist h).elim
    | cons => exact ShowsEach.texts_unique h h'

end State

theorem Behavior.Strings.ends_listOfTexts (parts : List Bytes) : (listOfTexts parts).Ends s
    (fun answer t => s.Keeps t ∧ t.AnswersTexts answer (parts.map Bytes.toText)) fun _ => False := by
  cases parts with
  | nil => exact ⟨.refl s, rfl⟩
  | cons part parts =>
    have hnames := Nodes.ends_createField (s := s) (.names ((part :: parts).map Bytes.toText))
    rw [Nodes.createField, List.map_map] at hnames
    refine hnames.imp_value ?_
    rintro answer t ⟨hspawned, -, hshows⟩
    exact ⟨hspawned.grown.keeps, hshows⟩

-- ---------------------------------------------------------------------------
-- What strings and buffers are split into
-- ---------------------------------------------------------------------------

namespace Bytes

def beforeZero (text : String) : String := String.ofList (text.toList.takeWhile (· ≠ '\x00'))

theorem ofText_beforeZero (text : String) : ofText (beforeZero text) = (ofText text).untilZero := by
  rw [beforeZero, ← untilZero_ofList, String.ofList_toList]

theorem beforeZero_of_notMem (h : '\x00' ∉ text.toList) : beforeZero text = text := by
  have hall : ∀ char ∈ text.toList, decide (char ≠ '\x00') = true := fun char hchar =>
    decide_eq_true (ne_of_mem_of_not_mem hchar h)
  rw [beforeZero, List.takeWhile_eq_self_iff.mpr hall, String.ofList_toList]

def textsBetween (separators : String) (bytes : Bytes) : List String :=
  (tokens (ofText separators) bytes).map toText

end Bytes

theorem ends_split_string (machine : Machine) (ho : s.payload o = .string text) {p : Ref}
    (hp : s.payload p = .string separators) : (Builtin.stringSplit.body machine [o, p]).Ends s
      (fun answer t => s.Keeps t ∧
        t.AnswersTexts answer (Bytes.textsBetween separators (Bytes.ofText text))) fun _ => False := by
  have hfirst : [o, p][0]? = some o := rfl
  have hsecond : [o, p][1]? = some p := rfl
  simp only [Builtin.body, Strings.split, ends_bind, Dispatcher.ends_textArgument_string _ hfirst ho,
    Dispatcher.ends_textArgument_string _ hsecond hp]
  exact Strings.ends_listOfTexts _

theorem ends_split_buffer (machine : Machine) {bytes : Bytes} (ho : s.bytes? o = some bytes) {p : Ref}
    (hp : s.payload p = .string separators) : (Builtin.bufferSplit.body machine [o, p]).Ends s
      (fun answer t => s.Keeps t ∧
        t.AnswersTexts answer (Bytes.textsBetween separators bytes.untilZero)) fun _ => False := by
  have hsecond : [o, p][1]? = some p := rfl
  have hheld : (s.withHeld ([o] :: s.held)).payload p = .string separators := hp
  simp only [Builtin.body, Buffers.split, ends_bind, ends_argument_first, Buffers.ends_sizedBytes _ ho,
    ends_holding, Dispatcher.ends_textArgument_string _ hsecond hheld, State.withHeld_withHeld]
  exact Strings.ends_listOfTexts _

/-- Splits the buffer that an object makes. -/
def splitCopy (machine : Machine) (o separators : Ref) : Action Ref := do
  let copy ← Builtin.toBuffer.body machine [o]
  Builtin.bufferSplit.body machine [copy, separators]

theorem ends_splitCopy (host : Host) (rounds : Nat) (ho : s.payload o = .string text) {p : Ref}
    (hp : s.payload p = .string separators) : (splitCopy (machine host (rounds + 1)) o p).Ends s
      (fun answer t => s.Keeps t ∧
        t.AnswersTexts answer (Bytes.textsBetween separators (Bytes.ofText (Bytes.beforeZero text))))
      (s.LacksMemory (Bytes.ofText text).length) := by
  have hcopy : Builtin.toBuffer.body (machine host (rounds + 1)) [o] =
      (machine host (rounds + 1)).toBuffer o := rfl
  rw [splitCopy, hcopy, ends_bind]
  refine (ends_toBuffer_buffered host rounds ho).imp (fun copy t hbuffered => ?_) fun _ hlacks => hlacks
  have hkept : t.payload p = .string separators := hbuffered.keeps.payload_eq hp (by simp [Payload.kind])
  refine (ends_split_buffer (machine host (rounds + 1)) hbuffered.shown.bytes hkept).imp_sure fun answer u h => ?_
  rw [Bytes.ofText_beforeZero]
  exact ⟨hbuffered.keeps.trans h.1, h.2⟩

/-- The buffer that a string makes is split like the part of the string before the first zero: into the same
texts, or no value where there are none. That part is the string itself if there is no zero in it. -/
theorem split_copies (host : Host) (rounds : Nat) {s : State} {o p : Ref} {text separators : String}
    (ho : s.payload o = .string text) (hp : s.payload p = .string separators) :
    (splitCopy (machine host (rounds + 1)) o p).Ends s
        (fun answer t => t.AnswersTexts answer
          (Bytes.textsBetween separators (Bytes.ofText (Bytes.beforeZero text))))
        (s.LacksMemory (Bytes.ofText text).length) ∧
      (∀ (u : State) (part q : Ref), u.payload part = .string (Bytes.beforeZero text) →
        u.payload q = .string separators →
        (Builtin.stringSplit.body (machine host (rounds + 1)) [part, q]).Ends u
          (fun answer t => t.AnswersTexts answer
            (Bytes.textsBetween separators (Bytes.ofText (Bytes.beforeZero text))))
          fun _ => False) ∧
      ('\x00' ∉ text.toList → Bytes.beforeZero text = text) := by
  refine ⟨?_, fun u part q hpart hq => ?_, Bytes.beforeZero_of_notMem⟩
  · exact (ends_splitCopy host rounds ho hp).imp_value fun _ _ h => h.2
  · exact (ends_split_string _ hpart hq).imp_value fun _ _ h => h.2

/-- A string of three parts, with a zero in the second. -/
theorem split_copies_zero :
    let s := { Globals.bare {} .discard {} with
      heap := ⟨#[.singlet "None", .map [], .map [], .string "a,b\x00c,d", .string ","]⟩ }
    (splitCopy (machine {} 1) ⟨3⟩ ⟨4⟩).Ends s (fun answer t => t.AnswersTexts answer ["a", "b"])
      fun _ => False := by
  intro s
  have ho : s.payload ⟨3⟩ = .string "a,b\x00c,d" := rfl
  have hp : s.payload ⟨4⟩ = .string "," := rfl
  have hfits : s.memory.Fits (Bytes.ofText "a,b\x00c,d").length := by decide +kernel
  clear_value s
  have htexts : Bytes.textsBetween "," (Bytes.ofText (Bytes.beforeZero "a,b\x00c,d")) = ["a", "b"] := by
    decide +kernel
  have hsplit := (split_copies {} 0 ho hp).1
  rw [htexts] at hsplit
  exact hsplit.imp (fun _ _ h => h) fun _ h => h.1 hfits

/-- A string and its buffer are not always split alike: a part behind a zero is one of the string alone. -/
theorem split_copies_cut :
    ¬ ∀ (host : Host) (rounds : Nat) (s : State) (o p : Ref) (text separators : String),
      s.payload o = .string text → s.payload p = .string separators →
      ∃ texts, (splitCopy (machine host (rounds + 1)) o p).Ends s
          (fun answer t => t.AnswersTexts answer texts)
          (s.LacksMemory (Bytes.ofText text).length) ∧
        (Builtin.stringSplit.body (machine host (rounds + 1)) [o, p]).Ends s
          (fun answer t => t.AnswersTexts answer texts) fun _ => False := by
  intro h
  let s := { Globals.bare {} .discard {} with
    heap := ⟨#[.singlet "None", .map [], .map [], .string "a\x00b", .string ","]⟩ }
  have ho : s.payload ⟨3⟩ = .string "a\x00b" := rfl
  have hp : s.payload ⟨4⟩ = .string "," := rfl
  have hfits : s.memory.Fits (Bytes.ofText "a\x00b").length := by decide +kernel
  have hmade : s.heap.Contains s.nothing := by decide
  have hnothing : s.kind s.nothing = .singlet := by decide
  clear_value s
  have hlist {t : State} (hkeeps : s.Keeps t) : t.kind t.nothing ≠ .list := by
    rw [hkeeps.nothing, State.kind, hkeeps.kept _ hmade]
    exact fun hkind => nomatch hnothing.symm.trans hkind
  obtain ⟨texts, hcopy, hwhole⟩ := h {} 0 s ⟨3⟩ ⟨4⟩ _ _ ho hp
  -- The parts of the buffer and of the string, each found in two ways.
  have hbuffer := (ends_splitCopy {} 0 ho hp).and hcopy
  obtain ⟨_, _, -, ⟨hkeeps, hone⟩, hother⟩ :=
    (hbuffer.imp (fun _ _ h => h) fun _ h => h.1.1 hfits).exists_run
  have hfirst := hone.unique (hlist hkeeps) hother
  have hstring := (ends_split_string (machine {} 1) ho hp).and hwhole
  obtain ⟨_, _, -, ⟨hkeeps, hone⟩, hother⟩ := (hstring.imp (fun _ _ h => h) fun _ h => h.1).exists_run
  have hsecond := hone.unique (hlist hkeeps) hother
  exact absurd (hfirst.trans hsecond.symm) (by decide +kernel)

end ObjectModel
