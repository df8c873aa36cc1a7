import Mathlib.Logic.Relation
import ObjectModel.Decimal.Fixed
import ObjectModel.Rendering

/-!
# Outlines of texts

The text of a list, a map or a cell is a tree, in which a container that came up before is a mere
placeholder. An outline is such a tree without the words. Main statements: in an outline that shows
first occurrences in full, every container that can be reached is shown in full once
(`count_full`); where no container is shared, the text is the plain one (`Unfolds.spelled`).
-/

namespace ObjectModel

-- ---------------------------------------------------------------------------
-- Graphs of containers
-- ---------------------------------------------------------------------------

namespace State

/-- The objects that a list, a map or a cell shows, in their order; others are no containers. -/
def contents? (s : State) (o : Ref) : Option (List Ref) :=
  match s.payload o with
  | .list items => some items.toList
  | .map cells => some cells
  | .cell key value => some [key, value]
  | _ => none

def contents (s : State) (o : Ref) : List Ref := (s.contents? o).getD []

/-- The object is an argument, or in a container that the arguments reach. -/
def Reaches (s : State) (args : List Ref) (o : Ref) : Prop :=
  ∃ a ∈ args, Relation.ReflTransGen (fun p c => c ∈ s.contents p) a o

theorem Reaches.of_mem {s : State} {o : Ref} (h : o ∈ args) : s.Reaches args o := ⟨o, h, .refl⟩

theorem Reaches.cons {s : State} {o : Ref} (h : s.Reaches args o) : s.Reaches (a :: args) o := by
  obtain ⟨b, hb, hpath⟩ := h
  exact ⟨b, List.mem_cons_of_mem _ hb, hpath⟩

theorem Reaches.within {s : State} {o : Ref} (h : s.Reaches cs o)
    (hcs : ∀ c ∈ cs, ∃ a ∈ args, c ∈ s.contents a) : s.Reaches args o := by
  obtain ⟨c, hc, hpath⟩ := h
  obtain ⟨a, ha, hstep⟩ := hcs c hc
  exact ⟨a, ha, .head hstep hpath⟩

/-- The arguments reach objects of the heap only, and no map among them has a hook for its text that
can be called. -/
structure Plain (s : State) (args : List Ref) : Prop where
  made : ∀ o, s.Reaches args o → s.heap.Contains o
  unhooked : ∀ o, s.Reaches args o → ∀ name ∈ ["__tostring", "__repr"], ∀ hook,
    s.named? o name = some hook → s.isCallable hook = false

theorem Plain.of_closed {s : State} (objects : List Ref) (hargs : args ⊆ objects)
    (hclosed : ∀ p ∈ objects, s.contents p ⊆ objects)
    (hmade : ∀ o ∈ objects, o.index < s.heap.size)
    (hunhooked : ∀ o ∈ objects, ∀ name ∈ ["__tostring", "__repr"],
      (s.named? o name).all (!s.isCallable ·)) : s.Plain args := by
  have hmem (o : Ref) (ho : s.Reaches args o) : o ∈ objects := by
    obtain ⟨a, ha, hpath⟩ := ho
    induction hpath with
    | refl => exact hargs ha
    | tail _ hstep ih => exact hclosed _ ih hstep
  refine ⟨fun o ho => hmade o (hmem o ho), fun o ho name hname hook hnamed => ?_⟩
  have hall := hunhooked o (hmem o ho) name hname
  rw [hnamed] at hall
  exact Bool.not_eq_true' _ |>.mp hall

/-- However the holders are listed, a container is named once at most by the arguments and by what
the arguments reach. -/
def Unshared (s : State) (args : List Ref) : Prop :=
  ∀ holders : List Ref, holders.Nodup → (∀ p ∈ holders, s.Reaches args p) →
    ∀ o, (s.contents? o).isSome → (args ++ holders.flatMap s.contents).count o ≤ 1

-- ---------------------------------------------------------------------------
-- Words
-- ---------------------------------------------------------------------------

def plainText (s : State) (o : Ref) : String :=
  match s.payload o with
  | .singlet name => name
  | .int value => toString value.toInt
  | .float value => Decimal.fixedText 6 value
  | .string value => value
  | .function made =>
    match made.name with
    | some name => "<Function " ++ name ++ ">"
    | none => "<Function>"
  | .native function => "<CFunction " ++ function.name ++ ">"
  | .statement (some node) => "<Stmt[" ++ node.form.name ++ "]>"
  | .statement none => "<NULL Stmt>"
  | .expression (some node) => "<Expr[" ++ node.form.name ++ "]>"
  | .expression none => "<NULL Expr>"
  | .buffer window => window.text s.memory
  | .library .. => "<DyLib>"
  | .symbol .. => "<DySym>"
  | .stream _ => "<Stream>"
  | .list _ | .map _ | .cell .. => ""

def quotedText (s : State) (o : Ref) : String :=
  match s.payload o with
  | .string value => "\"" ++ value ++ "\""
  | .buffer window => "'" ++ window.text s.memory ++ "'"
  | _ => s.plainText o

def written (s : State) (o : Ref) (parts : List String) : String :=
  match s.payload o, parts with
  | .list _, parts => "[" ++ ", ".intercalate parts ++ "]"
  | .map _, parts => "\x7b" ++ ", ".intercalate parts ++ "\x7d"
  | .cell .., [key, value] => "[" ++ key ++ "] = " ++ value
  | _, _ => ""

theorem written_list (h : State.payload s o = .list items) (parts : List String) :
    s.written o parts = "[" ++ ", ".intercalate parts ++ "]" := by
  unfold written
  rw [h]

theorem written_map (h : State.payload s o = .map cs) (parts : List String) :
    s.written o parts = "\x7b" ++ ", ".intercalate parts ++ "\x7d" := by
  unfold written
  rw [h]

theorem written_cell (h : State.payload s o = .cell k v) (key value : String) :
    s.written o [key, value] = "[" ++ key ++ "] = " ++ value := by
  unfold written
  rw [h]

end State

-- ---------------------------------------------------------------------------
-- Outlines
-- ---------------------------------------------------------------------------

inductive Outline where
  | leaf (object : Ref)
  | again (object : Ref)
  | full (object : Ref) (inner : List Outline)

namespace Outline

mutual
/-- The text of an outline. The words are those of objects outside of all containers. -/
def text (s : State) (words : Ref → String) : Outline → String
  | .leaf o => words o
  | .again o => Rendering.placeholder o
  | .full o inner => s.written o (texts s inner)
def texts (s : State) : List Outline → List String
  | [] => []
  | outline :: rest => outline.text s s.quotedText :: texts s rest
end

mutual
/-- The containers in the order of the text, each with whether it is shown in full. -/
def occurrences : Outline → List (Ref × Bool)
  | .leaf _ => []
  | .again o => [(o, false)]
  | .full o inner => (o, true) :: allOccurrences inner
def allOccurrences : List Outline → List (Ref × Bool)
  | [] => []
  | outline :: rest => outline.occurrences ++ allOccurrences rest
end

theorem texts_eq_map (s : State) (outlines : List Outline) :
    texts s outlines = outlines.map (text s s.quotedText) := by
  induction outlines with
  | nil => rfl
  | cons outline rest ih => rw [texts, ih, List.map_cons]

end Outline

/-- The outlines are those of the objects, with everything that containers in full show. -/
inductive Unfolds (s : State) : List Ref → List Outline → Prop
  | nil : Unfolds s [] []
  | leaf : s.contents? o = none → Unfolds s os outlines → Unfolds s (o :: os) (.leaf o :: outlines)
  | again : (s.contents? o).isSome → Unfolds s os outlines →
      Unfolds s (o :: os) (.again o :: outlines)
  | full {inner : List Outline} : s.contents? o = some cs → Unfolds s cs inner →
      Unfolds s os outlines → Unfolds s (o :: os) (.full o inner :: outlines)

/-- An occurrence is in full if and only if the container was not shown and did not occur before. -/
def FirstInFull (shown : Ref → Prop) : List (Ref × Bool) → Prop
  | [] => True
  | (o, full) :: rest => (full = true ↔ ¬ shown o) ∧ FirstInFull (fun p => shown p ∨ p = o) rest

inductive Spelled (s : State) : (Ref → String) → List Ref → List String → Prop
  | nil : Spelled s words [] []
  | leaf : s.contents? o = none → Spelled s words os texts →
      Spelled s words (o :: os) (words o :: texts)
  | whole : s.contents? o = some cs → Spelled s s.quotedText cs parts → Spelled s words os texts →
      Spelled s words (o :: os) (s.written o parts :: texts)

-- ---------------------------------------------------------------------------
-- First occurrences
-- ---------------------------------------------------------------------------

namespace FirstInFull

variable {shown : Ref → Prop} {occurrences : List (Ref × Bool)}

theorem congr {other : Ref → Prop} (h : ∀ o, shown o ↔ other o)
    (hfirst : FirstInFull shown occurrences) : FirstInFull other occurrences := by
  have : shown = other := funext fun o => propext (h o)
  exact this ▸ hfirst

theorem append {later : List (Ref × Bool)} (h : FirstInFull shown occurrences)
    (hlater : FirstInFull (fun p => shown p ∨ p ∈ occurrences.map (·.1)) later) :
    FirstInFull shown (occurrences ++ later) := by
  induction occurrences generalizing shown with
  | nil => exact hlater.congr fun p => by simp
  | cons occurrence rest ih =>
    refine ⟨h.1, ih h.2 (hlater.congr fun p => ?_)⟩
    rw [List.map_cons, List.mem_cons, or_assoc]

theorem of_append {later : List (Ref × Bool)} (h : FirstInFull shown (occurrences ++ later)) :
    FirstInFull shown occurrences ∧
      FirstInFull (fun p => shown p ∨ p ∈ occurrences.map (·.1)) later := by
  induction occurrences generalizing shown with
  | nil => exact ⟨trivial, h.congr fun p => by simp⟩
  | cons occurrence rest ih =>
    obtain ⟨hrest, hlater⟩ := ih h.2
    refine ⟨⟨h.1, hrest⟩, hlater.congr fun p => ?_⟩
    rw [List.map_cons, List.mem_cons, or_assoc]

theorem mem_full (h : FirstInFull shown occurrences) (ho : o ∈ occurrences.map (·.1))
    (hnew : ¬ shown o) : (o, true) ∈ occurrences := by
  induction occurrences generalizing shown with
  | nil => cases ho
  | cons occurrence rest ih =>
    obtain ⟨p, full⟩ := occurrence
    by_cases hp : o = p
    · subst hp
      rw [h.1.mpr hnew]
      exact List.mem_cons_self
    · have hrest : o ∈ rest.map (·.1) := (List.mem_cons.mp ho).resolve_left hp
      exact List.mem_cons_of_mem _ (ih h.2 hrest (by simp [hnew, hp]))

theorem not_mem_full (h : FirstInFull shown occurrences) (ho : shown o) :
    (o, true) ∉ occurrences := by
  induction occurrences generalizing shown with
  | nil => exact List.not_mem_nil
  | cons occurrence rest ih =>
    obtain ⟨p, full⟩ := occurrence
    rintro (_ | ⟨_, hrest⟩)
    · exact h.1.mp rfl ho
    · exact ih h.2 (.inl ho) hrest

theorem nodup_full (h : FirstInFull shown occurrences) :
    ((occurrences.filter (·.2)).map (·.1)).Nodup := by
  induction occurrences generalizing shown with
  | nil => exact List.nodup_nil
  | cons occurrence rest ih =>
    obtain ⟨p, full⟩ := occurrence
    cases full with
    | false => exact ih h.2
    | true =>
      refine List.nodup_cons.mpr ⟨fun hp => ?_, ih h.2⟩
      obtain ⟨⟨q, full⟩, hq, rfl⟩ := List.mem_map.mp hp
      obtain ⟨hmem, hfull⟩ := List.mem_filter.mp hq
      cases (show full = true from hfull)
      exact not_mem_full h.2 (.inr rfl) hmem

theorem count_full (h : FirstInFull shown occurrences) (ho : o ∈ occurrences.map (·.1))
    (hnew : ¬ shown o) : occurrences.count (o, true) = 1 := by
  induction occurrences generalizing shown with
  | nil => cases ho
  | cons occurrence rest ih =>
    obtain ⟨p, full⟩ := occurrence
    by_cases hp : o = p
    · subst hp
      rw [h.1.mpr hnew, List.count_cons_self, List.count_eq_zero.mpr (not_mem_full h.2 (.inr rfl))]
    · have hrest : o ∈ rest.map (·.1) := (List.mem_cons.mp ho).resolve_left hp
      rw [List.count_cons_of_ne (by simp [Ne.symm hp])]
      exact ih h.2 hrest (by simp [hnew, hp])

end FirstInFull

theorem two_le_count {occurrences : List (Ref × Bool)} (hfull : (o, true) ∈ occurrences)
    (hagain : (o, false) ∈ occurrences) : 2 ≤ (occurrences.map (·.1)).count o := by
  induction occurrences with
  | nil => cases hfull
  | cons occurrence rest ih =>
    rcases List.mem_cons.mp hfull with rfl | hfull
    · have hrest := (List.mem_cons.mp hagain).resolve_left nofun
      have hpos := List.count_pos_iff.mpr (List.mem_map_of_mem (f := (·.1)) hrest)
      rw [List.map_cons, List.count_cons_self]
      exact Nat.succ_le_succ hpos
    · have hpos := List.count_pos_iff.mpr (List.mem_map_of_mem (f := (·.1)) hfull)
      rcases List.mem_cons.mp hagain with rfl | hagain
      · rw [List.map_cons, List.count_cons_self]
        exact Nat.succ_le_succ hpos
      · rw [List.map_cons, List.count_cons]
        exact Nat.le_add_right_of_le (ih hfull hagain)

-- ---------------------------------------------------------------------------
-- What an outline holds
-- ---------------------------------------------------------------------------

namespace Unfolds

variable {s : State} {os : List Ref} {outlines : List Outline}

theorem cons {o : Ref} {outline : Outline} (h : Unfolds s [o] [outline])
    (hrest : Unfolds s os outlines) : Unfolds s (o :: os) (outline :: outlines) := by
  cases h with
  | leaf ho _ => exact .leaf ho hrest
  | again ho _ => exact .again ho hrest
  | full ho hinner _ => exact .full ho hinner hrest

theorem mem_args (h : Unfolds s os outlines) (ho : o ∈ os) (hc : (s.contents? o).isSome) :
    o ∈ (Outline.allOccurrences outlines).map (·.1) := by
  induction h with
  | nil => cases ho
  | leaf hnone _ ih =>
    rcases List.mem_cons.mp ho with rfl | ho
    · rw [hnone] at hc
      cases hc
    · exact ih ho
  | again _ _ ih =>
    rcases List.mem_cons.mp ho with rfl | ho
    · exact List.mem_cons_self
    · exact List.mem_cons_of_mem _ (ih ho)
  | full _ _ _ _ ih =>
    rcases List.mem_cons.mp ho with rfl | ho
    · exact List.mem_cons_self
    · rw [Outline.allOccurrences, List.map_append]
      exact List.mem_append_right _ (ih ho)

/-- A container in full shows the containers in it. -/
theorem mem_contents (h : Unfolds s os outlines)
    (hp : (p, true) ∈ Outline.allOccurrences outlines) (ho : o ∈ s.contents p)
    (hc : (s.contents? o).isSome) : o ∈ (Outline.allOccurrences outlines).map (·.1) := by
  induction h with
  | nil => cases hp
  | leaf _ _ ih => exact ih hp
  | again _ _ ih =>
    exact List.mem_cons_of_mem _ (ih ((List.mem_cons.mp hp).resolve_left (by simp)))
  | full hsome hinner hrest ih ihrest =>
    rw [Outline.allOccurrences, List.map_append, Outline.occurrences]
    rw [Outline.allOccurrences, Outline.occurrences] at hp
    rcases List.mem_append.mp hp with hp | hp
    · refine List.mem_append_left _ (List.mem_cons_of_mem _ ?_)
      rcases List.mem_cons.mp hp with heq | hp
      · cases heq
        rw [State.contents, hsome] at ho
        exact hinner.mem_args ho hc
      · exact ih hp
    · exact List.mem_append_right _ (ihrest hp)

theorem mem_of_reaches (h : Unfolds s os outlines)
    (hfirst : FirstInFull (fun _ => False) (Outline.allOccurrences outlines))
    (ho : s.Reaches os o) (hc : (s.contents? o).isSome) :
    o ∈ (Outline.allOccurrences outlines).map (·.1) := by
  obtain ⟨a, ha, hpath⟩ := ho
  induction hpath with
  | refl => exact h.mem_args ha hc
  | @tail p o _ hstep ih =>
    -- Only containers show anything, so the holder is one that occurs.
    have hp : (s.contents? p).isSome := by
      cases hnone : s.contents? p with
      | none => rw [State.contents, hnone] at hstep; cases hstep
      | some _ => rfl
    exact h.mem_contents (hfirst.mem_full (ih hp) id) hstep hc

theorem count_full (h : Unfolds s os outlines)
    (hfirst : FirstInFull (fun _ => False) (Outline.allOccurrences outlines))
    (ho : s.Reaches os o) (hc : (s.contents? o).isSome) :
    (Outline.allOccurrences outlines).count (o, true) = 1 :=
  hfirst.count_full (h.mem_of_reaches hfirst ho hc) id

/-- First occurrences in full leave no choice. -/
theorem unique {others : List Outline} (h : Unfolds s os outlines) (h' : Unfolds s os others)
    (hfirst : FirstInFull shown (Outline.allOccurrences outlines))
    (hfirst' : FirstInFull shown (Outline.allOccurrences others)) : outlines = others := by
  induction h generalizing shown others with
  | nil =>
    cases h'
    rfl
  | leaf hnone _ ih =>
    cases h' with
    | leaf _ hrest => rw [ih hrest hfirst hfirst']
    | again hsome _ => rw [hnone] at hsome; cases hsome
    | full hsome _ _ => rw [hnone] at hsome; cases hsome
  | again hsome _ ih =>
    cases h' with
    | leaf hnone _ => rw [hnone] at hsome; cases hsome
    | again _ hrest => rw [ih hrest hfirst.2 hfirst'.2]
    | full _ _ _ => cases hfirst.1.mpr (hfirst'.1.mp rfl)
  | full hsome _ _ ih ihrest =>
    cases h' with
    | leaf hnone _ => rw [hnone] at hsome; cases hsome
    | again _ _ => cases hfirst'.1.mpr (hfirst.1.mp rfl)
    | full hsome' hinner' hrest' =>
      cases hsome.symm.trans hsome'
      obtain ⟨hinner, hrest⟩ := hfirst.2.of_append
      obtain ⟨hinnerFirst', hrestFirst'⟩ := hfirst'.2.of_append
      cases ih hinner' hinner hinnerFirst'
      rw [ihrest hrest' hrest hrestFirst']

theorem reaches (h : Unfolds s os outlines) (ho : o ∈ (Outline.allOccurrences outlines).map (·.1)) :
    s.Reaches os o ∧ (s.contents? o).isSome := by
  induction h with
  | nil => cases ho
  | leaf _ _ ih => exact ⟨(ih ho).1.cons, (ih ho).2⟩
  | again hc _ ih =>
    rcases List.mem_cons.mp ho with rfl | ho
    · exact ⟨.of_mem List.mem_cons_self, hc⟩
    · exact ⟨(ih ho).1.cons, (ih ho).2⟩
  | full hsome _ _ ih ihrest =>
    rw [Outline.allOccurrences, List.map_append, Outline.occurrences] at ho
    rcases List.mem_append.mp ho with ho | ho
    · rcases List.mem_cons.mp ho with rfl | ho
      · exact ⟨.of_mem List.mem_cons_self, hsome ▸ rfl⟩
      · refine ⟨(ih ho).1.within fun c hc => ⟨_, List.mem_cons_self, ?_⟩, (ih ho).2⟩
        rw [State.contents, hsome]
        exact hc
    · exact ⟨(ihrest ho).1.cons, (ihrest ho).2⟩

-- ---------------------------------------------------------------------------
-- Graphs without sharing
-- ---------------------------------------------------------------------------

/-- A container occurs as often as the objects and the containers in full name it. -/
theorem count_occurrences (h : Unfolds s os outlines) (hc : (s.contents? o).isSome) :
    ((Outline.allOccurrences outlines).map (·.1)).count o =
      os.count o + ((((Outline.allOccurrences outlines).filter (·.2)).map (·.1)).flatMap
        s.contents).count o := by
  induction h with
  | nil => rfl
  | @leaf p os outlines hnone _ ih =>
    have hne : p ≠ o := by
      rintro rfl
      rw [hnone] at hc
      cases hc
    rw [Outline.allOccurrences, Outline.occurrences, List.nil_append, ih, List.count_cons_of_ne hne]
  | @again p os outlines _ _ ih =>
    rw [Outline.allOccurrences, Outline.occurrences, List.singleton_append, List.map_cons,
      List.filter_cons_of_neg (by simp), List.count_cons, ih, List.count_cons]
    exact Nat.add_right_comm ..
  | @full p cs inner os outlines hsome _ _ ih ihrest =>
    have hcs : s.contents p = cs := by rw [State.contents, hsome]; rfl
    rw [Outline.allOccurrences, Outline.occurrences, List.cons_append, List.map_cons,
      List.filter_cons_of_pos rfl, List.map_cons, List.flatMap_cons, List.filter_append,
      List.map_append, List.map_append, List.flatMap_append, hcs, List.count_cons, List.count_cons,
      List.count_append, List.count_append, List.count_append, ih, ihrest]
    dsimp only
    omega

/-- Where no container is shared, no occurrence is a placeholder. -/
theorem all_full (h : Unfolds s os outlines)
    (hfirst : FirstInFull (fun _ => False) (Outline.allOccurrences outlines))
    (hunshared : s.Unshared os) (ho : (o, b) ∈ Outline.allOccurrences outlines) : b = true := by
  cases b with
  | true => rfl
  | false =>
    have hmem : o ∈ (Outline.allOccurrences outlines).map (·.1) := List.mem_map_of_mem ho
    obtain ⟨hreach, hc⟩ := h.reaches hmem
    have hle := hunshared _ hfirst.nodup_full (fun p hp => ?_) o hc
    · rw [List.count_append, ← h.count_occurrences hc] at hle
      have hlt := two_le_count (hfirst.mem_full hmem id) ho
      omega
    · obtain ⟨⟨q, full⟩, hq, rfl⟩ := List.mem_map.mp hp
      exact (h.reaches (List.mem_map_of_mem (List.mem_filter.mp hq).1)).1

theorem spelled (h : Unfolds s os outlines)
    (hfull : ∀ occurrence ∈ Outline.allOccurrences outlines, occurrence.2 = true)
    (words : Ref → String) : Spelled s words os (outlines.map (Outline.text s words)) := by
  induction h generalizing words with
  | nil => exact .nil
  | leaf hnone _ ih => exact .leaf hnone (ih hfull words)
  | again _ _ _ => cases hfull _ List.mem_cons_self
  | full hsome _ _ ih ihrest =>
    rw [Outline.allOccurrences, Outline.occurrences] at hfull
    have hinner := ih (fun _ hp => hfull _ (by simp [hp])) s.quotedText
    rw [← Outline.texts_eq_map] at hinner
    exact .whole hsome hinner (ihrest (fun _ hp => hfull _ (by simp [hp])) words)

end Unfolds

/-- The outlines of a text in which every container that is reached is shown in full where it occurs
first, and as its placeholder wherever it occurs again. -/
structure Rendered (s : State) (args : List Ref) (outlines : List Outline) : Prop where
  unfolds : Unfolds s args outlines
  first : FirstInFull (fun _ => False) (Outline.allOccurrences outlines)
  once : ∀ o, s.Reaches args o → (s.contents? o).isSome →
    (Outline.allOccurrences outlines).count (o, true) = 1
  spelled : s.Unshared args → ∀ words, Spelled s words args (outlines.map (Outline.text s words))

theorem Unfolds.rendered (h : Unfolds s args outlines)
    (hfirst : FirstInFull (fun _ => False) (Outline.allOccurrences outlines)) :
    Rendered s args outlines where
  unfolds := h
  first := hfirst
  once _ ho hc := h.count_full hfirst ho hc
  spelled hunshared := h.spelled fun _ hmem => h.all_full hfirst hunshared hmem

theorem Rendered.unique (h : Rendered s args outlines) (h' : Rendered s args others) :
    outlines = others := h.unfolds.unique h'.unfolds h.first h'.first

end ObjectModel
