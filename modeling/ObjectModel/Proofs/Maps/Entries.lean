import Mathlib.Data.List.Basic
import Mathlib.Data.List.Pairwise
import ObjectModel.Proofs.Maps.Labels

/-!
# Entries under names and ints

The entries of a map whose keys are names and ints are told apart by their labels. Entries are merged by
storing those of one list into another one by one (`Entry.foldl_put`), and it makes no difference which of
three lists are merged first (`Entry.merge_assoc`). A store into a map does to its entries what storing an
entry does (`State.Stores.plainEntries`).
-/

namespace ObjectModel

/-- An entry of a map, with what its key is told apart by. -/
structure Entry where
  label : Label
  key : Ref
  value : Ref
  deriving DecidableEq

namespace Entry

variable {own other third entries : List Entry} {entry : Entry} {label : Label}

def value? (entries : List Entry) (label : Label) : Option Ref :=
  (entries.find? (·.label = label)).map (·.value)

/-- An entry with the value that other entries have under its label, if they have one. -/
def override (other : List Entry) (entry : Entry) : Entry :=
  { entry with value := (value? other entry.label).getD entry.value }

/-- Entries with the values of others, and behind them the others under new labels. -/
def merge (own other : List Entry) : List Entry :=
  own.map (override other) ++ other.filter fun entry => value? own entry.label = none

def put (entries : List Entry) (entry : Entry) : List Entry :=
  if value? entries entry.label = none then entries ++ [entry] else entries.map (override [entry])

-- ---------------------------------------------------------------------------
-- Values of merged entries
-- ---------------------------------------------------------------------------

@[simp] theorem value?_nil : value? [] label = none := rfl

theorem value?_cons : value? (entry :: entries) label =
    if entry.label = label then some entry.value else value? entries label := by
  by_cases hlabel : entry.label = label <;> simp [value?, hlabel]

theorem value?_eq_none : value? entries label = none ↔ label ∉ entries.map (·.label) := by
  simp [value?]

theorem value?_append : value? (own ++ other) label = (value? own label).or (value? other label) := by
  simp [value?, List.find?_append, Option.map_or]

theorem value?_override : value? (own.map (override other)) label =
    (value? own label).map fun value => (value? other label).getD value := by
  induction own with
  | nil => rfl
  | cons entry own ih =>
    rw [List.map_cons, value?_cons, value?_cons, ih]
    by_cases hlabel : entry.label = label <;> simp [hlabel, override]

theorem value?_filter : value? (other.filter fun entry => value? own entry.label = none) label =
    if value? own label = none then value? other label else none := by
  induction other with
  | nil => simp
  | cons entry rest ih =>
    by_cases hnew : value? own entry.label = none
    · rw [List.filter_cons_of_pos (by simpa using hnew), value?_cons, value?_cons, ih]
      by_cases hlabel : entry.label = label
      · simp [← hlabel, hnew]
      · simp [hlabel]
    · rw [List.filter_cons_of_neg (by simpa using hnew), value?_cons, ih]
      by_cases hlabel : entry.label = label
      · simp [← hlabel, hnew]
      · simp [hlabel]

theorem value?_merge (own other : List Entry) (label : Label) :
    value? (merge own other) label = (value? other label).or (value? own label) := by
  rw [merge, value?_append, value?_override, value?_filter]
  cases value? own label <;> cases value? other label <;> rfl

theorem override_override (entry : Entry) :
    override third (override other entry) = override (merge other third) entry := by
  simp only [override, value?_merge]
  cases value? third entry.label <;> rfl

/-- It makes no difference which entries are merged first. -/
theorem merge_assoc (own other third : List Entry) :
    merge (merge own other) third = merge own (merge other third) := by
  have hnew : (fun entry : Entry => decide (value? (merge own other) entry.label = none)) =
      fun entry => decide (value? own entry.label = none) && decide (value? other entry.label = none) := by
    funext entry
    rw [value?_merge]
    cases value? other entry.label <;> cases value? own entry.label <;> rfl
  have hown : own.map (override third ∘ override other) = own.map (override (merge other third)) :=
    List.map_congr_left fun entry _ => override_override entry
  have hlabel : (fun entry : Entry => decide (value? own entry.label = none)) ∘ override third =
      fun entry => decide (value? own entry.label = none) := rfl
  calc merge (merge own other) third
      = own.map (override third ∘ override other) ++
          (other.filter fun entry => value? own entry.label = none).map (override third) ++
          third.filter fun entry => value? (merge own other) entry.label = none := by
        rw [merge, merge, List.map_append, List.map_map]
    _ = own.map (override (merge other third)) ++
          ((other.map (override third)).filter (fun entry => value? own entry.label = none) ++
          (third.filter fun entry => value? other entry.label = none).filter
            fun entry => value? own entry.label = none) := by
        rw [hown, hnew, List.filter_map, hlabel, List.filter_filter, List.append_assoc]
    _ = merge own (merge other third) := by rw [← List.filter_append, ← merge, ← merge]

-- ---------------------------------------------------------------------------
-- Entries that are stored one by one
-- ---------------------------------------------------------------------------

theorem labels_override : (own.map (override other)).map (·.label) = own.map (·.label) := by
  rw [List.map_map]
  rfl

theorem merge_append (h : value? other entry.label = none) :
    merge own (other ++ [entry]) = put (merge own other) entry := by
  have hsingle (label : Label) : value? [entry] label = if entry.label = label then some entry.value else none :=
    value?_cons
  have hover (e : Entry) : override [entry] (override other e) = override (other ++ [entry]) e := by
    rw [override_override]
    simp only [override, value?_merge, value?_append, hsingle]
    by_cases hlabel : entry.label = e.label
    · simp [← hlabel, h]
    · simp [hlabel]
  have hown : own.map (override [entry] ∘ override other) = own.map (override (other ++ [entry])) :=
    List.map_congr_left fun e _ => hover e
  rw [put, value?_merge, h, Option.none_or]
  by_cases hnew : value? own entry.label = none
  · -- No entry of their own has the label, so that all keep their values.
    have hkeep : own.map (override (other ++ [entry])) = own.map (override other) := by
      refine List.map_congr_left fun e he => ?_
      have hne : entry.label ≠ e.label := by
        intro hlabel
        exact value?_eq_none.mp hnew (hlabel ▸ List.mem_map_of_mem he)
      simp [override, value?_append, hsingle, hne]
    simp [merge, hnew, hkeep]
  · have hrest : (other.filter fun e => value? own e.label = none).map (override [entry]) =
        other.filter fun e => value? own e.label = none := by
      refine (List.map_congr_left fun e he => ?_).trans (List.map_id _)
      have hne : entry.label ≠ e.label := by
        intro hlabel
        exact value?_eq_none.mp h (hlabel ▸ List.mem_map_of_mem (List.mem_of_mem_filter he))
      simp [override, hsingle, hne]
    simp [merge, hnew, hrest, hown]

theorem foldl_put (h : (other.map (·.label)).Nodup) : other.foldl put own = merge own other := by
  induction other using List.reverseRecOn with
  | nil => exact ((List.append_nil _).trans (List.map_id own)).symm
  | append_singleton other entry ih =>
    rw [List.map_append, List.nodup_append] at h
    obtain ⟨hother, -, hapart⟩ := h
    have hnew : value? other entry.label = none := by
      refine value?_eq_none.mpr fun hmem => ?_
      exact hapart _ hmem _ List.mem_cons_self rfl
    rw [List.foldl_append, ih hother, merge_append hnew]
    rfl

theorem nodup_put (h : (entries.map (·.label)).Nodup) : ((put entries entry).map (·.label)).Nodup := by
  unfold put
  split
  case isTrue hnew =>
    rw [List.map_append]
    refine List.nodup_append.mpr ⟨h, by simp, ?_⟩
    rintro label hlabel _ (_ | ⟨_, ⟨⟩⟩) rfl
    exact value?_eq_none.mp hnew hlabel
  case isFalse => rwa [labels_override]

end Entry

-- ---------------------------------------------------------------------------
-- Maps under names and ints
-- ---------------------------------------------------------------------------

namespace State

variable {s s₀ t : State} {map cell key value : Ref} {label : Label} {entry : Entry}

/-- A map whose keys are names and ints, of which no two match. -/
structure PlainMap (s : State) (map : Ref) : Prop extends s.MadeMap map where
  plain : ∀ key ∈ s.keys map, s.PlainKey key
  unmatched : (s.keys map).Pairwise fun older newer => s.selects newer older = false

def entryOf? (s : State) (parts : Ref × Ref) : Option Entry :=
  (s.label? parts.1).map (⟨·, parts.1, parts.2⟩)

def plainEntries (s : State) (map : Ref) : List Entry := (s.entries map).filterMap s.entryOf?

theorem label?_of_plainKey (h : s.PlainKey key) : ∃ label, s.label? key = some label := by
  rcases h with hname | hint
  · obtain ⟨bytes, hbytes⟩ := Option.isSome_iff_exists.mp hname
    exact ⟨.name bytes, label?_eq_name.mpr hbytes⟩
  · cases hkey : s.payload key with
    | int n => exact ⟨.number n, label?_eq_number.mpr hkey⟩
    | _ => simp [State.kind, hkey, Payload.kind] at hint

theorem entryOf?_eq_some {parts : Ref × Ref} : s.entryOf? parts = some entry ↔
    s.label? entry.key = some entry.label ∧ parts = (entry.key, entry.value) := by
  obtain ⟨key, value⟩ := parts
  obtain ⟨label, stored, held⟩ := entry
  simp only [entryOf?, Option.map_eq_some_iff, Entry.mk.injEq, Prod.mk.injEq]
  constructor
  · rintro ⟨_, hlabel, rfl, rfl, rfl⟩
    exact ⟨hlabel, rfl, rfl⟩
  · rintro ⟨hlabel, rfl, rfl⟩
    exact ⟨label, hlabel, rfl, rfl, rfl⟩

def entryAt? (s : State) (cell : Ref) : Option Entry := (s.payload cell).cellParts?.bind s.entryOf?

theorem plainEntries_eq (s : State) (map : Ref) :
    s.plainEntries map = (s.cells map).filterMap s.entryAt? := List.filterMap_filterMap ..

theorem entryAt?_eq_some : s.entryAt? cell = some entry ↔
    s.payload cell = .cell entry.key entry.value ∧ s.label? entry.key = some entry.label := by
  simp only [entryAt?, Option.bind_eq_some_iff, entryOf?_eq_some]
  constructor
  · rintro ⟨_, hparts, hlabel, rfl⟩
    cases hcell : s.payload cell <;> simp [hcell, Payload.cellParts?] at hparts
    obtain ⟨rfl, rfl⟩ := hparts
    exact ⟨rfl, hlabel⟩
  · rintro ⟨hcell, hlabel⟩
    exact ⟨_, by rw [hcell, Payload.cellParts?], hlabel, rfl⟩

theorem label?_of_mem (h : entry ∈ s.plainEntries map) : s.label? entry.key = some entry.label := by
  obtain ⟨parts, -, hparts⟩ := List.mem_filterMap.mp h
  exact (entryOf?_eq_some.mp hparts).1

theorem exists_entryAt? (hplain : ∀ key ∈ s.keys map, s.PlainKey key) (hcell : cell ∈ s.cells map)
    (hparts : s.payload cell = .cell key value) : ∃ label, s.entryAt? cell = some ⟨label, key, value⟩ := by
  obtain ⟨label, hlabel⟩ := label?_of_plainKey (hplain key (mem_keys.mpr ⟨cell, hcell, value, hparts⟩))
  exact ⟨label, entryAt?_eq_some.mpr ⟨hparts, hlabel⟩⟩

theorem entries_of_plain (hplain : ∀ key ∈ s.keys map, s.PlainKey key) :
    s.entries map = (s.plainEntries map).map fun entry => (entry.key, entry.value) := by
  rw [plainEntries_eq, List.map_filterMap]
  refine List.filterMap_congr fun cell hcell => ?_
  cases hparts : s.payload cell with
  | cell key value =>
    obtain ⟨label, hentry⟩ := exists_entryAt? hplain hcell hparts
    simp [hentry, Payload.cellParts?]
  | _ => simp [State.entryAt?, hparts, Payload.cellParts?]

theorem keys_of_plain (hplain : ∀ key ∈ s.keys map, s.PlainKey key) :
    s.keys map = (s.plainEntries map).map (·.key) := by
  rw [keys, entries_of_plain hplain, List.map_map]
  rfl

/-- No two keys match where no two labels are the same. -/
theorem plainMap_iff : s.PlainMap map ↔ s.MadeMap map ∧ (∀ key ∈ s.keys map, s.PlainKey key) ∧
    ((s.plainEntries map).map (·.label)).Nodup := by
  have hpairs (hplain : ∀ key ∈ s.keys map, s.PlainKey key) :
      ((s.keys map).Pairwise fun older newer => s.selects newer older = false) ↔
        ((s.plainEntries map).map (·.label)).Nodup := by
    rw [keys_of_plain hplain, List.Nodup, List.pairwise_map, List.pairwise_map]
    refine List.Pairwise.iff_of_mem fun holder hnewer => ?_
    rw [selects_label (label?_of_mem hnewer) (label?_of_mem holder), decide_eq_false_iff_not, eq_comm]
  constructor
  · rintro ⟨hmade, hplain, hunmatched⟩
    exact ⟨hmade, hplain, (hpairs hplain).mp hunmatched⟩
  · rintro ⟨hmade, hplain, hnodup⟩
    exact ⟨hmade, hplain, (hpairs hplain).mpr hnodup⟩

namespace PlainMap

variable (h : s.PlainMap map)
include h

theorem nodup : ((s.plainEntries map).map (·.label)).Nodup := (plainMap_iff.mp h).2.2

theorem cell_unique {other : Ref} {e : Entry} (hcell : cell ∈ s.cells map) (hother : other ∈ s.cells map)
    (hentry : s.entryAt? cell = some entry) (he : s.entryAt? other = some e) (hlabel : entry.label = e.label) :
    cell = other := by
  let Differ (c d : Ref) : Prop := ∀ e, s.entryAt? c = some e → ∀ e', s.entryAt? d = some e' → e.label ≠ e'.label
  have hpairs : (s.cells map).Pairwise Differ := by
    have hnodup := h.nodup
    rwa [plainEntries_eq, List.Nodup, List.pairwise_map, List.pairwise_filterMap] at hnodup
  have hsymm : Std.Symm Differ := ⟨fun c d hcd e he e' he' => (hcd e' he' e he).symm⟩
  by_contra hne
  exact hpairs.forall hcell hother hne entry hentry e he hlabel

theorem lookup?_eq (hkey : s.label? key = some label) :
    s.lookup? map key = Entry.value? (s.plainEntries map) label := by
  rw [lookup?, found?, plainEntries_eq]
  have hall : ∀ cell ∈ s.cells map, ∀ key value, s.payload cell = .cell key value →
      ∃ label, s.entryAt? cell = some ⟨label, key, value⟩ :=
    fun _ hcell _ _ hparts => exists_entryAt? h.plain hcell hparts
  generalize s.cells map = cells at hall ⊢
  induction cells with
  | nil => rfl
  | cons cell rest ih =>
    obtain ⟨hfirst, hrest⟩ := List.forall_mem_cons.mp hall
    cases hparts : s.payload cell with
    | cell stored value =>
      obtain ⟨other, hentry⟩ := hfirst stored value hparts
      have hselects : s.selectsCell key cell = decide (label = other) := by
        rw [selectsCell, hparts]
        exact selects_label hkey (entryAt?_eq_some.mp hentry).2
      rw [List.find?_cons, List.filterMap_cons_some hentry, Entry.value?_cons, hselects, ← ih hrest]
      by_cases hlabel : label = other
      · simp [hlabel, cellValue?, hparts, Payload.cellParts?]
      · simp [hlabel, Ne.symm hlabel]
    | _ =>
      have hselects : s.selectsCell key cell = false := by simp [selectsCell, hparts]
      have hnone : s.entryAt? cell = none := by simp [State.entryAt?, hparts, Payload.cellParts?]
      rw [List.find?_cons, List.filterMap_cons_none hnone, hselects]
      exact ih hrest

end PlainMap

-- ---------------------------------------------------------------------------
-- Stores
-- ---------------------------------------------------------------------------

section Puts

variable {found : Option Ref} {sort : State → Ref → Prop} (h : s.Puts map found sort value t) (hmap : s.PlainMap map)
include h hmap

theorem Puts.entryAt?_other (hcell : cell ∈ s.cells map) (hother : found ≠ some cell) :
    t.entryAt? cell = s.entryAt? cell := by
  have hparts := h.cellParts hmap.kind (hmap.cells cell hcell).1
  simp only [if_neg hother] at hparts
  cases hbefore : s.payload cell with
  | cell key old =>
    obtain ⟨label, hentry⟩ := exists_entryAt? hmap.plain hcell hbefore
    have hlabel := h.label?_eq hmap.kind (entryAt?_eq_some.mp hentry).2
    rw [hentry, State.entryAt?, hparts, hbefore]
    exact entryOf?_eq_some.mpr ⟨hlabel, rfl⟩
  | _ =>
    rw [State.entryAt?, State.entryAt?, hparts, hbefore]
    rfl

end Puts

section Stores

variable (h : s.Stores map key value t) (hmap : s.PlainMap map) (hkey : s.label? key = some label)
include h hmap hkey

theorem Stores.plainEntries_replaced {found : Ref} (hfound : s.found? map key = some found) :
    t.plainEntries map = Entry.put (s.plainEntries map) ⟨label, key, value⟩ := by
  have hputs : s.Puts map _ (fun _ _ => True) value t := h.puts trivial
  have hcell : found ∈ s.cells map := List.mem_of_find?_eq_some hfound
  have hselects := List.find?_some hfound
  obtain ⟨stored, old, hbefore, hafter⟩ := h.replaced found hfound
  obtain ⟨other, hentry⟩ := exists_entryAt? hmap.plain hcell hbefore
  have hstored := (entryAt?_eq_some.mp hentry).2
  rw [selectsCell, hbefore] at hselects
  obtain rfl : label = other := by simpa [selects_label hkey hstored] using hselects
  have hhas : ¬ Entry.value? (s.plainEntries map) label = none := by
    rw [← hmap.lookup?_eq hkey]
    simp [lookup?, hfound, cellValue?, hbefore, Payload.cellParts?]
  rw [Entry.put, if_neg hhas, plainEntries_eq, plainEntries_eq, List.map_filterMap,
    hputs.cells_kept hmap.made (by simp [hfound])]
  refine List.filterMap_congr fun cell hmem => ?_
  by_cases hsame : found = cell
  · subst hsame
    have hnow : t.entryAt? found = some ⟨label, stored, value⟩ :=
      entryAt?_eq_some.mpr ⟨hafter, hputs.label?_eq hmap.kind hstored⟩
    simp [hnow, hentry, Entry.override, Entry.value?_cons]
  · rw [hputs.entryAt?_other hmap hmem (by simpa [hfound] using hsame)]
    cases hother : s.entryAt? cell with
    | none => rfl
    | some entry =>
      have hlabel : label ≠ entry.label :=
        fun hlabel => hsame (hmap.cell_unique hcell hmem hentry hother hlabel)
      simp [Entry.override, Entry.value?_cons, hlabel]

theorem Stores.plainEntries_appended (hfound : s.found? map key = none) :
    t.plainEntries map = Entry.put (s.plainEntries map) ⟨label, key, value⟩ := by
  have hputs : s.Puts map _ (fun _ _ => True) value t := h.puts trivial
  obtain ⟨cell, -, hparts, hafter⟩ := h.appended hfound
  have hlist : t.cells map = s.cells map ++ [cell] := by simp only [cells, hafter]
  have hnew : Entry.value? (s.plainEntries map) label = none := by
    rw [← hmap.lookup?_eq hkey]
    simp [lookup?, hfound]
  have hlast : t.entryAt? cell = some ⟨label, key, value⟩ :=
    entryAt?_eq_some.mpr ⟨hparts, hputs.label?_eq hmap.kind hkey⟩
  have hold : (s.cells map).filterMap t.entryAt? = s.plainEntries map := by
    rw [plainEntries_eq]
    exact List.filterMap_congr fun other hother => hputs.entryAt?_other hmap hother (by simp [hfound])
  rw [Entry.put, if_pos hnew, plainEntries_eq, hlist, List.filterMap_append, hold,
    List.filterMap_cons_some hlast, List.filterMap_nil]

theorem Stores.plainEntries : t.plainEntries map = Entry.put (s.plainEntries map) ⟨label, key, value⟩ := by
  cases hfound : s.found? map key with
  | some found => exact h.plainEntries_replaced hmap hkey hfound
  | none => exact h.plainEntries_appended hmap hkey hfound

theorem Stores.plainMap : t.PlainMap map := by
  have hputs : s.Puts map _ (fun _ o => o = key) value t := h.puts rfl
  refine plainMap_iff.mpr ⟨h.madeMap hmap.toMadeMap hkey, ?_, ?_⟩
  · intro other hother
    obtain ⟨cell, hcell, now, hafter⟩ := mem_keys.mp hother
    by_cases hold : cell ∈ s.cells map
    · obtain ⟨old, hbefore⟩ := hputs.cell_before hmap.kind (hmap.cells cell hold).1 hafter
      obtain ⟨_, hentry⟩ := exists_entryAt? hmap.plain hold hbefore
      exact plainKey_of_label? (hputs.label?_eq hmap.kind (entryAt?_eq_some.mp hentry).2)
    · cases hfound : s.found? map key with
      | some found =>
        rw [hputs.cells_kept hmap.made (by simp [hfound])] at hcell
        exact absurd hcell hold
      | none =>
        obtain ⟨new, -, hparts, hlist⟩ := h.appended hfound
        simp only [cells, hlist] at hcell
        obtain rfl := List.mem_singleton.mp ((List.mem_append.mp hcell).resolve_left hold)
        obtain ⟨rfl, -⟩ := Payload.cell.inj (hparts.symm.trans hafter)
        exact plainKey_of_label? (hputs.label?_eq hmap.kind hkey)
  · rw [h.plainEntries hmap hkey]
    exact Entry.nodup_put hmap.nodup

end Stores

-- ---------------------------------------------------------------------------
-- Maps that stay
-- ---------------------------------------------------------------------------

theorem PlainMap.withHeld (h : s.PlainMap map) (held : List (List Ref)) : (s.withHeld held).PlainMap map :=
  ⟨⟨h.kind, h.cells⟩, h.plain, h.unmatched⟩

theorem Like.label?_eq (hlike : s₀.Like s) (hkey : s₀.heap.Contains key) : s.label? key = s₀.label? key := by
  unfold label?
  rw [hlike.kept key hkey, hlike.nameBytes?_eq hkey]

theorem Like.entryOf?_eq (hlike : s₀.Like s) {parts : Ref × Ref} (hkey : s₀.heap.Contains parts.1) :
    s.entryOf? parts = s₀.entryOf? parts := by
  rw [entryOf?, entryOf?, hlike.label?_eq hkey]

variable (hlike : s₀.Like s) (h : s₀.PlainMap map)
include hlike h

theorem Like.entries_eq : s.entries map = s₀.entries map := by
  unfold entries
  rw [hlike.cells_eq h.made]
  exact List.filterMap_congr fun cell hcell => by rw [hlike.kept cell (h.cells cell hcell).1]

theorem Like.plainEntries_eq : s.plainEntries map = s₀.plainEntries map := by
  rw [plainEntries, hlike.entries_eq h]
  refine List.filterMap_congr fun parts hparts => ?_
  exact hlike.entryOf?_eq (contains_of_plainKey (h.plain parts.1 (List.mem_map_of_mem hparts)))

theorem Like.plainMap : s.PlainMap map := by
  have hkeys : s.keys map = s₀.keys map := by rw [keys, hlike.entries_eq h, keys]
  refine plainMap_iff.mpr ⟨h.toMadeMap.like hlike, ?_, ?_⟩
  · rw [hkeys]
    exact fun key hkey => hlike.plainKey (h.plain key hkey)
  · rw [hlike.plainEntries_eq h]
    exact h.nodup

end State

end ObjectModel
