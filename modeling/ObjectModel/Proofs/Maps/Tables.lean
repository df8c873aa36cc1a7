import Mathlib.Data.Finset.Card
import Mathlib.Data.List.Basic
import ObjectModel.Builtin.Globals
import ObjectModel.Proofs.Maps.Histories

/-!
# Raw maps as tables

The cells of a map that was filled by raw stores under names and ints are the table of what was stored: a
row for every key, in the order in which they came first, with the value that came last
(`stored_table`).
-/

namespace ObjectModel

open ObjectModel.Action

-- ---------------------------------------------------------------------------
-- Logs
-- ---------------------------------------------------------------------------

namespace Log

variable {α : Type} {log : List (Label × α)} {label other : Label} {value : α}

/-- The labels of a log, each where it came first. -/
def labels (log : List (Label × α)) : List Label := (log.map (·.1)).eraseDups

def known (log : List (Label × α)) : List (Option Label × α) := log.map fun entry => (some entry.1, entry.2)

def last? (log : List (Label × α)) (label : Label) : Option α := log.reverse.lookup label

/-- The labels in the order in which they came first, with their last values. -/
def table (log : List (Label × α)) : List (Option (Label × α)) :=
  (labels log).map fun label => (last? log label).map (label, ·)

theorem labels_append (log : List (Label × α)) (label : Label) (value : α) :
    labels (log ++ [(label, value)]) =
      if label ∈ labels log then labels log else labels log ++ [label] := by
  simp only [labels, List.map_append, List.map_cons, List.map_nil, List.eraseDups_append,
    List.mem_eraseDups]
  by_cases h : label ∈ log.map (·.1) <;> simp [List.removeAll, List.eraseDups_cons, h]

theorem last?_append (log : List (Label × α)) (label : Label) (value : α) (other : Label) :
    last? (log ++ [(label, value)]) other = if other = label then some value else last? log other := by
  simp only [last?, List.reverse_append, List.reverse_singleton, List.singleton_append, List.lookup_cons]
  by_cases h : other = label
  · simp [h]
  · simp [h, beq_false_of_ne h]

theorem nodup_labels (log : List (Label × α)) : (labels log).Nodup := by
  induction log using List.reverseRecOn with
  | nil => simp [labels]
  | append_singleton log entry ih =>
    rw [labels_append]
    split
    case isTrue => exact ih
    case isFalse h => exact List.nodup_append.mpr ⟨ih, by simp, by simpa using fun _ hl => ne_of_mem_of_not_mem hl h⟩

theorem isSome_last? : (last? log label).isSome ↔ label ∈ labels log := by
  simp [last?, labels, List.lookup_isSome_iff, List.mem_eraseDups]

theorem last?_of_mem (h : label ∈ labels log) : ∃ value, last? log label = some value :=
  Option.isSome_iff_exists.mp (isSome_last?.mpr h)

/-- A label that was there keeps its place, and gets a new value. -/
theorem table_append_old (h : label ∈ labels log) (value : α) : table (log ++ [(label, value)]) =
    (table log).map (Option.map fun row => (row.1, if row.1 = label then value else row.2)) := by
  simp only [table, labels_append, if_pos h, List.map_map]
  refine List.map_congr_left fun other hother => ?_
  obtain ⟨old, hold⟩ := last?_of_mem hother
  rcases eq_or_ne other label with rfl | hsame
  · simp [last?_append, hold]
  · simp [last?_append, hold, hsame]

/-- A label that was not there comes behind the others. -/
theorem table_append_new (h : label ∉ labels log) (value : α) :
    table (log ++ [(label, value)]) = table log ++ [some (label, value)] := by
  simp only [table, labels_append, if_neg h, List.map_append, List.map_cons, List.map_nil, last?_append,
    if_true, Option.map_some]
  refine congrArg (· ++ _) (List.map_congr_left fun other hother => ?_)
  rw [if_neg (ne_of_mem_of_not_mem hother h)]

theorem mem_table {row : Option (Label × α)} : row ∈ table log ↔
    ∃ label value, label ∈ labels log ∧ last? log label = some value ∧ row = some (label, value) := by
  simp only [table, List.mem_map]
  constructor
  · rintro ⟨label, hlabel, rfl⟩
    obtain ⟨value, hvalue⟩ := last?_of_mem hlabel
    exact ⟨label, value, hlabel, hvalue, by rw [hvalue, Option.map_some]⟩
  · rintro ⟨label, value, hlabel, hvalue, rfl⟩
    exact ⟨label, hlabel, by rw [hvalue, Option.map_some]⟩

theorem labels_of_table (log : List (Label × α)) :
    (table log).map (Option.map (·.1)) = (labels log).map some := by
  simp only [table, List.map_map]
  refine List.map_congr_left fun label hlabel => ?_
  obtain ⟨value, hvalue⟩ := last?_of_mem hlabel
  simp [hvalue]

end Log

-- ---------------------------------------------------------------------------
-- Rows
-- ---------------------------------------------------------------------------

namespace State

def row? (s : State) (cell : Ref) : Option (Label × Ref) :=
  match s.payload cell with
  | .cell key value => (s.label? key).map (·, value)
  | _ => none

def labelled? (s : State) (map : Ref) (label : Label) : Option Ref :=
  (s.cells map).find? fun cell => (s.row? cell).any (·.1 = label)

/-- The cells of a map are the table of what was stored. -/
structure Tabulates (s : State) (map : Ref) (log : List (Label × Ref)) : Prop where
  kind : s.kind map = .map
  rows : (s.cells map).map s.row? = Log.table log

variable {s t : State} {map cell key value : Ref} {label other : Label} {log : List (Label × Ref)}

theorem row?_eq_some : s.row? cell = some (label, value) ↔
    ∃ key, s.payload cell = .cell key value ∧ s.label? key = some label := by
  unfold row?
  cases hparts : s.payload cell with
  | cell key other => simp [eq_comm, and_comm]
  | _ => simp

theorem plainKey_of_label? (h : s.label? key = some label) : s.PlainKey key := by
  unfold label? at h
  unfold PlainKey State.kind
  cases hkey : s.payload key with
  | int n => exact .inr rfl
  | _ =>
    rw [hkey] at h
    obtain ⟨name, hname, -⟩ := Option.map_eq_some_iff.mp h
    exact .inl (by simp [hname])

theorem label?_eq_name : s.label? key = some (.name bytes) ↔ s.nameBytes? key = some bytes := by
  unfold label?
  cases hkey : s.payload key with
  | int n => simp [State.nameBytes?, hkey]
  | _ => simp

theorem label?_eq_number : s.label? key = some (.number n) ↔ s.payload key = .int n := by
  unfold label?
  cases s.payload key with
  | int m => simp
  | _ => simp

theorem selects_label (hprobe : s.label? probe = some label) (hkey : s.label? key = some other) :
    s.selects probe key = decide (label = other) := by
  cases label with
  | name bytes =>
    have hname := label?_eq_name.mp hprobe
    cases other with
    | name others => simp [selects, hname, label?_eq_name.mp hkey, beq_eq_decide]
    | number n =>
      have hint := label?_eq_number.mp hkey
      have hleaf : s.Leaf probe key := by
        constructor <;> simp [State.kind, hint, Payload.kind]
      have hdiffer : ¬ s.Coincide probe key := by
        unfold State.nameBytes? at hname
        cases hp : s.payload probe <;> simp [hp] at hname <;> simp [Coincide, hp, hint]
      have hnone : s.nameBytes? key = none := by simp [State.nameBytes?, hint]
      simp [selects, hname, hnone, sign_leafOrder_eq_zero hleaf, hdiffer]
  | number n =>
    have hint := label?_eq_number.mp hprobe
    have hcoincide : s.Coincide probe key ↔ other = .number n := by
      rw [← Option.some_inj, ← hkey, label?_eq_number]
      cases hk : s.payload key <;> simp [Coincide, hint, hk, eq_comm]
    have hleaf : s.Leaf probe key := by
      constructor <;> simp [State.kind, hint, Payload.kind]
    have hnone : s.nameBytes? probe = none := by simp [State.nameBytes?, hint]
    simp [selects, hnone, sign_leafOrder_eq_zero hleaf, hcoincide, eq_comm]

theorem isNamed_label (name : String) :
    s.isNamed key name = decide (s.label? key = some (.name (Bytes.ofText name))) := by
  rw [Bool.eq_iff_iff, isNamed_iff, decide_eq_true_iff, label?_eq_name]

theorem Tabulates.row (h : s.Tabulates map log) (hcell : cell ∈ s.cells map) : ∃ label value,
    label ∈ Log.labels log ∧ Log.last? log label = some value ∧ s.row? cell = some (label, value) := by
  refine Log.mem_table.mp ?_
  rw [← h.rows]
  exact List.mem_map_of_mem hcell

theorem Tabulates.exists_cell (h : s.Tabulates map log) (hlast : Log.last? log label = some value) :
    ∃ cell ∈ s.cells map, s.row? cell = some (label, value) := by
  have hlabel : label ∈ Log.labels log := Log.isSome_last?.mp (by simp [hlast])
  refine List.mem_map.mp ?_
  rw [h.rows]
  exact Log.mem_table.mpr ⟨label, value, hlabel, hlast, rfl⟩

theorem Tabulates.cell_unique (h : s.Tabulates map log) (hcell : cell ∈ s.cells map)
    (hother : o ∈ s.cells map) (hrow : s.row? cell = some (label, value))
    (hrow' : s.row? o = some (label, old)) : cell = o := by
  have hnodup : ((s.cells map).map fun cell => (s.row? cell).map (·.1)).Nodup := by
    have hlabels := Log.labels_of_table log
    rw [← h.rows, List.map_map] at hlabels
    show ((s.cells map).map (Option.map (·.1) ∘ s.row?)).Nodup
    rw [hlabels]
    exact (Log.nodup_labels log).map (Option.some_injective _)
  exact List.inj_on_of_nodup_map hnodup hcell hother (by simp [hrow, hrow'])

theorem Tabulates.madeCells (h : s.Tabulates map log) : ∀ cell ∈ s.cells map, s.MadeCell cell := by
  intro cell hcell
  obtain ⟨label, value, -, -, hrow⟩ := h.row hcell
  obtain ⟨key, hparts, hlabel⟩ := row?_eq_some.mp hrow
  constructor
  · exact contains_of_kind_ne (by simp [kind_of_payload hparts, Payload.kind])
  · intro k v hparts'
    obtain ⟨rfl, rfl⟩ := Payload.cell.inj (hparts.symm.trans hparts')
    exact contains_of_plainKey (plainKey_of_label? hlabel)

theorem Tabulates.found?_eq (h : s.Tabulates map log) (hkey : s.label? key = some label) :
    s.found? map key = s.labelled? map label := by
  refine List.find?_congr fun cell hcell => ?_
  obtain ⟨other, value, -, -, hrow⟩ := h.row hcell
  obtain ⟨stored, hparts, hstored⟩ := row?_eq_some.mp hrow
  simp [selectsCell, hparts, selects_label hkey hstored, hrow, eq_comm]

theorem findNamed?_eq (s : State) (map : Ref) (name : String) :
    s.findNamed? map name = s.labelled? map (.name (Bytes.ofText name)) := by
  refine List.find?_congr fun cell _ => ?_
  simp only [cellIsNamed, row?]
  cases s.payload cell with
  | cell key value =>
    show s.isNamed key name = _
    rw [isNamed_label]
    cases hkey : s.label? key <;> simp [hkey]
  | _ => rfl

theorem row_of_labelled? (h : s.labelled? map label = some cell) :
    cell ∈ s.cells map ∧ ∃ value, s.row? cell = some (label, value) := by
  refine ⟨List.mem_of_find?_eq_some h, ?_⟩
  have hlabel := List.find?_some h
  cases hrow : s.row? cell with
  | none => simp [hrow] at hlabel
  | some row =>
    obtain ⟨other, value⟩ := row
    obtain rfl : other = label := by simpa [hrow] using hlabel
    exact ⟨value, rfl⟩

theorem Tabulates.labelled?_eq_none (h : s.Tabulates map log) (hnone : s.labelled? map label = none) :
    Log.last? log label = none := by
  cases hlast : Log.last? log label with
  | none => rfl
  | some value =>
    obtain ⟨cell, hcell, hrow⟩ := h.exists_cell hlast
    simpa [hrow] using List.find?_eq_none.mp hnone cell hcell

theorem Tabulates.value_eq (h : s.Tabulates map log) (label : Label) :
    (s.labelled? map label).bind s.cellValue? = Log.last? log label := by
  cases hfound : s.labelled? map label with
  | none => exact (h.labelled?_eq_none hfound).symm
  | some cell =>
    obtain ⟨hcell, value, hrow⟩ := row_of_labelled? hfound
    obtain ⟨other, last, -, hlast, hrow'⟩ := h.row hcell
    obtain ⟨rfl, rfl⟩ := Prod.mk.inj (Option.some.inj (hrow.symm.trans hrow'))
    obtain ⟨key, hparts, -⟩ := row?_eq_some.mp hrow
    simp [cellValue?, hparts, Payload.cellParts?, hlast]

section Puts

variable {found : Option Ref} {sort : State → Ref → Prop}

theorem Puts.label?_eq (h : s.Puts map found sort value t) (hmap : s.kind map = .map)
    (hkey : s.label? key = some label) : t.label? key = some label := by
  have hmemory : t.memory = s.memory := by rw [h.rest]
  have hsame := h.kept_plain hmap (plainKey_of_label? hkey)
  rw [← hkey]
  simp only [label?, State.nameBytes?, hsame, hmemory]

theorem Puts.row?_other (h : s.Puts map found sort value t) (hmap : s.kind map = .map)
    (hrow : s.row? cell = some (label, old)) (hcell : found ≠ some cell) :
    t.row? cell = some (label, old) := by
  obtain ⟨key, hparts, hkey⟩ := row?_eq_some.mp hrow
  have hkind : s.kind cell = .cell := kind_of_payload hparts
  have hne : cell ≠ found.getD map := by
    rintro rfl
    cases found with
    | none => simp [hmap] at hkind
    | some found => exact hcell rfl
  have hin : s.heap.Contains cell := contains_of_kind_ne (by simp [hkind])
  exact row?_eq_some.mpr ⟨key, (h.kept cell hin hne).trans hparts, h.label?_eq hmap hkey⟩

end Puts

theorem Tabulates.replaced {found : Ref} (h : s.Tabulates map log)
    (hfound : s.labelled? map label = some found)
    (hputs : s.Puts map (some found) (fun u key => u.label? key = some label) value t) :
    t.Tabulates map (log ++ [(label, value)]) := by
  have hin : s.heap.Contains map := contains_of_kind_ne (by simp [h.kind])
  obtain ⟨hcell, old, hrow⟩ := row_of_labelled? hfound
  obtain ⟨key, hparts, hkey⟩ := row?_eq_some.mp hrow
  have hmap : map ≠ found := by
    rintro rfl
    cases h.kind.symm.trans (kind_of_payload hparts)
  have hsame : t.payload map = s.payload map := hputs.kept map hin hmap
  have hcells : t.cells map = s.cells map := by simp only [cells, hsame]
  have hlabel : label ∈ Log.labels log := by
    obtain ⟨_, _, hmem, -, hother⟩ := h.row hcell
    obtain ⟨rfl, rfl⟩ := Prod.mk.inj (Option.some.inj (hrow.symm.trans hother))
    exact hmem
  have hnow : t.row? found = some (label, value) := by
    obtain ⟨stored, _, hstored, hafter⟩ := hputs.replaced found rfl
    obtain ⟨rfl, rfl⟩ := Payload.cell.inj (hparts.symm.trans hstored)
    exact row?_eq_some.mpr ⟨key, hafter, hputs.label?_eq h.kind hkey⟩
  refine ⟨(congrArg Payload.kind hsame).trans h.kind, ?_⟩
  rw [hcells, Log.table_append_old hlabel, ← h.rows, List.map_map]
  refine List.map_congr_left fun cell hmem => ?_
  obtain ⟨other, last, -, -, hother⟩ := h.row hmem
  by_cases hsame : cell = found
  · simp [hsame, hnow, hrow]
  · have hdiffer : other ≠ label := by
      rintro rfl
      exact hsame (h.cell_unique hmem hcell hother hrow)
    have hafter := hputs.row?_other h.kind hother (by simpa using Ne.symm hsame)
    simp [hafter, hother, hdiffer]

theorem Tabulates.appended (h : s.Tabulates map log) (hnone : s.labelled? map label = none)
    (hputs : s.Puts map none (fun u key => u.label? key = some label) value t) :
    t.Tabulates map (log ++ [(label, value)]) := by
  obtain ⟨cell, key, -, hparts, hkey, hcells⟩ := hputs.appended rfl
  have hlabel : label ∉ Log.labels log := by
    rw [← Log.isSome_last?, h.labelled?_eq_none hnone]
    simp
  have hlist : t.cells map = s.cells map ++ [cell] := by simp only [cells, hcells]
  refine ⟨by rw [kind_of_payload hcells, Payload.kind], ?_⟩
  rw [hlist, Log.table_append_new hlabel, ← h.rows, List.map_append, List.map_singleton,
    row?_eq_some.mpr ⟨key, hparts, hkey⟩]
  refine congrArg (· ++ _) (List.map_congr_left fun other hother => ?_)
  obtain ⟨_, _, -, -, hrow⟩ := h.row hother
  exact (hputs.row?_other h.kind hrow (by simp)).trans hrow.symm

/-- A store makes the table that of the longer log. -/
theorem Tabulates.puts (h : s.Tabulates map log)
    (hputs : s.Puts map (s.labelled? map label) (fun u key => u.label? key = some label) value t) :
    t.Tabulates map (log ++ [(label, value)]) := by
  cases hfound : s.labelled? map label with
  | some cell =>
    rw [hfound] at hputs
    exact h.replaced hfound hputs
  | none =>
    rw [hfound] at hputs
    exact h.appended hfound hputs

theorem Tabulates.undisturbed (h : s.Tabulates map log) (hkept : s.Undisturbed t map) :
    t.Tabulates map log where
  kind := (congrArg Payload.kind hkept.kept).trans h.kind
  rows := by
    rw [hkept.cells_eq, ← h.rows]
    refine List.map_congr_left fun cell hcell => ?_
    obtain ⟨label, value, -, -, hrow⟩ := h.row hcell
    obtain ⟨key, hparts, hkey⟩ := row?_eq_some.mp hrow
    rw [hrow, row?_eq_some]
    refine ⟨key, (hkept.cells cell hcell).trans hparts, ?_⟩
    exact (hkept.keys key (mem_keys.mpr ⟨cell, hcell, value, hparts⟩)).label?.trans hkey

end State

-- ---------------------------------------------------------------------------
-- Stores and lookups
-- ---------------------------------------------------------------------------

variable {s : State} {map key : Ref} {label : Label} {log : List (Label × Ref)}

theorem Map.ends_set_label (host : Host) (rounds : Nat) (h : s.Tabulates map log)
    (hkey : s.label? key = some label) (value : Ref) :
    (Map.set (machine host (rounds + 2)).toDispatcher map key value).Ends s
      (fun _ t => s.Puts map (s.labelled? map label) (fun u key => u.label? key = some label) value t)
      fun _ => False := by
  have hplain := State.plainKey_of_label? hkey
  refine (Map.ends_set host rounds h.madeCells h.kind hplain value).imp_value ?_
  intro _ t hstores
  have hputs : s.Puts map _ (fun _ _ => True) value t := hstores.puts trivial
  rw [← h.found?_eq hkey]
  exact hstores.puts (hputs.label?_eq h.kind hkey)

theorem State.Tabulates.length_cells (h : s.Tabulates map log) :
    (s.cells map).length = (log.map (·.1)).toFinset.card := by
  have hrows : (s.cells map).length = (Log.labels log).length := by
    rw [← List.length_map s.row?, h.rows, Log.table, List.length_map]
  have hlabels : (Log.labels log).toFinset = (log.map (·.1)).toFinset := by
    ext label
    simp [Log.labels, List.mem_eraseDups]
  rw [hrows, ← List.toFinset_card_of_nodup (Log.nodup_labels log), hlabels]

theorem State.Tabulates.ends_get? (h : s.Tabulates map log) (host : Host) (rounds : Nat)
    (hkey : s.label? key = some label) :
    (Map.get? (machine host (rounds + 2)).toDispatcher map key).Ends s
      (fun found t => found = Log.last? log label ∧ s.Grown t s.shown) fun _ => False := by
  have hin : s.heap.Contains map := State.contains_of_kind_ne (by simp [h.kind])
  have hplain := State.plainKey_of_label? hkey
  have hvalue : s.lookup? map key = Log.last? log label := by
    rw [State.lookup?, h.found?_eq hkey, h.value_eq]
  rw [← hvalue]
  exact Map.ends_get? host rounds h.madeCells hin hplain (.refl s)

theorem RawStore.ends_run (host : Host) (rounds : Nat) (h : s.Tabulates map log) {store : RawStore}
    (hlabel : store.label? s = some label) : (store.run (machine host (rounds + 2)) map).Ends s
      (fun _ t => s.Puts map (s.labelled? map label) (fun u key => u.label? key = some label)
        store.value t) fun _ => False := by
  cases store with
  | byKey key value => exact Map.ends_set_label host rounds h hlabel value
  | byName name value =>
    obtain rfl := Option.some.inj hlabel
    refine (Map.ends_setNamed h.kind name value).imp_value ?_
    intro _ t hputs
    rw [← State.findNamed?_eq]
    exact hputs.imp fun key hkey => by simp [State.label?, State.nameBytes?, hkey]
  | byCall key value =>
    simp only [RawStore.run, Prelude.rawSet, Prelude.mapArgument, ends_discard, ends_bind,
      ends_argument_first, ends_argument_second, ends_argument_third, ends_kind, h.kind]
    exact (Map.ends_set_label host rounds h hlabel value)

theorem Stored.tabulates {host : Host} {entries : List (Option Label × Ref)}
    (h : Stored host map entries s) (hlog : entries = Log.known log) : s.Tabulates map log := by
  unfold Log.known at hlog
  -- The labels are known of the whole history, and so of every part of it that came before.
  induction h generalizing log with
  | empty h =>
    obtain rfl := List.map_eq_nil_iff.mp hlog.symm
    exact ⟨State.kind_of_payload h, by simp [State.cells, h]; rfl⟩
  | @store entries s t rounds store _ _ hrun ih =>
    obtain ⟨before, last, rfl, rfl, hlast⟩ := List.map_eq_append_iff.mp hlog.symm
    obtain ⟨⟨label, value⟩, rfl, hentry⟩ := List.map_eq_singleton_iff.mp hlast
    obtain ⟨hlabel, rfl⟩ := Prod.mk.inj hentry
    have hbefore := ih rfl
    exact hbefore.puts ((ends_of_run hrun).mp (RawStore.ends_run host rounds hbefore hlabel.symm))
  | meanwhile _ hkept ih => exact (ih hlog).undisturbed hkept

/-- The cells of a map that was filled by raw stores under names and ints are the table of the log. A lookup
of whatever has the label of a key gives the last value stored there, and nothing where none was stored.
Neither lookups nor further stores raise. -/
theorem stored_table {host : Host} (h : Stored host map (Log.known log) s) :
    (s.cells map).map s.row? = Log.table log ∧
    (s.cells map).length = (log.map (·.1)).toFinset.card ∧
    (∀ name, s.named? map name = Log.last? log (.name (Bytes.ofText name))) ∧
    (∀ rounds key label, s.label? key = some label →
      (Map.get? (machine host (rounds + 2)).toDispatcher map key).Ends s
        (fun found t => found = Log.last? log label ∧ s.Grown t s.shown) (fun _ => False) ∧
      (Prelude.rawGet (machine host (rounds + 2)) [map, key]).Ends s
        (fun found t => found = (Log.last? log label).getD s.nothing ∧ s.Grown t s.shown)
        fun _ => False) ∧
    ∀ rounds label, ∀ store : RawStore, store.label? s = some label → store.Readable s →
      (store.run (machine host (rounds + 2)) map).Ends s
        (fun _ t => Stored host map (Log.known (log ++ [(label, store.value)])) t) fun _ => False := by
  have htable := h.tabulates rfl
  refine ⟨htable.rows, htable.length_cells, ?_, ?_, ?_⟩
  · intro name
    rw [State.named?, State.findNamed?_eq, htable.value_eq]
  · intro rounds key label hkey
    have hget := htable.ends_get? host rounds hkey
    refine ⟨hget, ?_⟩
    simp only [Prelude.rawGet, Prelude.mapArgument, ends_bind, ends_argument_first,
      ends_argument_second, ends_kind, htable.kind]
    refine hget.imp_value ?_
    rintro _ t ⟨rfl, hgrown⟩
    cases Log.last? log label with
    | none => exact ⟨hgrown.keeps.nothing, hgrown⟩
    | some value => exact ⟨rfl, hgrown⟩
  · intro rounds label store hlabel hreadable
    obtain ⟨_, t, hrun, -⟩ := (RawStore.ends_run host rounds htable hlabel).exists_run
    rw [ends_of_run hrun]
    have hnext := h.store hreadable hrun
    rw [hlabel] at hnext
    simpa [Log.known] using hnext

/-- A value is stored under a buffer of two bytes, and others under the name that it shows and another. -/
theorem stored_table_names :
    ∃ t, Stored {} ⟨3⟩ (Log.known [(.name [97], ⟨5⟩), (.name [97], ⟨6⟩), (.name [98], ⟨5⟩)]) t ∧
      (t.cells ⟨3⟩).length = 2 ∧ t.named? ⟨3⟩ "a" = some ⟨6⟩ := by
  let s := { Globals.bare {} .discard {} with
    memory := (Memory.empty.allocate [97, 0]).2
    heap := ⟨#[.singlet "None", .map [], .map [], .map [], .buffer { view := .sized (Memory.base 0) 2 },
      .int 1, .int 2]⟩ }
  have hempty : Stored {} ⟨3⟩ (Log.known []) s := .empty rfl
  have hlabel : s.label? ⟨4⟩ = some (.name [97]) := by decide +kernel
  have hreadable : s.Readable ⟨4⟩ := by
    refine State.readable_of_single (by decide) (by decide) ?_
    rintro _ ⟨⟩
    show (Memory.base 0).toNat < _
    decide +kernel
  obtain ⟨-, -, -, -, hstore⟩ := stored_table hempty
  obtain ⟨_, s₁, -, h₁⟩ := (hstore 0 _ (.byKey ⟨4⟩ ⟨5⟩) hlabel hreadable).exists_run
  obtain ⟨-, -, -, -, hstore⟩ := stored_table h₁
  obtain ⟨_, s₂, -, h₂⟩ := (hstore 0 _ (.byName "a" ⟨6⟩) rfl trivial).exists_run
  obtain ⟨-, -, -, -, hstore⟩ := stored_table h₂
  obtain ⟨_, s₃, -, h₃⟩ := (hstore 0 _ (.byName "b" ⟨5⟩) rfl trivial).exists_run
  obtain ⟨-, hlength, hnamed, -⟩ := stored_table h₃
  refine ⟨s₃, h₃, ?_, ?_⟩
  · rw [hlength]
    decide
  · rw [hnamed]
    decide

end ObjectModel
