import ObjectModel.Proofs.Comparison.Order
import ObjectModel.Proofs.Rendering.Graphs

/-!
# Lookups of names and ints

A name or an int is looked up in a map without asking any object that could raise or change something:
`ends_get?` and `ends_set` say what is found and what is stored by looking at the state alone.
-/

namespace ObjectModel

open ObjectModel.Action

instance (heap : Heap) (o : Ref) : Decidable (heap.Contains o) :=
  inferInstanceAs (Decidable (o.index < heap.size))

-- ---------------------------------------------------------------------------
-- What is found in a state
-- ---------------------------------------------------------------------------

namespace State

/-- Objects name no object that was not made. Programs get their references from the objects that they
make, and so get to no other states. -/
def Closed (s : State) : Prop :=
  ∀ payload ∈ s.heap.payloads, ∀ o ∈ payload.references, s.heap.Contains o

instance (s : State) : Decidable s.Closed :=
  inferInstanceAs (Decidable (∀ payload ∈ s.heap.payloads, ∀ o ∈ payload.references, s.heap.Contains o))

def MadeCell (s : State) (cell : Ref) : Prop :=
  s.heap.Contains cell ∧ ∀ key value, s.payload cell = .cell key value → s.heap.Contains key

/-- A key that is a name or an int. -/
def PlainKey (s : State) (key : Ref) : Prop := (s.nameBytes? key).isSome ∨ s.kind key = .int

instance (s : State) (key : Ref) : Decidable (s.PlainKey key) :=
  inferInstanceAs (Decidable ((s.nameBytes? key).isSome ∨ s.kind key = .int))

/-- Whether a probe matches a key: names by their bytes, and what is no name by its order. -/
def selects (s : State) (probe key : Ref) : Bool :=
  match s.nameBytes? probe, s.nameBytes? key with
  | some name, some other => name == other
  | _, _ => Integer.sign (s.leafOrder probe key) = 0

def selectsCell (s : State) (probe cell : Ref) : Bool :=
  match s.payload cell with
  | .cell key _ => s.selects probe key
  | _ => false

def found? (s : State) (map key : Ref) : Option Ref := (s.cells map).find? (s.selectsCell key)

def lookup? (s : State) (map key : Ref) : Option Ref := (s.found? map key).bind s.cellValue?

def hook? (s : State) (map : Ref) (name : String) : Option Ref :=
  (s.named? map name).filter (· ≠ s.nothing)

variable {s s₀ : State} {o map cell key value probe : Ref}

theorem Closed.of_heap {s₀ s : State} (h : s₀.Closed) (hheap : s.heap = s₀.heap) : s.Closed := by
  unfold Closed
  rwa [hheap]

theorem Closed.made_of_mem (h : s.Closed) (ho : o ∈ (s.payload p).references) : s.heap.Contains o := by
  unfold payload Heap.get at ho
  rw [Array.getD_eq_getD_getElem?] at ho
  cases hp : s.heap.payloads[p.index]? with
  | none => simp [hp, Payload.references] at ho
  | some payload => exact h payload (Array.mem_of_getElem? hp) o (by simpa [hp] using ho)

theorem Closed.made_cell (h : s.Closed) (hcell : cell ∈ s.cells map) : s.heap.Contains cell := by
  unfold cells at hcell
  cases hmap : s.payload map with
  | map cells => exact h.made_of_mem (p := map) (by simpa [hmap, Payload.references] using hcell)
  | _ => simp [hmap] at hcell

theorem Closed.made_key (h : s.Closed) (hcell : s.payload cell = .cell key value) :
    s.heap.Contains key := h.made_of_mem (p := cell) (by simp [hcell, Payload.references])

theorem Closed.made_value (h : s.Closed) (hcell : s.payload cell = .cell key value) :
    s.heap.Contains value := h.made_of_mem (p := cell) (by simp [hcell, Payload.references])

theorem Closed.madeCells (h : s.Closed) (map : Ref) : ∀ cell ∈ s.cells map, s.MadeCell cell :=
  fun _ hcell => ⟨h.made_cell hcell, fun _ _ hparts => h.made_key hparts⟩

theorem contains_of_plainKey (h : s.PlainKey key) : s.heap.Contains key := by
  refine contains_of_kind_ne fun hkind => ?_
  unfold PlainKey nameBytes? at h
  unfold kind at h hkind
  cases hkey : s.payload key <;> simp [hkey, Payload.kind] at h hkind

/-- A plain key and a key with which it is not compared by name are a leaf. -/
theorem PlainKey.leaf (h : s.PlainKey probe)
    (hnames : ∀ name other, s.nameBytes? probe = some name → s.nameBytes? key = some other → False) :
    s.Leaf probe key := by
  unfold PlainKey at h
  refine ⟨fun ⟨hlist, _⟩ => ?_, fun ⟨hbuffer, hstring⟩ => ?_⟩
  · unfold kind at h hlist
    cases hprobe : s.payload probe <;> simp [hprobe, nameBytes?, Payload.kind] at h hlist
  · have hsome : (s.nameBytes? key).isSome := by
      unfold kind at hstring
      cases hkey : s.payload key <;> simp [hkey, nameBytes?, Payload.kind] at hstring ⊢
    rcases h with hname | hint
    · obtain ⟨name, hname⟩ := Option.isSome_iff_exists.mp hname
      obtain ⟨other, hother⟩ := Option.isSome_iff_exists.mp hsome
      exact hnames name other hname hother
    · rw [hbuffer] at hint
      cases hint

/-- One value was stored in a map. Under a key that the map has, it is the new value of that cell; under
any other key, of a new cell behind the others. Objects were made, and all else is as it was. -/
structure Stores (s : State) (map key value : Ref) (t : State) : Prop where
  rest : t = { s with heap := t.heap }
  size : s.heap.size ≤ t.heap.size
  kept : ∀ o, s.heap.Contains o → o ≠ (s.found? map key).getD map → t.payload o = s.payload o
  replaced : ∀ cell, s.found? map key = some cell →
    ∃ stored old, s.payload cell = .cell stored old ∧ t.payload cell = .cell stored value
  appended : s.found? map key = none → ∃ cell, ¬ s.heap.Contains cell ∧
    t.payload cell = .cell key value ∧ t.payload map = .map (s.cells map ++ [cell])

theorem Stores.unheld {held : List (List Ref)} (h : (s.withHeld held).Stores map key value t) :
    s.Stores map key value (t.withHeld s.held) where
  rest := by rw [h.rest]; rfl
  size := h.size
  kept := h.kept
  replaced := h.replaced
  appended := h.appended

theorem Stores.undelegated (h : s.deeper.Stores map key value t) :
    s.Stores map key value t.shallower where
  rest := by
    have hdelegations : t.delegations = s.delegations + 1 := by rw [h.rest]; rfl
    unfold shallower
    rw [hdelegations]
    exact congrArg (fun u => { u with delegations := s.delegations }) h.rest
  size := h.size
  kept := h.kept
  replaced := h.replaced
  appended := h.appended

section Like

variable (hclosed : s₀.Closed) (hlike : s₀.Like s)
include hlike

theorem Like.withHeld (held : List (List Ref)) : s₀.Like (s.withHeld held) := hlike.held held

theorem Like.deeper : s₀.Like s.deeper := ⟨hlike.memory, hlike.nothing, hlike.kept, hlike.size⟩

theorem Like.nameBytes?_eq (ho : s₀.heap.Contains o) : s.nameBytes? o = s₀.nameBytes? o := by
  simp [State.nameBytes?, hlike.kept o ho, hlike.memory]

theorem Like.kind_eq (ho : s₀.heap.Contains o) : s.kind o = s₀.kind o := by
  simp [State.kind, hlike.kept o ho]

theorem Like.cells_eq (ho : s₀.heap.Contains o) : s.cells o = s₀.cells o := by
  simp [State.cells, hlike.kept o ho]

theorem Like.cellValue?_eq (ho : s₀.heap.Contains o) : s.cellValue? o = s₀.cellValue? o := by
  simp [State.cellValue?, hlike.kept o ho]

theorem Like.plainKey (h : s₀.PlainKey key) : s.PlainKey key := by
  have hkey := contains_of_plainKey h
  unfold PlainKey
  rwa [hlike.nameBytes?_eq hkey, hlike.kind_eq hkey]

theorem Like.leafOrder_eq (hleft : s₀.heap.Contains probe) (hright : s₀.heap.Contains key) :
    s.leafOrder probe key = s₀.leafOrder probe key := by
  unfold State.leafOrder
  rw [hlike.kept probe hleft, hlike.kept key hright, hlike.memory]

theorem Like.selects_eq (hprobe : s₀.heap.Contains probe) (hkey : s₀.heap.Contains key) :
    s.selects probe key = s₀.selects probe key := by
  unfold State.selects
  rw [hlike.nameBytes?_eq hprobe, hlike.nameBytes?_eq hkey, hlike.leafOrder_eq hprobe hkey]

theorem Like.selectsCell_eq (hprobe : s₀.heap.Contains probe) (hcell : s₀.MadeCell cell) :
    s.selectsCell probe cell = s₀.selectsCell probe cell := by
  unfold State.selectsCell
  rw [hlike.kept cell hcell.1]
  cases hparts : s₀.payload cell with
  | cell key value => exact hlike.selects_eq hprobe (hcell.2 key value hparts)
  | _ => rfl

theorem Like.cellIsNamed_eq (hcell : s₀.MadeCell cell) (name : String) :
    s.cellIsNamed name cell = s₀.cellIsNamed name cell := by
  unfold State.cellIsNamed
  rw [hlike.kept cell hcell.1]
  cases hparts : s₀.payload cell with
  | cell key value => simp [State.isNamed, hlike.kept key (hcell.2 key value hparts), hlike.memory]
  | _ => rfl

theorem Like.findNamed?_eq (hmap : s₀.heap.Contains map)
    (hcells : ∀ cell ∈ s₀.cells map, s₀.MadeCell cell) (name : String) :
    s.findNamed? map name = s₀.findNamed? map name := by
  unfold State.findNamed?
  rw [hlike.cells_eq hmap]
  exact List.find?_congr fun cell hcell => hlike.cellIsNamed_eq (hcells cell hcell) name

theorem Like.named?_eq (hmap : s₀.heap.Contains map) (hcells : ∀ cell ∈ s₀.cells map, s₀.MadeCell cell)
    (name : String) : s.named? map name = s₀.named? map name := by
  unfold State.named?
  rw [hlike.findNamed?_eq hmap hcells]
  cases hfound : s₀.findNamed? map name with
  | none => rfl
  | some cell =>
    have hcell := hcells cell (List.mem_of_find?_eq_some hfound)
    simp [hlike.cellValue?_eq hcell.1]

include hclosed in
theorem Like.hook?_eq (hmap : s₀.heap.Contains map) (name : String) :
    s.hook? map name = s₀.hook? map name := by
  unfold State.hook?
  rw [hlike.named?_eq hmap (hclosed.madeCells map), hlike.nothing]

end Like

theorem Closed.made_hook (h : s.Closed) (hhook : s.hook? map name = some hook) :
    s.heap.Contains hook := by
  unfold hook? named? at hhook
  obtain ⟨hvalue, -⟩ := Option.filter_eq_some_iff.mp hhook
  obtain ⟨cell, -, hvalue⟩ := Option.bind_eq_some_iff.mp hvalue
  unfold cellValue? at hvalue
  cases hcell : s.payload cell with
  | cell key value =>
    simp only [hcell, Payload.cellParts?, Option.map_some, Option.some.injEq] at hvalue
    exact hvalue ▸ h.made_value hcell
  | _ => simp [hcell, Payload.cellParts?] at hvalue

end State

-- ---------------------------------------------------------------------------
-- What lookups find and stores change
-- ---------------------------------------------------------------------------

namespace Map

open State

variable {s s₀ : State} {map key value probe : Ref}

@[simp] theorem ends_getNamed? (map : Ref) (name : String) {Q : Option Ref → State → Prop}
    {E : State → Prop} : (getNamed? map name).Ends s Q E ↔ Q (s.named? map name) s := .rfl

@[simp] theorem ends_hook? (map : Ref) (name : String) {Q : Option Ref → State → Prop}
    {E : State → Prop} : (Map.hook? map name).Ends s Q E ↔ Q (s.hook? map name) s := by
  simp only [Map.hook?, State.hook?, ends_bind, ends_getNamed?]
  cases s.named? map name with
  | none => rfl
  | some value => by_cases h : value = s.nothing <;> simp [h, Option.filter]

theorem ends_keyMatches (host : Host) (rounds : Nat) (h : s.PlainKey probe) (key : Ref) :
    (keyMatches (machine host (rounds + 2)).toDispatcher probe (s.nameBytes? probe) key).Ends s
      (fun matched t => matched = s.selects probe key ∧ s.Grown t s.shown) fun _ => False := by
  have hcompare (hnames : ∀ name other, s.nameBytes? probe = some name →
      s.nameBytes? key = some other → False) :
      (do return (← (machine host (rounds + 2)).compare probe key) = 0 : Action Bool).Ends s
        (fun matched t => matched = decide (Integer.sign (s.leafOrder probe key) = 0) ∧
          s.Grown t s.shown) fun _ => False := by
    simp only [ends_bind, ends_pure]
    refine (ends_compare_leaf host rounds (h.leaf hnames)).imp_value ?_
    rintro _ t ⟨rfl, hgrown⟩
    exact ⟨rfl, hgrown⟩
  unfold keyMatches selects
  simp only [ends_bind, ends_nameBytes?]
  cases hprobe : s.nameBytes? probe with
  | none => exact hcompare (by simp [hprobe])
  | some name =>
    cases hkey : s.nameBytes? key with
    | none => exact hcompare (by simp [hkey])
    | some other => exact ⟨rfl, .refl s⟩

theorem mem_of_firstMatch {run : Dispatcher} {name : Option Bytes} {cells : List Ref} {t : State}
    {found : Ref} (hrun : (firstMatch run key name cells).run s = .ok (some found) t) :
    found ∈ cells := by
  induction cells generalizing s with
  | nil => cases hrun
  | cons cell rest ih =>
    unfold firstMatch at hrun
    obtain ⟨payload, s, hread, hrun⟩ := exists_run_of_bind hrun
    cases hread
    split at hrun
    · exact List.mem_cons_of_mem _ (ih hrun)
    · obtain ⟨matched, v, -, hrun⟩ := exists_run_of_bind hrun
      split at hrun
      · cases hrun
        exact List.mem_cons_self
      · exact List.mem_cons_of_mem _ (ih hrun)

theorem ends_firstMatch (host : Host) (rounds : Nat) (hkey : s₀.PlainKey probe)
    {cells : List Ref} (hcells : ∀ cell ∈ cells, s₀.MadeCell cell) (hlike : s₀.Like s) :
    (firstMatch (machine host (rounds + 2)).toDispatcher probe (s₀.nameBytes? probe) cells).Ends s
      (fun found t => found = cells.find? (s₀.selectsCell probe) ∧ s.Grown t s.shown)
      fun _ => False := by
  have hprobe := contains_of_plainKey hkey
  induction cells generalizing s with
  | nil => exact ⟨rfl, .refl s⟩
  | cons cell rest ih =>
    have hcell := hcells cell List.mem_cons_self
    have hrest (t : State) (hlike : s₀.Like t) := ih (fun c hc => hcells c (List.mem_cons_of_mem _ hc)) hlike
    unfold firstMatch
    simp only [ends_bind, ends_payload, hlike.kept cell hcell.1]
    cases hparts : s₀.payload cell with
    | cell key value =>
      have hselects : s.selects probe key = s₀.selectsCell probe cell := by
        rw [← hlike.selectsCell_eq hprobe hcell]
        simp [selectsCell, hlike.kept cell hcell.1, hparts]
      simp only [Payload.cellParts?, ends_bind]
      rw [← hlike.nameBytes?_eq hprobe]
      refine (ends_keyMatches host rounds (hlike.plainKey hkey) key).imp_value ?_
      rintro _ t ⟨rfl, hgrown⟩
      rw [hselects, List.find?_cons, hlike.nameBytes?_eq hprobe]
      cases s₀.selectsCell probe cell with
      | true => exact ⟨rfl, hgrown⟩
      | false =>
        refine (hrest t (hlike.grown hgrown)).imp_value ?_
        rintro _ u ⟨rfl, hrestGrown⟩
        exact ⟨rfl, hgrown.thenGrown hrestGrown⟩
    | _ =>
      have hskip : s₀.selectsCell probe cell = false := by simp [selectsCell, hparts]
      simp only [Payload.cellParts?, List.find?_cons, hskip]
      exact hrest s hlike

variable (host : Host) (rounds : Nat) (hcells : ∀ cell ∈ s₀.cells map, s₀.MadeCell cell)
  (hmap : s₀.heap.Contains map) (hkey : s₀.PlainKey key) (hlike : s₀.Like s)
include hcells hmap hkey hlike

theorem ends_findCell : (findCell (machine host (rounds + 2)).toDispatcher map key).Ends s
    (fun found t => found = s₀.found? map key ∧ s.Grown t s.shown) fun _ => False := by
  simp only [findCell, ends_bind, ends_get, ends_nameBytes?, hlike.cells_eq hmap,
    hlike.nameBytes?_eq (contains_of_plainKey hkey)]
  exact ends_firstMatch host rounds hkey hcells hlike

theorem ends_get? : (get? (machine host (rounds + 2)).toDispatcher map key).Ends s
    (fun found t => found = s₀.lookup? map key ∧ s.Grown t s.shown) fun _ => False := by
  rw [get?, ends_bind]
  refine (ends_findCell host rounds hcells hmap hkey hlike).imp_value ?_
  rintro _ t ⟨rfl, hgrown⟩
  unfold State.lookup?
  cases hfound : s₀.found? map key with
  | none => exact ⟨rfl, hgrown⟩
  | some cell =>
    have hcell := hcells cell (List.mem_of_find?_eq_some hfound)
    exact ⟨(hlike.grown hgrown).cellValue?_eq hcell.1, hgrown⟩

end Map

namespace State

variable {s t : State} {map key value found old known : Ref}

theorem not_contains_next (h : s.heap.size ≤ t.heap.size) : ¬ s.heap.Contains t.heap.next :=
  Nat.not_lt_of_le h

theorem Stores.of_replaced (h : s.Grown t s.shown) (hmade : s.heap.Contains found)
    (hfound : s.found? map key = some found) (hparts : s.payload found = .cell known old) :
    s.Stores map key value (t.stored found (.cell known value)) where
  rest := by rw [h.rest]; rfl
  size := by simpa using h.size
  kept o ho hne := by
    have hne : o ≠ found := by simpa [hfound] using hne
    rw [payload_stored_other hne, h.kept o ho]
  replaced other hother := by
    obtain rfl : found = other := by simpa [hfound] using hother
    have hin : t.heap.Contains found := Nat.lt_of_lt_of_le hmade h.size
    exact ⟨known, old, hparts, payload_stored_same hin⟩
  appended hnone := by simp [hfound] at hnone

theorem Stores.of_appended (h : s.Grown t s.shown) (hmap : s.heap.Contains map)
    (hfound : s.found? map key = none) : s.Stores map key value
      ((t.made (.cell key value)).stored map (.map (s.cells map ++ [t.heap.next]))) := by
  have hnew (o : Ref) (ho : s.heap.Contains o) : o ≠ t.heap.next := by
    rintro rfl
    exact not_contains_next h.size ho
  have hin : (t.made (.cell key value)).heap.Contains map := by
    have hsize := h.size
    have hlt : map.index < s.heap.size := hmap
    show map.index < (t.made _).heap.size
    simp only [size_made]
    omega
  constructor
  case rest => rw [h.rest]; rfl
  case size =>
    have hsize := h.size
    simp only [size_stored, size_made]
    omega
  case kept =>
    intro o ho hne
    have hne : o ≠ map := by simpa [hfound] using hne
    rw [payload_stored_other hne, payload_made_other (hnew o ho), h.kept o ho]
  case replaced => simp [hfound]
  case appended =>
    refine fun _ => ⟨t.heap.next, fun hold => hnew _ hold rfl, ?_, payload_stored_same hin⟩
    rw [payload_stored_other (hnew map hmap).symm, payload_made_next]

end State

theorem Map.ends_append {s : State} {map key value : Ref} (hmap : s.kind map = .map)
    {Q : Unit → State → Prop} {E : State → Prop} :
    (do appendCell map (← create (.cell key value)) : Action Unit).Ends s Q E ↔
      Q () ((s.made (.cell key value)).stored map (.map (s.cells map ++ [s.heap.next]))) := by
  have hmade : (s.made (.cell key value)).payload map = .map (s.cells map) := by
    obtain ⟨cells, hcells⟩ := State.payload_of_map hmap
    have hin : s.heap.Contains map := State.contains_of_kind_ne (by simp [hmap])
    rw [(State.Grown.made s _).kept map hin, State.cells, hcells]
  simp only [ends_bind, ends_create, appendCell, ends_payload, hmade, ends_store]

theorem Map.ends_set (host : Host) (rounds : Nat) {s : State} {map key : Ref}
    (hcells : ∀ cell ∈ s.cells map, s.MadeCell cell) (hmap : s.kind map = .map) (hkey : s.PlainKey key) (value : Ref) :
    (Map.set (machine host (rounds + 2)).toDispatcher map key value).Ends s
      (fun _ t => s.Stores map key value t) fun _ => False := by
  have hin : s.heap.Contains map := State.contains_of_kind_ne (by simp [hmap])
  rw [Map.set, ends_bind]
  refine (ends_findCell host rounds hcells hin hkey (.refl s)).imp_value ?_
  rintro _ t ⟨rfl, hgrown⟩
  cases hfound : s.found? map key with
  | some cell =>
    have hcell := (hcells cell (List.mem_of_find?_eq_some hfound)).1
    have hselected := List.find?_some hfound
    cases hparts : s.payload cell with
    | cell stored old =>
      simp only [replaceValue, ends_bind, ends_payload, hgrown.kept cell hcell, hparts, ends_store]
      exact .of_replaced hgrown hcell hfound hparts
    | _ => simp [State.selectsCell, hparts] at hselected
  | none =>
    have hsame := hgrown.kept map hin
    have hlist : t.cells map = s.cells map := by simp only [State.cells, hsame]
    refine (ends_append ((congrArg Payload.kind hsame).trans hmap)).mpr ?_
    rw [hlist]
    exact .of_appended hgrown hin hfound

end ObjectModel
