import ObjectModel.Proofs.Maps.Entries
import ObjectModel.Proofs.Maps.Separation

/-!
# Sums of maps

The sum of two maps under names and ints has the entries of the one, with the values that the other has
under their keys, and behind them the entries of the other under new keys. It is a new map of new cells,
apart from those that were added up, and it makes no difference to its entries which sum of three maps is
formed first (`sum_merges`).
-/

namespace ObjectModel

open ObjectModel.Action Behavior Relation

variable {s t u : State} {own other sum key value : Ref}

-- ---------------------------------------------------------------------------
-- Cells of their own
-- ---------------------------------------------------------------------------

theorem Action.ends_createAll (payloads : List Payload) : (createAll payloads).Ends s
    (fun objects t => s.Grown t s.shown ∧ objects.map t.payload = payloads ∧
      ∀ o ∈ objects, ¬ s.heap.Contains o ∧ t.heap.Contains o) fun _ => False := by
  unfold createAll
  induction payloads generalizing s with
  | nil => exact ⟨.refl s, rfl, nofun⟩
  | cons payload rest ih =>
    simp only [List.mapM_cons, ends_bind, ends_create, ends_pure]
    refine ih.imp_value ?_
    rintro objects t ⟨hgrown, hpayloads, hnew⟩
    have hmade : (s.made payload).heap.Contains s.heap.next := contains_made_next ..
    refine ⟨(State.Grown.made s payload).thenGrown hgrown, ?_, ?_⟩
    · rw [List.map_cons, hpayloads, hgrown.kept _ hmade, payload_made_next]
    · rintro o (_ | ⟨_, ho⟩)
      · exact ⟨State.not_contains_next (Nat.le_refl _), Nat.lt_of_lt_of_le hmade hgrown.size⟩
      · obtain ⟨hnewMap, hin⟩ := hnew o ho
        exact ⟨fun hold => hnewMap (Nat.lt_of_lt_of_le hold (State.Grown.made s payload).size), hin⟩

namespace State

/-- A new map under names and ints, of new cells. -/
structure NewMap (s : State) (map : Ref) (t : State) : Prop where
  grown : s.Grown t s.shown
  new : ∀ o ∈ t.parts map, ¬ s.heap.Contains o
  plain : t.PlainMap map

theorem NewMap.stores {label : Label} (h : s.NewMap sum t) (hstores : t.Stores sum key value u)
    (hkey : t.label? key = some label) : s.NewMap sum u := by
  have hputs : t.Puts sum _ (fun _ _ => True) value u := hstores.puts trivial
  have hplace : (t.found? sum key).getD sum ∈ t.parts sum := by
    cases hfound : t.found? sum key with
    | none => exact List.mem_cons_self
    | some cell => exact List.mem_cons_of_mem _ (List.mem_of_find?_eq_some hfound)
  have hin {o : Ref} (ho : s.heap.Contains o) : t.heap.Contains o := Nat.lt_of_lt_of_le ho h.grown.size
  refine ⟨⟨?_, fun o ho => ?_, Nat.le_trans h.grown.size hstores.size⟩, ?_, hstores.plainMap h.plain hkey⟩
  · rw [hstores.rest, h.grown.rest]
  · have hne : o ≠ (t.found? sum key).getD sum := by
      rintro rfl
      exact h.new _ hplace ho
    exact (hstores.kept o (hin ho) hne).trans (h.grown.kept o ho)
  · rintro o (_ | ⟨_, hcell⟩)
    · exact h.new _ List.mem_cons_self
    · cases hfound : t.found? sum key with
      | some cell =>
        rw [hputs.cells_kept h.plain.made (by simp [hfound])] at hcell
        exact h.new o (List.mem_cons_of_mem _ hcell)
      | none =>
        obtain ⟨cell, hnew, -, hafter⟩ := hstores.appended hfound
        simp only [cells, hafter] at hcell
        rcases List.mem_append.mp hcell with hold | hlast
        · exact h.new o (List.mem_cons_of_mem _ hold)
        · rw [List.mem_singleton.mp hlast]
          exact fun hold => hnew (hin hold)

/-- A sum: a new map that has the merged entries. -/
structure Merged (s : State) (own other sum : Ref) (t : State) : Prop extends s.NewMap sum t where
  entries : t.plainEntries sum = Entry.merge (s.plainEntries own) (s.plainEntries other)

theorem Merged.unheld {held : List (List Ref)} (h : (s.withHeld held).Merged own other sum t) :
    s.Merged own other sum (t.withHeld s.held) where
  grown := h.grown.unheld
  new := h.new
  plain := h.plain.withHeld _
  entries := h.entries

end State

namespace Behavior.Maps

open State

variable (host : Host) (rounds : Nat)

theorem ends_setAll (h : s.NewMap sum t) {entries : List Entry}
    (hentries : ∀ entry ∈ entries, s.label? entry.key = some entry.label) :
    (setAll (machine host (rounds + 2)).toDispatcher sum (entries.map fun entry => (entry.key, entry.value))).Ends t
      (fun _ u => s.NewMap sum u ∧ u.plainEntries sum = entries.foldl Entry.put (t.plainEntries sum))
      fun _ => False := by
  induction entries generalizing t with
  | nil => exact ⟨h, rfl⟩
  | cons entry rest ih =>
    obtain ⟨hfirst, hrest⟩ := List.forall_mem_cons.mp hentries
    have hin : s.heap.Contains entry.key := contains_of_plainKey (plainKey_of_label? hfirst)
    have hkey : t.label? entry.key = some entry.label :=
      (((Like.refl s).grown h.grown).label?_eq hin).trans hfirst
    simp only [List.map_cons, setAll, ends_bind]
    refine (Map.ends_set host rounds h.plain.cells h.plain.kind (plainKey_of_label? hkey) _).imp_value ?_
    intro _ u hstores
    rw [List.foldl_cons, ← hstores.plainEntries h.plain hkey]
    exact ih (h.stores hstores hkey) hrest

/-- Cells of the entries of a map make another map with the same entries. -/
theorem newMap_of_cells (hown : s.PlainMap own) {cells : List Ref} (hgrown : s.Grown t s.shown)
    (hpayloads : cells.map t.payload = (s.entries own).map fun parts => .cell parts.1 parts.2)
    (hnew : ∀ cell ∈ cells, ¬ s.heap.Contains cell ∧ t.heap.Contains cell) :
    s.NewMap t.heap.next (t.made (.map cells)) ∧
      (t.made (.map cells)).plainEntries t.heap.next = s.plainEntries own := by
  have hmade : s.Grown (t.made (.map cells)) s.shown := hgrown.thenMade _
  have hlike := (Like.refl s).grown hmade
  have hmap : (t.made (.map cells)).payload t.heap.next = .map cells := payload_made_next ..
  have hcells : (t.made (.map cells)).cells t.heap.next = cells := by simp only [State.cells, hmap]
  have hkept : ∀ cell ∈ cells, (t.made (.map cells)).payload cell = t.payload cell :=
    fun cell hcell => (Grown.made t _).kept cell (hnew cell hcell).2
  have hentries : (t.made (.map cells)).entries t.heap.next = s.entries own := by
    have hparts : cells.map (t.made (.map cells)).payload =
        (s.entries own).map fun parts => .cell parts.1 parts.2 :=
      (List.map_congr_left hkept).trans hpayloads
    have hmapped : (t.made (.map cells)).entries t.heap.next =
        (cells.map (t.made (.map cells)).payload).filterMap Payload.cellParts? := by
      rw [State.entries, hcells, List.filterMap_map]
      rfl
    rw [hmapped, hparts, List.filterMap_map]
    exact List.filterMap_some
  have hkeys : (t.made (.map cells)).keys t.heap.next = s.keys own := by rw [keys, hentries, keys]
  have hplain : (t.made (.map cells)).plainEntries t.heap.next = s.plainEntries own := by
    rw [plainEntries, hentries]
    refine List.filterMap_congr fun parts hparts => ?_
    exact hlike.entryOf?_eq (contains_of_plainKey (hown.plain parts.1 (List.mem_map_of_mem hparts)))
  refine ⟨⟨hmade, ?_, plainMap_iff.mpr ⟨⟨kind_of_payload hmap, ?_⟩, ?_, ?_⟩⟩, hplain⟩
  · rintro o (_ | ⟨_, ho⟩)
    · exact not_contains_next hgrown.size
    · exact (hnew o (hcells ▸ ho)).1
  · intro cell hcell
    refine ⟨Nat.lt_of_lt_of_le (hnew cell (hcells ▸ hcell)).2 (Grown.made t _).size, ?_⟩
    intro key value hparts
    have hkey := mem_keys.mpr ⟨cell, hcell, value, hparts⟩
    rw [hkeys] at hkey
    exact Nat.lt_of_lt_of_le (contains_of_plainKey (hown.plain key hkey)) hmade.size
  · rw [hkeys]
    exact fun key hkey => hlike.plainKey (hown.plain key hkey)
  · rw [hplain]
    exact hown.nodup

theorem ends_add (hown : s.PlainMap own) (hother : s.PlainMap other) :
    (add (machine host (rounds + 2)) [own, other]).Ends s (fun sum t => s.Merged own other sum t)
      fun _ => False := by
  simp only [add, ends_bind, ends_argument_first, ends_argument_second, ends_kind, hother.kind, ne_eq,
    not_true, if_false, ends_pure, ends_get, ends_create]
  refine (ends_createAll _).imp_value ?_
  rintro cells t ⟨hgrown, hpayloads, hnew⟩
  obtain ⟨hnewMap, hentries⟩ := newMap_of_cells hown hgrown hpayloads hnew
  rw [((Like.refl s).grown hnewMap.grown).entries_eq hother, entries_of_plain hother.plain]
  refine (ends_setAll host rounds hnewMap fun _ hentry => label?_of_mem hentry).imp_value ?_
  rintro _ u ⟨hfilled, hstored⟩
  rw [hentries, Entry.foldl_put hother.nodup] at hstored
  exact { hfilled with entries := hstored }

end Behavior.Maps

theorem ends_sum (host : Host) (rounds : Nat) (hown : s.PlainMap own) (hother : s.PlainMap other) :
    ((machine host (rounds + 3)).binary .add own other).Ends s (fun sum t => s.Merged own other sum t)
      fun _ => False := by
  rw [ends_binary host _ hown.kind rfl]
  refine (Maps.ends_add host rounds (hown.withHeld _) (hother.withHeld _)).imp_value ?_
  intro sum t hmerged
  exact hmerged.unheld

-- ---------------------------------------------------------------------------
-- Sums and what they are made of
-- ---------------------------------------------------------------------------

namespace State

/-- What a sum is to the maps that were added up. -/
structure Sums (s : State) (own other sum : Ref) (t : State) : Prop where
  /-- Nothing was done but make objects, among them the sum and its cells. -/
  grown : s.Grown t s.shown
  new : ∀ o ∈ t.parts sum, ¬ s.heap.Contains o
  /-- The keys of the one map, and then those of the other that the one has not. -/
  keys : t.keys sum = s.keys own ++ (s.keys other).filter fun key => s.lookup? own key = none
  /-- The value of the other map where it has one, and else that of the one. -/
  found : ∀ key, s.PlainKey key → ∀ host rounds,
    (Map.get? (machine host (rounds + 2)).toDispatcher sum key).Ends t
      (fun found u => found = (s.lookup? other key).or (s.lookup? own key) ∧ t.Grown u t.shown) fun _ => False
  /-- However maps are stored into afterwards, a store into the sum leaves the two as they are, and a store
  into one of the two leaves the sum. -/
  separate : ∀ u, ReflTransGen (MapStep [sum, own, other]) t u → ∀ host rounds (store : MapStore) e v,
    (store.Lands u sum → (store.run (machine host rounds) sum).ending? u = some (e, v) →
      u.Spared v own ∧ u.Spared v other) ∧
    ∀ map ∈ [own, other], store.Lands u map →
      (store.run (machine host rounds) map).ending? u = some (e, v) → u.Spared v sum

theorem NewMap.apart (h : s.NewMap sum t) (hmap : s.MadeMap map) : t.Apart sum map := by
  have hparts : t.parts map = s.parts map := by simp only [parts, cells, h.grown.kept map hmap.made]
  have hmade : ∀ o ∈ s.parts map, s.heap.Contains o :=
    List.forall_mem_cons.mpr ⟨hmap.made, fun cell hcell => (hmap.cells cell hcell).1⟩
  refine ⟨List.forall_mem_append.mpr ⟨List.forall_mem_cons.mpr ⟨h.plain.made, ?_⟩, ?_⟩, ?_⟩
  · exact fun cell hcell => (h.plain.cells cell hcell).1
  · rw [hparts]
    exact fun o ho => Nat.lt_of_lt_of_le (hmade o ho) h.grown.size
  · rw [hparts]
    exact fun o hsum ho => h.new o hsum (hmade o ho)

namespace Merged

variable (h : s.Merged own other sum t) (hown : s.PlainMap own) (hother : s.PlainMap other)
include h hown hother

theorem keys : t.keys sum = s.keys own ++ (s.keys other).filter fun key => s.lookup? own key = none := by
  have hnew : (s.plainEntries other).filter (fun entry => s.lookup? own entry.key = none) =
      (s.plainEntries other).filter fun entry => Entry.value? (s.plainEntries own) entry.label = none :=
    List.filter_congr fun entry hentry => by rw [hown.lookup?_eq (label?_of_mem hentry)]
  have hkept : ((s.plainEntries own).map (Entry.override (s.plainEntries other))).map (·.key) =
      (s.plainEntries own).map (·.key) := List.map_map ..
  rw [keys_of_plain h.plain.plain, keys_of_plain hown.plain, keys_of_plain hother.plain, h.entries,
    Entry.merge, List.map_append, hkept, List.filter_map, ← hnew]
  rfl

theorem lookup? (hkey : s.PlainKey key) :
    t.lookup? sum key = (s.lookup? other key).or (s.lookup? own key) := by
  obtain ⟨label, hlabel⟩ := label?_of_plainKey hkey
  have hafter : t.label? key = some label :=
    (((Like.refl s).grown h.grown).label?_eq (contains_of_plainKey hkey)).trans hlabel
  rw [h.plain.lookup?_eq hafter, h.entries, Entry.value?_merge, hother.lookup?_eq hlabel, hown.lookup?_eq hlabel]

theorem sums : s.Sums own other sum t where
  grown := h.grown
  new := h.new
  keys := h.keys hown hother
  found key hkey host rounds := by
    have hplain := ((Like.refl s).grown h.grown).plainKey hkey
    rw [← h.lookup? hown hother hkey]
    exact Map.ends_get? host rounds h.plain.cells h.plain.made hplain (.refl t)
  separate u hsteps host rounds store e v := by
    have hapart (map : Ref) (hmem : map ∈ [own, other]) : u.Apart sum map := by
      have hmap : s.MadeMap map := by
        rcases List.mem_pair.mp hmem with rfl | rfl
        · exact hown.toMadeMap
        · exact hother.toMadeMap
      exact (h.apart hmap).along List.mem_cons_self (List.mem_cons_of_mem _ hmem) hsteps
    constructor
    · intro hlands hrun
      have haltered := (MapStore.ends_run host rounds hlands (halts_of_ending? hrun)).of_ending? hrun
      exact ⟨(hapart own (by simp)).spared haltered, (hapart other (by simp)).spared haltered⟩
    · intro map hmem hlands hrun
      have haltered := (MapStore.ends_run host rounds hlands (halts_of_ending? hrun)).of_ending? hrun
      exact (hapart map hmem).symm.spared haltered

end Merged

/-- It makes no difference to the entries which of three maps are added first. -/
theorem ends_sums (host : Host) (rounds : Nat) {third : Ref} (hown : s.PlainMap own)
    (hother : s.PlainMap other) (hthird : s.PlainMap third) :
    (do
      let first ← (machine host (rounds + 3)).binary .add own other
      let left ← (machine host (rounds + 3)).binary .add first third
      let last ← (machine host (rounds + 3)).binary .add other third
      let right ← (machine host (rounds + 3)).binary .add own last
      return (left, right)).Ends s (fun sums t => t.entries sums.1 = t.entries sums.2) fun _ => False := by
  simp only [ends_bind, ends_pure]
  refine (ends_sum host rounds hown hother).imp_value ?_
  intro first s₁ hfirst
  have h₁ := (Like.refl s).grown hfirst.grown
  refine (ends_sum host rounds hfirst.plain (h₁.plainMap hthird)).imp_value ?_
  intro left s₂ hleft
  have h₂ := h₁.grown hleft.grown
  refine (ends_sum host rounds (h₂.plainMap hother) (h₂.plainMap hthird)).imp_value ?_
  intro last s₃ hlast
  have h₃ := h₂.grown hlast.grown
  refine (ends_sum host rounds (h₃.plainMap hown) hlast.plain).imp_value ?_
  intro right s₄ hright
  have hkept : s₂.Like s₄ := ((Like.refl s₂).grown hlast.grown).grown hright.grown
  have hentries : s₄.plainEntries left = s₄.plainEntries right := by
    calc s₄.plainEntries left
        = Entry.merge (Entry.merge (s.plainEntries own) (s.plainEntries other)) (s.plainEntries third) := by
          rw [hkept.plainEntries_eq hleft.plain, hleft.entries, hfirst.entries, h₁.plainEntries_eq hthird]
      _ = Entry.merge (s.plainEntries own) (Entry.merge (s.plainEntries other) (s.plainEntries third)) :=
          Entry.merge_assoc ..
      _ = s₄.plainEntries right := by
          rw [hright.entries, hlast.entries, h₂.plainEntries_eq hother, h₂.plainEntries_eq hthird,
            h₃.plainEntries_eq hown]
  rw [entries_of_plain (hkept.plainMap hleft.plain).plain, entries_of_plain hright.plain.plain, hentries]

end State

/-- The sum of two maps under names and ints, which may be the same, merges their entries, apart from both;
and of three such maps the sums have the same entries, whichever is formed first. -/
theorem sum_merges (host : Host) (rounds : Nat) (s : State) (own other : Ref) (hown : s.PlainMap own)
    (hother : s.PlainMap other) :
    ((machine host (rounds + 3)).binary .add own other).Ends s (fun sum t => s.Sums own other sum t)
      (fun _ => False) ∧
    ∀ third, s.PlainMap third →
      (do
        let first ← (machine host (rounds + 3)).binary .add own other
        let left ← (machine host (rounds + 3)).binary .add first third
        let last ← (machine host (rounds + 3)).binary .add other third
        let right ← (machine host (rounds + 3)).binary .add own last
        return (left, right)).Ends s (fun sums t => t.entries sums.1 = t.entries sums.2) fun _ => False := by
  refine ⟨?_, fun third hthird => State.ends_sums host rounds hown hother hthird⟩
  exact (ends_sum host rounds hown hother).imp_value fun sum t hmerged => hmerged.sums hown hother

/-- Two maps have a name in common, and the second has an int that the first has not. -/
theorem sum_merges_common :
    let s := { Globals.bare {} .discard {} with
      heap := ⟨#[.singlet "None", .map [], .map [], .map [⟨9⟩, ⟨10⟩], .map [⟨11⟩, ⟨12⟩], .string "x",
        .string "y", .string "y", .int 1, .cell ⟨5⟩ ⟨8⟩, .cell ⟨6⟩ ⟨8⟩, .cell ⟨7⟩ ⟨0⟩, .cell ⟨8⟩ ⟨0⟩]⟩ }
    s.PlainMap ⟨3⟩ ∧ s.PlainMap ⟨4⟩ ∧
    ∃ sum t, ((machine {} 3).binary .add ⟨3⟩ ⟨4⟩).run s = .ok sum t ∧ t.keys sum = [⟨5⟩, ⟨6⟩, ⟨8⟩] ∧
      (Map.get? (machine {} 2).toDispatcher sum ⟨6⟩).Ends t (fun found _ => found = some ⟨0⟩) fun _ => False := by
  intro s
  have hclosed : s.Closed := by decide
  have hown : s.PlainMap ⟨3⟩ := ⟨hclosed.madeMap rfl, by decide, by decide +kernel⟩
  have hother : s.PlainMap ⟨4⟩ := ⟨hclosed.madeMap rfl, by decide, by decide +kernel⟩
  obtain ⟨⟨sum, t, hrun, h⟩, -⟩ := (sum_merges {} 0 s ⟨3⟩ ⟨4⟩ hown hother).imp_left Ends.exists_run
  have hkeys : s.keys ⟨3⟩ ++ (s.keys ⟨4⟩).filter (fun key => s.lookup? ⟨3⟩ key = none) = [⟨5⟩, ⟨6⟩, ⟨8⟩] := by
    decide +kernel
  have hvalue : (s.lookup? ⟨4⟩ ⟨6⟩).or (s.lookup? ⟨3⟩ ⟨6⟩) = some ⟨0⟩ := by decide +kernel
  refine ⟨hown, hother, sum, t, hrun, h.keys.trans hkeys, ?_⟩
  refine (h.found ⟨6⟩ (by decide) {} 0).imp_value ?_
  rintro _ u ⟨rfl, -⟩
  exact hvalue

end ObjectModel
