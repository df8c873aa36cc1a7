import ObjectModel.Proofs.Maps.Keys

/-!
# Keys that differ

A raw store asks the new key whether it is found equal to those that are there, and appends it only if it
is not. Keys that were stored so are never found equal afterwards, whichever comes first
(`stored_keys_differ`), but for strings and buffers of which only one finds the other equal.
-/

namespace ObjectModel

open ObjectModel.Action Relation

variable {s s₀ t : State} {map cell key value probe newer older left right : Ref}

-- ---------------------------------------------------------------------------
-- Probes
-- ---------------------------------------------------------------------------

namespace Map

open State

variable (host : Host) (rounds : Nat)

theorem keyMatches_run (hprobe : s.Readable probe) (hkey : s.Readable key)
    (hrun : (keyMatches (machine host rounds).toDispatcher probe (s.nameBytes? probe) key).run s =
      .ok matched t) :
    s.Extends t ∧ (matched = true ↔ s.Matches probe key) := by
  have hends : (keyMatches (machine host rounds).toDispatcher probe (s.nameBytes? probe) key).Ends s
      (fun b u => b = matched ∧ u = t) fun _ => False := (ends_of_run hrun).mpr ⟨rfl, rfl⟩
  have hcompare (hends : (do return (← (machine host rounds).compare probe key) = 0 : Action Bool).Ends s
      (fun b u => b = matched ∧ u = t) fun _ => False) :
      s.Extends t ∧ (matched = true ↔ s.Equal probe key) := by
    rw [ends_bind] at hends
    obtain ⟨n, u, hn, hrest⟩ := hends.exists_run
    rw [ends_pure] at hrest
    obtain ⟨rfl, rfl⟩ := hrest
    rw [decide_eq_true_iff]
    exact compare_run host rounds hprobe hkey hn
  unfold keyMatches at hends
  simp only [ends_bind, ends_nameBytes?] at hends
  unfold Matches
  cases hname : s.nameBytes? probe with
  | none =>
    rw [hname] at hends
    exact hcompare hends
  | some name =>
    cases hother : s.nameBytes? key with
    | none =>
      rw [hname, hother] at hends
      exact hcompare hends
    | some other =>
      rw [hname, hother] at hends
      obtain ⟨rfl, rfl⟩ := hends
      exact ⟨.refl s, beq_iff_eq⟩

theorem firstMatch_run (hprobe : s₀.Readable probe) {cells : List Ref}
    (hcells : ∀ cell ∈ cells, ∃ key value, s₀.payload cell = .cell key value ∧ s₀.Readable key)
    (hextends : s₀.Extends s)
    (hrun : (firstMatch (machine host rounds).toDispatcher probe (s₀.nameBytes? probe) cells).run s =
      .ok found t) :
    s.Extends t ∧ (∀ cell, found = some cell → cell ∈ cells) ∧
      (found = none →
        ∀ cell ∈ cells, ∀ key value, s₀.payload cell = .cell key value → ¬ s₀.Matches probe key) := by
  -- What is found is said of the state before all probes, since each comparison makes objects of its own.
  induction cells generalizing s with
  | nil =>
    cases hrun
    exact ⟨.refl _, by simp, by simp⟩
  | cons cell rest ih =>
    have hends : (firstMatch (machine host rounds).toDispatcher probe (s₀.nameBytes? probe)
        (cell :: rest)).Ends s (fun c u => c = found ∧ u = t) fun _ => False :=
      (ends_of_run hrun).mpr ⟨rfl, rfl⟩
    obtain ⟨key, value, hparts, hkey⟩ := hcells cell List.mem_cons_self
    have hmade : s₀.heap.Contains cell :=
      contains_of_kind_ne (by simp [kind_of_payload hparts, Payload.kind])
    rw [firstMatch, ends_bind, ends_payload, hextends.kept cell hmade, hparts] at hends
    simp only [Payload.cellParts?, ends_bind] at hends
    obtain ⟨matched, u, hfirst, hrest⟩ := hends.exists_run
    rw [← (hextends.unchanged hprobe).nameBytes?] at hfirst
    obtain ⟨hstep, hmatched⟩ :=
      keyMatches_run host rounds (hextends.readable hprobe) (hextends.readable hkey) hfirst
    rw [matches_iff (hextends.unchanged hprobe) (hextends.unchanged hkey)] at hmatched
    cases matched with
    | true =>
      obtain ⟨rfl, rfl⟩ := hrest
      exact ⟨hstep, by simp, by simp⟩
    | false =>
      obtain ⟨_, _, hothers, rfl, rfl⟩ := Ends.exists_run hrest
      obtain ⟨hthen, hfound, hnone⟩ :=
        ih (fun c hc => hcells c (List.mem_cons_of_mem _ hc)) (hextends.trans hstep) hothers
      refine ⟨hstep.trans hthen, fun c hc => List.mem_cons_of_mem _ (hfound c hc), ?_⟩
      intro hnothing
      refine List.forall_mem_cons.mpr ⟨?_, hnone hnothing⟩
      intro k v hparts'
      obtain ⟨rfl, rfl⟩ := Payload.cell.inj (hparts.symm.trans hparts')
      rw [← hmatched]
      exact Bool.false_ne_true

end Map

-- ---------------------------------------------------------------------------
-- Stores
-- ---------------------------------------------------------------------------

namespace Map

open State

variable (host : Host) (rounds : Nat)

theorem findCell_run (h : s.KeysApart map) (hkey : s.Readable key)
    (hrun : (findCell (machine host rounds).toDispatcher map key).run s = .ok found t) :
    t.KeysApart map ∧ t.Readable key ∧ (∀ cell, found = some cell → cell ∈ t.cells map) ∧
      (found = none → ∀ older ∈ t.keys map, t.Parted key older) := by
  have hmap : s.heap.Contains map := contains_of_kind_ne (by simp [h.kind])
  have hcells : ∀ cell ∈ s.cells map, ∃ key value, s.payload cell = .cell key value ∧ s.Readable key := by
    intro cell hcell
    obtain ⟨key, value, hparts⟩ := h.cells cell hcell
    exact ⟨key, value, hparts, h.readable key (mem_keys.mpr ⟨cell, hcell, value, hparts⟩)⟩
  obtain ⟨hextends, hfound, hnone⟩ := firstMatch_run host rounds hkey hcells (.refl s) hrun
  have hlist : t.cells map = s.cells map := by simp only [State.cells, hextends.kept map hmap]
  refine ⟨h.extends hextends, hextends.readable hkey, ?_, ?_⟩
  · rw [hlist]
    exact hfound
  · intro hnothing older holder
    obtain ⟨cell, hcell, value, hparts⟩ := mem_keys.mp holder
    rw [hlist] at hcell
    rw [hextends.kept cell (h.contains hcell)] at hparts
    have hreadable := h.readable older (mem_keys.mpr ⟨cell, hcell, value, hparts⟩)
    have hparted : s.Parted key older :=
      fun hmatches => absurd hmatches (hnone hnothing cell hcell older value hparts)
    exact hparted.unchanged (hextends.unchanged hkey) (hextends.unchanged hreadable)

theorem set_run (h : s.KeysApart map) (hkey : s.Readable key)
    (hrun : (Map.set (machine host rounds).toDispatcher map key value).run s = .ok () t) :
    t.KeysApart map := by
  have hends : (Map.set (machine host rounds).toDispatcher map key value).Ends s
      (fun _ u => u = t) fun _ => False := (ends_of_run hrun).mpr rfl
  rw [Map.set, ends_bind] at hends
  obtain ⟨found, u, hfirst, hrest⟩ := hends.exists_run
  obtain ⟨hapart, hreadable, hfound, hparted⟩ := findCell_run host rounds h hkey hfirst
  cases found with
  | some cell =>
    obtain ⟨stored, old, hparts⟩ := hapart.cells cell (hfound cell rfl)
    simp only [replaceValue, ends_bind, ends_payload, hparts, ends_store] at hrest
    subst hrest
    have hputs : u.Puts map (some cell) (fun _ _ => False) value _ := .of_replaced hparts
    exact hapart.puts hputs hfound (by simp)
  | none =>
    have hin : u.heap.Contains map := contains_of_kind_ne (by simp [hapart.kind])
    rw [ends_append hapart.kind] at hrest
    subst hrest
    have hputs : u.Puts map none (fun _ k => k = key) value _ := .of_appended (.refl u) hin rfl
    refine hapart.puts hputs hfound fun _ k hk => ?_
    obtain rfl : key = k := hk.symm
    have hsame := hputs.unchanged hapart.kind hreadable
    refine ⟨hsame.readable hreadable hputs.size (Nat.le_refl _), fun older holder => ?_⟩
    have holds := hputs.unchanged hapart.kind (hapart.readable older holder)
    exact (hparted rfl older holder).unchanged hsame holds

theorem setNamed_run (h : s.KeysApart map) {text : String}
    (hrun : (Map.setNamed map text value).run s = .ok () t) : t.KeysApart map := by
  have hputs := (ends_of_run hrun).mp (ends_setNamed h.kind text value)
  refine h.puts hputs (fun cell hcell => List.mem_of_find?_eq_some hcell) fun hnone key hkey => ?_
  have hkind : t.kind key = .string := kind_of_payload hkey
  refine ⟨readable_of_single (by simp [hkind]) (contains_of_kind_ne (by simp [hkind])) ?_, ?_⟩
  · intro buffer hbuffer
    cases hkey.symm.trans hbuffer
  · intro older holder hmatches
    have hunchanged := hputs.unchanged h.kind (h.readable older holder)
    obtain ⟨cell, hcell, old, hparts⟩ := mem_keys.mp holder
    have hnamed := List.find?_eq_none.mp hnone cell hcell
    rw [matches_string hkey, hunchanged.nameBytes?] at hmatches
    simp only [cellIsNamed, hparts, isNamed_iff] at hnamed
    obtain ⟨rfl, hunsized⟩ := hmatches.resolve_left hnamed
    exact ⟨hkey, hunsized⟩

end Map

theorem RawStore.run_apart (host : Host) (rounds : Nat) (h : s.KeysApart map) {store : RawStore}
    (hreadable : store.Readable s) (hrun : (store.run (machine host rounds) map).run s = .ok () t) :
    t.KeysApart map := by
  cases store with
  | byKey key value => exact Map.set_run host rounds h hreadable hrun
  | byName name value => exact Map.setNamed_run h hrun
  | byCall key value =>
    have hends : (RawStore.run (machine host rounds) map (.byCall key value)).Ends s
        (fun _ u => u = t) fun _ => False := (ends_of_run hrun).mpr rfl
    simp only [RawStore.run, Prelude.rawSet, Prelude.mapArgument, ends_discard, ends_bind,
      ends_argument_first, ends_argument_second, ends_argument_third, ends_kind, h.kind, ne_eq,
      not_true, if_false, ends_pure] at hends
    obtain ⟨_, u, hset, rfl⟩ := Ends.exists_run hends
    exact Map.set_run host rounds h hreadable hset

theorem Stored.keysApart {host : Host} {log : List (Option Label × Ref)} (h : Stored host map log s) :
    s.KeysApart map := by
  induction h with
  | empty h => exact State.keysApart_empty h
  | store _ hreadable hrun ih => exact RawStore.run_apart _ _ ih hreadable hrun
  | meanwhile _ hkept ih =>
    refine ih.keep hkept.kept ?_ hkept.keys hkept.size hkept.blocks
    intro cell hcell key value hparts
    exact ⟨value, (hkept.cells cell hcell).trans hparts⟩

/-- No comparison finds two objects equal. -/
def State.Distinct (s : State) (left right : Ref) : Prop :=
  ∀ (host : Host) rounds n t, ((machine host rounds).compare left right).run s = .ok n t → n ≠ 0

theorem State.distinct_of_not_equal (hleft : s.Readable left) (hright : s.Readable right)
    (h : ¬ s.Equal left right) : s.Distinct left right := by
  intro host rounds n t hrun hzero
  obtain ⟨-, hequal⟩ := compare_run host rounds hleft hright hrun
  exact h (hequal.mp hzero)

/-- Of two keys of a map that was filled by raw stores, the one that came later does not find the other
equal, and neither finds the other equal where strings and buffers in them agree on that. Names are told
apart by their bytes; and the name that is the text of buffers of unknown size is left out. -/
theorem stored_keys_differ {host : Host} {log : List (Option Label × Ref)} (h : Stored host map log s) :
    (s.keys map).Pairwise fun older newer =>
      (s.payload newer = .string "<UNSIZED_BUFFER>" → s.isUnsized older = false) →
      (s.nameBytes? newer = none ∨ s.nameBytes? older = none → s.Distinct newer older) ∧
      (s.Accord older newer → s.Distinct newer older ∧ s.Distinct older newer) := by
  have hapart := h.keysApart
  refine hapart.parted.imp_of_mem ?_
  intro older newer holder hnewer hparted hsized
  have holder := hapart.readable older holder
  have hnewer := hapart.readable newer hnewer
  have hnot : ¬ s.Matches newer older := by
    intro hmatches
    obtain ⟨hstring, hunsized⟩ := hparted hmatches
    simp [hsized hstring] at hunsized
  constructor
  · intro hnameless
    refine State.distinct_of_not_equal hnewer holder fun hequal => hnot ?_
    unfold State.Matches
    rcases hnameless with hnone | hnone
    · simp [hnone, hequal]
    · cases s.nameBytes? newer <;> simp [hnone, hequal]
  · intro haccord
    obtain ⟨hafter, hbefore⟩ := State.not_equal_of_not_matches hnot haccord
    exact ⟨State.distinct_of_not_equal hnewer holder hafter,
      State.distinct_of_not_equal holder hnewer hbefore⟩

/-- A string and a buffer of another name were stored. -/
theorem stored_keys_differ_named :
    let s := { Globals.bare {} .discard {} with
      memory := (Memory.empty.allocate [98, 0]).2
      heap := ⟨#[.singlet "None", .map [], .map [], .map [⟨6⟩, ⟨7⟩], .string "a",
        .buffer { view := .sized (Memory.base 0) 2 }, .cell ⟨4⟩ ⟨0⟩, .cell ⟨5⟩ ⟨0⟩]⟩ }
    Stored {} ⟨3⟩ [(some (.name [97]), ⟨0⟩), (some (.name [98]), ⟨0⟩)] s ∧
      s.Distinct ⟨5⟩ ⟨4⟩ ∧ s.Distinct ⟨4⟩ ⟨5⟩ := by
  intro s
  let s₀ := { s with heap := ⟨#[.singlet "None", .map [], .map [], .map [], .string "a",
    .buffer { view := .sized (Memory.base 0) 2 }]⟩ }
  let s₁ := { s with heap := ⟨#[.singlet "None", .map [], .map [], .map [⟨6⟩], .string "a",
    .buffer { view := .sized (Memory.base 0) 2 }, .cell ⟨4⟩ ⟨0⟩]⟩ }
  have hempty : Stored {} ⟨3⟩ [] s₀ := .empty rfl
  have hstring : s₀.Readable ⟨4⟩ := by
    refine State.readable_of_single (by decide) (by decide) ?_
    rintro _ ⟨⟩
  have hbuffer : s₁.Readable ⟨5⟩ := by
    refine State.readable_of_single (by decide) (by decide) ?_
    rintro _ ⟨⟩
    show (Memory.base 0).toNat < _
    decide +kernel
  have hfirst : ((RawStore.byKey ⟨4⟩ ⟨0⟩).run (machine {} 2) ⟨3⟩).run s₀ = .ok () s₁ := rfl
  have hsecond : ((RawStore.byKey ⟨5⟩ ⟨0⟩).run (machine {} 2) ⟨3⟩).run s₁ = .ok () s := rfl
  have hstored : Stored {} ⟨3⟩ [(some (.name [97]), ⟨0⟩)] s₁ := by
    exact hempty.store (show (RawStore.byKey ⟨4⟩ ⟨0⟩).Readable s₀ from hstring) hfirst
  have hstored : Stored {} ⟨3⟩ [(some (.name [97]), ⟨0⟩), (some (.name [98]), ⟨0⟩)] s := by
    exact hstored.store (show (RawStore.byKey ⟨5⟩ ⟨0⟩).Readable s₁ from hbuffer) hsecond
  have haccord : s.Accord ⟨4⟩ ⟨5⟩ := by
    rintro pair hpair
    rcases ReflTransGen.cases_tail hpair with rfl | ⟨outer, -, lefts, rights, hlefts, -⟩
    · constructor
      · rintro _ _ ⟨⟩ ⟨⟩
        have htext : Bytes.toText [98] = "b" := Bytes.toText_ofText "b"
        refine iff_of_false ?_ fun hshows => absurd hshows.2 (by decide +kernel)
        show Bytes.toText (View.bytesAt s.memory (Memory.base 0) 2).untilZero ≠ "a"
        have hbytes : (View.bytesAt s.memory (Memory.base 0) 2).untilZero = [98] := by decide +kernel
        rw [hbytes, htext]
        decide
      · rintro _ _ ⟨⟩
    · cases hlefts
  have hpairs := stored_keys_differ hstored
  obtain ⟨hkeys, -⟩ := List.pairwise_cons.mp hpairs
  exact ⟨hstored, (hkeys ⟨5⟩ (by decide +kernel) nofun).2 haccord⟩

end ObjectModel
