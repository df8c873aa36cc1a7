import Mathlib.Algebra.BigOperators.Fin
import Mathlib.Algebra.Order.BigOperators.Group.Finset
import ObjectModel.Proofs.Laws.Machines
import ObjectModel.State.References

/-!
# What counts of references count

The counts are taken of all references at first; then the references of objects that nobody holds are
taken back, one object after the other. What is left counts, for every object, how often it is a root and
how often objects refer to it that are not released (`refCount_eq`).
-/

namespace ObjectModel.State

open Finset (range sum_eq_zero_iff)

variable {s : State} {gone work rest : List Ref} {counts : Array Nat} {o r : Ref}

-- ---------------------------------------------------------------------------
-- Counting up
-- ---------------------------------------------------------------------------

theorem getD_modify (counts : Array Nat) (i j : Nat) (f : Nat → Nat) (hj : j < counts.size) :
    (counts.modify i f).getD j 0 = if i = j then f (counts.getD j 0) else counts.getD j 0 := by
  rw [Array.getD_eq_getD_getElem?, Array.getElem?_modify, Array.getD_eq_getD_getElem?,
    Array.getElem?_eq_getElem hj]
  split <;> rfl

theorem getD_countUp (hsize : o.index < counts.size) :
    (countUp counts r).getD o.index 0 = counts.getD o.index 0 + if r = o then 1 else 0 := by
  rw [countUp, getD_modify _ _ _ _ hsize]
  by_cases h : r = o
  · rw [if_pos h, if_pos (congrArg Ref.index h)]
  · rw [if_neg h, if_neg fun hindex => h (congrArg Ref.mk hindex)]
    rfl

theorem size_foldl_countUp (objects : List Ref) (counts : Array Nat) :
    (objects.foldl countUp counts).size = counts.size := by
  induction objects generalizing counts with
  | nil => rfl
  | cons object rest ih => rw [List.foldl_cons, ih, countUp, Array.size_modify]

theorem getD_foldl_countUp (objects : List Ref) (hsize : o.index < counts.size) :
    (objects.foldl countUp counts).getD o.index 0 = counts.getD o.index 0 + objects.count o := by
  induction objects generalizing counts with
  | nil => rfl
  | cons object rest ih =>
    rw [List.foldl_cons, ih (by rwa [countUp, Array.size_modify]), getD_countUp hsize, List.count_cons]
    simp only [beq_iff_eq]
    omega

theorem foldl_payloads (payloads : List Payload) (counts : Array Nat) :
    (payloads.foldl (fun counts payload => payload.references.foldl countUp counts) counts).size =
        counts.size ∧
      ∀ o : Ref, o.index < counts.size →
        (payloads.foldl (fun counts payload => payload.references.foldl countUp counts) counts).getD
            o.index 0 =
          counts.getD o.index 0 + (payloads.map (·.references.count o)).sum := by
  induction payloads generalizing counts with
  | nil => exact ⟨rfl, fun _ _ => rfl⟩
  | cons payload rest ih =>
    have hsize := size_foldl_countUp payload.references counts
    obtain ⟨hrest, hcounts⟩ := ih (payload.references.foldl countUp counts)
    refine ⟨hrest.trans hsize, fun o ho => ?_⟩
    rw [List.foldl_cons, hcounts o (by rwa [hsize]), getD_foldl_countUp _ ho, List.map_cons,
      List.sum_cons]
    omega

-- ---------------------------------------------------------------------------
-- References that still count
-- ---------------------------------------------------------------------------

/-- How often an object is a root, and is referred to by objects that are not gone. -/
def heldBeside (s : State) (gone : List Ref) (o : Ref) : Nat :=
  s.roots.count o +
    ∑ index ∈ range s.heap.size with Ref.mk index ∉ gone, (s.payload ⟨index⟩).references.count o

theorem sum_payloads (s : State) (o : Ref) :
    (s.heap.payloads.toList.map (·.references.count o)).sum =
      ∑ index ∈ range s.heap.size, (s.payload ⟨index⟩).references.count o := by
  have hterm (index : Fin s.heap.payloads.toList.length) :
      s.payload ⟨index⟩ = s.heap.payloads.toList[index] := by
    simp [payload, Heap.get, Array.getD_eq_getD_getElem?]
  rw [Heap.size, ← Array.length_toList, Finset.sum_range]
  simp only [hterm]
  exact (Fin.sum_univ_fun_getElem s.heap.payloads.toList (·.references.count o)).symm

theorem getD_initialCounts (s : State) (ho : s.heap.Contains o) :
    s.initialCounts.getD o.index 0 = s.heldBeside [] o := by
  have hsize : o.index < (s.roots.foldl countUp (Array.replicate s.heap.size 0)).size := by
    rwa [size_foldl_countUp, Array.size_replicate]
  rw [initialCounts, ← Array.foldl_toList, (foldl_payloads _ _).2 o hsize,
    getD_foldl_countUp _ (by rwa [Array.size_replicate]), sum_payloads, heldBeside]
  have hstart : (Array.replicate s.heap.size 0).getD o.index 0 = 0 := by
    simp [Array.getD_eq_getD_getElem?, show o.index < s.heap.size from ho]
  simp [hstart]

theorem size_initialCounts (s : State) : s.initialCounts.size = s.heap.size := by
  rw [initialCounts, ← Array.foldl_toList, (foldl_payloads _ _).1, size_foldl_countUp,
    Array.size_replicate]

theorem heldBeside_cons (ho : s.heap.Contains o) (hgone : o ∉ gone) (p : Ref) :
    s.heldBeside gone p = s.heldBeside (o :: gone) p + (s.payload o).references.count p := by
  have hmem : o.index ∈ {index ∈ range s.heap.size | Ref.mk index ∉ gone} :=
    Finset.mem_filter.mpr ⟨Finset.mem_range.mpr ho, hgone⟩
  have herase : {index ∈ range s.heap.size | Ref.mk index ∉ o :: gone} =
      Finset.erase {index ∈ range s.heap.size | Ref.mk index ∉ gone} o.index := by
    ext index
    have hne : index = o.index ↔ Ref.mk index = o := ⟨congrArg Ref.mk, congrArg Ref.index⟩
    simp only [Finset.mem_filter, Finset.mem_erase, List.mem_cons, not_or, ne_eq, hne]
    tauto
  have hterm : (s.payload ⟨o.index⟩).references = (s.payload o).references := rfl
  rw [heldBeside, heldBeside, herase, ← Finset.add_sum_erase _ _ hmem, hterm]
  omega

theorem mem_gone_of_heldBeside (h : s.heldBeside gone o = 0) {holder : Ref}
    (hholder : s.heap.Contains holder) (ho : o ∈ (s.payload holder).references) : holder ∈ gone := by
  by_contra hgone
  have hsum := heldBeside_cons hholder hgone o
  have hpos := List.count_pos_iff.mpr ho
  omega

/-- What only objects that are gone refer to goes with them. -/
theorem released_of_heldBeside (h : s.heldBeside gone o = 0) (hgone : ∀ g ∈ gone, s.Released g) :
    s.Released o := by
  refine .intro (fun hroot => ?_) fun holder hholder ho =>
    hgone holder (mem_gone_of_heldBeside h hholder ho)
  have hpos := List.count_pos_iff.mpr hroot
  unfold heldBeside at h
  omega

-- ---------------------------------------------------------------------------
-- Counting down
-- ---------------------------------------------------------------------------

/-- The counts under way: those who are gone have lost their references, but for the `rest` of the last
one, and whoever has a count of zero is gone or waits to go. -/
structure Tally (s : State) (gone work rest : List Ref) (counts : Array Nat) : Prop where
  size : counts.size = s.heap.size
  nodup : (gone ++ work).Nodup
  made : ∀ o ∈ gone ++ work, s.heap.Contains o
  released : ∀ o ∈ gone ++ work, s.Released o
  count : ∀ o, s.heap.Contains o → counts.getD o.index 0 = s.heldBeside gone o + rest.count o
  zero : ∀ o, s.heap.Contains o → (counts.getD o.index 0 = 0 ↔ o ∈ gone ++ work)

namespace Tally

theorem countDown (h : s.Tally gone work (r :: rest) counts) :
    s.Tally gone (State.countDown (counts, work) r).2 rest (State.countDown (counts, work) r).1 := by
  have hgetD (o : Ref) (ho : s.heap.Contains o) : (counts.modify r.index (· - 1)).getD o.index 0 =
      if r = o then counts.getD o.index 0 - 1 else counts.getD o.index 0 := by
    rw [getD_modify _ _ _ _ (h.size ▸ ho)]
    simp only [show r.index = o.index ↔ r = o from ⟨congrArg Ref.mk, congrArg Ref.index⟩]
  have hcount (o : Ref) (ho : s.heap.Contains o) :
      (counts.modify r.index (· - 1)).getD o.index 0 = s.heldBeside gone o + rest.count o := by
    rw [hgetD o ho, h.count o ho, List.count_cons]
    by_cases heq : r = o <;> simp [heq]
  have hsize : (counts.modify r.index (· - 1)).size = s.heap.size := Array.size_modify.trans h.size
  unfold State.countDown
  dsimp only
  by_cases hone : counts.getD r.index 0 = 1
  · rw [if_pos hone]
    by_cases hr : s.heap.Contains r
    · have hheld := h.count r hr
      rw [List.count_cons_self, hone] at hheld
      have hfresh : r ∉ gone ++ work := fun hmem => by
        rw [← h.zero r hr, hone] at hmem
        cases hmem
      have hperm : (gone ++ r :: work).Perm (r :: (gone ++ work)) := List.perm_middle
      have hreleased : s.Released r := released_of_heldBeside (by omega) fun g hg =>
        h.released g (List.mem_append_left _ hg)
      refine ⟨hsize, hperm.nodup_iff.mpr (List.nodup_cons.mpr ⟨hfresh, h.nodup⟩), fun o ho => ?_,
        fun o ho => ?_, hcount, fun o ho => ?_⟩
      · obtain rfl | ho := List.mem_cons.mp (hperm.mem_iff.mp ho)
        · exact hr
        · exact h.made o ho
      · obtain rfl | ho := List.mem_cons.mp (hperm.mem_iff.mp ho)
        · exact hreleased
        · exact h.released o ho
      · rw [hgetD o ho, hperm.mem_iff, List.mem_cons, ← h.zero o ho]
        by_cases heq : r = o
        · subst heq
          simp [hone]
        · simp [heq, Ne.symm heq]
    · have hsize := h.size
      have hzero : counts.getD r.index 0 = 0 := by
        rw [Array.getD_eq_getD_getElem?, Array.getElem?_eq_none (hsize ▸ Nat.le_of_not_lt hr)]
        rfl
      rw [hzero] at hone
      cases hone
  · rw [if_neg hone]
    refine ⟨hsize, h.nodup, h.made, h.released, hcount, fun o ho => ?_⟩
    rw [hgetD o ho, ← h.zero o ho]
    by_cases heq : r = o
    · subst heq
      have hpos := h.count r ho
      rw [List.count_cons_self] at hpos
      rw [if_pos rfl]
      omega
    · rw [if_neg heq]

theorem foldl (h : s.Tally gone work rest counts) :
    s.Tally gone (rest.foldl State.countDown (counts, work)).2 []
      (rest.foldl State.countDown (counts, work)).1 := by
  induction rest generalizing work counts with
  | nil => exact h
  | cons r rest ih => exact ih h.countDown

theorem pop (h : s.Tally gone (o :: work) [] counts) :
    s.Tally (o :: gone) work (s.payload o).references counts := by
  have hperm : (o :: gone ++ work).Perm (gone ++ o :: work) := List.perm_middle.symm
  have hgone : o ∉ gone := fun hmem =>
    (List.nodup_append.mp h.nodup).2.2 o hmem o List.mem_cons_self rfl
  refine ⟨h.size, hperm.nodup_iff.mpr h.nodup, fun p hp => h.made p (hperm.mem_iff.mp hp),
    fun p hp => h.released p (hperm.mem_iff.mp hp), fun p hp => ?_, fun p hp => ?_⟩
  · have hmade := h.made o (by simp)
    rw [h.count p hp, heldBeside_cons hmade hgone, List.count_nil, Nat.add_zero]
  · rw [h.zero p hp, hperm.mem_iff]

theorem length_le (h : s.Tally gone work rest counts) : gone.length ≤ s.heap.size := by
  have hsub : gone ⊆ (List.range s.heap.size).map Ref.mk := fun o ho =>
    List.mem_map.mpr ⟨o.index, List.mem_range.mpr (h.made o (List.mem_append_left _ ho)), rfl⟩
  have hle := ((List.nodup_append.mp h.nodup).1.subperm hsub).length_le
  rwa [List.length_map, List.length_range] at hle

/-- In the end nobody waits to go. The rounds are enough, since every object goes once. -/
theorem releaseAll {rounds : Nat} (h : s.Tally gone work [] counts)
    (hrounds : s.heap.size < rounds + gone.length) :
    ∃ all, s.Tally all [] [] (State.releaseAll s.heap rounds work counts) := by
  induction rounds generalizing gone work counts with
  | zero =>
    have := h.length_le
    omega
  | succ rounds ih =>
    cases work with
    | nil => exact ⟨gone, h⟩
    | cons object work =>
      refine ih h.pop.foldl ?_
      rw [List.length_cons]
      omega

theorem initial (s : State) : s.Tally []
    (((List.range s.heap.size).filter fun index => s.initialCounts.getD index 0 = 0).map Ref.mk) []
    s.initialCounts := by
  have hzero (o : Ref) (ho : s.heap.Contains o) : s.initialCounts.getD o.index 0 = 0 ↔
      o ∈ ((List.range s.heap.size).filter fun index => s.initialCounts.getD index 0 = 0).map Ref.mk := by
    refine ⟨fun h => List.mem_map.mpr ⟨o.index, ?_, rfl⟩, fun h => ?_⟩
    · exact List.mem_filter.mpr ⟨List.mem_range.mpr ho, decide_eq_true h⟩
    · obtain ⟨index, hindex, rfl⟩ := List.mem_map.mp h
      exact of_decide_eq_true (List.mem_filter.mp hindex).2
  have hmade (o : Ref) (ho : o ∈ ((List.range s.heap.size).filter fun index =>
      s.initialCounts.getD index 0 = 0).map Ref.mk) : s.heap.Contains o := by
    obtain ⟨index, hindex, rfl⟩ := List.mem_map.mp ho
    exact List.mem_range.mp (List.mem_filter.mp hindex).1
  refine ⟨size_initialCounts s, ?_, hmade, fun o ho => ?_, fun o ho => ?_, hzero⟩
  · exact (List.nodup_range.filter _).map fun _ _ h => congrArg Ref.index h
  · have hheld : s.heldBeside [] o = 0 := by
      rw [← getD_initialCounts s (hmade o ho)]
      exact (hzero o (hmade o ho)).mpr ho
    exact released_of_heldBeside hheld nofun
  · rw [getD_initialCounts s ho, List.count_nil, Nat.add_zero]

end Tally

/-- In the end exactly the released objects are gone. -/
theorem exists_tally (s : State) : ∃ gone, s.Tally gone [] [] s.counts ∧
    ∀ o, s.heap.Contains o → (o ∈ gone ↔ s.Released o) := by
  have hrounds : s.heap.size < s.heap.size + 1 + ([] : List Ref).length := by simp
  obtain ⟨gone, htally⟩ := (Tally.initial s).releaseAll hrounds
  refine ⟨gone, htally, fun o ho => ⟨fun hgone => htally.released o (by simpa using hgone), fun h => ?_⟩⟩
  induction h with
  | @intro o notRoot _ ih =>
    have hheld : s.heldBeside gone o = 0 := by
      rw [heldBeside, List.count_eq_zero_of_not_mem notRoot, Nat.zero_add]
      refine sum_eq_zero_iff.mpr fun index hindex => List.count_eq_zero_of_not_mem fun hrefers => ?_
      obtain ⟨hmade, hgone⟩ := Finset.mem_filter.mp hindex
      exact hgone (ih ⟨index⟩ (Finset.mem_range.mp hmade) hrefers (Finset.mem_range.mp hmade))
    have hzero := htally.count o ho
    rw [hheld, List.count_nil] at hzero
    simpa using (htally.zero o ho).mp hzero

open Classical in
/-- An object is counted as often as it is a root, and as often as objects refer to it that are not
released. -/
theorem refCount_eq (ho : s.heap.Contains o) : s.refCount o = s.roots.count o +
    ∑ index ∈ range s.heap.size with ¬ s.Released ⟨index⟩, (s.payload ⟨index⟩).references.count o := by
  obtain ⟨gone, htally, hgone⟩ := s.exists_tally
  rw [refCount, htally.count o ho, List.count_nil, Nat.add_zero, heldBeside]
  congr 1
  refine Finset.sum_congr (Finset.filter_congr fun index hindex => ?_) fun _ _ => rfl
  rw [hgone ⟨index⟩ (Finset.mem_range.mp hindex)]

end ObjectModel.State
