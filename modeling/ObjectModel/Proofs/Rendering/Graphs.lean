import Mathlib.Data.List.Find
import ObjectModel.Proofs.Rendering.Answers

/-!
# Graphs that are shown

Making objects leaves a graph what it was (`State.Like`), so that its containers show the same, and
none of its maps finds a hook that can be called (`run_hook?`, `run_callableHook?`).
-/

namespace ObjectModel

open ObjectModel.Action
open Std (TreeSet)

-- ---------------------------------------------------------------------------
-- States in which a graph is what it was
-- ---------------------------------------------------------------------------

namespace State

/-- The objects of `s₀` are in `s` what they were. -/
structure Like (s₀ s : State) : Prop where
  memory : s.memory = s₀.memory
  nothing : s.nothing = s₀.nothing
  kept : ∀ o, s₀.heap.Contains o → s.payload o = s₀.payload o
  size : s₀.heap.size ≤ s.heap.size

theorem Like.refl (s : State) : s.Like s := ⟨rfl, rfl, fun _ _ => rfl, Nat.le_refl _⟩

theorem Like.grown {s₀ s t : State} (h : s₀.Like s) (hgrown : s.Grown t note) : s₀.Like t where
  memory := by rw [hgrown.rest]; exact h.memory
  nothing := by rw [hgrown.rest]; exact h.nothing
  kept o ho := (hgrown.kept o (Nat.lt_of_lt_of_le ho h.size)).trans (h.kept o ho)
  size := Nat.le_trans h.size hgrown.size

theorem Like.held {s₀ s : State} (h : s₀.Like s) (objects : List (List Ref)) :
    s₀.Like { s with held := objects } := ⟨h.memory, h.nothing, h.kept, h.size⟩

theorem Like.noted {s₀ s : State} (h : s₀.Like s) (note : Option (TreeSet Nat)) :
    s₀.Like { s with shown := note } := ⟨h.memory, h.nothing, h.kept, h.size⟩

theorem Reaches.tail {s : State} {o : Ref} (h : s.Reaches args p) (ho : o ∈ s.contents p) :
    s.Reaches args o := by
  obtain ⟨a, ha, hpath⟩ := h
  exact ⟨a, ha, hpath.tail ho⟩

variable {s₀ s : State} {args : List Ref} {o : Ref}

theorem mem_contents_of_cells (h : c ∈ s.cells o) : c ∈ s.contents o := by
  unfold cells at h
  unfold contents contents?
  cases hmap : s.payload o with
  | map cells => rw [hmap] at h; exact h
  | _ => rw [hmap] at h; cases h

theorem contents_of_cell {c : Ref} (h : s.payload c = .cell key value) :
    s.contents c = [key, value] := by
  rw [contents, contents?, h]
  rfl

section Graph

variable (hplain : s₀.Plain args) (hlike : s₀.Like s) (ho : s₀.Reaches args o)
include hplain hlike ho

theorem Like.payload : s.payload o = s₀.payload o := hlike.kept o (hplain.made o ho)

theorem Like.contents? : s.contents? o = s₀.contents? o := by
  unfold State.contents?
  rw [hlike.payload hplain ho]

theorem Like.plainText : s.plainText o = s₀.plainText o := by
  unfold State.plainText
  rw [hlike.payload hplain ho, hlike.memory]

theorem Like.quotedText : s.quotedText o = s₀.quotedText o := by
  unfold State.quotedText
  rw [hlike.payload hplain ho, hlike.memory, hlike.plainText hplain ho]

theorem Like.isNamed (name : String) : s.isNamed o name = s₀.isNamed o name := by
  unfold State.isNamed
  rw [hlike.payload hplain ho, hlike.memory]

theorem Like.cellIsNamed (name : String) : s.cellIsNamed name o = s₀.cellIsNamed name o := by
  unfold State.cellIsNamed
  rw [hlike.payload hplain ho]
  cases hcell : s₀.payload o with
  | cell key value =>
    have hkey : s₀.Reaches args key := ho.tail (by rw [contents_of_cell hcell]; simp)
    exact hlike.isNamed hplain hkey name
  | _ => rfl

theorem Like.cells : s.cells o = s₀.cells o := by
  unfold State.cells
  rw [hlike.payload hplain ho]

/-- A value under a name can be reached, and is under the name in the graph. -/
theorem Like.named? (name : String) (h : s.named? o name = some value) :
    s₀.named? o name = some value ∧ s₀.Reaches args value := by
  have hcell (c : Ref) (hc : c ∈ s₀.cells o) : s₀.Reaches args c :=
    ho.tail (mem_contents_of_cells hc)
  have hfind : s.findNamed? o name = s₀.findNamed? o name := by
    unfold State.findNamed?
    rw [hlike.cells hplain ho]
    exact List.find?_congr fun c hc => hlike.cellIsNamed hplain (hcell c hc) name
  unfold State.named? at h ⊢
  rw [hfind] at h
  cases hfound : s₀.findNamed? o name with
  | none => rw [hfound] at h; cases h
  | some c =>
    have hc := hcell c (List.mem_of_find?_eq_some hfound)
    have hvalue : s.cellValue? c = s₀.cellValue? c := by
      unfold State.cellValue?
      rw [hlike.payload hplain hc]
    rw [hfound] at h
    dsimp only [Option.bind_some] at h ⊢
    rw [hvalue] at h
    refine ⟨h, hc.tail ?_⟩
    unfold State.cellValue? at h
    cases hparts : s₀.payload c with
    | cell key other =>
      rw [hparts] at h
      cases h
      rw [contents_of_cell hparts]
      simp
    | _ => rw [hparts] at h; cases h

theorem Like.not_callable {name : String} (hname : name ∈ ["__tostring", "__repr"])
    (h : s.named? o name = some hook) : s.isCallable hook = false := by
  obtain ⟨hnamed, hreach⟩ := hlike.named? hplain ho name h
  unfold State.isCallable
  rw [hlike.payload hplain hreach]
  exact hplain.unhooked o ho name hname hook hnamed

end Graph

end State

section Hooks

variable {s₀ s : State} {args : List Ref} {o : Ref}
variable (hplain : s₀.Plain args) (hlike : s₀.Like s) (ho : s₀.Reaches args o)
include hplain hlike ho

theorem run_hook? (name : String) (hname : name ∈ ["__tostring", "__repr"]) :
    ∃ hook, (Map.hook? o name).run s = .ok hook s ∧ ∀ h ∈ hook, s.isCallable h = false := by
  unfold Map.hook?
  rw [EStateM.run_bind, Map.run_getNamed?]
  cases hnamed : s.named? o name with
  | none => exact ⟨none, rfl, nofun⟩
  | some value =>
    refine ⟨if value = s.nothing then none else some value, ?_, fun h hh => ?_⟩
    · dsimp only
      rw [EStateM.run_bind, run_isNothing]
      by_cases hnothing : value = s.nothing <;> simp [hnothing]
    · split at hh
      · cases hh
      · cases hh
        exact hlike.not_callable hplain ho hname hnamed

theorem run_callableHook? (name : String) (hname : name ∈ ["__tostring", "__repr"]) :
    (Map.callableHook? o name).run s = .ok none s := by
  obtain ⟨hook, hrun, hcallable⟩ := run_hook? hplain hlike ho name hname
  unfold Map.callableHook?
  rw [EStateM.run_bind, hrun]
  cases hook with
  | none => rfl
  | some hook =>
    dsimp only
    rw [EStateM.run_bind, EStateM.run_get]
    simp [hcallable hook rfl]

theorem run_mapToText (machine : Machine) (rest : List Ref) :
    ∃ objects, (Behavior.Maps.toText machine (o :: rest)).run s =
      (holding objects (Behavior.Maps.represent machine (o :: rest))).run s := by
  have hsubject : (argument (o :: rest) 0).run s = .ok o s := rfl
  obtain ⟨hook, hrun, hcallable⟩ := run_hook? hplain hlike ho "__tostring" (by simp)
  refine ⟨o :: hook.toList, ?_⟩
  rw [Behavior.Maps.toText, EStateM.run_bind, hsubject]
  dsimp only
  rw [EStateM.run_bind, hrun]
  cases hook with
  | none => rfl
  | some hook =>
    have hidle : State.isCallable { s with held := [o, hook] :: s.held } hook = false :=
      hcallable hook rfl
    dsimp only [Option.toList_some]
    rw [run_holding, run_holding, EStateM.run_bind, EStateM.run_get]
    dsimp only
    rw [hidle]
    rfl

end Hooks

end ObjectModel
