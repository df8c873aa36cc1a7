import ObjectModel.Proofs.Iteration.Steps
import ObjectModel.Proofs.Laws.Programs

/-!
# Interleaved walks

Any number of walks may be under way at a time, several over one container among them. Whatever the order
of their steps, each walk is given the elements of its container one after the other, and then no value
(`walks_interleave`). For a step changes nothing but its own scratch map, and the scratch maps never come
to share a part (`Running`).
-/

namespace ObjectModel

open ObjectModel.Action

/-- A walk: its stepping function, what it walks over, and its scratch map. -/
structure Walk where
  step : Ref
  container : Ref
  scratch : Ref

def Walk.next (run : Dispatcher) (walk : Walk) : Action Ref :=
  run.call walk.step [walk.container, walk.scratch]

variable {ι : Type} {walks : ι → Walk} {start s t : State} {map o : Ref} {i j : ι} {steps : List ι}
  {k : Nat}

namespace State

/-- Walks can start: their scratch maps are empty, and each is another map than those of the other walks
and than all containers. -/
structure Begins (s : State) (walks : ι → Walk) : Prop where
  ready : ∀ i, ∃ function, s.payload (walks i).step = .native (.builtin function) ∧
    s.Walkable (walks i).container function
  empty : ∀ i, s.payload (walks i).scratch = .map []
  distinct : Function.Injective fun i => (walks i).scratch
  aside : ∀ i j, (walks i).scratch ≠ (walks j).container

/-- What a walk only looks at: its stepping function, and what its container consists of. -/
def Serves (s : State) (walk : Walk) (o : Ref) : Prop := o = walk.step ∨ s.Consists walk.container o

/-- Anything may have happened, but not to what the walks look at or to their scratch maps. -/
structure LeavesAlone (s : State) (walks : ι → Walk) (t : State) : Prop where
  nothing : t.nothing = s.nothing
  size : s.heap.size ≤ t.heap.size
  served : ∀ i o, s.Serves (walks i) o → t.payload o = s.payload o
  parts : ∀ i o, s.Part (walks i).scratch o → t.payload o = s.payload o

theorem Begins.kind_ne (h : s.Begins walks) (ho : s.Serves (walks i) o) : s.kind o ≠ .singlet := by
  obtain ⟨function, hstep, hwalkable⟩ := h.ready i
  rcases ho with rfl | hconsists
  · simp [kind_of_payload hstep, Payload.kind]
  · exact hwalkable.kind_ne hconsists

end State

/-- A history of steps. Between them anything may happen that leaves the walks alone. -/
inductive Interleaved (host : Host) (walks : ι → Walk) (start : State) : List ι → State → Prop
  | start : Interleaved host walks start [] start
  | step {steps : List ι} {s t : State} {element : Ref} (h : Interleaved host walks start steps s)
      (rounds : Nat) (i : ι) (hroom : s.room ≠ 0)
      (hrun : ((walks i).next (machine host (rounds + 1)).toDispatcher).run s = .ok element t) :
      Interleaved host walks start (steps ++ [i]) t
  | meanwhile {steps : List ι} {s t : State} (h : Interleaved host walks start steps s)
      (halone : s.LeavesAlone walks t) : Interleaved host walks start steps t

-- ---------------------------------------------------------------------------
-- What every step keeps
-- ---------------------------------------------------------------------------

/-- Walks under way, each as many elements on as it has stepped. -/
structure Running [DecidableEq ι] (walks : ι → Walk) (start : State) (steps : List ι) (s : State) :
    Prop where
  nothing : s.nothing = start.nothing
  served : ∀ i o, start.Serves (walks i) o → s.payload o = start.payload o
  scratch : ∀ i, ∃ log, s.Scratch (walks i).scratch log
  stands : ∀ i, s.Stands (walks i).container (walks i).scratch (steps.count i)
  apart : ∀ i j, i ≠ j → ∀ o, s.Part (walks i).scratch o → ¬ s.Part (walks j).scratch o
  aside : ∀ i j o, start.Serves (walks i) o → ¬ s.Part (walks j).scratch o

namespace Running

variable [DecidableEq ι]

theorem served_iff (h : Running walks start steps s) :
    s.Serves (walks i) o ↔ start.Serves (walks i) o := by
  have hcells : s.cells (walks i).container = start.cells (walks i).container :=
    State.cells_of_payload (h.served i _ (.inr (.inl rfl)))
  rw [State.Serves, State.Serves, State.Consists, State.Consists, hcells]

theorem walkable (h : Running walks start steps s) {function : Builtin}
    (hwalkable : start.Walkable (walks i).container function) :
    s.Walkable (walks i).container function :=
  hwalkable.kept (h.served i _ (.inr (.inl rfl))) fun cell hcell => h.served i cell (.inr (.inr hcell))

theorem contains (h : Running walks start steps s) (hstart : start.Begins walks)
    (ho : start.Serves (walks i) o) : s.heap.Contains o := by
  refine State.contains_of_kind_ne ?_
  rw [State.kind, h.served i o ho]
  exact hstart.kind_ne ho

theorem left (h : Running walks start steps s) (i : ι) (hsize : s.heap.size ≤ t.heap.size)
    (hcontainer : t.payload (walks i).container = s.payload (walks i).container)
    (hparts : ∀ o, s.Part (walks i).scratch o → t.payload o = s.payload o) :
    (∃ log, t.Scratch (walks i).scratch log) ∧
      t.Stands (walks i).container (walks i).scratch (steps.count i) ∧
      ∀ o, t.Part (walks i).scratch o ↔ s.Part (walks i).scratch o := by
  obtain ⟨log, hscratch⟩ := h.scratch i
  obtain ⟨hafter, hiff⟩ := hscratch.kept hsize fun o hpart _ => hparts o hpart
  exact ⟨⟨log, hafter⟩, (h.stands i).kept hscratch hafter hcontainer hparts, hiff⟩

theorem begun (h : start.Begins walks) : Running walks start [] start where
  nothing := rfl
  served _ _ _ := rfl
  scratch i := ⟨[], .empty (h.empty i)⟩
  stands i := by
    obtain ⟨function, -, hwalkable⟩ := h.ready i
    exact hwalkable.stands_zero (h.empty i)
  apart i j hne o hpart hpart' := by
    have hsame := (State.part_of_empty (h.empty i) hpart).symm.trans (State.part_of_empty (h.empty j) hpart')
    exact hne (h.distinct hsame)
  aside i j o hserves hpart := by
    obtain ⟨function, hstep, hwalkable⟩ := h.ready i
    have hmap : start.kind (walks j).scratch = .map := State.kind_of_payload (h.empty j)
    rw [State.part_of_empty (h.empty j) hpart] at hserves
    rcases hserves with hself | hself | hcell
    · simp [hself, State.kind_of_payload hstep, Payload.kind] at hmap
    · exact h.aside j i hself
    · simp [hwalkable.kind_cell hcell] at hmap

theorem others (h : Running walks start steps s) (htouches : s.Touches (walks i).scratch t) (hne : j ≠ i)
    (hpart : s.Part (walks j).scratch o) : t.payload o = s.payload o := by
  obtain ⟨log, hmap⟩ := h.scratch j
  exact htouches.kept o (hmap.made o hpart) (h.apart j i hne o hpart)

/-- What a walk took into its scratch map is new, so it has no part in another one. -/
theorem apart_others (h : Running walks start steps s) (htouches : s.Touches (walks i).scratch t)
    (hne : j ≠ i) (hpart : t.Part (walks i).scratch o) : ¬ s.Part (walks j).scratch o := by
  intro hother
  rcases htouches.parts o hpart with hold | hnew
  · exact h.apart i j hne.symm o hold hother
  · obtain ⟨log, hmap⟩ := h.scratch j
    exact hnew (hmap.made o hother)

theorem step (h : Running walks start steps s) (hstart : start.Begins walks)
    (hscratch : ∃ log, t.Scratch (walks i).scratch log) (htouches : s.Touches (walks i).scratch t)
    (hstands : t.Stands (walks i).container (walks i).scratch (steps.count i + 1)) :
    Running walks start (steps ++ [i]) t := by
  have hserved (j : ι) (o : Ref) (ho : start.Serves (walks j) o) : t.payload o = s.payload o :=
    htouches.kept o (h.contains hstart ho) (h.aside j i o ho)
  have hleft (j : ι) (hne : j ≠ i) :=
    h.left j htouches.size (hserved j _ (.inr (.inl rfl))) fun o => h.others htouches hne
  refine ⟨?_, fun j o ho => (hserved j o ho).trans (h.served j o ho), ?_, ?_, ?_, ?_⟩
  · rw [htouches.rest]
    exact h.nothing
  · intro j
    by_cases hne : j = i
    · exact hne ▸ hscratch
    · exact (hleft j hne).1
  · intro j
    by_cases hne : j = i
    · subst hne
      simpa using hstands
    · simpa [List.count_append, List.count_singleton, Ne.symm hne] using (hleft j hne).2.1
  · intro j l hne o hpart hother
    by_cases hj : j = i
    · subst hj
      exact h.apart_others htouches hne.symm hpart (((hleft l hne.symm).2.2 o).mp hother)
    · rw [(hleft j hj).2.2] at hpart
      by_cases hl : l = i
      · subst hl
        exact h.apart_others htouches hj hother hpart
      · exact h.apart j l hne o hpart (((hleft l hl).2.2 o).mp hother)
  · intro j l o ho hpart
    by_cases hl : l = i
    · subst hl
      rcases htouches.parts o hpart with hold | hnew
      · exact h.aside j l o ho hold
      · exact hnew (h.contains hstart ho)
    · exact h.aside j l o ho (((hleft l hl).2.2 o).mp hpart)

theorem leftAlone (h : Running walks start steps s) (halone : s.LeavesAlone walks t) :
    Running walks start steps t := by
  have hserved (i : ι) (o : Ref) (ho : start.Serves (walks i) o) : t.payload o = s.payload o :=
    halone.served i o (h.served_iff.mpr ho)
  have hleft (i : ι) :=
    h.left i halone.size (hserved i _ (.inr (.inl rfl))) (halone.parts i)
  refine ⟨halone.nothing.trans h.nothing, fun i o ho => (hserved i o ho).trans (h.served i o ho),
    fun i => (hleft i).1, fun i => (hleft i).2.1, ?_, ?_⟩
  · intro i j hne o hpart hother
    exact h.apart i j hne o (((hleft i).2.2 o).mp hpart) (((hleft j).2.2 o).mp hother)
  · exact fun i j o ho hpart => h.aside i j o ho (((hleft j).2.2 o).mp hpart)

theorem ends_next (h : Running walks start steps s) (hstart : start.Begins walks) (i : ι)
    (hroom : s.room ≠ 0) (host : Host) (rounds : Nat) :
    ((walks i).next (machine host (rounds + 1)).toDispatcher).Ends s
      (Iteration.Stepped s (walks i).container (walks i).scratch (steps.count i)) fun _ => False := by
  obtain ⟨function, hstep, hwalkable⟩ := hstart.ready i
  obtain ⟨log, hscratch⟩ := h.scratch i
  refine Iteration.ends_call_step ((h.served i _ (.inl rfl)).trans hstep) hroom (h.walkable hwalkable)
    hscratch (h.stands i) fun o ho => ?_
  exact h.aside i i o (h.served_iff.mp (.inr ho))

end Running

variable [DecidableEq ι]

/-- Walks whose steps were interleaved are under way. -/
theorem Interleaved.running {host : Host} (h : Interleaved host walks start steps s)
    (hstart : start.Begins walks) : Running walks start steps s := by
  induction h with
  | start => exact .begun hstart
  | step h rounds i hroom hrun ih =>
    have hends := ih.ends_next hstart i hroom host rounds
    rw [Ends, hrun] at hends
    exact ih.step hstart hends.2.1 hends.2.2.1 hends.2.2.2
  | meanwhile h halone ih => exact ih.leftAlone halone

/-- What a walk is given is an element of the container as it was at the start. -/
theorem Running.yields (h : Running walks start steps s) {element : Ref}
    (hyields : s.Yields (walks i).container k element t) :
    start.Yields (walks i).container k element t := by
  have hcontainer := h.served i _ (.inr (.inl rfl))
  have hcells : s.cells (walks i).container = start.cells (walks i).container :=
    State.cells_of_payload hcontainer
  have hkeys : s.keys (walks i).container = start.keys (walks i).container := by
    simp only [State.keys, State.entries, hcells]
    refine congrArg _ (List.filterMap_congr fun cell hcell => ?_)
    rw [h.served i cell (.inr (.inr hcell))]
  simpa only [State.Yields, hcontainer, hkeys, h.nothing] using hyields

/-- Walks are complete, ordered and independent. However the steps of walks are interleaved, a further
step of a walk, with room for its frame, gives the element at the place that the walk has come to, or no
value behind the last; and it changes no container, and of the scratch maps only its own. -/
theorem walks_interleave (host : Host) (hstart : start.Begins walks)
    (h : Interleaved host walks start steps s) (i : ι) (rounds : Nat) (hroom : s.room ≠ 0) :
    ∃ element t, ((walks i).next (machine host (rounds + 1)).toDispatcher).run s = .ok element t ∧
      start.Yields (walks i).container (steps.count i) element t ∧
      (∀ j o, start.Consists (walks j).container o → t.payload o = start.payload o) ∧
      (∀ j ≠ i, ∀ o, s.Part (walks j).scratch o → t.payload o = s.payload o) ∧
      t = { s with heap := t.heap } := by
  have hrunning := h.running hstart
  obtain ⟨element, t, hrun, hyields, hscratch, htouches, hstands⟩ :=
    (hrunning.ends_next hstart i hroom host rounds).exists_run
  have hnext := hrunning.step hstart hscratch htouches hstands
  refine ⟨element, t, hrun, hrunning.yields hyields, ?_, ?_, htouches.rest⟩
  · exact fun j o ho => hnext.served j o (.inr ho)
  · exact fun j hne o => hrunning.others htouches hne

/-- Two walks over one list, and one over a text. -/
theorem walks_interleave_list :
    let start := { Globals.bare {} .discard {} with
      heap := ⟨#[.singlet "None", .list #[⟨2⟩, ⟨3⟩], .int 10, .int 20, .native (.builtin .iterList),
        .map [], .map [], .string "h", .native (.builtin .iterString), .map []]⟩ }
    let walks : Fin 3 → Walk
      | 0 => ⟨⟨4⟩, ⟨1⟩, ⟨5⟩⟩
      | 1 => ⟨⟨4⟩, ⟨1⟩, ⟨6⟩⟩
      | 2 => ⟨⟨8⟩, ⟨7⟩, ⟨9⟩⟩
    ∃ s t, Interleaved .steady walks start [0, 2, 1, 0] s ∧
      ((walks 1).next (machine .steady 1).toDispatcher).run s = .ok ⟨3⟩ t := by
  intro start walks
  have hstart : start.Begins walks := by
    refine ⟨fun i => ?_, fun i => ?_, fun i j => ?_, fun i j => ?_⟩
    · match i with
      | 0 => exact ⟨.iterList, rfl, .list rfl⟩
      | 1 => exact ⟨.iterList, rfl, .list rfl⟩
      | 2 => exact ⟨.iterString, rfl, .string rfl (by decide)⟩
    · match i with
      | 0 | 1 | 2 => rfl
    · revert i j
      decide
    · revert i j
      decide
  have hfurther {steps : List (Fin 3)} {s : State} (h : Interleaved .steady walks start steps s)
      (hroom : s.room ≠ 0) (i : Fin 3) :
      ∃ t, Interleaved .steady walks start (steps ++ [i]) t ∧ t.room ≠ 0 := by
    obtain ⟨element, t, hrun, -, -, -, hrest⟩ := walks_interleave .steady hstart h i 0 hroom
    exact ⟨t, .step h 0 i hroom hrun, by rwa [hrest]⟩
  obtain ⟨s, h, hroom⟩ := hfurther .start (by decide) 0
  obtain ⟨s, h, hroom⟩ := hfurther h hroom 2
  obtain ⟨s, h, hroom⟩ := hfurther h hroom 1
  obtain ⟨s, h, hroom⟩ := hfurther h hroom 0
  obtain ⟨element, t, hrun, hyields, -⟩ := walks_interleave .steady hstart h 1 0 hroom
  obtain rfl : element = ⟨3⟩ := hyields
  exact ⟨s, t, h, hrun⟩

end ObjectModel
