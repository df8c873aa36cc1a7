import ObjectModel.Builtin.Globals
import ObjectModel.Proofs.Errors.Raised
import ObjectModel.Proofs.Maps.Lookup

/-!
# Comparisons that come to an end

Two lists of one length are compared item by item, with no bound on how deep lists lie inside lists. A
comparison comes to an end, and so do the lookups and stores that make it, unless items face items
without end (`ends_compare_of_acc`).
-/

namespace ObjectModel

open ObjectModel.Action Behavior

-- ---------------------------------------------------------------------------
-- What comparisons leave as it was
-- ---------------------------------------------------------------------------

namespace State

/-- Nothing that was there is another object. -/
structure Keeps (s t : State) : Prop where
  nothing : t.nothing = s.nothing
  kept : ∀ o, s.heap.Contains o → t.payload o = s.payload o
  size : s.heap.size ≤ t.heap.size

variable {s t u : State}

theorem Keeps.refl (s : State) : s.Keeps s := ⟨rfl, fun _ _ => rfl, Nat.le_refl _⟩

theorem Keeps.payload_eq {payload : Payload} (h : s.Keeps t) (hp : s.payload object = payload)
    (hkind : payload.kind ≠ .singlet) : t.payload object = payload :=
  (h.kept object (contains_of_kind_ne (by rwa [kind, hp]))).trans hp

theorem Keeps.trans (h : s.Keeps t) (h' : t.Keeps u) : s.Keeps u where
  nothing := h'.nothing.trans h.nothing
  kept o ho := (h'.kept o (Nat.lt_of_lt_of_le ho h.size)).trans (h.kept o ho)
  size := Nat.le_trans h.size h'.size

theorem Grown.keeps {note : Option (Std.TreeSet Nat)} (h : s.Grown t note) : s.Keeps t :=
  ⟨by rw [h.rest], h.kept, h.size⟩

theorem Raised.keeps {fault : Fault} (h : s.Raised fault t) : s.Keeps t :=
  ⟨h.grown.keeps.nothing, h.grown.kept, h.grown.size⟩

theorem Keeps.thenMade (h : s.Keeps t) (payload : Payload) : s.Keeps (t.made payload) :=
  h.trans (Grown.made t payload).keeps

theorem Keeps.unheld {held : List (List Ref)} (h : (s.withHeld held).Keeps t) :
    s.Keeps (t.withHeld s.held) := ⟨h.nothing, h.kept, h.size⟩

theorem Keeps.held (h : s.Keeps t) (held : List (List Ref)) : s.Keeps (t.withHeld held) :=
  ⟨h.nothing, h.kept, h.size⟩

theorem keeps_withBlock (s : State) (bytes : Bytes) : s.Keeps (s.withBlock bytes) :=
  ⟨rfl, (Grown.made s _).kept, (Grown.made s _).size⟩

end State

-- ---------------------------------------------------------------------------
-- Pairs that are compared at once
-- ---------------------------------------------------------------------------

theorem Action.ends_createBuffer (bytes : Bytes) {Q : Ref → State → Prop} {E : State → Prop} :
    (createBuffer bytes).Ends s Q E ↔
      (¬ s.memory.Fits bytes.length → E (s.faulting (.allocation bytes.length))) ∧
      (s.memory.Fits bytes.length → Q s.heap.next (s.withBlock bytes)) := by
  unfold Ends
  rw [run_createBuffer]
  by_cases h : s.memory.Fits bytes.length <;> simp [h]

variable {s s₀ : State} {left right : Ref}

theorem ends_toBuffer_text (host : Host) (rounds : Nat) {o : Ref} (h : s.payload o = .string text)
    {Q : Ref → State → Prop} {E : State → Prop} : ((machine host (rounds + 1)).toBuffer o).Ends s Q E ↔
      (createBuffer (Bytes.ofText text)).Ends s Q E := by
  rw [Dispatcher.toBuffer, Dispatcher.unary, Dispatcher.ends_dispatch, State.kind_of_payload h, machine,
    Payload.kind, ends_behave Strings.toBuffer host _ _ rfl]
  simp only [Strings.toBuffer, Strings.bytesOfArgument, Strings.ofArgument, ends_bind,
    ends_argument_first, ends_payload, ends_pure, h]
  rfl

theorem ends_toBuffer_string (host : Host) (rounds : Nat) {o : Ref} (h : s.payload o = .string text) :
    ((machine host (rounds + 1)).toBuffer o).Ends s
      (fun made t => s.memory.Fits (Bytes.ofText text).length ∧ made = s.heap.next ∧
        t = s.withBlock (Bytes.ofText text)) s.Keeps := by
  rw [ends_toBuffer_text host rounds h, ends_createBuffer]
  exact ⟨fun _ => (State.raised_faulting s _).keeps, fun hfits => ⟨hfits, rfl, rfl⟩⟩

theorem ends_compare_string (host : Host) (rounds : Nat) (hleft : s.payload left = .buffer buffer)
    (hright : s.payload right = .string text) :
    ((machine host (rounds + 2)).compare left right).Ends s
      (fun n t => s.memory.Fits (Bytes.ofText text).length ∧
        n = Integer.sign (Buffers.order (s.withBlock (Bytes.ofText text)).memory buffer.view
          (.sized (s.memory.allocate (Bytes.ofText text)).1 (Bytes.ofText text).length)) ∧
        (s.withBlock (Bytes.ofText text)).Grown t s.shown) s.Keeps := by
  rw [Dispatcher.ends_compare, State.kind_of_payload hleft, machine, Payload.kind,
    ends_behave Buffers.compare host _ _ rfl]
  simp only [Buffers.compare, Buffers.viewOf, ends_bind, ends_argument_first, ends_argument_second,
    ends_payload, State.payload_withHeld, hleft, ends_pure, ends_kind, State.kind_withHeld,
    State.kind_of_payload hright, Payload.kind, ends_get, ends_createInt]
  have hbuffered := ends_toBuffer_string (s := s.withHeld ([left, right] :: s.held)) host rounds hright
  refine hbuffered.imp ?_ fun t h => h.unheld
  rintro _ t ⟨hfits, rfl, rfl⟩
  have hmade : ((s.withHeld ([left, right] :: s.held)).withBlock (Bytes.ofText text)).payload
      (s.withHeld ([left, right] :: s.held)).heap.next = .buffer {
        view := .sized (s.memory.allocate (Bytes.ofText text)).1 (Bytes.ofText text).length
        ownership := .owned } := payload_made_next s _
  simp only [hmade, ends_pure]
  exact ⟨hfits, State.verdict_int (payload_made_next _ _), .made (s.withBlock _) _⟩

theorem ends_compare_single (host : Host) (rounds : Nat)
    (h : ¬ (s.kind left = .list ∧ s.kind right = .list)) :
    ((machine host (rounds + 2)).compare left right).Ends s
      (fun n t => n ∈ [-1, 0, 1] ∧ s.Keeps t) s.Keeps := by
  by_cases hstring : s.kind left = .buffer ∧ s.kind right = .string
  · obtain ⟨buffer, hbuffer⟩ := State.payload_of_buffer hstring.1
    obtain ⟨text, htext⟩ := State.payload_of_string hstring.2
    refine (ends_compare_string host rounds hbuffer htext).imp_value ?_
    rintro _ t ⟨-, rfl, hgrown⟩
    exact ⟨Integer.sign_mem _, (State.keeps_withBlock s _).trans hgrown.keeps⟩
  · refine (ends_compare_leaf host rounds ⟨h, hstring⟩).imp_sure ?_
    rintro _ t ⟨rfl, hgrown⟩
    exact ⟨Integer.sign_mem _, hgrown.keeps⟩

-- ---------------------------------------------------------------------------
-- Lists
-- ---------------------------------------------------------------------------

/-- Two items face each other in two lists of one length. -/
def State.Faces (s : State) (inner outer : Ref × Ref) : Prop :=
  ∃ lefts rights, s.payload outer.1 = .list lefts ∧ s.payload outer.2 = .list rights ∧
    lefts.size = rights.size ∧ inner ∈ lefts.toList.zip rights.toList

theorem State.contains_of_list (h : s.payload o = .list items) : s.heap.Contains o :=
  contains_of_kind_ne (by simp [kind_of_payload h, Payload.kind])

theorem State.Closed.made_faces {inner outer : Ref × Ref} (h : s.Closed)
    (hfaces : s.Faces inner outer) : s.heap.Contains inner.1 ∧ s.heap.Contains inner.2 := by
  obtain ⟨lefts, rights, hlefts, hrights, -, hinner⟩ := hfaces
  obtain ⟨hleft, hright⟩ := List.of_mem_zip hinner
  exact ⟨h.made_of_mem (p := outer.1) (by simpa [hlefts, Payload.references] using hleft),
    h.made_of_mem (p := outer.2) (by simpa [hrights, Payload.references] using hright)⟩

def State.Holds (s : State) (inner outer : Ref) : Prop :=
  ∃ items, s.payload outer = .list items ∧ inner ∈ items

/-- It is enough that one of two lists does not hold lists without end. -/
theorem State.acc_faces_of_left (h : Acc s.Holds left) (right : Ref) : Acc s.Faces (left, right) := by
  induction h generalizing right with
  | intro left _ ih =>
    refine .intro _ ?_
    rintro ⟨inner, other⟩ ⟨lefts, _, hlefts, -, -, hinner⟩
    exact ih inner ⟨lefts, hlefts, by simpa using (List.of_mem_zip hinner).1⟩ other

theorem enough_for_all {α : Type} {P : α → Nat → Prop} {xs : List α}
    (h : ∀ x ∈ xs, ∃ enough, ∀ rounds ≥ enough, P x rounds) :
    ∃ enough, ∀ rounds ≥ enough, ∀ x ∈ xs, P x rounds := by
  induction xs with
  | nil => exact ⟨0, by simp⟩
  | cons x xs ih =>
    obtain ⟨first, hfirst⟩ := h x List.mem_cons_self
    obtain ⟨others, hothers⟩ := ih fun y hy => h y (List.mem_cons_of_mem x hy)
    refine ⟨max first others, fun rounds hrounds y hy => ?_⟩
    rcases List.mem_cons.mp hy with rfl | hy
    · exact hfirst rounds (le_trans (le_max_left ..) hrounds)
    · exact hothers rounds (le_trans (le_max_right ..) hrounds) y hy

theorem ends_compareItems (run : Dispatcher) {lefts rights : List Ref}
    (hitems : ∀ pair ∈ lefts.zip rights, ∀ t, s₀.Keeps t → (run.compare pair.1 pair.2).Ends t
      (fun n u => n ∈ [-1, 0, 1] ∧ t.Keeps u) t.Keeps) (hkeeps : s₀.Keeps s) :
    (Lists.compareItems run lefts rights).Ends s (fun _ t => s.Keeps t) s.Keeps := by
  induction lefts generalizing rights s with
  | nil => exact .refl s
  | cons left lefts ih =>
    cases rights with
    | nil => exact .refl s
    | cons right rights =>
      rw [Lists.compareItems, ends_bind]
      refine (hitems (left, right) List.mem_cons_self s hkeeps).imp_value ?_
      rintro n t ⟨-, hstep⟩
      by_cases hn : n = 0
      · have hrest := ih (fun pair hpair => hitems pair (List.mem_cons_of_mem _ hpair))
          (hkeeps.trans hstep)
        simpa [hn] using hrest.imp (fun _ _ h => hstep.trans h) fun _ h => hstep.trans h
      · simpa [hn] using hstep

theorem ends_compare_list (host : Host) (rounds : Nat) {lefts rights : Array Ref}
    (hleft : s.payload left = .list lefts) (hright : s.payload right = .list rights)
    (hsize : lefts.size = rights.size) {Q : Int64 → State → Prop} {E : State → Prop} :
    ((machine host (rounds + 1)).compare left right).Ends s Q E ↔
      (Lists.compareItems (machine host rounds).toDispatcher lefts.toList rights.toList).Ends
        (s.withHeld ([left, right] :: s.held))
        (fun n t => Q (Integer.sign n) ((t.made (.int n)).withHeld s.held))
        fun t => E (t.withHeld s.held) := by
  have hkind : s.kind left = .list := State.kind_of_payload hleft
  have hverdict (t : State) (n : Int64) :
      (t.made (.int n)).verdict t.heap.next = Integer.sign n :=
    State.verdict_int (payload_made_next t _)
  rw [Dispatcher.ends_compare, hkind, machine, ends_behave Lists.compare host _ _ rfl]
  simp only [Lists.compare, Lists.itemsOf, ends_bind, ends_argument_first, ends_argument_second,
    ends_payload, State.payload_withHeld, hleft, hright, Payload.items?, Option.getD_some, ends_pure,
    hsize, Nat.lt_irrefl, if_false, ends_createInt, hverdict]

theorem ends_compare_unequal (host : Host) (rounds : Nat) {lefts rights : Array Ref}
    (hleft : s.payload left = .list lefts) (hright : s.payload right = .list rights)
    (hsize : lefts.size ≠ rights.size) : ((machine host (rounds + 1)).compare left right).Ends s
      (fun n t => n = Integer.ofOrdering (Ord.compare lefts.size rights.size) ∧ s.Grown t s.shown)
      fun _ => False := by
  have hkind : s.kind left = .list := State.kind_of_payload hleft
  have hmade (n : Int64) (hn : Integer.sign n = n) (t : State) :
      (t.made (.int n)).verdict t.heap.next = n := by
    rw [State.verdict_int (payload_made_next t _), hn]
  rw [Dispatcher.ends_compare, hkind, machine, ends_behave Lists.compare host _ _ rfl]
  simp only [Lists.compare, Lists.itemsOf, ends_bind, ends_argument_first, ends_argument_second,
    ends_payload, State.payload_withHeld, hleft, hright, Payload.items?, Option.getD_some, ends_pure]
  rcases Nat.lt_or_gt_of_ne hsize with hless | hmore
  · simp only [hless, if_true, ends_createInt]
    rw [hmade _ (by decide), Nat.compare_eq_lt.mpr hless]
    exact ⟨rfl, .made s _⟩
  · simp only [Nat.not_lt_of_gt hmore, hmore, if_false, if_true, ends_createInt]
    rw [hmade _ (by decide), Nat.compare_eq_gt.mpr hmore]
    exact ⟨rfl, .made s _⟩

/-- A comparison comes to an end if no items face each other without end. -/
theorem ends_compare_of_acc (host : Host) (hclosed : s₀.Closed) {pair : Ref × Ref}
    (hacc : Acc s₀.Faces pair) (hleft : s₀.heap.Contains pair.1) (hright : s₀.heap.Contains pair.2) :
    ∃ enough, ∀ rounds ≥ enough, ∀ s, s₀.Keeps s →
      ((machine host rounds).compare pair.1 pair.2).Ends s
        (fun n t => n ∈ [-1, 0, 1] ∧ s.Keeps t) s.Keeps := by
  induction hacc with
  | intro pair _ ih =>
    obtain ⟨left, right⟩ := pair
    by_cases hlists : s₀.kind left = .list ∧ s₀.kind right = .list
    · obtain ⟨lefts, hlefts⟩ := State.payload_of_list hlists.1
      obtain ⟨rights, hrights⟩ := State.payload_of_list hlists.2
      by_cases hsize : lefts.size = rights.size
      · obtain ⟨enough, hitems⟩ : ∃ enough, ∀ rounds ≥ enough,
            ∀ inner ∈ lefts.toList.zip rights.toList, ∀ s, s₀.Keeps s →
              ((machine host rounds).compare inner.1 inner.2).Ends s
                (fun n t => n ∈ [-1, 0, 1] ∧ s.Keeps t) s.Keeps := by
          refine enough_for_all fun inner hinner => ?_
          have hface : s₀.Faces inner (left, right) := ⟨lefts, rights, hlefts, hrights, hsize, hinner⟩
          have hmade := hclosed.made_faces hface
          exact ih inner hface hmade.1 hmade.2
        -- One round is for the two lists, the others for their items.
        refine ⟨enough + 1, fun rounds hrounds s hkeeps => ?_⟩
        obtain ⟨rounds, rfl⟩ : ∃ less, rounds = less + 1 := ⟨rounds - 1, by omega⟩
        rw [ends_compare_list host rounds ((hkeeps.kept left hleft).trans hlefts)
          ((hkeeps.kept right hright).trans hrights) hsize]
        have hheld := hkeeps.held ([left, right] :: s.held)
        refine (ends_compareItems _ (hitems rounds (by omega)) hheld).imp ?_ fun t h => h.unheld
        exact fun n t h => ⟨Integer.sign_mem n, (h.thenMade _).unheld⟩
      · refine ⟨1, fun rounds hrounds s hkeeps => ?_⟩
        obtain ⟨rounds, rfl⟩ : ∃ less, rounds = less + 1 := ⟨rounds - 1, by omega⟩
        refine (ends_compare_unequal host rounds ((hkeeps.kept left hleft).trans hlefts)
          ((hkeeps.kept right hright).trans hrights) hsize).imp_sure ?_
        rintro _ t ⟨rfl, hgrown⟩
        exact ⟨Integer.ofOrdering_mem _, hgrown.keeps⟩
    · refine ⟨2, fun rounds hrounds s hkeeps => ?_⟩
      obtain ⟨rounds, rfl⟩ : ∃ less, rounds = less + 2 := ⟨rounds - 2, by omega⟩
      refine ends_compare_single host rounds ?_
      simpa only [State.kind, hkeeps.kept left hleft, hkeeps.kept right hright] using hlists

-- ---------------------------------------------------------------------------
-- Lookups and stores
-- ---------------------------------------------------------------------------

/-- An object can be compared with every key of a map. -/
def State.Settles (s : State) (map probe : Ref) : Prop :=
  ∀ cell ∈ s.cells map, ∀ key value, s.payload cell = .cell key value → Acc s.Faces (probe, key)

theorem Map.ends_keyMatches_of_acc (host : Host) (hclosed : s₀.Closed) {probe key : Ref}
    (hacc : Acc s₀.Faces (probe, key)) (hprobe : s₀.heap.Contains probe)
    (hkey : s₀.heap.Contains key) : ∃ enough, ∀ rounds ≥ enough, ∀ s name, s₀.Keeps s →
      (keyMatches (machine host rounds).toDispatcher probe name key).Ends s
        (fun _ t => s.Keeps t) s.Keeps := by
  obtain ⟨enough, hends⟩ := ends_compare_of_acc host hclosed hacc hprobe hkey
  refine ⟨enough, fun rounds hrounds s name hkeeps => ?_⟩
  have hcompare := (hends rounds hrounds s hkeeps).imp_value fun _ _ h => h.2
  simp only [keyMatches, ends_bind, ends_nameBytes?]
  split
  · exact .refl s
  · simpa using hcompare

theorem Map.ends_firstMatch_of_matches (run : Dispatcher) {probe : Ref} {cells : List Ref}
    (hmade : ∀ cell ∈ cells, s₀.heap.Contains cell)
    (hmatches : ∀ cell ∈ cells, ∀ key value, s₀.payload cell = .cell key value → ∀ s name,
      s₀.Keeps s → (keyMatches run probe name key).Ends s (fun _ t => s.Keeps t) s.Keeps)
    (hkeeps : s₀.Keeps s) (name : Option Bytes) : (firstMatch run probe name cells).Ends s
      (fun found t => (∀ cell ∈ found, cell ∈ cells) ∧ s.Keeps t) s.Keeps := by
  induction cells generalizing s with
  | nil => exact ⟨by simp, .refl s⟩
  | cons cell rest ih =>
    have hrest (t : State) (ht : s₀.Keeps t) : (firstMatch run probe name rest).Ends t
        (fun found u => (∀ other ∈ found, other ∈ cell :: rest) ∧ t.Keeps u) t.Keeps := by
      refine (ih (fun c hc => hmade c (List.mem_cons_of_mem _ hc))
        (fun c hc => hmatches c (List.mem_cons_of_mem _ hc)) ht).imp_value ?_
      exact fun found u h => ⟨fun other hother => List.mem_cons_of_mem _ (h.1 other hother), h.2⟩
    rw [firstMatch, ends_bind, ends_payload, hkeeps.kept cell (hmade cell List.mem_cons_self)]
    cases hparts : s₀.payload cell with
    | cell key value =>
      simp only [Payload.cellParts?, ends_bind]
      refine (hmatches cell List.mem_cons_self key value hparts s name hkeeps).imp_value ?_
      rintro (_ | _) t ht
      · refine (hrest t (hkeeps.trans ht)).imp ?_ fun _ h => ht.trans h
        exact fun found u h => ⟨h.1, ht.trans h.2⟩
      · exact ⟨by simp, ht⟩
    | _ => exact hrest s hkeeps

theorem Map.ends_findCell_of_acc (host : Host) (hclosed : s.Closed) {map probe : Ref}
    (hprobe : s.heap.Contains probe) (hsettles : s.Settles map probe) :
    ∃ enough, ∀ rounds ≥ enough, (findCell (machine host rounds).toDispatcher map probe).Ends s
      (fun found t => (∀ cell ∈ found, cell ∈ s.cells map) ∧ s.Keeps t) s.Keeps := by
  obtain ⟨enough, hmatches⟩ : ∃ enough, ∀ rounds ≥ enough, ∀ cell ∈ s.cells map, ∀ key value,
      s.payload cell = .cell key value → ∀ t name, s.Keeps t →
        (keyMatches (machine host rounds).toDispatcher probe name key).Ends t
          (fun _ u => t.Keeps u) t.Keeps := by
    refine enough_for_all fun cell hcell => ?_
    cases hparts : s.payload cell with
    | cell key value =>
      obtain ⟨enough, hmatch⟩ := ends_keyMatches_of_acc host hclosed
        (hsettles cell hcell key value hparts) hprobe (hclosed.made_key hparts)
      refine ⟨enough, ?_⟩
      rintro rounds hrounds _ _ ⟨⟩
      exact hmatch rounds hrounds
    | _ => exact ⟨0, by simp⟩
  refine ⟨enough, fun rounds hrounds => ?_⟩
  simp only [findCell, ends_bind, ends_get, ends_nameBytes?]
  exact ends_firstMatch_of_matches _ (fun _ hcell => hclosed.made_cell hcell) (hmatches rounds hrounds)
    (.refl s) _

theorem Map.ends_get?_of_acc (host : Host) (hclosed : s.Closed) {map key : Ref}
    (hkey : s.heap.Contains key) (hsettles : s.Settles map key) :
    ∃ enough, ∀ rounds ≥ enough, (get? (machine host rounds).toDispatcher map key).Ends s
      (fun _ t => s.Keeps t) s.Keeps := by
  obtain ⟨enough, hfind⟩ := ends_findCell_of_acc host hclosed hkey hsettles
  refine ⟨enough, fun rounds hrounds => ?_⟩
  rw [get?, ends_bind]
  refine (hfind rounds hrounds).imp_value ?_
  rintro (_ | cell) t ⟨-, hkeeps⟩ <;> exact hkeeps

theorem Map.ends_set_of_acc (host : Host) (hclosed : s.Closed) {map key : Ref} (value : Ref)
    (hkey : s.heap.Contains key) (hsettles : s.Settles map key) :
    ∃ enough, ∀ rounds ≥ enough, (set (machine host rounds).toDispatcher map key value).Ends s
      (fun _ t => ∀ o, s.heap.Contains o → o ≠ map → o ∉ s.cells map → t.payload o = s.payload o)
      s.Keeps := by
  obtain ⟨enough, hfind⟩ := ends_findCell_of_acc host hclosed hkey hsettles
  refine ⟨enough, fun rounds hrounds => ?_⟩
  rw [set, ends_bind]
  refine (hfind rounds hrounds).imp_value ?_
  rintro (_ | cell) t ⟨hfound, hkeeps⟩
  · simp only [ends_bind, ends_create, appendCell, ends_payload]
    have hmade := hkeeps.thenMade (.cell key value)
    split
    · intro o ho hmap _
      exact (payload_stored_other hmap).trans (hmade.kept o ho)
    · exact fun o ho _ _ => hmade.kept o ho
  · simp only [replaceValue, ends_bind, ends_payload]
    split
    · intro o ho _ hcells
      have hother : o ≠ cell := by
        rintro rfl
        exact hcells (hfound o rfl)
      exact (payload_stored_other hother).trans (hkeeps.kept o ho)
    · exact fun o ho _ _ => hkeeps.kept o ho

-- ---------------------------------------------------------------------------
-- Lists that face each other without end
-- ---------------------------------------------------------------------------

/-- The two are found equal at once. -/
def State.Tied (s : State) (pair : Ref × Ref) : Prop :=
  s.Settled pair.1 pair.2 ∧ Integer.sign (s.leafOrder pair.1 pair.2) = 0

/-- Two items face each other in two lists of one length, behind items that are found equal. -/
def State.FacesNext (s : State) (inner outer : Ref × Ref) : Prop :=
  ∃ lefts rights before after, s.payload outer.1 = .list lefts ∧ s.payload outer.2 = .list rights ∧
    lefts.size = rights.size ∧ lefts.toList.zip rights.toList = before ++ inner :: after ∧
    ∀ pair ∈ before, s.Tied pair

theorem State.Like.tied {pair : Ref × Ref} (hlike : s₀.Like s) (hleft : s₀.heap.Contains pair.1)
    (hright : s₀.heap.Contains pair.2) (h : s₀.Tied pair) : s.Tied pair := by
  unfold State.Tied State.Settled State.Leaf at *
  rwa [hlike.kind_eq hleft, hlike.kind_eq hright, hlike.leafOrder_eq hleft hright]

/-- A comparison of items comes to those that follow on items that are found equal. -/
theorem not_halts_compareItems (host : Host) (rounds : Nat) {lefts rights : List Ref}
    {before after : List (Ref × Ref)} {inner : Ref × Ref} (hlike : s₀.Like s)
    (hzip : lefts.zip rights = before ++ inner :: after)
    (htied : ∀ pair ∈ before, s₀.heap.Contains pair.1 ∧ s₀.heap.Contains pair.2 ∧ s₀.Tied pair)
    (hnever : ∀ t, s₀.Like t → ¬ ((machine host rounds).compare inner.1 inner.2).Halts t) :
    ¬ (Lists.compareItems (machine host rounds).toDispatcher lefts rights).Halts s := by
  induction before generalizing lefts rights s with
  | nil =>
    obtain ⟨lefts, rights, rfl, rfl, -⟩ := List.zip_eq_cons_iff.mp hzip
    rw [Lists.compareItems, Halts, ends_bind]
    exact fun hends => hnever s hlike hends.halts
  | cons pair before ih =>
    obtain ⟨lefts, rights, rfl, rfl, hrest⟩ := List.zip_eq_cons_iff.mp hzip
    obtain ⟨hleft, hright, hpair⟩ := htied pair List.mem_cons_self
    rw [Lists.compareItems, Halts, ends_bind]
    intro hends
    cases rounds with
    -- Without a round left there is no comparison of the first items either.
    | zero => exact hends
    | succ rounds =>
      obtain ⟨hsettled, hequal⟩ := hlike.tied hleft hright hpair
      obtain ⟨_, t, hrun, rfl, hgrown⟩ := (ends_compare_settled host rounds hsettled).exists_run
      have hafter := (ends_of_run hrun).mp hends
      rw [hequal] at hafter
      exact ih (hlike.grown hgrown) hrest.symm (fun p hp => htied p (List.mem_cons_of_mem _ hp)) hafter

/-- No number of rounds is enough to compare lists whose next items face each other without end. -/
theorem not_halts_compare (host : Host) (hclosed : s₀.Closed) (rounds : Nat) {chase : Nat → Ref × Ref}
    (hchase : ∀ n, s₀.FacesNext (chase (n + 1)) (chase n)) (hlike : s₀.Like s) (n : Nat) :
    ¬ ((machine host rounds).compare (chase n).1 (chase n).2).Halts s := by
  induction rounds generalizing n s with
  | zero => exact fun h => h
  | succ rounds ih =>
    obtain ⟨lefts, rights, before, after, hlefts, hrights, hsize, hzip, htied⟩ := hchase n
    have hleft := (hlike.kept _ (State.contains_of_list hlefts)).trans hlefts
    have hright := (hlike.kept _ (State.contains_of_list hrights)).trans hrights
    have hmade : ∀ pair ∈ before, s₀.heap.Contains pair.1 ∧ s₀.heap.Contains pair.2 ∧ s₀.Tied pair := by
      intro pair hpair
      have hmem : pair ∈ lefts.toList.zip rights.toList := by simp [hzip, hpair]
      have hface : s₀.Faces pair (chase n) := ⟨lefts, rights, hlefts, hrights, hsize, hmem⟩
      exact ⟨(hclosed.made_faces hface).1, (hclosed.made_faces hface).2, htied pair hpair⟩
    rw [Halts, ends_compare_list host rounds hleft hright hsize]
    exact fun hends => not_halts_compareItems host rounds (hlike.withHeld _) hzip hmade
      (fun t ht => ih ht (n + 1)) hends.halts

-- ---------------------------------------------------------------------------
-- Which comparisons come to an end
-- ---------------------------------------------------------------------------

/-- Comparisons of objects, and the lookups and stores that compare keys, come to an end unless items
face each other without end. Where they do so behind items that are found equal, no comparison comes to
an end. -/
theorem compare_ends (host : Host) (s : State) (hclosed : s.Closed) :
    (∀ left right, s.heap.Contains left → s.heap.Contains right → Acc s.Faces (left, right) →
      ∃ enough, ∀ rounds ≥ enough, ((machine host rounds).compare left right).Ends s
        (fun n t => n ∈ [-1, 0, 1] ∧ s.Keeps t) s.Keeps) ∧
    (∀ map key, s.heap.Contains key → s.Settles map key →
      ∃ enough, ∀ rounds ≥ enough, (Map.get? (machine host rounds).toDispatcher map key).Ends s
        (fun _ t => s.Keeps t) s.Keeps) ∧
    (∀ map key value, s.heap.Contains key → s.Settles map key →
      ∃ enough, ∀ rounds ≥ enough, (Map.set (machine host rounds).toDispatcher map key value).Ends s
        (fun _ t => ∀ o, s.heap.Contains o → o ≠ map → o ∉ s.cells map → t.payload o = s.payload o)
        s.Keeps) ∧
    (∀ chase : Nat → Ref × Ref, (∀ n, s.FacesNext (chase (n + 1)) (chase n)) → ∀ rounds,
      ¬ ((machine host rounds).compare (chase 0).1 (chase 0).2).Halts s) :=
  ⟨fun _ _ hleft hright hacc =>
      let ⟨enough, hends⟩ := ends_compare_of_acc host hclosed hacc hleft hright
      ⟨enough, fun rounds hrounds => hends rounds hrounds s (.refl s)⟩,
    fun _ _ hkey hsettles => Map.ends_get?_of_acc host hclosed hkey hsettles,
    fun _ _ value hkey hsettles => Map.ends_set_of_acc host hclosed value hkey hsettles,
    fun _ hchase rounds => not_halts_compare host hclosed rounds hchase (.refl s) 0⟩

/-- A list of an int is compared with another and looked up under a list that holds itself behind an
int, which cannot be compared with itself. -/
theorem compare_ends_self :
    let s := { Globals.bare {} .discard {} with
      heap := ⟨#[.singlet "None", .map [], .map [], .list #[⟨5⟩], .list #[⟨6⟩], .int 1, .int 2,
        .list #[⟨5⟩, ⟨7⟩], .map [⟨9⟩], .cell ⟨7⟩ ⟨0⟩]⟩ }
    s.Closed ∧
    (∃ enough, ∀ rounds ≥ enough, ((machine {} rounds).compare ⟨3⟩ ⟨4⟩).Ends s
      (fun n t => n ∈ [-1, 0, 1] ∧ s.Keeps t) s.Keeps) ∧
    (∃ enough, ∀ rounds ≥ enough, (Map.get? (machine {} rounds).toDispatcher ⟨8⟩ ⟨3⟩).Ends s
      (fun _ t => s.Keeps t) s.Keeps) ∧
    ∀ rounds, ¬ ((machine {} rounds).compare ⟨7⟩ ⟨7⟩).Halts s := by
  intro s
  have hclosed : s.Closed := by decide
  have hacc : Acc s.Holds ⟨3⟩ := by
    refine .intro _ ?_
    rintro inner ⟨_, ⟨⟩, hinner⟩
    obtain rfl : inner = ⟨5⟩ := by simpa using hinner
    refine .intro _ ?_
    rintro _ ⟨_, ⟨⟩, -⟩
  obtain ⟨hcompare, hget, -, hnever⟩ := compare_ends {} s hclosed
  refine ⟨hclosed, ?_, ?_, ?_⟩
  · exact hcompare ⟨3⟩ ⟨4⟩ (by decide) (by decide) (State.acc_faces_of_left hacc _)
  · exact hget ⟨8⟩ ⟨3⟩ (by decide) fun _ _ key _ _ => State.acc_faces_of_left hacc key
  · have htied : s.Tied (⟨5⟩, ⟨5⟩) := ⟨⟨⟨by decide, by decide⟩, by decide⟩, by decide⟩
    exact hnever (fun _ => (⟨7⟩, ⟨7⟩)) fun _ =>
      ⟨_, _, [(⟨5⟩, ⟨5⟩)], [], rfl, rfl, rfl, rfl, by simpa using htied⟩

end ObjectModel
