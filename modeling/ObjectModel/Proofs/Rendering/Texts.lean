import Mathlib.Data.Finset.Card
import Mathlib.Data.Finset.Range
import ObjectModel.Builtin.Body
import ObjectModel.Builtin.Globals
import ObjectModel.Proofs.Rendering.Graphs

/-!
# Texts of graphs

Showing a container notes it before it shows what is in it, so every object that is shown leaves fewer
unseen ones, and the rounds of a text are never used up (`shows_textWithin`). Hence a line, and
the text of an object, is that of the one outline that shows first occurrences in full
(`rendered_once`).
-/

namespace ObjectModel

open ObjectModel.Action Rendering
open Std (TreeSet)

-- ---------------------------------------------------------------------------
-- Outlines and the note of shown containers
-- ---------------------------------------------------------------------------

/-- The outlines show the objects in full where they were not seen, and all of them are then seen. -/
structure Draws (s₀ : State) (os : List Ref) (outlines : List Outline) (seen later : TreeSet Nat) :
    Prop where
  unfolds : Unfolds s₀ os outlines
  first : FirstInFull (fun o => o.index ∈ seen) (Outline.allOccurrences outlines)
  noted : ∀ o : Ref, o.index ∈ later ↔
    o.index ∈ seen ∨ o ∈ (Outline.allOccurrences outlines).map (·.1)

namespace Draws

variable {s₀ : State} {o : Ref} {os cs : List Ref} {outline : Outline} {outlines : List Outline}
variable {seen later last : TreeSet Nat}

theorem nil : Draws s₀ [] [] seen seen := ⟨.nil, trivial, fun _ => by simp [Outline.allOccurrences]⟩

theorem leaf (h : s₀.contents? o = none) : Draws s₀ [o] [.leaf o] seen seen :=
  ⟨.leaf h .nil, trivial, fun _ => by simp [Outline.allOccurrences, Outline.occurrences]⟩

theorem again (h : (s₀.contents? o).isSome) (ho : o.index ∈ seen) :
    Draws s₀ [o] [.again o] seen seen := by
  refine ⟨.again h .nil, ⟨by simp [ho], trivial⟩, fun p => ?_⟩
  simp only [Outline.allOccurrences, Outline.occurrences, List.append_nil, List.map_cons,
    List.map_nil, List.mem_singleton, iff_self_or]
  rintro rfl
  exact ho

theorem mem_insert (p : Ref) : p.index ∈ seen.insert o.index ↔ p.index ∈ seen ∨ p = o := by
  cases p
  cases o
  rw [TreeSet.mem_insert, Nat.compare_eq_eq, Ref.mk.injEq, or_comm, eq_comm]

theorem full (h : s₀.contents? o = some cs) (ho : o.index ∉ seen)
    (hinner : Draws s₀ cs outlines (seen.insert o.index) later) :
    Draws s₀ [o] [.full o outlines] seen later where
  unfolds := .full h hinner.unfolds .nil
  first := by
    rw [Outline.allOccurrences, Outline.occurrences, Outline.allOccurrences, List.append_nil]
    exact ⟨by simp [ho], hinner.first.congr fun p => mem_insert p⟩
  noted p := by
    rw [Outline.allOccurrences, Outline.occurrences, Outline.allOccurrences, List.append_nil,
      List.map_cons, List.mem_cons, ← or_assoc, ← mem_insert]
    exact hinner.noted p

theorem cons (h : Draws s₀ [o] [outline] seen later) (hrest : Draws s₀ os outlines later last) :
    Draws s₀ (o :: os) (outline :: outlines) seen last := by
  obtain ⟨hunfolds, hfirst, hnoted⟩ := h
  rw [Outline.allOccurrences, Outline.allOccurrences, List.append_nil] at hfirst hnoted
  refine ⟨hunfolds.cons hrest.unfolds, ?_, fun p => ?_⟩
  · exact hfirst.append (hrest.first.congr hnoted)
  · rw [hrest.noted, hnoted, Outline.allOccurrences, List.map_append, List.mem_append, or_assoc]

end Draws

def unseen (s₀ : State) (seen : TreeSet Nat) : Nat :=
  ((Finset.range s₀.heap.size).filter (· ∉ seen)).card

theorem unseen_le (s₀ : State) (seen : TreeSet Nat) : unseen s₀ seen ≤ s₀.heap.size :=
  (Finset.card_filter_le _ _).trans (Finset.card_range _).le

theorem Draws.unseen_le {s₀ : State} (h : Draws s₀ os outlines seen later) :
    unseen s₀ later ≤ unseen s₀ seen :=
  Finset.card_le_card <| Finset.monotone_filter_right _ fun i _ hi hseen =>
    hi ((h.noted ⟨i⟩).mpr (.inl hseen))

theorem unseen_insert_lt {s₀ : State} {o : Ref} {seen : TreeSet Nat} (h : s₀.heap.Contains o)
    (ho : o.index ∉ seen) : unseen s₀ (seen.insert o.index) < unseen s₀ seen := by
  refine Finset.card_lt_card (Finset.ssubset_iff_of_subset ?_ |>.mpr ⟨o.index, ?_, ?_⟩)
  · exact Finset.monotone_filter_right _ fun i _ hi hseen => hi (by simp [hseen])
  · exact Finset.mem_filter.mpr ⟨Finset.mem_range.mpr h, ho⟩
  · exact fun hmem => (Finset.mem_filter.mp hmem).2 (by simp)

-- ---------------------------------------------------------------------------
-- Notes
-- ---------------------------------------------------------------------------

section Notes

variable {s : State} {o : Ref} {text : String} {later : TreeSet Nat}

theorem Action.Tells.noting {action : Action String}
    (h : action.Tells { s with shown := some s.seen } text (some later)) :
    Tells (noting action) s text (s.shown.map fun _ => later) := by
  obtain ⟨t, hrun, hgrown⟩ := h
  unfold State.seen at hrun hgrown
  unfold Rendering.noting
  cases hshown : s.shown with
  | some seen =>
    have hs : { s with shown := some seen } = s := by rw [← hshown]
    rw [hshown, Option.getD_some, hs] at hrun hgrown
    refine ⟨t, ?_, hgrown⟩
    rw [EStateM.run_bind, EStateM.run_get]
    simp only [hshown, hrun]
  | none =>
    rw [hshown, Option.getD_none] at hrun hgrown
    refine ⟨_, ?_, hgrown.renoted none⟩
    rw [EStateM.run_bind, EStateM.run_get]
    simp only [hshown, EStateM.run_bind, EStateM.run_modify, run_followedBy_modify, hrun]

theorem Action.Tells.guarded_new {action : Action String} (ho : o.index ∉ s.seen)
    (h : action.Tells { s with shown := some (s.seen.insert o.index) } text (some later)) :
    Tells (guarded o action) s text (s.shown.map fun _ => later) := by
  obtain ⟨t, hrun, hgrown⟩ := h
  refine .noting ⟨t, ?_, ⟨hgrown.rest, hgrown.kept, hgrown.size⟩⟩
  rw [EStateM.run_bind, run_note]
  simp only [ho, if_false, if_true]
  exact hrun

theorem Action.Tells.guarded_again {action : Action String} (ho : o.index ∈ s.seen) :
    Tells (guarded o action) s (placeholder o) (s.shown.map fun _ => s.seen) := by
  refine .noting ⟨_, ?_, .refl _⟩
  rw [EStateM.run_bind, run_note]
  simp only [ho, if_true]
  rfl

end Notes

-- ---------------------------------------------------------------------------
-- Lists of texts
-- ---------------------------------------------------------------------------

/-- Some outline of an object is drawn from the note of a state, and its text and the note that it
leaves are as required. -/
def Drawn (s₀ s : State) (words : Ref → String) (o : Ref)
    (holds : String → Option (TreeSet Nat) → Prop) : Prop :=
  ∃ outline later, Draws s₀ [o] [outline] s.seen later ∧
    holds (outline.text s₀ words) (s.shown.map fun _ => later)

theorem Drawn.imp {s₀ s : State} {P Q : String → Option (TreeSet Nat) → Prop}
    (h : Drawn s₀ s words o P) (himp : ∀ text note, P text note → Q text note) :
    Drawn s₀ s words o Q := by
  obtain ⟨outline, later, hdraws, hP⟩ := h
  exact ⟨outline, later, hdraws, himp _ _ hP⟩

def Action.Shows (tell : Action String) (s₀ s : State) (words : Ref → String) (o : Ref) : Prop :=
  Drawn s₀ s words o (tell.Tells s)

/-- Every object of the graph is shown while fewer than `rounds` of them are unseen. -/
def ShowsAll (s₀ : State) (args : List Ref) (words : Ref → String) (rounds : Nat)
    (tell : Ref → Action String) : Prop :=
  ∀ s o, s₀.Like s → s₀.Reaches args o → unseen s₀ s.seen < rounds → (tell o).Shows s₀ s words o

section Lists

variable {s₀ s : State} {args os : List Ref} {o : Ref} {words : Ref → String} {rounds : Nat}
variable {seen : TreeSet Nat} {tell : Ref → Action String}
variable (h : ShowsAll s₀ args words rounds tell) (hlike : s₀.Like s)
include h hlike

theorem ShowsAll.one (ho : s₀.Reaches args o) (hseen : s.shown = some seen)
    (hrounds : unseen s₀ seen < rounds) :
    ∃ outline later t, Draws s₀ [o] [outline] seen later ∧
      (tell o).run s = .ok (outline.text s₀ words) t ∧ s.Grown t (some later) := by
  have hs : s.seen = seen := by rw [State.seen, hseen]; rfl
  obtain ⟨outline, later, hdraws, t, hrun, hgrown⟩ := h s o hlike ho (hs.symm ▸ hrounds)
  rw [hs] at hdraws
  rw [hseen] at hgrown
  exact ⟨outline, later, t, hdraws, hrun, hgrown⟩

theorem ShowsAll.mapM (hos : ∀ o ∈ os, s₀.Reaches args o) (hseen : s.shown = some seen)
    (hrounds : unseen s₀ seen < rounds) :
    ∃ outlines later t, Draws s₀ os outlines seen later ∧
      (os.mapM tell).run s = .ok (outlines.map (·.text s₀ words)) t ∧ s.Grown t (some later) := by
  induction os generalizing s seen with
  | nil => exact ⟨[], seen, s, .nil, rfl, hseen ▸ .refl s⟩
  | cons o os ih =>
    obtain ⟨outline, later, t, hdraws, hrun, hgrown⟩ :=
      h.one hlike (hos o List.mem_cons_self) hseen hrounds
    obtain ⟨outlines, last, u, hrest, hruns, hgrows⟩ :=
      ih (hlike.grown hgrown) (fun p hp => hos p (List.mem_cons_of_mem _ hp)) hgrown.shown
        (Nat.lt_of_le_of_lt hdraws.unseen_le hrounds)
    refine ⟨outline :: outlines, last, u, hdraws.cons hrest, ?_, hgrown.trans hgrows⟩
    rw [List.mapM_cons, EStateM.run_bind, hrun]
    simp only [EStateM.run_bind, hruns, EStateM.run_pure, List.map_cons]

end Lists

def lineOf (texts : List String) : String := texts.foldl (fun line text => line ++ text ++ " ") ""

theorem ShowsAll.line {s₀ s : State} {tell : Ref → Action String}
    (h : ShowsAll s₀ args words rounds tell) (hlike : s₀.Like s)
    (hos : ∀ o ∈ os, s₀.Reaches args o) (hrounds : unseen s₀ s.seen < rounds) :
    ∃ outlines later, Draws s₀ os outlines s.seen later ∧
      (Rendering.line tell os).Tells s (lineOf (outlines.map (·.text s₀ words)))
        (s.shown.map fun _ => later) := by
  have hfold (start : String) :
      os.foldlM (fun (line : String) o => return line ++ (← tell o) ++ " ") start = do
        let texts ← os.mapM tell
        return texts.foldl (fun line text => line ++ text ++ " ") start := by
    clear hos
    induction os generalizing start with
    | nil => rfl
    | cons o os ih => simp only [List.foldlM_cons, List.mapM_cons, bind_assoc, pure_bind, ih,
        List.foldl_cons]
  obtain ⟨outlines, later, t, hdraws, hrun, hgrown⟩ :=
    h.mapM (hlike.noted (some s.seen)) hos rfl hrounds
  refine ⟨outlines, later, hdraws, .noting ⟨t, ?_, hgrown⟩⟩
  rw [hfold, EStateM.run_bind, hrun]
  rfl

-- ---------------------------------------------------------------------------
-- Containers
-- ---------------------------------------------------------------------------

section Containers

variable {s₀ s : State} {args : List Ref} {o : Ref} {words : Ref → String} {rounds : Nat}
variable {tell : Ref → Action String} (hplain : s₀.Plain args) (hlike : s₀.Like s)
variable (ho : s₀.Reaches args o)

section Graph

include hplain hlike ho

/-- A container is shown in full, or as a placeholder, if its own text shows what is in it. -/
theorem shows_guarded {body : Action String} (hcs : s₀.contents? o = some cs)
    (hbody : ∀ u seen, s₀.Like u → u.shown = some seen → unseen s₀ seen < rounds →
      ∃ inner later, Draws s₀ cs inner seen later ∧
        body.Tells u (s₀.written o (Outline.texts s₀ inner)) (some later))
    (hrounds : unseen s₀ s.seen < rounds + 1) :
    (holding [o] (guarded o body)).Shows s₀ s words o := by
  by_cases hseen : o.index ∈ s.seen
  · refine ⟨.again o, s.seen, .again (hcs ▸ rfl) hseen, .holding ?_⟩
    rw [Outline.text]
    exact .guarded_again (s := { s with held := _ }) hseen
  · have hless := unseen_insert_lt (hplain.made o ho) hseen
    obtain ⟨inner, later, hdraws, htells⟩ :=
      hbody { s with held := [o] :: s.held, shown := some (s.seen.insert o.index) } _
        ⟨hlike.memory, hlike.nothing, hlike.kept, hlike.size⟩ rfl
        (Nat.lt_of_lt_of_le hless (Nat.le_of_lt_succ hrounds))
    refine ⟨.full o inner, later, .full hcs hseen hdraws, .holding ?_⟩
    rw [Outline.text]
    exact .guarded_new (s := { s with held := _ }) hseen htells

end Graph

section Texts

variable (hshows : ShowsAll s₀ args s₀.quotedText rounds tell)

include hlike ho hshows in
theorem tells_enclosed (hcs : s₀.contents? o = some cs) (hseen : s.shown = some seen)
    (hrounds : unseen s₀ seen < rounds) (left right : String) :
    ∃ inner later, Draws s₀ cs inner seen later ∧
      (enclosed tell left right cs).Tells s
        (left ++ ", ".intercalate (Outline.texts s₀ inner) ++ right) (some later) := by
  have hmem : s₀.contents o = cs := by rw [State.contents, hcs]; rfl
  obtain ⟨inner, later, t, hdraws, hrun, hgrown⟩ :=
    hshows.mapM (hlike.held (cs :: s.held)) (fun c hc => ho.tail (hmem ▸ hc)) hseen hrounds
  refine ⟨inner, later, hdraws, _, ?_, hgrown.unheld⟩
  unfold enclosed
  rw [EStateM.run_bind, run_holding, hrun, Outline.texts_eq_map]
  rfl

include hplain hlike ho hshows

theorem shows_listText (hlist : s₀.payload o = .list items)
    (hrounds : unseen s₀ s.seen < rounds + 1) : (listText tell o).Shows s₀ s words o := by
  have hcs : s₀.contents? o = some items.toList := by rw [State.contents?, hlist]
  refine shows_guarded hplain hlike ho hcs (fun u seen hu hseen hless => ?_) hrounds
  obtain ⟨inner, later, hdraws, htells⟩ := tells_enclosed hu ho hshows hcs hseen hless "[" "]"
  refine ⟨inner, later, hdraws, ?_⟩
  rw [State.written_list hlist]
  refine .of_run ?_ htells
  rw [EStateM.run_bind, run_payload, hu.payload hplain ho, hlist]
  rfl

theorem shows_mapText (hmap : s₀.payload o = .map cells)
    (hrounds : unseen s₀ s.seen < rounds + 1) : (mapText tell o).Shows s₀ s words o := by
  have hcs : s₀.contents? o = some cells := by rw [State.contents?, hmap]
  refine shows_guarded hplain hlike ho hcs (fun u seen hu hseen hless => ?_) hrounds
  obtain ⟨inner, later, hdraws, htells⟩ := tells_enclosed hu ho hshows hcs hseen hless "\x7b" "\x7d"
  refine ⟨inner, later, hdraws, ?_⟩
  rw [State.written_map hmap]
  refine .of_run ?_ htells
  have hcells : u.cells o = cells := by rw [State.cells, hu.payload hplain ho, hmap]
  rw [EStateM.run_bind, EStateM.run_get]
  dsimp only
  rw [hcells]

theorem shows_cellText (hcell : s₀.payload o = .cell key value)
    (hrounds : unseen s₀ s.seen < rounds + 1) : (cellText tell o).Shows s₀ s words o := by
  have hcs : s₀.contents? o = some [key, value] := by rw [State.contents?, hcell]
  have hmem : s₀.contents o = [key, value] := by rw [State.contents, hcs]; rfl
  refine shows_guarded hplain hlike ho hcs (fun u seen hu hseen hless => ?_) hrounds
  have hkey : s₀.Reaches args key := ho.tail (by rw [hmem]; simp)
  have hvalue : s₀.Reaches args value := ho.tail (by rw [hmem]; simp)
  have hheld := hu.held ([key, value] :: u.held)
  obtain ⟨first, middle, v, hdraws, hrun, hgrown⟩ := hshows.one hheld hkey hseen hless
  obtain ⟨second, later, w, hdraws', hrun', hgrown'⟩ :=
    hshows.one (hheld.grown hgrown) hvalue hgrown.shown (Nat.lt_of_le_of_lt hdraws.unseen_le hless)
  refine ⟨[first, second], later, hdraws.cons hdraws', _, ?_, (hgrown.trans hgrown').unheld⟩
  rw [EStateM.run_bind, run_payload, hu.payload hplain ho, hcell]
  dsimp only [Payload.cellParts?]
  rw [run_holding, EStateM.run_bind, hrun]
  dsimp only
  rw [EStateM.run_bind, hrun', Outline.texts, Outline.texts, Outline.texts, State.written_cell hcell]
  rfl

end Texts

end Containers

-- ---------------------------------------------------------------------------
-- Texts of objects
-- ---------------------------------------------------------------------------

def Action.Replies (action : Action Ref) (s₀ s : State) (words : Ref → String) (o : Ref) : Prop :=
  Drawn s₀ s words o (action.Answers s)

section Objects

variable {s₀ s : State} {args : List Ref} {o : Ref} {words : Ref → String} {rounds : Nat}

theorem Action.Shows.of_run {tell other : Action String} (h : tell.run s = other.run s)
    (hother : other.Shows s₀ s words o) : tell.Shows s₀ s words o :=
  hother.imp fun _ _ => .of_run h

theorem Action.Replies.of_run {action other : Action Ref} (h : action.run s = other.run s)
    (hother : other.Replies s₀ s words o) : action.Replies s₀ s words o :=
  hother.imp fun _ _ => .of_run h

theorem Action.Replies.of_tell {tell : Action String} (h : tell.Shows s₀ s words o) :
    (tell >>= createString).Replies s₀ s words o := h.imp fun _ _ => Tells.answer

theorem Action.Shows.of_reply {action : Action Ref} (h : action.Replies s₀ s words o) :
    (action >>= Dispatcher.expectText).Shows s₀ s words o := h.imp fun _ _ => Answers.expect

theorem Action.Replies.holding {action : Action Ref} {objects : List Ref}
    (h : action.Replies s₀ { s with held := objects :: s.held } words o) :
    (Action.holding objects action).Replies s₀ s words o := h.imp fun _ _ => Answers.holding

theorem State.map_seen (s : State) : (s.shown.map fun _ => s.seen) = s.shown := by
  unfold State.seen
  cases s.shown <;> rfl

theorem Action.Replies.of_leaf {action : Action Ref} (hnone : s₀.contents? o = none)
    (h : action.Answers s (words o) s.shown) : action.Replies s₀ s words o := by
  refine ⟨.leaf o, s.seen, .leaf hnone, ?_⟩
  rw [Outline.text, s.map_seen]
  exact h

theorem shows_represent (run : Dispatcher)
    (h : (run.behave (s.kind o) .represent [o]).Replies s₀ s words o) :
    (run.represent o).Shows s₀ s words o :=
  .of_reply (.of_run (Dispatcher.run_dispatch ..) h)

variable (hplain : s₀.Plain args) (host : Host) (spare : Nat)
include hplain

theorem replies_quoted (hlike : s₀.Like s) (ho : s₀.Reaches args o) (hnone : s₀.contents? o = none)
    (rest : List Ref) : (behave host (spare + 2) (s.kind o) .represent (o :: rest)).Replies s₀ s
      s₀.quotedText o := by
  refine .of_leaf hnone ?_
  rw [← hlike.quotedText hplain ho]
  exact answers_quoted host spare rest ((hlike.contents? hplain ho).trans hnone)

/-- A text has rounds enough for the objects that are unseen. -/
theorem shows_textWithin : ShowsAll s₀ args s₀.quotedText rounds
    (textWithin ⟨behave host (spare + 2), granted⟩ rounds) := by
  induction rounds with
  | zero => exact fun _ _ _ _ hless => absurd hless (Nat.not_lt_zero _)
  | succ rounds ih =>
    intro s o hlike ho hrounds
    have hpayload := hlike.payload hplain ho
    unfold textWithin
    cases hp : s₀.payload o with
    | list items =>
      refine .of_run ?_ (shows_listText hplain hlike ho ih hp hrounds)
      rw [EStateM.run_bind, run_kind, State.kind, hpayload, hp]
      rfl
    | cell key value =>
      refine .of_run ?_ (shows_cellText hplain hlike ho ih hp hrounds)
      rw [EStateM.run_bind, run_kind, State.kind, hpayload, hp]
      rfl
    | map cells =>
      refine .of_run ?_ (shows_mapText hplain hlike ho ih hp hrounds)
      rw [EStateM.run_bind, run_kind, State.kind, hpayload, hp]
      dsimp only [Payload.kind]
      rw [EStateM.run_bind, run_callableHook? hplain hlike ho "__repr" (by simp)]
      rfl
    | _ =>
      have hnone : s₀.contents? o = none := by rw [State.contents?, hp]
      have hreplies := replies_quoted hplain host spare hlike ho hnone []
      refine .of_run ?_ (shows_represent ⟨behave host (spare + 2), granted⟩ hreplies)
      rw [EStateM.run_bind, run_kind, State.kind, hpayload, hp]
      rfl

variable (hlike : s₀.Like s) (ho : s₀.Reaches args o)
include hlike ho

theorem replies_container (hcontainer : (s₀.contents? o).isSome)
    (hoperation : operation = .toText ∨ operation = .represent)
    (hrounds : unseen s₀ s.seen < spare + 3) (rest : List Ref) :
    (behave host (spare + 3) (s.kind o) operation (o :: rest)).Replies s₀ s words o := by
  have hpayload := hlike.payload hplain ho
  have hsubject (u : State) : (argument (o :: rest) 0).run u = .ok o u := rfl
  have hshows : ShowsAll s₀ args s₀.quotedText (spare + 2)
      (Rendering.text ⟨behave host (spare + 2), spare + 2⟩) := shows_textWithin hplain host spare
  cases hp : s₀.payload o with
  | list items =>
    have hhandler : (s.kind o).handler operation = some Behavior.Lists.represent := by
      rw [State.kind, hpayload, hp]
      rcases hoperation with rfl | rfl <;> rfl
    rw [behave_succ _ host _ _ hhandler]
    refine .of_run ?_ (.of_tell (shows_listText hplain hlike ho hshows hp hrounds))
    rw [Behavior.Lists.represent, EStateM.run_bind, hsubject]
    rfl
  | cell key value =>
    have hhandler : (s.kind o).handler operation = some Behavior.Maps.representCell := by
      rw [State.kind, hpayload, hp]
      rcases hoperation with rfl | rfl <;> rfl
    rw [behave_succ _ host _ _ hhandler]
    refine .of_run ?_ (.of_tell (shows_cellText hplain hlike ho hshows hp hrounds))
    rw [Behavior.Maps.representCell, EStateM.run_bind, hsubject]
    rfl
  | map cells =>
    have hrepresent (u : State) (hu : s₀.Like u) (hless : unseen s₀ u.seen < spare + 3) :
        (Behavior.Maps.represent (machine host (spare + 2)) (o :: rest)).Replies s₀ u words o := by
      refine .of_run ?_ (.of_tell (shows_mapText hplain hu ho hshows hp hless))
      rw [Behavior.Maps.represent, EStateM.run_bind, hsubject]
      dsimp only
      rw [EStateM.run_bind, run_callableHook? hplain hu ho "__repr" (by simp)]
      rfl
    have hkind : s.kind o = .map := by rw [State.kind, hpayload, hp]; rfl
    rcases hoperation with rfl | rfl
    · rw [hkind, behave_succ Behavior.Maps.toText host _ _ rfl]
      obtain ⟨objects, hrun⟩ := run_mapToText hplain hlike ho (machine host (spare + 2)) rest
      have hheld := hrepresent { s with held := objects :: s.held } (hlike.held _) hrounds
      exact .of_run hrun hheld.holding
    · rw [hkind, behave_succ Behavior.Maps.represent host _ _ rfl]
      exact hrepresent s hlike hrounds
  | _ => rw [State.contents?, hp] at hcontainer; cases hcontainer

theorem replies_represent (hrounds : unseen s₀ s.seen < spare + 3) (rest : List Ref) :
    (behave host (spare + 3) (s.kind o) .represent (o :: rest)).Replies s₀ s s₀.quotedText o := by
  cases hcs : s₀.contents? o with
  | none => exact replies_quoted hplain host (spare + 1) hlike ho hcs rest
  | some cs => exact replies_container hplain host spare hlike ho (hcs ▸ rfl) (.inr rfl) hrounds rest

theorem replies_toText (hrounds : unseen s₀ s.seen < spare + 3) (rest : List Ref) :
    (behave host (spare + 3) (s.kind o) .toText (o :: rest)).Replies s₀ s s₀.plainText o := by
  cases hcs : s₀.contents? o with
  | none =>
    refine .of_leaf hcs ?_
    rw [← hlike.plainText hplain ho]
    exact answers_leaf host (spare + 2) rest ((hlike.contents? hplain ho).trans hcs)
  | some cs => exact replies_container hplain host spare hlike ho (hcs ▸ rfl) (.inl rfl) hrounds rest

omit hlike ho

theorem showsAll_represent :
    ShowsAll s₀ args s₀.quotedText (spare + 3) (machine host (spare + 3)).represent := by
  intro s o hlike ho hrounds
  have hreplies := replies_represent hplain host spare hlike ho hrounds []
  exact shows_represent (machine host (spare + 3)).toDispatcher hreplies

theorem showsAll_toText :
    ShowsAll s₀ args s₀.plainText (spare + 3) (machine host (spare + 3)).toText := by
  intro s o hlike ho hrounds
  have hreplies := replies_toText hplain host spare hlike ho hrounds []
  have hasked : ((machine host (spare + 3)).unary .toText o >>= Dispatcher.expectText).Shows
      s₀ s s₀.plainText o := .of_reply (.of_run (Dispatcher.run_dispatch ..) hreplies)
  have hpayload := hlike.payload hplain ho
  cases hp : s₀.payload o with
  | string value =>
    -- A string outside of containers is not asked at all.
    refine ⟨.leaf o, s.seen, .leaf (by rw [State.contents?, hp]), s, ?_, ?_⟩
    · rw [Dispatcher.toText, EStateM.run_bind, run_payload, hpayload, hp, Outline.text,
        State.plainText, hp]
      rfl
    · rw [s.map_seen]
      exact .refl s
  | _ =>
    refine .of_run ?_ hasked
    rw [Dispatcher.toText, EStateM.run_bind, run_payload, hpayload, hp]

end Objects

-- ---------------------------------------------------------------------------
-- Lines and answers
-- ---------------------------------------------------------------------------

theorem Draws.rendered {s : State} (h : Draws s os outlines s.seen later) (hshown : s.shown = none) :
    Rendered s os outlines := by
  have hseen : s.seen = ∅ := by rw [State.seen, hshown]; rfl
  refine h.unfolds.rendered (h.first.congr fun o => ?_)
  rw [hseen, iff_false]
  simp

theorem run_printLine {s : State} {machine : Machine} {tell : Dispatcher → Ref → Action String}
    (h : ShowsAll s args words rounds (tell machine.toDispatcher)) (hshown : s.shown = none)
    (hrounds : s.heap.size < rounds) :
    ∃ outlines t, Rendered s args outlines ∧ s.Grown t none ∧
      (Prelude.printLine tell machine args).run s = .ok s.nothing
        { t with sink := s.sink.print (lineOf (outlines.map (·.text s words)) ++ "\n") } := by
  obtain ⟨outlines, later, hdraws, t, hrun, hgrown⟩ :=
    h.line (.refl s) (fun o ho => .of_mem ho) (Nat.lt_of_le_of_lt (unseen_le s _) hrounds)
  rw [hshown] at hgrown
  have hnothing : t.nothing = s.nothing := by rw [hgrown.rest]
  have hsink : t.sink = s.sink := by rw [hgrown.rest]
  refine ⟨outlines, t, hdraws.rendered hshown, hgrown, ?_⟩
  rw [Prelude.printLine, EStateM.run_bind, hrun, ← hnothing, ← hsink]
  rfl

theorem answers_nothing {s : State} (host : Host) (spare : Nat)
    (hname : s.payload s.nothing = .singlet name)
    (hoperation : operation = .toText ∨ operation = .represent) :
    ((machine host (spare + 2)).dispatch operation []).Answers s name s.shown := by
  have hsubject : (argument [] 0).run s = .ok s.nothing s := rfl
  have hleaf (u : State) (hu : u.payload s.nothing = .singlet name) :
      (behave host (spare + 1) (u.kind s.nothing) .toText [s.nothing]).Answers u name u.shown := by
    have hplain : u.plainText s.nothing = name := by rw [State.plainText, hu]
    rw [← hplain]
    exact answers_leaf host spare [] (by rw [State.contents?, hu])
  have hdispatch (operation : Operation) : ((machine host (spare + 2)).dispatch operation []).run s =
      (behave host (spare + 2) .singlet operation []).run s := rfl
  refine .of_run (hdispatch operation) ?_
  rcases hoperation with rfl | rfl
  · rw [behave_succ Behavior.Singlets.toText host _ _ rfl]
    refine .made ?_
    simp only [Behavior.Singlets.toText, Behavior.Singlets.nameOf, EStateM.run_bind, hsubject,
      run_payload, hname]
    rfl
  · rw [behave_succ Behavior.Shared.represent host _ _ rfl]
    have hrun : (Behavior.Shared.represent (machine host (spare + 1)) []).run s =
        (holding [s.nothing] ((machine host (spare + 1)).unary .toText s.nothing)).run s := by
      rw [Behavior.Shared.represent, EStateM.run_bind, hsubject]
    exact .of_run hrun (.holding (.of_run (Dispatcher.run_dispatch ..) (hleaf _ hname)))

theorem Drawn.of_rendered {s : State} {P : String → Option (TreeSet Nat) → Prop}
    (h : Drawn s s words o P) (hshown : s.shown = none) (hrendered : Rendered s [o] [outline]) :
    P (outline.text s words) none := by
  obtain ⟨other, later, hdraws, hP⟩ := h
  cases (hdraws.rendered hshown).unique hrendered
  rw [hshown] at hP
  exact hP

/-- With more rounds than there are objects, lines and texts of objects are those of the outline that
shows the first occurrence of every container in full, and no note is left. -/
theorem rendered_once (host : Host) (rounds : Nat) (s : State) (args : List Ref)
    (hplain : s.Plain args) (hshown : s.shown = none) (hrounds : s.heap.size + 3 ≤ rounds) :
    (∃ outlines, Rendered s args outlines ∧
      (∃ t, s.Grown t none ∧ (Builtin.print.body (machine host rounds) args).run s = .ok s.nothing
        { t with sink := s.sink.print (lineOf (outlines.map (·.text s s.plainText)) ++ "\n") }) ∧
      (∃ t, s.Grown t none ∧
        (Builtin.printRepresentation.body (machine host rounds) args).run s = .ok s.nothing
          { t with sink := s.sink.print (lineOf (outlines.map (·.text s s.quotedText)) ++ "\n") })) ∧
    (∀ o rest, args = o :: rest → ∃ outline, Rendered s [o] [outline] ∧
      ((machine host rounds).dispatch .toText args).Answers s (outline.text s s.plainText) none ∧
      ((machine host rounds).dispatch .represent args).Answers s (outline.text s s.quotedText)
        none ∧
      ((machine host rounds).toText o).Tells s (outline.text s s.plainText) none ∧
      ((machine host rounds).represent o).Tells s (outline.text s s.quotedText) none) ∧
    (args = [] → ∀ name, s.payload s.nothing = .singlet name →
      ((machine host rounds).dispatch .toText args).Answers s name none ∧
      ((machine host rounds).dispatch .represent args).Answers s name none) := by
  obtain ⟨spare, rfl⟩ := Nat.exists_eq_add_of_le' (Nat.le_trans (Nat.le_add_left 3 _) hrounds)
  have hless : s.heap.size < spare + 3 := by omega
  have hunseen : unseen s s.seen < spare + 3 := Nat.lt_of_le_of_lt (unseen_le s _) hless
  refine ⟨?_, ?_, ?_⟩
  · obtain ⟨outlines, t, hrendered, hgrown, hrun⟩ :=
      run_printLine (showsAll_toText hplain host spare) hshown hless
    obtain ⟨others, u, hrendered', hgrown', hrun'⟩ :=
      run_printLine (showsAll_represent hplain host spare) hshown hless
    cases hrendered.unique hrendered'
    exact ⟨outlines, hrendered, ⟨t, hgrown, hrun⟩, u, hgrown', hrun'⟩
  · rintro o rest rfl
    have ho : s.Reaches (o :: rest) o := .of_mem List.mem_cons_self
    have htext := replies_toText hplain host spare (.refl s) ho hunseen rest
    have hquoted := replies_represent hplain host spare (.refl s) ho hunseen rest
    have htell := showsAll_toText hplain host spare s o (.refl s) ho hunseen
    have htellQuoted := showsAll_represent hplain host spare s o (.refl s) ho hunseen
    obtain ⟨outline, later, hdraws, -⟩ := id htext
    have hrendered := hdraws.rendered hshown
    have hanswers := htext.of_rendered hshown hrendered
    have hanswersQuoted := hquoted.of_rendered hshown hrendered
    exact ⟨outline, hrendered, .of_run (Dispatcher.run_dispatch ..) hanswers,
      .of_run (Dispatcher.run_dispatch ..) hanswersQuoted,
      htell.of_rendered hshown hrendered, htellQuoted.of_rendered hshown hrendered⟩
  · rintro rfl name hname
    rw [← hshown]
    exact ⟨answers_nothing host (spare + 1) hname (.inl rfl),
      answers_nothing host (spare + 1) hname (.inr rfl)⟩

/-- A list that holds itself, and twice a map that is then shown by itself. -/
theorem rendered_once_cycle :
    let s := { Globals.bare {} (.capture "") {} with
      heap := ⟨#[.singlet "None", .map [], .map [], .list #[⟨3⟩, ⟨4⟩, ⟨4⟩], .map [⟨5⟩], .cell ⟨0⟩ ⟨0⟩]⟩ }
    s.Plain [⟨3⟩, ⟨4⟩] ∧ s.shown = none ∧ s.heap.size + 3 ≤ 9 ∧
    ∃ t, (Builtin.print.body (machine {} 9) [⟨3⟩, ⟨4⟩]).run s = .ok ⟨0⟩ t ∧ t.shown = none ∧
      t.sink = .capture ("[... (0x5600000000c0), \x7b[None] = None\x7d, ... (0x560000000100)] " ++
        "... (0x560000000100) \n") := by
  intro s
  have hplain : s.Plain [⟨3⟩, ⟨4⟩] :=
    .of_closed [⟨0⟩, ⟨3⟩, ⟨4⟩, ⟨5⟩] (by decide) (by decide) (by decide) (by decide)
  have hsize : s.heap.size + 3 ≤ 9 := by decide
  refine ⟨hplain, rfl, hsize, ?_⟩
  obtain ⟨⟨outlines, hrendered, ⟨t, hgrown, hrun⟩, -⟩, -⟩ := rendered_once {} 9 s _ hplain rfl hsize
  let drawn : List Outline :=
    [.full ⟨3⟩ [.again ⟨3⟩, .full ⟨4⟩ [.full ⟨5⟩ [.leaf ⟨0⟩, .leaf ⟨0⟩]], .again ⟨4⟩], .again ⟨4⟩]
  have hunfolds : Unfolds s [⟨3⟩, ⟨4⟩] drawn :=
    .full rfl (.again rfl (.full rfl (.full rfl (.leaf rfl (.leaf rfl .nil)) .nil) (.again rfl .nil)))
      (.again rfl .nil)
  have hfirst : FirstInFull (fun _ => False) (Outline.allOccurrences drawn) := by
    simp [drawn, Outline.allOccurrences, Outline.occurrences, FirstInFull]
  have htext : s.sink.print (lineOf (drawn.map (·.text s s.plainText)) ++ "\n") =
      .capture ("[... (0x5600000000c0), \x7b[None] = None\x7d, ... (0x560000000100)] " ++
        "... (0x560000000100) \n") := by decide +kernel
  have hdrawn : outlines = drawn := hrendered.unfolds.unique hunfolds hrendered.first hfirst
  rw [hdrawn] at hrun
  exact ⟨_, hrun, hgrown.shown, htext⟩

end ObjectModel
