import ObjectModel.Proofs.Laws.Endings
import ObjectModel.Proofs.Laws.Programs

/-!
# The error that was raised last

Every raise is on record, with the calls that were under way. A run adds the errors that it raises to those
raised before, each from inside the calls that it was begun in, and a run that raises leaves the last of
them in the slot (`Law.raises`): from that raise on it only leaves frames and scopes.
-/

namespace ObjectModel

open ObjectModel.Action

structure Raise where
  error : Ref
  frames : List Ref

def Event.raise? : Event → Option Raise
  | .raised error frames => some ⟨error, frames⟩
  | .foreign | .exchanged .. => none

namespace State

/-- The errors raised so far, last first. -/
def raises (s : State) : List Raise := s.trail.filterMap Event.raise?

/-- The error is pending, with the calls that were under way when it was raised. -/
def InSlot (s : State) (raise : Raise) : Prop :=
  ∃ traceback, s.pending = some ⟨raise.error, traceback⟩ ∧ s.heap.Contains traceback ∧
    s.payload traceback = .list raise.frames.toArray

/-- What a run raised, from its beginning in `s` to its end in `t`. -/
structure Logs (s : State) (e : Ending) (t : State) : Prop where
  frames : t.frames = s.frames
  raises : ∃ since, t.raises = since ++ s.raises ∧ (∀ raise ∈ since, s.frames <:+ raise.frames) ∧
    (e = .raised → ∃ last, since.head? = some last ∧ t.InSlot last)

variable {s t u : State} {e : Ending}

theorem InSlot.congr {raise : Raise} (h : s.InSlot raise) (hpending : t.pending = s.pending)
    (hheap : t.heap = s.heap) : t.InSlot raise := by
  obtain ⟨traceback, hslot, hmade, hlist⟩ := h
  refine ⟨traceback, hpending.trans hslot, hheap ▸ hmade, ?_⟩
  rw [payload, hheap]
  exact hlist

theorem inSlot_raising (s : State) (error : Ref) : (s.raising error).InSlot ⟨error, s.frames⟩ :=
  ⟨s.heap.next, rfl, contains_made_next s _, payload_made_next s _⟩

namespace Logs

theorem quiet (hframes : t.frames = s.frames) (htrail : t.raises = s.raises) :
    s.Logs .value t :=
  ⟨hframes, [], htrail, nofun, nofun⟩

theorem raising (s : State) (error : Ref) : s.Logs .raised (s.raising error) where
  frames := rfl
  raises := ⟨[⟨error, s.frames⟩], rfl, by simp, fun _ => ⟨_, rfl, inSlot_raising s error⟩⟩

theorem trans (h : s.Logs .value t) (h' : t.Logs e u) : s.Logs e u where
  frames := h'.frames.trans h.frames
  raises := by
    obtain ⟨since, hraises, hunder, -⟩ := h.raises
    obtain ⟨later, hraises', hunder', hlast⟩ := h'.raises
    refine ⟨later ++ since, by rw [hraises', hraises, List.append_assoc], fun raise hmem => ?_, fun he => ?_⟩
    · rcases List.mem_append.mp hmem with hmem | hmem
      · exact h.frames ▸ hunder' raise hmem
      · exact hunder raise hmem
    · obtain ⟨last, hhead, hslot⟩ := hlast he
      exact ⟨last, by simp [hhead], hslot⟩

/-- What is neither the objects nor the slot may change. -/
theorem congr (h : s.Logs e t) (hframes : u.frames = t.frames) (htrail : u.trail = t.trail)
    (hpending : u.pending = t.pending) (hheap : u.heap = t.heap) : s.Logs e u where
  frames := hframes.trans h.frames
  raises := by
    obtain ⟨since, hraises, hunder, hlast⟩ := h.raises
    refine ⟨since, ?_, hunder, fun he => ?_⟩
    · rw [State.raises, htrail]
      exact hraises
    · obtain ⟨last, hhead, hslot⟩ := hlast he
      exact ⟨last, hhead, hslot.congr hpending hheap⟩

/-- An error that is caught stays on record. -/
theorem recovered (h : s.Logs e t) : s.Logs .value { t with pending := none } where
  frames := h.frames
  raises := by
    obtain ⟨since, hraises, hunder, -⟩ := h.raises
    exact ⟨since, hraises, hunder, nofun⟩

theorem unframed {callable : Ref} {rest : List Ref} (h : (s.framed callable).Logs e t)
    (htop : t.frames = callable :: rest) : s.Logs e { t with frames := rest } where
  frames := (List.cons.inj (htop.symm.trans h.frames)).2
  raises := by
    obtain ⟨since, hraises, hunder, hlast⟩ := h.raises
    refine ⟨since, hraises, fun raise hmem => ?_, hlast⟩
    exact (List.suffix_cons callable s.frames).trans (hunder raise hmem)

/-- A run that raises holds what it raised last. -/
theorem last (h : s.Logs .raised t) :
    ∃ last since, t.raises = last :: since ++ s.raises ∧ s.frames <:+ last.frames ∧ t.InSlot last := by
  obtain ⟨since, hraises, hunder, hlast⟩ := h.raises
  obtain ⟨last, hhead, hslot⟩ := hlast rfl
  obtain ⟨since, rfl⟩ := List.head?_eq_some_iff.mp hhead
  exact ⟨last, since, hraises, hunder last List.mem_cons_self, hslot⟩

theorem unscoped (h : s.Logs e t) : s.Logs e t.unscoped := by
  unfold State.unscoped
  split
  · exact h.congr rfl rfl rfl rfl
  · exact h

end Logs

end State

open State

def Law.frames : Law where
  holds _ s t := t.frames = s.frames
  refl _ := rfl
  trans h h' := h'.trans h
  agree h hagree := hagree.frames.trans h
  raise _ _ := rfl
  recover h := h
  make _ _ _ := rfl
  block _ _ _ := rfl
  part _ _ _ _ _ := rfl
  foreign _ _ _ := rfl
  renew _ := rfl
  exchange _ _ _ := rfl
  note _ _ := rfl
  unseen _ h := h
  unframe h htop := (List.cons.inj (htop.symm.trans h)).2
  imbalance h htop := absurd (congrArg List.head? h) htop
  undelegate h := h
  unscope {_ s t _} h := by
    show t.unscoped.frames = s.frames
    unfold State.unscoped
    split <;> exact h

/-- Runs that raise leave in the slot what they raised last. -/
def Law.raises : Law where
  holds e s t := s.Logs e t
  refl _ := .quiet rfl rfl
  trans h h' := h.trans h'
  agree h hagree := h.congr hagree.frames hagree.trail hagree.pending hagree.heap
  raise s error := .raising s error
  recover h := h.recovered
  make _ _ _ := .quiet rfl rfl
  block _ _ _ := .quiet rfl rfl
  part _ _ _ _ _ := .quiet rfl rfl
  foreign _ _ _ := .quiet rfl rfl
  renew _ := .quiet rfl rfl
  exchange _ _ _ := .quiet rfl rfl
  note _ _ := .quiet rfl rfl
  unseen _ h := ⟨h.frames, h.raises⟩
  unframe h htop := h.unframed htop
  imbalance h htop := absurd (congrArg List.head? h.frames) htop
  undelegate h := ⟨h.frames, h.raises⟩
  unscope h := .unscoped ⟨h.frames, h.raises⟩

end ObjectModel
