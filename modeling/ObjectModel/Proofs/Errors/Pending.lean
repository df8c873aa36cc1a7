import ObjectModel.Proofs.Laws.Programs
import ObjectModel.Proofs.Laws.Initial

/-!
# An error is pending exactly when a run raised

A run that starts without a pending error ends without one if it gave a value, and with one and its
traceback if it raised (`raised_iff_pending`). Errors come about in one way and are taken out of their
slot in one place, which makes this a law (`Law.pending`).
-/

namespace ObjectModel

open State ObjectModel.Action

/-- An error is pending, and its traceback is a list. -/
def State.Faulted (s : State) : Prop :=
  ∃ pending items, s.pending = some pending ∧ s.payload pending.traceback = .list items

/-- How an error is pending at the end of a run. -/
def State.Marked (s : State) : Ending → Prop
  | .value => s.pending = none
  | .raised => s.Faulted

namespace State

theorem Marked.congr {s t : State} (h : s.Marked e) (hpending : t.pending = s.pending)
    (hheap : t.heap = s.heap) : t.Marked e := by
  cases e with
  | value => exact hpending.trans h
  | raised =>
    obtain ⟨pending, items, hsome, htraceback⟩ := h
    refine ⟨pending, items, hpending.trans hsome, ?_⟩
    unfold payload
    rw [hheap]
    exact htraceback

theorem raising_faulted (s : State) (error : Ref) : (s.raising error).Faulted :=
  ⟨_, s.frames.toArray, rfl, Heap.get_push_next s.heap _⟩

theorem Marked.unscoped {s : State} (h : s.Marked e) : s.unscoped.Marked e := by
  unfold State.unscoped
  split
  · exact h.congr rfl rfl
  · exact h

/-- The marks of runs tell how they ended. -/
theorem Marked.raised_iff {s : State} (h : s.Marked e) : e = .raised ↔ s.pending.isSome := by
  cases e with
  | value =>
    have hnone : s.pending = none := h
    simp [hnone]
  | raised =>
    obtain ⟨pending, items, hsome, -⟩ := h
    simp [hsome]

end State

def Law.pending : Law where
  holds e s t := s.pending = none → t.Marked e
  refl _ h := h
  trans h h' hs := h' (h hs)
  agree h hagree hs := (h hs).congr hagree.pending hagree.heap
  raise s error _ := raising_faulted s error
  recover _ _ := rfl
  make _ _ _ hs := hs
  block _ _ _ hs := hs
  part _ _ _ _ _ hs := hs
  foreign _ _ _ hs := hs
  renew _ hs := hs
  exchange _ _ _ hs := hs
  note _ _ hs := hs
  unseen _ h hs := (h hs).congr rfl rfl
  unframe h _ hs := (h hs).congr rfl rfl
  imbalance _ _ _ := raising_faulted _ _
  undelegate h hs := (h hs).congr rfl rfl
  unscope h hs := (h hs).unscoped

theorem State.initial_pending (limits : Limits) (sink : Sink) (files : FileStore) :
    (initial limits sink files).pending = none :=
  initial_obeys limits sink files .pending rfl

/-- Where no error is pending, an operation, a call and a builtin function raise exactly if they leave
an error pending, and then with a traceback. -/
theorem raised_iff_pending (host : Host) [Host.Obeys .pending host] (rounds : Nat) (s : State)
    (hs : s.pending = none) :
    (∀ operation args e t,
      ((machine host rounds).dispatch operation args).ending? s = some (e, t) →
        (e = .raised ↔ t.pending.isSome) ∧ (e = .raised → t.Faulted)) ∧
    (∀ callee args e t,
      ((machine host rounds).call callee args).ending? s = some (e, t) →
        (e = .raised ↔ t.pending.isSome) ∧ (e = .raised → t.Faulted)) ∧
    (∀ (function : Builtin) args e t,
      (function.body (machine host rounds) args).ending? s = some (e, t) →
        (e = .raised ↔ t.pending.isSome) ∧ (e = .raised → t.Faulted)) := by
  have hmark {e : Ending} {t : State} (h : Law.pending.holds e s t) :
      (e = .raised ↔ t.pending.isSome) ∧ (e = .raised → t.Faulted) := by
    refine ⟨(h hs).raised_iff, ?_⟩
    rintro rfl
    exact h hs
  refine ⟨fun operation args e t hrun => ?_, fun callee args e t hrun => ?_,
    fun function args e t hrun => ?_⟩
  · exact hmark (Obeys.holds hrun)
  · exact hmark (Obeys.holds hrun)
  · exact hmark (Obeys.holds hrun)

/-- A function that raises, tried and not tried. -/
theorem raised_iff_pending_tried :
    let s := { Globals.bare {} .discard {} with
      heap := ⟨#[.singlet "None", .map [], .map [], .native (.host "boom")]⟩ }
    s.pending = none ∧
      (∃ t, ((machine .steady 2).call ⟨3⟩ []).ending? s = some (.raised, t) ∧ t.Faulted) ∧
      ∃ t, (Builtin.protect.body (machine .steady 2) [⟨3⟩]).ending? s = some (.value, t) ∧
        ¬ t.pending.isSome := by
  intro s
  have hs : s.pending = none := rfl
  obtain ⟨-, hcall, hbody⟩ := raised_iff_pending .steady 2 s hs
  refine ⟨hs, ⟨_, rfl, ?_⟩, _, rfl, ?_⟩
  · exact (hcall ⟨3⟩ [] .raised _ rfl).2 rfl
  · exact fun h => nomatch (hbody .protect [⟨3⟩] .value _ rfl).1.mpr h

end ObjectModel
