import ObjectModel.Proofs.Laws.Programs
import ObjectModel.Proofs.Laws.Initial

/-!
# Calls leave their context as it was

The frames, the scopes, the number of delegations and the presence of a note of shown containers are
the same after an operation or a call as before it, whether it gave a value or raised
(`context_restored`). Every step that changes one of them has its counterpart on every way out, so the
context is a law (`Law.context`); that frames are never out of balance is part of it.
-/

namespace ObjectModel

/-- The globals are the outermost scope. -/
def State.Scoped (s : State) : Prop := s.scopes.getLast? = some s.globals

/-- Two states in which the same calls are under way in the same scopes. -/
structure State.SameContext (s t : State) : Prop where
  frames : t.frames = s.frames
  scopes : t.scopes = s.scopes
  globals : t.globals = s.globals
  delegations : t.delegations = s.delegations
  shown : t.shown.isSome = s.shown.isSome

namespace State

theorem Scoped.ne_nil {s : State} (h : s.Scoped) : s.scopes ≠ [] := by
  intro hnil
  rw [Scoped, hnil] at h
  cases h

theorem SameContext.scoped (h : SameContext s t) (hs : s.Scoped) : t.Scoped := by
  unfold Scoped
  rw [h.scopes, h.globals]
  exact hs

theorem SameContext.trans (h : SameContext a b) (h' : SameContext b c) : SameContext a c where
  frames := h'.frames.trans h.frames
  scopes := h'.scopes.trans h.scopes
  globals := h'.globals.trans h.globals
  delegations := h'.delegations.trans h.delegations
  shown := h'.shown.trans h.shown

theorem Agrees.sameContext (h : Agrees s t) : SameContext s t where
  frames := h.frames
  scopes := h.scopes
  globals := h.globals
  delegations := h.delegations
  shown := by rw [h.shown]

theorem unscoped_of_scopes {t : State} {outer : List Ref} (h : t.scopes = scope :: outer)
    (hne : outer ≠ []) : t.unscoped = { t with scopes := outer } := by
  obtain ⟨next, rest, rfl⟩ := List.exists_cons_of_ne_nil hne
  unfold unscoped
  rw [h]

end State

open State ObjectModel.Action

def Law.context : Law where
  holds _ s t := s.scopes ≠ [] → s.SameContext t
  refl _ _ := ⟨rfl, rfl, rfl, rfl, rfl⟩
  trans h h' hs := (h hs).trans (h' ((h hs).scopes ▸ hs))
  agree h hagree hs := (h hs).trans hagree.sameContext
  raise _ _ _ := ⟨rfl, rfl, rfl, rfl, rfl⟩
  recover h hs := (h hs).trans ⟨rfl, rfl, rfl, rfl, rfl⟩
  make _ _ _ _ := ⟨rfl, rfl, rfl, rfl, rfl⟩
  block _ _ _ _ := ⟨rfl, rfl, rfl, rfl, rfl⟩
  part _ _ _ _ _ _ := ⟨rfl, rfl, rfl, rfl, rfl⟩
  foreign _ _ _ _ := ⟨rfl, rfl, rfl, rfl, rfl⟩
  renew _ _ := ⟨rfl, rfl, rfl, rfl, rfl⟩
  exchange _ _ _ _ := ⟨rfl, rfl, rfl, rfl, rfl⟩
  note _ hshown _ := ⟨rfl, rfl, rfl, rfl, by rw [hshown]; rfl⟩
  unseen hshown h hs := by
    obtain ⟨hframes, hscopes, hglobals, hdelegations, -⟩ := h hs
    exact ⟨hframes, hscopes, hglobals, hdelegations, by rw [hshown]⟩
  unframe h htop hs := by
    obtain ⟨hframes, hscopes, hglobals, hdelegations, hshown⟩ := h hs
    exact ⟨(List.cons.inj (htop.symm.trans hframes)).2, hscopes, hglobals, hdelegations, hshown⟩
  imbalance h htop hs := absurd (congrArg List.head? (h hs).frames) htop
  undelegate {e s t} h hs := by
    obtain ⟨hframes, hscopes, hglobals, hdelegations, hshown⟩ := h hs
    have hback : t.delegations - 1 = s.delegations := by rw [hdelegations]; exact Nat.add_sub_cancel _ 1
    exact ⟨hframes, hscopes, hglobals, hback, hshown⟩
  unscope h hs := by
    obtain ⟨hframes, hscopes, hglobals, hdelegations, hshown⟩ := h (List.cons_ne_nil _ _)
    rw [unscoped_of_scopes hscopes hs]
    exact ⟨hframes, rfl, hglobals, hdelegations, hshown⟩

theorem State.initial_scoped (limits : Limits) (sink : Sink) (files : FileStore) :
    (initial limits sink files).Scoped := by
  have hs : (Globals.bare limits sink files).Scoped := rfl
  exact (initial_obeys limits sink files .context hs.ne_nil).scoped hs

/-- An operation and a call end in the context they started in, however they end. -/
theorem context_restored (host : Host) [Host.Obeys .context host] (rounds : Nat) (s : State)
    (hs : s.Scoped) :
    (∀ operation args e t,
      ((machine host rounds).dispatch operation args).ending? s = some (e, t) →
        s.SameContext t ∧ t.Scoped) ∧
    (∀ callee args e t,
      ((machine host rounds).call callee args).ending? s = some (e, t) →
        s.SameContext t ∧ t.Scoped) := by
  have hkeep {e : Ending} {t : State} (h : Law.context.holds e s t) : s.SameContext t ∧ t.Scoped :=
    ⟨h hs.ne_nil, (h hs.ne_nil).scoped hs⟩
  refine ⟨fun operation args e t hrun => ?_, fun callee args e t hrun => ?_⟩
  · exact hkeep (Obeys.holds hrun)
  · exact hkeep (Obeys.holds hrun)

/-- The call of a function that raises, inside a frame of its own. -/
theorem context_restored_raised :
    let s := { Globals.bare {} .discard {} with
      heap := ⟨#[.singlet "None", .map [], .map [], .native (.host "boom")]⟩ }
    s.Scoped ∧ ∃ t, ((machine .steady 2).call ⟨3⟩ []).ending? s = some (.raised, t) ∧
      s.SameContext t ∧ t.Scoped := by
  intro s
  have hs : s.Scoped := rfl
  refine ⟨hs, _, rfl, ?_⟩
  exact (context_restored .steady 2 s hs).2 ⟨3⟩ [] .raised _ rfl

end ObjectModel
