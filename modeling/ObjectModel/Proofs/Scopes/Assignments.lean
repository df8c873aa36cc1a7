import ObjectModel.Builtin.Globals
import ObjectModel.Proofs.Maps.Bindings

/-!
# Assignments

An assignment goes to the innermost scope that binds the name, or to the innermost one of all. Where that
is a map, the name is bound to the value from then on, and nothing else changes. A node may be called with
any object as its environment, though: a name that no scope binds is not assigned where the innermost one
is no map (`assignment_local`).
-/

namespace ObjectModel

open ObjectModel.Action

namespace State

/-- An assignment of the name goes to the scope: the innermost one that binds the name, or the innermost
one of all if none does. -/
inductive Receives (s : State) (name : String) (scope : Ref) : Prop
  | bound {inner outer : List Ref} {old : Ref} (hscopes : s.scopes = inner ++ scope :: outer)
      (hinner : ∀ o ∈ inner, s.named? o name = none) (hold : s.named? scope name = some old)
  | unbound {outer : List Ref} (hscopes : s.scopes = scope :: outer)
      (hnone : ∀ o ∈ s.scopes, s.named? o name = none)

variable {s t : State} {name other : String} {scope value : Ref}

theorem receives_assignmentScope (hne : s.scopes ≠ []) (name : String) :
    s.Receives name (s.assignmentScope name) := by
  cases hfound : s.scopes.find? fun o => (s.named? o name).isSome with
  | some scope =>
    have hscope : s.assignmentScope name = scope := by simp [assignmentScope, hfound]
    obtain ⟨hold, inner, outer, hscopes, hinner⟩ := List.find?_eq_some_iff_append.mp hfound
    obtain ⟨old, hold⟩ := Option.isSome_iff_exists.mp hold
    rw [hscope]
    exact .bound hscopes (by simpa using hinner) hold
  | none =>
    obtain ⟨scope, outer, hscopes⟩ := List.exists_cons_of_ne_nil hne
    have hscope : s.assignmentScope name = scope := by
      rw [assignmentScope, hfound, locals, hscopes]
      rfl
    rw [hscope]
    exact .unbound hscopes (by simpa using hfound)

theorem kind_of_named? (h : s.named? scope name = some value) : s.kind scope = .map := by
  cases hp : s.payload scope with
  | map cells => exact kind_of_payload hp
  | _ => simp [State.named?, findNamed?, cells, hp] at h

theorem Receives.mem (h : s.Receives name scope) : scope ∈ s.scopes := by
  cases h with
  | bound hscopes => simp [hscopes]
  | unbound hscopes => simp [hscopes]

/-- Where a name is bound, it is bound in the scope that an assignment goes to. -/
theorem Receives.valueOf?_eq (h : s.Receives name scope) : s.valueOf? name = s.named? scope name := by
  cases h with
  | bound hscopes hinner hold =>
    simp [valueOf?, hscopes, List.findSome?_append, List.findSome?_eq_none_iff.mpr hinner, hold]
  | unbound hscopes hnone =>
    rw [valueOf?, List.findSome?_eq_none_iff.mpr hnone, hnone scope (by simp [hscopes])]

theorem Receives.innermost {inner : Ref} {outer : List Ref} (h : s.Receives name scope)
    (hunbound : s.valueOf? name = none) (hscopes : s.scopes = inner :: outer) : scope = inner := by
  cases h with
  | bound hbound hinner hold =>
    rw [valueOf?, List.findSome?_eq_none_iff] at hunbound
    cases hold.symm.trans (hunbound scope (by simp [hbound]))
  | unbound hscopes' => exact (List.cons.inj (hscopes'.symm.trans hscopes)).1

theorem valueOf?_congr (hscopes : t.scopes = s.scopes)
    (h : ∀ o ∈ s.scopes, t.named? o name = s.named? o name) : t.valueOf? name = s.valueOf? name := by
  simp only [valueOf?, hscopes, ← List.head?_filterMap]
  exact congrArg List.head? (List.filterMap_congr h)

theorem Like.valueOf?_eq (hclosed : s.Closed) (hmade : ∀ o ∈ s.scopes, s.heap.Contains o)
    (hlike : s.Like t) (hscopes : t.scopes = s.scopes) : t.valueOf? name = s.valueOf? name :=
  valueOf?_congr hscopes fun o ho => hlike.named?_eq (hmade o ho) (hclosed.madeCells o) name

section Puts

variable (hclosed : s.Closed) (hmade : ∀ o ∈ s.scopes, s.heap.Contains o) (hmap : s.kind scope = .map)
  (h : s.Puts scope (s.findNamed? scope name) (fun u key => u.payload key = .string name) value t)
include hclosed hmade hmap h

theorem Puts.valueOf?_self (hreceives : s.Receives name scope) : t.valueOf? name = some value := by
  have hself : t.named? scope name = some value := h.named?_self (hclosed.madeMap hmap)
  have hscopes : t.scopes = s.scopes := by rw [h.rest]
  cases hreceives with
  | @bound inner outer old hbefore hinner hold =>
    -- The scopes further in did not bind the name, and still do not.
    have hunbound (o : Ref) (ho : o ∈ inner) : t.named? o name = none := by
      have hne : o ≠ scope := by
        rintro rfl
        cases (hinner o ho).symm.trans hold
      have hin := hmade o (by simp [hbefore, ho])
      exact h.named?_unbound (hclosed.madeMap hmap) hin (hclosed.madeCells o) hne (hinner o ho)
    simp [valueOf?, hscopes, hbefore, List.findSome?_append, List.findSome?_eq_none_iff.mpr hunbound,
      hself]
  | unbound hbefore => simp [valueOf?, hscopes, hbefore, hself]

theorem Puts.valueOf?_other (hother : other ≠ name) : t.valueOf? other = s.valueOf? other := by
  refine valueOf?_congr (by rw [h.rest]) fun o ho => ?_
  exact h.named?_other (hclosed.madeMap hmap) (hmade o ho) (hclosed.madeCells o) hother

end Puts

end State

theorem Map.ends_setNamed_of_kind {s : State} {map : Ref} (hin : s.heap.Contains map)
    (hkind : s.kind map ≠ .map) (name : String) (value : Ref) :
    (setNamed map name value).Ends s (fun _ t => s.Grown t s.shown) fun _ => False := by
  have hnone : s.findNamed? map name = none :=
    State.named?_eq_none_iff.mp (Option.eq_none_iff_forall_ne_some.mpr fun _ hvalue =>
      hkind (State.kind_of_named? hvalue))
  have hgrown := ((State.Grown.refl s).thenMade (.string name)).thenMade (.cell s.heap.next value)
  simp only [setNamed, ends_bind, ends_get, hnone, ends_createString, ends_create, appendCell, ends_payload,
    hgrown.kept map hin]
  cases hp : s.payload map with
  | map cells => exact absurd (State.kind_of_payload hp) hkind
  | _ => exact hgrown

open State in
/-- An assignment goes to the innermost scope that binds the name, or else to the innermost one. If that is
a map, which it is if it binds the name, the name has the value, all other names have what they had, and
the other maps hold what they held, unless one shares the very cell. If it is no map, nothing that was there
is changed and no name has another value. -/
theorem assignment_local {s : State} (hclosed : s.Closed) (hmade : ∀ o ∈ s.scopes, s.heap.Contains o)
    (hne : s.scopes ≠ []) (name : String) (value : Ref) : ∃ scope, s.Receives name scope ∧
      (s.kind scope = .map → (setVariable name value).Ends s
        (fun _ t => s.Puts scope (s.findNamed? scope name) (fun u key => u.payload key = .string name)
            value t ∧
          t.valueOf? name = some value ∧ (∀ other, other ≠ name → t.valueOf? other = s.valueOf? other) ∧
          ∀ map, s.kind map = .map → map ≠ scope →
            (∀ cell ∈ s.cells map, s.findNamed? scope name ≠ some cell) → t.entries map = s.entries map)
        fun _ => False) ∧
      (s.kind scope ≠ .map → s.valueOf? name = none ∧ (setVariable name value).Ends s
        (fun _ t => s.Grown t s.shown ∧ ∀ other, t.valueOf? other = s.valueOf? other) fun _ => False) := by
  refine ⟨s.assignmentScope name, receives_assignmentScope hne name, fun hmap => ?_, fun hkind => ?_⟩
  · simp only [setVariable, ends_bind, ends_get]
    refine (Map.ends_setNamed hmap name value).imp_value fun _ t hputs => ?_
    have hreceives := receives_assignmentScope hne name
    refine ⟨hputs, hputs.valueOf?_self hclosed hmade hmap hreceives, ?_, ?_⟩
    · exact fun other hother => hputs.valueOf?_other hclosed hmade hmap hother
    · intro map hkind hother hshared
      have hin : s.heap.Contains map := contains_of_kind_ne (by simp [hkind])
      exact hputs.entries_eq hmap hin (fun cell hcell => hclosed.made_cell hcell) hother hshared
  · have hreceives := receives_assignmentScope hne name
    have hin := hmade _ hreceives.mem
    have hunbound : s.named? (s.assignmentScope name) name = none :=
      Option.eq_none_iff_forall_ne_some.mpr fun _ hvalue => hkind (kind_of_named? hvalue)
    refine ⟨hreceives.valueOf?_eq.trans hunbound, ?_⟩
    simp only [setVariable, ends_bind, ends_get]
    refine (Map.ends_setNamed_of_kind hin hkind name value).imp_value fun _ t hgrown => ?_
    refine ⟨hgrown, fun other => ?_⟩
    exact ((Like.refl s).grown hgrown).valueOf?_eq hclosed hmade (by rw [hgrown.rest])

/-- A name that is not bound, assigned among the globals alone and with an int as the innermost scope. -/
theorem assignment_local_int :
    let s := { Globals.bare {} .discard {} with heap := ⟨#[.singlet "None", .map [], .map [], .int 7]⟩ }
    (setVariable "x" ⟨3⟩).Ends s (fun _ t => t.valueOf? "x" = some ⟨3⟩) (fun _ => False) ∧
    (setVariable "x" ⟨3⟩).Ends (s.inside ⟨3⟩) (fun _ t => t.valueOf? "x" = none) fun _ => False := by
  intro s
  constructor
  · obtain ⟨scope, hreceives, hmap, -⟩ :=
      assignment_local (s := s) (by decide) (by decide) (by decide) "x" ⟨3⟩
    obtain rfl := hreceives.innermost (by decide) rfl
    exact (hmap rfl).imp_value fun _ t ⟨_, hvalue, _⟩ => hvalue
  · obtain ⟨scope, hreceives, -, hother⟩ :=
      assignment_local (s := s.inside ⟨3⟩) (by decide) (by decide) (by decide) "x" ⟨3⟩
    obtain rfl := hreceives.innermost (by decide) rfl
    obtain ⟨hunbound, hends⟩ := hother (by decide)
    exact hends.imp_value fun _ t ⟨_, hsame⟩ => (hsame "x").trans hunbound

end ObjectModel
