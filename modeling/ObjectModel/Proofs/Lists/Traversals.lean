import Mathlib.Data.Set.Insert
import ObjectModel.Builtin.Body
import ObjectModel.Builtin.Globals
import ObjectModel.Interpreter
import ObjectModel.Proofs.Laws.Endings

/-!
# Traversals of lists

The methods of lists that take a callable are the map, the filter and the fold of monads over the items
that the list had when the method was called (`list_traversals`). The callable may be anything, and may
change the list. What objects an operation holds while it calls is left open, so that what an action
may come to is a set of outcomes (`Outcomes`), which is a monad.
-/

namespace ObjectModel

open ObjectModel.Action Behavior

-- ---------------------------------------------------------------------------
-- Outcomes
-- ---------------------------------------------------------------------------

/-- What a run comes to: a value, or an error that was raised, or no end within its rounds. -/
inductive Outcome (α : Type) where
  | value (a : α) (t : State)
  | raised (t : State)
  | exhausted

namespace Outcome

def withHeld (held : List (List Ref)) : Outcome α → Outcome α
  | .value a t => .value a (t.withHeld held)
  | .raised t => .raised (t.withHeld held)
  | .exhausted => .exhausted

/-- What may be come to when a run goes on with the value that it gave. -/
def leads (rest : α → State → Set (Outcome β)) : Outcome α → Set (Outcome β)
  | .value a t => rest a t
  | .raised t => {.raised t}
  | .exhausted => {.exhausted}

end Outcome

def Action.outcome (action : Action α) (s : State) : Outcome α :=
  match action.run s with
  | .ok a t => .value a t
  | .error .raised t => .raised t
  | .error .exhausted _ => .exhausted

namespace Action

theorem outcome_bind_cases (x : Action α) (f : α → Action β) (s : State) :
    (∃ a t, x.outcome s = .value a t ∧ (x >>= f).outcome s = (f a).outcome t) ∨
    (∃ t, x.outcome s = .raised t ∧ (x >>= f).outcome s = .raised t) ∨
    (x.outcome s = .exhausted ∧ (x >>= f).outcome s = .exhausted) := by
  unfold outcome
  rw [EStateM.run_bind]
  cases x.run s with
  | ok a t => exact .inl ⟨a, t, rfl, rfl⟩
  | error stop t =>
    cases stop with
    | raised => exact .inr (.inl ⟨t, rfl, rfl⟩)
    | exhausted => exact .inr (.inr ⟨rfl, rfl⟩)

theorem outcome_holding (objects : List Ref) (action : Action α) (s : State) :
    (holding objects action).outcome s = (action.outcome (s.withHeld (objects :: s.held))).withHeld s.held := by
  unfold outcome State.withHeld
  rw [run_holding]
  cases action.run { s with held := objects :: s.held } with
  | ok => rfl
  | error stop => cases stop <;> rfl

theorem run_of_outcome_raised {action : Action α} (h : action.outcome s = .raised t) :
    action.run s = .error .raised t := by
  unfold outcome at h
  split at h <;> cases h
  assumption

end Action

/-- What may be come to, from every state. -/
def Outcomes (α : Type) : Type := State → Set (Outcome α)

namespace Outcomes

/-- What an action may come to, whatever is held on behalf of operations. -/
def of (action : Action α) : Outcomes α :=
  fun s => { out | ∃ held, out = (action.outcome (s.withHeld held)).withHeld s.held }

instance : Monad Outcomes where
  pure a := fun s => {.value a s}
  bind x f := fun s => { out | ∃ first ∈ x s, out ∈ first.leads f }

variable {s t : State} {x y : Outcomes α} {f : α → Outcomes β}

theorem mem_pure {a : α} {out : Outcome α} : out ∈ (pure a : Outcomes α) s ↔ out = .value a s := .rfl

theorem mem_bind {out : Outcome β} : out ∈ (x >>= f) s ↔ ∃ first ∈ x s, out ∈ first.leads f := .rfl

theorem ext (h : ∀ s out, out ∈ x s ↔ out ∈ y s) : x = y := funext fun s => Set.ext (h s)

theorem id_map (x : Outcomes α) : id <$> x = x := by
  refine ext fun s out => ?_
  have hsame (first : Outcome α) : out ∈ first.leads (fun a => (pure a : Outcomes α)) ↔ out = first := by
    cases first <;> exact .rfl
  show (∃ first ∈ x s, out ∈ first.leads fun a => (pure a : Outcomes α)) ↔ out ∈ x s
  simp only [hsame, exists_eq_right']

theorem pure_bind (a : α) (f : α → Outcomes β) : pure a >>= f = f a := by
  refine ext fun s out => ?_
  simp only [mem_bind, mem_pure, exists_eq_left, Outcome.leads]

theorem bind_assoc (x : Outcomes α) (f : α → Outcomes β) (g : β → Outcomes γ) :
    x >>= f >>= g = x >>= fun a => f a >>= g := by
  have hleads (first : Outcome α) (out : Outcome γ) :
      out ∈ first.leads (fun a => f a >>= g) ↔ ∃ second ∈ first.leads f, out ∈ second.leads g := by
    cases first with
    | value a t => exact .rfl
    | raised | exhausted => simp only [Outcome.leads, Set.mem_singleton_iff, exists_eq_left]
  refine ext fun s out => ?_
  simp only [mem_bind, hleads]
  constructor
  · rintro ⟨second, ⟨first, hfirst, hsecond⟩, hout⟩
    exact ⟨first, hfirst, second, hsecond, hout⟩
  · rintro ⟨first, hfirst, second, hsecond, hout⟩
    exact ⟨second, ⟨first, hfirst, hsecond⟩, hout⟩

instance : LawfulMonad Outcomes := .mk' Outcomes id_map pure_bind bind_assoc

-- ---------------------------------------------------------------------------
-- What covers an action
-- ---------------------------------------------------------------------------

/-- What an action comes to is among the outcomes, whatever is held on behalf of operations. -/
def Covers (x : Outcomes α) (action : Action α) : Prop :=
  ∀ s held, (action.outcome (s.withHeld held)).withHeld s.held ∈ x s

theorem covers_of (action : Action α) : (of action).Covers action := fun _ held => ⟨held, rfl⟩

theorem covers_pure (a : α) : (pure a : Outcomes α).Covers (pure a) := fun _ _ => rfl

theorem Covers.bind {action : Action α} {rest : α → Action β} (h : x.Covers action)
    (hrest : ∀ a, (f a).Covers (rest a)) : (x >>= f).Covers (action >>= rest) := by
  intro s held
  have hfirst := h s held
  rcases outcome_bind_cases action rest (s.withHeld held) with
    ⟨a, t, hvalue, hall⟩ | ⟨t, hraised, hall⟩ | ⟨hexhausted, hall⟩
  · rw [hvalue] at hfirst
    rw [hall]
    exact ⟨_, hfirst, hrest a (t.withHeld s.held) t.held⟩
  · rw [hraised] at hfirst
    rw [hall]
    exact ⟨_, hfirst, rfl⟩
  · rw [hexhausted] at hfirst
    rw [hall]
    exact ⟨_, hfirst, rfl⟩

theorem Covers.holding {action : Action α} (h : x.Covers action) (objects : List Ref) :
    x.Covers (holding objects action) := by
  intro s held
  have hmem := h s (objects :: held)
  rw [outcome_holding]
  show ((action.outcome (s.withHeld (objects :: held))).withHeld held).withHeld s.held ∈ x s
  revert hmem
  cases action.outcome (s.withHeld (objects :: held)) <;> exact id

/-- An operation that holds objects leaves those held that were before. -/
theorem Covers.mem_holding {action : Action α} (h : x.Covers action) (objects : List Ref) (s : State) :
    (Action.holding objects action).outcome s ∈ x s := by
  rw [outcome_holding]
  exact h s (objects :: s.held)

theorem mem_bind_of {action : Action α} {rest : α → Action β} (h : action.outcome s ∈ x s)
    (hrest : ∀ a t, (rest a).outcome t ∈ f a t) : (action >>= rest).outcome s ∈ (x >>= f) s := by
  refine ⟨_, h, ?_⟩
  rcases outcome_bind_cases action rest s with
    ⟨a, t, hvalue, hall⟩ | ⟨t, hraised, hall⟩ | ⟨hexhausted, hall⟩
  · rw [hvalue, hall]
    exact hrest a t
  · rw [hraised, hall]
    rfl
  · rw [hexhausted, hall]
    rfl

-- ---------------------------------------------------------------------------
-- Where errors come from
-- ---------------------------------------------------------------------------

/-- When an error is raised, the state is one of these. -/
def RaisesIn (x : Outcomes α) (P : State → Prop) : Prop := ∀ s t, .raised t ∈ x s → P t

variable {P : State → Prop}

theorem raisesIn_pure (a : α) : (pure a : Outcomes α).RaisesIn P := fun _ _ h => nomatch mem_pure.mp h

theorem RaisesIn.bind (h : x.RaisesIn P) (hrest : ∀ a, (f a).RaisesIn P) : (x >>= f).RaisesIn P := by
  rintro s t ⟨first, hfirst, hout⟩
  cases first with
  | value a u => exact hrest a u t hout
  | raised u =>
    obtain rfl := Outcome.raised.inj hout
    exact h s t hfirst
  | exhausted => cases hout

theorem raisesIn_of {action : Action α} (h : ∀ s u held, action.run s = .error .raised u → P (u.withHeld held)) :
    (of action).RaisesIn P := by
  rintro s t ⟨held, ht⟩
  cases hout : action.outcome (s.withHeld held) with
  | raised u =>
    rw [hout] at ht
    obtain rfl := Outcome.raised.inj ht
    exact h _ u s.held (run_of_outcome_raised hout)
  | value | exhausted =>
    rw [hout] at ht
    cases ht

theorem raisesIn_mapM {visit : Ref → Outcomes β} (h : ∀ item, (visit item).RaisesIn P) (items : List Ref) :
    (items.mapM visit).RaisesIn P := by
  induction items with
  | nil => exact raisesIn_pure []
  | cons item rest ih =>
    rw [List.mapM_cons]
    exact (h item).bind fun result => ih.bind fun results => raisesIn_pure _

theorem raisesIn_filterM {visit : Ref → Outcomes Bool} (h : ∀ item, (visit item).RaisesIn P) (items : List Ref) :
    (items.filterM visit).RaisesIn P := by
  have haux (kept : List Ref) : (items.filterAuxM visit kept).RaisesIn P := by
    induction items generalizing kept with
    | nil => exact raisesIn_pure kept
    | cons item rest ih => exact (h item).bind fun accepted => ih _
  exact (haux []).bind fun kept => raisesIn_pure _

theorem raisesIn_foldlM {visit : β → Ref → Outcomes β} (h : ∀ b item, (visit b item).RaisesIn P) (b : β)
    (items : List Ref) : (items.foldlM visit b).RaisesIn P := by
  induction items generalizing b with
  | nil => exact raisesIn_pure b
  | cons item rest ih => exact (h b item).bind ih

end Outcomes

-- ---------------------------------------------------------------------------
-- Loops over items
-- ---------------------------------------------------------------------------

namespace Outcomes

variable (machine : Machine) (callee : Ref)

def called (args : List Ref) : Outcomes Ref := of (machine.call callee args)

/-- A call of the callable gives an int other than zero for the item. -/
def accepted (item : Ref) : Outcomes Bool := do
  let verdict ← called machine callee [item]
  return (← of (machine.toInt verdict)) != 0

def listed (items : List Ref) : Outcomes Ref := fun s => {.value s.heap.next (s.made (.list items.toArray))}

theorem covers_mapItems (items earlier : List Ref) :
    (List.mapM.loop (fun item => called machine callee [item]) items earlier).Covers
      (Lists.mapItems machine.toDispatcher callee items earlier) := by
  induction items generalizing earlier with
  | nil => exact covers_pure _
  | cons item rest ih => exact ((covers_of _).holding earlier).bind fun result => ih (result :: earlier)

theorem covers_filterItems (items kept : List Ref) :
    (List.filterAuxM (accepted machine callee) items kept >>= fun kept => pure kept.reverse).Covers
      (Lists.filterItems machine.toDispatcher callee items kept) := by
  induction items generalizing kept with
  | nil =>
    rw [List.filterAuxM, pure_bind]
    exact covers_pure _
  | cons item rest ih =>
    simp only [List.filterAuxM, accepted, bind_assoc, pure_bind, Lists.filterItems]
    refine (((covers_of _).holding _).holding _).bind fun verdict => (covers_of _).bind fun number => ?_
    by_cases hzero : number = 0
    · rw [if_neg (not_not.mpr hzero), hzero]
      exact ih kept
    · rw [if_pos hzero, bne_iff_ne.mpr hzero]
      exact ih (item :: kept)

theorem covers_reduceItems (items : List Ref) (result : Ref) :
    (items.foldlM (fun result item => called machine callee [result, item]) result).Covers
      (Lists.reduceItems machine.toDispatcher callee items result) := by
  induction items generalizing result with
  | nil => exact covers_pure _
  | cons item rest ih =>
    rw [List.foldlM_cons]
    exact ((covers_of _).holding _).bind ih

def mapped (items : List Ref) : Outcomes Ref := do
  listed (← items.mapM fun item => called machine callee [item])

def filtered (items : List Ref) : Outcomes Ref := do
  listed (← items.filterM (accepted machine callee))

def reduced (items : List Ref) (start : Ref) : Outcomes Ref :=
  items.foldlM (fun result item => called machine callee [result, item]) start

end Outcomes

/-- An error was raised by a call of the callable, or by the conversion of an answer to an int, and since then
nothing happened but that objects are no longer held. -/
def State.FailedIn (machine : Machine) (callee : Ref) (t : State) : Prop :=
  ∃ s u held, t = u.withHeld held ∧
    ((∃ args, (machine.call callee args).run s = .error .raised u) ∨
      ∃ answer, (machine.toInt answer).run s = .error .raised u)

section Methods

open Outcomes

variable {machine : Machine} {s t : State} {list callee : Ref} {items : List Ref}

theorem raisesIn_called (args : List Ref) : (called machine callee args).RaisesIn (State.FailedIn machine callee) :=
  raisesIn_of fun s u held hrun => ⟨s, u, held, rfl, .inl ⟨args, hrun⟩⟩

theorem raisesIn_accepted (item : Ref) : (accepted machine callee item).RaisesIn (State.FailedIn machine callee) := by
  have hconverted (answer : Ref) : (of (machine.toInt answer)).RaisesIn (State.FailedIn machine callee) :=
    raisesIn_of fun s u held hrun => ⟨s, u, held, rfl, .inr ⟨answer, hrun⟩⟩
  exact (raisesIn_called _).bind fun verdict => (hconverted verdict).bind fun number => raisesIn_pure _

theorem raisesIn_listed (items : List Ref) : (listed items).RaisesIn P := fun _ _ h => nomatch h

theorem raisesIn_mapped (items : List Ref) :
    (mapped machine callee items).RaisesIn (State.FailedIn machine callee) :=
  (raisesIn_mapM (fun item => raisesIn_called [item]) items).bind raisesIn_listed

theorem raisesIn_filtered (items : List Ref) :
    (filtered machine callee items).RaisesIn (State.FailedIn machine callee) :=
  (raisesIn_filterM raisesIn_accepted items).bind raisesIn_listed

theorem raisesIn_reduced (items : List Ref) (start : Ref) :
    (reduced machine callee items start).RaisesIn (State.FailedIn machine callee) :=
  raisesIn_foldlM (fun result item => raisesIn_called [result, item]) start items

variable (hlist : s.payload list = .list items.toArray)
include hlist

theorem outcome_items (rest : List Ref → Action β) :
    (do rest (← Lists.itemsOf list).toList).outcome s = (rest items).outcome s := by
  simp only [Lists.itemsOf, outcome, EStateM.run_bind, run_payload, EStateM.run_pure, hlist, Payload.items?,
    Option.getD_some]

theorem outcome_map (machine : Machine) (callee : Ref) :
    (Builtin.listMap.body machine [list, callee]).outcome s ∈ mapped machine callee items s := by
  have hstart : (Builtin.listMap.body machine [list, callee]).outcome s = _ := outcome_items hlist fun items => do
    createList (← holding (list :: callee :: items) (Lists.mapItems machine.toDispatcher callee items []))
  rw [hstart]
  exact mem_bind_of ((covers_mapItems machine callee items []).mem_holding _ s) fun results t => rfl

theorem outcome_filter (machine : Machine) (callee : Ref) :
    (Builtin.listFilter.body machine [list, callee]).outcome s ∈ filtered machine callee items s := by
  have hstart : (Builtin.listFilter.body machine [list, callee]).outcome s = _ := outcome_items hlist fun items => do
    createList (← holding [list, callee] (Lists.filterItems machine.toDispatcher callee items []))
  rw [hstart]
  exact mem_bind_of ((covers_filterItems machine callee items []).mem_holding _ s) fun kept t => rfl

theorem outcome_reduce (machine : Machine) (callee start : Ref) :
    (Builtin.listReduce.body machine [list, callee, start]).outcome s ∈ reduced machine callee items start s := by
  have hstart : (Builtin.listReduce.body machine [list, callee, start]).outcome s = _ := outcome_items hlist fun items =>
    holding [list, callee] (Lists.reduceItems machine.toDispatcher callee items start)
  rw [hstart]
  exact (covers_reduceItems machine callee items start).mem_holding _ s

end Methods

open Outcomes

/-- Whatever the callable is and does to the list, the methods visit the items that the list had, one after the
other, and stop at the first error, which is then pending. -/
theorem list_traversals (machine : Machine) (s : State) (list callee : Ref) (items : List Ref)
    (hlist : s.payload list = .list items.toArray) (start : Ref) :
    let map := Builtin.listMap.body machine [list, callee]
    let filter := Builtin.listFilter.body machine [list, callee]
    let reduce := Builtin.listReduce.body machine [list, callee, start]
    map.outcome s ∈ mapped machine callee items s ∧ filter.outcome s ∈ filtered machine callee items s ∧
    reduce.outcome s ∈ reduced machine callee items start s ∧
    ∀ method ∈ [map, filter, reduce], ∀ t, method.outcome s = .raised t → t.FailedIn machine callee := by
  have hmap := outcome_map hlist machine callee
  have hfilter := outcome_filter hlist machine callee
  have hreduce := outcome_reduce hlist machine callee start
  refine ⟨hmap, hfilter, hreduce, ?_⟩
  simp only [List.forall_mem_cons, List.not_mem_nil, false_implies, implies_true, and_true]
  refine ⟨fun t ht => ?_, fun t ht => ?_, fun t ht => ?_⟩
  · exact raisesIn_mapped items s t (ht ▸ hmap)
  · exact raisesIn_filtered items s t (ht ▸ hfilter)
  · exact raisesIn_reduced items start s t (ht ▸ hreduce)

/-- A callable empties the list that it is mapped over, and gives the items back. -/
theorem list_traversals_emptied :
    let machine := machine { native := fun _ => some fun _ args => do store ⟨3⟩ (.list #[]); argument args 0 } 2
    let s := { Globals.bare {} .discard {} with
      heap := ⟨#[.singlet "None", .map [], .map [], .list #[⟨4⟩, ⟨5⟩], .int 1, .int 2, .native (.host "empty")]⟩ }
    ∃ made t, .value made t ∈ mapped machine ⟨6⟩ [⟨4⟩, ⟨5⟩] s ∧
      (Builtin.listMap.body machine [⟨3⟩, ⟨6⟩]).outcome s = .value made t ∧
      t.payload made = .list #[⟨4⟩, ⟨5⟩] ∧ t.payload ⟨3⟩ = .list #[] := by
  intro machine s
  obtain ⟨hmap, -⟩ := list_traversals machine s ⟨3⟩ ⟨6⟩ [⟨4⟩, ⟨5⟩] rfl s.nothing
  have hout : (Builtin.listMap.body machine [⟨3⟩, ⟨6⟩]).outcome s =
      .value s.heap.next ((s.stored ⟨3⟩ (.list #[])).made (.list #[⟨4⟩, ⟨5⟩])) := rfl
  rw [hout] at hmap
  exact ⟨_, _, hmap, hout, rfl, rfl⟩

end ObjectModel
