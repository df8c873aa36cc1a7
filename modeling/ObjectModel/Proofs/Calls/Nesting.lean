import ObjectModel.Builtin.Globals
import ObjectModel.Host.TreeWalk
import ObjectModel.Proofs.Calls.Starts

/-!
# How deep calls nest

Calls of functions and native functions nest as deep as there is room for frames (`raised_at_limit`).
Maps that hand their calls on, and nodes that call nodes, need no room: calls come to an end if they go
from map to hook and from node to node without coming back (`returns_of_descends`), and some that come back
do not.
-/

namespace ObjectModel

open ObjectModel.Action Behavior

variable {host : Host} {s : State} {callee : Ref} {args : List Ref}

-- ---------------------------------------------------------------------------
-- Frames
-- ---------------------------------------------------------------------------

/-- A function, if there is what runs its code, or a native function. -/
def Host.Frames (host : Host) (kind : Kind) : Prop :=
  kind = .native ∨ kind = .function ∧ host.evaluator.isSome

/-- Where there is no room for a frame, functions raise an error and change nothing else. -/
theorem raised_at_limit (host : Host) (rounds : Nat) (hframes : host.Frames (s.kind callee))
    (hroom : s.room = 0) : ((machine host (rounds + 1)).call callee args).Ends s (fun _ _ => False)
      (s.Raised (.depth s.limits.depth)) := by
  rcases hframes with hkind | ⟨hkind, htrees⟩
  · obtain ⟨function, hp⟩ := State.payload_of_native hkind
    rw [ends_call_native hp, ends_inFrame]
    exact ⟨fun _ => (State.raised_faulting _ _).unheld, fun hfree => absurd hroom hfree⟩
  · obtain ⟨function, hp⟩ := State.payload_of_function hkind
    obtain ⟨trees, htrees⟩ := Option.isSome_iff_exists.mp htrees
    obtain ⟨scope, t, hbound, hscope⟩ :=
      (Functions.ends_bind (s := s.calling callee args) function args).exists_run
    rw [ends_call_function hp htrees hbound, ends_inFrame]
    have hgrown : (s.calling callee args).Grown t s.shown := hscope.grown
    have hsame : t.room = s.room := hgrown.room
    have hlimits : t.limits = s.limits := hgrown.limits
    refine ⟨fun _ => ?_, fun hfree => absurd (hsame.trans hroom) hfree⟩
    have hraised := State.raised_faulting (t.withHeld ([callee] :: t.held)) (.depth s.limits.depth)
    rw [State.limits_withHeld, hlimits]
    exact (hgrown.thenRaised hraised.unheld).unheld

-- ---------------------------------------------------------------------------
-- Calls that are handed on
-- ---------------------------------------------------------------------------

/-- The call that becomes of a call when maps hand it on a number of times. -/
def State.handedOn? (s : State) : Nat → Ref → List Ref → Option (Ref × List Ref)
  | 0, callee, args => some (callee, args)
  | n + 1, callee, args =>
    if s.kind callee = .map then
      (s.hook? callee "__call").bind fun hook => s.handedOn? n hook (callee :: args)
    else none

theorem State.handedOn?_withHeld (held : List (List Ref)) (n : Nat) (callee : Ref) (args : List Ref) :
    (s.withHeld held).handedOn? n callee args = s.handedOn? n callee args := by
  induction n generalizing callee args with
  | zero => rfl
  | succ n ih =>
    simp only [handedOn?, ih]
    rfl

/-- A call that is handed on, however often, ends as the call that becomes of it, whether or not there is
room. -/
theorem ends_call_handedOn (host : Host) {n : Nat} {final : Ref × List Ref}
    (h : s.handedOn? (n + 1) callee args = some final) :
    ∃ held, ∀ rounds (Q : Ref → State → Prop) (E : State → Prop),
      ((machine host (rounds + (n + 1))).call callee args).Ends s Q E ↔
        ((machine host rounds).call final.1 final.2).Ends (s.withHeld held)
          (fun a t => Q a (t.withHeld s.held)) fun t => E (t.withHeld s.held) := by
  induction n generalizing s callee args with
  | zero =>
    simp only [State.handedOn?] at h
    split at h
    case isTrue hmap =>
      obtain ⟨hook, hhook, hfinal⟩ := Option.bind_eq_some_iff.mp h
      cases hfinal
      exact ⟨_, fun rounds Q E => ends_call_map hmap hhook⟩
    case isFalse => cases h
  | succ n ih =>
    rw [State.handedOn?] at h
    split at h
    case isTrue hmap =>
      obtain ⟨hook, hhook, hrest⟩ := Option.bind_eq_some_iff.mp h
      rw [← State.handedOn?_withHeld ((hook :: callee :: args) :: (callee :: args) :: s.held)] at hrest
      obtain ⟨held, hends⟩ := ih hrest
      refine ⟨held, fun rounds Q E => ?_⟩
      rw [← Nat.add_assoc, ends_call_map hmap hhook]
      exact hends rounds _ _
    case isFalse => cases h

/-- No number of rounds is enough to call a map from which calls are handed on without end. -/
theorem not_halts_handedOn (host : Host) {chain : Nat → Ref}
    (hchain : ∀ n, s.kind (chain n) = .map ∧ s.hook? (chain n) "__call" = some (chain (n + 1)))
    (rounds n : Nat) (args : List Ref) (held : List (List Ref)) :
    ¬ ((machine host rounds).call (chain n) args).Halts (s.withHeld held) := by
  induction rounds generalizing n args held with
  | zero => exact fun h => h
  | succ rounds ih =>
    obtain ⟨hmap, hhook⟩ := hchain n
    rw [Halts, ends_call_map (s := s.withHeld held) hmap hhook]
    exact ih (n + 1) (chain n :: args) _

-- ---------------------------------------------------------------------------
-- Nodes that call nodes
-- ---------------------------------------------------------------------------

/-- The code of a node does not come to an end unless a call of the node does. -/
def State.CallsAgain (s : State) (trees : Evaluator) (callee : Ref) (node : Node) : Prop :=
  ∀ run held, (Nodes.run trees run node).Halts (s.withHeld held) →
    ∃ inner, (run.call callee []).Halts (s.withHeld inner)

theorem halts_evaluate_call (run : Dispatcher) (name : String) (p q : Position) :
    (TreeWalk.evaluate run (.mk p (.call (some (.mk q (.reference name))) []))).Halts s ↔
      (run.call ((s.valueOf? name).getD s.nothing) []).Halts
        (s.withHeld ([(s.valueOf? name).getD s.nothing] :: s.held)) := by
  have hvariable (Q : Ref → State → Prop) (E : State → Prop) :
      (getVariable name).Ends s Q E ↔ Q ((s.valueOf? name).getD s.nothing) s := by
    simp only [getVariable, ends_bind, ends_get]
    cases s.valueOf? name <;> rfl
  simp only [Halts, TreeWalk.evaluate, TreeWalk.evaluateForm, TreeWalk.evaluateOption,
    TreeWalk.evaluateAll, ends_bind, hvariable, ends_holding, ends_pure, State.withHeld_withHeld]
  rfl

/-- No number of rounds is enough to call a node that calls itself. -/
theorem not_halts_callsAgain (host : Host) {node : Node} {trees : Evaluator}
    (hnode : s.node? callee = some node) (htrees : host.evaluator = some trees)
    (hagain : s.CallsAgain trees callee node) (rounds : Nat) (held : List (List Ref)) :
    ¬ ((machine host rounds).call callee []).Halts (s.withHeld held) := by
  induction rounds generalizing held with
  | zero => exact fun h => h
  | succ rounds ih =>
    rw [Halts, ends_call_node (s := s.withHeld held) hnode htrees]
    intro hhalts
    obtain ⟨inner, hinner⟩ := hagain _ _ hhalts
    exact ih inner hinner

-- ---------------------------------------------------------------------------
-- Calls that come to an end
-- ---------------------------------------------------------------------------

/-- With enough rounds the call comes to an end. -/
def Host.Returns (host : Host) (s : State) (callee : Ref) (args : List Ref) : Prop :=
  ∃ enough, ∀ rounds ≥ enough, ((machine host rounds).call callee args).Halts s

/-- A call is nested in another: there is less room for it, or as much and its callee has a lower rank. -/
def State.NestedIn (rank : Ref → Nat) (inner outer : State × Ref) : Prop :=
  inner.1.room < outer.1.room ∨ inner.1.room = outer.1.room ∧ rank inner.2 < rank outer.2

theorem State.nestedIn_wf (rank : Ref → Nat) : WellFounded (State.NestedIn rank) := by
  have hlex := WellFounded.prod_lex Nat.lt_wfRel.wf Nat.lt_wfRel.wf
  refine Subrelation.wf ?_ (InvImage.wf (fun call : State × Ref => (call.1.room, rank call.2)) hlex)
  exact fun h => Prod.lex_def.mpr h

theorem halts_call_map_of_none (rounds : Nat) (hmap : s.kind callee = .map)
    (hhook : s.hook? callee "__call" = none) :
    ((machine host (rounds + 1)).call callee args).Halts s := by
  have hhook : (s.calling callee args).hook? callee "__call" = none := hhook
  rw [Halts, ends_call Maps.call (by rw [hmap]; rfl)]
  simp [Maps.call, hhook]

/-- Calls that go down: maps hand them on to objects of lower rank, and code comes to an end if the calls
that are nested in its own do. -/
structure Host.Descends (host : Host) (Calls : State → Ref → List Ref → Prop) (rank : Ref → Nat) :
    Prop where
  maps : ∀ s map args hook, Calls s map args → s.kind map = .map → s.hook? map "__call" = some hook →
    rank hook < rank map ∧
      Calls (s.withHeld ((hook :: map :: args) :: (map :: args) :: s.held)) hook (map :: args)
  code : ∀ s callee args start, Calls s callee args → host.start? s callee args = some start →
    (∀ s' callee' args', Calls s' callee' args' → State.NestedIn rank (s', callee') (s, callee) →
      host.Returns s' callee' args') →
    ∃ enough, ∀ rounds ≥ enough, (start.code rounds).Halts start.state

theorem returns_of_descends {Calls : State → Ref → List Ref → Prop} {rank : Ref → Nat}
    (h : host.Descends Calls rank) (hcall : Calls s callee args) : host.Returns s callee args := by
  suffices hall : ∀ call : State × Ref, ∀ args, Calls call.1 call.2 args →
      host.Returns call.1 call.2 args from hall (s, callee) args hcall
  intro call
  induction call using (State.nestedIn_wf rank).induction with
  | _ call ih =>
    obtain ⟨s, callee⟩ := call
    intro args hcall
    have hinner (s' : State) (callee' : Ref) (args' : List Ref) (hcall' : Calls s' callee' args')
        (hnested : State.NestedIn rank (s', callee') (s, callee)) : host.Returns s' callee' args' :=
      ih (s', callee') hnested args' hcall'
    -- One round is for the call itself, the others for what it hands on or starts.
    suffices hless : ∃ enough, ∀ rounds ≥ enough,
        ((machine host (rounds + 1)).call callee args).Halts s by
      obtain ⟨enough, hhalts⟩ := hless
      refine ⟨enough + 1, fun rounds hrounds => ?_⟩
      obtain ⟨rounds, rfl⟩ : ∃ less, rounds = less + 1 := ⟨rounds - 1, by omega⟩
      exact hhalts rounds (by omega)
    by_cases hmap : s.kind callee = .map
    · cases hhook : s.hook? callee "__call" with
      | none => exact ⟨0, fun rounds _ => halts_call_map_of_none rounds hmap hhook⟩
      | some hook =>
        obtain ⟨hrank, hnext⟩ := h.maps s callee args hook hcall hmap hhook
        obtain ⟨enough, hhalts⟩ := hinner _ hook _ hnext (.inr ⟨rfl, hrank⟩)
        refine ⟨enough, fun rounds hrounds => ?_⟩
        rw [Halts, ends_call_map hmap hhook]
        exact hhalts rounds hrounds
    · cases hstart : host.start? s callee args with
      | none => exact ⟨0, fun rounds _ => (halts_call hmap).mpr (by simp [hstart])⟩
      | some start =>
        obtain ⟨enough, hhalts⟩ := h.code s callee args start hcall hstart hinner
        refine ⟨enough, fun rounds hrounds => (halts_call hmap).mpr ?_⟩
        simpa [hstart] using hhalts rounds hrounds

-- ---------------------------------------------------------------------------
-- Nests of calls
-- ---------------------------------------------------------------------------

/-- Where there is no room for a frame, calls of functions raise the error of the recursion limit. Calls
come to an end if those that need no frame go down. But maps hand calls on, however often, without
regard to the room there is; and a call that they hand on without end, or of a node that calls itself,
has no end. -/
theorem nests_bounded (host : Host) :
    (∀ s callee args rounds, host.Frames (s.kind callee) → s.room = 0 →
      ((machine host (rounds + 1)).call callee args).Ends s (fun _ _ => False)
        (s.Raised (.depth s.limits.depth))) ∧
    (∀ Calls rank, host.Descends Calls rank → ∀ s callee args, Calls s callee args →
      host.Returns s callee args) ∧
    (∀ s n callee args final, s.handedOn? (n + 1) callee args = some final →
      ∃ held, ∀ rounds (Q : Ref → State → Prop) (E : State → Prop),
        ((machine host (rounds + (n + 1))).call callee args).Ends s Q E ↔
          ((machine host rounds).call final.1 final.2).Ends (s.withHeld held)
            (fun a t => Q a (t.withHeld s.held)) fun t => E (t.withHeld s.held)) ∧
    (∀ (s : State) (chain : Nat → Ref), (∀ n, s.kind (chain n) = .map ∧
        s.hook? (chain n) "__call" = some (chain (n + 1))) →
      ∀ rounds args, ¬ ((machine host rounds).call (chain 0) args).Halts s) ∧
    ∀ (s : State) (callee : Ref) (node : Node) (trees : Evaluator), s.node? callee = some node →
      host.evaluator = some trees → s.CallsAgain trees callee node →
      ∀ rounds, ¬ ((machine host rounds).call callee []).Halts s :=
  ⟨fun _ _ _ rounds hframes hroom => raised_at_limit host rounds hframes hroom,
    fun _ _ hdescends _ _ _ hcall => returns_of_descends hdescends hcall,
    fun _ _ _ _ _ hfinal => ends_call_handedOn host hfinal,
    fun s _ hchain rounds args => not_halts_handedOn host hchain rounds 0 args s.held,
    fun s _ _ _ hnode htrees hagain rounds =>
      not_halts_callsAgain host hnode htrees hagain rounds s.held⟩

def Probes.callFirst (run : Dispatcher) (args : List Ref) : Action Ref := do
  run.call (← argument args 0) args

def State.CallsFirst (s : State) (map native : Ref) (t : State) (callee : Ref) (args : List Ref) : Prop :=
  (∃ held frames, t = { s with held, frames }) ∧
    (callee = map ∨ callee = native ∧ args.head? = some map)

theorem descends_callFirst {map native : Ref} (hmap : s.kind map = .map)
    (hhook : s.hook? map "__call" = some native) (hnative : s.payload native = .native (.host name))
    (hhost : host.native name = some Probes.callFirst) :
    host.Descends (s.CallsFirst map native) fun o => if o = map then 1 else 0 := by
  have hne : native ≠ map := by
    rintro rfl
    simp [State.kind, hnative, Payload.kind] at hmap
  constructor
  case maps =>
    rintro _ callee args hook ⟨⟨held, frames, rfl⟩, rfl | ⟨rfl, -⟩⟩ hkind hnext
    · obtain rfl : native = hook := Option.some.inj (hhook.symm.trans hnext)
      exact ⟨by simp [hne], ⟨_, _, rfl⟩, .inr ⟨rfl, rfl⟩⟩
    · have hkind : s.kind callee = .map := hkind
      simp [State.kind, hnative, Payload.kind] at hkind
  case code =>
    rintro t callee args start ⟨⟨held, frames, rfl⟩, rfl | ⟨rfl, hfirst⟩⟩ hstart hnested
    · obtain ⟨cells, hp⟩ := State.payload_of_map hmap
      have hp : State.payload { s with held, frames } callee = .map cells := hp
      simp [Host.start?, Host.startNode?, State.node?, hp] at hstart
    · obtain ⟨rest, rfl⟩ := List.head?_eq_some_iff.mp hfirst
      have hp : State.payload { s with held, frames } callee = .native (.host name) := hnative
      by_cases hroom : State.room { s with held, frames } = 0
      · simp [Host.start?, hp, hroom] at hstart
      · simp only [Host.start?, hp, if_neg hroom, Option.some.injEq] at hstart
        subst hstart
        have hless (inner : List (List Ref)) :
            ((State.withHeld { s with held, frames } inner).framed callee).room <
              State.room { s with held, frames } := by
          rw [State.room_framed, State.room_withHeld]
          omega
        obtain ⟨enough, hreturns⟩ := hnested _ map (map :: rest) ⟨⟨_, _, rfl⟩, .inl rfl⟩ (.inl (hless _))
        refine ⟨enough, fun rounds hrounds => ?_⟩
        have hcall := hreturns rounds hrounds
        have hhost : (machine host rounds).host.native name = some Probes.callFirst := hhost
        simp only [Natives.run, hhost, Halts, Probes.callFirst, ends_bind, ends_argument_first]
        exact hcall

theorem nests_bounded_again :
    let host : Host := { evaluator := some TreeWalk.evaluator, native := fun _ => some Probes.callFirst }
    let again : Expression := .mk {} (.call (some (.mk {} (.reference "again"))) [])
    let s := { Globals.bare { depth := 2 } .discard {} with
      heap := ⟨#[.singlet "None", .map [⟨10⟩], .map [], .native (.host "first"), .map [⟨5⟩],
        .cell ⟨6⟩ ⟨3⟩, .string "__call", .map [⟨8⟩], .cell ⟨6⟩ ⟨7⟩, .expression (some again),
        .cell ⟨11⟩ ⟨9⟩, .string "again"]⟩ }
    host.Returns s ⟨4⟩ [] ∧ (∀ rounds, ¬ ((machine host rounds).call ⟨7⟩ []).Halts s) ∧
    ∀ rounds, ¬ ((machine host rounds).call ⟨9⟩ []).Halts s := by
  intro host again s
  obtain ⟨-, hreturns, -, hchain, hnode⟩ := nests_bounded host
  refine ⟨?_, fun rounds => hchain s (fun _ => ⟨7⟩) (fun _ => ⟨by decide, by decide +kernel⟩) rounds [], ?_⟩
  · have hdescends : host.Descends (s.CallsFirst ⟨4⟩ ⟨3⟩) fun o => if o = ⟨4⟩ then 1 else 0 :=
      descends_callFirst (by decide) (by decide +kernel) rfl rfl
    exact hreturns _ _ hdescends s ⟨4⟩ [] ⟨⟨_, _, rfl⟩, .inl rfl⟩
  · refine hnode s ⟨9⟩ (.expression again) TreeWalk.evaluator rfl rfl fun run held hhalts => ?_
    have hvalue : (s.withHeld held).valueOf? "again" = some ⟨9⟩ := by
      show s.valueOf? "again" = some ⟨9⟩
      decide +kernel
    have hcall := (halts_evaluate_call run "again" {} {}).mp hhalts
    rw [hvalue] at hcall
    exact ⟨_, hcall⟩

end ObjectModel
