import ObjectModel.Proofs.Errors.Raised
import ObjectModel.Proofs.Maps.Lookup

/-!
# What calls run

A call runs the code of a function, of a native function or of a node, or goes on to the call hook of a
map. Functions and native functions run their code in a frame, for which there must be room; nodes and
maps need none.
-/

namespace ObjectModel

open ObjectModel.Action Behavior

-- ---------------------------------------------------------------------------
-- Arguments
-- ---------------------------------------------------------------------------

namespace State

variable {s t : State} {scope : Ref}

theorem Grown.thenStored {note : Option (Std.TreeSet Nat)} (h : s.Grown t note) {o : Ref}
    (hnew : ¬ s.heap.Contains o) (payload : Payload) : s.Grown (t.stored o payload) note where
  rest := by rw [h.rest]; rfl
  kept p hp := by
    have hother : p ≠ o := by
      rintro rfl
      exact hnew hp
    rw [payload_stored_other hother, h.kept p hp]
  size := by simpa using h.size

structure NewScope (s : State) (scope : Ref) (t : State) : Prop where
  grown : s.Grown t s.shown
  made : t.heap.Contains scope
  fresh : ¬ s.heap.Contains scope
  freshCells : ∀ cell ∈ t.cells scope, ¬ s.heap.Contains cell

theorem cells_of_payload {u : State} (h : u.payload o = t.payload o) : u.cells o = t.cells o := by
  unfold cells
  rw [h]

theorem NewScope.thenMade (h : s.NewScope scope t) (payload : Payload) :
    s.NewScope scope (t.made payload) where
  grown := h.grown.thenMade payload
  made := Nat.lt_of_lt_of_le h.made (Grown.made t payload).size
  fresh := h.fresh
  freshCells c hc := h.freshCells c (cells_of_payload ((Grown.made t payload).kept _ h.made) ▸ hc)

end State

theorem Map.ends_setNamed_new {s t : State} {scope : Ref} (h : s.NewScope scope t) (name : String)
    (value : Ref) : (setNamed scope name value).Ends t (fun _ u => s.NewScope scope u)
      fun _ => False := by
  simp only [setNamed, ends_bind, ends_get]
  cases hfound : t.findNamed? scope name with
  | some cell =>
    have hcell := h.freshCells cell (List.mem_of_find?_eq_some hfound)
    simp only [replaceValue, ends_bind, ends_payload]
    cases hparts : t.payload cell with
    | cell key old =>
      have hother : scope ≠ cell := by
        rintro rfl
        simp [State.findNamed?, State.cells, hparts] at hfound
      have hsame : (t.stored cell (.cell key value)).payload scope = t.payload scope :=
        payload_stored_other hother
      refine ⟨h.grown.thenStored hcell _, (State.contains_stored ..).mpr h.made, h.fresh, ?_⟩
      exact fun c hc => h.freshCells c (State.cells_of_payload hsame ▸ hc)
    | _ => exact h
  | none =>
    have hsteps := ((State.Grown.refl t).thenMade (.string name)).thenMade (.cell t.heap.next value)
    have hsame := hsteps.kept scope h.made
    have hmade := Nat.lt_of_lt_of_le h.made hsteps.size
    have hgrown := h.grown.thenGrown hsteps
    simp only [ends_bind, ends_createString, ends_create, appendCell, ends_payload, hsame]
    cases hcells : t.payload scope with
    | map cells =>
      rw [ends_store]
      refine ⟨hgrown.thenStored h.fresh _, (State.contains_stored ..).mpr hmade, h.fresh, ?_⟩
      intro c hc
      rw [State.cells, payload_stored_same hmade] at hc
      rcases List.mem_append.mp hc with hold | hnew
      · exact h.freshCells c (by rwa [State.cells, hcells])
      · rw [List.mem_singleton.mp hnew]
        exact State.not_contains_next (h.grown.thenMade _).size
    | _ => exact ⟨hgrown, hmade, h.fresh, fun c hc => h.freshCells c (State.cells_of_payload hsame ▸ hc)⟩

namespace Behavior.Functions

variable {s t : State} {scope : Ref}

theorem ends_bindParams (h : s.NewScope scope t) (params : List String) (args : List Ref) :
    (bindParams scope params args).Ends t (fun _ u => s.NewScope scope u) fun _ => False := by
  induction params generalizing args t with
  | nil => exact h
  | cons param params ih =>
    cases args with
    | nil =>
      simp only [bindParams, ends_bind, ends_nothing]
      exact (Map.ends_setNamed_new h param _).imp_value fun _ _ h => ih h []
    | cons arg args =>
      simp only [bindParams, ends_bind]
      exact (Map.ends_setNamed_new h param arg).imp_value fun _ _ h => ih h args

/-- The scope with the arguments is new, and nothing that was there is another. -/
theorem ends_bind (function : Function) (args : List Ref) :
    (bind function args).Ends s (fun scope t => s.NewScope scope t) fun _ => False := by
  have hstart : s.NewScope s.heap.next (s.made (.map [])) := by
    refine ⟨.made s _, contains_made_next .., State.not_contains_next (Nat.le_refl _), ?_⟩
    simp [State.cells, payload_made_next]
  simp only [bind, createMap, Action.ends_bind, ends_create]
  refine (ends_bindParams hstart function.params args).imp_value fun surplus t h => ?_
  cases function.rest with
  | none => exact h
  | some rest =>
    simp only [createList, Action.ends_bind, ends_create, ends_pure]
    exact Map.ends_setNamed_new (h.thenMade _) rest _

end Behavior.Functions

-- ---------------------------------------------------------------------------
-- Calls
-- ---------------------------------------------------------------------------

namespace State

/-- The state while a callee and its arguments are held. -/
def calling (s : State) (callee : Ref) (args : List Ref) : State :=
  s.withHeld ((callee :: args) :: s.held)

def node? (s : State) (o : Ref) : Option Node :=
  match s.payload o with
  | .statement (some node) => some (.statement node)
  | .expression (some node) => some (.expression node)
  | _ => none

def environment? (s : State) (args : List Ref) : Option Ref := args.head?.filter (· ≠ s.nothing)

end State

variable {s : State} {callee : Ref} {args : List Ref} {host : Host} {rounds : Nat}

theorem ends_call (handler : Handler) (h : (s.kind callee).handler .call = some handler)
    {Q : Ref → State → Prop} {E : State → Prop} :
    ((machine host (rounds + 1)).call callee args).Ends s Q E ↔
      (handler (machine host rounds) (callee :: args)).Ends (s.calling callee args)
        (fun a t => Q a (t.withHeld s.held)) fun t => E (t.withHeld s.held) := by
  simp only [Dispatcher.call, ends_holding, Dispatcher.ends_dispatch, State.kind_withHeld]
  rw [machine, ends_behave handler host rounds _ h]
  rfl

theorem ends_call_map (hmap : s.kind callee = .map) {hook : Ref}
    (hhook : s.hook? callee "__call" = some hook) {Q : Ref → State → Prop} {E : State → Prop} :
    ((machine host (rounds + 1)).call callee args).Ends s Q E ↔
      ((machine host rounds).call hook (callee :: args)).Ends
        (s.withHeld ((hook :: callee :: args) :: (callee :: args) :: s.held))
        (fun a t => Q a (t.withHeld s.held)) fun t => E (t.withHeld s.held) := by
  have hhook : (s.calling callee args).hook? callee "__call" = some hook := hhook
  rw [ends_call Maps.call (by rw [hmap]; rfl)]
  simp only [Maps.call, ends_bind, ends_argument_first, Map.ends_hook?, hhook, ends_holding]
  rfl

theorem ends_call_function {function : Function} {trees : Evaluator} {scope : Ref} {t : State}
    (hp : s.payload callee = .function function) (htrees : host.evaluator = some trees)
    (hbound : (Functions.bind function args).run (s.calling callee args) = .ok scope t)
    {Q : Ref → State → Prop} {E : State → Prop} :
    ((machine host (rounds + 1)).call callee args).Ends s Q E ↔
      (inFrame callee <| inScope function.closure <| inScope scope <|
        trees.execute (machine host rounds).toDispatcher function.body).Ends
          (t.withHeld ([callee] :: t.held)) (fun a t => Q a (t.withHeld s.held))
          fun t => E (t.withHeld s.held) := by
  have hkind : s.kind callee = .function := State.kind_of_payload hp
  have hcalling : (s.calling callee args).payload callee = .function function := hp
  have htrees : (machine host rounds).host.evaluator = some trees := htrees
  rw [ends_call Functions.call (by rw [hkind]; rfl)]
  simp only [Functions.call, Functions.expect, ends_bind, ends_argument_first, ends_payload, hcalling,
    ends_pure, htrees, List.drop_one, List.tail_cons, ends_of_run hbound, ends_holding,
    State.withHeld_withHeld]

theorem ends_call_native {function : Native} (hp : s.payload callee = .native function)
    {Q : Ref → State → Prop} {E : State → Prop} :
    ((machine host (rounds + 1)).call callee args).Ends s Q E ↔
      (inFrame callee (Natives.run (machine host rounds) args function)).Ends
        (s.withHeld ([callee] :: (callee :: args) :: s.held)) (fun a t => Q a (t.withHeld s.held))
        fun t => E (t.withHeld s.held) := by
  have hkind : s.kind callee = .native := State.kind_of_payload hp
  have hcalling : (s.calling callee args).payload callee = .native function := hp
  rw [ends_call Natives.call (by rw [hkind]; rfl)]
  simp only [Natives.call, ends_bind, ends_argument_first, ends_payload, hcalling, ends_holding,
    List.drop_one, List.tail_cons, State.withHeld_withHeld]
  rfl

theorem ends_expectNode {node : Node} (h : s.node? callee = some node) {Q : Node → State → Prop}
    {E : State → Prop} : (Nodes.expect callee).Ends s Q E ↔ Q node s := by
  unfold State.node? at h
  simp only [Nodes.expect, ends_bind, ends_payload]
  split at h <;> simp_all

theorem ends_call_node {node : Node} {trees : Evaluator} (hnode : s.node? callee = some node)
    (htrees : host.evaluator = some trees) {Q : Ref → State → Prop} {E : State → Prop} :
    ((machine host (rounds + 1)).call callee args).Ends s Q E ↔
      match s.environment? args with
      | some scope => (inScope scope (Nodes.run trees (machine host rounds).toDispatcher node)).Ends
        (s.withHeld ([callee, scope] :: (callee :: args) :: s.held)) (fun a t => Q a (t.withHeld s.held))
        fun t => E (t.withHeld s.held)
      | none => (Nodes.run trees (machine host rounds).toDispatcher node).Ends
        (s.withHeld ([callee] :: (callee :: args) :: s.held)) (fun a t => Q a (t.withHeld s.held))
        fun t => E (t.withHeld s.held) := by
  have hhandler : (s.kind callee).handler .call = some Nodes.call := by
    unfold State.node? at hnode
    unfold State.kind
    split at hnode <;> simp_all [Payload.kind] <;> rfl
  have hcalling : (s.calling callee args).node? callee = some node := hnode
  have htrees : (machine host rounds).host.evaluator = some trees := htrees
  rw [ends_call Nodes.call hhandler]
  simp only [Nodes.call, ends_bind, ends_argument_first, ends_expectNode hcalling, htrees,
    ends_optional, List.getElem?_cons_succ]
  have henv : args[0]?.filter (· ≠ (s.calling callee args).nothing) = s.environment? args := by
    rw [State.environment?, List.head?_eq_getElem?]
    rfl
  rw [henv]
  cases s.environment? args <;> simp only [ends_holding] <;> rfl

/-- Code that takes a number of rounds, and the state that it starts in. -/
structure Start where
  state : State
  code : Nat → Action Ref

/-- What the call of a node starts, for which there need be no room. -/
def Host.startNode? (host : Host) (s : State) (callee : Ref) (args : List Ref) : Option Start :=
  match s.node? callee, host.evaluator with
  | some node, some trees => some {
      state := match s.environment? args with
        | some scope => (s.withHeld ([callee, scope] :: (callee :: args) :: s.held)).inside scope
        | none => s.withHeld ([callee] :: (callee :: args) :: s.held)
      code rounds := Nodes.run trees (machine host rounds).toDispatcher node }
  | _, _ => none

/-- What a call starts: in a frame, if there is room for one, or a node. -/
def Host.start? (host : Host) (s : State) (callee : Ref) (args : List Ref) : Option Start :=
  match s.payload callee, host.evaluator with
  | .native function, _ =>
    if s.room = 0 then none else some {
      state := (s.withHeld ([callee] :: (callee :: args) :: s.held)).framed callee
      code rounds := Natives.run (machine host rounds) args function }
  | .function function, some trees =>
    match (Functions.bind function args).run (s.calling callee args) with
    | .ok scope t =>
      if s.room = 0 then none else some {
        state := (((t.withHeld ([callee] :: t.held)).framed callee).inside function.closure).inside scope
        code rounds := trees.execute (machine host rounds).toDispatcher function.body }
    | .error _ _ => none
  | _, _ => host.startNode? s callee args

theorem halts_call_of_none (h : (s.kind callee).handler .call = none) :
    ((machine host (rounds + 1)).call callee args).Halts s := by
  simp only [Halts, Dispatcher.call, ends_holding, Dispatcher.ends_dispatch, State.kind_withHeld,
    machine, behave, h]
  trivial

theorem ends_expectNode_of_none (h : s.node? callee = none) {Q : Node → State → Prop} :
    (Nodes.expect callee).Ends s Q fun _ => True := by
  simp only [Nodes.expect, ends_bind, ends_payload]
  unfold State.node? at h
  cases hp : s.payload callee with
  | statement node => cases node <;> simp [hp] at h ⊢
  | expression node => cases node <;> simp [hp] at h ⊢
  | _ => simp

theorem halts_call_node (hhandler : (s.kind callee).handler .call = some Nodes.call) :
    ((machine host (rounds + 1)).call callee args).Halts s ↔
      ∀ start ∈ host.startNode? s callee args, (start.code rounds).Halts start.state := by
  cases hnode : s.node? callee with
  | none =>
    have hcalling : (s.calling callee args).node? callee = none := hnode
    rw [Halts, ends_call Nodes.call hhandler]
    simp only [Nodes.call, ends_bind, ends_argument_first]
    exact iff_of_true (ends_expectNode_of_none hcalling) (by simp [Host.startNode?, hnode])
  | some node =>
    cases htrees : host.evaluator with
    | none =>
      have hcalling : (s.calling callee args).node? callee = some node := hnode
      have htrees' : (machine host rounds).host.evaluator = none := htrees
      rw [Halts, ends_call Nodes.call hhandler]
      simp [Nodes.call, ends_expectNode hcalling, htrees', Host.startNode?, htrees]
    | some trees =>
      rw [Halts, ends_call_node hnode htrees]
      unfold Host.startNode?
      cases s.environment? args <;> simp [hnode, htrees, Halts, ends_inScope]

/-- What is left of a call is the code that it starts. -/
theorem halts_call (h : s.kind callee ≠ .map) : ((machine host (rounds + 1)).call callee args).Halts s ↔
    ∀ start ∈ host.start? s callee args, (start.code rounds).Halts start.state := by
  have hnone (hhandler : (s.kind callee).handler .call = none)
      (hstart : host.start? s callee args = none) :
      ((machine host (rounds + 1)).call callee args).Halts s ↔
        ∀ start ∈ host.start? s callee args, (start.code rounds).Halts start.state := by
    simp [halts_call_of_none hhandler, hstart]
  have hkind : s.kind callee = (s.payload callee).kind := rfl
  cases hp : s.payload callee with
  | native function =>
    rw [Halts, ends_call_native hp]
    refine (halts_inFrame callee _).trans ?_
    by_cases hroom : s.room = 0 <;> simp [Host.start?, hp, hroom]
  | function function =>
    cases htrees : host.evaluator with
    | none =>
      have hcalling : (s.calling callee args).payload callee = .function function := hp
      have htrees' : (machine host rounds).host.evaluator = none := htrees
      rw [Halts, ends_call Functions.call (by rw [hkind, hp]; rfl)]
      simp [Host.start?, Host.startNode?, State.node?, hp, htrees, Functions.call, Functions.expect,
        hcalling, htrees']
    | some trees =>
      obtain ⟨scope, t, hbound, hscope⟩ :=
        (Functions.ends_bind (s := s.calling callee args) function args).exists_run
      have hroom : t.room = s.room := hscope.grown.room
      rw [Halts, ends_call_function hp htrees hbound]
      refine (halts_inFrame callee _).trans ?_
      by_cases hfull : s.room = 0 <;> simp [Host.start?, hp, htrees, hbound, hroom, hfull, halts_inScope]
  | statement node =>
    simpa [Host.start?, hp] using halts_call_node (by rw [hkind, hp]; rfl)
  | expression node =>
    simpa [Host.start?, hp] using halts_call_node (by rw [hkind, hp]; rfl)
  | map => simp [State.kind, hp, Payload.kind] at h
  | symbol =>
    rw [Halts, ends_call (fun _ _ => nothing) (by rw [hkind, hp]; rfl)]
    simp [Host.start?, Host.startNode?, hp, State.node?]
  | _ => exact hnone (by rw [hkind, hp]; rfl) (by simp [Host.start?, Host.startNode?, hp, State.node?])

end ObjectModel
