import ObjectModel.Iteration
import ObjectModel.Proofs.Laws.Steps
import ObjectModel.Rendering
import ObjectModel.State.Scopes

/-!
# Machines that keep to a law

A dispatcher keeps to a law when all its behaviors do. Whatever is done through such a dispatcher
then keeps to the law too: operations, conversions, lookups in maps, walks and texts.
-/

namespace ObjectModel

/-- What is found where no object was made is a singlet. -/
theorem State.contains_of_kind_ne {s : State} (h : s.kind object ≠ .singlet) :
    s.heap.Contains object := by
  refine Nat.lt_of_not_le fun hout => h ?_
  have hout : s.heap.payloads.size ≤ object.index := hout
  simp [kind, payload, Heap.get, Array.getD_eq_getD_getElem?, hout, Payload.kind]

def State.KeepsBuffers (s t : State) : Prop :=
  ∀ object, s.kind object = .buffer ∨ t.kind object = .buffer → t.payload object = s.payload object

theorem State.KeepsBuffers.refl (s : State) : s.KeepsBuffers s := fun _ _ => rfl

theorem State.KeepsBuffers.trans (h : State.KeepsBuffers a b) (h' : State.KeepsBuffers b c) :
    State.KeepsBuffers a c := by
  intro object hkind
  have hmiddle : b.kind object = .buffer := by
    unfold kind
    rcases hkind with ha | hc
    · rw [h object (.inl ha)]
      exact ha
    · rw [← h' object (.inr hc)]
      exact hc
  rw [h' object (.inl hmiddle), h object (.inr hmiddle)]

/-- Runs of the action that give a value leave buffers as they are. -/
class Action.SparesBuffers (action : Action α) : Prop where
  spares : ∀ {s t : State} {a}, action.run s = .ok a t → s.KeepsBuffers t

namespace Action

variable {α β : Type}

theorem SparesBuffers.of_step {action : Action α} (f : State → α × State)
    (hrun : ∀ s, action.run s = .ok (f s).1 (f s).2) (hkeep : ∀ s : State, s.KeepsBuffers (f s).2) :
    SparesBuffers action := by
  refine ⟨fun {s a t} h => ?_⟩
  rw [hrun] at h
  cases h
  exact hkeep s

instance spares_pure (a : α) : SparesBuffers (pure a : Action α) :=
  .of_step (fun s => (a, s)) (fun _ => rfl) .refl

theorem SparesBuffers.bind {x : Action α} {f : α → Action β} [hx : SparesBuffers x]
    (hf : ∀ a, SparesBuffers (f a)) : SparesBuffers (x >>= f) := by
  refine ⟨fun {s b u} h => ?_⟩
  rw [EStateM.run_bind] at h
  split at h
  · rename_i a t hrun
    exact (hx.spares hrun).trans ((hf a).spares h)
  · cases h

instance spares_bind (x : Action α) (f : α → Action β) [SparesBuffers x]
    [hf : ∀ a, SparesBuffers (f a)] : SparesBuffers (x >>= f) := .bind hf

instance spares_get : SparesBuffers (get : Action State) :=
  .of_step (fun s => (s, s)) (fun _ => rfl) .refl

instance spares_payload (object : Ref) : SparesBuffers (payload object) := by
  unfold payload; infer_instance

instance spares_kind (object : Ref) : SparesBuffers (kind object) := by
  unfold kind; infer_instance

instance spares_argument (args : List Ref) (index : Nat) : SparesBuffers (argument args index) :=
  .of_step (fun s => (args[index]?.getD s.nothing, s)) (run_argument args index) .refl

theorem spares_raise (fault : Fault) : SparesBuffers (raise fault : Action α) :=
  ⟨fun h => by cases h⟩

theorem payload_next (s : State) : s.payload s.heap.next = .singlet "" := by
  simp [State.payload, Heap.get, Heap.next, Heap.size]

theorem payload_made_other {s : State} {payload : Payload} (h : object ≠ s.heap.next) :
    (s.made payload).payload object = s.payload object := by
  obtain ⟨index⟩ := object
  have hne : index ≠ s.heap.payloads.size := fun heq => h (congrArg Ref.mk heq)
  simp only [State.payload, State.made, Heap.get, Heap.push, Array.getD_eq_getD_getElem?,
    Array.getElem?_push, if_neg hne]

theorem payload_made_next (s : State) (payload : Payload) :
    (s.made payload).payload s.heap.next = payload := Heap.get_push_next s.heap payload

theorem contains_made_next (s : State) (payload : Payload) :
    (s.made payload).heap.Contains s.heap.next := by
  show s.heap.payloads.size < (s.heap.payloads.push payload).size
  simp

theorem payload_stored_same {s : State} {payload : Payload} (h : s.heap.Contains object) :
    (s.stored object payload).payload object = payload := Heap.get_set_same s.heap object payload h

theorem payload_stored_other {s : State} {payload : Payload} (h : other ≠ object) :
    (s.stored object payload).payload other = s.payload other :=
  Heap.get_set_other s.heap object other payload h.symm

theorem spares_create {payload : Payload} (h : payload.kind ≠ .buffer) :
    SparesBuffers (create payload) := by
  refine .of_step (fun s => (s.heap.next, s.made payload)) (run_create payload) fun s object hkind => ?_
  by_cases hnext : object = s.heap.next
  · subst hnext
    rcases hkind with hkind | hkind
    · rw [State.kind, payload_next] at hkind
      cases hkind
    · rw [State.kind, payload_made_next] at hkind
      exact absurd hkind h
  · exact payload_made_other hnext

instance spares_createInt (value : Int64) : SparesBuffers (createInt value) := spares_create nofun

instance spares_createString (value : String) : SparesBuffers (createString value) :=
  spares_create nofun

instance spares_createCell (key value : Ref) : SparesBuffers (create (.cell key value)) :=
  spares_create nofun

/-- What is no buffer can be replaced by what is no buffer. -/
theorem keeps_stored {s : State} {object : Ref} {payload : Payload} (h : s.kind object ≠ .buffer)
    (hnew : payload.kind ≠ .buffer) : s.KeepsBuffers (s.stored object payload) := by
  intro other hkind
  by_cases hsame : object = other
  · subst hsame
    by_cases hin : s.heap.Contains object
    · rcases hkind with hkind | hkind
      · exact absurd hkind h
      · rw [State.kind, State.payload, State.stored, Heap.get_set_same _ _ _ hin] at hkind
        exact absurd hkind hnew
    · have hout : s.heap.payloads.size ≤ object.index := Nat.le_of_not_lt hin
      simp [State.payload, State.stored, Heap.get, Heap.set, Array.getD_eq_getD_getElem?, hout]
  · exact Heap.get_set_other s.heap object other payload hsame

end Action

/-- The behaviors of the dispatcher keep to the law, and its conversions to ints leave buffers as they
are. -/
class Dispatcher.Obeys (law : Law) (run : Dispatcher) : Prop where
  behaves : ∀ kind operation args, Action.Obeys law (run.behave kind operation args)
  converts : ∀ {object s n t}, (run.toInt object).run s = .ok n t → s.KeepsBuffers t

/-- Code trees are run, and native functions called, in keeping with the law, as far as the dispatcher
they are given keeps to it. -/
class Host.Obeys (law : Law) (host : Host) : Prop where
  executes : ∀ {trees}, host.evaluator = some trees → ∀ run [Dispatcher.Obeys law run] statement,
    Action.Obeys law (trees.execute run statement)
  evaluates : ∀ {trees}, host.evaluator = some trees → ∀ run [Dispatcher.Obeys law run] expression,
    Action.Obeys law (trees.evaluate run expression)
  runs : ∀ {name body}, host.native name = some body → ∀ run [Dispatcher.Obeys law run] args,
    Action.Obeys law (body run args)

open ObjectModel.Action

namespace Dispatcher

theorem run_dispatch (run : Dispatcher) (operation : Operation) (subject : Ref) (rest : List Ref)
    (s : State) : (run.dispatch operation (subject :: rest)).run s =
      (run.behave (s.kind subject) operation (subject :: rest)).run s := rfl

variable {law : Law} {run : Dispatcher} [hd : Dispatcher.Obeys law run]

instance obeys_behave (kind : Kind) (operation : Operation) (args : List Ref) :
    Action.Obeys law (run.behave kind operation args) := hd.behaves kind operation args

instance obeys_dispatch (operation : Operation) (args : List Ref) :
    Action.Obeys law (run.dispatch operation args) := by
  unfold dispatch
  cases args <;> infer_instance

instance obeys_unary (operation : Operation) (object : Ref) :
    Action.Obeys law (run.unary operation object) := by
  unfold unary; infer_instance

instance obeys_binary (operation : Operation) (left right : Ref) :
    Action.Obeys law (run.binary operation left right) := by
  unfold binary; infer_instance

omit hd in
instance obeys_expectInt (object : Ref) : Action.Obeys law (expectInt object) := by
  unfold expectInt
  refine .bind fun payload => ?_
  split <;> infer_instance

omit hd in
instance obeys_expectText (object : Ref) : Action.Obeys law (expectText object) := by
  unfold expectText
  refine .bind fun payload => ?_
  split
  · infer_instance
  · refine .bind fun bytes => ?_
    split <;> infer_instance

instance obeys_compare (left right : Ref) : Action.Obeys law (run.compare left right) := by
  unfold compare
  refine .bind fun answer => .bind fun payload => ?_
  split <;> infer_instance

instance obeys_index (object key : Ref) : Action.Obeys law (run.index object key) := by
  unfold index; infer_instance

instance obeys_setIndex (object key value : Ref) :
    Action.Obeys law (run.setIndex object key value) := by
  unfold setIndex; infer_instance

instance obeys_call (callee : Ref) (args : List Ref) : Action.Obeys law (run.call callee args) := by
  unfold call; infer_instance

instance obeys_length (object : Ref) : Action.Obeys law (run.length object) := by
  unfold length; infer_instance

instance obeys_iterate (object : Ref) : Action.Obeys law (run.iterate object) := by
  unfold iterate; infer_instance

instance obeys_toInt (object : Ref) : Action.Obeys law (run.toInt object) := by
  unfold toInt
  refine .bind fun payload => ?_
  split <;> infer_instance

instance obeys_toFloat (object : Ref) : Action.Obeys law (run.toFloat object) := by
  unfold toFloat
  refine .bind fun payload => ?_
  split
  · infer_instance
  · refine .bind fun converted => .bind fun payload => ?_
    split <;> infer_instance

instance obeys_toText (object : Ref) : Action.Obeys law (run.toText object) := by
  unfold toText
  refine .bind fun payload => ?_
  split <;> infer_instance

instance obeys_toBuffer (object : Ref) : Action.Obeys law (run.toBuffer object) := by
  unfold toBuffer; infer_instance

instance obeys_represent (object : Ref) : Action.Obeys law (run.represent object) := by
  unfold represent; infer_instance

instance obeys_intArgument (args : List Ref) (index : Nat) :
    Action.Obeys law (run.intArgument args index) := by
  unfold intArgument; infer_instance

instance obeys_floatArgument (args : List Ref) (index : Nat) :
    Action.Obeys law (run.floatArgument args index) := by
  unfold floatArgument; infer_instance

instance obeys_textArgument (args : List Ref) (index : Nat) :
    Action.Obeys law (run.textArgument args index) := by
  unfold textArgument; infer_instance

instance obeys_bufferArgument (args : List Ref) (index : Nat) :
    Action.Obeys law (run.bufferArgument args index) := by
  unfold bufferArgument; infer_instance

instance obeys_intArgumentOr (args : List Ref) (index : Nat) (fallback : Int64) :
    Action.Obeys law (run.intArgumentOr args index fallback) := by
  unfold intArgumentOr
  refine .bind fun object => ?_
  split <;> infer_instance

end Dispatcher

-- ---------------------------------------------------------------------------
-- Stores
-- ---------------------------------------------------------------------------

namespace Payload

theorem Renews.of_kinds {old new : Payload} (ho : old.kind ≠ .buffer) (hn : new.kind ≠ .buffer) :
    old.Renews new := by
  cases old <;> cases new <;> first | exact ⟨rfl, rfl, fun _ h => h⟩ | exact absurd rfl ‹_›

end Payload

namespace Map

variable {law : Law}

@[simp] theorem run_getNamed? (map : Ref) (name : String) (s : State) :
    (getNamed? map name).run s = .ok (s.named? map name) s := rfl

instance obeys_getNamed? (map : Ref) (name : String) : Obeys law (getNamed? map name) := by
  unfold getNamed?; infer_instance

def replaced (s : State) (cell value : Ref) : State :=
  match s.payload cell with
  | .cell key _ => s.stored cell (.cell key value)
  | _ => s

def appended (s : State) (map cell : Ref) : State :=
  match s.payload map with
  | .map cells => s.stored map (.map (cells ++ [cell]))
  | _ => s

theorem run_replaceValue (cell value : Ref) (s : State) :
    (replaceValue cell value).run s = .ok () (replaced s cell value) := by
  unfold replaceValue replaced
  rw [EStateM.run_bind, run_payload]
  cases s.payload cell <;> rfl

theorem trail_replaced (s : State) (cell value : Ref) : (replaced s cell value).trail = s.trail := by
  unfold replaced
  cases s.payload cell <;> rfl

theorem memory_replaced (s : State) (cell value : Ref) : (replaced s cell value).memory = s.memory := by
  unfold replaced
  cases s.payload cell <;> rfl

theorem keeps_replaced (s : State) (cell value : Ref) : s.KeepsBuffers (replaced s cell value) := by
  unfold replaced
  split
  · rename_i hcell
    exact keeps_stored (by rw [State.kind, hcell]; nofun) nofun
  · exact .refl s

theorem run_appendCell (map cell : Ref) (s : State) :
    (appendCell map cell).run s = .ok () (appended s map cell) := by
  unfold appendCell appended
  rw [EStateM.run_bind, run_payload]
  cases s.payload map <;> rfl

theorem trail_appended (s : State) (map cell : Ref) : (appended s map cell).trail = s.trail := by
  unfold appended
  cases s.payload map <;> rfl

theorem memory_appended (s : State) (map cell : Ref) : (appended s map cell).memory = s.memory := by
  unfold appended
  cases s.payload map <;> rfl

theorem keeps_appended (s : State) (map cell : Ref) : s.KeepsBuffers (appended s map cell) := by
  unfold appended
  split
  · rename_i cells hmap
    have hkind (cells : List Ref) : (Payload.map cells).kind ≠ .buffer := by
      intro hkind
      cases hkind
    exact keeps_stored (by rw [State.kind, hmap]; exact hkind cells) (hkind _)
  · exact .refl s

instance obeys_replaceValue (cell value : Ref) : Obeys law (replaceValue cell value) := by
  refine .of_step (fun s => ((), replaced s cell value)) (run_replaceValue cell value) fun s => ?_
  dsimp only
  unfold replaced
  split
  · rename_i hcell
    exact law.renew (.of_kinds (by rw [hcell]; nofun) nofun)
  · exact law.refl s

instance obeys_appendCell (map cell : Ref) : Obeys law (appendCell map cell) := by
  refine .of_step (fun s => ((), appended s map cell)) (run_appendCell map cell) fun s => ?_
  dsimp only
  unfold appended
  split
  · rename_i hmap
    exact law.renew (.of_kinds (by rw [hmap]; nofun) nofun)
  · exact law.refl s

instance obeys_setNamed (map : Ref) (name : String) (value : Ref) :
    Obeys law (setNamed map name value) := by
  unfold setNamed
  refine .bind fun s => ?_
  split <;> infer_instance

instance spares_setNamed (map : Ref) (name : String) (value : Ref) :
    SparesBuffers (setNamed map name value) := by
  have hreplace (cell : Ref) : SparesBuffers (replaceValue cell value) :=
    .of_step (fun s => ((), replaced s cell value)) (run_replaceValue cell value)
      (keeps_replaced · cell value)
  have happend (cell : Ref) : SparesBuffers (appendCell map cell) :=
    .of_step (fun s => ((), appended s map cell)) (run_appendCell map cell) (keeps_appended · map cell)
  unfold setNamed
  refine .bind fun s => ?_
  split <;> infer_instance

instance obeys_ofNamed (entries : List (String × Ref)) : Obeys law (ofNamed entries) := by
  unfold ofNamed; infer_instance

instance obeys_hook? (map : Ref) (name : String) : Obeys law (hook? map name) := by
  unfold hook?
  refine .bind fun value => ?_
  split <;> infer_instance

instance obeys_callableHook? (map : Ref) (name : String) : Obeys law (callableHook? map name) := by
  unfold callableHook?
  refine .bind fun hook => ?_
  split <;> infer_instance

variable {run : Dispatcher} [Dispatcher.Obeys law run]

instance obeys_keyMatches (probe : Ref) (name : Option Bytes) (key : Ref) :
    Obeys law (keyMatches run probe name key) := by
  unfold keyMatches
  refine .bind fun other => ?_
  split <;> infer_instance

instance obeys_firstMatch (probe : Ref) (name : Option Bytes) (cells : List Ref) :
    Obeys law (firstMatch run probe name cells) := by
  induction cells with
  | nil => exact obeys_pure none
  | cons cell rest ih =>
    unfold firstMatch
    refine .bind fun payload => ?_
    split <;> infer_instance

instance obeys_findCell (map key : Ref) : Obeys law (findCell run map key) := by
  unfold findCell; infer_instance

instance obeys_get? (map key : Ref) : Obeys law (get? run map key) := by
  unfold get?
  refine .bind fun cell => ?_
  split <;> infer_instance

instance obeys_set (map key value : Ref) : Obeys law (set run map key value) := by
  unfold set
  refine .bind fun cell => ?_
  split <;> infer_instance

end Map

-- ---------------------------------------------------------------------------
-- Variables and methods
-- ---------------------------------------------------------------------------

namespace Action

variable {law : Law}

instance obeys_getVariable (name : String) : Obeys law (getVariable name) := by
  unfold getVariable; infer_instance

instance obeys_setVariable (name : String) (value : Ref) : Obeys law (setVariable name value) := by
  unfold setVariable; infer_instance

instance obeys_methodsFor? (kind : Kind) : Obeys law (methodsFor? kind) := by
  unfold methodsFor?; infer_instance

instance obeys_method (kind : Kind) (key : Ref) : Obeys law (method kind key) := by
  unfold method
  refine .bind fun name => .bind fun methods => ?_
  split <;> infer_instance

end Action

end ObjectModel
