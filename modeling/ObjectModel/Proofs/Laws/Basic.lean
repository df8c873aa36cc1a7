import ObjectModel.Rendering

/-!
# Laws of actions

A law says how the states before and after a run are related, for runs that give a value and for
runs that raise. It is closed under the few steps that actions are made of, so that an action which
is put together from these steps obeys every law. Which law holds of a program is then a matter of
the steps alone.
-/

namespace ObjectModel

/-- How a run that does not use up its rounds comes to an end. -/
inductive Ending where
  | value
  | raised
  deriving DecidableEq, Repr

/-- How two runs end of which the second takes place in any case, and counts only when it raises. -/
def Ending.followedBy : Ending → Ending → Ending
  | first, .value => first
  | _, .raised => .raised

/-- How the run of an action in a state ends, and the state it ends in; a run that uses up its rounds
has no end. -/
def Action.ending? (action : Action α) (s : State) : Option (Ending × State) :=
  match action.run s with
  | .ok _ t => some (.value, t)
  | .error .raised t => some (.raised, t)
  | .error .exhausted _ => none

namespace Payload

def window? : Payload → Option (Address × Nat)
  | .buffer made => made.view.length?.map (made.view.address, ·)
  | _ => none

def owns : Payload → Bool
  | .buffer made => made.ownership == .owned
  | _ => false

/-- The objects that a buffer keeps its memory by. -/
def anchors : Payload → List Ref
  | .buffer made => made.anchors
  | _ => []

/-- A payload that looks at no memory, or at none whose length is known. -/
class Blind (payload : Payload) : Prop where
  owns : payload.owns = false
  window : ∀ {address length}, payload.window? = some (address, length) → length = 0

theorem blind_of_kind {payload : Payload} (h : payload.kind ≠ .buffer) : payload.Blind := by
  cases payload with
  | buffer => exact absurd rfl h
  | _ => exact ⟨rfl, nofun⟩

instance : Blind (.int n) := blind_of_kind nofun
instance : Blind (.float x) := blind_of_kind nofun
instance : Blind (.string text) := blind_of_kind nofun
instance : Blind (.list items) := blind_of_kind nofun
instance : Blind (.map cells) := blind_of_kind nofun
instance : Blind (.cell key value) := blind_of_kind nofun
instance : Blind (.function made) := blind_of_kind nofun
instance : Blind (.native made) := blind_of_kind nofun
instance : Blind (.statement node) := blind_of_kind nofun
instance : Blind (.expression node) := blind_of_kind nofun
instance : Blind (.library handle path) := blind_of_kind nofun
instance : Blind (.symbol place name) := blind_of_kind nofun
instance : Blind (.stream channel) := blind_of_kind nofun
instance : Blind (.buffer ⟨.unsized address, .borrowed, keepers⟩) := ⟨rfl, nofun⟩
instance : Blind (.buffer ⟨.sized address 0, .resource resource, keepers⟩) :=
  ⟨rfl, by rintro _ _ ⟨⟩; rfl⟩

/-- A payload that looks at the same memory as another and keeps it by at least the same objects. -/
structure Renews (old new : Payload) : Prop where
  window : new.window? = old.window?
  owns : new.owns = old.owns
  anchors : old.anchors ⊆ new.anchors

theorem Renews.refl (payload : Payload) : payload.Renews payload := ⟨rfl, rfl, fun _ h => h⟩

end Payload

namespace State

def made (s : State) (payload : Payload) : State := { s with heap := s.heap.push payload }

def stored (s : State) (object : Ref) (payload : Payload) : State :=
  { s with heap := s.heap.set object payload }

def withBlock (s : State) (bytes : Bytes) : State :=
  { s with
    memory := (s.memory.allocate bytes).2
    heap := s.heap.push (.buffer {
      view := .sized (s.memory.allocate bytes).1 bytes.length, ownership := .owned }) }

def raising (s : State) (error : Ref) : State :=
  { s with
    heap := s.heap.push (.list s.frames.toArray)
    pending := some ⟨error, s.heap.next⟩
    trail := .raised error s.frames :: s.trail }

def faulting (s : State) (fault : Fault) : State :=
  (s.made (.string fault.message)).raising s.heap.next

def withForeign (s : State) (address : Address) (length : Nat) : State :=
  { s with
    heap := s.heap.push (.buffer { view := .sized address length })
    trail := .foreign :: s.trail }

def exchanged (s : State) (a b : Ref) : State :=
  { s with heap := s.heap.swap a b, trail := .exchanged a b :: s.trail }

/-- The state after the innermost scope was left, which is never the last. -/
def unscoped (s : State) : State :=
  match s.scopes with
  | _ :: outer :: rest => { s with scopes := outer :: rest }
  | _ => s

/-- States that differ in nothing but bytes of memory, files, output, and who holds what from
outside. -/
structure Agrees (s t : State) : Prop where
  heap : t.heap = s.heap
  count : t.memory.blocks.size = s.memory.blocks.size
  sizes : ∀ index, (t.memory.block index).size = (s.memory.block index).size
  globals : t.globals = s.globals
  frames : t.frames = s.frames
  scopes : t.scopes = s.scopes
  delegations : t.delegations = s.delegations
  pending : t.pending = s.pending
  shown : t.shown = s.shown
  trail : t.trail = s.trail

theorem Agrees.outside (s : State) (files : FileStore) (sink : Sink) (pins : List Ref)
    (held : List (List Ref)) : s.Agrees { s with files, sink, pins, held } :=
  ⟨rfl, rfl, fun _ => rfl, rfl, rfl, rfl, rfl, rfl, rfl, rfl⟩

end State

/-- A relation between the states before and after a run that every step of an action keeps to. -/
structure Law where
  holds : Ending → State → State → Prop
  refl : ∀ s, holds .value s s
  trans : ∀ {e a b c}, holds .value a b → holds e b c → holds e a c
  agree : ∀ {e a b c}, holds e a b → b.Agrees c → holds e a c
  raise : ∀ s error, holds .raised s (s.raising error)
  recover : ∀ {a b}, holds .raised a b → holds .value a { b with pending := none }
  make : ∀ s (payload : Payload) [payload.Blind], holds .value s (s.made payload)
  block : ∀ s bytes, s.memory.Fits bytes.length → holds .value s (s.withBlock bytes)
  /-- A view of a part of what another buffer looks at, anchored to that buffer. -/
  part : ∀ {s parent buffer address length} (start size : Nat),
    s.payload parent = .buffer buffer → buffer.view = .sized address length →
    start + size ≤ length →
    holds .value s (s.made (.buffer {
      view := .sized (View.displaced address start) size, anchors := [parent] }))
  /-- A view of memory that nobody answers for. -/
  foreign : ∀ s address length, holds .value s (s.withForeign address length)
  renew : ∀ {s object payload}, (s.payload object).Renews payload →
    holds .value s (s.stored object payload)
  exchange : ∀ s a b, holds .value s (s.exchanged a b)
  note : ∀ {s seen} more, s.shown = some seen → holds .value s { s with shown := some more }
  unseen : ∀ {e s t}, s.shown = none → holds e { s with shown := some ∅ } t →
    holds e s { t with shown := none }
  unframe : ∀ {e s t callable rest}, holds e { s with frames := callable :: s.frames } t →
    t.frames = callable :: rest → holds e s { t with frames := rest }
  imbalance : ∀ {e s t callable}, holds e { s with frames := callable :: s.frames } t →
    t.frames.head? ≠ some callable →
    holds .raised s (State.faulting { t with frames := t.frames.tail } .frameImbalance)
  undelegate : ∀ {e s t}, holds e { s with delegations := s.delegations + 1 } t →
    holds e s { t with delegations := t.delegations - 1 }
  unscope : ∀ {e s t scope}, holds e { s with scopes := scope :: s.scopes } t →
    holds e s t.unscoped

/-- The runs of the action keep to the law. -/
class Action.Obeys (law : Law) (action : Action α) : Prop where
  holds : ∀ {s e t}, action.ending? s = some (e, t) → law.holds e s t

namespace Action

variable {law : Law} {α β : Type}

-- ---------------------------------------------------------------------------
-- Runs
-- ---------------------------------------------------------------------------

theorem ending?_ok {action : Action α} (h : action.run s = .ok a t) :
    action.ending? s = some (.value, t) := by
  simp [ending?, h]

theorem ending?_raised {action : Action α} (h : action.run s = .error .raised t) :
    action.ending? s = some (.raised, t) := by
  simp [ending?, h]

theorem ending?_cases {action : Action α} (h : action.ending? s = some (e, t)) :
    (∃ a, action.run s = .ok a t ∧ e = .value) ∨ (action.run s = .error .raised t ∧ e = .raised) := by
  unfold ending? at h
  split at h
  · rename_i a u ha
    cases h
    exact .inl ⟨a, ha, rfl⟩
  · rename_i u ha
    cases h
    exact .inr ⟨ha, rfl⟩
  · cases h

theorem Obeys.ok {action : Action α} [ho : Obeys law action] (h : action.run s = .ok a t) :
    law.holds .value s t :=
  ho.holds (ending?_ok h)

theorem Obeys.raised {action : Action α} [ho : Obeys law action]
    (h : action.run s = .error .raised t) : law.holds .raised s t :=
  ho.holds (ending?_raised h)

/-- What is to be shown of an action: how its values and its errors come about. -/
theorem Obeys.of_runs {action : Action α}
    (hok : ∀ {s a t}, action.run s = .ok a t → law.holds .value s t)
    (hraised : ∀ {s t}, action.run s = .error .raised t → law.holds .raised s t) :
    Obeys law action := by
  refine ⟨fun h => ?_⟩
  rcases ending?_cases h with ⟨a, ha, rfl⟩ | ⟨ha, rfl⟩
  · exact hok ha
  · exact hraised ha

/-- A step that always gives a value and changes the state as the law allows. -/
theorem Obeys.of_step {action : Action α} (f : State → α × State)
    (hrun : ∀ s, action.run s = .ok (f s).1 (f s).2) (hlaw : ∀ s, law.holds .value s (f s).2) :
    Obeys law action := by
  refine .of_runs (fun {s a t} h => ?_) (fun {s t} h => ?_)
  · rw [hrun] at h
    cases h
    exact hlaw s
  · rw [hrun] at h
    cases h

-- ---------------------------------------------------------------------------
-- Sequences and branches
-- ---------------------------------------------------------------------------

instance obeys_pure (a : α) : Obeys law (pure a : Action α) :=
  .of_step (fun s => (a, s)) (fun _ => rfl) law.refl

/-- A bind in a given state: the rest is asked for only where the first part arrives. -/
theorem holds_bind {x : Action α} {f : α → Action β}
    (hx : ∀ {e t}, x.ending? s = some (e, t) → law.holds e s t)
    (hf : ∀ a t, x.run s = .ok a t → (f a).ending? t = some (e, u) → law.holds e t u)
    (h : (x >>= f).ending? s = some (e, u)) : law.holds e s u := by
  cases hrun : x.run s with
  | ok a t =>
    have hrest : (f a).ending? t = some (e, u) := by
      simpa only [ending?, EStateM.run_bind, hrun] using h
    exact law.trans (hx (ending?_ok hrun)) (hf a t hrun hrest)
  | error stop t =>
    cases stop with
    | raised =>
      simp only [ending?, EStateM.run_bind, hrun, Option.some.injEq, Prod.mk.injEq] at h
      obtain ⟨rfl, rfl⟩ := h
      exact hx (ending?_raised hrun)
    | exhausted => simp [ending?, EStateM.run_bind, hrun] at h

/-- Where a sequence gives a value, its parts do. -/
theorem exists_run_of_bind {x : Action α} {f : α → Action β} (h : (x >>= f).run s = .ok b u) :
    ∃ a t, x.run s = .ok a t ∧ (f a).run t = .ok b u := by
  rw [EStateM.run_bind] at h
  cases hx : x.run s with
  | ok a t =>
    rw [hx] at h
    exact ⟨a, t, rfl, h⟩
  | error stop t =>
    rw [hx] at h
    cases h

theorem Obeys.bind {x : Action α} {f : α → Action β} [Obeys law x] (hf : ∀ a, Obeys law (f a)) :
    Obeys law (x >>= f) :=
  ⟨holds_bind Obeys.holds fun a _ _ => (hf a).holds⟩

instance obeys_bind (x : Action α) (f : α → Action β) [Obeys law x] [hf : ∀ a, Obeys law (f a)] :
    Obeys law (x >>= f) :=
  .bind hf

instance obeys_get : Obeys law (get : Action State) :=
  .of_step (fun s => (s, s)) (fun _ => rfl) law.refl

instance obeys_ite (c : Prop) [Decidable c] (x y : Action α) [Obeys law x] [Obeys law y] :
    Obeys law (if c then x else y) := by
  split <;> infer_instance

instance obeys_exhausted : Obeys law (throw .exhausted : Action α) :=
  .of_runs (fun h => by cases h) (fun h => by cases h)

theorem discard_eq (x : Action α) : discard x = do let _ ← x; return () := by
  funext s
  show EStateM.map _ x s = EStateM.bind x _ s
  unfold EStateM.map EStateM.bind
  cases x s <;> rfl

instance obeys_discard (x : Action α) [Obeys law x] : Obeys law (discard x) := by
  rw [discard_eq]
  infer_instance

end Action

end ObjectModel
