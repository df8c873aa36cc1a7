import ObjectModel.Proofs.Laws.Basic

/-!
# The steps of actions

Every step that actions are made of obeys every law: reading, making objects, raising, and running
something inside a frame, a scope, a delegation, or a note of shown containers.
-/

namespace ObjectModel.Action

variable {law : Law} {α β : Type}

-- ---------------------------------------------------------------------------
-- Reading
-- ---------------------------------------------------------------------------

@[simp] theorem run_payload (object : Ref) (s : State) :
    (payload object).run s = .ok (s.payload object) s := rfl

@[simp] theorem run_kind (object : Ref) (s : State) : (kind object).run s = .ok (s.kind object) s := rfl

@[simp] theorem run_nothing (s : State) : nothing.run s = .ok s.nothing s := rfl

@[simp] theorem run_isNothing (object : Ref) (s : State) :
    (isNothing object).run s = .ok (decide (object = s.nothing)) s := rfl

@[simp] theorem run_nameBytes? (object : Ref) (s : State) :
    (nameBytes? object).run s = .ok (s.nameBytes? object) s := rfl

@[simp] theorem run_orNothing (object : Option Ref) (s : State) :
    (orNothing object).run s = .ok (object.getD s.nothing) s := by
  cases object <;> rfl

@[simp] theorem run_argument (args : List Ref) (index : Nat) (s : State) :
    (argument args index).run s = .ok (args[index]?.getD s.nothing) s := run_orNothing _ s

instance obeys_payload (object : Ref) : Obeys law (payload object) := by
  unfold payload; infer_instance

instance obeys_kind (object : Ref) : Obeys law (kind object) := by
  unfold kind; infer_instance

instance obeys_nothing : Obeys law nothing := by
  unfold nothing; infer_instance

instance obeys_isNothing (object : Ref) : Obeys law (isNothing object) := by
  unfold isNothing; infer_instance

instance obeys_orNothing (object : Option Ref) : Obeys law (orNothing object) := by
  unfold orNothing; split <;> infer_instance

instance obeys_nameBytes? (object : Ref) : Obeys law (nameBytes? object) := by
  unfold nameBytes?; infer_instance

instance obeys_argument (args : List Ref) (index : Nat) : Obeys law (argument args index) := by
  unfold argument; infer_instance

instance obeys_optional (args : List Ref) (index : Nat) : Obeys law (optional args index) := by
  unfold optional; split <;> infer_instance

-- ---------------------------------------------------------------------------
-- Changing the state
-- ---------------------------------------------------------------------------

theorem obeys_modify {f : State → State} (h : ∀ s, law.holds .value s (f s)) :
    Obeys law (modify f : Action Unit) :=
  .of_step (fun s => ((), f s)) (fun _ => rfl) h

@[simp] theorem run_create (payload : Payload) (s : State) :
    (create payload).run s = .ok s.heap.next (s.made payload) := rfl

theorem run_createString (text : String) (s : State) :
    (createString text).run s = .ok s.heap.next (s.made (.string text)) := rfl

instance obeys_create (payload : Payload) [payload.Blind] : Obeys law (create payload) :=
  .of_step (fun s => (s.heap.next, s.made payload)) (fun _ => rfl) fun s => law.make s payload

instance obeys_createInt (value : Int64) : Obeys law (createInt value) := by
  unfold createInt; infer_instance

instance obeys_createString (value : String) : Obeys law (createString value) := by
  unfold createString; infer_instance

instance obeys_createList (items : List Ref) : Obeys law (createList items) := by
  unfold createList; infer_instance

instance obeys_createMap : Obeys law createMap := by
  unfold createMap; infer_instance

instance obeys_createNative (function : Native) : Obeys law (createNative function) := by
  unfold createNative; infer_instance

@[simp] theorem run_raiseObject (error : Ref) (s : State) :
    (raiseObject error : Action α).run s = .error .raised (s.raising error) := rfl

@[simp] theorem run_raise (fault : Fault) (s : State) :
    (raise fault : Action α).run s = .error .raised (s.faulting fault) := rfl

theorem holds_fault (law : Law) (s : State) (fault : Fault) :
    law.holds .raised s (s.faulting fault) :=
  law.trans (law.make s _) (law.raise _ _)

instance obeys_raiseObject (error : Ref) : Obeys law (raiseObject error : Action α) :=
  .of_runs (fun h => by cases h) (fun h => by cases h; exact law.raise _ _)

instance obeys_raise (fault : Fault) : Obeys law (raise fault : Action α) :=
  .of_runs (fun h => by cases h) (fun h => by cases h; exact holds_fault law _ _)

theorem run_createBuffer (bytes : Bytes) (s : State) :
    (createBuffer bytes).run s = if s.memory.Fits bytes.length
      then .ok s.heap.next (s.withBlock bytes)
      else .error .raised (s.faulting (.allocation bytes.length)) := by
  unfold createBuffer
  rw [EStateM.run_bind, EStateM.run_get]
  by_cases h : s.memory.Fits bytes.length
  · simp only [h, not_true_eq_false, if_false, if_true]
    rfl
  · simp only [h, not_false_eq_true, if_true, if_false]
    rfl

instance obeys_createBuffer (bytes : Bytes) : Obeys law (createBuffer bytes) := by
  refine .of_runs (fun h => ?_) (fun h => ?_)
  · rw [run_createBuffer] at h
    split at h
    · rename_i hfits
      cases h
      exact law.block _ _ hfits
    · cases h
  · rw [run_createBuffer] at h
    split at h
    · cases h
    · cases h
      exact holds_fault law _ _

theorem holds_store {s t : State} {e : Ending} {object : Ref} {payload : Payload}
    (h : (s.payload object).Renews payload)
    (hrun : (store object payload).ending? s = some (e, t)) : law.holds e s t := by
  rcases ending?_cases hrun with ⟨a, ha, rfl⟩ | ⟨ha, rfl⟩
  · cases ha
    exact law.renew h
  · cases ha

-- ---------------------------------------------------------------------------
-- Lists of steps
-- ---------------------------------------------------------------------------

instance obeys_mapM (f : β → Action α) [∀ x, Obeys law (f x)] (xs : List β) :
    Obeys law (xs.mapM f) := by
  induction xs with
  | nil => simp only [List.mapM_nil]; infer_instance
  | cons x xs ih => simp only [List.mapM_cons]; infer_instance

instance obeys_foldlM (f : β → α → Action β) [∀ b a, Obeys law (f b a)] (start : β)
    (xs : List α) : Obeys law (xs.foldlM f start) := by
  induction xs generalizing start with
  | nil => simp only [List.foldlM_nil]; infer_instance
  | cons x xs ih => simp only [List.foldlM_cons]; infer_instance

instance obeys_createAll (f : β → Payload) [∀ x, (f x).Blind] (xs : List β) :
    Obeys law (createAll (xs.map f)) := by
  unfold createAll
  rw [List.mapM_map]
  exact obeys_mapM (fun x => create (f x)) xs

-- ---------------------------------------------------------------------------
-- Steps around an action
-- ---------------------------------------------------------------------------

theorem run_attempt (action : Action α) (s : State) :
    (attempt action).run s = match action.run s with
      | .ok a t => .ok (some a) t
      | .error .raised t => .ok none t
      | .error .exhausted t => .error .exhausted t := rfl

theorem run_followedBy (action : Action α) (after : Action Unit) (s : State) :
    (followedBy action after).run s = match action.run s with
      | .ok a t => match after.run t with
        | .ok _ u => .ok a u
        | .error stop u => .error stop u
      | .error .raised t => match after.run t with
        | .ok _ u => .error .raised u
        | .error stop u => .error stop u
      | .error .exhausted t => .error .exhausted t := by
  unfold followedBy
  simp only [EStateM.run_bind, run_attempt]
  cases action.run s with
  | ok a t => dsimp only; cases after.run t <;> rfl
  | error stop t =>
    cases stop with
    | raised => dsimp only; cases after.run t <;> rfl
    | exhausted => rfl

theorem ending?_followedBy (action : Action α) (after : Action Unit) (s : State) :
    (followedBy action after).ending? s = (action.ending? s).bind fun (e, t) =>
      (after.ending? t).map fun (f, u) => (e.followedBy f, u) := by
  unfold ending?
  rw [run_followedBy]
  cases action.run s with
  | ok a t =>
    dsimp only [Option.bind_some]
    cases after.run t with
    | ok _ u => rfl
    | error stop u => cases stop <;> rfl
  | error stop t =>
    cases stop with
    | raised =>
      dsimp only [Option.bind_some]
      cases after.run t with
      | ok _ u => rfl
      | error stop u => cases stop <;> rfl
    | exhausted => rfl

theorem ending?_followedBy_modify (action : Action α) (f : State → State) (s : State) :
    (followedBy action (modify f)).ending? s =
      (action.ending? s).map fun (e, t) => (e, f t) := by
  rw [ending?_followedBy]
  cases action.ending? s <;> rfl

theorem run_followedBy_modify (action : Action α) (f : State → State) (s : State) :
    (followedBy action (modify f)).run s = match action.run s with
      | .ok a t => .ok a (f t)
      | .error .raised t => .error .raised (f t)
      | .error .exhausted t => .error .exhausted t := by
  rw [run_followedBy]
  cases action.run s with
  | ok a t => rfl
  | error stop t => cases stop <;> rfl

theorem run_holding (objects : List Ref) (action : Action α) (s : State) :
    (holding objects action).run s = match action.run { s with held := objects :: s.held } with
      | .ok a t => .ok a { t with held := s.held }
      | .error .raised t => .error .raised { t with held := s.held }
      | .error .exhausted t => .error .exhausted t := run_followedBy_modify action _ _

theorem ending?_holding (objects : List Ref) (action : Action α) (s : State) :
    (holding objects action).ending? s =
      (action.ending? { s with held := objects :: s.held }).map fun (e, t) =>
        (e, { t with held := s.held }) :=
  ending?_followedBy_modify action _ _

/-- Who is held on behalf of an operation is of no concern to a law. -/
theorem holds_held {s t : State} {e : Ending} {inner outer : List (List Ref)}
    (h : law.holds e { s with held := inner } t) : law.holds e s { t with held := outer } := by
  have hin : law.holds .value s { s with held := inner } :=
    law.agree (law.refl s) (.outside ..)
  exact law.agree (law.trans hin h) (.outside ..)

instance obeys_holding (objects : List Ref) (action : Action α) [ho : Obeys law action] :
    Obeys law (holding objects action) := by
  refine ⟨fun h => ?_⟩
  rw [ending?_holding, Option.map_eq_some_iff] at h
  obtain ⟨⟨e, t⟩, hrun, h⟩ := h
  cases h
  exact holds_held (ho.holds hrun)

/-- An error that is taken out of its slot leaves a state as a value does. -/
theorem Obeys.recover {action : Action α} {next : Option α → Action β}
    {rest : Option Pending → Action β} (objects : List Ref) [ho : Obeys law action]
    (hvalue : ∀ a, Obeys law (next (some a))) (hraised : next none = takePending >>= rest)
    (hrest : ∀ pending, Obeys law (rest pending)) :
    Obeys law (holding objects (attempt action) >>= next) := by
  refine ⟨fun {s e u} h => ?_⟩
  unfold ending? at h
  rw [EStateM.run_bind, run_holding, run_attempt] at h
  cases hrun : action.run { s with held := objects :: s.held } with
  | ok a t =>
    rw [hrun] at h
    exact law.trans (holds_held (Obeys.ok hrun)) ((hvalue a).holds h)
  | error stop t =>
    rw [hrun] at h
    cases stop with
    | raised =>
      dsimp only at h
      rw [hraised] at h
      have hstop : law.holds .raised s { t with held := s.held } :=
        holds_held (Obeys.raised hrun)
      exact law.trans (law.recover hstop) ((hrest t.pending).holds h)
    | exhausted => cases h

theorem run_checkDepth (s : State) :
    checkDepth.run s = if s.limits.depth ≤ s.depth
      then .error .raised (s.faulting (.depth s.limits.depth)) else .ok () s := by
  unfold checkDepth
  rw [EStateM.run_bind]
  dsimp only [EStateM.run_get]
  split <;> rfl

theorem ending?_checkDepth_bind (f : Unit → Action α) (s : State) :
    (checkDepth >>= f).ending? s = if s.limits.depth ≤ s.depth
      then some (.raised, s.faulting (.depth s.limits.depth)) else (f ()).ending? s := by
  unfold ending?
  rw [EStateM.run_bind, run_checkDepth]
  by_cases hdeep : s.limits.depth ≤ s.depth
  · rw [if_pos hdeep, if_pos hdeep]
  · rw [if_neg hdeep, if_neg hdeep]

theorem ending?_delegated (action : Action α) (s : State) :
    (delegated action).ending? s = if s.limits.depth ≤ s.depth
      then some (.raised, s.faulting (.depth s.limits.depth))
      else (action.ending? { s with delegations := s.delegations + 1 }).map fun (e, t) =>
        (e, { t with delegations := t.delegations - 1 }) := by
  unfold delegated
  rw [ending?_checkDepth_bind]
  split
  · rfl
  · exact ending?_followedBy_modify action _ _

instance obeys_delegated (action : Action α) [ho : Obeys law action] :
    Obeys law (delegated action) := by
  refine ⟨fun h => ?_⟩
  rw [ending?_delegated] at h
  split at h
  · cases h
    exact holds_fault law _ _
  · obtain ⟨⟨e, t⟩, hrun, h⟩ := Option.map_eq_some_iff.mp h
    cases h
    exact law.undelegate (ho.holds hrun)

theorem ending?_popFrame (callable : Ref) (t : State) :
    (popFrame callable).ending? t = some (if t.frames.head? = some callable
      then (.value, { t with frames := t.frames.tail })
      else (.raised, State.faulting { t with frames := t.frames.tail } .frameImbalance)) := by
  unfold popFrame
  unfold ending?
  rw [EStateM.run_bind, EStateM.run_get]
  dsimp only
  cases hframes : t.frames with
  | nil =>
    have : { t with frames := [] } = t := by rw [← hframes]
    simp [this]
  | cons top rest =>
    simp only [EStateM.run_bind, EStateM.run_modify, List.head?_cons, Option.some.injEq, List.tail_cons]
    by_cases htop : top = callable
    · rw [if_pos htop, if_pos htop]; rfl
    · rw [if_neg htop, if_neg htop]; rfl

theorem ending?_inFrame (callable : Ref) (action : Action α) (s : State) :
    (inFrame callable action).ending? s = if s.limits.depth ≤ s.depth
      then some (.raised, s.faulting (.depth s.limits.depth))
      else (followedBy action (popFrame callable)).ending?
        { s with frames := callable :: s.frames } := by
  unfold inFrame pushFrame
  rw [bind_assoc, ending?_checkDepth_bind]
  rfl

instance obeys_inFrame (callable : Ref) (action : Action α) [ho : Obeys law action] :
    Obeys law (inFrame callable action) := by
  refine ⟨fun h => ?_⟩
  rw [ending?_inFrame] at h
  split at h
  · cases h
    exact holds_fault law _ _
  · rw [ending?_followedBy, Option.bind_eq_some_iff] at h
    obtain ⟨⟨e, t⟩, hrun, h⟩ := h
    simp only [ending?_popFrame, Option.map_some, Option.some.injEq] at h
    split at h
    · rename_i htop
      cases h
      obtain ⟨rest, hframes⟩ := List.head?_eq_some_iff.mp htop
      rw [hframes]
      exact law.unframe (ho.holds hrun) hframes
    · rename_i htop
      cases h
      exact law.imbalance (ho.holds hrun) htop

theorem run_discard_popScope (s : State) :
    (discard popScope : Action Unit).run s = .ok () s.unscoped := by
  rw [discard_eq, EStateM.run_bind]
  unfold State.unscoped popScope
  rw [EStateM.run_modifyGet]
  rcases s.scopes with _ | ⟨scope, _ | ⟨outer, rest⟩⟩ <;> rfl

theorem ending?_inScope (scope : Ref) (action : Action α) (s : State) :
    (inScope scope action).ending? s =
      (action.ending? { s with scopes := scope :: s.scopes }).map fun (e, t) =>
        (e, t.unscoped) := by
  have hpop : (discard popScope : Action Unit) = modify State.unscoped :=
    funext run_discard_popScope
  unfold inScope
  rw [hpop]
  exact ending?_followedBy_modify action _ _

instance obeys_inScope (scope : Ref) (action : Action α) [ho : Obeys law action] :
    Obeys law (inScope scope action) := by
  refine ⟨fun h => ?_⟩
  rw [ending?_inScope, Option.map_eq_some_iff] at h
  obtain ⟨⟨e, t⟩, hrun, h⟩ := h
  cases h
  exact law.unscope (ho.holds hrun)

end ObjectModel.Action

namespace ObjectModel.Rendering

open ObjectModel.Action

variable {law : Law} {α : Type}

theorem ending?_noting (action : Action α) (s : State) :
    (noting action).ending? s = match s.shown with
      | some _ => action.ending? s
      | none => (action.ending? { s with shown := some ∅ }).map fun (e, t) =>
          (e, { t with shown := none }) := by
  unfold noting
  cases hshown : s.shown with
  | some seen =>
    unfold ending?
    rw [EStateM.run_bind, EStateM.run_get]
    simp only [hshown]
  | none =>
    unfold ending?
    rw [EStateM.run_bind, EStateM.run_get]
    simp only [hshown]
    exact ending?_followedBy_modify action _ _

instance obeys_noting (action : Action α) [ho : Obeys law action] : Obeys law (noting action) := by
  refine ⟨fun {s e u} h => ?_⟩
  rw [ending?_noting] at h
  split at h
  · exact ho.holds h
  · rename_i hshown
    obtain ⟨⟨e, t⟩, hrun, h⟩ := Option.map_eq_some_iff.mp h
    cases h
    exact law.unseen hshown (ho.holds hrun)

theorem run_note (object : Ref) (s : State) :
    (note object).run s = match s.shown with
      | some seen => if object.index ∈ seen then .ok false s
        else .ok true { s with shown := some (seen.insert object.index) }
      | none => .ok false s := by
  unfold note
  rw [EStateM.run_bind]
  simp only [EStateM.run_get]
  cases s.shown with
  | some seen => dsimp only; split <;> rfl
  | none => rfl

instance obeys_note (object : Ref) : Obeys law (note object) := by
  refine .of_runs (fun {s a t} h => ?_) (fun {s t} h => ?_)
  · rw [run_note] at h
    split at h
    · rename_i seen hshown
      split at h
      · cases h
        exact law.refl s
      · cases h
        exact law.note _ hshown
    · cases h
      exact law.refl s
  · rw [run_note] at h
    split at h
    · split at h <;> cases h
    · cases h

end ObjectModel.Rendering
