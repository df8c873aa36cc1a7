import ObjectModel.Proofs.Laws.Builtins

/-!
# The state in which a program starts

The globals of a new program are filled by an action that always gives a value and makes no buffer, so
every law tells what state a program starts in (`initial_obeys`), that nothing is on its trail
(`initial_trail`), and that there are no buffers in it (`initial_kind`).
-/

namespace ObjectModel

/-- Nothing was left on the trail, and neither buffers nor their memory had a part. -/
structure State.Unmarked (s t : State) : Prop where
  trail : t.trail = s.trail
  memory : t.memory = s.memory
  buffers : s.KeepsBuffers t

/-- The action gives a value in every state, leaves nothing on the trail and has no part in buffers. -/
class Action.Quiet (action : Action α) : Prop where
  quiet : ∀ s, ∃ a t, action.run s = .ok a t ∧ s.Unmarked t

namespace Action

variable {α β : Type}

theorem Quiet.of_spares {action : Action α} [hs : SparesBuffers action]
    (h : ∀ s, ∃ a t, action.run s = .ok a t ∧ t.trail = s.trail ∧ t.memory = s.memory) : Quiet action := by
  refine ⟨fun s => ?_⟩
  obtain ⟨a, t, hrun, htrail, hmemory⟩ := h s
  exact ⟨a, t, hrun, htrail, hmemory, hs.spares hrun⟩

theorem Quiet.bind {x : Action α} {f : α → Action β} [hx : Quiet x] (hf : ∀ a, Quiet (f a)) :
    Quiet (x >>= f) := by
  refine ⟨fun s => ?_⟩
  obtain ⟨a, t, hrun, hfirst⟩ := hx.quiet s
  obtain ⟨b, u, hrest, hthen⟩ := (hf a).quiet t
  refine ⟨b, u, ?_, hthen.trail.trans hfirst.trail, hthen.memory.trans hfirst.memory,
    hfirst.buffers.trans hthen.buffers⟩
  rw [EStateM.run_bind, hrun]
  exact hrest

instance quiet_bind (x : Action α) (f : α → Action β) [Quiet x] [hf : ∀ a, Quiet (f a)] :
    Quiet (x >>= f) := .bind hf

instance quiet_pure (a : α) : Quiet (pure a : Action α) := .of_spares fun s => ⟨a, s, rfl, rfl, rfl⟩

instance quiet_get : Quiet (get : Action State) := .of_spares fun s => ⟨s, s, rfl, rfl, rfl⟩

instance quiet_nothing : Quiet nothing := by unfold nothing; infer_instance

theorem quiet_create {payload : Payload} (h : payload.kind ≠ .buffer) : Quiet (create payload) :=
  have := spares_create h
  .of_spares fun s => ⟨s.heap.next, s.made payload, rfl, rfl, rfl⟩

instance quiet_createInt (value : Int64) : Quiet (createInt value) := quiet_create nofun

instance quiet_createString (value : String) : Quiet (createString value) := quiet_create nofun

instance quiet_createNative (function : Native) : Quiet (createNative function) := quiet_create nofun

instance quiet_createCell (key value : Ref) : Quiet (create (.cell key value)) := quiet_create nofun

instance quiet_createCells (cells : List Ref) : Quiet (create (.map cells)) := quiet_create nofun

instance quiet_createStream (stream : Stream) : Quiet (create (.stream stream)) := quiet_create nofun

instance quiet_mapM (f : β → Action α) [∀ x, Quiet (f x)] (xs : List β) : Quiet (xs.mapM f) := by
  induction xs with
  | nil => simp only [List.mapM_nil]; infer_instance
  | cons x xs ih => simp only [List.mapM_cons]; infer_instance

instance quiet_forIn (xs : List β) (f : β → Unit → Action (ForInStep Unit)) [∀ x u, Quiet (f x u)] :
    Quiet (forIn xs () f) := by
  induction xs with
  | nil => rw [List.forIn_nil]; infer_instance
  | cons x xs ih =>
    rw [List.forIn_cons]
    refine .bind fun step => ?_
    split <;> infer_instance

end Action

open ObjectModel.Action

instance Map.quiet_setNamed (map : Ref) (name : String) (value : Ref) :
    Quiet (setNamed map name value) := by
  refine .of_spares fun s => ?_
  unfold setNamed
  rw [EStateM.run_bind, EStateM.run_get]
  dsimp only
  split
  · exact ⟨(), _, run_replaceValue _ value s, trail_replaced .., memory_replaced ..⟩
  · exact ⟨(), _, run_appendCell map _ _, trail_appended .., memory_appended ..⟩

instance Map.quiet_ofNamed (entries : List (String × Ref)) : Quiet (ofNamed entries) := by
  unfold ofNamed; infer_instance

namespace Globals

instance quiet_functions (entries : List (String × Builtin)) : Quiet (functions entries) := by
  unfold functions; infer_instance

instance quiet_bufferMap : Quiet bufferMap := by
  unfold bufferMap
  refine .bind fun map => ?_
  infer_instance

instance quiet_streamMap : Quiet streamMap := by
  unfold streamMap
  refine .bind fun map => ?_
  dsimp only
  infer_instance

instance quiet_install : Quiet install := by
  unfold install
  refine .bind fun s => .bind fun _ => .bind fun _ => .bind fun _ => .bind fun _ => .bind fun _ => ?_
  refine .bind fun _ => .bind fun _ => .bind fun _ => .bind fun _ => .bind fun _ => ?_
  refine .bind fun _ => .bind fun _ => .bind fun _ => .bind fun _ => ?_
  infer_instance

end Globals

theorem Action.final_of_run {action : Action α} (h : action.run s = .ok a t) : action.final s = t := by
  have h : action s = .ok a t := h
  unfold final
  rw [h]

namespace State

variable (limits : Limits) (sink : Sink) (files : FileStore)

/-- The globals are filled by a run that gives a value and makes no buffer. -/
theorem initial_run : Globals.install.run (Globals.bare limits sink files) =
    .ok () (initial limits sink files) ∧
      (Globals.bare limits sink files).Unmarked (initial limits sink files) := by
  obtain ⟨_, t, hrun, hsame⟩ := Globals.quiet_install.quiet (Globals.bare limits sink files)
  have hfinal : initial limits sink files = t := final_of_run hrun
  rw [hfinal]
  exact ⟨hrun, hsame⟩

theorem initial_trail : (initial limits sink files).trail = [] := (initial_run limits sink files).2.trail

theorem initial_memory : (initial limits sink files).memory = .empty :=
  (initial_run limits sink files).2.memory

/-- The state a program starts in comes from the one with empty globals as every law allows. -/
theorem initial_obeys (law : Law) :
    law.holds .value (Globals.bare limits sink files) (initial limits sink files) :=
  Obeys.ok (initial_run limits sink files).1

theorem initial_kind (object : Ref) : (initial limits sink files).kind object ≠ .buffer := by
  intro hkind
  have hbare : (Globals.bare limits sink files).kind object = .buffer := by
    rw [kind, ← (initial_run limits sink files).2.buffers object (.inr hkind)]
    exact hkind
  obtain ⟨index⟩ := object
  rcases index with _ | _ | _ | index
  · cases hbare
  · cases hbare
  · cases hbare
  · simp [kind, payload, Heap.get, Globals.bare, Payload.kind] at hbare

end State

end ObjectModel
