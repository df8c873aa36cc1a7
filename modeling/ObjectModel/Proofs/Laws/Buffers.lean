import ObjectModel.Behavior.Buffers
import ObjectModel.Proofs.Laws.Values

/-!
# Behaviors of buffers

What buffers answer keeps to every law that the dispatcher keeps to. A buffer owns a copy of its bytes,
looks at a part of another buffer and is anchored to it, or looks at memory nobody answers for; writing
does not move or resize any block.
-/

namespace ObjectModel

-- ---------------------------------------------------------------------------
-- Writing to memory
-- ---------------------------------------------------------------------------

namespace Memory

theorem count_write (memory : Memory) (address : Address) (bytes : Bytes) :
    (memory.write address bytes).blocks.size = memory.blocks.size := by
  unfold write
  split <;> simp [overlay]

theorem size_block_write (memory : Memory) (address : Address) (bytes : Bytes) (index : Nat) :
    ((memory.write address bytes).block index).size = (memory.block index).size := by
  unfold write block
  split
  · rename_i place offset hplace
    simp only [overlay, Array.getElem?_modify]
    by_cases heq : place = index
    · cases memory.blocks[index]? with
      | none => simp [heq]
      | some found => simp [heq, size_splice]
    · simp [heq]
  · rfl

end Memory

theorem View.exists_write {view : View} (h : view.set? memory format offset scalar = some written) :
    ∃ address bytes, written = memory.write address bytes := by
  unfold set? at h
  cases view with
  | sized address length =>
    dsimp only at h
    split at h
    · obtain ⟨bytes, -, rfl⟩ := Option.map_eq_some_iff.mp h
      exact ⟨_, bytes, rfl⟩
    · cases h
  | unsized address =>
    dsimp only at h
    split at h
    · cases h
    · obtain ⟨bytes, -, rfl⟩ := Option.map_eq_some_iff.mp h
      exact ⟨_, bytes, rfl⟩

theorem State.agrees_write {s : State} {view : View} {memory : Memory}
    (h : view.set? s.memory format offset scalar = some memory) :
    s.Agrees { s with memory } := by
  obtain ⟨address, bytes, rfl⟩ := View.exists_write h
  exact ⟨rfl, Memory.count_write _ _ _, Memory.size_block_write _ _ _, rfl, rfl, rfl, rfl, rfl, rfl, rfl⟩

namespace Behavior.Buffers

open ObjectModel.Action

variable {law : Law} {run : Dispatcher} [hr : Dispatcher.Obeys law run] {machine : Machine}
  [hd : Dispatcher.Obeys law machine.toDispatcher] {args : List Ref}

-- ---------------------------------------------------------------------------
-- Views
-- ---------------------------------------------------------------------------

omit hr hd

instance obeys_viewOf (object : Ref) : Obeys law (viewOf object) := by
  unfold viewOf
  refine .bind fun payload => ?_
  split <;> infer_instance

theorem run_viewOf (h : (viewOf object).run s = .ok view t) :
    t = s ∧ ∃ buffer, s.payload object = .buffer buffer ∧ buffer.view = view := by
  unfold viewOf at h
  rw [EStateM.run_bind, run_payload] at h
  dsimp only at h
  split at h
  · rename_i buffer hbuffer
    cases h
    exact ⟨rfl, buffer, hbuffer, rfl⟩
  · cases h

instance obeys_sizedBytes (use : UnsizedUse) (object : Ref) : Obeys law (sizedBytes use object) := by
  unfold sizedBytes
  refine .bind fun view => .bind fun state => ?_
  split <;> infer_instance

instance obeys_createUnsized (address : Address) (anchors : List Ref) :
    Obeys law (createBorrowed (.unsized address) anchors) := by
  unfold createBorrowed; infer_instance

instance obeys_createForeign (address : Address) (length : Nat) :
    Obeys law (createForeign address length) :=
  .of_step (fun s => (s.heap.next, s.withForeign address length)) (fun _ => rfl)
    fun s => law.foreign s address length

/-- The rest of a buffer, made after steps that left the buffer as it was. -/
theorem holds_createRest {s t u : State} {e : Ending} {parent : Ref} {buffer : Buffer}
    {offset : Int} {part : View} (hkeep : s.KeepsBuffers t) (hparent : s.payload parent = .buffer buffer)
    (hpart : buffer.view.from? offset = some part)
    (hrun : (createBorrowed part [parent]).ending? t = some (e, u)) : law.holds e t u := by
  unfold View.from? at hpart
  split at hpart
  · rename_i address length hview
    split at hpart
    · rename_i hin
      cases hpart
      obtain ⟨start, rfl⟩ := Int.eq_ofNat_of_zero_le hin.1
      have hin : start + (length - start) ≤ length := by omega
      exact holds_createPart hkeep hparent hview hin hrun
    · cases hpart
  · cases hpart
    exact (obeys_createUnsized _ _).holds hrun

instance obeys_textBytes (object : Ref) : Obeys law (textBytes object) := by
  unfold textBytes
  refine .bind fun payload => ?_
  split <;> infer_instance

instance obeys_textOf (object : Ref) : Obeys law (textOf object) := by
  unfold textOf
  refine .bind fun payload => ?_
  split <;> infer_instance

instance obeys_createScalar (scalar : Scalar) : Obeys law (createScalar scalar) := by
  unfold createScalar
  split <;> infer_instance

instance obeys_anchor (object anchored : Ref) : Obeys law (anchor object anchored) := by
  unfold anchor
  refine ⟨holds_bind Obeys.holds fun payload t hread => ?_⟩
  cases hread
  split
  · rename_i buffer hbuffer
    refine holds_store ?_
    rw [hbuffer]
    exact ⟨rfl, rfl, List.subset_append_left _ _⟩
  · exact (obeys_pure ()).holds

include hd in
instance obeys_index : Obeys law (index machine args) := by
  unfold index
  refine .bind fun buffer => .bind fun key => .bind fun name => ?_
  split
  · infer_instance
  · refine ⟨holds_bind Obeys.holds fun view t hview => ?_⟩
    obtain ⟨rfl, found, hbuffer, rfl⟩ := run_viewOf hview
    refine holds_bind Obeys.holds fun offset u hoffset => ?_
    have hkeep := Dispatcher.Obeys.converts law hoffset
    split
    · rename_i part hpart
      exact holds_createRest hkeep hbuffer hpart
    · exact obeys_nothing.holds

-- ---------------------------------------------------------------------------
-- Operations
-- ---------------------------------------------------------------------------

include hd

instance obeys_add : Obeys law (add machine args) := by
  unfold add; infer_instance

instance obeys_mul : Obeys law (mul machine args) := by
  unfold mul; infer_instance

instance obeys_compare : Obeys law (compare machine args) := by
  unfold compare
  refine .bind fun first => .bind fun left => .bind fun other => .bind fun kind => ?_
  split <;> infer_instance

omit hd in
instance obeys_length : Obeys law (length machine args) := by
  unfold length; infer_instance

theorem obeys_handler (h : handler operation = some body) : Obeys law (body machine args) := by
  cases operation with
  | toInt => cases h; unfold toInt; infer_instance
  | toFloat => cases h; unfold toFloat; infer_instance
  | toText => cases h; unfold toText; infer_instance
  | toBuffer => cases h; unfold toBuffer; infer_instance
  | represent => cases h; unfold represent; infer_instance
  | _ => cases h <;> infer_instance

-- ---------------------------------------------------------------------------
-- Methods
-- ---------------------------------------------------------------------------

instance obeys_access (offsetPlace : Nat) : Obeys law (access machine args offsetPlace) := by
  unfold access; infer_instance

instance obeys_read : Obeys law (read machine args) := by
  unfold read
  refine .bind fun access => ?_
  obtain ⟨view, format, offset⟩ := access
  refine .bind fun state => ?_
  dsimp only
  split <;> infer_instance

omit hd in
include hr in
instance obeys_scalarOf (format : Format) (value : Ref) :
    Obeys law (scalarOf run format value) := by
  unfold scalarOf
  split
  · infer_instance
  · infer_instance
  · infer_instance
  · infer_instance
  · refine .bind fun payload => ?_
    split <;> infer_instance
  · infer_instance

instance obeys_write : Obeys law (write machine args) := by
  unfold write
  refine .bind fun target => .bind fun access => ?_
  obtain ⟨view, format, offset⟩ := access
  dsimp only
  split
  · infer_instance
  · refine .bind fun value => .bind fun scalar => ⟨holds_bind Obeys.holds fun state t hget => ?_⟩
    cases hget
    split
    · exact obeys_nothing.holds
    · rename_i memory hset
      refine holds_bind (fun hwrite => ?_) fun _ _ _ => Obeys.holds
      cases hwrite
      exact law.agree (law.refl _) (State.agrees_write hset)

omit hd in
instance obeys_address : Obeys law (address machine args) := by
  unfold address; infer_instance

instance obeys_sub : Obeys law (sub machine args) := by
  unfold sub; infer_instance

instance obeys_split : Obeys law (split machine args) := by
  unfold split; infer_instance

instance obeys_find : Obeys law (find machine args) := by
  unfold find; infer_instance

instance obeys_ofSize : Obeys law (ofSize machine args) := by
  unfold ofSize; infer_instance

instance obeys_ofText : Obeys law (ofText machine args) := by
  unfold ofText; infer_instance

omit hd in
instance obeys_ofObject : Obeys law (ofObject machine args) := by
  unfold ofObject; infer_instance

instance obeys_ofAddress : Obeys law (ofAddress machine args) := by
  unfold ofAddress; infer_instance

end Behavior.Buffers

end ObjectModel
