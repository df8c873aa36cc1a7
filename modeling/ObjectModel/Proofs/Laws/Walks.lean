import ObjectModel.Proofs.Laws.Machines

/-!
# Walks and texts

Walking over objects and making texts of containers keeps to every law that the dispatcher keeps to.
-/

namespace ObjectModel

open ObjectModel.Action

variable {law : Law} {α : Type}

theorem Action.holds_createPart {s t u : State} {e : Ending} {parent : Ref} {buffer : Buffer}
    {start size : Nat} (hkeep : s.KeepsBuffers t) (hparent : s.payload parent = .buffer buffer)
    (hview : buffer.view = .sized address length) (hsize : start + size ≤ length)
    (hrun : (create (.buffer {
      view := .sized (View.displaced address start) size, anchors := [parent] })).ending? t =
        some (e, u)) : law.holds e t u := by
  have hkind : s.kind parent = .buffer := by rw [State.kind, hparent]; rfl
  cases hrun
  exact law.part start size ((hkeep parent (.inl hkind)).trans hparent) hview hsize

-- ---------------------------------------------------------------------------
-- Walks
-- ---------------------------------------------------------------------------

namespace Iteration

instance obeys_slot? (scratch : Ref) (name : String) : Obeys law (slot? scratch name) := by
  unfold slot?
  refine .bind fun value => ?_
  split <;> infer_instance

instance obeys_offsets (scratch : Ref) (length : Int64) : Obeys law (offsets scratch length) := by
  unfold offsets; infer_instance

instance obeys_advance (scratch : Ref) (offset bound : Int64) :
    Obeys law (advance scratch offset bound) := by
  unfold advance; infer_instance

instance spares_slot? (scratch : Ref) (name : String) : SparesBuffers (slot? scratch name) := by
  have hnamed : SparesBuffers (Map.getNamed? scratch name) := by unfold Map.getNamed?; infer_instance
  unfold slot?
  refine .bind fun value => ?_
  split <;> infer_instance

instance spares_offsets (scratch : Ref) (length : Int64) : SparesBuffers (offsets scratch length) := by
  unfold offsets; infer_instance

instance spares_advance (scratch : Ref) (offset bound : Int64) :
    SparesBuffers (advance scratch offset bound) := by
  unfold advance; infer_instance

instance obeys_stepString (machine : Machine) (args : List Ref) :
    Obeys law (stepString machine args) := by
  unfold stepString
  refine .bind fun object => .bind fun payload => .bind fun scratch => .bind fun walk => ?_
  obtain ⟨offset, bound⟩ := walk
  dsimp only
  split <;> infer_instance

instance obeys_stepBuffer (machine : Machine) (args : List Ref) :
    Obeys law (stepBuffer machine args) := by
  unfold stepBuffer
  refine .bind fun container => .bind fun scratch => ⟨fun {s e u} => ?_⟩
  refine holds_bind Obeys.holds fun payload t hread => ?_
  cases hread
  split
  · rename_i address length hview
    obtain ⟨buffer, hbuffer, hview⟩ := Option.map_eq_some_iff.mp hview
    have hpayload : s.payload container = .buffer buffer := by
      cases hp : s.payload container <;> simp_all [Payload.buffer?]
    refine holds_bind Obeys.holds fun walk t hoffsets => ?_
    have hkeep := SparesBuffers.spares hoffsets
    obtain ⟨offset, bound⟩ := walk
    dsimp only
    split
    · rename_i hin
      refine holds_bind Obeys.holds fun _ t' hadvance => ?_
      obtain ⟨start, hstart⟩ := Int.eq_ofNat_of_zero_le (Int64.le_iff_toInt_le.mp hin.2.1)
      rw [hstart]
      refine holds_createPart (hkeep.trans (SparesBuffers.spares hadvance)) hpayload hview ?_
      omega
    · exact obeys_nothing.holds
  · exact obeys_nothing.holds

/-- A cursor that moves on looks at the same nothing as before. -/
theorem renews_cursor {buffer : Buffer} (h : buffer.ownership = .resource resource) :
    Payload.Renews (.buffer buffer) (.buffer { buffer with ownership := .resource resource' }) := by
  refine ⟨rfl, ?_, fun _ h => h⟩
  simp only [Payload.owns, h]
  rfl

instance obeys_nextPosition (container scratch : Ref) : Obeys law (nextPosition container scratch) := by
  unfold nextPosition
  have hfresh : Obeys law (do
      let address := Heap.address (← get).heap.next
      let cursor ← create (.buffer {
        view := .sized address 0, ownership := .resource (.cursor 1 container) })
      Map.setNamed scratch "idx" cursor
      return 0) := inferInstance
  refine .bind fun cursor => ?_
  split
  · exact hfresh
  · rename_i cursor
    refine ⟨fun {s e u} => holds_bind Obeys.holds fun payload t hread => ?_⟩
    cases hread
    split
    · rename_i buffer hpayload
      split
      · rename_i position walked howner
        split
        · refine holds_bind (holds_store ?_) fun _ _ _ => (obeys_pure position).holds
          rw [hpayload]
          exact renews_cursor howner
        · exact hfresh.holds
      · exact hfresh.holds
    · exact hfresh.holds

instance obeys_stepList (machine : Machine) (args : List Ref) : Obeys law (stepList machine args) := by
  unfold stepList
  refine .bind fun list => .bind fun scratch => .bind fun position => .bind fun payload => ?_
  split <;> infer_instance

instance obeys_stepMap (machine : Machine) (args : List Ref) : Obeys law (stepMap machine args) := by
  unfold stepMap
  refine .bind fun map => .bind fun scratch => .bind fun position => .bind fun payload => ?_
  split
  · split <;> infer_instance
  · infer_instance

instance obeys_stepper (function : Builtin) (machine : Machine) (args : List Ref) :
    Obeys law (stepper function machine args) := by
  unfold stepper; infer_instance

variable {run : Dispatcher} [Dispatcher.Obeys law run]

instance obeys_collect (step container scratch : Ref) (limit : Nat) :
    Obeys law (collect run step container scratch limit) := by
  induction limit with
  | zero => exact obeys_pure []
  | succ limit ih => unfold collect; infer_instance

instance obeys_elements (container : Ref) (limit : Nat) : Obeys law (elements run container limit) := by
  unfold elements; infer_instance

end Iteration

-- ---------------------------------------------------------------------------
-- Texts
-- ---------------------------------------------------------------------------

namespace Rendering

instance obeys_guarded (object : Ref) (text : Action String) [Obeys law text] :
    Obeys law (guarded object text) := by
  unfold guarded; infer_instance

section Containers

variable {text : Ref → Action String} [∀ object, Obeys law (text object)]

instance obeys_enclosed (left right : String) (objects : List Ref) :
    Obeys law (enclosed text left right objects) := by
  unfold enclosed; infer_instance

instance obeys_listText (list : Ref) : Obeys law (listText text list) := by
  unfold listText; infer_instance

instance obeys_mapText (map : Ref) : Obeys law (mapText text map) := by
  unfold mapText; infer_instance

instance obeys_cellText (cell : Ref) : Obeys law (cellText text cell) := by
  unfold cellText
  refine @obeys_holding _ _ _ _ (@obeys_guarded _ _ _ (.bind fun payload => ?_))
  split <;> infer_instance

instance obeys_line (objects : List Ref) : Obeys law (line text objects) := by
  unfold line; infer_instance

end Containers

variable {run : Dispatcher} [Dispatcher.Obeys law run]

instance obeys_textWithin (rounds : Nat) (object : Ref) : Obeys law (textWithin run rounds object) := by
  induction rounds generalizing object with
  | zero => exact obeys_exhausted
  | succ rounds ih =>
    unfold textWithin
    refine .bind fun kind => ?_
    split <;> infer_instance

instance obeys_text (object : Ref) : Obeys law (text run object) := by
  unfold text; infer_instance

end Rendering

end ObjectModel
