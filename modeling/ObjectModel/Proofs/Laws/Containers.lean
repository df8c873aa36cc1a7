import ObjectModel.Behavior.Libraries
import ObjectModel.Behavior.Lists
import ObjectModel.Behavior.Maps
import ObjectModel.Behavior.Streams
import ObjectModel.Proofs.Laws.Values

/-!
# Behaviors of containers and of what lies outside

What lists, maps, cells, libraries, symbols and streams answer keeps to every law that the dispatcher
keeps to. Their stores replace a payload by one of the same kind.
-/

namespace ObjectModel.Behavior

open ObjectModel.Action

variable {law : Law} {run : Dispatcher} [hr : Dispatcher.Obeys law run] {machine : Machine}
  [hd : Dispatcher.Obeys law machine.toDispatcher] {args : List Ref}

-- ---------------------------------------------------------------------------
-- Lists
-- ---------------------------------------------------------------------------

namespace Lists

omit hr hd

instance obeys_itemsOf (object : Ref) : Obeys law (itemsOf object) := by
  unfold itemsOf; infer_instance

/-- A step that goes on with a list and a new payload for it, and leaves other objects alone. -/
theorem obeys_update {list : Ref} {update : Array Ref → Action α} {otherwise : Action α}
    (hupdate : ∀ items s e t, s.payload list = .list items →
      (update items).ending? s = some (e, t) → law.holds e s t)
    [ho : Obeys law otherwise] :
    Obeys law (do
      match ← payload list with
      | .list items => update items
      | _ => otherwise) := by
  refine ⟨fun {s e u} => holds_bind Obeys.holds fun found t hread hrun => ?_⟩
  cases hread
  split at hrun
  · rename_i items hlist
    exact hupdate items _ _ _ hlist hrun
  · exact ho.holds hrun

theorem holds_storeList {list : Ref} {s : State} (h : s.payload list = .list items)
    (hrun : (store list (.list items')).ending? s = some (e, t)) : law.holds e s t := by
  have hlist (items : Array Ref) : (Payload.list items).kind ≠ .buffer := by
    intro hkind
    cases hkind
  exact holds_store (.of_kinds (h ▸ hlist items) (hlist items')) hrun

instance obeys_add : Obeys law (add machine args) := by
  unfold add
  refine .bind fun second => .bind fun payload => ?_
  split <;> infer_instance

include hr in
instance obeys_compareItems (lefts rights : List Ref) :
    Obeys law (compareItems run lefts rights) := by
  induction lefts generalizing rights with
  | nil => exact obeys_pure 0
  | cons left lefts ih =>
    cases rights with
    | nil => exact obeys_pure 0
    | cons right rights => unfold compareItems; infer_instance

include hd

instance obeys_mul : Obeys law (mul machine args) := by
  unfold mul; infer_instance

instance obeys_compare : Obeys law (compare machine args) := by
  unfold compare
  refine .bind fun first => .bind fun left => .bind fun second => .bind fun payload => ?_
  split <;> infer_instance

instance obeys_index : Obeys law (index machine args) := by
  unfold index; infer_instance

instance obeys_setIndex : Obeys law (setIndex machine args) := by
  unfold setIndex
  refine .bind fun list => .bind fun index => .bind fun value => ?_
  refine obeys_update fun items s e t hlist hrun => ?_
  split at hrun
  · exact holds_bind (holds_storeList hlist) (fun _ _ _ => obeys_nothing.holds) hrun
  · exact obeys_nothing.holds hrun

instance obeys_represent : Obeys law (represent machine args) := by
  unfold represent; infer_instance

theorem obeys_handler (h : handler operation = some body) : Obeys law (body machine args) := by
  cases operation with
  | length => cases h; unfold length; infer_instance
  | _ => cases h <;> infer_instance

omit hd in
instance obeys_copy : Obeys law (copy machine args) := by
  unfold copy; infer_instance

instance obeys_insert : Obeys law (insert machine args) := by
  unfold insert
  refine .bind fun list => .bind fun index => .bind fun value => ?_
  refine obeys_update fun items s e t hlist hrun => ?_
  exact holds_bind (holds_storeList hlist) (fun _ _ _ => obeys_nothing.holds) hrun

instance obeys_remove : Obeys law (remove machine args) := by
  unfold remove
  refine .bind fun list => .bind fun index => ?_
  refine obeys_update fun items s e t hlist hrun => ?_
  split at hrun
  · exact holds_bind (holds_storeList hlist) (fun _ _ _ => (obeys_orNothing _).holds) hrun
  · exact obeys_nothing.holds hrun

instance obeys_truncate : Obeys law (truncate machine args) := by
  unfold truncate; infer_instance

omit hd
include hr

instance obeys_mapItems (callee : Ref) (items earlier : List Ref) :
    Obeys law (mapItems run callee items earlier) := by
  induction items generalizing earlier with
  | nil => exact obeys_pure _
  | cons item rest ih => unfold mapItems; infer_instance

instance obeys_filterItems (callee : Ref) (items kept : List Ref) :
    Obeys law (filterItems run callee items kept) := by
  induction items generalizing kept with
  | nil => exact obeys_pure _
  | cons item rest ih => unfold filterItems; infer_instance

instance obeys_reduceItems (callee : Ref) (items : List Ref) (result : Ref) :
    Obeys law (reduceItems run callee items result) := by
  induction items generalizing result with
  | nil => exact obeys_pure _
  | cons item rest ih => unfold reduceItems; infer_instance

omit hr
include hd

instance obeys_map : Obeys law (map machine args) := by
  unfold map; infer_instance

instance obeys_filter : Obeys law (filter machine args) := by
  unfold filter; infer_instance

instance obeys_reduce : Obeys law (reduce machine args) := by
  unfold reduce; infer_instance

end Lists

-- ---------------------------------------------------------------------------
-- Maps and cells
-- ---------------------------------------------------------------------------

namespace Maps

omit hd in
instance obeys_setAll (map : Ref) (entries : List (Ref × Ref)) : Obeys law (setAll run map entries) := by
  induction entries with
  | nil => exact obeys_pure ()
  | cons entry rest ih => unfold setAll; infer_instance

omit hr

instance obeys_add : Obeys law (add machine args) := by
  unfold add
  refine .bind fun other => .bind fun kind => ?_
  dsimp only
  split <;> infer_instance

instance obeys_index : Obeys law (index machine args) := by
  unfold index
  refine .bind fun map => .bind fun key => .bind fun value => ?_
  split
  · infer_instance
  · refine .bind fun hook => ?_
    split <;> infer_instance

instance obeys_setIndex : Obeys law (setIndex machine args) := by
  unfold setIndex
  refine .bind fun map => .bind fun key => .bind fun value => .bind fun hook => ?_
  split <;> infer_instance

instance obeys_call : Obeys law (call machine args) := by
  unfold call
  refine .bind fun map => .bind fun hook => ?_
  split <;> infer_instance

instance obeys_represent : Obeys law (represent machine args) := by
  unfold represent
  refine .bind fun map => .bind fun hook => ?_
  split <;> infer_instance

instance obeys_toText : Obeys law (toText machine args) := by
  unfold toText
  refine .bind fun map => .bind fun hook => ?_
  cases hook <;> infer_instance

theorem obeys_handler (h : handler operation = some body) : Obeys law (body machine args) := by
  cases operation with
  | length => cases h; unfold length; infer_instance
  | _ => cases h <;> infer_instance

theorem obeys_cellHandler (h : cellHandler operation = some body) : Obeys law (body machine args) := by
  cases operation with
  | toText => cases h; unfold representCell; infer_instance
  | represent => cases h; unfold representCell; infer_instance
  | _ => cases h

end Maps

-- ---------------------------------------------------------------------------
-- Streams
-- ---------------------------------------------------------------------------

namespace Streams

omit hr hd

instance obeys_expect (object : Ref) : Obeys law (expect object) := by
  unfold expect
  refine .bind fun payload => ?_
  split <;> infer_instance

instance obeys_orFault {α : Type} (fault : Fault) (result : Except StreamFailure α) :
    Obeys law (orFault fault result) := by
  unfold orFault
  split <;> infer_instance

instance obeys_status {α : Type} (number : α → Int64) (result : Except StreamFailure α) :
    Obeys law (status number result) := by
  unfold status
  split <;> infer_instance

instance obeys_setFiles (files : FileStore) :
    Obeys law (modify fun state : State => { state with files }) :=
  obeys_modify fun s => law.agree (law.refl s) (.outside ..)

theorem run_expect (h : (expect object).run s = .ok stream t) :
    s.payload object = .stream stream ∧ t = s := by
  unfold expect at h
  rw [EStateM.run_bind, run_payload] at h
  dsimp only at h
  split at h
  · rename_i found hfound
    cases h
    exact ⟨hfound, rfl⟩
  · cases h

theorem run_orFault (h : (orFault fault result).run s = .ok value t) : t = s := by
  unfold orFault at h
  split at h <;> cases h
  rfl

theorem holds_storeStream {object : Ref} {s : State} (h : s.payload object = .stream stream)
    (hrun : (store object (.stream stream')).ending? s = some (e, t)) : law.holds e s t := by
  have hstream (stream : Stream) : (Payload.stream stream).kind ≠ .buffer := by
    intro hkind
    cases hkind
  exact holds_store (.of_kinds (h ▸ hstream stream) (hstream stream')) hrun

instance obeys_flush : Obeys law (flush machine args) := by
  unfold flush; infer_instance

instance obeys_tell : Obeys law (tell machine args) := by
  unfold tell; infer_instance

instance obeys_eof : Obeys law (eof machine args) := by
  unfold eof; infer_instance

instance obeys_close : Obeys law (close machine args) := by
  unfold close
  refine .bind fun object => ⟨holds_bind Obeys.holds fun stream t hfound => ?_⟩
  obtain ⟨hstream, rfl⟩ := run_expect hfound
  exact holds_bind (holds_storeStream hstream) fun _ _ _ => obeys_nothing.holds

include hr

instance obeys_bytesToWrite (value : Ref) : Obeys law (bytesToWrite run value) := by
  unfold bytesToWrite
  refine .bind fun payload => ?_
  split <;> infer_instance

instance obeys_amountOf (request : Ref) : Obeys law (amountOf run request) := by
  unfold amountOf
  refine .bind fun name => ?_
  split <;> infer_instance

omit hr
include hd

instance obeys_write : Obeys law (write machine args) := by
  unfold write
  refine .bind fun object => .bind fun value => .bind fun bytes => ⟨?_⟩
  refine holds_bind Obeys.holds fun stream t hfound => ?_
  obtain ⟨hstream, rfl⟩ := run_expect hfound
  refine holds_bind Obeys.holds fun state t hget => ?_
  cases hget
  refine holds_bind Obeys.holds fun written t hwritten => ?_
  obtain ⟨written, files⟩ := written
  obtain rfl := run_orFault hwritten
  refine holds_bind Obeys.holds fun _ t hfiles => ?_
  cases hfiles
  exact holds_bind (holds_storeStream hstream) fun _ _ _ => (obeys_createInt _).holds

instance obeys_read : Obeys law (read machine args) := by
  unfold read
  refine .bind fun object => .bind fun request => .bind fun amount => ?_
  split
  · infer_instance
  · refine ⟨holds_bind Obeys.holds fun stream t hfound => ?_⟩
    obtain ⟨hstream, rfl⟩ := run_expect hfound
    refine holds_bind Obeys.holds fun state t hget => ?_
    cases hget
    refine holds_bind Obeys.holds fun found t hread => ?_
    obtain ⟨bytes, moved⟩ := found
    obtain rfl := run_orFault hread
    exact holds_bind (holds_storeStream hstream) fun _ _ _ => (obeys_createBuffer _).holds

instance obeys_seek : Obeys law (seek machine args) := by
  unfold seek
  refine .bind fun object => .bind fun offset => .bind fun origin => ⟨?_⟩
  refine holds_bind Obeys.holds fun stream t hfound => ?_
  obtain ⟨hstream, rfl⟩ := run_expect hfound
  refine holds_bind Obeys.holds fun state t hget => ?_
  cases hget
  split
  · exact holds_bind (holds_storeStream hstream) fun _ _ _ => (obeys_createInt _).holds
  · exact (obeys_status _ _).holds

omit hd in
instance obeys_index : Obeys law (index machine args) := by
  unfold index; infer_instance

theorem obeys_handler (h : handler operation = some body) : Obeys law (body machine args) := by
  cases operation <;> cases h <;> infer_instance

instance obeys_openFile : Obeys law (openFile machine args) := by
  unfold openFile
  refine .bind fun path => .bind fun code => ?_
  split
  · infer_instance
  · refine .bind fun state => ?_
    split <;> infer_instance

end Streams

-- ---------------------------------------------------------------------------
-- Libraries and symbols
-- ---------------------------------------------------------------------------

namespace Libraries

omit hr

instance obeys_openLibrary : Obeys law (openLibrary machine args) := by
  unfold openLibrary
  refine .bind fun path => ?_
  split <;> infer_instance

instance obeys_symbol : Obeys law (symbol machine args) := by
  unfold symbol
  refine .bind fun library => .bind fun name => .bind fun payload => ?_
  split
  · split <;> infer_instance
  · infer_instance

theorem obeys_handler (h : handler operation = some body) : Obeys law (body machine args) := by
  cases operation <;> cases h <;> infer_instance

omit hd in
theorem obeys_symbolHandler (h : symbolHandler operation = some body) :
    Obeys law (body machine args) := by
  cases operation <;> cases h <;> infer_instance

end Libraries

end ObjectModel.Behavior
