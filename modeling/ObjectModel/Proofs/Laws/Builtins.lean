import ObjectModel.Builtin.Body
import ObjectModel.Builtin.Globals
import ObjectModel.Proofs.Laws.Buffers
import ObjectModel.Proofs.Laws.Containers

/-!
# Builtin functions

Every builtin function keeps to every law that the dispatcher keeps to. So does filling the globals of
a new program.
-/

namespace ObjectModel

open ObjectModel.Action

variable {law : Law} {machine : Machine} [hd : Dispatcher.Obeys law machine.toDispatcher]
  {args : List Ref}

-- ---------------------------------------------------------------------------
-- Functions of the prelude
-- ---------------------------------------------------------------------------

namespace Prelude

instance obeys_operation (op : Operation) : Obeys law (operation op machine args) := by
  unfold operation; infer_instance

omit hd in
instance obeys_kindOf : Obeys law (kindOf machine args) := by
  unfold kindOf; infer_instance

instance obeys_protect : Obeys law (protect machine args) := by
  unfold protect
  refine .bind fun callee => ?_
  refine .recover [callee] (fun result => inferInstance) rfl fun pending => ?_
  split <;> infer_instance

instance obeys_apply : Obeys law (apply machine args) := by
  unfold apply
  refine .bind fun callee => .bind fun list => .bind fun payload => ?_
  split <;> infer_instance

omit hd in
instance obeys_error : Obeys law (error machine args) := by
  unfold error; infer_instance

omit hd in
instance obeys_print (text : String) : Obeys law (print text) :=
  obeys_modify fun s => law.agree (law.refl s) (.outside ..)

instance obeys_printLine (text : Dispatcher → Ref → Action String)
    [∀ object, Obeys law (text machine.toDispatcher object)] :
    Obeys law (printLine text machine args) := by
  unfold printLine; infer_instance

omit hd in
instance obeys_mapArgument (fault : Fault) : Obeys law (mapArgument fault args) := by
  unfold mapArgument; infer_instance

instance obeys_rawGet : Obeys law (rawGet machine args) := by
  unfold rawGet; infer_instance

instance obeys_rawSet : Obeys law (rawSet machine args) := by
  unfold rawSet; infer_instance

instance obeys_range : Obeys law (range machine args) := by
  unfold range; infer_instance

instance obeys_ord : Obeys law (ord machine args) := by
  unfold ord
  refine .bind fun text => .bind fun index => ?_
  split <;> infer_instance

instance obeys_chr : Obeys law (chr machine args) := by
  unfold chr; infer_instance

end Prelude

-- ---------------------------------------------------------------------------
-- Looking into the running program
-- ---------------------------------------------------------------------------

namespace Inspection

omit hd

instance obeys_setPins (change : State → List Ref) :
    Obeys law (modify fun state => { state with pins := change state }) :=
  obeys_modify fun s => law.agree (law.refl s) (.outside ..)

instance obeys_getRef : Obeys law (getRef machine args) := by
  unfold getRef
  cases args <;> infer_instance

include hd in
instance obeys_setRef : Obeys law (setRef machine args) := by
  have hpin (object : Ref) (count : Nat) : Obeys law (modify (State.pin · object count)) :=
    obeys_setPins _
  have hunpin (object : Ref) (count : Nat) : Obeys law (modify (State.unpin · object count)) :=
    obeys_setPins _
  unfold setRef
  cases args <;> infer_instance

instance obeys_closureOf : Obeys law (closureOf machine args) := by
  unfold closureOf; infer_instance

instance obeys_globals : Obeys law (globals machine args) := by
  unfold globals; infer_instance

instance obeys_locals : Obeys law (locals machine args) := by
  unfold locals; infer_instance

instance obeys_scopes : Obeys law (scopes machine args) := by
  unfold scopes; infer_instance

instance obeys_frames : Obeys law (frames machine args) := by
  unfold frames; infer_instance

instance obeys_operations : Obeys law (operations machine args) := by
  unfold operations
  refine .bind fun object => .bind fun kind => .bind fun behaviors => ?_
  infer_instance

end Inspection

instance Builtin.obeys_body (function : Builtin) : Obeys law (function.body machine args) := by
  cases function <;> (unfold Builtin.body; infer_instance)

-- ---------------------------------------------------------------------------
-- The globals of a new program
-- ---------------------------------------------------------------------------

namespace Globals

omit hd

instance obeys_functions (entries : List (String × Builtin)) : Obeys law (functions entries) := by
  unfold functions; infer_instance

instance obeys_forIn {β : Type} (xs : List β) (f : β → Unit → Action (ForInStep Unit))
    [∀ x u, Obeys law (f x u)] : Obeys law (forIn xs () f) := by
  induction xs with
  | nil => rw [List.forIn_nil]; infer_instance
  | cons x xs ih =>
    rw [List.forIn_cons]
    refine .bind fun step => ?_
    split <;> infer_instance

instance obeys_bufferMap : Obeys law bufferMap := by
  unfold bufferMap
  refine .bind fun map => ?_
  infer_instance

instance obeys_streamMap : Obeys law streamMap := by
  unfold streamMap
  refine .bind fun map => ?_
  dsimp only
  infer_instance

instance obeys_install : Obeys law install := by
  unfold install
  refine .bind fun s => .bind fun _ => .bind fun _ => .bind fun _ => .bind fun _ => .bind fun _ => ?_
  refine .bind fun _ => .bind fun _ => .bind fun _ => .bind fun _ => .bind fun _ => ?_
  refine .bind fun _ => .bind fun _ => .bind fun _ => .bind fun _ => ?_
  infer_instance

end Globals

end ObjectModel
