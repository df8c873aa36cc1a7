import ObjectModel.Behavior.Numbers
import ObjectModel.Behavior.Shared
import ObjectModel.Behavior.Singlets
import ObjectModel.Behavior.Strings
import ObjectModel.Proofs.Laws.Walks

/-!
# Behaviors of values

What singlets, ints, floats and strings answer keeps to every law that the dispatcher keeps to, and so
does what all kinds share.
-/

namespace ObjectModel.Behavior

open ObjectModel.Action

variable {law : Law} {machine : Machine} [hd : Dispatcher.Obeys law machine.toDispatcher]
  {args : List Ref}

-- ---------------------------------------------------------------------------
-- What all kinds share
-- ---------------------------------------------------------------------------

namespace Shared

omit hd in
instance obeys_exchange (first second : Ref) : Obeys law (exchange first second) :=
  .of_step (fun s => ((), s.exchanged first second)) (fun _ => rfl) fun s => law.exchange s first second

theorem obeys_handler (h : handler operation = some body) : Obeys law (body machine args) := by
  cases operation with
  | swap => cases h; unfold swap; infer_instance
  | compare => cases h; unfold compare; infer_instance
  | toBuffer => cases h; unfold toBuffer; infer_instance
  | represent => cases h; unfold represent; infer_instance
  | init => cases h; infer_instance
  | free => cases h; infer_instance
  | _ => cases h

end Shared

-- ---------------------------------------------------------------------------
-- Singlets
-- ---------------------------------------------------------------------------

namespace Singlets

omit hd in
instance obeys_nameOf (object : Ref) : Obeys law (nameOf object) := by
  unfold nameOf
  refine .bind fun payload => ?_
  split <;> infer_instance

omit hd in
theorem obeys_handler (h : handler operation = some body) : Obeys law (body machine args) := by
  cases operation with
  | toText => cases h; unfold toText; infer_instance
  | toBuffer => cases h; unfold toBuffer; infer_instance
  | _ => cases h

end Singlets

-- ---------------------------------------------------------------------------
-- Ints and floats
-- ---------------------------------------------------------------------------

namespace Numbers

omit hd in
instance obeys_itself : Obeys law (itself machine args) := by
  unfold itself; infer_instance

instance obeys_intOperands : Obeys law (intOperands machine args) := by
  unfold intOperands; infer_instance

instance obeys_onInts (operation : Int64 → Int64 → Int64) :
    Obeys law (onInts operation machine args) := by
  unfold onInts; infer_instance

instance obeys_onIntsNonzero (fault : Fault) (operation : Int64 → Int64 → Int64) :
    Obeys law (onIntsNonzero fault operation machine args) := by
  unfold onIntsNonzero; infer_instance

omit hd in
instance obeys_intOrZero : Obeys law (intOrZero args) := by
  unfold intOrZero; infer_instance

omit hd in
instance obeys_intCompare : Obeys law (intCompare machine args) := by
  unfold intCompare
  refine .bind fun first => .bind fun left => .bind fun second => .bind fun right => ?_
  split <;> infer_instance

theorem obeys_intHandler (h : intHandler operation = some body) : Obeys law (body machine args) := by
  cases operation with
  | bitNot => cases h; unfold intNot; infer_instance
  | toFloat => cases h; unfold intToFloat; infer_instance
  | toText => cases h; unfold intToText; infer_instance
  | _ => cases h <;> infer_instance

instance obeys_floatOperands : Obeys law (floatOperands machine args) := by
  unfold floatOperands; infer_instance

instance obeys_onFloats (operation : Binary64 → Binary64 → Binary64) :
    Obeys law (onFloats operation machine args) := by
  unfold onFloats; infer_instance

instance obeys_floatDiv : Obeys law (floatDiv machine args) := by
  unfold floatDiv; infer_instance

omit hd in
instance obeys_floatOrZero : Obeys law (floatOrZero args) := by
  unfold floatOrZero; infer_instance

omit hd in
instance obeys_floatCompare : Obeys law (floatCompare machine args) := by
  unfold floatCompare
  refine .bind fun first => .bind fun left => .bind fun second => .bind fun right => ?_
  split <;> infer_instance

theorem obeys_floatHandler (h : floatHandler operation = some body) :
    Obeys law (body machine args) := by
  cases operation with
  | toInt => cases h; unfold floatToInt; infer_instance
  | toText => cases h; unfold floatToText; infer_instance
  | _ => cases h <;> infer_instance

end Numbers

-- ---------------------------------------------------------------------------
-- Strings
-- ---------------------------------------------------------------------------

namespace Strings

omit hd in
instance obeys_ofArgument (index : Nat) : Obeys law (ofArgument args index) := by
  unfold ofArgument; infer_instance

omit hd in
instance obeys_bytesOfArgument (index : Nat) : Obeys law (bytesOfArgument args index) := by
  unfold bytesOfArgument; infer_instance

omit hd in
instance obeys_repeated {α : Type} (unit : Nat) (elements : List α) (times : Int64) :
    Obeys law (repeated unit elements times) := by
  unfold repeated; infer_instance

instance obeys_compare : Obeys law (compare machine args) := by
  unfold compare
  refine .bind fun left => .bind fun right => .bind fun kind => ?_
  split <;> infer_instance

instance obeys_index : Obeys law (index machine args) := by
  unfold index; infer_instance

theorem obeys_handler (h : handler operation = some body) : Obeys law (body machine args) := by
  cases operation with
  | add => cases h; unfold add; infer_instance
  | mul => cases h; unfold mul; infer_instance
  | length => cases h; unfold length; infer_instance
  | toInt => cases h; unfold toInt; infer_instance
  | toFloat => cases h; unfold toFloat; infer_instance
  | toText => cases h; unfold toText; infer_instance
  | toBuffer => cases h; unfold toBuffer; infer_instance
  | represent => cases h; unfold represent; infer_instance
  | _ => cases h <;> infer_instance

omit hd in
instance obeys_listOfTexts (parts : List Bytes) : Obeys law (listOfTexts parts) := by
  unfold listOfTexts; infer_instance

instance obeys_sub : Obeys law (sub machine args) := by
  unfold sub; infer_instance

instance obeys_split : Obeys law (split machine args) := by
  unfold split; infer_instance

instance obeys_find : Obeys law (find machine args) := by
  unfold find; infer_instance

end Strings

end ObjectModel.Behavior
