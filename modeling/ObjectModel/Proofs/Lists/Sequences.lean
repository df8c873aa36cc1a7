import Mathlib.Logic.Relation
import ObjectModel.Builtin.Body
import ObjectModel.Builtin.Globals
import ObjectModel.Proofs.Operators.Sparing

/-!
# Lists as sequences

An index stands for a place in a list, and a negative one counts from the end (`Sequence.place`). What a
list does at an index is what sequences do at the place, where a place outside the list stands for
nothing, or for the nearer end. Whatever is done with lists, those that were made from them stay as they
are (`list_sequence`).
-/

namespace ObjectModel

open ObjectModel.Action Behavior Relation

-- ---------------------------------------------------------------------------
-- Sequences
-- ---------------------------------------------------------------------------

namespace Sequence

variable {α : Type}

/-- The place that an index stands for. -/
def place (index : Int64) (length : Nat) : Int := if index < 0 then index.toInt + length else index.toInt

/-- The place as a machine word is moved on to it. -/
def wrapped (index : Int64) (length : Nat) : Int64 :=
  if index < 0 then index + Integer.ofLength length else index

def itemAt? (items : List α) (place : Int) : Option α := if 0 ≤ place then items[place.toNat]? else none

def replaced (items : List α) (place : Int) (value : α) : List α :=
  if 0 ≤ place then items.set place.toNat value else items

def deleted (items : List α) (place : Int) : List α := if 0 ≤ place then items.eraseIdx place.toNat else items

/-- The items with one more before a place, or at the nearer end if it lies outside. -/
def inserted (items : List α) (place : Int) (value : α) : List α :=
  items.insertIdx (min place.toNat items.length) value

variable {items : List α} {value : α} {index : Int64} {length : Nat}

theorem place_of_nonneg (h : 0 ≤ index.toInt) : place index length = index.toInt := by
  refine if_neg fun hneg => ?_
  exact absurd (Int64.lt_iff_toInt_lt.mp hneg) (Int.not_lt.mpr h)

theorem ite_eq_place (index : Int64) (length : Nat) :
    (if index.toInt < 0 then index.toInt + length else index.toInt) = place index length := by
  simp only [place, Int64.lt_iff_toInt_lt]
  rfl

theorem bound_eq (index : Int64) (length : Nat) :
    Bytes.bound length index.toInt = min (place index length).toNat length := by
  rw [Bytes.bound, ite_eq_place]

theorem toInt_ofLength_eq_min (length : Nat) :
    (Integer.ofLength length).toInt = (min length Int64.maxValue.toInt.toNat : Nat) := by
  rw [Integer.ofLength]
  refine Int64.toInt_ofNat_of_lt ?_
  rw [Int64.toInt_maxValue]
  omega

theorem toInt_ofLength (h : length ≤ Int64.maxValue.toInt) : (Integer.ofLength length).toInt = length := by
  rw [toInt_ofLength_eq_min]
  omega

/-- The length is added to a negative index without overflow. -/
theorem toInt_wrapped (h : length ≤ Int64.maxValue.toInt) : (wrapped index length).toInt = place index length := by
  unfold wrapped place
  split
  case isTrue hneg =>
    have hneg : index.toInt < 0 := Int64.lt_iff_toInt_lt.mp hneg
    have hlow := index.le_toInt
    rw [Int64.toInt_maxValue] at h
    rw [Int64.toInt_add, toInt_ofLength (Int64.toInt_maxValue ▸ h), Int.bmod_eq_of_le (by omega) (by omega)]
  case isFalse => rfl

theorem length_inserted (items : List α) (place : Int) (value : α) :
    (inserted items place value).length = items.length + 1 :=
  List.length_insertIdx_of_le_length (Nat.min_le_right ..) value

theorem length_replaced (items : List α) (place : Int) (value : α) :
    (replaced items place value).length = items.length := by
  unfold replaced
  split <;> simp

theorem length_deleted {place : Int} (hlow : 0 ≤ place) (hhigh : place < items.length) :
    (deleted items place).length + 1 = items.length := by
  rw [deleted, if_pos hlow, List.length_eraseIdx_of_lt (by omega)]
  omega

theorem outside {place : Int} (h : ¬ (0 ≤ place ∧ place < items.length)) :
    itemAt? items place = none ∧ (∀ value, replaced items place value = items) ∧ deleted items place = items := by
  unfold itemAt? replaced deleted
  by_cases hlow : 0 ≤ place
  · have hhigh : items.length ≤ place.toNat := by omega
    simp only [hlow, if_true]
    exact ⟨List.getElem?_eq_none hhigh, fun value => List.set_eq_of_length_le hhigh,
      List.eraseIdx_of_length_le hhigh⟩
  · simp [hlow]

theorem deleted_inserted (value : α) (hlow : 0 ≤ index.toInt) (hhigh : index.toInt ≤ items.length) :
    itemAt? (inserted items (place index items.length) value) (place index (items.length + 1)) = some value ∧
      deleted (inserted items (place index items.length) value) (place index (items.length + 1)) = items := by
  have hin : index.toInt.toNat ≤ items.length := by omega
  rw [place_of_nonneg hlow, place_of_nonneg hlow, inserted, Nat.min_eq_left hin, itemAt?, deleted,
    if_pos hlow, if_pos hlow, List.getElem?_insertIdx_self, if_pos hin]
  exact ⟨rfl, List.eraseIdx_insertIdx_self ..⟩

end Sequence

open Sequence

namespace Behavior.Lists

theorem position?_eq (index : Int64) (length : Nat) : position? index length =
    if 0 ≤ place index length ∧ place index length < length then some (place index length).toNat else none := rfl

theorem position?_cases (index : Int64) (length : Nat) :
    (0 ≤ place index length ∧ position? index length = some (place index length).toNat) ∨
    (¬ (0 ≤ place index length ∧ place index length < length) ∧ position? index length = none) := by
  rw [position?_eq]
  split
  case isTrue hinside => exact .inl ⟨hinside.1, rfl⟩
  case isFalse houtside => exact .inr ⟨houtside, rfl⟩

end Behavior.Lists

-- ---------------------------------------------------------------------------
-- Uses at an index
-- ---------------------------------------------------------------------------

section Uses

open Lists

variable {s : State} {list key value : Ref} {items : List Ref} {index : Int64} {host : Host} {rounds : Nat}
  {machine : Machine} (hlist : s.payload list = .list items.toArray) (hkey : s.payload key = .int index)
include hlist hkey

theorem ends_index_list {Q : Ref → State → Prop} {E : State → Prop} :
    ((ObjectModel.machine host (rounds + 1)).index list key).Ends s Q E ↔
      Q ((itemAt? items (place index items.length)).getD s.nothing) s := by
  have hhere (held : List (List Ref)) : (s.withHeld held).payload list = .list items.toArray := hlist
  have hint (held : List (List Ref)) : (s.withHeld held).payload key = .int index := hkey
  have hname (held : List (List Ref)) : (s.withHeld held).nameBytes? key = none := by
    simp [State.nameBytes?, hint held]
  have hfound : (position? index items.length).bind (items[·]?) = itemAt? items (place index items.length) := by
    rcases position?_cases index items.length with ⟨hlow, hplace⟩ | ⟨houtside, hplace⟩
    · rw [hplace, itemAt?, if_pos hlow, Option.bind_some]
    · rw [hplace, (outside houtside).1, Option.bind_none]
  rw [Dispatcher.index, ends_binary host rounds (State.kind_of_payload hlist) rfl]
  simp only [Lists.index, itemsOf, ends_bind, ends_argument_first, ends_argument_second, ends_nameBytes?,
    hname, Option.isSome_none, Bool.false_eq_true, if_false, Dispatcher.ends_toInt _ (hint _), ends_payload,
    ends_pure, hhere, Payload.items?, Option.getD_some, ends_orNothing, List.size_toArray,
    List.getElem?_toArray, hfound]
  rfl

theorem ends_setIndex_list {Q : Unit → State → Prop} {E : State → Prop} :
    ((ObjectModel.machine host (rounds + 1)).setIndex list key value).Ends s Q E ↔
      Q () (s.stored list (.list (replaced items (place index items.length) value).toArray)) := by
  have hhere (held : List (List Ref)) : (s.withHeld held).payload list = .list items.toArray := hlist
  have hint (held : List (List Ref)) : (s.withHeld held).payload key = .int index := hkey
  rw [ends_setIndex host rounds (State.kind_of_payload hlist) rfl]
  simp only [Lists.setIndex, ends_bind, ends_argument_first, ends_argument_second, ends_argument_third,
    Dispatcher.intArgument, Dispatcher.ends_toInt _ (hint _), ends_payload, hhere, List.size_toArray]
  rcases position?_cases index items.length with ⟨hlow, hplace⟩ | ⟨houtside, hplace⟩
  · simp only [hplace, ends_bind, ends_store, ends_nothing, replaced, if_pos hlow, List.setIfInBounds_toArray]
    rfl
  · simp only [hplace, ends_nothing, (outside houtside).2.1, State.stored_self hlist]
    rfl

theorem ends_insert_list {Q : Ref → State → Prop} {E : State → Prop} :
    (Builtin.listInsert.body machine [list, key, value]).Ends s Q E ↔
      Q s.nothing (s.stored list (.list (inserted items (place index items.length) value).toArray)) := by
  simp only [Builtin.body, Lists.insert, ends_bind, ends_argument_first, ends_argument_second, ends_argument_third,
    Dispatcher.intArgument, Dispatcher.ends_toInt _ hkey, ends_payload, hlist, ends_store, ends_nothing,
    List.size_toArray, bound_eq, List.insertIdxIfInBounds_toArray, inserted]
  rfl

theorem ends_remove_list {Q : Ref → State → Prop} {E : State → Prop} :
    (Builtin.listRemove.body machine [list, key]).Ends s Q E ↔
      Q ((itemAt? items (place index items.length)).getD s.nothing)
        (s.stored list (.list (deleted items (place index items.length)).toArray)) := by
  simp only [Builtin.body, Lists.remove, ends_bind, ends_argument_first, ends_argument_second,
    Dispatcher.intArgument, Dispatcher.ends_toInt _ hkey, ends_payload, hlist, List.size_toArray]
  rcases position?_cases index items.length with ⟨hlow, hplace⟩ | ⟨houtside, hplace⟩
  · simp only [hplace, ends_bind, ends_store, ends_orNothing, itemAt?, deleted, if_pos hlow,
      List.getElem?_toArray, List.eraseIdxIfInBounds_toArray]
    rfl
  · obtain ⟨hnone, -, hsame⟩ := outside houtside
    simp only [hplace, ends_nothing, hnone, hsame, State.stored_self hlist, Option.getD_none]

theorem ends_insert_remove (hlow : 0 ≤ index.toInt) (hhigh : index.toInt ≤ items.length) :
    (do
      let _ ← Builtin.listInsert.body machine [list, key, value]
      Builtin.listRemove.body machine [list, key]).Ends s (fun o t => o = value ∧ t = s) fun _ => False := by
  have hin : s.heap.Contains list := State.contains_of_kind_ne (by simp [State.kind_of_payload hlist, Payload.kind])
  have hother : key ≠ list := by
    rintro rfl
    rw [hkey] at hlist
    cases hlist
  obtain ⟨hitem, hitems⟩ := deleted_inserted value hlow hhigh
  rw [ends_bind, ends_insert_list hlist hkey,
    ends_remove_list (payload_stored_same hin) ((payload_stored_other hother).trans hkey), length_inserted, hitem,
    hitems, State.stored_stored, State.stored_self hlist]
  exact ⟨rfl, rfl⟩

end Uses

-- ---------------------------------------------------------------------------
-- Any uses
-- ---------------------------------------------------------------------------

namespace State

/-- Nothing that was there is another object, but for one. -/
structure KeepsBut (s : State) (changed : Ref) (t : State) : Prop where
  kept : ∀ o, s.heap.Contains o → o ≠ changed → t.payload o = s.payload o
  size : s.heap.size ≤ t.heap.size

variable {s t u : State} {changed : Ref}

theorem Keeps.but (h : s.Keeps t) (changed : Ref) : s.KeepsBut changed t := ⟨fun o ho _ => h.kept o ho, h.size⟩

theorem Keeps.thenBut (h : s.Keeps t) (h' : t.KeepsBut changed u) : s.KeepsBut changed u where
  kept o ho hother := (h'.kept o (Nat.lt_of_lt_of_le ho h.size) hother).trans (h.kept o ho)
  size := Nat.le_trans h.size h'.size

theorem KeepsBut.stored (h : s.KeepsBut changed t) (payload : Payload) :
    s.KeepsBut changed (t.stored changed payload) where
  kept o ho hother := (payload_stored_other hother).trans (h.kept o ho hother)
  size := by simpa using h.size

theorem KeepsBut.unheld {held others : List (List Ref)} (h : (s.withHeld held).KeepsBut changed t) :
    s.KeepsBut changed (t.withHeld others) := ⟨h.kept, h.size⟩

/-- A new list was made, and nothing that was there is another object. -/
structure MakesList (s : State) (made : Ref) (t : State) : Prop extends s.Keeps t where
  new : ¬ s.heap.Contains made
  list : t.kind made = .list

theorem MakesList.unheld {made : Ref} {held : List (List Ref)} (h : (s.withHeld held).MakesList made t) :
    s.MakesList made (t.withHeld s.held) := ⟨h.toKeeps.unheld, h.new, h.list⟩

end State

namespace Action

/-- Every run of the action that has an end makes a list, or raises. -/
class MakesList (action : Action Ref) : Prop where
  ends : ∀ {s}, action.Halts s → action.Ends s (fun made t => s.MakesList made t) s.Keeps

instance makesList_create (items : Array Ref) : MakesList (create (.list items)) where
  ends {s} _ := by
    have hkeeps := (State.Keeps.refl s).thenMade (.list items)
    refine ⟨hkeeps, State.not_contains_next (Nat.le_refl _), ?_⟩
    exact State.kind_of_payload (payload_made_next s _)

instance makesList_raise (fault : Fault) : MakesList (raise fault) where
  ends {s} _ := (State.raised_faulting s fault).keeps

theorem MakesList.bind {x : Action α} {f : α → Action Ref} [hx : Sparing x] (hf : ∀ a, MakesList (f a)) :
    MakesList (x >>= f) where
  ends {s} h := by
    rw [Halts, ends_bind] at h
    rw [ends_bind]
    refine (hx.ends h).imp ?_ fun t h => h.2
    rintro a t ⟨hrest, hkeeps⟩
    refine ((hf a).ends hrest).imp ?_ fun u h => hkeeps.trans h
    intro made u hmakes
    exact ⟨hkeeps.trans hmakes.toKeeps, fun hold => hmakes.new (Nat.lt_of_lt_of_le hold hkeeps.size), hmakes.list⟩

instance makesList_bind (x : Action α) (f : α → Action Ref) [Sparing x] [∀ a, MakesList (f a)] :
    MakesList (x >>= f) := .bind inferInstance

end Action

namespace Behavior.Lists

instance sparing_itemsOf (o : Ref) : Sparing (itemsOf o) := by
  unfold itemsOf; infer_instance

instance sparing_method (kind : Kind) (key : Ref) : Sparing (method kind key) := by
  have hnamed (map : Ref) (name : String) : Sparing (Map.getNamed? map name) := .of_read _ (Map.run_getNamed? map name)
  unfold method methodsFor?
  refine .bind fun name => .bind fun methods => ?_
  split <;> infer_instance

instance sparing_repeated (unit : Nat) (elements : List α) (times : Int64) :
    Sparing (Strings.repeated unit elements times) := by
  unfold Strings.repeated; infer_instance

variable (host : Host) (rounds : Nat) (args : List Ref)

instance sparing_index : Sparing (index (machine host rounds) args) := by
  unfold index; infer_instance

instance makesList_copy : MakesList (copy (machine host rounds) args) := by
  unfold copy; infer_instance

instance makesList_add : MakesList (add (machine host rounds) args) := by
  unfold add
  refine .bind fun other => .bind fun payload => ?_
  split <;> infer_instance

instance makesList_mul : MakesList (mul (machine host rounds) args) := by
  unfold mul createList; infer_instance

instance makesList_truncate : MakesList (truncate (machine host rounds) args) := by
  unfold truncate; infer_instance

end Behavior.Lists

/-- What can be done with a list. -/
inductive ListUse where
  | index (key : Ref)
  | setIndex (key value : Ref)
  | insert (key value : Ref)
  | remove (key : Ref)
  | copy
  | add (other : Ref)
  | mul (times : Ref)
  | truncate (keep : Ref)

namespace ListUse

def run (machine : Machine) (list : Ref) : ListUse → Action Ref
  | .index key => machine.index list key
  | .setIndex key value => do machine.setIndex list key value; nothing
  | .insert key value => Builtin.listInsert.body machine [list, key, value]
  | .remove key => Builtin.listRemove.body machine [list, key]
  | .copy => Builtin.listCopy.body machine [list]
  | .add other => machine.binary .add list other
  | .mul times => machine.binary .mul list times
  | .truncate keep => Builtin.listTruncate.body machine [list, keep]

def Makes : ListUse → Prop
  | .copy | .add _ | .mul _ | .truncate _ => True
  | .index _ | .setIndex _ _ | .insert _ _ | .remove _ => False

variable {s t : State} {list other : Ref}

theorem ends_makes (host : Host) (rounds : Nat) {use : ListUse} (hmakes : use.Makes) (hlist : s.kind list = .list)
    (h : (use.run (machine host rounds) list).Halts s) :
    (use.run (machine host rounds) list).Ends s (fun made t => s.MakesList made t) s.Keeps := by
  have hbinary (operation : Operation) (handler : Handler) (other : Ref)
      (hhandler : Kind.list.handler operation = some handler)
      (hmade : ∀ rounds args, MakesList (handler (machine host rounds) args))
      (h : ((machine host rounds).binary operation list other).Halts s) :
      ((machine host rounds).binary operation list other).Ends s (fun made t => s.MakesList made t) s.Keeps := by
    cases rounds with
    | zero => exact h.elim
    | succ rounds =>
      rw [Halts, ends_binary host rounds hlist hhandler] at h
      rw [ends_binary host rounds hlist hhandler]
      exact ((hmade rounds _).ends h).imp (fun _ _ h => h.unheld) fun _ h => h.unheld
  cases use with
  | copy => exact (Lists.makesList_copy host rounds _).ends h
  | truncate keep => exact (Lists.makesList_truncate host rounds _).ends h
  | add other => exact hbinary .add _ other rfl (Lists.makesList_add host) h
  | mul times => exact hbinary .mul _ times rfl (Lists.makesList_mul host) h
  | _ => exact hmakes.elim

/-- What is done to a list at an index changes nothing else. -/
theorem ends_at_index {host : Host} {rounds : Nat} {args : List Ref} {change : Int64 → Action α}
    (hchange : ∀ index t, (change index).Ends t (fun _ u => t.KeepsBut list u) fun _ => False)
    (h : ((machine host rounds).intArgument args 1 >>= change).Halts s) :
    ((machine host rounds).intArgument args 1 >>= change).Ends s (fun _ u => s.KeepsBut list u)
      (s.KeepsBut list) := by
  rw [Halts, ends_bind] at h
  rw [ends_bind]
  refine (Sparing.ends h).imp ?_ fun t h => h.2.but list
  rintro index t ⟨-, hkeeps⟩
  exact (hchange index t).imp_sure fun _ _ h => hkeeps.thenBut h

theorem ends_run (host : Host) (rounds : Nat) (use : ListUse) (hlist : s.kind list = .list)
    (h : (use.run (machine host rounds) list).Halts s) :
    (use.run (machine host rounds) list).Ends s (fun _ t => s.KeepsBut list t) (s.KeepsBut list) := by
  have hsame (t : State) : t.KeepsBut list t := (State.Keeps.refl t).but list
  by_cases hmakes : use.Makes
  · exact (ends_makes host rounds hmakes hlist h).imp (fun _ _ h => h.toKeeps.but list) fun _ h => h.but list
  cases use with
  | index key =>
    cases rounds with
    | zero => exact h.elim
    | succ rounds =>
      rw [run, Dispatcher.index, Halts, ends_binary host rounds hlist rfl] at h
      rw [run, Dispatcher.index, ends_binary host rounds hlist rfl]
      exact (Sparing.ends h).imp (fun _ _ h => (h.2.but list).unheld) fun _ h => (h.2.but list).unheld
  | setIndex key value =>
    cases rounds with
    | zero => exact h.elim
    | succ rounds =>
      rw [run, Halts, ends_bind, ends_setIndex host rounds hlist rfl, Lists.setIndex, ends_bind,
        ends_argument_first] at h
      rw [run, ends_bind, ends_setIndex host rounds hlist rfl, Lists.setIndex, ends_bind, ends_argument_first]
      refine (ends_at_index ?_ h).imp (fun _ _ h => h.unheld) fun _ h => h.unheld
      intro index t
      simp only [ends_bind, ends_argument_third, ends_payload]
      split
      · split
        · exact (hsame t).stored _
        · exact hsame t
      · exact hsame t
  | insert key value =>
    rw [run, Builtin.body, Lists.insert, Halts, ends_bind, ends_argument_first] at h
    rw [run, Builtin.body, Lists.insert, ends_bind, ends_argument_first]
    refine ends_at_index ?_ h
    intro index t
    simp only [ends_bind, ends_argument_third, ends_payload]
    split
    · exact (hsame t).stored _
    · exact hsame t
  | remove key =>
    rw [run, Builtin.body, Lists.remove, Halts, ends_bind, ends_argument_first] at h
    rw [run, Builtin.body, Lists.remove, ends_bind, ends_argument_first]
    refine ends_at_index ?_ h
    intro index t
    simp only [ends_bind, ends_payload]
    split
    · split
      · simp only [ends_bind, ends_store, ends_orNothing]
        exact (hsame t).stored _
      · exact hsame t
    · exact hsame t
  | _ => exact absurd trivial hmakes

end ListUse

/-- A list other than this object is used. -/
inductive State.UsesOther (kept : Ref) (s t : State) : Prop
  | use {host : Host} {rounds : Nat} {use : ListUse} {list : Ref} {e : Ending} (hlist : s.kind list = .list)
      (hother : list ≠ kept) (hrun : (use.run (machine host rounds) list).ending? s = some (e, t))

theorem State.UsesOther.kept_along {s t : State} {kept : Ref} (hin : s.heap.Contains kept)
    (h : ReflTransGen (UsesOther kept) s t) : t.payload kept = s.payload kept ∧ t.heap.Contains kept := by
  induction h with
  | refl => exact ⟨rfl, hin⟩
  | tail _ hstep ih =>
    obtain ⟨hsame, hin⟩ := ih
    obtain ⟨hlist, hother, hrun⟩ := hstep
    have hkeeps := (ListUse.ends_run _ _ _ hlist (halts_of_ending? hrun)).of_ending? hrun
    exact ⟨(hkeeps.kept kept hin hother.symm).trans hsame, Nat.lt_of_lt_of_le hin hkeeps.size⟩

/-- What a list does at the place of an index is what sequences do there. -/
structure State.SequenceAt (s : State) (machine : Machine) (list : Ref) (items : List Ref) (key : Ref)
    (place : Int) : Prop where
  reads : (machine.index list key).Ends s (fun o t => o = (itemAt? items place).getD s.nothing ∧ t = s) fun _ => False
  replaces : ∀ value, (machine.setIndex list key value).Ends s
    (fun _ t => t = s.stored list (.list (replaced items place value).toArray)) fun _ => False
  inserts : ∀ value, (Builtin.listInsert.body machine [list, key, value]).Ends s
    (fun o t => o = s.nothing ∧ t = s.stored list (.list (inserted items place value).toArray)) fun _ => False
  removes : (Builtin.listRemove.body machine [list, key]).Ends s
    (fun o t => o = (itemAt? items place).getD s.nothing ∧
      t = s.stored list (.list (deleted items place).toArray)) fun _ => False
  /-- Outside the list nothing is found, and nothing changed but by an insertion. -/
  outside : ¬ (0 ≤ place ∧ place < items.length) →
    itemAt? items place = none ∧ (∀ value, replaced items place value = items) ∧ deleted items place = items
  stays : ∀ value, (replaced items place value).length = items.length
  grows : ∀ value, (inserted items place value).length = items.length + 1
  shrinks : 0 ≤ place → place < items.length → (deleted items place).length + 1 = items.length

/-- Lists are sequences at every index, and lists that were made from a list stay as they are, whatever is
done with it and with other lists. -/
theorem list_sequence (host : Host) (rounds : Nat) (s : State) (list : Ref) (items : List Ref)
    (hlist : s.payload list = .list items.toArray) :
    (∀ key index, s.payload key = .int index →
      s.SequenceAt (machine host (rounds + 1)) list items key (place index items.length) ∧
      (items.length ≤ Int64.maxValue.toInt → (wrapped index items.length).toInt = place index items.length) ∧
      (0 ≤ index.toInt → index.toInt ≤ items.length → ∀ value, (do
        let _ ← Builtin.listInsert.body (machine host (rounds + 1)) [list, key, value]
        Builtin.listRemove.body (machine host (rounds + 1)) [list, key]).Ends s
          (fun o t => o = value ∧ t = s) fun _ => False)) ∧
    ∀ (use : ListUse) made t, use.Makes → (use.run (machine host rounds) list).run s = .ok made t →
      made ≠ list ∧ t.kind made = .list ∧ t.payload list = s.payload list ∧
      ∀ u, ReflTransGen (State.UsesOther made) t u → u.payload made = t.payload made := by
  have hkind : s.kind list = .list := State.kind_of_payload hlist
  have hin : s.heap.Contains list := State.contains_of_kind_ne (by simp [hkind])
  constructor
  · intro key index hkey
    refine ⟨?_, toInt_wrapped, fun hlow hhigh value => ends_insert_remove hlist hkey hlow hhigh⟩
    exact {
      reads := (ends_index_list hlist hkey).mpr ⟨rfl, rfl⟩
      replaces value := (ends_setIndex_list hlist hkey).mpr rfl
      inserts value := (ends_insert_list hlist hkey).mpr ⟨rfl, rfl⟩
      removes := (ends_remove_list hlist hkey).mpr ⟨rfl, rfl⟩
      outside := Sequence.outside
      stays := length_replaced items _
      grows := length_inserted items _
      shrinks := length_deleted }
  · intro use made t hmakes hrun
    have hhalts : (use.run (machine host rounds) list).Halts s := (ends_of_run hrun).mpr trivial
    have hmade := (ends_of_run hrun).mp (ListUse.ends_makes host rounds hmakes hkind hhalts)
    refine ⟨?_, hmade.list, hmade.kept list hin, fun u huses => ?_⟩
    · rintro rfl
      exact hmade.new hin
    · exact (State.UsesOther.kept_along (State.contains_of_kind_ne (by simp [hmade.list])) huses).1

/-- The last item of a list is found at -1, and a copy of the list stays when an item is inserted there. -/
theorem list_sequence_copied :
    let s := { Globals.bare {} .discard {} with
      heap := ⟨#[.singlet "None", .map [], .map [], .list #[⟨4⟩, ⟨5⟩], .int (-1), .int 7]⟩ }
    ((machine {} 1).index ⟨3⟩ ⟨4⟩).Ends s (fun o t => o = ⟨5⟩ ∧ t = s) (fun _ => False) ∧
    ∃ copied t u, (Builtin.listCopy.body (machine {} 0) [⟨3⟩]).run s = .ok copied t ∧
      (Builtin.listInsert.body (machine {} 1) [⟨3⟩, ⟨4⟩, ⟨5⟩]).run t = .ok t.nothing u ∧
      u.payload ⟨3⟩ = .list #[⟨4⟩, ⟨5⟩, ⟨5⟩] ∧ u.payload copied = .list #[⟨4⟩, ⟨5⟩] := by
  intro s
  obtain ⟨hindex, hmade⟩ := list_sequence {} 0 s ⟨3⟩ [⟨4⟩, ⟨5⟩] rfl
  obtain ⟨hat, -⟩ := hindex ⟨4⟩ (-1) rfl
  obtain ⟨-, -, -, hkept⟩ := hmade .copy _ _ trivial rfl
  obtain ⟨hinsert, -⟩ := (list_sequence {} 0 (s.made (.list #[⟨4⟩, ⟨5⟩])) ⟨3⟩ [⟨4⟩, ⟨5⟩] rfl).1 ⟨4⟩ (-1) rfl
  obtain ⟨_, u, hrun, rfl, hu⟩ := (hinsert.inserts ⟨5⟩).exists_run
  have hinserts : ((ListUse.insert ⟨4⟩ ⟨5⟩).run (machine {} 1) ⟨3⟩).ending? _ = some (.value, u) := ending?_ok hrun
  refine ⟨hat.reads, _, _, u, rfl, hrun, ?_, hkept u (.single (.use ?_ ?_ hinserts))⟩
  · rw [hu]
    exact payload_stored_same (by decide)
  · rfl
  · decide

end ObjectModel
