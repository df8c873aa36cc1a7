import ObjectModel.Builtin.Globals
import ObjectModel.Proofs.Calls.Starts
import ObjectModel.Proofs.References.Counts

/-!
# Pins

A program can ask how many references hold an object, and move that number by pinning the object. What
holds the object otherwise, its handles, is out of reach: the answer never falls below them
(`setRefs_pin`). The answer leaves out the two references that the call itself holds, which is what makes
it equal to the number that was asked for.
-/

namespace ObjectModel

open ObjectModel.Action Behavior Relation

namespace State

variable {s t : State} {o p : Ref} {count : Nat}

-- ---------------------------------------------------------------------------
-- Objects that more is held of
-- ---------------------------------------------------------------------------

/-- An object that was made refers to another. -/
def Refers (s : State) (holder o : Ref) : Prop :=
  s.heap.Contains holder ∧ o ∈ (s.payload holder).references

/-- Released objects lie on no cycle of references. -/
theorem Released.acyclic (h : s.Released o) : ¬ TransGen s.Refers o o := by
  induction h with
  | intro _ _ ih =>
    intro hcycle
    obtain ⟨holder, hpath, hmade, hrefers⟩ := TransGen.tail'_iff.mp hcycle
    exact ih holder hmade hrefers (.head' ⟨hmade, hrefers⟩ hpath)

/-- To hold one object more often, and others that refer to nothing, brings nothing back that leads to the
object: it would have to be on a cycle. -/
theorem Released.beside (hheap : t.heap = s.heap)
    (hroots : ∀ p ∈ t.roots, p ∈ s.roots ∨ p = o ∨ (s.payload p).references = [])
    (h : s.Released p) (hleads : TransGen s.Refers p o) : t.Released p := by
  induction h with
  | @intro p notRoot holders ih =>
    have hpayload : t.payload = s.payload := by
      unfold payload
      rw [hheap]
    refine .intro (fun hroot => ?_) fun holder hmade hrefers => ?_
    · rcases hroots p hroot with hold | rfl | hleaf
      · exact notRoot hold
      · exact (Released.intro notRoot holders).acyclic hleads
      · obtain ⟨next, hstep, -⟩ := TransGen.head'_iff.mp hleads
        rw [Refers, hleaf] at hstep
        cases hstep.2
    · rw [hheap] at hmade
      rw [hpayload] at hrefers
      exact ih holder hmade hrefers (hleads.head ⟨hmade, hrefers⟩)

theorem Released.anti (hheap : t.heap = s.heap) (hroots : s.roots ⊆ t.roots) (h : t.Released p) :
    s.Released p := by
  induction h with
  | intro notRoot _ ih =>
    refine .intro (fun hroot => notRoot (hroots hroot)) fun holder hmade hrefers => ?_
    exact ih holder (hheap ▸ hmade) (by rwa [payload, hheap])

/-- An object that is held more often counts for as much more, if all else that is held besides refers to
nothing. -/
theorem refCount_beside (hheap : t.heap = s.heap) (ho : s.heap.Contains o)
    (hcount : t.roots.count o = s.roots.count o + count) (hkept : s.roots ⊆ t.roots)
    (hroots : ∀ p ∈ t.roots, p ∈ s.roots ∨ p = o ∨ (s.payload p).references = []) :
    t.refCount o = s.refCount o + count := by
  classical
  have hpayload : t.payload = s.payload := by
    unfold payload
    rw [hheap]
  rw [refCount_eq (hheap ▸ ho), refCount_eq ho, hcount, hpayload, hheap, Nat.add_right_comm]
  congr 2
  -- Objects that refer to this one are released in the one state as in the other; the rest add nothing.
  simp only [Finset.sum_filter]
  refine Finset.sum_congr rfl fun index hindex => ?_
  by_cases hrefers : o ∈ (s.payload ⟨index⟩).references
  · have hstep : s.Refers ⟨index⟩ o := ⟨Finset.mem_range.mp hindex, hrefers⟩
    have hiff : t.Released ⟨index⟩ ↔ s.Released ⟨index⟩ :=
      ⟨.anti hheap hkept, fun h => h.beside hheap hroots (.single hstep)⟩
    simp only [hiff]
  · simp [List.count_eq_zero_of_not_mem hrefers]

-- ---------------------------------------------------------------------------
-- Handles
-- ---------------------------------------------------------------------------

/-- How many references hold an object that are no pins. -/
def handles (s : State) (o : Ref) : Nat := s.refCount o - s.pins.count o

def unpinned (s : State) (o : Ref) : State := { s with pins := s.pins.filter (· ≠ o) }

theorem refCount_unpinned (ho : s.heap.Contains o) :
    s.refCount o = (s.unpinned o).refCount o + s.pins.count o := by
  refine refCount_beside rfl ho ?_ (fun p hp => ?_) fun p hp => ?_
  · have hnone : (s.pins.filter (· ≠ o)).count o = 0 :=
      List.count_eq_zero_of_not_mem (by simp)
    simp only [roots, unpinned, List.count_cons, List.count_append, hnone]
    omega
  · simp only [roots, unpinned, List.mem_cons, List.mem_append, List.mem_filter] at hp ⊢
    tauto
  · by_cases hpo : p = o
    · exact .inr (.inl hpo)
    · left
      simp only [roots, unpinned, List.mem_cons, List.mem_append, List.mem_filter, ne_eq, hpo,
        not_false_eq_true, decide_true, and_true] at hp ⊢
      exact hp

theorem handles_eq (ho : s.heap.Contains o) : s.handles o = (s.unpinned o).refCount o := by
  rw [handles, refCount_unpinned ho, Nat.add_sub_cancel]

theorem refCount_eq_handles (ho : s.heap.Contains o) :
    s.refCount o = s.handles o + s.pins.count o := by
  rw [handles_eq ho, refCount_unpinned ho]

-- ---------------------------------------------------------------------------
-- Pinning
-- ---------------------------------------------------------------------------

theorem count_eraseTimes (o : Ref) (count : Nat) (pins : List Ref) :
    (eraseTimes o count pins).count o = pins.count o - count := by
  induction count generalizing pins with
  | zero => rfl
  | succ count ih =>
    rw [eraseTimes, ih, List.count_erase_self]
    omega

theorem filter_eraseTimes (o : Ref) (count : Nat) (pins : List Ref) :
    (eraseTimes o count pins).filter (· ≠ o) = pins.filter (· ≠ o) := by
  induction count generalizing pins with
  | zero => rfl
  | succ count ih =>
    rw [eraseTimes, ih, ← List.erase_filter, List.erase_of_not_mem (by simp)]

/-- The pins of an object were moved to a number. Nothing else changed: whatever else holds objects does
so still. -/
structure Repinned (s : State) (o : Ref) (count : Nat) (t : State) : Prop where
  rest : t = { s with pins := t.pins }
  others : t.pins.filter (· ≠ o) = s.pins.filter (· ≠ o)
  count : t.pins.count o = count

namespace Repinned

theorem pin (s : State) (o : Ref) (more : Nat) :
    s.Repinned o (s.pins.count o + more) (s.pin o more) := by
  refine ⟨rfl, ?_, ?_⟩
  · simp [State.pin]
  · simp [State.pin, Nat.add_comm]

theorem unpin (s : State) (o : Ref) (less : Nat) :
    s.Repinned o (s.pins.count o - less) (s.unpin o less) := by
  refine ⟨rfl, filter_eraseTimes .., ?_⟩
  rw [State.unpin, count_eraseTimes]
  omega

variable {count' : Nat} {u : State}

theorem heap_eq (h : s.Repinned o count t) : t.heap = s.heap := by rw [h.rest]

theorem payload_eq (h : s.Repinned o count t) : t.payload = s.payload := by rw [h.rest]; rfl

theorem room_eq (h : s.Repinned o count t) : t.room = s.room := by rw [h.rest]; rfl

theorem unpinned (h : s.Repinned o count t) : t.unpinned o = s.unpinned o := by
  rw [State.unpinned, h.others, h.rest, State.unpinned]

theorem handles (h : s.Repinned o count t) (ho : s.heap.Contains o) : t.handles o = s.handles o := by
  rw [handles_eq (h.heap_eq ▸ ho), handles_eq ho, h.unpinned]

theorem count_other (h : s.Repinned o count t) (hp : p ≠ o) : t.pins.count p = s.pins.count p := by
  have hfilter (pins : List Ref) : (pins.filter (· ≠ o)).count p = pins.count p :=
    List.count_filter (by simpa using hp)
  rw [← hfilter t.pins, h.others, hfilter]

theorem trans (h : s.Repinned o count t) (h' : t.Repinned o count' u) : s.Repinned o count' u := by
  refine ⟨?_, h'.others.trans h.others, h'.count⟩
  conv_lhs => rw [h'.rest, h.rest]

end Repinned

end State

-- ---------------------------------------------------------------------------
-- Calls by programs
-- ---------------------------------------------------------------------------

/-- A call as a program makes it, which holds what it calls and the arguments itself. -/
def Dispatcher.callDirectly (run : Dispatcher) (callee : Ref) (args : List Ref) : Action Ref :=
  holding (callee :: args) (run.call callee args)

def State.serving (s : State) (callee : Ref) (args : List Ref) : State :=
  (s.withHeld ([callee] :: (callee :: args) :: (callee :: args) :: s.held)).framed callee

def State.served (s t : State) : State := { t with frames := s.frames, held := s.held }

section
variable {s : State} {callee o : Ref} {args : List Ref} {host : Host} {rounds : Nat}

theorem ends_callDirectly {function : Builtin} (hp : s.payload callee = .native (.builtin function))
    (hroom : s.room ≠ 0) {Q : Ref → State → Prop}
    (hbody : (function.body (machine host rounds) args).Ends (s.serving callee args)
      (fun a t => t.frames = callee :: s.frames ∧ Q a (s.served t)) fun _ => False) :
    ((machine host (rounds + 1)).callDirectly callee args).Ends s Q fun _ => False := by
  have hheld : (s.withHeld ((callee :: args) :: s.held)).payload callee =
      .native (.builtin function) := hp
  rw [Dispatcher.callDirectly, ends_holding, ends_call_native hheld, ends_inFrame]
  refine ⟨fun h => hroom h, fun _ => (ends_followedBy ..).mpr ?_⟩
  refine hbody.imp (fun a t h => ?_) fun _ h => h.elim
  exact (ends_popFrame h.1).mpr h.2

theorem not_ends_callDirectly {function : Builtin}
    (hp : s.payload callee = .native (.builtin function)) (hroom : s.room = 0)
    {Q : Ref → State → Prop} :
    ¬ ((machine host (rounds + 1)).callDirectly callee args).Ends s Q fun _ => False := by
  have hheld : (s.withHeld ((callee :: args) :: s.held)).payload callee =
      .native (.builtin function) := hp
  rw [Dispatcher.callDirectly, ends_holding, ends_call_native hheld, ends_inFrame]
  exact fun h => h.1 hroom

theorem State.mem_roots_serving {p : Ref} :
    p ∈ (s.serving callee args).roots ↔ p ∈ s.roots ∨ p = callee ∨ p ∈ args := by
  simp only [roots, serving, framed, withHeld, List.mem_cons, List.mem_append, List.flatten_cons]
  tauto

theorem State.refCount_serving (ho : s.heap.Contains o) (hcallee : callee ≠ o)
    (hleaf : (s.payload callee).references = []) (hargs : args.count o = 1)
    (hleaves : ∀ a ∈ args, a = o ∨ (s.payload a).references = []) :
    (s.serving callee args).refCount o = s.refCount o + 2 := by
  refine refCount_beside rfl ho ?_ (fun p hp => mem_roots_serving.mpr (.inl hp)) fun p hp => ?_
  · simp only [roots, serving, framed, withHeld, List.count_cons, List.count_append, List.flatten_cons,
      List.cons_append, List.nil_append, beq_iff_eq, hcallee, if_false, hargs]
    omega
  · rcases mem_roots_serving.mp hp with hold | rfl | harg
    · exact .inl hold
    · exact .inr (.inr hleaf)
    · exact .inr (hleaves p harg)

end

-- ---------------------------------------------------------------------------
-- Asking and moving
-- ---------------------------------------------------------------------------

namespace Inspection

variable {s : State} {machine : Machine} {o c : Ref} {n : Int64} {handles : Nat}

/-- The pins are moved as far as the handles and the references of the call leave them to be. -/
theorem ends_setRef (hc : s.payload c = .int n) (hfits : n.toInt ≤ State.pinCapacity)
    (hheld : s.refCount o = handles + s.pins.count o + 2) :
    (setRef machine [o, c]).Ends s (fun _ t => s.Repinned o (n.toInt - handles).toNat t)
      fun _ => False := by
  have hcapacity : (State.pinCapacity : Int) = 576460752303423488 := rfl
  have hwanted : min (n.toInt + callReferences) Int64.maxValue.toInt = n.toInt + 2 := by
    simp only [callReferences, Int64.toInt_maxValue]
    omega
  simp only [setRef, Dispatcher.intArgument, ends_bind, ends_argument_second, Dispatcher.ends_toInt _ hc,
    ends_get, hheld, hwanted]
  split
  case isTrue hmore =>
    have hplace : ¬ State.pinCapacity <
        s.pins.count o + (n.toInt + 2 - ((handles + s.pins.count o + 2 : Nat) : Int)).toNat := by omega
    simp only [if_neg hplace, ends_bind, ends_modify, ends_nothing]
    convert State.Repinned.pin s o _ using 1
    omega
  case isFalse hless =>
    simp only [ends_bind, ends_modify, ends_nothing]
    convert State.Repinned.unpin s o _ using 1
    omega

theorem ends_getRef (machine : Machine) {Q : Ref → State → Prop} {E : State → Prop} :
    (getRef machine [o]).Ends s Q E ↔
      Q s.heap.next (s.made (.int (Int64.ofInt (s.refCount o - 2)))) := by
  simp only [getRef, ends_bind, ends_get, ends_createInt, callReferences]
  rfl

end Inspection

section
variable (host : Host) (rounds : Nat) {s t : State} {setter getter o c : Ref} {counts : List Ref}
  {n : Int64} {count : Nat}

theorem State.Repinned.served {callee : Ref} {args : List Ref}
    (h : (s.serving callee args).Repinned o count t) : s.Repinned o count (s.served t) := by
  refine ⟨?_, h.others, h.count⟩
  conv_lhs => rw [h.rest]
  rfl

theorem ends_setRef_called (hset : s.payload setter = .native (.builtin .debugSetRef))
    (hsetter : setter ≠ o) (hroom : s.room ≠ 0) (ho : s.heap.Contains o) (hc : s.payload c = .int n)
    (hfits : n.toInt ≤ State.pinCapacity) (hother : c ≠ o) :
    ((machine host (rounds + 1)).callDirectly setter [o, c]).Ends s
      (fun _ t => s.Repinned o (n.toInt - s.handles o).toNat t) fun _ => False := by
  refine ends_callDirectly hset hroom ?_
  have hheld : (s.serving setter [o, c]).refCount o =
      s.handles o + (s.serving setter [o, c]).pins.count o + 2 := by
    rw [State.refCount_serving ho hsetter (by simp [hset, Payload.references]) (by simp [hother])
      (by simp [hc, Payload.references]), State.refCount_eq_handles ho]
    rfl
  have hserving : (s.serving setter [o, c]).payload c = .int n := hc
  refine (Inspection.ends_setRef hserving hfits hheld).imp_value fun _ t h => ⟨?_, h.served⟩
  rw [h.rest]
  rfl

/-- The object is an int of which there can be so many pins, and not the one that is pinned. -/
def State.CountFor (s : State) (o c : Ref) : Prop :=
  c ≠ o ∧ ∃ n : Int64, s.payload c = .int n ∧ n.toInt ≤ State.pinCapacity

theorem ends_setRefs_called (hset : s.payload setter = .native (.builtin .debugSetRef))
    (hsetter : setter ≠ o) (hroom : s.room ≠ 0) (ho : s.heap.Contains o)
    (hcounts : ∀ c ∈ counts, s.CountFor o c) :
    (forM counts fun c => discard ((machine host (rounds + 1)).callDirectly setter [o, c])).Ends s
      (fun _ t => ∃ count, s.Repinned o count t) fun _ => False := by
  induction counts generalizing s with
  | nil => exact ⟨_, State.Repinned.pin s o 0⟩
  | cons c counts ih =>
    obtain ⟨⟨hother, n, hc, hfits⟩, hcounts⟩ := List.forall_mem_cons.mp hcounts
    rw [List.forM_cons, ends_bind, ends_discard]
    refine (ends_setRef_called host rounds hset hsetter hroom ho hc hfits hother).imp_value fun _ t h => ?_
    have hrest := ih (s := t) (by rw [h.payload_eq, hset]) (h.room_eq ▸ hroom) (h.heap_eq ▸ ho)
      (by simpa only [State.CountFor, h.payload_eq] using hcounts)
    refine hrest.imp_value ?_
    rintro _ u ⟨count, h'⟩
    exact ⟨count, h.trans h'⟩

theorem ends_getRef_called (hget : s.payload getter = .native (.builtin .debugGetRef))
    (hgetter : getter ≠ o) (hroom : s.room ≠ 0) (ho : s.heap.Contains o) :
    ((machine host (rounds + 1)).callDirectly getter [o]).Ends s
      (fun answer t => answer = s.heap.next ∧ t = s.made (.int (Int64.ofInt (s.refCount o))))
      fun _ => False := by
  refine ends_callDirectly hget hroom ?_
  have hheld : (s.serving getter [o]).refCount o = s.refCount o + 2 :=
    State.refCount_serving ho hgetter (by simp [hget, Payload.references]) (by simp) (by simp)
  have hcount : ((s.serving getter [o]).refCount o : Int) - 2 = s.refCount o := by omega
  refine (Inspection.ends_getRef (machine host rounds)).mpr ⟨rfl, rfl, ?_⟩
  rw [hcount]
  rfl

theorem ends_getRef_moved (hget : s.payload getter = .native (.builtin .debugGetRef))
    (hgetter : getter ≠ o) (hroom : s.room ≠ 0) (ho : s.heap.Contains o)
    (h : s.Repinned o (n.toInt - s.handles o).toNat t) :
    ((machine host (rounds + 1)).callDirectly getter [o]).Ends t
      (fun answer u => answer = t.heap.next ∧
        u = t.made (.int (Int64.ofInt (max n.toInt (s.handles o)))))
      fun _ => False := by
  have hmade : t.heap.Contains o := h.heap_eq ▸ ho
  have hcount : (t.refCount o : Int) = max n.toInt (s.handles o) := by
    rw [State.refCount_eq_handles hmade, h.handles ho, h.count]
    omega
  rw [← hcount]
  exact ends_getRef_called host rounds (by rw [h.payload_eq, hget]) hgetter (h.room_eq ▸ hroom) hmade

end

/-- Whatever numbers of references to an object a program asks for, one after the other, the calls change
nothing but the pins of that object, and in the end there are as many references as it asked for last, or
the handles if they are more. There must be room for a call, and a place for so many pins. -/
theorem setRefs_pin (host : Host) (rounds : Nat) {s : State} {setter getter o last : Ref}
    {counts : List Ref} {n : Int64} (hroom : s.room ≠ 0) (ho : s.heap.Contains o)
    (hset : s.payload setter = .native (.builtin .debugSetRef))
    (hget : s.payload getter = .native (.builtin .debugGetRef)) (hsetter : setter ≠ o)
    (hgetter : getter ≠ o) (hcounts : ∀ c ∈ counts, s.CountFor o c) (hlast : s.payload last = .int n)
    (hfits : n.toInt ≤ State.pinCapacity) (hother : last ≠ o) :
    (forM (counts ++ [last]) fun c =>
        discard ((machine host (rounds + 1)).callDirectly setter [o, c])).Ends s
      (fun _ t =>
        t = { s with pins := t.pins } ∧ (∀ p, p ≠ o → t.pins.count p = s.pins.count p) ∧
        t.handles o = s.handles o ∧
        ((machine host (rounds + 1)).callDirectly getter [o]).Ends t
          (fun answer u => ∃ v, answer = t.heap.next ∧ u = t.made (.int v) ∧
            (s.handles o ≤ Int64.maxValue.toInt → v.toInt = max n.toInt (s.handles o)))
          fun _ => False)
      fun _ => False := by
  rw [List.forM_append, List.forM_cons, List.forM_nil, ends_bind]
  refine (ends_setRefs_called host rounds hset hsetter hroom ho hcounts).imp_value fun _ t ⟨_, h⟩ => ?_
  rw [ends_bind, ends_discard]
  refine (ends_setRef_called host rounds (by rw [h.payload_eq, hset]) hsetter (h.room_eq ▸ hroom)
    (h.heap_eq ▸ ho) (by rw [h.payload_eq, hlast]) hfits hother).imp_value fun _ u h' => ?_
  rw [h.handles ho] at h'
  have hboth := h.trans h'
  refine ⟨hboth.rest, fun p hp => hboth.count_other hp, hboth.handles ho, ?_⟩
  refine (ends_getRef_moved host rounds hget hgetter hroom ho hboth).imp_value
    fun answer v ⟨hanswer, hv⟩ => ⟨_, hanswer, hv, fun hbound => ?_⟩
  have hcapacity : (State.pinCapacity : Int) = 576460752303423488 := rfl
  rw [Int64.toInt_maxValue] at hbound
  exact Int64.toInt_ofInt_of_le (by omega) (by omega)

/-- A list that the embedding program holds once, and that is pinned once, is asked for 7, -1 and 4 times. -/
theorem setRefs_pin_list :
    let s := { Globals.bare {} .discard {} with
      heap := ⟨#[.singlet "None", .map [], .map [], .native (.builtin .debugSetRef),
        .native (.builtin .debugGetRef), .list #[], .int 7, .int (-1), .int 4]⟩
      pins := [⟨5⟩, ⟨4⟩]
      hostHeld := [⟨5⟩] }
    (forM [⟨6⟩, ⟨7⟩, ⟨8⟩] fun c => discard ((machine {} 1).callDirectly ⟨3⟩ [⟨5⟩, c])).Ends s
      (fun _ t => t.pins.count ⟨4⟩ = 1 ∧ ((machine {} 1).callDirectly ⟨4⟩ [⟨5⟩]).Ends t
        (fun answer u => u.payload answer = .int 4) fun _ => False) fun _ => False := by
  intro s
  have hroom : s.room ≠ 0 := by decide
  have hmade : s.heap.Contains ⟨5⟩ := by decide
  have hset : s.payload ⟨3⟩ = .native (.builtin .debugSetRef) := rfl
  have hget : s.payload ⟨4⟩ = .native (.builtin .debugGetRef) := rfl
  have hcounts : ∀ c ∈ [(⟨6⟩ : Ref), ⟨7⟩], s.CountFor ⟨5⟩ c := by
    rintro c (_ | ⟨_, _ | ⟨_, ⟨⟩⟩⟩)
    · exact ⟨by decide, 7, rfl, by decide +kernel⟩
    · exact ⟨by decide, -1, rfl, by decide +kernel⟩
  have hlast : s.payload ⟨8⟩ = .int 4 := rfl
  have hother : s.pins.count ⟨4⟩ = 1 := by decide
  have hhandles : s.handles ⟨5⟩ = 1 := by decide +kernel
  clear_value s
  refine (setRefs_pin {} 0 hroom hmade hset hget (by decide) (by decide) hcounts hlast
    (by decide +kernel) (by decide)).imp_value fun _ t ⟨_, hpins, _, hanswer⟩ => ⟨?_, ?_⟩
  · rw [hpins ⟨4⟩ (by decide), hother]
  · refine hanswer.imp_value fun answer u ⟨v, hnext, hu, hv⟩ => ?_
    rw [hhandles] at hv
    have hfour : v.toInt = (4 : Int64).toInt := (hv (by decide +kernel)).trans (by decide +kernel)
    rw [hnext, hu, payload_made_next, Int64.toInt_inj.mp hfour]

/-- A program that asks for any number of references to an object is told the number, or the handles if
they are more. -/
def State.AnswersAsked (s : State) (host : Host) : Prop :=
  ∀ (rounds : Nat) (setter getter o c : Ref) (n : Int64), s.heap.Contains o →
    s.payload setter = .native (.builtin .debugSetRef) →
    s.payload getter = .native (.builtin .debugGetRef) → setter ≠ o → getter ≠ o →
    s.payload c = .int n → c ≠ o →
    ((machine host (rounds + 1)).callDirectly setter [o, c]).Ends s
      (fun _ t => ((machine host (rounds + 1)).callDirectly getter [o]).Ends t
        (fun answer u => ∃ v, u.payload answer = .int v ∧ v.toInt = max n.toInt (s.handles o))
        fun _ => False)
      fun _ => False

/-- Not every program is told what it asked for: where no call fits in, it is told nothing. -/
theorem setRef_unanswered : ¬ ∀ (host : Host) (s : State), s.AnswersAsked host := by
  intro h
  let s := { Globals.bare { depth := 0 } .discard {} with
    heap := ⟨#[.singlet "None", .map [], .map [], .native (.builtin .debugSetRef),
      .native (.builtin .debugGetRef), .list #[], .int 4]⟩ }
  have hroom : s.room = 0 := by decide
  exact not_ends_callDirectly rfl hroom
    (h {} s 0 ⟨3⟩ ⟨4⟩ ⟨5⟩ ⟨6⟩ 4 (by decide) rfl rfl (by decide) (by decide) rfl (by decide))

end ObjectModel
