import Mathlib.Data.List.Zip
import ObjectModel.Proofs.Comparison.Contents

/-!
# What comparisons find equal

A comparison that gives an order gives zero exactly for objects that are equal by what they hold
(`compare_eq_zero`): objects that coincide, and lists of one length whose items are equal one by one.
-/

namespace ObjectModel

open ObjectModel.Action Behavior Relation

/-- Two objects coincide, or are lists of one length whose items are equal one by one. -/
inductive State.Equal (s : State) : Ref → Ref → Prop
  | single {left right : Ref} (h : s.Coincide left right) : Equal s left right
  | items {left right : Ref} (hleft : s.payload left = .list lefts) (hright : s.payload right = .list rights)
      (hsize : lefts.size = rights.size)
      (hitems : ∀ pair ∈ lefts.toList.zip rights.toList, Equal s pair.1 pair.2) : Equal s left right

variable {s s₀ t : State} {left right : Ref}

namespace State

theorem Coincide.unchanged (h : s.Coincide left right) (hleft : s.Unchanged t left)
    (hright : s.Unchanged t right) : t.Coincide left right := by
  unfold Coincide at *
  rw [hleft.seen, hright.seen]
  cases hl : s.payload left with
  | string a =>
    rw [hl] at h
    cases hr : s.payload right with
    | buffer b =>
      rw [hr] at h
      exact (hright.same hr).text.trans h
    | _ => rw [hr] at h; exact h
  | buffer a =>
    rw [hl] at h
    cases hr : s.payload right with
    | string b =>
      rw [hr] at h
      exact (hleft.same hl).shows h
    | buffer b =>
      rw [hr] at h
      exact (hleft.same hl).alike (hright.same hr) h
    | _ => rw [hr] at h; exact h
  | _ =>
    rw [hl] at h
    cases hr : s.payload right <;> rw [hr] at h <;> exact h

theorem Equal.unchanged (h : s.Equal left right) (hleft : s.Unchanged t left)
    (hright : s.Unchanged t right) : t.Equal left right := by
  induction h with
  | single h => exact .single (h.unchanged hleft hright)
  | items hlefts hrights hsize _ ih =>
    refine .items (payload_of_seen hleft.seen hlefts rfl) (payload_of_seen hright.seen hrights rfl) hsize ?_
    intro pair hpair
    obtain ⟨hl, hr⟩ := List.of_mem_zip hpair
    exact ih pair hpair (hleft.item hlefts (by simpa using hl)) (hright.item hrights (by simpa using hr))

theorem equal_iff (hleft : s.Unchanged t left) (hright : s.Unchanged t right) :
    t.Equal left right ↔ s.Equal left right :=
  ⟨fun h => h.unchanged hleft.symm hright.symm, fun h => h.unchanged hleft hright⟩

theorem equal_single (h : ¬ (s.kind left = .list ∧ s.kind right = .list)) :
    s.Equal left right ↔ s.Coincide left right := by
  refine ⟨fun hequal => ?_, .single⟩
  cases hequal with
  | single h => exact h
  | items hleft hright => simp [kind_of_payload hleft, kind_of_payload hright, Payload.kind] at h

theorem equal_lists (hleft : s.payload left = .list lefts) (hright : s.payload right = .list rights) :
    s.Equal left right ↔ lefts.size = rights.size ∧
      ∀ pair ∈ lefts.toList.zip rights.toList, s.Equal pair.1 pair.2 := by
  constructor
  · intro hequal
    cases hequal with
    | single h => simp [Coincide, hleft] at h
    | items hlefts hrights hsize hitems =>
      obtain rfl := Payload.list.inj (hleft.symm.trans hlefts)
      obtain rfl := Payload.list.inj (hright.symm.trans hrights)
      exact ⟨hsize, hitems⟩
  · rintro ⟨hsize, hitems⟩
    exact .items hleft hright hsize hitems

end State

-- ---------------------------------------------------------------------------
-- Either way round
-- ---------------------------------------------------------------------------

namespace State

/-- The text of a buffer is the string exactly if the bytes of the buffer are those of the string. -/
def Spells (s : State) (string buffer : Ref) : Prop :=
  ∀ text b, s.payload string = .string text → s.payload buffer = .buffer b →
    (b.text s.memory = text ↔ b.view.Shows s.memory (Bytes.ofText text))

/-- Where a string and a buffer face each other in two objects, each finds the other equal, or neither. -/
def Accord (s : State) (left right : Ref) : Prop :=
  ∀ pair, ReflTransGen s.Faces pair (left, right) → s.Spells pair.1 pair.2 ∧ s.Spells pair.2 pair.1

theorem Coincide.swap (h : s.Coincide left right) (hspells : s.Spells left right)
    (hspells' : s.Spells right left) : s.Coincide right left := by
  by_cases hmixed : s.Mixed left right
  · rcases hmixed with ⟨hstring, hbuffer⟩ | ⟨hbuffer, hstring⟩
    · obtain ⟨text, hl⟩ := payload_of_string hstring
      obtain ⟨b, hr⟩ := payload_of_buffer hbuffer
      simp only [Coincide, hl, hr] at h ⊢
      exact (hspells text b hl hr).mp h
    · obtain ⟨b, hl⟩ := payload_of_buffer hbuffer
      obtain ⟨text, hr⟩ := payload_of_string hstring
      simp only [Coincide, hl, hr] at h ⊢
      exact (hspells' text b hr hl).mpr h
  · exact h.symm hmixed

theorem Equal.symm (h : s.Equal left right) (haccord : s.Accord left right) : s.Equal right left := by
  induction h with
  | single h =>
    obtain ⟨hl, hr⟩ := haccord _ .refl
    exact .single (h.swap hl hr)
  | items hleft hright hsize _ ih =>
    refine .items hright hleft hsize.symm ?_
    rintro ⟨right, left⟩ hpair
    rw [← List.zip_swap] at hpair
    obtain ⟨pair, hmem, hswap⟩ := List.mem_map.mp hpair
    obtain ⟨rfl, rfl⟩ := Prod.mk.inj hswap
    refine ih pair hmem fun inner hinner => haccord inner ?_
    exact hinner.tail ⟨_, _, hleft, hright, hsize, hmem⟩

end State

-- ---------------------------------------------------------------------------
-- Comparisons of single objects
-- ---------------------------------------------------------------------------

theorem Memory.bytesAt_allocate {memory : Memory} {bytes : Bytes} (hfits : memory.Fits bytes.length) :
    View.bytesAt (memory.allocate bytes).2 (memory.allocate bytes).1 bytes.length = bytes := by
  by_cases hnil : bytes = []
  · simp [View.bytesAt, hnil]
  rw [allocate_of_fits hfits hnil]
  have hfound : (memory.push bytes hfits hnil).locate? (View.displaced (base memory.blocks.size) (0 : Nat)) =
      some (memory.blocks.size, 0) := locate?_displaced (by simp [push]) (by decide)
  rw [View.displaced_zero] at hfound
  have hne : base memory.blocks.size ≠ 0 := by
    intro hzero
    obtain ⟨hbase, -⟩ := locate?_eq_some_iff.mp hfound
    rw [hzero, lane_eq, firstLane_eq, UInt64.toNat_zero] at hbase
    omega
  have hlength : ¬ (bytes.length = 0 ∨ base memory.blocks.size = 0) := by simp [hnil, hne]
  rw [View.bytesAt, if_neg hlength, read_of_locate? _ hfound, block_push_new, Bytes.part_eq]
  simp

theorem Behavior.Buffers.sign_order_withBlock {view : View} {bytes : Bytes}
    (hplaced : s.memory.Placed view.address) (hfits : s.memory.Fits bytes.length) :
    Integer.sign (order (s.withBlock bytes).memory view
      (.sized (s.memory.allocate bytes).1 bytes.length)) = 0 ↔ view.Shows s.memory bytes := by
  have hsame := (State.extends_withBlock s bytes).same hplaced
  have hnew : View.bytesAt (s.withBlock bytes).memory (s.memory.allocate bytes).1 bytes.length = bytes :=
    Memory.bytesAt_allocate hfits
  have hshows : view.Shows (s.withBlock bytes).memory bytes ↔ view.Shows s.memory bytes :=
    ⟨hsame.symm.shows, hsame.shows⟩
  rw [sign_order_eq_zero, ← hshows]
  cases view with
  | sized => rw [View.Alike, hnew, View.Shows]
  | unsized => rw [View.Alike, hnew, View.Shows]

theorem State.mixed_of_not_settled (hlists : ¬ (s.kind left = .list ∧ s.kind right = .list))
    (hsettled : ¬ s.Settled left right) : s.Mixed left right := by
  by_contra hnot
  rw [State.Mixed, not_or] at hnot
  exact hsettled ⟨⟨hlists, hnot.2⟩, hnot.1⟩

/-- Without a round left, no comparison of a string and a buffer comes to an end. -/
theorem not_halts_compare_mixed (host : Host) (h : s.Mixed left right) :
    ¬ ((machine host 1).compare left right).Halts s := by
  rw [Halts, Dispatcher.ends_compare]
  rcases h with ⟨hstring, hbuffer⟩ | ⟨hbuffer, hstring⟩
  · rw [hstring, machine, ends_behave Strings.compare host _ _ rfl]
    obtain ⟨buffer, hr⟩ := State.payload_of_buffer hbuffer
    simp only [Strings.compare, Strings.bytesOfArgument, Strings.ofArgument, ends_bind,
      ends_argument_first, ends_argument_second, ends_payload, State.payload_withHeld, ends_kind,
      State.kind_withHeld, hbuffer, Dispatcher.toText, hr, Dispatcher.unary,
      Dispatcher.ends_dispatch, ends_pure]
    exact id
  · rw [hbuffer, machine, ends_behave Buffers.compare host _ _ rfl]
    obtain ⟨buffer, hl⟩ := State.payload_of_buffer hbuffer
    simp only [Buffers.compare, Buffers.viewOf, ends_bind, ends_argument_first, ends_argument_second,
      ends_payload, State.payload_withHeld, ends_kind, State.kind_withHeld, hstring, hl, ends_pure,
      Dispatcher.toBuffer, Dispatcher.unary, Dispatcher.ends_dispatch]
    exact id

theorem compare_single_run (host : Host) (rounds : Nat) (hleft : s.Readable left)
    (hlists : ¬ (s.kind left = .list ∧ s.kind right = .list))
    (hrun : ((machine host rounds).compare left right).run s = .ok n t) :
    s.Extends t ∧ (n = 0 ↔ s.Coincide left right) := by
  have hhalts : ((machine host rounds).compare left right).Halts s := (ends_of_run hrun).mpr trivial
  cases rounds with
  | zero => exact hhalts.elim
  | succ rounds =>
    by_cases hsettled : s.Settled left right
    · obtain ⟨rfl, hgrown⟩ := (ends_of_run hrun).mp (ends_compare_settled host rounds hsettled)
      exact ⟨hgrown.extends, State.sign_leafOrder_eq_zero hsettled.1⟩
    · have hmixed : s.Mixed left right := State.mixed_of_not_settled hlists hsettled
      -- A string and a buffer need a second round, in which one is converted.
      cases rounds with
      | zero => exact absurd hhalts (not_halts_compare_mixed host hmixed)
      | succ rounds =>
        by_cases hbuffer : s.kind left = .buffer ∧ s.kind right = .string
        · obtain ⟨buffer, hl⟩ := State.payload_of_buffer hbuffer.1
          obtain ⟨text, hr⟩ := State.payload_of_string hbuffer.2
          obtain ⟨hfits, rfl, hgrown⟩ := (ends_of_run hrun).mp (ends_compare_string host rounds hl hr)
          refine ⟨(State.extends_withBlock s _).trans hgrown.extends, ?_⟩
          rw [Buffers.sign_order_withBlock ((hleft left .refl).2 buffer hl) hfits]
          simp [State.Coincide, hl, hr]
        · obtain ⟨rfl, hgrown⟩ := (ends_of_run hrun).mp (ends_compare_leaf host rounds ⟨hlists, hbuffer⟩)
          exact ⟨hgrown.extends, State.sign_leafOrder_eq_zero ⟨hlists, hbuffer⟩⟩

-- ---------------------------------------------------------------------------
-- Comparisons of lists
-- ---------------------------------------------------------------------------

theorem compareItems_run (run : Dispatcher) {lefts rights : List Ref}
    (hcompare : ∀ pair ∈ lefts.zip rights, ∀ s n t, s₀.Extends s →
      (run.compare pair.1 pair.2).run s = .ok n t →
        s.Extends t ∧ (n = 0 ↔ s₀.Equal pair.1 pair.2))
    (hextends : s₀.Extends s) (hrun : (Lists.compareItems run lefts rights).run s = .ok n t) :
    s.Extends t ∧ (n = 0 ↔ ∀ pair ∈ lefts.zip rights, s₀.Equal pair.1 pair.2) := by
  induction lefts generalizing rights s with
  | nil =>
    cases hrun
    exact ⟨.refl _, by simp⟩
  | cons left lefts ih =>
    cases rights with
    | nil =>
      cases hrun
      exact ⟨.refl _, by simp⟩
    | cons right rights =>
      have hends : (Lists.compareItems run (left :: lefts) (right :: rights)).Ends s
          (fun m u => m = n ∧ u = t) fun _ => False := (ends_of_run hrun).mpr ⟨rfl, rfl⟩
      rw [Lists.compareItems, ends_bind] at hends
      obtain ⟨m, u, hfirst, hrest⟩ := hends.exists_run
      obtain ⟨hstep, hequal⟩ := hcompare (left, right) List.mem_cons_self s m u hextends hfirst
      by_cases hm : m = 0
      · rw [if_neg (not_not.mpr hm)] at hrest
        obtain ⟨_, _, hothers, rfl, rfl⟩ := hrest.exists_run
        obtain ⟨hthen, hitems⟩ :=
          ih (fun pair hpair => hcompare pair (List.mem_cons_of_mem _ hpair)) (hextends.trans hstep) hothers
        refine ⟨hstep.trans hthen, ?_⟩
        rw [hitems, List.zip_cons_cons, List.forall_mem_cons]
        exact ⟨fun h => ⟨hequal.mp hm, h⟩, fun h => h.2⟩
      · rw [if_pos hm, ends_pure] at hrest
        obtain ⟨rfl, rfl⟩ := hrest
        refine ⟨hstep, fun h => absurd h hm, fun h => ?_⟩
        exact hequal.mpr (h (left, right) List.mem_cons_self)

/-- A comparison that gives an order gives zero exactly for what is equal. -/
theorem compare_run (host : Host) (rounds : Nat) (hleft : s.Readable left) (hright : s.Readable right)
    (hrun : ((machine host rounds).compare left right).run s = .ok n t) :
    s.Extends t ∧ (n = 0 ↔ s.Equal left right) := by
  induction rounds generalizing s left right n t with
  | zero => cases hrun
  | succ rounds ih =>
    by_cases hlists : s.kind left = .list ∧ s.kind right = .list
    · obtain ⟨lefts, hlefts⟩ := State.payload_of_list hlists.1
      obtain ⟨rights, hrights⟩ := State.payload_of_list hlists.2
      rw [State.equal_lists hlefts hrights]
      by_cases hsize : lefts.size = rights.size
      · have hends : ((machine host (rounds + 1)).compare left right).Ends s
            (fun m u => m = n ∧ u = t) fun _ => False := (ends_of_run hrun).mpr ⟨rfl, rfl⟩
        rw [ends_compare_list host rounds hlefts hrights hsize] at hends
        obtain ⟨m, u, hitems, rfl, rfl⟩ := hends.exists_run
        have hcompare : ∀ pair ∈ lefts.toList.zip rights.toList, ∀ s' n t, s.Extends s' →
            ((machine host rounds).compare pair.1 pair.2).run s' = .ok n t →
              s'.Extends t ∧ (n = 0 ↔ s.Equal pair.1 pair.2) := by
          intro pair hpair s' n t hs' hrun
          obtain ⟨hl, hr⟩ := List.of_mem_zip hpair
          have hl := hleft.item hlefts (Array.mem_toList_iff.mp hl)
          have hr := hright.item hrights (Array.mem_toList_iff.mp hr)
          rw [← State.equal_iff (hs'.unchanged hl) (hs'.unchanged hr)]
          exact ih (hs'.readable hl) (hs'.readable hr) hrun
        have hheld := (State.Extends.refl s).withHeld ([left, right] :: s.held)
        obtain ⟨hextends, hequal⟩ := compareItems_run _ hcompare hheld hitems
        refine ⟨((hextends.unheld _).thenMade _).withHeld _, ?_⟩
        rw [Integer.sign_eq_zero, hequal]
        exact ⟨fun h => ⟨hsize, h⟩, fun h => h.2⟩
      · obtain ⟨rfl, hgrown⟩ :=
          (ends_of_run hrun).mp (ends_compare_unequal host rounds hlefts hrights hsize)
        refine ⟨hgrown.extends, ?_⟩
        rw [Integer.ofOrdering_eq_zero, Nat.compare_eq_eq]
        exact ⟨fun h => absurd h hsize, fun h => absurd h.1 hsize⟩
    · rw [State.equal_single hlists]
      exact compare_single_run host (rounds + 1) hleft hlists hrun

end ObjectModel
