import Mathlib.Tactic.IntervalCases
import ObjectModel.Proofs.Laws.Programs
import ObjectModel.Proofs.Laws.Initial
import ObjectModel.Proofs.Memory.Keepers

/-!
# Views are kept until an exchange severs one

Every run is a sequence of a few kinds of moves of the heap and the memory (`Law.evolution`), each with the
event that it leaves on the trail. All of them leave every view of known size kept by a live owner of its
block, but for two: a view of an address that a program made up, and an exchange of payloads that severs a
view from the owner of its block. So whatever a program does, its views are kept up to the first such move,
and throughout if the trail shows neither (`views_kept_until`). An exchange keeps them exactly under the
condition of `State.viewsKept_exchanged`.
-/

namespace ObjectModel

open Relation (ReflTransGen)

namespace State

/-- A move of the heap and the memory, and the event that it is, if any. -/
inductive Moves : Option Event → State → State → Prop
  /-- Anything but payloads, sizes of blocks and the trail changes. -/
  | outside (hheap : t.heap = s.heap)
      (hsizes : ∀ index, (t.memory.block index).size = (s.memory.block index).size)
      (htrail : t.trail = s.trail) : Moves none s t
  | make (s : State) (new : Payload) [new.Blind] : Moves none s (s.made new)
  | block (s : State) {bytes : Bytes} (hfits : s.memory.Fits bytes.length) : Moves none s (s.withBlock bytes)
  | part {s : State} (start size : Nat) (hparent : s.payload parent = .buffer buffer)
      (hview : buffer.view = .sized address length) (hle : start + size ≤ length) :
      Moves none s (s.made (.buffer {
        view := .sized (View.displaced address start) size, anchors := [parent] }))
  | renew {s : State} {new : Payload} (h : (s.payload object).Renews new) :
      Moves none s (s.stored object new)
  | raise (s : State) (error : Ref) : Moves (some (.raised error s.frames)) s (s.raising error)
  | foreign (s : State) (address : Address) (length : Nat) :
      Moves (some .foreign) s (s.withForeign address length)
  | exchange (s : State) (a b : Ref) : Moves (some (.exchanged a b)) s (s.exchanged a b)

/-- The event keeps views: it makes up no address, and exchanges only what severs no view. -/
def Harmless (s : State) : Event → Prop
  | .raised .. => True
  | .foreign => False
  | .exchanged a b => s.Spares a b

/-- A sequence of moves. -/
def Evolves : State → State → Prop := ReflTransGen fun s t => ∃ event?, Moves event? s t

def EvolvesHarmlessly : State → State → Prop :=
  ReflTransGen fun s t => ∃ event?, (∀ event ∈ event?, s.Harmless event) ∧ Moves event? s t

variable {a b s t : State} {event? : Option Event}

theorem Moves.trail_eq (h : Moves event? s t) : t.trail = event?.toList ++ s.trail := by
  cases h with
  | outside _ _ htrail => exact htrail
  | _ => rfl

theorem Moves.evolves (h : Moves event? s t) : Evolves s t := .single ⟨event?, h⟩

theorem Evolves.trail_suffix (h : Evolves s t) : s.trail <:+ t.trail := by
  induction h with
  | refl => exact List.suffix_rfl
  | tail _ hmove ih =>
    obtain ⟨event?, hmove⟩ := hmove
    rw [hmove.trail_eq]
    exact ih.trans (List.suffix_append _ _)

theorem Moves.sound (h : Moves event? s t) (hharmless : ∀ event ∈ event?, s.Harmless event)
    (hs : s.Sound) : t.Sound := by
  cases h with
  | outside hheap hsizes => exact hs.of_agree hheap hsizes
  | make _ new => exact hs.made_blind new
  | block _ hfits => exact hs.withBlock hfits
  | part start size hparent hview hle => exact hs.made_part hparent hview hle
  | renew h => exact hs.stored h
  | raise _ error => exact (hs.made_blind (.list s.frames.toArray)).of_agree rfl fun _ => rfl
  | foreign => exact (hharmless _ rfl).elim
  | exchange a b => exact Spares.sound (hharmless _ rfl)

theorem EvolvesHarmlessly.sound (h : EvolvesHarmlessly s t) (hs : s.Sound) : t.Sound := by
  induction h with
  | refl => exact hs
  | tail _ hmove ih =>
    obtain ⟨event?, hharmless, hmove⟩ := hmove
    exact hmove.sound hharmless ih

/-- A sequence of moves is harmless throughout, or up to the first move that is not, which is on the
trail. -/
theorem Evolves.harmlessly_until (h : Evolves s t) : EvolvesHarmlessly s t ∨
    ∃ u v event, EvolvesHarmlessly s u ∧ Moves (some event) u v ∧ ¬ u.Harmless event ∧ Evolves v t ∧
      event ∈ t.trail := by
  induction h with
  | refl => exact .inl .refl
  | @tail b c _ hmove ih =>
    obtain ⟨event?, hmove⟩ := hmove
    rcases ih with hsafe | ⟨u, v, event, hu, huv, hharm, hv, hmem⟩
    · by_cases hharmless : ∀ event ∈ event?, b.Harmless event
      · exact .inl (hsafe.tail ⟨event?, hharmless, hmove⟩)
      · push Not at hharmless
        obtain ⟨event, rfl, hharm⟩ := hharmless
        exact .inr ⟨b, c, event, hsafe, hmove, hharm, .refl, by simp [hmove.trail_eq]⟩
    · refine .inr ⟨u, v, event, hu, huv, hharm, hv.tail ⟨event?, hmove⟩, ?_⟩
      exact hmove.evolves.trail_suffix.subset hmem

/-- Without views of made-up addresses and without exchanges on the trail, a sequence of moves is harmless. -/
theorem Evolves.harmlessly (h : Evolves s t) (hforeign : .foreign ∉ t.trail)
    (hexchange : ∀ a b, .exchanged a b ∉ t.trail) : EvolvesHarmlessly s t := by
  refine h.harmlessly_until.resolve_right ?_
  rintro ⟨u, v, event, -, -, hharm, -, hmem⟩
  cases event with
  | raised => exact hharm trivial
  | foreign => exact hforeign hmem
  | exchanged a b => exact hexchange a b hmem

theorem Evolves.outside (hheap : t.heap = s.heap)
    (hsizes : ∀ index, (t.memory.block index).size = (s.memory.block index).size)
    (htrail : t.trail = s.trail) : Evolves s t :=
  (Moves.outside hheap hsizes htrail).evolves

/-- What is outside of heap and memory is of no concern to moves. -/
theorem Evolves.within (h : Evolves s t) (hheap : s.heap = a.heap)
    (hsizes : ∀ index, (s.memory.block index).size = (a.memory.block index).size)
    (htrail : s.trail = a.trail) (hheap' : b.heap = t.heap)
    (hsizes' : ∀ index, (b.memory.block index).size = (t.memory.block index).size)
    (htrail' : b.trail = t.trail) : Evolves a b :=
  (Evolves.outside hheap hsizes htrail).trans (h.trans (Evolves.outside hheap' hsizes' htrail'))

theorem evolves_faulting (s : State) (fault : Fault) : Evolves s (s.faulting fault) :=
  (Moves.make s (.string fault.message)).evolves.trans (Moves.raise _ _).evolves

theorem evolves_unscoped (s : State) : Evolves s s.unscoped := by
  unfold State.unscoped
  split
  · exact .outside rfl (fun _ => rfl) rfl
  · exact .refl

end State

open State

/-- Runs move the heap and the memory. -/
def Law.evolution : Law where
  holds _ s t := s.Evolves t
  refl _ := .refl
  trans h h' := h.trans h'
  agree h hagree := h.trans (Evolves.outside hagree.heap hagree.sizes hagree.trail)
  raise s error := (Moves.raise s error).evolves
  recover h := Evolves.within h rfl (fun _ => rfl) rfl rfl (fun _ => rfl) rfl
  make s payload _ := (Moves.make s payload).evolves
  block s _ hfits := (Moves.block s hfits).evolves
  part start size hparent hview hle := (Moves.part start size hparent hview hle).evolves
  foreign s address length := (Moves.foreign s address length).evolves
  renew h := (Moves.renew h).evolves
  exchange s a b := (Moves.exchange s a b).evolves
  note _ _ := Evolves.outside rfl (fun _ => rfl) rfl
  unseen _ h := Evolves.within h rfl (fun _ => rfl) rfl rfl (fun _ => rfl) rfl
  unframe h _ := Evolves.within h rfl (fun _ => rfl) rfl rfl (fun _ => rfl) rfl
  imbalance {_ s t _} h _ := by
    have hback : s.Evolves { t with frames := t.frames.tail } :=
      Evolves.within h rfl (fun _ => rfl) rfl rfl (fun _ => rfl) rfl
    exact hback.trans (evolves_faulting _ _)
  undelegate h := Evolves.within h rfl (fun _ => rfl) rfl rfl (fun _ => rfl) rfl
  unscope {_ s t _} h := by
    have hback : s.Evolves t := Evolves.within h rfl (fun _ => rfl) rfl rfl (fun _ => rfl) rfl
    exact hback.trans (evolves_unscoped t)

-- ---------------------------------------------------------------------------
-- What programs reach
-- ---------------------------------------------------------------------------

/-- The states that operations, calls and builtin functions lead to, one after the other, while the
surroundings may change what is held and called, and bytes of memory, but no object. -/
inductive Host.Reaches (host : Host) (s : State) : State → Prop
  | start : Reaches host s s
  | dispatch (h : Reaches host s t) (rounds : Nat) (operation : Operation) (args : List Ref)
      (hrun : ((machine host rounds).dispatch operation args).ending? t = some (e, u)) :
      Reaches host s u
  | call (h : Reaches host s t) (rounds : Nat) (callee : Ref) (args : List Ref)
      (hrun : ((machine host rounds).call callee args).ending? t = some (e, u)) : Reaches host s u
  | builtin (h : Reaches host s t) (rounds : Nat) (function : Builtin) (args : List Ref)
      (hrun : (function.body (machine host rounds) args).ending? t = some (e, u)) : Reaches host s u
  | outside (h : Reaches host s t) (hheap : u.heap = t.heap)
      (hsizes : ∀ index, (u.memory.block index).size = (t.memory.block index).size)
      (htrail : u.trail = t.trail) : Reaches host s u

theorem Host.Reaches.evolves {host : Host} [Host.Obeys .evolution host] (h : host.Reaches s t) :
    s.Evolves t := by
  induction h with
  | start => exact .refl
  | dispatch _ rounds operation args hrun ih =>
    have hlaw : Law.evolution.holds _ _ _ := Action.Obeys.holds hrun
    exact ih.trans hlaw
  | call _ rounds callee args hrun ih =>
    have hlaw : Law.evolution.holds _ _ _ := Action.Obeys.holds hrun
    exact ih.trans hlaw
  | builtin _ rounds function args hrun ih =>
    have hlaw : Law.evolution.holds _ _ _ := Action.Obeys.holds hrun
    exact ih.trans hlaw
  | outside _ hheap hsizes htrail ih => exact ih.trans (Evolves.outside hheap hsizes htrail)

theorem State.initial_sound (limits : Limits) (sink : Sink) (files : FileStore) :
    (initial limits sink files).Sound :=
  fun object => backedVia_of_kind (initial_kind limits sink files object)

/-- Whatever the kind of the first object, an exchange does nothing else. -/
theorem run_swap (host : Host) (rounds : Nat) (a b : Ref) (s : State) :
    ((machine host (rounds + 1)).dispatch .swap [a, b]).run s =
      .ok s.nothing (s.exchanged a b) := by
  unfold Dispatcher.dispatch
  rw [EStateM.run_bind]
  dsimp only
  rw [Action.run_kind]
  show (behave host (rounds + 1) (s.kind a) .swap [a, b]).run s = _
  have hhandler : (s.kind a).handler .swap = some Behavior.Shared.swap := by
    cases s.kind a <;> rfl
  unfold behave
  rw [hhandler]
  rfl

/-- Whatever live objects look at lies in blocks of live owners that they keep, as long as no address
is made up and no exchange severs a view; a program that loses a view has made such a move before, in a
state in which none was lost, and the move is on its trail. So a program of which the trail shows no address
made up and no exchange has all its views. After an exchange all is kept exactly if every object that is then
live reaches its block by way of the anchors as they then are. -/
theorem views_kept_until (host : Host) [Host.Obeys .evolution host] (limits : Limits) (sink : Sink)
    (files : FileStore) :
    (∀ t, (initial limits sink files).EvolvesHarmlessly t → t.ViewsKept) ∧
    (∀ t, host.Reaches (initial limits sink files) t → (initial limits sink files).EvolvesHarmlessly t ∨
      ∃ u v event, (initial limits sink files).EvolvesHarmlessly u ∧ Moves (some event) u v ∧
        ¬ u.Harmless event ∧ v.Evolves t ∧ event ∈ t.trail) ∧
    (∀ t, host.Reaches (initial limits sink files) t → .foreign ∉ t.trail →
      (∀ a b, .exchanged a b ∉ t.trail) → t.ViewsKept) ∧
    ∀ (rounds : Nat) (u : State) (a b : Ref), u.heap.Contains a → u.heap.Contains b →
      ∃ v, ((machine host (rounds + 1)).dispatch .swap [a, b]).run u = .ok u.nothing v ∧
        (v.ViewsKept ↔
          ∀ object, ¬ v.Released (Equiv.swap a b object) → u.BackedVia (Equiv.swap a b) object) := by
  have hkept {t : State} (hsafe : (initial limits sink files).EvolvesHarmlessly t) : t.ViewsKept :=
    (hsafe.sound (initial_sound limits sink files)).viewsKept
  refine ⟨fun t hsafe => hkept hsafe, fun t hreach => hreach.evolves.harmlessly_until,
    fun t hreach hforeign hexchange => hkept (hreach.evolves.harmlessly hforeign hexchange),
    fun rounds u a b ha hb => ?_⟩
  exact ⟨u.exchanged a b, run_swap host rounds a b u, viewsKept_exchanged ha hb⟩

/-- A program that holds a view of the last six of eight bytes, and nothing else of them. -/
def State.withPart : State :=
  { Globals.bare {} .discard {} with
    heap := ⟨#[.singlet "None", .map [], .map [], .string "ABCDEFGH", .int 2, .int 5,
      .buffer { view := .sized (Memory.base 0) 8, ownership := .owned },
      .buffer { view := .sized (View.displaced (Memory.base 0) 2) 6, anchors := [⟨6⟩] }]⟩
    memory := (Memory.empty.allocate (Bytes.ofText "ABCDEFGH")).2
    hostHeld := [⟨7⟩] }

theorem State.withPart_backed {via : Ref → Ref} (hvia : via ⟨6⟩ = ⟨6⟩) (object : Ref) :
    withPart.BackedVia via object := by
  have howner : withPart.OwnsBlock ⟨6⟩ 0 := ⟨rfl, rfl⟩
  by_cases hkind : withPart.kind object = .buffer
  case neg => exact backedVia_of_kind hkind
  have hin : object.index < 8 := contains_of_kind hkind
  obtain ⟨index⟩ := object
  dsimp only at hin
  interval_cases index
  case «6» =>
    rintro _ _ ⟨⟩ -
    exact ⟨⟨6⟩, 0, .refl, howner, 0, (View.displaced_zero _).symm, by decide⟩
  case «7» =>
    rintro _ _ ⟨⟩ -
    exact ⟨⟨6⟩, 0, .single ⟨⟨6⟩, List.mem_singleton.mpr rfl, hvia⟩, howner, 2, rfl, by decide⟩
  all_goals cases hkind

theorem State.withPart_severed : ¬ withPart.BackedVia (Equiv.swap ⟨6⟩ ⟨5⟩) ⟨7⟩ := by
  intro h
  obtain ⟨keeper, index, hpath, howner, -⟩ := h _ 6 rfl (by decide)
  rcases hpath.cases_head with rfl | ⟨next, ⟨anchor, hanchor, rfl⟩, hrest⟩
  · cases howner.owns
  · obtain rfl := List.mem_singleton.mp hanchor
    rcases hrest.cases_head with rfl | ⟨_, ⟨_, hnone, -⟩, -⟩
    · cases howner.owns
    · cases hnone

theorem State.live_of_hostHeld {s : State} (h : object ∈ s.hostHeld) : ¬ s.Released object := by
  rintro ⟨hroot, -⟩
  exact hroot (by simp [roots, h])

/-- Where a lane is left, a program can make a buffer of the name of a kind and hold it, which leaves nothing
on the trail. -/
theorem Host.reaches_name (host : Host) {s : State} (hlane : s.memory.blocks.size < Memory.lanes) :
    ∃ t object address length, host.Reaches s t ∧ t.trail = s.trail ∧ ¬ t.Released object ∧
      (t.payload object).window? = some (address, length) ∧ length ≠ 0 := by
  let name := Bytes.ofText (s.kind s.nothing).name
  have hname : name ≠ [] ∧ name.length ≤ Memory.lane := by
    show Bytes.ofText (s.kind s.nothing).name ≠ [] ∧ (Bytes.ofText _).length ≤ Memory.lane
    cases s.kind s.nothing <;> decide
  have hrun : (Prelude.kindOf (machine host 1) []).run s = .ok s.heap.next (s.withBlock name) := by
    have hcreate := Action.run_createBuffer name s
    rwa [if_pos ⟨hname.2, fun _ => hlane⟩] at hcreate
  have hmade : host.Reaches s (s.withBlock name) :=
    Reaches.start.builtin 1 .kindOf [] (Action.ending?_ok hrun)
  let t : State := { s.withBlock name with hostHeld := [s.heap.next] }
  have hwindow : (t.payload s.heap.next).window? = some ((s.memory.allocate name).1, name.length) :=
    congrArg Payload.window? (Action.payload_made_next s (.buffer {
      view := .sized (s.memory.allocate name).1 name.length, ownership := .owned }))
  exact ⟨t, s.heap.next, _, _, hmade.outside rfl (fun _ => rfl) rfl, rfl,
    live_of_hostHeld List.mem_cons_self, hwindow, by simpa using hname.1⟩

/-- A new buffer of a name keeps its bytes, and so does a view of a part when two ints are exchanged; but the
part loses them when the owner of the bytes is exchanged for an int. -/
theorem views_kept_part :
    (∃ t object address length, Host.steady.Reaches (initial {} .discard {}) t ∧ t.ViewsKept ∧
      ¬ t.Released object ∧ (t.payload object).window? = some (address, length) ∧ length ≠ 0) ∧
    (∃ v, ((machine .steady 1).dispatch .swap [⟨4⟩, ⟨5⟩]).run .withPart = .ok ⟨0⟩ v ∧ v.ViewsKept ∧
      ¬ v.Released ⟨7⟩ ∧ (v.payload ⟨7⟩).window? = some (View.displaced (Memory.base 0) 2, 6)) ∧
    ∃ v, ((machine .steady 1).dispatch .swap [⟨6⟩, ⟨5⟩]).run .withPart = .ok ⟨0⟩ v ∧ ¬ v.ViewsKept := by
  obtain ⟨-, -, hclean, hswap⟩ := views_kept_until .steady {} .discard {}
  refine ⟨?_, ?_, ?_⟩
  · obtain ⟨t, object, address, length, hreach, htrail, hlive, hwindow, hlength⟩ :=
      Host.steady.reaches_name (s := initial {} .discard {}) (by rw [initial_memory]; decide)
    rw [initial_trail] at htrail
    exact ⟨t, object, address, length, hreach, hclean t hreach (by simp [htrail]) (by simp [htrail]), hlive,
      hwindow, hlength⟩
  · obtain ⟨v, hrun, hkept⟩ := hswap 0 .withPart ⟨4⟩ ⟨5⟩ (show 4 < 8 by decide) (show 5 < 8 by decide)
    obtain ⟨-, rfl⟩ := EStateM.Result.ok.inj ((run_swap .steady 0 ⟨4⟩ ⟨5⟩ withPart).symm.trans hrun)
    exact ⟨_, hrun, hkept.mpr fun object _ => withPart_backed rfl object, live_of_hostHeld (by decide), rfl⟩
  · obtain ⟨v, hrun, hkept⟩ := hswap 0 .withPart ⟨6⟩ ⟨5⟩ (show 6 < 8 by decide) (show 5 < 8 by decide)
    refine ⟨v, hrun, fun h => withPart_severed (hkept.mp h ⟨7⟩ ?_)⟩
    obtain ⟨-, rfl⟩ := EStateM.Result.ok.inj ((run_swap .steady 0 ⟨6⟩ ⟨5⟩ withPart).symm.trans hrun)
    exact live_of_hostHeld (by decide)

end ObjectModel
