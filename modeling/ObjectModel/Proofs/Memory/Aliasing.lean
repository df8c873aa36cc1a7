import ObjectModel.Behavior.Streams
import ObjectModel.Proofs.Memory.Evolution
import ObjectModel.Proofs.Memory.Parts

/-!
# Which buffers share bytes

A write changes what a view of live memory reads only where the two meet in a block
(`View.meets_of_affected`). An index with an int looks at the bytes of the buffer itself, while what is
joined, repeated, cut out, made of a text or read from a stream is a copy in a block of its own, apart
from all that was live before (`Fresh`). So buffers alias where one was cut out of the other, and nowhere
else (`aliasing`).
-/

namespace ObjectModel

open Memory
open Relation (ReflTransGen)

-- ---------------------------------------------------------------------------
-- Writes that meet a view
-- ---------------------------------------------------------------------------

namespace Memory

variable {memory before after : Memory} {address start : Address} {length size : Nat}

theorem Apart.symm (h : Apart address length start size) : Apart start size address length := Or.symm h

theorem Live.same_block (h : memory.Live address length) (h' : memory.Live start size)
    (hmeet : ¬ Apart address length start size) : ∃ index place place',
      memory.locate? address = some (index, place) ∧ memory.locate? start = some (index, place') := by
  obtain ⟨index, place, hfound, -, hlane⟩ := h
  obtain ⟨index', place', hfound', -, hlane'⟩ := h'
  obtain ⟨haddress, -⟩ := locate?_eq_some_iff.mp hfound
  obtain ⟨hstart, -⟩ := locate?_eq_some_iff.mp hfound'
  have hsame : index' = index := by
    unfold Apart at hmeet
    simp only [lane_eq, firstLane_eq] at *
    omega
  exact ⟨index, place, place', hfound, hsame ▸ hfound'⟩

theorem Live.of_sizes (h : before.Live address length) (hlength : length ≠ 0)
    (hsizes : ∀ index, (before.block index).size ≠ 0 →
      (after.block index).size = (before.block index).size) : after.Live address length := by
  obtain ⟨index, place, hfound, hsize, hlane⟩ := h
  obtain ⟨haddress, hplace, -⟩ := locate?_eq_some_iff.mp hfound
  have hkept := hsizes index (by omega)
  have hindex : index < after.blocks.size := lt_of_size_ne_zero (by omega)
  exact ⟨index, place, locate?_eq_some_iff.mpr ⟨haddress, hplace, hindex⟩, by omega, hlane⟩

/-- A new block lies beyond all that was live. -/
theorem apart_allocate (hfits : memory.Fits bytes.length) (hlive : memory.Live start size) :
    Apart (memory.allocate bytes).1 bytes.length start size := by
  obtain ⟨index, place, hfound, -, hlane⟩ := hlive
  obtain ⟨hstart, -, hindex⟩ := locate?_eq_some_iff.mp hfound
  by_cases hempty : bytes = []
  · subst hempty
    refine .inl ?_
    show 1 + 0 ≤ start.toNat
    simp only [lane_eq, firstLane_eq] at hstart
    omega
  · rw [allocate_of_fits hfits hempty]
    refine .inr ?_
    rw [toNat_base (hfits.count_lt hempty), hstart]
    simp only [lane_eq, firstLane_eq] at *
    omega

theorem live_allocate (hfits : memory.Fits bytes.length) (hbytes : bytes.length ≠ 0) :
    (memory.allocate bytes).2.Live (memory.allocate bytes).1 bytes.length := by
  have hne : bytes ≠ [] := fun hnil => hbytes (congrArg List.length hnil)
  rw [allocate_of_fits hfits hne]
  have hfound : (memory.push bytes hfits hne).locate? (View.displaced (base memory.blocks.size) (0 : Nat)) =
      some (memory.blocks.size, 0) := locate?_displaced (by simp [push]) (by decide)
  rw [View.displaced_zero] at hfound
  refine ⟨memory.blocks.size, 0, hfound, ?_, by simpa using hfits.1⟩
  rw [block_push_new, List.size_toByteArray, Nat.zero_add]

end Memory

namespace View

variable {view reader writer : View} {memory after : Memory} {address start : Address}
  {length size : Nat} {format : Format} {scalar : Scalar} {offset : Int}

structure Unaffected (view : View) (memory after : Memory) : Prop where
  get : ∀ format offset, view.get? after format offset = view.get? memory format offset
  bytes : view.bytes? after = view.bytes? memory

/-- No write through the one view is seen through the other. -/
def Separate (memory : Memory) (writer reader : View) : Prop :=
  ∀ format offset scalar after, writer.set? memory format offset scalar = some after →
    reader.Unaffected memory after

theorem eq_write_of_set? (h : view.set? memory format offset scalar = some after) :
    ∃ bytes, 0 < bytes.length ∧ bytes.length = roomNeeded format scalar ∧
      after = memory.write (displaced view.address offset) bytes := by
  cases view with
  | sized address length =>
    obtain ⟨place, bytes, rfl, hpos, hlength, -, rfl⟩ := exists_write_region h
    exact ⟨bytes, hpos, hlength, rfl⟩
  | unsized address =>
    simp only [set?] at h
    split at h
    case isTrue => cases h
    case isFalse =>
      obtain ⟨bytes, hencoding, rfl⟩ := Option.map_eq_some_iff.mp h
      exact ⟨bytes, roomNeeded_pos_of_encoding hencoding, length_encoding hencoding, rfl⟩

theorem byte?_set? (h : writer.set? memory format offset scalar = some after)
    (hwritten : memory.Live (displaced writer.address offset) (roomNeeded format scalar))
    {place : Address}
    (hplace : Apart place 1 (displaced writer.address offset) (roomNeeded format scalar)) :
    after.byte? place = memory.byte? place := by
  obtain ⟨bytes, -, hlength, rfl⟩ := eq_write_of_set? h
  obtain ⟨index, spot, hfound, hsize, -⟩ := hwritten
  rw [← hlength] at hplace hsize
  exact byte?_write hfound hsize hplace

/-- A view of live memory is known by the bytes it looks at. -/
theorem unaffected_of_bytes (hlive : length ≠ 0 → memory.Live address length)
    (hbytes : ∀ place, ¬ Apart place 1 address length → after.byte? place = memory.byte? place) :
    (sized address length).Unaffected memory after := by
  refine ⟨fun format offset => get?_region_congr hlive hbytes, ?_⟩
  simp only [bytes?, bytesAt]
  split
  case isTrue => rfl
  case isFalse hsome =>
    obtain ⟨hlength, -⟩ := not_or.mp hsome
    rw [((hlive hlength).congr (Nat.pos_of_ne_zero hlength) hbytes).2]

theorem ne_zero_of_affected (h : ¬ (sized address length).Unaffected memory after) : length ≠ 0 := by
  rintro rfl
  refine h (unaffected_of_bytes (fun hne => absurd rfl hne) fun place hplace => absurd ?_ hplace)
  unfold Apart
  omega

/-- The ranges have bytes in common, and lie in one block. -/
def Meets (memory : Memory) (address : Address) (length : Nat) (start : Address) (size : Nat) : Prop :=
  ¬ Apart address length start size ∧ ∃ index place place',
    memory.locate? address = some (index, place) ∧ memory.locate? start = some (index, place')

theorem meets_of_affected (h : writer.set? memory format offset scalar = some after)
    (hwritten : memory.Live (displaced writer.address offset) (roomNeeded format scalar))
    (hlive : length ≠ 0 → memory.Live address length)
    (haffected : ¬ (sized address length).Unaffected memory after) :
    Meets memory (displaced writer.address offset) (roomNeeded format scalar) address length := by
  have hmeet : ¬ Apart (displaced writer.address offset) (roomNeeded format scalar) address length := by
    intro hapart
    refine haffected (unaffected_of_bytes hlive fun place hplace => byte?_set? h hwritten ?_)
    unfold Apart at *
    omega
  exact ⟨hmeet, hwritten.same_block (hlive (ne_zero_of_affected haffected)) hmeet⟩

theorem written_live (h : (sized start size).set? memory format offset scalar = some after)
    (hlive : size ≠ 0 → memory.Live start size) :
    memory.Live start size ∧ memory.Live (displaced start offset) (roomNeeded format scalar) ∧
      start.toNat ≤ (displaced start offset).toNat ∧
      (displaced start offset).toNat + roomNeeded format scalar ≤ start.toNat + size := by
  obtain ⟨place, bytes, rfl, hpos, hlength, hfits, rfl⟩ := exists_write_region h
  have hstart := hlive (by omega)
  have hplace : (displaced start place).toNat = start.toNat + place := hstart.toNat_displaced (by omega)
  rw [← hlength]
  exact ⟨hstart, hstart.part (by omega) hfits, by omega, by omega⟩

/-- A write through a view of live memory that is seen through another one is a write where the two
views meet. -/
theorem meets_of_affected_sized (h : (sized start size).set? memory format offset scalar = some after)
    (hwriter : size ≠ 0 → memory.Live start size) (hreader : length ≠ 0 → memory.Live address length)
    (haffected : ¬ (sized address length).Unaffected memory after) :
    Meets memory start size address length := by
  obtain ⟨hlive, hwritten, hlow, hhigh⟩ := written_live h hwriter
  have hwrite : ¬ Apart (displaced start offset) (roomNeeded format scalar) address length :=
    (meets_of_affected h hwritten hreader haffected).1
  have hmeet : ¬ Apart start size address length := by
    unfold Apart at *
    omega
  exact ⟨hmeet, hlive.same_block (hreader (ne_zero_of_affected haffected)) hmeet⟩

theorem separate_of_apart (hwriter : size ≠ 0 → memory.Live start size)
    (hreader : length ≠ 0 → memory.Live address length) (hapart : Apart start size address length) :
    Separate memory (sized start size) (sized address length) := by
  intro format offset scalar after hset
  by_contra haffected
  exact (meets_of_affected_sized hset hwriter hreader haffected).1 hapart

end View

-- ---------------------------------------------------------------------------
-- Memory of runs
-- ---------------------------------------------------------------------------

def Memory.Grows (before after : Memory) : Prop :=
  ∀ index, (before.block index).size ≠ 0 → (after.block index).size = (before.block index).size

namespace Memory.Grows

variable {first second third : Memory}

theorem refl (memory : Memory) : memory.Grows memory := fun _ _ => rfl

theorem trans (h : first.Grows second) (h' : second.Grows third) : first.Grows third := by
  intro index hsize
  have hkept := h index hsize
  rw [h' index (by omega), hkept]

theorem of_sizes (h : ∀ index, (second.block index).size = (first.block index).size) :
    first.Grows second := fun index _ => h index

theorem allocate (memory : Memory) (bytes : Bytes) : memory.Grows (memory.allocate bytes).2 :=
  fun _ hsize => congrArg ByteArray.size (block_allocate_old bytes (lt_of_size_ne_zero hsize))

end Memory.Grows

/-- Runs keep the sizes of blocks. -/
def Law.growth : Law where
  holds _ s t := s.memory.Grows t.memory
  refl s := .refl s.memory
  trans h h' := h.trans h'
  agree h hagree := h.trans (.of_sizes hagree.sizes)
  raise s _ := .refl s.memory
  recover h := h
  make s _ _ := .refl s.memory
  block s bytes _ := .allocate s.memory bytes
  part _ _ _ _ _ := .refl _
  foreign s _ _ := .refl s.memory
  renew _ := .refl _
  exchange s _ _ := .refl s.memory
  note _ _ := .refl _
  unseen _ h := h
  unframe h _ := h
  imbalance h _ := h
  undelegate h := h
  unscope {_ s t _} h := by
    have hmemory : t.unscoped.memory = t.memory := by unfold State.unscoped; split <;> rfl
    rw [hmemory]
    exact h

theorem Host.Reaches.grows {host : Host} [Host.Obeys .growth host] (h : host.Reaches s t) :
    s.memory.Grows t.memory := by
  induction h with
  | start => exact .refl s.memory
  | dispatch _ rounds operation args hrun ih =>
    have hlaw : Law.growth.holds _ _ _ := Action.Obeys.holds hrun
    exact ih.trans hlaw
  | call _ rounds callee args hrun ih =>
    have hlaw : Law.growth.holds _ _ _ := Action.Obeys.holds hrun
    exact ih.trans hlaw
  | builtin _ rounds function args hrun ih =>
    have hlaw : Law.growth.holds _ _ _ := Action.Obeys.holds hrun
    exact ih.trans hlaw
  | outside _ _ hsizes _ ih => exact ih.trans (.of_sizes hsizes)

namespace State

variable {s t u : State}

theorem Inside.live (h : s.Inside address length index) (hlength : length ≠ 0) :
    s.memory.Live address length := by
  have hindex := lt_of_size_ne_zero (h.size_ne_zero hlength)
  have hlane := size_block_le s.memory index
  obtain ⟨offset, rfl, hle⟩ := h
  exact ⟨index, offset, locate?_displaced hindex (by omega), hle, by omega⟩

/-- Objects go on looking at what they looked at, which keeps its size. -/
structure Retains (s t : State) : Prop where
  windows : ∀ {object window}, (s.payload object).window? = some window →
    (t.payload object).window? = some window
  sizes : ∀ index, (s.memory.block index).size ≠ 0 →
    (t.memory.block index).size = (s.memory.block index).size

theorem Carries.retains (h : s.Carries t) : s.Retains t := by
  refine ⟨fun {object window} hwindow => ?_, h.sizes⟩
  rw [(h.renews object (Payload.kind_of_window hwindow)).window, hwindow]

theorem Retains.trans (h : s.Retains t) (h' : t.Retains u) : s.Retains u := by
  refine ⟨fun hwindow => h'.windows (h.windows hwindow), fun index hsize => ?_⟩
  have hkept := h.sizes index hsize
  rw [h'.sizes index (by omega), hkept]

end State

/-- The move leaves payloads with their objects. -/
def Event.InPlace : Event → Prop
  | .exchanged .. => False
  | .raised .. | .foreign => True

namespace State

variable {s t u : State}

def EvolvesInPlace : State → State → Prop :=
  ReflTransGen fun s t => ∃ event?, (∀ event ∈ event?, Event.InPlace event) ∧ Moves event? s t

theorem Moves.retains {event? : Option Event} (h : Moves event? s t)
    (hplace : ∀ event ∈ event?, event.InPlace) : s.Retains t := by
  cases h with
  | outside hheap hsizes _ =>
    refine ⟨fun hwindow => ?_, fun index _ => hsizes index⟩
    unfold payload
    rwa [hheap]
  | make _ new => exact (carries_made s new).retains
  | block => exact (carries_withBlock s _).retains
  | part start size hparent hview hle => exact (carries_made s _).retains
  | renew h => exact Carries.retains ⟨fun other _ => renews_stored h other, fun _ _ => rfl⟩
  | raise _ error =>
    exact ⟨(carries_made s (.list s.frames.toArray)).retains.windows, fun _ _ => rfl⟩
  | foreign _ address length =>
    exact ⟨(carries_made s (.buffer { view := .sized address length })).retains.windows, fun _ _ => rfl⟩
  | exchange => exact (hplace _ rfl).elim

theorem EvolvesInPlace.retains (h : EvolvesInPlace s t) : s.Retains t := by
  induction h with
  | refl => exact ⟨id, fun _ _ => rfl⟩
  | tail _ hmove ih =>
    obtain ⟨event?, hplace, hmove⟩ := hmove
    exact ih.trans (hmove.retains hplace)

end State

-- ---------------------------------------------------------------------------
-- Copies
-- ---------------------------------------------------------------------------

/-- A buffer was made last, of a copy of bytes. -/
def State.Copied (s : State) (result : Ref) (t : State) : Prop :=
  ∃ (before : State) (bytes : Bytes), s.memory.Grows before.memory ∧ before.memory.Fits bytes.length ∧
    result = before.heap.next ∧ t = before.withBlock bytes

class Action.Copies (action : Action Ref) : Prop where
  copied : ∀ {s result t}, action.run s = .ok result t → s.Copied result t

namespace Action

instance copies_bind (x : Action α) (f : α → Action Ref) [Obeys .growth x] [hf : ∀ a, Copies (f a)] :
    Copies (x >>= f) := by
  refine ⟨fun {s result u} h => ?_⟩
  obtain ⟨a, t, hx, hrun⟩ := exists_run_of_bind h
  have hgrown : Law.growth.holds .value s t := Obeys.ok hx
  obtain ⟨before, bytes, hbefore, hcopy⟩ := (hf a).copied hrun
  exact ⟨before, bytes, hgrown.trans hbefore, hcopy⟩

instance copies_createBuffer (bytes : Bytes) : Copies (createBuffer bytes) := by
  refine ⟨fun {s result t} h => ?_⟩
  rw [run_createBuffer] at h
  split at h
  · rename_i hfits
    cases h
    exact ⟨s, bytes, .refl s.memory, hfits, rfl, rfl⟩
  · cases h

instance growth_store (object : Ref) (payload : Payload) : Obeys .growth (store object payload) :=
  .of_step (fun s => ((), s.stored object payload)) (fun _ => rfl) fun s => .refl s.memory

end Action

namespace Behavior

open ObjectModel.Action

variable {machine : Machine} [hd : Dispatcher.Obeys .growth machine.toDispatcher] {args : List Ref}

/-- The behaviors and builtin functions that answer with a copy of bytes. -/
inductive Copying : Handler → Prop
  | add : Copying Buffers.add
  | mul : Copying Buffers.mul
  | sub : Copying Buffers.sub
  | ofText : Copying Buffers.ofText
  | toBuffer : Copying Strings.toBuffer
  | read : Copying Streams.read

include hd

theorem Streams.copied_read (h : (Streams.read machine args).run s = .ok result t) :
    result = t.nothing ∨ s.Copied result t := by
  unfold Streams.read at h
  obtain ⟨object, first, hobject, h⟩ := exists_run_of_bind h
  obtain ⟨request, second, hrequest, h⟩ := exists_run_of_bind h
  obtain ⟨amount, third, hamount, h⟩ := exists_run_of_bind h
  split at h
  · cases h
    exact .inl rfl
  · obtain ⟨before, bytes, hgrown, hcopy⟩ := Copies.copied h
    have hfirst : Law.growth.holds .value s first := Obeys.ok hobject
    have hsecond : Law.growth.holds .value first second := Obeys.ok hrequest
    have hthird : Law.growth.holds .value second third := Obeys.ok hamount
    exact .inr ⟨before, bytes, hfirst.trans (hsecond.trans (hthird.trans hgrown)), hcopy⟩

theorem Copying.copied (h : Copying handler) (hrun : (handler machine args).run s = .ok result t) :
    (handler = Streams.read ∧ result = t.nothing) ∨ s.Copied result t := by
  have hcopies : Copies (Buffers.add machine args) ∧ Copies (Buffers.mul machine args) ∧
      Copies (Buffers.sub machine args) ∧ Copies (Buffers.ofText machine args) ∧
      Copies (Strings.toBuffer machine args) := by
    unfold Buffers.add Buffers.mul Buffers.sub Buffers.ofText Strings.toBuffer
    exact ⟨inferInstance, inferInstance, inferInstance, inferInstance, inferInstance⟩
  obtain ⟨hadd, hmul, hsub, hofText, htoBuffer⟩ := hcopies
  cases h with
  | read => exact (Streams.copied_read hrun).imp_left fun hnothing => ⟨rfl, hnothing⟩
  | _ => exact .inr (Copies.copied hrun)

end Behavior

-- ---------------------------------------------------------------------------
-- What aliases
-- ---------------------------------------------------------------------------

/-- The object looks at a block of its own, and at nothing that was live before: no write through it is
seen where something else was live, nor the other way around, as long as payloads stay in place. -/
def State.Alone (before t : State) (object : Ref) : Prop :=
  (∀ other, other ≠ object → t.payload other = before.payload other) ∧
  ∀ u, t.EvolvesInPlace u → ∃ address length,
    (u.payload object).window? = some (address, length) ∧
    ∀ start size, before.memory.Live start size → size ≠ 0 →
      View.Separate u.memory (.sized address length) (.sized start size) ∧
      View.Separate u.memory (.sized start size) (.sized address length)

theorem State.alone_withBlock {before : State} {bytes : Bytes} (hfits : before.memory.Fits bytes.length) :
    before.Alone (before.withBlock bytes) before.heap.next := by
  have hwindow : ((before.withBlock bytes).payload before.heap.next).window? =
      some ((before.memory.allocate bytes).1, bytes.length) := by
    rw [payload_withBlock, Action.payload_made_next]
    rfl
  have hgrown : before.memory.Grows (before.withBlock bytes).memory := .allocate before.memory bytes
  refine ⟨fun other hother => ?_, fun u hevolves => ?_⟩
  · rw [payload_withBlock, Action.payload_made_other hother]
  · have hretains := hevolves.retains
    refine ⟨_, _, hretains.windows hwindow, fun start size hlive hne => ?_⟩
    have hnew : bytes.length ≠ 0 → u.memory.Live (before.memory.allocate bytes).1 bytes.length :=
      fun hbytes => (live_allocate hfits hbytes).of_sizes hbytes hretains.sizes
    have hold : size ≠ 0 → u.memory.Live start size :=
      fun _ => (hlive.of_sizes hne hgrown).of_sizes hne hretains.sizes
    have hapart := apart_allocate hfits hlive
    exact ⟨View.separate_of_apart hnew hold hapart, View.separate_of_apart hold hnew hapart.symm⟩

/-- All views are of live memory as long as each move keeps views. -/
theorem State.live_of_evolves {limits : Limits} {sink : Sink} {files : FileStore}
    (hsafe : (initial limits sink files).EvolvesHarmlessly t)
    (hwindow : (t.payload object).window? = some (address, length)) (hlength : length ≠ 0) :
    t.memory.Live address length := by
  obtain ⟨keeper, index, -, -, hinside⟩ :=
    hsafe.sound (initial_sound limits sink files) object address length hwindow hlength
  exact hinside.live hlength

/-- An index with an int makes a buffer that answers as the one indexed does further on, or gives no
value where the place is not in it. A write is seen through a buffer of live memory only where the two
meet in a block; all views are of live memory as long as no address is made up and no exchange severs
one. What is joined, repeated, cut out, made of a text or read is a buffer that shares no byte with its
operands, nor with anything else that was live when it was made. -/
theorem aliasing (host : Host) [Host.Obeys .evolution host] [Host.Obeys .growth host] (limits : Limits)
    (sink : Sink) (files : FileStore) :
    (∀ (s : State) parent key buffer address length (k : Int64) rounds,
      s.payload parent = .buffer buffer → buffer.view = .sized address length →
      s.payload key = .int k →
      (k.toInt < 0 ∨ length < k.toInt →
        ((machine host (rounds + 1)).dispatch .index [parent, key]).run s = .ok s.nothing s) ∧
      (0 ≤ k.toInt ∧ k.toInt ≤ length → ∃ part,
        ((machine host (rounds + 1)).dispatch .index [parent, key]).run s =
          .ok s.heap.next (s.made (.buffer { view := part, anchors := [parent] })) ∧
        ∀ memory : Memory, (length ≠ 0 → memory.Live address length) →
          (View.sized address length).IsRest part k.toInt memory)) ∧
    (∀ (memory : Memory) start size address length format offset scalar after,
      (size ≠ 0 → memory.Live start size) → (length ≠ 0 → memory.Live address length) →
      (View.sized start size).set? memory format offset scalar = some after →
      ¬ (View.sized address length).Unaffected memory after →
      View.Meets memory start size address length) ∧
    (∀ (memory : Memory) start address length format offset scalar after,
      memory.Live (View.displaced start offset) (View.roomNeeded format scalar) →
      (length ≠ 0 → memory.Live address length) →
      (View.unsized start).set? memory format offset scalar = some after →
      ¬ (View.sized address length).Unaffected memory after →
      View.Meets memory (View.displaced start offset) (View.roomNeeded format scalar) address length) ∧
    (∀ t, host.Reaches (State.initial limits sink files) t → .foreign ∉ t.trail →
      (∀ a b, .exchanged a b ∉ t.trail) → (State.initial limits sink files).EvolvesHarmlessly t) ∧
    (∀ t, (State.initial limits sink files).EvolvesHarmlessly t →
      ∀ object address length, (t.payload object).window? = some (address, length) → length ≠ 0 →
        t.memory.Live address length) ∧
    ∀ handler, Behavior.Copying handler → ∀ rounds args s result t,
      (handler (machine host rounds) args).run s = .ok result t →
      (handler = Behavior.Streams.read ∧ result = t.nothing) ∨
      ∃ before : State, before.Alone t result ∧
        ∀ start size, s.memory.Live start size → size ≠ 0 → before.memory.Live start size := by
  refine ⟨fun s parent key buffer address length k rounds hparent hview hkey => ?_, ?_, ?_,
    fun t hreach => hreach.evolves.harmlessly, ?_, ?_⟩
  · have hindex := run_index_int host rounds hparent hkey
    rw [hview] at hindex
    refine ⟨fun hout => ?_, fun hin => ?_⟩
    · rwa [(View.from?_eq_none_iff address length k.toInt).mpr hout] at hindex
    · cases hpart : (View.sized address length).from? k.toInt with
      | none =>
        have hout := (View.from?_eq_none_iff address length k.toInt).mp hpart
        omega
      | some part =>
        rw [hpart] at hindex
        exact ⟨part, hindex, fun memory hthere => View.isRest_of_from? hthere hpart⟩
  · intro memory start size address length format offset scalar after hwriter hreader hset haffected
    exact View.meets_of_affected_sized hset hwriter hreader haffected
  · intro memory start address length format offset scalar after hwritten hreader hset haffected
    -- Checked against the goal at once, the range would be unfolded to its bytes.
    have hmeets := View.meets_of_affected hset hwritten hreader haffected
    exact hmeets
  · intro t hsafe object address length hwindow hlength
    exact State.live_of_evolves hsafe hwindow hlength
  · intro handler hcopying rounds args s result t hrun
    rcases hcopying.copied hrun with hnothing | ⟨before, bytes, hgrown, hfits, rfl, rfl⟩
    · exact .inl hnothing
    · exact .inr ⟨before, State.alone_withBlock hfits, fun start size hlive hne => hlive.of_sizes hne hgrown⟩

/-- The last three bytes of a buffer are answered as the buffer answers them one byte further on, and a
copy of its bytes is alone. -/
theorem aliasing_window :
    (∃ part, ((machine .steady 1).dispatch .index [⟨3⟩, ⟨6⟩]).run .withWindow =
        .ok ⟨7⟩ (State.withWindow.made (.buffer { view := part, anchors := [⟨3⟩] })) ∧
      (View.sized (base 0) 4).IsRest part 1 State.withWindow.memory) ∧
    ∃ t, (Behavior.Buffers.sub (machine .steady 1) [⟨3⟩]).run .withWindow = .ok ⟨7⟩ t ∧
      ∃ before : State, before.Alone t ⟨7⟩ ∧ before.memory.Live (base 0) 4 := by
  obtain ⟨hindex, -, -, -, -, hcopy⟩ := aliasing .steady {} .discard {}
  have hlive : State.withWindow.memory.Live (base 0) 4 :=
    ⟨0, 0, by decide +kernel, by decide +kernel, by decide⟩
  obtain ⟨part, hrun, hrest⟩ := (hindex .withWindow ⟨3⟩ ⟨6⟩
    { view := .sized (base 0) 4, ownership := .owned } (base 0) 4 1 0 rfl rfl rfl).2 (by decide)
  refine ⟨⟨part, hrun, hrest _ fun _ => hlive⟩, ?_⟩
  have hrun : (Behavior.Buffers.sub (machine .steady 1) [⟨3⟩]).run .withWindow =
      .ok ⟨7⟩ (State.withWindow.withBlock (Bytes.ofText "ABCD")) := rfl
  rcases hcopy _ .sub 1 [⟨3⟩] .withWindow ⟨7⟩ _ hrun with ⟨-, hnothing⟩ | ⟨before, halone, hkept⟩
  · cases hnothing
  · exact ⟨_, hrun, before, halone, hkept _ _ hlive (by decide)⟩

end ObjectModel
