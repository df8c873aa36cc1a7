import ObjectModel.Proofs.Memory.Aliasing
import ObjectModel.Proofs.Streams.Readings

/-!
# Reading line by line

Reading lines until the stream tells that it is at its end comes to an end, for every read takes a byte or
meets the end; what was read is the contents (`lines_end`). Where no byte fits into a line neither happens, and
the reading goes on without end (`not_halts_readLines`).
-/

namespace ObjectModel

open ObjectModel.Action

/-- Reads a line, and tells whether the stream then is at its end. -/
def readLine (machine : Machine) (stream request : Ref) : Action (Ref × Bool) := do
  let line ← machine.dispatch .shiftRight [stream, request]
  let answer ← Builtin.streamEof.body machine [stream]
  return (line, (← payload answer).int? == some 1)

/-- Reads lines until the stream is at its end, by no more than a number of reads. -/
def readLines (machine : Machine) (stream request : Ref) : (reads : Nat) → Action (List Ref)
  | 0 => throw .exhausted
  | reads + 1 => do
    let (line, ended) ← readLine machine stream request
    if ended then return [line] else return line :: (← readLines machine stream request reads)

variable {s t u : State} {o p stream request buffer : Ref} {name : String} {position reads : Nat}
  {bytes : Bytes} {mode : FileMode} {atEnd : Bool}

theorem View.Same.bytes? {memory after : Memory} {window : Buffer} (h : window.view.Same memory after) :
    window.bytes? after = window.bytes? memory := by
  obtain ⟨view, ownership, anchors⟩ := window
  cases view with
  | sized => simp only [Buffer.bytes?, View.bytes?, show bytesAt _ _ _ = _ from h]
  | unsized => rfl

theorem Memory.placed_allocate {memory : Memory} (hfits : memory.Fits bytes.length) :
    (memory.allocate bytes).2.Placed (memory.allocate bytes).1 := by
  unfold Placed
  by_cases hnil : bytes = []
  · simp only [hnil, allocate_nil, emptyBlock, lane_eq, firstLane_eq]
    show 1 < _
    omega
  · rw [allocate_of_fits hfits hnil, toNat_base (hfits.count_lt hnil)]
    simp only [push, Array.size_push, lane_eq, firstLane_eq]
    omega

namespace State

-- ---------------------------------------------------------------------------
-- What is left of a state
-- ---------------------------------------------------------------------------

theorem Extends.but (h : s.Extends t) (ho : s.heap.Contains o) : s.ExtendsBut t o where
  nothing := h.nothing
  kept p hp := by
    by_cases hsame : p = o
    · rw [hsame, payload_stored_same ho]
    · rw [payload_stored_other hsame]
      exact h.kept p ((contains_stored ..).mp hp)
  size := by
    rw [size_stored]
    exact h.size
  blocks := h.blocks
  block := h.block

theorem ExtendsBut.trans (h : s.ExtendsBut t o) (h' : t.ExtendsBut u o) (ho : s.heap.Contains o) :
    s.ExtendsBut u o where
  nothing := h'.nothing.trans h.nothing
  kept p hp := by
    have hp' := (contains_stored ..).mp hp
    by_cases hsame : p = o
    · rw [hsame, payload_stored_same ho]
    · have hnext := h'.kept p ((contains_stored ..).mpr
        (Nat.lt_of_lt_of_le ((contains_stored ..).mpr hp') h.size))
      have hfirst := h.kept p ((contains_stored ..).mpr hp')
      rw [payload_stored_other hsame] at hnext hfirst ⊢
      exact hnext.trans hfirst
  size := by
    have hnext := h'.size
    have hfirst := h.size
    rw [size_stored] at *
    exact Nat.le_trans hfirst hnext
  blocks := Nat.le_trans h.blocks h'.blocks
  block index hindex :=
    (h'.block index (Nat.lt_of_lt_of_le hindex h.blocks)).trans (h.block index hindex)

theorem ExtendsBut.unchanged (h : s.ExtendsBut t o) (hkind : s.kind p ≠ .list) (hne : p ≠ o)
    (hp : s.Readable p) : s.Unchanged t p := by
  intro q hq
  rcases Relation.ReflTransGen.cases_tail hq with rfl | ⟨_, -, items, hitems, -⟩
  · obtain ⟨hmade, hplaced⟩ := hp p .refl
    have hkept := h.kept p ((contains_stored ..).mpr hmade)
    rw [payload_stored_other hne] at hkept
    exact ⟨by rw [hkept], fun buffer hb => h.same (hplaced buffer hb)⟩
  · exact absurd (kind_of_payload hitems) hkind

theorem ExtendsBut.readable (h : s.ExtendsBut t o) (hkind : s.kind p ≠ .list) (hne : p ≠ o)
    (hp : s.Readable p) : t.Readable p :=
  (h.unchanged hkind hne hp).readable hp (by simpa using h.size) h.blocks

theorem ExtendsBut.thenMade (h : s.ExtendsBut t o) (ho : s.heap.Contains o) (payload : Payload) :
    s.ExtendsBut (t.made payload) o := by
  have hmade : t.heap.Contains o :=
    Nat.lt_of_lt_of_le ho (by simpa using h.size)
  rw [ExtendsBut, (Grown.made t payload).kept o hmade]
  exact Extends.thenMade h payload

structure HasBytes (s : State) (buffer : Ref) (bytes : Bytes) : Prop where
  bytes : s.bytes? buffer = some bytes
  readable : s.Readable buffer

theorem HasBytes.unchanged (h : s.HasBytes buffer bytes) (hsame : s.Unchanged t buffer)
    (hreadable : t.Readable buffer) : t.HasBytes buffer bytes := by
  obtain ⟨window, hpayload, hbytes⟩ := exists_buffer_of_bytes? h.bytes
  refine ⟨?_, hreadable⟩
  rw [State.bytes?, payload_of_seen hsame.seen hpayload rfl]
  exact (hsame.same hpayload).bytes?.trans hbytes

theorem HasBytes.extends (h : s.HasBytes buffer bytes) (hext : s.Extends t) : t.HasBytes buffer bytes :=
  h.unchanged (hext.unchanged h.readable) (hext.readable h.readable)

theorem HasBytes.kept (h : s.HasBytes buffer bytes) (hext : s.ExtendsBut t o)
    (ho : s.kind o ≠ .buffer) : t.HasBytes buffer bytes := by
  obtain ⟨window, hpayload, -⟩ := exists_buffer_of_bytes? h.bytes
  have hkind := kind_of_payload hpayload
  have hne : buffer ≠ o := by
    rintro rfl
    exact ho hkind
  have hlist : s.kind buffer ≠ .list := by rw [hkind]; nofun
  exact h.unchanged (hext.unchanged hlist hne h.readable) (hext.readable hlist hne h.readable)

theorem map_bytes? {buffers : List Ref} {log : List Bytes} (h : List.Forall₂ t.HasBytes buffers log) :
    buffers.map t.bytes? = log.map some := by
  induction h with
  | nil => rfl
  | cons hbuffer _ ih => simp only [List.map_cons, hbuffer.bytes, ih]

theorem Fresh.hasBytes (h : t.Fresh buffer bytes) : t.HasBytes buffer bytes := by
  refine ⟨h.bytes?, ?_⟩
  obtain ⟨s, hfits, rfl, rfl⟩ := h
  have hpayload : (s.withBlock bytes).payload s.heap.next = _ := payload_made_next s _
  refine readable_of_single ?_ ?_ ?_
  · rw [kind_of_payload hpayload]; nofun
  · exact contains_of_kind_ne (by rw [kind_of_payload hpayload]; nofun)
  · intro window hwindow
    rw [hpayload] at hwindow
    cases hwindow
    exact Memory.placed_allocate hfits

end State

-- ---------------------------------------------------------------------------
-- One line
-- ---------------------------------------------------------------------------

def State.line (s : State) (name : String) (position : Nat) : Bytes :=
  (ReadAmount.line (s.limits.lineChunk - 1)).taken (s.ahead name position)

/-- The contents end before the line ahead does. -/
def State.LastLine (s : State) (name : String) (position : Nat) : Prop :=
  (ReadAmount.line (s.limits.lineChunk - 1)).Short (s.ahead name position)

instance (s : State) (name : String) (position : Nat) : Decidable (s.LastLine name position) :=
  inferInstanceAs (Decidable (ReadAmount.Short _ _))

structure State.ReadsLines (s : State) (stream request : Ref) (name : String) (position : Nat) : Prop where
  reads : s.ReadsFrom stream name position
  asks : s.nameBytes? request = some (Bytes.ofText "LINE")
  readable : s.Readable request

/-- What reading a line does. -/
structure State.TookLine (s : State) (host : Host) (stream request : Ref) (name : String) (position : Nat)
    (line : Ref) (t : State) : Prop where
  readings : Readings host stream name s [s.line name position] t
  lines : t.ReadsLines stream request name (position + (s.line name position).length)
  ahead : s.ahead name position =
    s.line name position ++ t.ahead name (position + (s.line name position).length)
  extends_but : s.ExtendsBut t stream
  blocks : t.memory.blocks.size ≤ s.memory.blocks.size + 1
  limits : t.limits = s.limits
  bytes : t.HasBytes line (s.line name position)

variable {host : Host} {later : Nat}

theorem Action.Ends.with_run {action : Action α} {Q : α → State → Prop} {E : State → Prop}
    (h : action.Ends s Q E) : action.Ends s (fun a t => action.run s = .ok a t ∧ Q a t) E := by
  unfold Ends at h ⊢
  split at h
  · exact ⟨‹_›, h⟩
  · exact h
  · exact h

theorem State.ReadsLines.made (h : s.ReadsLines stream request name position) :
    s.heap.Contains stream := h.reads.made

theorem State.ReadsLines.kept (h : s.ReadsLines stream request name position)
    (hext : s.ExtendsBut t stream) (hreads : t.ReadsFrom stream name later) :
    t.ReadsLines stream request name later := by
  have hkind : s.kind request = .string ∨ s.kind request = .buffer := by
    have hname := h.asks
    unfold State.nameBytes? at hname
    cases hp : s.payload request with
    | string => exact .inl (State.kind_of_payload hp)
    | buffer => exact .inr (State.kind_of_payload hp)
    | _ => simp [hp] at hname
  have hlist : s.kind request ≠ .list := by rcases hkind with hkind | hkind <;> rw [hkind] <;> nofun
  have hne : request ≠ stream := by
    rintro rfl
    rcases hkind with hkind | hkind <;> rw [h.reads.kind] at hkind <;> cases hkind
  exact ⟨hreads, (hext.unchanged hlist hne h.readable).nameBytes?.trans h.asks,
    hext.readable hlist hne h.readable⟩

theorem ends_readLine (host : Host) (rounds : Nat) (h : s.ReadsLines stream request name position) :
    (readLine (machine host (rounds + 1)) stream request).Ends s
      (fun answer t => s.TookLine host stream request name position answer.1 t ∧
        (answer.2 = true ↔ s.LastLine name position))
      (s.LacksMemoryAfter 0 (s.line name position).length) := by
  have haccess : Accesses host rounds [stream, request] .streamRead _ := .shiftRight
  simp only [readLine, ends_bind]
  refine (ends_read h.reads (.line h.asks) haccess).with_run.imp_value ?_
  rintro line u ⟨hrun, htook⟩
  have hanswer : (Builtin.streamEof.body (machine host (rounds + 1)) [stream]).run u =
      .ok u.heap.next (u.made (.int (if s.LastLine name position then 1 else 0))) := htook.eof u rfl _
  have hgrown := State.Grown.made u (.int (if s.LastLine name position then 1 else 0))
  have hmade := htook.readsFrom.made
  refine (ends_of_run hanswer).mpr ⟨?_, ?_⟩
  · have hstream := hgrown.kept stream hmade
    have hext := htook.extends_but.thenMade h.made (.int (if s.LastLine name position then 1 else 0))
    have hkind := htook.readsFrom.kind
    obtain ⟨mode, atEnd, hmoved, hmode⟩ := htook.readsFrom
    exact {
      readings := .meanwhile (.read .start (.line h.asks) haccess hrun htook.fresh) hstream rfl
      lines := h.kept hext ⟨mode, atEnd, hstream.trans hmoved, hmode⟩
      ahead := by
        have hahead := s.ahead_eq name position (.line (s.limits.lineChunk - 1))
        rwa [← congrFun htook.ahead (position + _)] at hahead
      extends_but := hext
      blocks := htook.blocks
      limits := htook.limits
      bytes := htook.fresh.hasBytes.kept (hgrown.extends.but hmade) (by rw [hkind]; decide) }
  · rw [payload_made_next]
    by_cases hlast : s.LastLine name position <;> simp [hlast, Payload.int?]

-- ---------------------------------------------------------------------------
-- All lines
-- ---------------------------------------------------------------------------

/-- What reading all lines does, of which there are no more than bytes ahead, and one. -/
structure State.TookLines (s : State) (host : Host) (stream : Ref) (name : String) (position : Nat)
    (lines : List Ref) (log : List Bytes) (t : State) : Prop where
  readings : Readings host stream name s log t
  whole : log.flatten = s.ahead name position
  count : lines.length ≤ (s.ahead name position).length + 1
  extends_but : s.ExtendsBut t stream
  bytes : List.Forall₂ t.HasBytes lines log

theorem State.TookLines.last {line : Ref} (h : s.TookLine host stream request name position line t)
    (hlast : s.LastLine name position) :
    s.TookLines host stream name position [line] [s.line name position] t where
  readings := h.readings
  whole := by
    rw [List.flatten_singleton]
    exact ReadAmount.taken_of_short hlast
  count := by simp
  extends_but := h.extends_but
  bytes := .cons h.bytes .nil

theorem State.TookLines.cons {line : Ref} {lines : List Ref} {log : List Bytes}
    (h : s.TookLine host stream request name position line t) (hmade : s.heap.Contains stream)
    (hstream : t.kind stream ≠ .buffer) (hne : s.line name position ≠ [])
    (h' : t.TookLines host stream name (position + (s.line name position).length) lines log u) :
    s.TookLines host stream name position (line :: lines) (s.line name position :: log) u where
  readings := h.readings.trans h'.readings
  whole := by rw [List.flatten_cons, h'.whole, ← h.ahead]
  count := by
    have hcount := h'.count
    have hpos := List.length_pos_iff.mpr hne
    rw [h.ahead, List.length_append, List.length_cons]
    omega
  extends_but := h.extends_but.trans h'.extends_but hmade
  bytes := .cons (h.bytes.kept h'.extends_but hstream) h'.bytes

/-- Reading lines comes to an end, where a byte fits into a line: every read takes a byte, or the end comes
before the line is complete. -/
theorem ends_readLines (host : Host) (rounds : Nat) (h : s.ReadsLines stream request name position)
    (hchunk : 2 ≤ s.limits.lineChunk) (hreads : (s.ahead name position).length < reads) :
    (readLines (machine host (rounds + 1)) stream request reads).Ends s
      (fun lines t => ∃ log, s.TookLines host stream name position lines log t)
      fun t => ∃ length ≤ s.limits.lineChunk - 1, length ≤ (s.ahead name position).length ∧
        s.LacksMemoryAfter (s.ahead name position).length length t := by
  induction reads generalizing s position with
  | zero => exact absurd hreads (Nat.not_lt_zero _)
  | succ reads ih =>
    simp only [readLines, ends_bind]
    refine (ends_readLine host rounds h).imp ?_ ?_
    · rintro ⟨line, ended⟩ t ⟨htook, hended⟩
      by_cases hlast : s.LastLine name position
      · rw [if_pos (hended.mpr hlast), ends_pure]
        exact ⟨_, .last htook hlast⟩
      · rw [if_neg (mt hended.mp hlast), ends_bind]
        have hne : s.line name position ≠ [] := ReadAmount.taken_line_ne_nil (by omega) hlast
        have hpos := List.length_pos_iff.mpr hne
        have hlength := congrArg List.length htook.ahead
        rw [List.length_append] at hlength
        refine (ih htook.lines (by rwa [htook.limits]) (by omega)).imp ?_ ?_
        · rintro lines u ⟨log, hlines⟩
          exact ⟨_, .cons htook h.made (by rw [htook.lines.reads.kind]; decide) hne hlines⟩
        · rintro u ⟨length, hlimit, hmore, hlacks⟩
          rw [htook.limits] at hlimit
          have hblocks := htook.blocks
          exact ⟨length, hlimit, by omega, hlacks.mono (by omega)⟩
    · intro t hlacks
      have hlimit := ReadAmount.length_taken_line_le (s.limits.lineChunk - 1) (s.ahead name position)
      have hlength := congrArg List.length (s.ahead_eq name position (.line (s.limits.lineChunk - 1)))
      rw [List.length_append] at hlength
      exact ⟨_, hlimit, by omega, hlacks.mono (by omega)⟩

/-- Where no byte fits into a line, reading lines goes on without end. -/
theorem not_halts_readLines (host : Host) (rounds : Nat) (h : s.ReadsLines stream request name position)
    (hchunk : s.limits.lineChunk ≤ 1) (reads : Nat) :
    ¬ (readLines (machine host (rounds + 1)) stream request reads).Halts s := by
  induction reads generalizing s position with
  | zero => exact id
  | succ reads ih =>
    have hlimit : s.limits.lineChunk - 1 = 0 := by omega
    have hnothing : (s.line name position).length = 0 := by
      simp [State.line, hlimit, ReadAmount.taken]
    have hlast : ¬ s.LastLine name position := by
      simp [State.LastLine, hlimit, ReadAmount.Short]
    have hfits (t : State) : ¬ s.LacksMemoryAfter 0 (s.line name position).length t := by
      rintro ⟨moved, -, hlacks, -⟩
      exact hlacks (hnothing ▸ moved.memory.fits_zero)
    obtain ⟨⟨line, ended⟩, t, hrun, htook, hended⟩ :=
      ((ends_readLine host rounds h).imp (fun _ _ h => h) hfits).exists_run
    intro hhalts
    simp only [Halts, readLines, ends_bind] at hhalts
    have hrest := (ends_of_run hrun).mp hhalts
    rw [if_neg (mt hended.mp hlast), ends_bind] at hrest
    exact ih htook.lines (by rwa [htook.limits]) hrest.halts

/-- A stream that was opened for reading is read to its end line by line, if lines may have at least one
byte: by one read more than there are bytes, or fewer, which give the contents of the file. Only a line that
does not fit into memory raises an error. -/
theorem lines_end (host : Host) (rounds : Nat) (hmode : mode.reads = true)
    (hstream : s.payload stream = .stream ⟨.file name mode 0, atEnd⟩)
    (hrequest : s.nameBytes? request = some (Bytes.ofText "LINE")) (hreadable : s.Readable request)
    (hchunk : 2 ≤ s.limits.lineChunk) (hreads : (s.files.contents name).size < reads) :
    (readLines (machine host (rounds + 1)) stream request reads).Ends s
      (fun lines t => lines.length ≤ (s.files.contents name).size + 1 ∧
        ∃ log, Readings host stream name s log t ∧ log.flatten = (s.files.contents name).data.toList ∧
          lines.map t.bytes? = log.map some)
      fun t => ∃ length ≤ s.limits.lineChunk - 1, length ≤ (s.files.contents name).size ∧
        s.LacksMemoryAfter (s.files.contents name).size length t := by
  have hlines : s.ReadsLines stream request name 0 := ⟨⟨mode, atEnd, hstream, hmode⟩, hrequest, hreadable⟩
  have hsize : (s.ahead name 0).length = (s.files.contents name).size := by simp [State.ahead]
  rw [← hsize] at hreads ⊢
  refine (ends_readLines host rounds hlines hchunk hreads).imp_value ?_
  rintro lines t ⟨log, htook⟩
  exact ⟨htook.count, log, htook.readings, htook.whole, State.map_bytes? htook.bytes⟩

theorem State.readable_twoLines (limits : Limits) :
    State.Readable { State.twoLines with limits } ⟨2⟩ :=
  readable_of_single (show Kind.string ≠ .list from nofun) (show 2 < 3 by decide) nofun

theorem lines_end_two_lines : ∃ lines t,
    (readLines (machine {} 1) ⟨1⟩ ⟨2⟩ 4).run .twoLines = .ok lines t ∧ lines.length ≤ 4 ∧
      ∃ log : List Bytes, Readings {} ⟨1⟩ "lines" .twoLines log t ∧ log.flatten = [0x61, 0x0A, 0x62] := by
  have hstream : State.twoLines.payload ⟨1⟩ = .stream ⟨.file "lines" .read 0, false⟩ := rfl
  have hasks : State.twoLines.nameBytes? ⟨2⟩ = some (Bytes.ofText "LINE") := by decide +kernel
  have hreadable : State.twoLines.Readable ⟨2⟩ := State.readable_twoLines _
  have hchunk : 2 ≤ State.twoLines.limits.lineChunk := by decide
  have hcontents : (State.twoLines.files.contents "lines").data.toList = [0x61, 0x0A, 0x62] := by decide +kernel
  have hsize : (State.twoLines.files.contents "lines").size = 3 := by decide +kernel
  have hempty : State.twoLines.memory.blocks.size = 0 := rfl
  -- What is known of the state is enough, and running it would take long.
  generalize State.twoLines = s at *
  have hreads : (s.files.contents "lines").size < 4 := by omega
  have hfits (t : State) : ¬ ∃ length ≤ s.limits.lineChunk - 1, length ≤ (s.files.contents "lines").size ∧
      s.LacksMemoryAfter (s.files.contents "lines").size length t := by
    rintro ⟨length, -, hlength, hlacks⟩
    rw [hsize] at hlength hlacks
    exact State.not_lacksMemoryAfter (Nat.le_trans hlength (by decide)) (by rw [hempty]; decide) hlacks
  obtain ⟨lines, t, hrun, hcount, log, hreadings, hwhole, -⟩ :=
    ((lines_end {} 0 rfl hstream hasks hreadable hchunk hreads).imp (fun _ _ h => h) hfits).exists_run
  exact ⟨lines, t, hrun, by omega, log, hreadings, hwhole.trans hcontents⟩

/-- The stream on a file of two lines, in a program whose lines may have no byte. -/
def State.noLines : State := { State.twoLines with limits := { lineChunk := 1 } }

/-- There reading lines has no end. -/
theorem lines_without_end :
    ¬ ∃ reads, (readLines (machine {} 1) ⟨1⟩ ⟨2⟩ reads).Halts State.noLines := by
  rintro ⟨reads, hhalts⟩
  have hreads : State.noLines.ReadsFrom ⟨1⟩ "lines" 0 := ⟨.read, false, rfl, rfl⟩
  have hasks : State.noLines.nameBytes? ⟨2⟩ = some (Bytes.ofText "LINE") := by decide +kernel
  exact not_halts_readLines {} 0 ⟨hreads, hasks, State.readable_twoLines _⟩ (by decide) reads hhalts

end ObjectModel
