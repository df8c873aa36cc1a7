import ObjectModel.Interpreter
import ObjectModel.Proofs.Comparison.Equality
import ObjectModel.Proofs.Streams.Amounts

/-!
# Readings of a stream

A read of a stream that is open on a file gives a new buffer of the bytes that it takes, and leaves the
stream behind them (`run_read`). So what readings one after another give are the contents of the file, piece
by piece, up to where the stream stands (`reads_partition`).
-/

namespace ObjectModel

open ObjectModel.Action Behavior

-- ---------------------------------------------------------------------------
-- Ways to the functions of streams
-- ---------------------------------------------------------------------------

/-- The ways to what a function of streams does: the method, and the operators for reading and writing. -/
inductive Accesses (host : Host) (rounds : Nat) (args : List Ref) : Builtin → Action Ref → Prop
  | method (function : Builtin) :
    Accesses host rounds args function (function.body (machine host rounds) args)
  | shiftRight : Accesses host rounds args .streamRead ((machine host (rounds + 1)).dispatch .shiftRight args)
  | shiftLeft : Accesses host rounds args .streamWrite ((machine host (rounds + 1)).dispatch .shiftLeft args)

variable {host : Host} {s t u : State} {stream request buffer : Ref} {rest : List Ref}
  {amount : ReadAmount} {name : String} {mode : FileMode} {rounds position : Nat} {atEnd : Bool}
  {bytes : Bytes} {log : List Bytes}

theorem Accesses.run_eq {function : Builtin} {action : Action Ref}
    (h : Accesses host rounds (stream :: rest) function action) (hkind : s.kind stream = .stream) :
    action.run s = (function.body (machine host rounds) (stream :: rest)).run s := by
  cases h with
  | method => rfl
  | shiftRight =>
    have hread : Kind.stream.handler .shiftRight = some Streams.read := rfl
    rw [Dispatcher.run_dispatch, hkind]
    exact congrArg (·.run s) (behave_succ _ host rounds _ hread)
  | shiftLeft =>
    have hwrite : Kind.stream.handler .shiftLeft = some Streams.write := rfl
    rw [Dispatcher.run_dispatch, hkind]
    exact congrArg (·.run s) (behave_succ _ host rounds _ hwrite)

theorem Action.ends_congr {action other : Action α} {Q : α → State → Prop} {E : State → Prop}
    (h : action.run s = other.run t) : action.Ends s Q E ↔ other.Ends t Q E := by
  unfold Ends
  rw [h]

-- ---------------------------------------------------------------------------
-- One read
-- ---------------------------------------------------------------------------

namespace State

/-- The amount that a request asks for. A negative count asks for no bytes, and a name that is none of an
amount for nothing at all. -/
inductive Asks (s : State) (request : Ref) : Option ReadAmount → Prop
  | all (h : s.nameBytes? request = some (Bytes.ofText "ALL")) : Asks s request (some .all)
  | line (h : s.nameBytes? request = some (Bytes.ofText "LINE")) :
    Asks s request (some (.line (s.limits.lineChunk - 1)))
  | other {name : Bytes} (h : s.nameBytes? request = some name) (hall : name ≠ Bytes.ofText "ALL")
    (hline : name ≠ Bytes.ofText "LINE") : Asks s request none
  | count {n : Int64} (h : s.payload request = .int n) : Asks s request (some (.count n.toInt.toNat))

def ahead (s : State) (name : String) (position : Nat) : Bytes :=
  (s.files.contents name).data.toList.drop position

def bytes? (s : State) (buffer : Ref) : Option Bytes :=
  (s.payload buffer).buffer?.bind (·.bytes? s.memory)

/-- The buffer is the newest object, and was made of the bytes. -/
def Fresh (t : State) (buffer : Ref) (bytes : Bytes) : Prop :=
  ∃ s : State, s.memory.Fits bytes.length ∧ buffer = s.heap.next ∧ t = s.withBlock bytes

/-- A function of the stream makes a number, and nothing else. -/
def Reports (s : State) (function : Builtin) (stream : Ref) (n : Int64) : Prop :=
  ∀ machine, (function.body machine [stream]).run s = .ok s.heap.next (s.made (.int n))

theorem fresh_withBlock {s : State} (hfits : s.memory.Fits bytes.length) :
    (s.withBlock bytes).Fresh s.heap.next bytes := ⟨s, hfits, rfl, rfl⟩

theorem Fresh.payload (h : t.Fresh buffer bytes) : ∃ address,
    t.payload buffer = .buffer { view := .sized address bytes.length, ownership := .owned } := by
  obtain ⟨s, -, rfl, rfl⟩ := h
  exact ⟨_, payload_made_next s _⟩

theorem exists_buffer_of_bytes? (h : s.bytes? buffer = some bytes) :
    ∃ window, s.payload buffer = .buffer window ∧ window.bytes? s.memory = some bytes := by
  unfold bytes? at h
  cases hp : s.payload buffer <;> simp [hp, Payload.buffer?] at h
  exact ⟨_, rfl, h⟩

theorem Fresh.bytes? (h : t.Fresh buffer bytes) : t.bytes? buffer = some bytes := by
  obtain ⟨s, hfits, rfl, rfl⟩ := h
  have hpayload : (s.withBlock bytes).payload s.heap.next = _ := payload_made_next s _
  simp only [State.bytes?, hpayload, Payload.buffer?, Option.bind_some, Buffer.bytes?, View.bytes?]
  exact congrArg some (Memory.bytesAt_allocate hfits)

/-- A new buffer was made of no other bytes. -/
theorem Fresh.unique {others : Bytes} (h : t.Fresh buffer bytes) (h' : t.Fresh buffer others) :
    bytes = others :=
  Option.some.inj (h.bytes?.symm.trans h'.bytes?)

end State

theorem run_amountOf (run : Dispatcher) {amount : Option ReadAmount} (h : s.Asks request amount) :
    (Streams.amountOf run request).run s = .ok amount s := by
  have hline : ¬ Bytes.ofText "LINE" = Bytes.ofText "ALL" := by decide +kernel
  unfold Streams.amountOf
  rw [EStateM.run_bind, run_nameBytes?]
  cases h with
  | all h => simp [h]
  | line h =>
    simp only [h, beq_iff_eq, hline, if_false, if_true]
    rfl
  | other h hall hline => simp [h, hall, hline]
  | count h =>
    have hname : s.nameBytes? request = none := by simp [State.nameBytes?, h]
    simp [hname, Dispatcher.toInt, h]

/-- A read of a stream that is open on a file takes its part of the bytes ahead, and leaves the stream
behind them. -/
theorem run_read (machine : Machine) (hasks : s.Asks request (some amount))
    (hstream : s.payload stream = .stream ⟨.file name mode position, atEnd⟩) (hmode : mode.reads = true) :
    (Streams.read machine [stream, request]).run s =
      (createBuffer (amount.taken (s.ahead name position))).run
        (s.stored stream (.stream ⟨.file name mode (position + (amount.taken (s.ahead name position)).length),
          decide (amount.Short (s.ahead name position))⟩)) := by
  have hsubject : (argument [stream, request] 0).run s = .ok stream s := rfl
  have hrequest : (argument [stream, request] 1).run s = .ok request s := rfl
  simp only [Streams.read, EStateM.run_bind, hsubject, hrequest, run_amountOf _ hasks, Streams.expect,
    run_payload, hstream, EStateM.run_pure, EStateM.run_get, Stream.read, hmode, Bool.true_or, if_true,
    ReadAmount.take_eq, Streams.orFault]
  rfl

theorem run_read_other (machine : Machine) (hasks : s.Asks request none) :
    (Streams.read machine [stream, request]).run s = .ok s.nothing s := by
  have hsubject : (argument [stream, request] 0).run s = .ok stream s := rfl
  have hrequest : (argument [stream, request] 1).run s = .ok request s := rfl
  simp only [Streams.read, EStateM.run_bind, hsubject, hrequest, run_amountOf _ hasks, run_nothing]

theorem reports_tell (hstream : s.payload stream = .stream ⟨.file name mode position, atEnd⟩) :
    s.Reports .streamTell stream (Integer.ofLength position) := by
  intro machine
  have hsubject : (argument [stream] 0).run s = .ok stream s := rfl
  simp only [Builtin.body, Streams.tell, EStateM.run_bind, hsubject, Streams.expect, run_payload, hstream,
    EStateM.run_pure, EStateM.run_get, Stream.tell, Stream.extent, Except.map, Streams.status]
  rfl

theorem reports_eof (hstream : s.payload stream = .stream ⟨channel, atEnd⟩) :
    s.Reports .streamEof stream (if atEnd then 1 else 0) := by
  intro machine
  have hsubject : (argument [stream] 0).run s = .ok stream s := rfl
  simp only [Builtin.body, Streams.eof, EStateM.run_bind, hsubject, Streams.expect, run_payload, hstream,
    EStateM.run_pure]
  rfl

-- ---------------------------------------------------------------------------
-- Readings one after another
-- ---------------------------------------------------------------------------

/-- Readings of a stream, with the bytes of the buffers that they gave. In between everything may change but
the stream and the contents of its file. -/
inductive Readings (host : Host) (stream : Ref) (name : String) (s : State) : List Bytes → State → Prop
  | start : Readings host stream name s [] s
  | meanwhile {t u : State} {log : List Bytes} (h : Readings host stream name s log t)
    (hstream : u.payload stream = t.payload stream)
    (hfile : u.files.contents name = t.files.contents name) : Readings host stream name s log u
  | read {t u : State} {log : List Bytes} {request buffer : Ref} {amount : ReadAmount} {bytes : Bytes}
    {rounds : Nat} {action : Action Ref} (h : Readings host stream name s log t)
    (hasks : t.Asks request (some amount))
    (haccess : Accesses host rounds [stream, request] .streamRead action)
    (hrun : action.run t = .ok buffer u) (hfresh : u.Fresh buffer bytes) :
    Readings host stream name s (log ++ [bytes]) u
  | other {t u : State} {log : List Bytes} {request answer : Ref} {rounds : Nat} {action : Action Ref}
    (h : Readings host stream name s log t) (hasks : t.Asks request none)
    (haccess : Accesses host rounds [stream, request] .streamRead action)
    (hrun : action.run t = .ok answer u) : Readings host stream name s log u

theorem Readings.trans {later : List Bytes} (h : Readings host stream name s log t)
    (h' : Readings host stream name t later u) : Readings host stream name s (log ++ later) u := by
  induction h' with
  | start => simpa using h
  | meanwhile _ hstream hfile ih => exact .meanwhile ih hstream hfile
  | read _ hasks haccess hrun hfresh ih =>
    rw [← List.append_assoc]
    exact .read ih hasks haccess hrun hfresh
  | other _ hasks haccess hrun ih => exact .other ih hasks haccess hrun

namespace State

def ReadsFrom (s : State) (stream : Ref) (name : String) (position : Nat) : Prop :=
  ∃ mode atEnd, s.payload stream = .stream ⟨.file name mode position, atEnd⟩ ∧ mode.reads = true

theorem ReadsFrom.kind (h : s.ReadsFrom stream name position) : s.kind stream = .stream := by
  obtain ⟨mode, atEnd, hstream, -⟩ := h
  exact kind_of_payload hstream

theorem ReadsFrom.made (h : s.ReadsFrom stream name position) : s.heap.Contains stream :=
  contains_of_kind_ne (by rw [h.kind]; nofun)

/-- Objects and blocks of memory were made, and those that were there are what they were, but for one
object. -/
def ExtendsBut (s t : State) (object : Ref) : Prop := (s.stored object (t.payload object)).Extends t

/-- What a read of an amount does: it makes a buffer of the bytes taken, moves the stream behind them and
touches nothing else. As long as the stream is left alone, it then tells whether the bytes ahead came to
their end first. -/
structure Took (s : State) (stream : Ref) (name : String) (position : Nat) (amount : ReadAmount)
    (buffer : Ref) (t : State) : Prop where
  fresh : t.Fresh buffer (amount.taken (s.ahead name position))
  readsFrom : t.ReadsFrom stream name (position + (amount.taken (s.ahead name position)).length)
  eof : ∀ u : State, u.payload stream = t.payload stream →
    u.Reports .streamEof stream (if amount.Short (s.ahead name position) then 1 else 0)
  extends_but : s.ExtendsBut t stream
  blocks : t.memory.blocks.size ≤ s.memory.blocks.size + 1
  files : t.files = s.files
  limits : t.limits = s.limits

theorem Took.ahead (h : s.Took stream name position amount buffer t) :
    t.ahead name = s.ahead name := by
  unfold State.ahead
  rw [h.files]

theorem ahead_eq (s : State) (name : String) (position : Nat) (amount : ReadAmount) :
    s.ahead name position = amount.taken (s.ahead name position) ++
      s.ahead name (position + (amount.taken (s.ahead name position)).length) := by
  have hdrop := List.prefix_iff_eq_append.mp (amount.prefix_taken (s.ahead name position))
  rw [State.ahead, List.drop_drop] at hdrop
  exact hdrop.symm

end State

theorem ends_read {action : Action Ref} (hreads : s.ReadsFrom stream name position)
    (hasks : s.Asks request (some amount)) (haccess : Accesses host rounds [stream, request] .streamRead action) :
    action.Ends s (fun buffer t => s.Took stream name position amount buffer t)
      (s.LacksMemoryAfter 0 (amount.taken (s.ahead name position)).length) := by
  have hrun := haccess.run_eq hreads.kind
  have hmade := hreads.made
  obtain ⟨mode, atEnd, hstream, hmode⟩ := hreads
  rw [Builtin.body, run_read _ hasks hstream hmode] at hrun
  rw [ends_congr hrun, ends_createBuffer]
  refine ⟨fun hlarge => ⟨s.stored stream _, Nat.le_refl _, State.lacksMemory_faulting hlarge⟩, fun hfits => ?_⟩
  let moved : Stream := ⟨.file name mode (position + (amount.taken (s.ahead name position)).length),
    decide (amount.Short (s.ahead name position))⟩
  have hmoved : (s.stored stream (.stream moved)).payload stream = .stream moved := payload_stored_same hmade
  have hkept := (State.keeps_withBlock _ (amount.taken (s.ahead name position))).kept stream
    ((State.contains_stored ..).mpr hmade) |>.trans hmoved
  refine ⟨State.fresh_withBlock hfits, ⟨mode, _, hkept, hmode⟩, fun u hu => ?_, ?_,
    s.memory.count_allocate_le _, rfl, rfl⟩
  · simpa using reports_eof (hu.trans hkept)
  · rw [State.ExtendsBut, hkept]
    exact State.extends_withBlock _ _

theorem Readings.readsFrom (h : Readings host stream name s log t) (hreads : s.ReadsFrom stream name position) :
    t.ReadsFrom stream name (position + log.flatten.length) ∧
      t.files.contents name = s.files.contents name ∧
      s.ahead name position = log.flatten ++ t.ahead name (position + log.flatten.length) := by
  induction h with
  | start => exact ⟨hreads, rfl, rfl⟩
  | meanwhile _ hstream hfile ih =>
    obtain ⟨⟨mode, atEnd, hpayload, hmode⟩, hcontents, hahead⟩ := ih
    refine ⟨⟨mode, atEnd, hstream.trans hpayload, hmode⟩, hfile.trans hcontents, ?_⟩
    rw [hahead, State.ahead, State.ahead, hfile]
  | other _ hasks haccess hrun ih =>
    rw [haccess.run_eq ih.1.kind, Builtin.body, run_read_other _ hasks] at hrun
    cases hrun
    exact ih
  | @read t u log request buffer amount bytes rounds action _ hasks haccess hrun hfresh ih =>
    obtain ⟨hreads, hcontents, hahead⟩ := ih
    have htook := (ends_of_run hrun).mp (ends_read hreads hasks haccess)
    have hbytes := hfresh.unique htook.fresh
    have hmoved := htook.readsFrom
    rw [← hbytes, Nat.add_assoc, ← List.length_append] at hmoved
    have hsplit := t.ahead_eq name (position + log.flatten.length) amount
    rw [← hbytes] at hsplit
    have hflatten : (log ++ [bytes]).flatten = log.flatten ++ bytes := by simp
    rw [hflatten]
    refine ⟨hmoved, (congrArg (·.contents name) htook.files).trans hcontents, ?_⟩
    rw [hahead, hsplit, htook.ahead, List.append_assoc, List.length_append, Nat.add_assoc]

/-- Readings of a stream that was opened for reading give the contents of its file without a gap, and the
stream tells how many bytes they gave. A request for an amount takes its part of the bytes ahead, and the
stream then tells whether they ended before it was met; any other request takes nothing. A line is no longer
than its limit, and has no line feed but as its last byte. -/
theorem reads_partition (host : Host) (hmode : mode.reads = true)
    (hstream : s.payload stream = .stream ⟨.file name mode 0, atEnd⟩)
    (h : Readings host stream name s log t) : ∃ ahead : Bytes,
      (s.files.contents name).data.toList = log.flatten ++ ahead ∧
      t.Reports .streamTell stream (Integer.ofLength log.flatten.length) ∧
      (∀ request rounds action, Accesses host rounds [stream, request] .streamRead action →
        (t.Asks request none → action.run t = .ok t.nothing t) ∧
        ∀ amount, t.Asks request (some amount) →
          action.Ends t
            (fun buffer u => u.Fresh buffer (amount.taken ahead) ∧
              u.bytes? buffer = some (amount.taken ahead) ∧
              ∀ v : State, v.payload stream = u.payload stream →
                v.Reports .streamEof stream (if amount.Short ahead then 1 else 0))
            (t.LacksMemoryAfter 0 (amount.taken ahead).length)) ∧
      ∀ limit, ((ReadAmount.line limit).taken ahead).length ≤ limit ∧
        ∀ i, ((ReadAmount.line limit).taken ahead)[i]? = some 0x0A →
          i + 1 = ((ReadAmount.line limit).taken ahead).length := by
  obtain ⟨hreads, -, hahead⟩ := h.readsFrom ⟨mode, atEnd, hstream, hmode⟩
  rw [Nat.zero_add] at hreads hahead
  refine ⟨t.ahead name log.flatten.length, hahead, ?_, fun request rounds action haccess => ⟨?_, ?_⟩, ?_⟩
  · obtain ⟨mode, atEnd, hmoved, -⟩ := hreads
    exact reports_tell hmoved
  · intro hasks
    rw [haccess.run_eq hreads.kind, Builtin.body, run_read_other _ hasks]
  · intro amount hasks
    exact (ends_read hreads hasks haccess).imp_value fun buffer u htook =>
      ⟨htook.fresh, htook.fresh.bytes?, htook.eof⟩
  · exact fun limit => ⟨ReadAmount.length_taken_line_le limit _, fun i => ReadAmount.last_of_taken_line_feed⟩

def State.twoLines : State where
  heap := ⟨#[.singlet "none", .stream ⟨.file "lines" .read 0, false⟩, .string "LINE"]⟩
  files := ⟨[("lines", [0x61, 0x0A, 0x62].toByteArray)]⟩
  nothing := ⟨0⟩
  globals := ⟨0⟩
  methods := ⟨0⟩
  scopes := []

theorem reads_partition_two_lines : ∃ t, Readings {} ⟨1⟩ "lines" .twoLines [[0x61, 0x0A]] t ∧
    ∃ ahead : Bytes, [0x61, 0x0A, 0x62] = [[0x61, 0x0A]].flatten ++ ahead ∧ t.Reports .streamTell ⟨1⟩ 2 := by
  have hasks : State.twoLines.Asks ⟨2⟩ (some (.line 4095)) := .line (by decide +kernel)
  have haccess : Accesses {} 0 [⟨1⟩, ⟨2⟩] .streamRead _ := .shiftRight
  have hstream : State.twoLines.payload ⟨1⟩ = .stream ⟨.file "lines" .read 0, false⟩ := rfl
  obtain ⟨buffer, t, hrun, htook⟩ :=
    ((ends_read ⟨_, _, hstream, rfl⟩ hasks haccess).imp (fun _ _ h => h)
      fun t h => State.not_lacksMemoryAfter (by decide +kernel) (by decide +kernel) h).exists_run
  have htaken : (ReadAmount.line 4095).taken (State.twoLines.ahead "lines" 0) = [0x61, 0x0A] := by
    decide +kernel
  have hread : Readings {} ⟨1⟩ "lines" .twoLines [[0x61, 0x0A]] t :=
    htaken ▸ .read .start hasks haccess hrun htook.fresh
  obtain ⟨ahead, hahead, htell, -⟩ := reads_partition {} rfl hstream hread
  exact ⟨t, hread, ahead, hahead, htell⟩

end ObjectModel
