import ObjectModel.Proofs.Streams.Readings

/-!
# Closed streams

On a closed stream every access raises an error and changes nothing else, once its arguments are converted
(`closed_refuses`). Two accesses are answered before the stream is looked at: a read by a name of no amount,
and a move of the position that no stream could make.
-/

namespace ObjectModel

open ObjectModel.Action Behavior

/-- An access of a stream, with its arguments converted. -/
inductive StreamAccess where
  | write (bytes : Bytes)
  | read (amount : Option ReadAmount)
  | seek (offset origin : Int64)
  | tell
  | flush

namespace StreamAccess

/-- The access needs no stream: it reads no amount, or moves a position as it can never be moved. -/
def Blind : StreamAccess → Prop
  | .read amount => amount = none
  | .seek offset origin => origin.toInt < 0 ∨ 2 < origin.toInt ∨ origin.toInt = 0 ∧ offset.toInt < 0
  | .write _ | .tell | .flush => False

/-- What an access gives that needs no stream: no value for a read, and -1 for a move. -/
def blindAnswer (t : State) : StreamAccess → Ref × State
  | .read _ => (t.nothing, t)
  | _ => (t.heap.next, t.made (.int (-1)))

/-- The arguments of a function of streams convert to an access without an error. A missing argument is no
value. -/
inductive Converts (machine : Machine) (stream : Ref) (rest : List Ref) (s : State) :
    Builtin → StreamAccess → State → Prop
  | write {bytes : Bytes} {t : State}
    (h : (holding [stream, rest[0]?.getD s.nothing] (Streams.bytesToWrite machine.toDispatcher
      (rest[0]?.getD s.nothing))).run s = .ok bytes t) :
    Converts machine stream rest s .streamWrite (.write bytes) t
  | read {amount : Option ReadAmount} {t : State}
    (h : (Streams.amountOf machine.toDispatcher (rest[0]?.getD s.nothing)).run s = .ok amount t) :
    Converts machine stream rest s .streamRead (.read amount) t
  | seek {offset origin : Int64} {t u : State}
    (hoffset : (machine.intArgument (stream :: rest) 1).run s = .ok offset t)
    (horigin : (machine.intArgument (stream :: rest) 2).run t = .ok origin u) :
    Converts machine stream rest s .streamSeek (.seek offset origin) u
  | tell : Converts machine stream rest s .streamTell .tell s
  | flush : Converts machine stream rest s .streamFlush .flush s

end StreamAccess

variable {host : Host} {rounds : Nat} {s t : State} {stream : Ref} {rest : List Ref} {function : Builtin}
  {access : StreamAccess} {action : Action Ref} {atEnd : Bool}

theorem run_orFault_closed (fault : Fault) (s : State) :
    (Streams.orFault fault (.error .closed : Except StreamFailure α)).run s =
      .error .raised (s.faulting .streamClosed) := rfl

theorem seek_closed {offset origin : Int64} (h : ¬ (StreamAccess.seek offset origin).Blind)
    (files : FileStore) : Stream.seek ⟨.closed, atEnd⟩ files offset.toInt origin.toInt = .error .closed :=
  if_neg h

/-- What moves no stream is found out before the stream is looked at. -/
theorem seek_blind {offset origin : Int64} (h : (StreamAccess.seek offset origin).Blind) (stream : Stream)
    (files : FileStore) : stream.seek files offset.toInt origin.toInt = .error .refused := if_pos h

/-- On a closed stream the error of closed streams is raised, unless the access needs no stream. -/
theorem run_closed (machine : Machine) (hconvert : access.Converts machine stream rest s function t)
    (hstream : t.payload stream = .stream ⟨.closed, atEnd⟩) :
    (¬ access.Blind → (function.body machine (stream :: rest)).run s =
      .error .raised (t.faulting .streamClosed)) ∧
    (access.Blind → (function.body machine (stream :: rest)).run s =
      .ok (access.blindAnswer t).1 (access.blindAnswer t).2) := by
  have hsubject (s : State) : (argument (stream :: rest) 0).run s = .ok stream s := rfl
  have hfirst (s : State) : (argument (stream :: rest) 1).run s = .ok (rest[0]?.getD s.nothing) s :=
    run_argument ..
  have hexpect : (Streams.expect stream).run t = .ok ⟨.closed, atEnd⟩ t := by
    simp only [Streams.expect, EStateM.run_bind, run_payload, hstream, EStateM.run_pure]
  cases hconvert with
  | write h =>
    refine ⟨fun _ => ?_, False.elim⟩
    simp only [Builtin.body, Streams.write, EStateM.run_bind, hsubject, hfirst, h, hexpect, EStateM.run_get,
      Stream.write, run_orFault_closed]
  | @read amount _ h =>
    simp only [Builtin.body, Streams.read, EStateM.run_bind, hsubject, hfirst, h]
    cases amount with
    | none => exact ⟨fun hlooks => absurd rfl hlooks, fun _ => rfl⟩
    | some amount =>
      refine ⟨fun _ => ?_, fun hblind => absurd hblind (Option.some_ne_none amount)⟩
      simp only [EStateM.run_bind, hexpect, EStateM.run_get, Stream.read, run_orFault_closed]
  | seek hoffset horigin =>
    simp only [Builtin.body, Streams.seek, EStateM.run_bind, hsubject, hoffset, horigin, hexpect,
      EStateM.run_get]
    exact ⟨fun hlooks => by rw [seek_closed hlooks]; rfl, fun hblind => by rw [seek_blind hblind]; rfl⟩
  | tell =>
    refine ⟨fun _ => ?_, False.elim⟩
    simp only [Builtin.body, Streams.tell, EStateM.run_bind, hsubject, hexpect, EStateM.run_get]
    rfl
  | flush =>
    refine ⟨fun _ => ?_, False.elim⟩
    simp only [Builtin.body, Streams.flush, EStateM.run_bind, hsubject, hexpect]
    rfl

/-- A function of streams raises the error of closed streams on a closed stream, whatever its arguments are
converted to, and changes nothing else: no file, and nothing of the stream. A read by a name of no amount and a
move of the position from an unknown origin, or to before the start, are answered all the same. -/
theorem closed_refuses (haccess : Accesses host rounds (stream :: rest) function action)
    (hstream : s.payload stream = .stream ⟨.closed, atEnd⟩)
    (hconvert : access.Converts (machine host rounds) stream rest s function t)
    (hkept : t.payload stream = s.payload stream) :
    (¬ access.Blind → ∃ u, action.run s = .error .raised u ∧ t.Raised .streamClosed u ∧
      u.files = t.files ∧ u.payload stream = .stream ⟨.closed, atEnd⟩) ∧
    (access.Blind → action.run s = .ok (access.blindAnswer t).1 (access.blindAnswer t).2) := by
  have hclosed := hkept.trans hstream
  obtain ⟨hraises, hanswers⟩ := run_closed (machine host rounds) hconvert hclosed
  rw [haccess.run_eq (State.kind_of_payload hstream)]
  refine ⟨fun hlooks => ⟨_, hraises hlooks, State.raised_faulting t _, rfl, ?_⟩, hanswers⟩
  have hmade : t.heap.Contains stream :=
    State.contains_of_kind_ne (by rw [State.kind_of_payload hclosed]; nofun)
  exact ((State.raised_faulting t .streamClosed).grown.kept stream hmade).trans hclosed

/-- A closed stream whose last read came up short, and a text to write to it. -/
def State.closedStream : State where
  heap := ⟨#[.singlet "none", .stream ⟨.closed, true⟩, .string "text"]⟩
  nothing := ⟨0⟩
  globals := ⟨0⟩
  methods := ⟨0⟩
  scopes := []

theorem closed_refuses_text : ∃ u,
    ((machine {} 1).dispatch .shiftLeft [⟨1⟩, ⟨2⟩]).run State.closedStream = .error .raised u ∧
      State.closedStream.Raised .streamClosed u ∧ u.payload ⟨1⟩ = .stream ⟨.closed, true⟩ := by
  have hconvert : (StreamAccess.write (Bytes.ofText "text")).Converts (machine {} 0) ⟨1⟩ [⟨2⟩]
      .closedStream .streamWrite .closedStream := .write rfl
  obtain ⟨u, hrun, hraised, -, hstream⟩ := (closed_refuses .shiftLeft rfl hconvert rfl).1 id
  exact ⟨u, hrun, hraised, hstream⟩

end ObjectModel
