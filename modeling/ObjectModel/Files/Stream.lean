import ObjectModel.Files.Mode
import ObjectModel.Files.Store

/-!
# Streams

A stream is an open file with a position, a standard stream, or closed. Standard input is at its end
from the start; what goes to the other standard streams is not kept. A stream remembers whether its
last read came up short.
-/

namespace ObjectModel

inductive Channel where
  | file (name : String) (mode : FileMode) (position : Nat)
  | directory (position : Nat)
  | input
  | output
  | closed
  deriving DecidableEq, Repr

/-- A stream and whether its last read came up short. -/
structure Stream where
  channel : Channel
  atEnd : Bool := false
  deriving DecidableEq, Repr

inductive ReadAmount where
  /-- Everything up to the end. -/
  | all
  /-- One line with its line feed, but no more than a number of bytes. -/
  | line (limit : Nat)
  /-- Up to a number of bytes. -/
  | count (limit : Nat)
  deriving DecidableEq, Repr

inductive StreamFailure where
  | closed
  | refused
  deriving DecidableEq, Repr

namespace ReadAmount

/-- Where the line at a position ends, after at most `limit` bytes, and whether the contents ran out
before it was complete. -/
def lineEnd (contents : ByteArray) : (position limit : Nat) → Nat × Bool
  | position, 0 => (position, false)
  | position, limit + 1 =>
    match contents[position]? with
    | none => (position, true)
    | some byte =>
      if byte = 0x0A then (position + 1, false) else lineEnd contents (position + 1) limit

/-- How many bytes are consumed from a position on, and whether the end came before the amount was
met. -/
def extent (amount : ReadAmount) (contents : ByteArray) (position : Nat) : Nat × Bool :=
  let ahead := contents.size - position
  match amount with
  | .all => (ahead, true)
  | .line limit =>
    let (stop, short) := lineEnd contents position limit
    (stop - position, short)
  | .count limit => (min limit ahead, ahead < limit)

/-- What is consumed from a position on, and whether the end came before the amount was met. -/
def take (amount : ReadAmount) (contents : ByteArray) (position : Nat) : Bytes × Bool :=
  let (length, short) := amount.extent contents position
  (Bytes.part contents position length, short)

def isNothing : ReadAmount → Bool
  | .all => false
  | .line limit | .count limit => limit = 0

end ReadAmount

namespace Stream

/-- Opens what a path names. Only reading opens the directory, and a missing file is made only by
the modes that make files. -/
def open? (files : FileStore) (path : String) (mode : FileMode) : Option (Stream × FileStore) :=
  match Location.ofPath? path with
  | none => none
  | some .directory => if mode = .read then some (⟨.directory 0, false⟩, files) else none
  | some (.file name) =>
    let stream : Stream := ⟨.file name mode 0, false⟩
    match files.get? name with
    | some _ => some (stream, if mode.truncates then files.put name .empty else files)
    | none => if mode.creates then some (stream, files.put name .empty) else none

def isClosed (stream : Stream) : Bool := stream.channel = .closed

def close (stream : Stream) : Stream := { stream with channel := .closed }

/-- Reads an amount from the position on. A read of nothing never fails on an open file. -/
def read (stream : Stream) (files : FileStore) (amount : ReadAmount) :
    Except StreamFailure (Bytes × Stream) :=
  match stream.channel with
  | .file name mode position =>
    if mode.reads || amount.isNothing then
      let (bytes, short) := amount.take (files.contents name) position
      .ok (bytes, ⟨.file name mode (position + bytes.length), short⟩)
    else .error .refused
  | .directory position =>
    if amount.isNothing then .ok ([], ⟨.directory position, false⟩) else .error .refused
  | .input => .ok ([], ⟨.input, (amount.extent .empty 0).2⟩)
  | .output => .error .refused
  | .closed => .error .closed

/-- Writes all bytes, at the position or at the end of the file as the mode says. Writing nothing
never fails on an open file. -/
def write (stream : Stream) (files : FileStore) (bytes : Bytes) :
    Except StreamFailure (Stream × FileStore) :=
  match stream.channel with
  | .file name mode position =>
    if bytes.isEmpty then .ok (stream, files)
    else if mode.writes then
      let contents := files.contents name
      let start := if mode.appends then contents.size else position
      .ok ({ stream with channel := .file name mode (start + bytes.length) },
        files.put name (FileStore.overwrite contents start bytes))
    else .error .refused
  | .directory _ => if bytes.isEmpty then .ok (stream, files) else .error .refused
  | .output => .ok (stream, files)
  | .input => .error .refused
  | .closed => .error .closed

/-- The position of a stream and the length of what it is connected to. -/
def extent (stream : Stream) (files : FileStore) : Except StreamFailure (Nat × Nat) :=
  match stream.channel with
  | .file name _ position => .ok (position, (files.contents name).size)
  | .directory position => .ok (position, 0)
  | .input | .output => .error .refused
  | .closed => .error .closed

def atPosition (stream : Stream) (position : Nat) : Stream :=
  match stream.channel with
  | .file name mode _ => ⟨.file name mode position, false⟩
  | .directory _ => ⟨.directory position, false⟩
  | _ => stream

/-- Moves the position: `offset` from the start (0), the position (1) or the end (2). A start that is
negative and an unknown origin are refused before the stream is looked at. -/
def seek (stream : Stream) (files : FileStore) (offset origin : Int) :
    Except StreamFailure Stream :=
  if origin < 0 ∨ 2 < origin ∨ (origin = 0 ∧ offset < 0) then .error .refused
  else
    match stream.extent files with
    | .error failure => .error failure
    | .ok (position, length) =>
      let start : Int := if origin = 0 then 0 else if origin = 1 then position else length
      let target := start + offset
      if target < 0 ∨ Int64.maxValue.toInt < target then .error .refused
      else .ok (stream.atPosition target.toNat)

def tell (stream : Stream) (files : FileStore) : Except StreamFailure Nat :=
  (stream.extent files).map (·.1)

/-- Nothing is held back, so that flushing only fails on a closed stream. -/
def flush (stream : Stream) : Except StreamFailure Unit :=
  if stream.isClosed then .error .closed else .ok ()

end Stream

end ObjectModel
