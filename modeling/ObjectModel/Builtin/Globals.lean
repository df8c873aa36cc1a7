import ObjectModel.Map.Cells
import ObjectModel.Memory.Format

/-!
# The globals of a new program

A new program has the builtin functions in its globals, some of them in maps of their own, the
object that stands for no value, and the method tables of strings, lists, buffers and streams.
-/

namespace ObjectModel

namespace Globals

open ObjectModel.Action

def functions (entries : List (String × Builtin)) : Action Ref := do
  Map.ofNamed (← entries.mapM fun (name, function) =>
    return (name, ← createNative (.builtin function)))

/-- Functions that stand in the globals under their own names. -/
def direct : List Builtin :=
  [.toInt, .toFloat, .toText, .toBuffer, .kindOf, .protect, .apply, .error, .print,
   .printRepresentation, .rawGet, .rawSet, .range, .ord, .chr]

def debugFunctions : List (String × Builtin) :=
  [("getref", .debugGetRef), ("setref", .debugSetRef), ("closure", .debugClosure),
   ("globals", .debugGlobals), ("locals", .debugLocals), ("scopes", .debugScopes),
   ("fnstack", .debugFrames), ("getops", .debugOperations)]

def steppers : List (String × Builtin) :=
  [("str", .iterString), ("buffer", .iterBuffer), ("list", .iterList), ("map", .iterMap)]

def bufferFunctions : List (String × Builtin) :=
  [("new", .bufferNew), ("fromstring", .bufferFromString), ("fromobject", .bufferFromObject),
   ("fromaddress", .bufferFromAddress)]

def stringMethods : List (String × Builtin) :=
  [("sub", .stringSub), ("split", .stringSplit), ("find", .stringFind)]

def listMethods : List (String × Builtin) :=
  [("copy", .listCopy), ("insert", .listInsert), ("remove", .listRemove),
   ("truncate", .listTruncate), ("map", .listMap), ("filter", .listFilter),
   ("reduce", .listReduce)]

def bufferMethods : List (String × Builtin) :=
  [("get", .bufferGet), ("set", .bufferSet), ("address", .bufferAddress), ("size", .bufferSize),
   ("sub", .bufferSub), ("split", .bufferSplit), ("find", .bufferFind)]

def streamMethods : List (String × Builtin) :=
  [("write", .streamWrite), ("read", .streamRead), ("seek", .streamSeek), ("tell", .streamTell),
   ("flush", .streamFlush), ("eof", .streamEof), ("close", .streamClose)]

/-- The map of buffer functions, with the codes of formats under `type`. -/
def bufferMap : Action Ref := do
  let map ← functions bufferFunctions
  let codes ← Format.all.mapM fun format => return (format.name, ← createInt format.code)
  Map.setNamed map "type" (← Map.ofNamed codes)
  return map

/-- The map of stream functions, with the bits of modes, the origins of seeking, and the standard
streams. -/
def streamMap : Action Ref := do
  let map ← functions [("open", .ioOpen)]
  let numbers : List (String × Int64) :=
    [("MODE_READ", FileMode.readBit), ("MODE_WRITE", FileMode.writeBit),
     ("MODE_APPEND", FileMode.appendBit), ("MODE_TRUNCATE", FileMode.truncateBit),
     ("MODE_BINARY", FileMode.binaryBit), ("SEEK_SET", 0), ("SEEK_CUR", 1), ("SEEK_END", 2)]
  for (name, number) in numbers do
    Map.setNamed map name (← createInt number)
  let channels : List (String × Channel) :=
    [("stdin", .input), ("stdout", .output), ("stderr", .output)]
  for (name, channel) in channels do
    Map.setNamed map name (← create (.stream { channel }))
  return map

/-- Fills the globals and the method tables. -/
def install : Action Unit := do
  let globals := (← get).globals
  for function in direct do
    Map.setNamed globals function.name (← createNative (.builtin function))
  Map.setNamed globals "None" (← nothing)
  Map.setNamed globals "debug" (← functions debugFunctions)
  Map.setNamed globals "iter" (← functions steppers)
  Map.setNamed globals "buffer" (← bufferMap)
  Map.setNamed globals "io" (← streamMap)
  Map.setNamed globals "ffi" (← functions [("open", .ffiOpen)])
  let methods := (← get).methods
  Map.setNamed methods Kind.string.name (← functions stringMethods)
  Map.setNamed methods Kind.list.name (← functions listMethods)
  Map.setNamed methods Kind.buffer.name (← functions bufferMethods)
  Map.setNamed methods Kind.stream.name (← functions streamMethods)

def bare (limits : Limits) (sink : Sink) (files : FileStore) : State :=
  { heap := ⟨#[.singlet "None", .map [], .map []]⟩
    files
    nothing := ⟨0⟩
    globals := ⟨1⟩
    methods := ⟨2⟩
    scopes := [⟨1⟩]
    limits
    sink }

end Globals

def State.initial (limits : Limits) (sink : Sink) (files : FileStore) : State :=
  Globals.install.final (Globals.bare limits sink files)

end ObjectModel
