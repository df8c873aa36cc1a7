/-!
# Names of builtin functions

The functions that every program starts with. A function of a library map or of a method table
carries the name of its place in its own name.
-/

namespace ObjectModel

inductive Builtin where
  | toInt
  | toFloat
  | toText
  | toBuffer
  | kindOf
  | protect
  | apply
  | error
  | print
  | printRepresentation
  | rawGet
  | rawSet
  | range
  | ord
  | chr
  | debugGetRef
  | debugSetRef
  | debugClosure
  | debugGlobals
  | debugLocals
  | debugScopes
  | debugFrames
  | debugOperations
  | iterString
  | iterBuffer
  | iterList
  | iterMap
  | bufferNew
  | bufferFromString
  | bufferFromObject
  | bufferFromAddress
  | bufferGet
  | bufferSet
  | bufferAddress
  | bufferSize
  | bufferSub
  | bufferSplit
  | bufferFind
  | stringSub
  | stringSplit
  | stringFind
  | listCopy
  | listInsert
  | listRemove
  | listTruncate
  | listMap
  | listFilter
  | listReduce
  | streamWrite
  | streamRead
  | streamSeek
  | streamTell
  | streamFlush
  | streamEof
  | streamClose
  | ioOpen
  | ffiOpen
  deriving DecidableEq, Repr

def Builtin.name : Builtin → String
  | .toInt => "toint"
  | .toFloat => "tofloat"
  | .toText => "tostring"
  | .toBuffer => "tobuffer"
  | .kindOf => "type"
  | .protect => "try"
  | .apply => "apply"
  | .error => "error"
  | .print => "print"
  | .printRepresentation => "prepr"
  | .rawGet => "rawget"
  | .rawSet => "rawset"
  | .range => "range"
  | .ord => "ord"
  | .chr => "chr"
  | .debugGetRef => "debug.getref"
  | .debugSetRef => "debug.setref"
  | .debugClosure => "debug.closure"
  | .debugGlobals => "debug.globals"
  | .debugLocals => "debug.locals"
  | .debugScopes => "debug.scopes"
  | .debugFrames => "debug.fnstack"
  | .debugOperations => "debug.getops"
  | .iterString => "iter.str"
  | .iterBuffer => "iter.buffer"
  | .iterList => "iter.list"
  | .iterMap => "iter.map"
  | .bufferNew => "buffer.new"
  | .bufferFromString => "buffer.fromstring"
  | .bufferFromObject => "buffer.fromobject"
  | .bufferFromAddress => "buffer.fromaddress"
  | .bufferGet => "buffer.get"
  | .bufferSet => "buffer.set"
  | .bufferAddress => "buffer.address"
  | .bufferSize => "buffer.size"
  | .bufferSub => "buffer.sub"
  | .bufferSplit => "buffer.split"
  | .bufferFind => "buffer.find"
  | .stringSub => "string.sub"
  | .stringSplit => "string.split"
  | .stringFind => "string.find"
  | .listCopy => "list.copy"
  | .listInsert => "list.insert"
  | .listRemove => "list.remove"
  | .listTruncate => "list.truncate"
  | .listMap => "list.map"
  | .listFilter => "list.filter"
  | .listReduce => "list.reduce"
  | .streamWrite => "stream.write"
  | .streamRead => "stream.read"
  | .streamSeek => "stream.seek"
  | .streamTell => "stream.tell"
  | .streamFlush => "stream.flush"
  | .streamEof => "stream.eof"
  | .streamClose => "stream.close"
  | .ioOpen => "io.open"
  | .ffiOpen => "ffi.open"

end ObjectModel
