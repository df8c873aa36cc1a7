import ObjectModel.Behavior.Buffers
import ObjectModel.Behavior.Libraries
import ObjectModel.Behavior.Lists
import ObjectModel.Behavior.Streams
import ObjectModel.Builtin.Inspection
import ObjectModel.Builtin.Prelude

/-!
# What builtin functions do
-/

namespace ObjectModel

open Behavior

def Builtin.body : Builtin → Handler
  | .toInt => Prelude.operation .toInt
  | .toFloat => Prelude.operation .toFloat
  | .toText => Prelude.operation .toText
  | .toBuffer => Prelude.operation .toBuffer
  | .kindOf => Prelude.kindOf
  | .protect => Prelude.protect
  | .apply => Prelude.apply
  | .error => Prelude.error
  | .print => Prelude.printLine Dispatcher.toText
  | .printRepresentation => Prelude.printLine Dispatcher.represent
  | .rawGet => Prelude.rawGet
  | .rawSet => Prelude.rawSet
  | .range => Prelude.range
  | .ord => Prelude.ord
  | .chr => Prelude.chr
  | .debugGetRef => Inspection.getRef
  | .debugSetRef => Inspection.setRef
  | .debugClosure => Inspection.closureOf
  | .debugGlobals => Inspection.globals
  | .debugLocals => Inspection.locals
  | .debugScopes => Inspection.scopes
  | .debugFrames => Inspection.frames
  | .debugOperations => Inspection.operations
  | .iterString => Iteration.stepString
  | .iterBuffer => Iteration.stepBuffer
  | .iterList => Iteration.stepList
  | .iterMap => Iteration.stepMap
  | .bufferNew => Buffers.ofSize
  | .bufferFromString => Buffers.ofText
  | .bufferFromObject => Buffers.ofObject
  | .bufferFromAddress => Buffers.ofAddress
  | .bufferGet => Buffers.read
  | .bufferSet => Buffers.write
  | .bufferAddress => Buffers.address
  | .bufferSize => Buffers.length
  | .bufferSub => Buffers.sub
  | .bufferSplit => Buffers.split
  | .bufferFind => Buffers.find
  | .stringSub => Strings.sub
  | .stringSplit => Strings.split
  | .stringFind => Strings.find
  | .listCopy => Lists.copy
  | .listInsert => Lists.insert
  | .listRemove => Lists.remove
  | .listTruncate => Lists.truncate
  | .listMap => Lists.map
  | .listFilter => Lists.filter
  | .listReduce => Lists.reduce
  | .streamWrite => Streams.write
  | .streamRead => Streams.read
  | .streamSeek => Streams.seek
  | .streamTell => Streams.tell
  | .streamFlush => Streams.flush
  | .streamEof => Streams.eof
  | .streamClose => Streams.close
  | .ioOpen => Streams.openFile
  | .ffiOpen => Libraries.openLibrary

end ObjectModel
