/-! Where a dump goes: a sink that takes each write whole or refuses it whole, and a buffer in front
of it. -/

namespace RiscvSoc.Waveform

/-- A sink refuses any write that would take it over its limit. -/
structure Sink where
  limit : Option Nat
  contents : String

namespace Sink

def empty (limit : Option Nat) : Sink :=
  { limit, contents := "" }

def accepts (s : Sink) (chunk : String) : Bool :=
  match s.limit with
  | some n => s.contents.utf8ByteSize + chunk.utf8ByteSize ≤ n
  | none => true

def write? (s : Sink) (chunk : String) : Option Sink :=
  if s.accepts chunk then some { s with contents := s.contents ++ chunk } else none

end Sink

def bufferCapacity : Nat := 1048576

structure BufferedSink where
  buffer : String
  sink : Sink

namespace BufferedSink

def ofSink (sink : Sink) : BufferedSink :=
  { buffer := "", sink }

/-- Hands the buffer over in one write. A refused buffer is kept. -/
def flush (b : BufferedSink) : BufferedSink × Bool :=
  if b.buffer.isEmpty then (b, true)
  else
    match b.sink.write? b.buffer with
    | some sink => ({ buffer := "", sink }, true)
    | none => (b, false)

/-- Writes past the empty buffer when the chunk is too large for it, and into it otherwise. -/
def store (b : BufferedSink) (chunk : String) : BufferedSink × Bool :=
  if chunk.utf8ByteSize < bufferCapacity then
    ({ b with buffer := b.buffer ++ chunk }, true)
  else
    match b.sink.write? chunk with
    | some sink => ({ b with sink }, true)
    | none => (b, false)

/-- Writes a chunk, flushing first when it does not fit behind what is buffered. -/
def write (b : BufferedSink) (chunk : String) : BufferedSink × Bool :=
  if b.buffer.utf8ByteSize + chunk.utf8ByteSize ≤ bufferCapacity then b.store chunk
  else
    match b.flush with
    | (flushed, true) => flushed.store chunk
    | (kept, false) => (kept, false)

/-- What the sink holds once the buffer is given up, after a last attempt to hand it over. -/
def release (b : BufferedSink) : Sink :=
  b.flush.1.sink

end BufferedSink

end RiscvSoc.Waveform
