import RiscvSoc.Error
import RiscvSoc.Waveform.Dump
import RiscvSoc.Waveform.Sink

/-! A tracer writes a dump as samples arrive. The first refused write ends it; finishing reports
that, or hands over what is still buffered. -/

namespace RiscvSoc.Waveform

inductive Progress where
  | active (out : BufferedSink)
  | failed (sink : Sink)
  | closed (sink : Sink)

structure Tracer where
  path : String
  traces : List Trace
  progress : Progress

namespace Tracer

/-- A tracer whose header has been written, unless the sink refuses it. -/
def start? (path : String) (sink : Sink) (signals : List Signal) : Option Tracer :=
  match (BufferedSink.ofSink sink).write (header signals) with
  | (out, true) => some { path, traces := declare signals, progress := .active out }
  | (_, false) => none

def isActive (t : Tracer) : Bool :=
  match t.progress with
  | .active _ => true
  | _ => false

def sample (t : Tracer) (time : Nat) (values : List Nat) : Tracer :=
  match t with
  | { path, traces, progress := .active out } =>
    let text := sampleText traces time values
    if text.isEmpty then { path, traces, progress := .active out }
    else
      match out.write text with
      | (out, true) => { path, traces := advance traces values, progress := .active out }
      | (out, false) => { path, traces, progress := .failed out.release }
  | t => t

def refused (t : Tracer) : Error :=
  .file t.path "write refused"

/-- Hands over the buffer, or reports the first refused write. Finishing again does nothing. -/
def finish (t : Tracer) : Tracer × Except Error Unit :=
  match t.progress with
  | .active out =>
    match out.flush with
    | (out, true) => ({ t with progress := .closed out.sink }, .ok ())
    | (out, false) => ({ t with progress := .closed out.release }, .error t.refused)
  | .failed sink => ({ t with progress := .closed sink }, .error t.refused)
  | .closed _ => (t, .ok ())

def release (t : Tracer) : Sink :=
  match t.progress with
  | .active out => out.release
  | .failed sink => sink
  | .closed sink => sink

end Tracer

end RiscvSoc.Waveform
