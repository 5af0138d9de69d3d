import RiscvSoc.CommandLine.Execute

namespace RiscvSoc

private def attempt {α : Type} (action : IO α) : IO (Except String α) := do
  try
    return .ok (← action)
  catch e =>
    return .error (toString e)

instance : FileStore IO where
  contains path := do
    match ← attempt (IO.FS.realPath path) with
    | .ok _ => return true
    | .error _ => return false
  read path := attempt (IO.FS.readBinFile path)
  write path contents := attempt (IO.FS.writeBinFile path contents)
  overlay path contents := attempt (IO.FS.withFile path .readWrite fun h => h.write contents)

private partial def readAll (stream : IO.FS.Stream) (acc : ByteArray) : IO ByteArray := do
  let chunk ← stream.read 65536
  if chunk.isEmpty then return acc else readAll stream (acc ++ chunk)

private def readStdin : IO (List UInt8) := do
  return (← readAll (← IO.getStdin) .empty).data.toList

end RiscvSoc

def main (arguments : List String) : IO UInt32 := do
  let result ← RiscvSoc.CommandLine.execute arguments RiscvSoc.readStdin
  let stdout ← IO.getStdout
  stdout.write result.stdout
  stdout.flush
  IO.eprint result.stderr
  return result.exitCode.toUInt32
