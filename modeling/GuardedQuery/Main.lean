import GuardedQuery.CommandLine.Run

/-! # The program

Runs a command line against the files, the standard input and the environment of the
process.
-/

namespace GuardedQuery

open System (FilePath)

def faultOfError : IO.Error → FileFault
  | .noFileOrDirectory .. | .noSuchThing .. => .notFound
  | .inappropriateType _ 21 _ => .isDirectory
  | .invalidArgument _ 36 _ => .nameTooLong
  | .inappropriateType .. => .notDirectory
  | error => .other (toString error)

def attempt {α : Type} (action : IO α) : IO (Except FileFault α) := do
  try return .ok (← action)
  catch error => return .error (faultOfError error)

partial def readAll (stream : IO.FS.Stream) (read : ByteArray) : IO ByteArray := do
  let chunk ← stream.read 65536
  if chunk.isEmpty then return read else readAll stream (read ++ chunk)

def processFiles : FileAccess IO where
  isDirectory path := FilePath.isDir path
  names path := attempt do
    return (← FilePath.readDir path).toList.map (·.fileName)
  text path := do
    return (← attempt (IO.FS.readBinFile path)).bind textOfBytes
  input := do
    return (← attempt do readAll (← IO.getStdin) .empty).bind textOfBytes

def processLookup : IO (String → Option String) := do
  let values ← Limits.variableNames.mapM fun name => return (name, ← IO.getEnv name)
  return fun name => (values.find? (·.1 == name)).bind (·.2)

end GuardedQuery

open GuardedQuery in
def main (words : List String) : IO UInt32 := do
  let surroundings : Surroundings IO := {
    files := processFiles
    lookup := ← processLookup
    terminal := ← (← IO.getStderr).isTty }
  let outcome ← runCommandLine surroundings words
  IO.print outcome.stdout
  IO.eprint outcome.stderr
  return outcome.code
