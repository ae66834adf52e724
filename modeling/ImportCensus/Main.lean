import ImportCensus.CommandLine.Run
import ImportCensus.Tree.Archive

namespace ImportCensus

partial def readAll (input : IO.FS.Stream) (read : ByteArray) : IO ByteArray := do
  let piece ← input.read 65536
  if piece.isEmpty then return read
  readAll input (read ++ piece)

def treeFor (arguments : List Bytes) : IO Tree := do
  match CommandLine.parse arguments with
  | .ok _ => return Archive.tree (← readAll (← IO.getStdin) ByteArray.empty).toList
  | .error _ => return Tree.empty

end ImportCensus

def main (arguments : List String) : IO UInt32 := do
  let arguments := arguments.map fun a => a.toUTF8.toList
  let tree ← ImportCensus.treeFor arguments
  let outcome := ImportCensus.CommandLine.run tree arguments ⟨[], none, .noSpace, none⟩
  let stamp := (toString (← IO.monoMsNow)).toList
  (← IO.getStderr).putStr (String.ofList (outcome.diagnostics stamp))
  let output ← IO.getStdout
  output.write ⟨outcome.output.stored.toArray⟩
  output.flush
  return UInt32.ofNat outcome.exitCode
