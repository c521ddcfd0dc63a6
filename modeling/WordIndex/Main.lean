import WordIndex.CommandLine

/-! # The program of the command -/
namespace WordIndex.Main

def faultOf : IO.Error → SystemFault
  | .noFileOrDirectory .. => .fileNotFound
  | .permissionDenied .. => .permissionDenied
  | .inappropriateType .. => .isDirectory
  | _ => .notSupported

def readFile (path : Text) : IO (Except SystemFault Bytes) := do
  try
    return .ok (← IO.FS.readBinFile (String.ofList path)).toList
  catch e => return .error (faultOf e)

/-- A host on which one file was read and no socket can be bound. -/
def host (currentDirectory : Text) (file : Except SystemFault Bytes) : Host where
  currentDirectory
  contents _ := file
  bindTcp _ := .error .notSupported
  bindUnix _ := .error .notSupported
  hasLoopback := false

end WordIndex.Main

def main (arguments : List String) : IO UInt32 := do
  let arguments := arguments.map String.toList
  let file ← match WordIndex.CommandLine.indexFile? arguments with
    | none => pure (.error .fileNotFound)
    | some path => WordIndex.Main.readFile path
  let directory := (← IO.currentDir).toString.toList
  let result := WordIndex.CommandLine.run (WordIndex.Main.host directory file) arguments
  let out ← IO.getStdout
  out.write (ByteArray.mk result.output.toArray)
  out.flush
  let messages := result.messages?.getD [WordIndex.CommandLine.optionListing.toList]
  for line in messages do
    IO.eprintln (String.ofList line)
  return result.exitCode.toUInt32
