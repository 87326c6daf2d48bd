import BoxScript.CommandLine

/-!
# The executable

Collects the files below the working directory, the standard input and the log filter of the
environment, hands them to the command line, and writes what it gives.
-/

namespace BoxScript

/-- The files among directory entries and below them, under the names of the directories `above`.
What cannot be read is left out, and links are not followed to directories. -/
partial def collectFiles (above : List String) (entries : Array IO.FS.DirEntry) (files : Files) :
    IO Files :=
  entries.foldlM (fun files entry => do
    let path := above ++ [entry.fileName]
    try
      match (← entry.path.symlinkMetadata).type with
      | .dir => collectFiles path (← entry.path.readDir) files
      | .other => return files
      | _ =>
        let content ← IO.FS.readBinFile entry.path
        return files.add ("/".intercalate path) content.toList
    catch _ => return files) files

/-- All bytes of a stream, behind those that were read. -/
partial def readAll (stream : IO.FS.Stream) (read : ByteArray) : IO ByteArray := do
  let more ← stream.read 65536
  if more.isEmpty then return read
  readAll stream (read ++ more)

end BoxScript

open BoxScript in
/-- Run the command line in the working directory. -/
def main (args : List String) : IO UInt32 := do
  let here ← IO.FS.realPath "."
  let files ← collectFiles [] (← here.readDir) .empty
  let input ← readAll (← IO.getStdin) .empty
  let env ← IO.getEnv "GNS_LOG"
  let result := Command.execute files input.toList env args
  (← IO.getStdout).putStr result.stdout
  (← IO.getStderr).putStr result.stderr
  return result.exitCode.toUInt32
