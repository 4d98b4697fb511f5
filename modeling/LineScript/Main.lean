import LineScript.Shell.Response

/-!
The command-line program: it looks up the one path that the arguments name and prints the answer.
-/

namespace LineScript.Main

def contentOf (read : IO ByteArray) : IO Disk.Content := do
  try return Disk.Content.ofBytes (← read)
  catch e => return .unreadable (toString e).toList

/-- The entries of a folder at any depth; a folder that cannot be listed counts as empty. -/
partial def listing (folder : String) : IO Disk.Listing := do
  let path := (← IO.currentDir) / folder
  let entries ← try path.readDir catch _ => pure #[]
  entries.foldrM (fun entry rest => do
    let name := entry.fileName.toList
    if ← entry.path.isDir then return .folder name (← listing entry.path.toString) rest
    else return .file name (← contentOf (IO.FS.readBinFile entry.path)) rest) .nil

/-- What a path leads to on the machine that the program runs on. -/
def find (path : Text) : IO Disk.Found := do
  if path = [] then return .nothing
  let place := (← IO.currentDir) / String.ofList path
  if ← place.isDir then return .folder (← listing (String.ofList path))
  if ← place.pathExists then return .file (← contentOf (IO.FS.readBinFile place))
  return .nothing

end LineScript.Main

open LineScript in
def main (arguments : List String) : IO UInt32 := do
  let words := arguments.map String.toList
  let found ← match Shell.Request.read words with
    | .ok request =>
      match request.path? with
      | some path => Main.find path
      | none => pure .nothing
    | .error _ => pure .nothing
  let response := Shell.respond (fun _ => found) words
  (← IO.getStdout).putStr (String.ofList response.stdout)
  (← IO.getStderr).putStr (String.ofList response.stderr)
  return response.exit.toUInt32
