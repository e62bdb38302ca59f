import CellReview.Console.Program
import Std.Time.DateTime.Timestamp

/-!
# The command line program

All is decided by `CellReview.Console`.  Here files are brought to a disk before each
step, and what the step wrote and printed is taken from it afterwards.  There is no
network.
-/

namespace CellReview.Main

open Completion (Offline)
open Console (Stage Invocation Print)

/-! ## Bringing files to a disk -/

/-- Whether a path leads to a directory. -/
def isDirectory (path : String) : IO Bool := do
  let here ← IO.currentDir
  (here / path).isDir

/-- What stands at a path, if it can be read. -/
def nodeAt? (path : String) : IO (Option Node) := do
  if ← isDirectory path then return some (.directory [])
  try return some (.file (← IO.FS.readBinFile path))
  catch _ => return none

/-- Bring what stands at a path, and at the paths on the way to it. -/
def fetch (d : Disk) (path : String) : IO Disk := do
  let steps := Path.steps path
  let mut d := d
  for k in List.range steps.length do
    let above := Path.ofNames (Path.isAbsolute path) (steps.take (k + 1))
    match d.walk above, ← nodeAt? above with
    | .ok s, some (.directory _) => d := d.putDirectory s.place
    | .ok s, some (.file bytes) => d := d.putFile s.place bytes
    | _, _ => pure ()
  return d

/-- A disk with what stands at some paths. -/
def fetchAll (paths : List String) : IO Disk := do
  let here ← IO.currentDir
  let current := Path.names here.toString
  paths.foldlM fetch (.empty current)

/-- The variables that matter: those of the home directory, and that of the key. -/
def environment (arguments : List String) : IO Environment := do
  let find (name : String) : IO Environment := do
    if name.isEmpty then return []
    return ((← IO.getEnv name).map fun value => (name, value)).toList
  let home := (← find "HOME") ++ (← find "USERPROFILE")
  let invocation := Invocation.ofArguments arguments
  let d ← fetchAll (invocation.paths (← fetchAll []) home)
  match invocation with
  | .run options (.chat _) =>
    match Settings.load d (options.workspace.getD d.currentPath) home with
    | .ok s => return home ++ (← find s.llm.apiKeyEnv)
    | .error _ => return home
  | _ => return home

/-! ## Taking from a disk -/

/-- Make a file hold bytes, adding to the old ones if possible. -/
def writeFile (path : String) (old : Option Node) (bytes : ByteArray) : IO Unit := do
  match old with
  | some (.file before) =>
    if before.toList.isPrefixOf bytes.toList then
      let handle ← IO.FS.Handle.mk path .append
      handle.write (bytes.extract before.size bytes.size)
    else IO.FS.writeBinFile path bytes
  | _ => IO.FS.writeBinFile path bytes

/-- Take what changed. -/
def commit (old new : Disk) : IO Unit :=
  for (place, node) in new.nodes do
    unless (old.at? place).any node.same do
      let path := Path.ofNames true place
      match node with
      | .directory _ => IO.FS.createDirAll path
      | .file bytes => writeFile path (old.at? place) bytes

/-- Print what was printed. -/
def flush (texts : List Print) : IO Unit := do
  for text in texts do
    match text with
    | .say s => IO.print s
    | .warn s => IO.eprint s
  (← IO.getStdout).flush

/-! ## Steps -/

/-- The present. -/
def now : IO Time.Instant := do
  let t ← Std.Time.Timestamp.now
  let nanos := t.toNanosecondsSinceUnixEpoch.val
  return ⟨nanos / 1000000000, (nanos % 1000000000).toNat⟩

/-- A session that begins now. -/
def newSession : IO Observe.SessionId := do
  let t ← now
  let random := (← IO.getRandomBytes 10).toList.foldl (fun n b => n * 256 + b.toNat) 0
  return .fresh (t.seconds.toNat * 1000 + t.nanos / 1000000) random

/-- Print what a step printed and take what it wrote. -/
def settle (old : Disk) (stage : Stage Offline) : IO (Stage Offline) := do
  let c := stage.close.1
  try commit old c.disk
  catch e => IO.eprintln (toString e)
  flush c.printed
  return stage.onConsole fun c => { c with prints := [] }

/-- The bytes of the next line. -/
partial def nextPiece (input : IO.FS.Stream) (taken : ByteArray) : IO ByteArray := do
  let next ← input.read 1
  if next.isEmpty then return taken
  let taken := taken ++ next
  if next[0]? == some 10 then return taken
  nextPiece input taken

/-- Hear lines until the program has ended. -/
partial def listen (paths : List String) (stage : Stage Offline) : IO UInt32 := do
  match stage with
  | .ended _ status => return status.toUInt32
  | .listening _ _ =>
    let piece ← nextPiece (← IO.getStdin) .empty
    if piece.isEmpty then return stage.close.2.toUInt32
    let disk ← fetchAll paths
    let t ← now
    let stage := stage.onConsole fun c => { c with disk := disk, now := t }
    listen paths (← settle disk (stage.hear (Console.lineOf? piece.toList)))

end CellReview.Main

open CellReview in
/-- The program. -/
def main (arguments : List String) : IO UInt32 := do
  let env ← Main.environment arguments
  let paths := (Console.Invocation.ofArguments arguments).paths (← Main.fetchAll []) env
  let disk ← Main.fetchAll paths
  let c : Console Completion.Offline :=
    ⟨disk, env, ⟨⟩, ← Main.now, ← Main.newSession, []⟩
  Main.listen paths (← Main.settle disk (Console.Stage.start c arguments))
