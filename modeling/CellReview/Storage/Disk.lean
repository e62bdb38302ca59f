import CellReview.Storage.Path

/-!
# Directories and files

A disk is a tree of directories with files at its leaves.  Paths are walked one
component at a time: every component but the last has to be a directory.

* `Disk` — the tree, with the current directory;
* `DiskFault` — why a path cannot be used, with the system's wording;
* `Spot`, `Disk.walk` — where a path leads to;
* `Disk.find` — what stands at a path;
* `Disk.readText`, `Disk.write`, `Disk.append`, `Disk.makeDirs` — the operations.
-/

namespace CellReview

/-! ## Faults -/

/-- Why a path cannot be used. -/
inductive DiskFault where
  | notFound
  | alreadyExists
  | notADirectory
  | isADirectory
  /-- The path, or a component of it, is too long. -/
  | nameTooLong
  /-- The bytes are not UTF-8. -/
  | invalidData
  deriving DecidableEq, Repr

/-- The name of a fault. -/
def DiskFault.name : DiskFault → String
  | notFound => "NotFound"
  | alreadyExists => "AlreadyExists"
  | notADirectory => "NotADirectory"
  | isADirectory => "IsADirectory"
  | nameTooLong => "InvalidFilename"
  | invalidData => "InvalidData"

/-- The system's wording of a fault. -/
def DiskFault.message : DiskFault → String
  | notFound => "No such file or directory (os error 2)"
  | alreadyExists => "File exists (os error 17)"
  | notADirectory => "Not a directory (os error 20)"
  | isADirectory => "Is a directory (os error 21)"
  | nameTooLong => "File name too long (os error 36)"
  | invalidData => "stream did not contain valid UTF-8"

/-! ## Nodes -/

/-- A file with its bytes, or a directory with what it holds. -/
inductive Node where
  | file (bytes : ByteArray)
  | directory (entries : List (String × Node))

/-- The components of a place, from the root on. -/
abbrev Place := List String

namespace Node

/-- Whether two nodes are files with the same bytes, or both directories. -/
def same : Node → Node → Bool
  | .file a, .file b => a.toList == b.toList
  | .directory _, .directory _ => true
  | _, _ => false

/-- What a node holds; a file holds nothing. -/
def entries : Node → List (String × Node)
  | .file _ => []
  | .directory entries => entries

/-- The node of a name in a directory. -/
def child? (node : Node) (name : String) : Option Node :=
  (node.entries.find? fun entry => entry.1 == name).map (·.2)

/-- A directory with another node under a name. -/
def setChild (node : Node) (name : String) (child : Node) : Node :=
  .directory ((node.entries.filter fun entry => entry.1 != name) ++ [(name, child)])

/-- The node at a place below another one. -/
def at? : Node → Place → Option Node
  | node, [] => some node
  | node, name :: rest => (node.child? name).bind fun child => at? child rest

/-- A node with another one at a place below it; directories are made on the way. -/
def put : Node → Place → Node → Node
  | _, [], new => new
  | node, name :: rest, new =>
    node.setChild name (put ((node.child? name).getD (.directory [])) rest new)

mutual

/-- A node and those below it with their places; `names` leads to it, the nearest first. -/
def listed (names : List String) : Node → List (Place × Node)
  | .file bytes => [(names.reverse, .file bytes)]
  | .directory entries => (names.reverse, .directory entries) :: listedBelow names entries

/-- The nodes of a directory and those below them with their places. -/
def listedBelow (names : List String) : List (String × Node) → List (Place × Node)
  | [] => []
  | (name, node) :: rest => listed (name :: names) node ++ listedBelow names rest

end

end Node

/-! ## The disk -/

/-- A tree of directories and files.  The root is always a directory. -/
structure Disk where
  root : Node
  current : Place

/-- Where a path leads to: the names on the way and the directories above, the nearest
first, and what stands there. -/
structure Spot where
  names : List String
  above : List Node
  here : Option Node

namespace Spot

/-- The spot of a name in a directory. -/
def child (s : Spot) (name : String) : Spot :=
  match s.here with
  | some node => ⟨name :: s.names, node :: s.above, node.child? name⟩
  | none => ⟨name :: s.names, .directory [] :: s.above, none⟩

/-- The spot above; the root is above itself. -/
def parent (s : Spot) : Spot :=
  match s.above with
  | node :: above => ⟨s.names.tail, above, some node⟩
  | [] => s

/-- The place of a spot. -/
def place (s : Spot) : Place :=
  s.names.reverse

/-- Take a step from a directory. -/
def step (s : Spot) (name : String) : Except DiskFault Spot :=
  match s.here with
  | none => .error .notFound
  | some (.file _) => .error .notADirectory
  | some (.directory _) =>
    if name = "." then .ok s
    else if name = ".." then .ok s.parent
    else if name.utf8ByteSize > Path.longestName then .error .nameTooLong
    else .ok (s.child name)

end Spot

namespace Disk

/-- A disk with nothing but its current directory. -/
def empty (current : Place) : Disk :=
  ⟨Node.put (.directory []) current (.directory []), current⟩

/-- The path of the current directory. -/
def currentPath (d : Disk) : String :=
  Path.ofNames true d.current

/-- The node at a place. -/
def at? (d : Disk) (place : Place) : Option Node :=
  d.root.at? place

/-- The nodes with their places, a directory before what it holds. -/
def nodes (d : Disk) : List (Place × Node) :=
  d.root.listed []

/-- The files with their places. -/
def files (d : Disk) : List (Place × ByteArray) :=
  d.nodes.filterMap fun entry =>
    match entry.2 with
    | .file bytes => some (entry.1, bytes)
    | .directory _ => none

/-- A disk with a file at a place, in directories that are made where there are none. -/
def putFile (d : Disk) (place : Place) (bytes : ByteArray) : Disk :=
  { d with root := d.root.put place (.file bytes) }

/-- A disk with a directory at a place; one that is there stays as it is. -/
def putDirectory (d : Disk) (place : Place) : Disk :=
  match d.at? place with
  | some (.directory _) => d
  | _ => { d with root := d.root.put place (.directory []) }

/-! ## Walking -/

/-- The root. -/
def rootSpot (d : Disk) : Spot :=
  ⟨[], [], some d.root⟩

/-- The spot that a path leads to, whether something stands there or not. -/
def walk (d : Disk) (path : String) : Except DiskFault Spot :=
  if path.isEmpty then .error .notFound
  else if path.utf8ByteSize > Path.longest then .error .nameTooLong
  else
    (Path.steps path).foldlM Spot.step
      (if Path.isAbsolute path then d.rootSpot else d.current.foldl Spot.child d.rootSpot)

/-- The node that a path leads to. -/
def find (d : Disk) (path : String) : Except DiskFault Node := do
  match (← d.walk path).here with
  | some node => .ok node
  | none => .error .notFound

/-- Whether something stands at a path. -/
def holds (d : Disk) (path : String) : Bool :=
  (d.find path).isOk

/-! ## Operations -/

/-- The bytes of the file at a path. -/
def readBytes (d : Disk) (path : String) : Except DiskFault ByteArray := do
  match ← d.find path with
  | .file bytes => .ok bytes
  | .directory _ => .error .isADirectory

/-- The text of the file at a path. -/
def readText (d : Disk) (path : String) : Except DiskFault String := do
  match String.fromUTF8? (← d.readBytes path) with
  | some text => .ok text
  | none => .error .invalidData

/-- The place of a file that can be written, and its bytes if it is there. -/
def writable (d : Disk) (path : String) : Except DiskFault (Place × Option ByteArray) := do
  let s ← d.walk path
  match s.here with
  | some (.directory _) => .error .isADirectory
  | some (.file bytes) => .ok (s.place, some bytes)
  | none => .ok (s.place, none)

/-- Make a text the content of the file at a path. -/
def write (d : Disk) (path text : String) : Except DiskFault Disk := do
  let (place, _) ← d.writable path
  .ok (d.putFile place text.toUTF8)

/-- Add a text at the end of the file at a path. -/
def append (d : Disk) (path text : String) : Except DiskFault Disk := do
  let (place, bytes) ← d.writable path
  .ok (d.putFile place (bytes.getD .empty ++ text.toUTF8))

/-- Make a directory in an existing one. -/
def makeDir (d : Disk) (path : String) : Except DiskFault Disk := do
  let s ← d.walk path
  match s.here with
  | some _ => .error .alreadyExists
  | none => .ok (d.putDirectory s.place)

/-- Whether a path leads to a directory. -/
def isDirectory (d : Disk) (path : String) : Bool :=
  match d.find path with
  | .ok (.directory _) => true
  | _ => false

/-- Make a directory, or be content with one that is there. -/
def makeDirOrKeep (d : Disk) (path : String) : Except DiskFault Disk :=
  match d.makeDir path with
  | .ok d => .ok d
  | .error fault => if d.isDirectory path then .ok d else .error fault

/-- Make the directory of the first path, after those of the others while they are missing. -/
def makeChain (d : Disk) : List String → Except DiskFault Disk
  | [] => .ok d
  | path :: above =>
    match d.makeDir path with
    | .ok d => .ok d
    | .error fault =>
      if fault = .notFound then do
        let d ← d.makeChain above
        d.makeDirOrKeep path
      else if d.isDirectory path then .ok d
      else .error fault

/-- Make a directory and those above it. -/
def makeDirs (d : Disk) (path : String) : Except DiskFault Disk :=
  d.makeChain (Path.parents path)

end Disk

end CellReview
