/-
Where files are kept. Programs that work on files are written against a
`Disk`, a record of the few operations they need; a `FileTree` is a disk that
is a plain value.

Paths are texts with `/` between their parts. A path leads from part to part,
and each part but the last has to be a directory. It starts at the root if it
begins with `/`, and else at the directory one works in.
-/
import Std.Data.ExtTreeMap
import Std.Data.ExtTreeSet
import EventScript.Fault

namespace EventScript

/-- The operations programs need of the place where files are kept. -/
structure Disk (m : Type → Type) where
  /-- The contents of a file. -/
  read : String → m (Except FileFault (List UInt8))
  /-- Makes a file with the given contents, or replaces it. -/
  write : String → List UInt8 → m (Except FileFault Unit)
  /-- Whether a path leads to a directory. -/
  isDirectory : String → m Bool
  /-- Makes a directory in one that is there. -/
  makeDirectory : String → m (Except FileFault Unit)
  /-- The files under a path that are not empty, by the parts of their paths
  from there on, in ascending order. A file lies under itself. A fault tells
  where it was met. -/
  filesUnder : String → m (Except FileFault (List (List String)))

namespace Path

/-- The pieces of a path between its slashes. -/
def pieces (path : String) : List String :=
  (path.toList.splitOn '/').map String.ofList

/-- The parts a path leads through. -/
def parts (path : String) : List String := (pieces path).filter (· ≠ "")

/-- Whether a path starts at the root. -/
def isAbsolute (path : String) : Bool := path.toList.head? = some '/'

/-- Whether a slash follows the last part of a path. -/
def endsInSlash (path : String) : Bool := path.toList.getLast? = some '/'

/-- One path behind another. -/
def join (base path : String) : String :=
  if base = "" || endsInSlash base then base ++ path else base ++ "/" ++ path

/-- A path followed by further parts. -/
def joinParts (base : String) (parts : List String) : String := parts.foldl join base

/-- The paths one comes by on the way from a path along further parts. -/
def along (base : String) : List String → List String
  | [] => []
  | part :: rest => join base part :: along (join base part) rest

/-- The reverse of a path without what adds nothing at its end: slashes, and
parts that stay where they are. The root keeps its slash. -/
def trimEnd : List Char → List Char
  | '/' :: c :: rest => trimEnd (c :: rest)
  | '.' :: '/' :: rest => trimEnd ('/' :: rest)
  | reversed => reversed

theorem length_trimEnd_le (reversed : List Char) : (trimEnd reversed).length ≤ reversed.length := by
  fun_induction trimEnd reversed with
  | case1 c rest ih => exact Nat.le_succ_of_le ih
  | case2 rest ih => exact Nat.le_succ_of_le ih
  | case3 => exact Nat.le_refl _

/-- A path, given in reverse, and every path it lies in, from the inside out. -/
def outwardsFrom : List Char → List String
  | [] => []
  | c :: rest =>
    String.ofList (c :: rest).reverse :: outwardsFrom (trimEnd (rest.dropWhile (· ≠ '/')))
termination_by reversed => reversed.length
decreasing_by
  have trimmed := length_trimEnd_le (rest.dropWhile (· ≠ '/'))
  have dropped := (List.dropWhile_sublist (· ≠ '/') (l := rest)).length_le
  simp only [List.length_cons]
  omega

/-- The directories a path lies in, from the inside out, as far as it names them. -/
def enclosing (path : String) : List String := (outwardsFrom (trimEnd path.toList.reverse)).tail

/-- The most bytes a path may have. -/
def longestPath : Nat := 4095

/-- The most bytes a part of a path may have. -/
def longestName : Nat := 255

/-- Whether a path has too many bytes. -/
def isTooLong (path : String) : Bool := longestPath < path.utf8ByteSize

/-- Refuses a path that can lead nowhere, whatever there is. -/
def check (path : String) : Except FileFault Unit :=
  if path.toList.contains '\x00' then .error .nullInName
  else if path = "" then .error .notFound
  else if isTooLong path then .error .nameTooLong
  else .ok ()

end Path

namespace Disk

/-- What the making of a directory amounts to, if it only has to be there. -/
def settle [Monad m] (disk : Disk m) (path : String) :
    Except FileFault Unit → m (Except FileFault Unit)
  | .ok () => return .ok ()
  | .error fault => do
    if ← disk.isDirectory path then return .ok () else return .error fault

/-- Makes the first directory, which lies in those that follow, from the inside
out. Only if there is no place for it are those made before it. -/
def makeDirectories [Monad m] (disk : Disk m) : List String → m (Except FileFault Unit)
  | [] => return .ok ()
  | path :: outer => do
    match ← disk.makeDirectory path with
    | .error .notFound =>
      match ← disk.makeDirectories outer with
      | .ok () => disk.settle path (← disk.makeDirectory path)
      | .error fault => return .error fault
    | answer => disk.settle path answer

end Disk

/-- Files and directories, each by the parts of its path from the root. -/
structure FileTree where
  files : Std.ExtTreeMap (List String) (List UInt8) := ∅
  /-- The directories; those around the one that is worked in need not be listed. -/
  directories : Std.ExtTreeSet (List String) := ∅
  /-- The directory that is worked in. -/
  home : List String := []

namespace FileTree

/-- What a path leads to. -/
inductive Node where
  | file (bytes : List UInt8)
  | directory
  | absent
  deriving DecidableEq, Repr

/-- What there is at a location. -/
def nodeAt (tree : FileTree) (location : List String) : Node :=
  if location.isPrefixOf tree.home || tree.directories.contains location then .directory
  else match tree.files[location]? with
    | some bytes => .file bytes
    | none => .absent

/-- The location a part leads to from the directory `here`, and what there is.
Nothing lies around the root but the root itself. -/
def step (tree : FileTree) (here : List String) (part : String) :
    Except FileFault (List String × Node) :=
  if part = "." then .ok (here, .directory)
  else if part = ".." then .ok (here.dropLast, .directory)
  else if Path.longestName < part.utf8ByteSize then .error .nameTooLong
  else .ok (here ++ [part], tree.nodeAt (here ++ [part]))

/-- The directory that parts lead to from the directory `here`. -/
def enter (tree : FileTree) : (here : List String) → List String → Except FileFault (List String)
  | here, [] => .ok here
  | here, part :: rest => do
    match ← tree.step here part with
    | (next, .directory) => tree.enter next rest
    | (_, .file _) => .error .notADirectory
    | (_, .absent) => .error .notFound

/-- Where a path starts. -/
def start (tree : FileTree) (path : String) : List String :=
  if Path.isAbsolute path then [] else tree.home

/-- The directory a path leads to before its last part, and that part. The root
itself has no parts. -/
def enterParent (tree : FileTree) (path : String) :
    Except FileFault (List String × Option String) := do
  Path.check path
  let parts := Path.parts path
  let here ← tree.enter (tree.start path) parts.dropLast
  .ok (here, parts.getLast?)

/-- The location a path leads to, and what there is. Only a directory may be
followed by a slash. -/
def locate (tree : FileTree) (path : String) : Except FileFault (List String × Node) := do
  match ← tree.enterParent path with
  | (here, none) => .ok (here, .directory)
  | (here, some part) =>
    match ← tree.step here part with
    | (location, .file bytes) =>
      if Path.endsInSlash path then .error .notADirectory else .ok (location, .file bytes)
    | found => .ok found

/-- The contents of a file. -/
def read (tree : FileTree) (path : String) : Except FileFault (List UInt8) := do
  match ← tree.locate path with
  | (_, .file bytes) => .ok bytes
  | (_, .directory) => .error .isADirectory
  | (_, .absent) => .error .notFound

/-- Makes a file, or replaces its contents. A path that ends in a slash can only
mean a directory, whatever there is. -/
def write (tree : FileTree) (path : String) (bytes : List UInt8) : Except FileFault FileTree := do
  match ← tree.enterParent path with
  | (_, none) => .error .isADirectory
  | (here, some part) =>
    if Path.endsInSlash path then .error .isADirectory
    else match ← tree.step here part with
      | (_, .directory) => .error .isADirectory
      | (location, _) => .ok { tree with files := tree.files.insert location bytes }

/-- Whether a path leads to a directory. -/
def isDirectory (tree : FileTree) (path : String) : Bool :=
  match tree.locate path with
  | .ok (_, .directory) => true
  | _ => false

/-- Makes a directory in one that is there. -/
def makeDirectory (tree : FileTree) (path : String) : Except FileFault FileTree := do
  match ← tree.enterParent path with
  | (_, none) => .error .alreadyExists
  | (here, some part) =>
    match ← tree.step here part with
    | (location, .absent) => .ok { tree with directories := tree.directories.insert location }
    | _ => .error .alreadyExists

/-- The files under a location, by their parts from there on. -/
def filesFrom (tree : FileTree) (location : List String) : List (List String × List UInt8) :=
  tree.files.toList.filterMap fun (file, bytes) =>
    (location.isPrefixOf? file).map fun parts => (parts, bytes)

/-- The files under a path that are not empty. On the way to any file, paths
must not get too long. -/
def filesUnder (tree : FileTree) (root : String) : Except FileFault (List (List String)) :=
  match tree.locate root with
  | .error fault => .error (.walking root fault)
  | .ok (_, .absent) => .error (.walking root .notFound)
  | .ok (_, .file bytes) => .ok (if bytes.isEmpty then [] else [[]])
  | .ok (location, .directory) =>
    let found := tree.filesFrom location
    match found.findSome? fun (parts, _) => (Path.along root parts).find? Path.isTooLong with
    | some path => .error (.walking path .nameTooLong)
    | none => .ok ((found.filter fun (_, bytes) => !bytes.isEmpty).map (·.1))

/-- Puts a file into the tree, with the directories it lies in. -/
def insert (tree : FileTree) (path : String) (bytes : List UInt8) : FileTree :=
  let location := tree.start path ++ (Path.parts path).filter (· ≠ ".")
  { tree with
    files := tree.files.insert location bytes
    directories := (List.range location.length).foldl
      (fun directories n => directories.insert (location.take n)) tree.directories }

/-- Changes the tree, unless that fails. -/
def change (action : FileTree → Except FileFault FileTree) :
    StateM FileTree (Except FileFault Unit) := do
  match action (← get) with
  | .ok tree => set tree; return .ok ()
  | .error fault => return .error fault

/-- A tree as a disk. -/
def disk : Disk (StateM FileTree) where
  read path := do return (← get).read path
  write path bytes := change (·.write path bytes)
  isDirectory path := do return (← get).isDirectory path
  makeDirectory path := change (·.makeDirectory path)
  filesUnder root := do return (← get).filesUnder root

end FileTree
end EventScript
