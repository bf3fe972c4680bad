import ReferralForest.Tool.CommandLine

/-!
# Disks

A machine without a disk can still run the tool: it keeps directories and files in memory. Paths are
followed name by name, so that what they go through has to be there: names go on from directories
only, two dots lead to the directory around one, and a single dot stays.

A store consists of two files, one with its entries and one that tells who uses it. It is a map of
the first into memory, so that its room is bounded by the memory that can be addressed in one piece.
-/

namespace ReferralForest

open CommandLine (ReadFault Request)

namespace Disk

/-- The names on the way from the root to a file or directory. -/
abbrev Place := List String

/-- What a file holds. -/
inductive File where
  /-- A text. -/
  | text (content : String)
  /-- The entries of a store. -/
  | store (store : Store)
  /-- Something else that is no text. -/
  | binary
  /-- Nothing, whatever is written to it. -/
  | void

/-- The places a place lies in, from the root on. -/
def Place.above (place : Place) : List Place := (List.range place.length).map fun n => place.take n

/-- The names in a path. -/
def names (path : String) : List String := (path.splitOn "/").filter (· ≠ "")

/-- Whether a path begins at the root. -/
def isAbsolute (path : String) : Bool := "/".isPrefixOf path

/-- Whether a path ends in a slash, which only a directory can have. -/
def endsInSlash (path : String) : Bool := path.toList.getLast? = some '/'

/-- The paths of the directories around the one at a path, from the outermost on. -/
def around (path : String) : List String :=
  let inner := (names path).filter (· ≠ ".")
  ((List.range inner.length).drop 1).map fun n =>
    (if isAbsolute path then "/" else "") ++ "/".intercalate (inner.take n)

/-- How many bytes a name can have. -/
def maxNameLength : Nat := 255

/-- How many bytes a path can have. -/
def maxPathLength : Nat := 4095

/-- The unit in which memory is handed out. -/
def pageSize : Nat := 4096

/-- How much memory can be addressed in one piece: what lies below the program, which is loaded at
two thirds of all addresses. -/
def largestMapping : Nat := 0x555555544000

/-- Whether a path can be followed at all. -/
def check (path : String) : Except ReadFault Unit :=
  if path.isEmpty then .error .notFound
  else if maxPathLength < path.utf8ByteSize then .error .nameTooLong
  else .ok ()

end Disk

/-- Directories and files in memory. -/
structure Disk where
  /-- The directory in which the tool runs. -/
  home : Disk.Place
  /-- The directories, apart from the root. -/
  directories : List Disk.Place
  /-- The files. -/
  files : List (Disk.Place × Disk.File)
  /-- The time. -/
  clock : UInt64

namespace Disk

/-- The directories in the root of a machine. -/
def rootDirectories : List Place :=
  ["bin", "dev", "etc", "home", "lib", "opt", "proc", "root", "run", "sbin", "srv", "sys", "tmp",
    "usr", "var"].map ([·])

/-- A disk with some files in the directory in which the tool runs, at the beginning of 2026. -/
def ofFiles (files : List (String × String)) : Disk where
  home := ["tmp", "referrals"]
  directories := ["tmp", "referrals"] :: rootDirectories ++
    files.flatMap fun file => Place.above (["tmp", "referrals"] ++ names file.1)
  files := (["dev", "null"], .void) ::
    files.map fun (name, content) => (["tmp", "referrals"] ++ names name, .text content)
  clock := 1767225600

/-- The file at a place. -/
def file? (disk : Disk) (place : Place) : Option File := disk.files.lookup place

/-- Whether there is a directory at a place. -/
def isDirectory (disk : Disk) (place : Place) : Bool :=
  place.isEmpty || disk.directories.contains place

/-- Whether there is a file at a place. -/
def isFile (disk : Disk) (place : Place) : Bool := (disk.file? place).isSome

/-- The disk with a file replaced. -/
def put (disk : Disk) (place : Place) (file : File) : Disk :=
  { disk with files := (place, file) :: disk.files.filter fun f => f.1 ≠ place }

/-! ### Paths -/

/-- Goes on from a place by a name. -/
def enter (disk : Disk) (place : Place) (name : String) : Except ReadFault Place :=
  if !disk.isDirectory place then .error .notDirectory
  else if name = "." then .ok place
  else if name = ".." then .ok place.dropLast
  else if maxNameLength < name.utf8ByteSize then .error .nameTooLong
  else if disk.isDirectory (place ++ [name]) || disk.isFile (place ++ [name]) then
    .ok (place ++ [name])
  else .error .notFound

/-- Follows names from where a path begins. -/
def follow (disk : Disk) (path : String) (names : List String) : Except ReadFault Place :=
  names.foldlM disk.enter (if isAbsolute path then [] else disk.home)

/-- Where a path leads. -/
def find (disk : Disk) (path : String) : Except ReadFault Place := do
  check path
  disk.follow path (if endsInSlash path then names path ++ ["."] else names path)

/-- The place that the last name of a path has in the directory before it, whatever is there. Dots
have none: they stand for directories that are there. -/
def slot (disk : Disk) (path : String) : Except ReadFault (Option Place) := do
  check path
  let dir ← disk.follow path (names path).dropLast
  let name := (names path).getLast?.getD "."
  if !disk.isDirectory dir then .error .notDirectory
  else if name = "." ∨ name = ".." then return none
  else if maxNameLength < name.utf8ByteSize then .error .nameTooLong
  else return some (dir ++ [name])

/-! ### Files and directories -/

/-- The text of a file. -/
def read (disk : Disk) (path : String) : Except ReadFault String := do
  let place ← disk.find path
  if disk.isDirectory place then .error .isDirectory
  else
    match disk.file? place with
    | none => .error .notFound
    | some (.text content) => return content
    | some .void => return ""
    | some _ => .error (.other "stream did not contain valid UTF-8")

/-- The disk with a file, whose directory must be there. -/
def write? (disk : Disk) (path content : String) : Option Disk :=
  match disk.slot path with
  | .error _ | .ok none => none
  | .ok (some place) =>
    if endsInSlash path || disk.isDirectory place then none
    else
      match disk.file? place with
      | some .void => some disk
      | _ => some (disk.put place (.text content))

/-- The disk with a directory, in one that must be there. -/
def makeDirectory (disk : Disk) (path : String) : Except ReadFault Disk := do
  match ← disk.slot path with
  | none => return disk
  | some place =>
    if disk.isFile place then .error .notDirectory
    else if disk.isDirectory place then return disk
    else return { disk with directories := place :: disk.directories }

/-- Makes directories one after the other, as long as that is possible, and tells whether all of
them are there. -/
def makeEach (disk : Disk) : List String → Bool × Disk
  | [] => (true, disk)
  | path :: rest =>
    match disk.makeDirectory path with
    | .ok disk => disk.makeEach rest
    | .error _ => (false, disk)

/-- Makes a directory and those around it, and tells whether it is there. -/
def makeDirectories (disk : Disk) (path : String) : Bool × Disk :=
  match check path with
  | .error _ => (false, disk)
  | .ok () => disk.makeEach (around path ++ [path])

/-! ### Stores -/

/-- The file with the entries of a store. -/
def dataFile (dir : Place) : Place := dir ++ ["data.mdb"]

/-- The file that tells who uses a store. -/
def lockFile (dir : Place) : Place := dir ++ ["lock.mdb"]

/-- The entries of the store in a directory, which are none if there is no store yet, and the disk
with its files. -/
def loadStore (disk : Disk) (dir : Place) : Option Store × Disk :=
  if disk.isDirectory (lockFile dir) then (none, disk)
  else
    let disk := disk.put (lockFile dir) .binary
    if disk.isDirectory (dataFile dir) then (none, disk)
    else
      match disk.file? (dataFile dir) with
      | some (.store store) => (some store, disk)
      | none | some (.text "") =>
        let store := Store.ofPolicy .keySized
        (some store, disk.put (dataFile dir) (.store store))
      | some _ => (none, disk)

/-- The store in a directory, with room for some bytes, and the disk with that directory, those
around it and the files of the store. -/
def openStore (disk : Disk) (path : String) (capacity : Nat) : Option Store × Disk :=
  let (made, disk) := disk.makeDirectories path
  match disk.find path with
  | .error _ => (none, disk)
  | .ok dir =>
    if !made || capacity % pageSize ≠ 0 then (none, disk)
    else
      let (store, disk) := disk.loadStore dir
      (if capacity ≤ largestMapping then store else none, disk)

/-- The disk with the store in a directory replaced. -/
def save (disk : Disk) (path : String) (store : Store) : Disk :=
  match disk.find path with
  | .error _ => disk
  | .ok dir => disk.put (dataFile dir) (.store store)

/-! ### Runs -/

/-- The answer to a request, and the disk after it. -/
def answer : (request : Request) → Disk → Except Failure request.Answer × Disk
  | .readFile path, disk => (.ok (disk.read path), disk)
  | .writeFile path text, disk =>
    match disk.write? path text with
    | some disk => (.ok true, disk)
    | none => (.ok false, disk)
  | .openStore dir capacity, disk =>
    let (store, disk) := disk.openStore dir capacity
    (.ok store, disk)
  | .saveStore dir store, disk => (.ok (), disk.save dir store)
  | .now, disk => (.ok disk.clock, disk)

/-- How a run of the tool ends on a disk, and the disk after it. -/
def run (disk : Disk) (args : List String) : CommandLine.Outcome × Disk :=
  match (CommandLine.run args).runWith Disk.answer disk with
  | (.ok outcome, disk) => (outcome, disk)
  | (.error f, disk) => (.failure f, disk)

end Disk

end ReferralForest
