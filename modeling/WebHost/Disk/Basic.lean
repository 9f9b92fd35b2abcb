import WebHost.Disk.Tree

/-! A file system of files and directories, and what can be done to it. -/
namespace WebHost

structure Disk where
  /-- What is in the root directory. -/
  entries : List (Text × Node) := []
  /-- Where relative paths start. -/
  workplace : Location := []
  deriving Repr

/-- Where a path leads: the last name need not exist. -/
structure Spot where
  location : Location
  entry : Option Entry
  /-- The path ends in a slash, so that only a directory will do. -/
  slashed : Bool
  /-- The last step is an ordinary name. -/
  named : Bool
  deriving DecidableEq, Repr

/-- What is found at each path. -/
abbrev Files := Text → Except FaultKind Entry

/-- What is read at a path. A directory can be opened but not read. -/
def Files.read (f : Files) (path : Text) : Except FaultKind Bytes :=
  match f path with
  | .error k => .error k
  | .ok e =>
    match e.content? with
    | none => .error .isADirectory
    | some content => .ok content

namespace Disk

/-- The length that no path reaches, in bytes. -/
def pathLimit : Nat := 4096

def root (d : Disk) : Node := .directory d.entries

def get? (d : Disk) (place : Location) : Option Entry := (d.root.at? place).map Node.entry

def put (d : Disk) (place : Location) (e : Entry) : Disk :=
  { d with entries := ((Node.ofEntry e).put d.root place).entries }

def remove (d : Disk) (place : Location) : Disk :=
  { d with entries := (d.root.remove place).entries }

theorem root_put (d : Disk) {place : Location} (e : Entry) (h : place ≠ []) :
    (d.put place e).root = (Node.ofEntry e).put d.root place := by
  cases place with
  | nil => exact absurd rfl h
  | cons s ss => rfl

theorem root_remove (d : Disk) (place : Location) : (d.remove place).root = d.root.remove place := by
  cases place with
  | nil => rfl
  | cons s ss =>
    simp only [remove, root, Node.remove]
    split
    · rfl
    · split <;> rfl

/-- An entry is put where no directory is, into a directory; then it is there, and all else is as
before. -/
theorem get?_put {d : Disk} {place : Location} (e : Entry) (h : place ≠ [])
    (above : d.get? place.dropLast = some .directory) (free : d.get? place ≠ some .directory)
    (p : Location) : (d.put place e).get? p = if p = place then some e else d.get? p := by
  by_cases hp : p = place
  · simp [get?, root_put d e h, hp, Node.at?_put]
  · rw [if_neg hp, get?, root_put d e h]
    exact Node.entry_at?_put e h above free hp

/-- What is no directory is removed, and all else is as before. -/
theorem get?_remove {d : Disk} {place : Location} (h : place ≠ [])
    (here : d.get? place ≠ some .directory) (p : Location) :
    (d.remove place).get? p = if p = place then none else d.get? p := by
  by_cases hp : p = place
  · simp [get?, root_remove, hp, Node.at?_remove h]
  · rw [if_neg hp, get?, root_remove]
    exact Node.entry_at?_remove here hp

def locate (d : Disk) (path : Text) : Except FaultKind Spot :=
  if path.contains '\x00' then .error .invalidInput
  else if Text.byteLength path ≥ pathLimit then .error .invalidFilename
  else if path.isEmpty then .error .notFound
  else
    let steps := FilePath.steps path
    let start := if FilePath.isAbsolute path then [] else d.workplace
    (d.root.walk [] (start ++ steps)).map fun (location, node) =>
      { location, entry := node.map Node.entry
        slashed := path.getLast? == some '/'
        named := steps.getLast?.any fun s => s != FilePath.here && s != FilePath.up }

/-- What a path leads to, if it is there. -/
def look (d : Disk) (path : Text) : Except FaultKind Entry :=
  match d.locate path with
  | .error k => .error k
  | .ok spot =>
    match spot.entry with
    | none => .error .notFound
    | some .directory => .ok .directory
    | some e => if spot.slashed then .error .notADirectory else .ok e

def read (d : Disk) (path : Text) : Except FaultKind Bytes := Files.read d.look path

def isDirectory (d : Disk) (path : Text) : Bool :=
  match d.look path with
  | .ok .directory => true
  | _ => false

/-- Makes one directory. -/
def makeDirectory (d : Disk) (path : Text) : Except FaultKind Disk :=
  match d.locate path with
  | .error k => .error k
  | .ok spot =>
    match spot.entry with
    | none => .ok (d.put spot.location .directory)
    | some _ => .error .alreadyExists

/-- The file to write at a path as it is so far, empty if it is new. -/
def openFile (d : Disk) (path : Text) : Except FaultKind (Location × Entry) :=
  match d.locate path with
  | .error k => .error k
  | .ok spot =>
    if spot.slashed || spot.entry = some .directory then .error .isADirectory
    else .ok (spot.location, spot.entry.getD (.file []))

/-- Makes the file empty, and new if need be. -/
def create (d : Disk) (path : Text) : Except FaultKind Disk :=
  (d.openFile path).map fun (place, e) => d.put place (e.filled [])

/-- Writes at the end of a file, which is made if need be. -/
def append (d : Disk) (path : Text) (bs : Bytes) : Except FaultKind Disk :=
  (d.openFile path).map fun (place, e) => d.put place (e.filled (e.content?.getD [] ++ bs))

/-- Moves a file over whatever file is at the new path. -/
def rename (d : Disk) (old new : Text) : Except FaultKind Disk :=
  match d.locate old, d.locate new with
  | .error k, _ => .error k
  | _, .error k => .error k
  | .ok source, .ok target =>
    match source.entry with
    | none => .error .notFound
    | some .directory => .error .isADirectory
    | some e =>
      if ! target.named then .error .resourceBusy
      else if source.slashed || target.slashed then .error .notADirectory
      else if target.entry = some .directory then .error .isADirectory
      else .ok ((d.remove source.location).put target.location e)

/-- Makes one directory; one that is there already will do. -/
def ensureDirectory (d : Disk) (path : Text) : Except FaultKind Disk :=
  match d.makeDirectory path with
  | .error .alreadyExists => if d.isDirectory path then .ok d else .error .alreadyExists
  | outcome => outcome

/-- The outcome of a change that does all or nothing. -/
def settle (d : Disk) : Except FaultKind Disk → Except FaultKind Unit × Disk
  | .ok d' => (.ok (), d')
  | .error k => (.error k, d)

/-- Makes a directory and those above it that are missing; their paths are given by their lengths,
longest first. What has been made stays made when a later step fails. -/
def makeDirectoriesUp (d : Disk) (path : Text) : List Nat → Except FaultKind Unit × Disk
  | [] => (.ok (), d)
  | n :: above =>
    match d.ensureDirectory (path.take n) with
    | .error .notFound =>
      match d.makeDirectoriesUp path above with
      | (.ok (), d') => d'.settle (d'.ensureDirectory (path.take n))
      | failed => failed
    | outcome => d.settle outcome

def makeDirectories (d : Disk) (path : Text) : Except FaultKind Unit × Disk :=
  d.makeDirectoriesUp path (FilePath.lengths path)

/-- Everything below the workplace as relative paths, sorted; directories end in a slash. -/
def listing (d : Disk) : List Text :=
  (((d.root.at? d.workplace).map (Node.paths [])).getD []).mergeSort fun a b =>
    ! List.lex b a fun c d => Nat.blt c.toNat d.toNat

/-- A disk with directories at the given places and nothing else. -/
def vacant (workplace : Location) (directories : List Location) : Disk :=
  directories.foldl (fun d place => d.put place .directory) { workplace }

end Disk
end WebHost
