import WebHost.Text.Basic

/-! File paths as text and as components. A path names the same place as the list of its
components: repeated and trailing slashes and single dots within say nothing. -/
namespace WebHost.FilePath

inductive Component
  | root
  /-- A single dot in front of a relative path. -/
  | here
  | up
  | name (n : Text)
  deriving DecidableEq, Repr

def isAbsolute (p : Text) : Bool := p.head? == some '/'

/-- The stretches between slashes that are not empty. -/
def steps (p : Text) : List Text := (p.splitOn '/').filter fun s => ! s.isEmpty

def here : Text := ['.']
def up : Text := ['.', '.']

def Component.ofStep (s : Text) : Component := if s = FilePath.up then .up else .name s

/-- The components of a path, the last one first, each with the length of the path up to its end. -/
def marks (p : Text) : List (Component × Nat) :=
  let pieces := p.splitOn '/'
  let front :=
    if isAbsolute p then [(Component.root, 1)]
    else if pieces.head? = some here then [(Component.here, 1)]
    else []
  (pieces.foldl (fun (start, ms) s =>
    let stop := start + s.length
    (stop + 1, if s.isEmpty || s = here then ms else (Component.ofStep s, stop) :: ms))
    (0, front)).2

def components (p : Text) : List Component := ((marks p).map Prod.fst).reverse

/-- The last component, if it is an ordinary name. -/
def fileName? (p : Text) : Option Text :=
  match marks p with
  | (.name n, _) :: _ => some n
  | _ => none

/-- The path up to the component before the last, as it is written; the root and the empty path have
none to give up. -/
def parent? (p : Text) : Option Text :=
  match marks p with
  | [] | (.root, _) :: _ => none
  | [_] => some []
  | _ :: (_, stop) :: _ => some (p.take stop)

/-- The lengths of a path and of those above it, longest first. The root and the empty path are left
out. -/
def lengths (p : Text) : List Nat :=
  match marks p with
  | [] | (.root, _) :: _ => []
  | _ :: above => p.length :: (above.filter fun m => m.1 != .root).map Prod.snd

/-- A name cut at its last dot. A name without a dot, or with none but the first, has no
extension. -/
def splitName (n : Text) : Text × Option Text :=
  let rest := n.reverse.dropWhile (· != '.')
  match rest with
  | _ :: stem@(_ :: _) => (stem.reverse, some (n.drop rest.length))
  | _ => (n, none)

def extension? (p : Text) : Option Text := (fileName? p).bind fun n => (splitName n).2

/-- The path with `extension` put after the stem of its last component; a path without an ordinary
last component stays as it is. -/
def putExtension (extension : Text) (p : Text) : Text :=
  match marks p with
  | (.name n, stop) :: _ => p.take (stop - n.length) ++ (splitName n).1 ++ '.' :: extension
  | _ => p

/-- The path with another extension. As many characters as the old extension has are dropped from
the end before the new one is put, so that `..x` leaves `..`, which takes none. -/
def withExtension (extension : Text) (p : Text) : Text :=
  match extension? p with
  | none => putExtension extension p
  | some old => putExtension extension (p.take (p.length - old.length))

/-- `name` as seen from `root`. An absolute name stands for itself. -/
def join (root name : Text) : Text :=
  if isAbsolute name then name
  else if root.isEmpty || root.getLast? == some '/' then root ++ name
  else root ++ '/' :: name

end WebHost.FilePath
