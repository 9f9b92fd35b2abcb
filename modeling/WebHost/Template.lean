import WebHost.Disk.Basic
import WebHost.Text.Blank
import WebHost.Text.Cut
import WebHost.Text.Utf8

/-! Pages with marked places. A place is a name between double braces; rendering puts a value there
and never looks at the value for further places. -/
namespace WebHost

/-- Values by name, in the order in which the names were first set. -/
abbrev Values := List (Text × Text)

namespace Values

def set : Values → Text → Text → Values
  | [], name, value => [(name, value)]
  | (n, v) :: rest, name, value =>
    if n = name then (n, value) :: rest else (n, v) :: set rest name value

def get? (vs : Values) (name : Text) : Option Text :=
  (vs.find? fun p => p.1 = name).map Prod.snd

/-- The values set by these pairs in turn. -/
def ofPairs (pairs : List (Text × Text)) : Values :=
  pairs.foldl (fun vs p => vs.set p.1 p.2) []

@[simp] theorem get?_set (vs : Values) (n v q : Text) :
    (vs.set n v).get? q = if q = n then some v else vs.get? q := by
  induction vs with
  | nil => by_cases h : n = q <;> simp [set, get?, h, eq_comm]
  | cons p rest ih =>
    obtain ⟨m, w⟩ := p
    rw [set]
    split
    · next hm =>
      subst hm
      by_cases hq : m = q
      · simp [get?, hq]
      · simp [get?, hq, Ne.symm hq]
    · next hm =>
      by_cases hq : m = q
      · have : q ≠ n := hq ▸ hm
        simp [get?, hq, this]
      · simpa [get?, hq] using ih

end Values

namespace Template

def opening : Text := ['\x7b', '\x7b']
def closing : Text := ['\x7d', '\x7d']

/-- A stretch of plain text and the marker after it, without the braces. -/
structure Piece where
  plain : Text
  marker : Text
  deriving DecidableEq, Repr

/-- The pieces of a page and what is left: text without an opening, or from an opening that
nothing closes. -/
def split (t : Text) : List Piece × Text :=
  match _ : Text.cut? opening t with
  | none => ([], t)
  | some (plain, afterOpening) =>
    match _ : Text.cut? closing afterOpening with
    | none => ([], t)
    | some (marker, rest) =>
      let (pieces, left) := split rest
      (⟨plain, marker⟩ :: pieces, left)
termination_by t.length
decreasing_by
  have := Text.length_lt_of_cut? (by simp [opening]) ‹Text.cut? opening t = _›
  have := Text.length_lt_of_cut? (by simp [closing]) ‹Text.cut? closing _ = _›
  omega

/-- A marker's value goes by its name without blanks around it; an unknown name has an empty one. -/
def valueAt (vs : Values) (marker : Text) : Text := (vs.get? (Text.trim marker)).getD []

def render (vs : Values) (t : Text) : Text :=
  let (pieces, left) := split t
  (pieces.flatMap fun p => p.plain ++ valueAt vs p.marker) ++ left

/-- A page that could not be read. -/
structure LoadError where
  path : Text
  cause : IoError
  deriving DecidableEq, Repr

def LoadError.message (e : LoadError) : Text :=
  "failed to load template ".toList ++ e.path ++ ": ".toList ++ e.cause.text

/-- Renders the page `name` under `root`. -/
def renderFile (files : Files) (root name : Text) (vs : Values) : Except LoadError Text :=
  let path := FilePath.join root name
  match files.read path with
  | .error k => .error ⟨path, k.error⟩
  | .ok bs =>
    match Utf8.decode? bs with
    | none => .error ⟨path, FaultKind.invalidData.error⟩
    | some page => .ok (render vs page)

end Template
end WebHost
