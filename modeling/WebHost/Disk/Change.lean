import WebHost.Disk.Basic

/-! Changes to a disk one after the other, up to the first that fails. -/
namespace WebHost.Disk

inductive Change
  | makeDirectories (path : Text)
  | create (path : Text)
  | append (path : Text) (bs : Bytes)
  | rename (old new : Text)
  deriving DecidableEq, Repr

def Change.apply (d : Disk) : Change → Except FaultKind Unit × Disk
  | .makeDirectories path => d.makeDirectories path
  | .create path => d.settle (d.create path)
  | .append path bs => d.settle (d.append path bs)
  | .rename old new => d.settle (d.rename old new)

def applyAll : List Change → Disk → Except FaultKind Unit × Disk
  | [], d => (.ok (), d)
  | c :: cs, d =>
    match c.apply d with
    | (.ok (), d') => applyAll cs d'
    | (.error k, d') => (.error k, d')

theorem applyAll_append (cs ds : List Change) (d : Disk) :
    applyAll (cs ++ ds) d =
      match applyAll cs d with
      | (.ok (), d') => applyAll ds d'
      | (.error k, d') => (.error k, d') := by
  induction cs generalizing d with
  | nil => rfl
  | cons c cs ih =>
    simp only [List.cons_append, applyAll]
    split
    · exact ih _
    · rfl

end WebHost.Disk
