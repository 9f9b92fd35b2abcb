import WebHost.Text.Basic

/-! Header lists. A name is found whatever the case of its letters, and setting it keeps its first
spelling and its place. -/
namespace WebHost.Http

structure Header where
  name : Text
  value : Text
  deriving DecidableEq, Repr

abbrev Headers := List Header

namespace Headers

/-- The value of the first header of that name. -/
def get? (hs : Headers) (name : Text) : Option Text :=
  (hs.find? fun h => Text.sameFolded h.name name).map Header.value

def set : Headers → Text → Text → Headers
  | [], name, value => [⟨name, value⟩]
  | h :: hs, name, value =>
    if Text.sameFolded h.name name then { h with value } :: hs else h :: set hs name value

def without (hs : Headers) (name : Text) : Headers :=
  hs.filter fun h => ! Text.sameFolded h.name name

@[simp] theorem get?_set (hs : Headers) (n v q : Text) :
    get? (set hs n v) q = if Text.sameFolded n q then some v else get? hs q := by
  induction hs with
  | nil => by_cases h : Text.sameFolded n q <;> simp [set, get?, h]
  | cons h hs ih =>
    rw [set]
    split
    · next hn =>
      have hf := Text.sameFolded_iff.mp hn
      have : Text.sameFolded h.name q = Text.sameFolded n q := by
        rw [Bool.eq_iff_iff, Text.sameFolded_iff, Text.sameFolded_iff, hf]
      by_cases hq : Text.sameFolded n q <;> simp [get?, this, hq]
    · next hn =>
      by_cases hq : Text.sameFolded h.name q
      · have : Text.sameFolded n q = false := by
          rw [Bool.eq_false_iff]
          intro hnq
          rw [Text.sameFolded_iff] at hq hnq
          exact hn (Text.sameFolded_iff.mpr (hq.trans hnq.symm))
        simp [get?, hq, this]
      · simpa [get?, hq] using ih

end Headers
end WebHost.Http
