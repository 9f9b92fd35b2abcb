import WebHost.Text.Basic

/-! Cutting text at the first occurrence of a mark, and into lines that end in a carriage return
and a line feed. -/
namespace WebHost.Text

/-- The text before and after the first occurrence of `mark`; `seen` is what has been passed,
latest character first. -/
def cutFrom (mark : Text) (seen : Text) : Text → Option (Text × Text)
  | [] => if mark.isEmpty then some (seen.reverse, []) else none
  | c :: r =>
    if mark.isPrefixOf (c :: r) then some (seen.reverse, (c :: r).drop mark.length)
    else cutFrom mark (c :: seen) r

def cut? (mark t : Text) : Option (Text × Text) := cutFrom mark [] t

/-- One more character in front of lines already found. A carriage return ends a line exactly
when a line feed is next. -/
def consLine (c : Char) : List Text → List Text
  | [] => [[c]]
  | l :: ls =>
    match c, l with
    | '\r', '\n' :: l' => [] :: l' :: ls
    | c, l => (c :: l) :: ls

/-- The lines of a text; the marks between them are dropped. -/
def lines (t : Text) : List Text := t.foldr consLine [[]]

theorem cutFrom_eq_some {mark seen t before rest : Text}
    (h : cutFrom mark seen t = some (before, rest)) : seen.reverse ++ t = before ++ mark ++ rest := by
  induction t generalizing seen with
  | nil =>
    simp only [cutFrom] at h
    split at h
    · simp_all
    · simp at h
  | cons c r ih =>
    simp only [cutFrom] at h
    split at h
    · next hp =>
      obtain ⟨s, hs⟩ := List.isPrefixOf_iff_prefix.mp hp
      rw [← hs, List.drop_left] at h
      simp only [Option.some.injEq, Prod.mk.injEq] at h
      obtain ⟨rfl, rfl⟩ := h
      rw [← hs, List.append_assoc]
    · simpa using ih h

theorem cut?_eq_some {mark t before rest : Text} (h : cut? mark t = some (before, rest)) :
    t = before ++ mark ++ rest := by
  simpa using cutFrom_eq_some h

theorem length_lt_of_cut? {mark t before rest : Text} (hm : mark ≠ [])
    (h : cut? mark t = some (before, rest)) : rest.length < t.length := by
  have := congrArg List.length (cut?_eq_some h)
  have := List.length_pos_iff.mpr hm
  simp only [List.length_append] at *
  omega

@[simp] theorem lines_nil : lines [] = [[]] := rfl

theorem lines_ne_nil (t : Text) : lines t ≠ [] := by
  cases t with
  | nil => simp
  | cons c r =>
    simp only [lines, List.foldr_cons]
    unfold consLine
    split
    · simp
    · split <;> simp

end WebHost.Text
