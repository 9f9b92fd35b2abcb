import WebHost.Template

/-! Rendered pages. A page is its template's plain text with the values put in between, and a value
is put in as it is: the page comes apart into stretches that the value of a name has no part in, with
that value between each two of them. -/
namespace WebHost

namespace Template

theorem render_eq (vs : Values) (t : Text) :
    render vs t =
      ((split t).1.flatMap fun p => p.plain ++ valueAt vs p.marker) ++ (split t).2 := rfl

theorem valueAt_set_of_eq (vs : Values) {name marker : Text} (h : Text.trim marker = name)
    (value : Text) : valueAt (vs.set name value) marker = value := by
  simp [valueAt, h]

theorem valueAt_set_of_ne (vs : Values) {name marker : Text} (h : Text.trim marker ≠ name)
    (value : Text) : valueAt (vs.set name value) marker = valueAt vs marker := by
  simp [valueAt, h]

/-- The stretches of a page between the places of one name. The other places are filled in. -/
def stretchesOf (vs : Values) (name : Text) (left : Text) : List Piece → List Text
  | [] => [left]
  | p :: ps =>
    if Text.trim p.marker = name then p.plain :: stretchesOf vs name left ps
    else (stretchesOf vs name left ps).modifyHead (p.plain ++ valueAt vs p.marker ++ ·)

def stretches (vs : Values) (name t : Text) : List Text :=
  stretchesOf vs name (split t).2 (split t).1

theorem stretchesOf_ne_nil (vs : Values) (name left : Text) (ps : List Piece) :
    stretchesOf vs name left ps ≠ [] := by
  induction ps with
  | nil => simp [stretchesOf]
  | cons p ps ih =>
    rw [stretchesOf]
    split
    · simp
    · simpa using ih

/-- The value of a name stands between the stretches of its page. -/
theorem render_set (vs : Values) (name value t : Text) :
    render (vs.set name value) t = value.intercalate (stretches vs name t) := by
  rw [render_eq, stretches]
  induction (split t).1 with
  | nil => simp [stretchesOf]
  | cons p ps ih =>
    obtain ⟨first, others, hs⟩ := List.exists_cons_of_ne_nil (stretchesOf_ne_nil vs name (split t).2 ps)
    rw [hs] at ih
    rw [List.flatMap_cons, List.append_assoc, ih, stretchesOf, hs]
    split
    · next hname => rw [valueAt_set_of_eq vs hname, List.intercalate_cons_cons]
    · next hname =>
      rw [valueAt_set_of_ne vs hname, List.modifyHead_cons]
      cases others <;> simp

/-- What of a page is of a kind of which the values have nothing comes from the template. -/
theorem filter_render {kind : Char → Bool} {vs : Values}
    (h : ∀ marker, (valueAt vs marker).filter kind = []) (t : Text) :
    (render vs t).filter kind = (render [] t).filter kind := by
  have hnone (marker : Text) : (valueAt [] marker).filter kind = [] := rfl
  simp only [render_eq, List.filter_append, List.filter_flatMap, h, hnone]

/-- The page `name` under `root` can be read, and has this text. -/
def Reads (files : Files) (root name text : Text) : Prop :=
  ∃ bs, files.read (FilePath.join root name) = .ok bs ∧ Utf8.decode? bs = some text

theorem renderFile_of_reads {files : Files} {root name text : Text} (h : Reads files root name text)
    (vs : Values) : renderFile files root name vs = .ok (render vs text) := by
  obtain ⟨bs, hread, hdecode⟩ := h
  simp only [renderFile, hread, hdecode]

end Template
end WebHost
