import Mathlib.Logic.Basic
import WebHost.Proofs.Disk.LastName
import WebHost.Site.StaticFile

/-! Content types. The type of a file depends on its own name only: on what stands there behind the
last dot, in whatever case, unless the name begins with that dot or has none. -/
namespace WebHost.StaticFile
open FilePath (EndsIn splitName)

/-- The types that are told by an extension. -/
def mediaTypes : List (Text × Text) :=
  [("html".toList, "text/html".toList), ("htm".toList, "text/html".toList),
   ("css".toList, "text/css".toList), ("js".toList, "application/javascript".toList),
   ("json".toList, "application/json".toList), ("txt".toList, "text/plain".toList)]

/-- The type of all other files. -/
def octetStream : Text := "application/octet-stream".toList

/-- The type that goes with an extension, whatever its case. -/
def mediaType (extension : Text) : Text :=
  (mediaTypes.lookup (Text.folded extension)).getD octetStream

variable {path rel name : Text}

theorem getD_lookup_cons (e key value default : Text) (l : List (Text × Text)) :
    (((key, value) :: l).lookup e).getD default =
      if e = key then value else (l.lookup e).getD default := by
  by_cases h : e = key
  · rw [if_pos h, h, List.lookup_cons_self, Option.getD_some]
  · have hne : (e == key) = false := beq_eq_false_iff_ne.mpr h
    rw [if_neg h, List.lookup_cons, hne]

theorem contentType_eq (path : Text) :
    contentType path = mediaType ((FilePath.extension? path).getD []) := by
  rw [mediaType, mediaTypes, getD_lookup_cons, getD_lookup_cons, getD_lookup_cons, getD_lookup_cons,
    getD_lookup_cons, getD_lookup_cons, List.lookup_nil, Option.getD_none, contentType]
  simp only [Bool.or_eq_true, decide_eq_true_eq, ite_or]
  rfl

theorem mediaType_folded (extension : Text) : mediaType (Text.folded extension) = mediaType extension := by
  rw [mediaType, Text.folded_folded, mediaType]

/-- Names that differ in the case of letters only have the same type. -/
theorem mediaType_of_folded_eq {name' : Text} (h : Text.folded name' = Text.folded name) :
    mediaType ((splitName name').2.getD []) = mediaType ((splitName name).2.getD []) := by
  have hfolded (n : Text) : mediaType ((splitName n).2.getD []) =
      mediaType ((splitName (Text.folded n)).2.getD []) := by
    rw [FilePath.splitName_folded]
    cases (splitName n).2 with
    | none => rfl
    | some e => exact (mediaType_folded e).symm
  rw [hfolded name', h, ← hfolded name]

theorem contentType_of_endsIn_eq (h : EndsIn path name) :
    contentType path = mediaType ((splitName name).2.getD []) := by
  rw [contentType_eq, h.extension?_eq]

/-- A file that is served from below some directory has the content type of its own name, which
neither that directory nor the way to the file nor what follows the name has a say in. Letters may
be of either case. The text behind the last dot decides, and a name that has no dot, or none but at
its beginning, is of no particular type. -/
theorem contentType_of_last_name (h : EndsIn rel name) (root : Text) :
    contentType (root ++ '/' :: rel) = contentType rel ∧
      contentType rel = contentType name ∧
      (∀ rel', Text.folded rel' = Text.folded rel → contentType rel' = contentType rel) ∧
      (∀ stem extension, name = stem ++ '.' :: extension → stem ≠ [] → '.' ∉ extension →
        contentType rel = mediaType extension) ∧
      ('.' ∉ name.tail → contentType rel = octetStream) := by
  have hrel := contentType_of_endsIn_eq h
  refine ⟨?_, ?_, fun rel' hrel' => ?_, fun stem extension hname hstem hextension => ?_,
    fun hdot => ?_⟩
  · rw [contentType_of_endsIn_eq (h.below root), hrel]
  · rw [contentType_of_endsIn_eq (FilePath.endsIn_self h.isStep h.ne_up), hrel]
  · obtain ⟨name', hends, hfolded⟩ := h.of_folded hrel'
    rw [contentType_of_endsIn_eq hends, hrel, mediaType_of_folded_eq hfolded]
  · rw [hrel, hname, FilePath.splitName_append hstem hextension]
    rfl
  · obtain hnone | ⟨stem, extension, hstem, -, hname⟩ := FilePath.splitName_cases name
    · rw [hrel, hnone]
      rfl
    · obtain ⟨c, stem, rfl⟩ := List.exists_cons_of_ne_nil hstem
      exact absurd (by simp [hname]) hdot

/-- Directories with dots, a step up and what follows the name say nothing, and neither does the one
dot of a hidden file. -/
theorem contentType_of_last_name_among_dots :
    let rel := "a.css/../.js/Index.tar.HTML/.//".toList
    let hidden := "a.b/.html/.".toList
    EndsIn rel "Index.tar.HTML".toList ∧ EndsIn hidden ".html".toList ∧
      contentType ("pub.txt/".toList ++ '/' :: rel) = "text/html".toList ∧
      contentType ("pub.txt/".toList ++ '/' :: hidden) = octetStream := by
  intro rel hidden
  have hrel : EndsIn rel "Index.tar.HTML".toList :=
    ⟨⟨by decide, by decide, by decide⟩, by decide, "a.css/../.js/".toList, "/.//".toList,
      .inr ⟨"a.css/../.js".toList, rfl⟩, .dot (.slash (.slash .nil)), rfl⟩
  have hhidden : EndsIn hidden ".html".toList :=
    ⟨⟨by decide, by decide, by decide⟩, by decide, "a.b/".toList, "/.".toList,
      .inr ⟨"a.b".toList, rfl⟩, .dot .nil, rfl⟩
  obtain ⟨hbelow, -, -, htype, -⟩ := contentType_of_last_name hrel "pub.txt/".toList
  obtain ⟨hbelow', -, -, -, hnone⟩ := contentType_of_last_name hhidden "pub.txt/".toList
  refine ⟨hrel, hhidden, ?_, ?_⟩
  · rw [hbelow, htype "Index.tar".toList "HTML".toList rfl (by decide) (by decide)]
    rfl
  · rw [hbelow', hnone (by decide)]

end WebHost.StaticFile
