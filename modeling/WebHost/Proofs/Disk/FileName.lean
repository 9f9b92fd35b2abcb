import WebHost.Proofs.Disk.Components
import WebHost.Proofs.Disk.Growth

/-! The path beside another that has another extension. The text in front of the last name stays, so
that the two lead to one file only if the names are one, and then the name has that extension
already. -/
namespace WebHost

namespace FilePath

/-- Text behind which a step begins. -/
def IsLead (lead : Text) : Prop := lead = [] ∨ ∃ l, lead = l ++ ['/']

/-- A step that leads away from where it is taken. -/
structure IsStep (s : Text) : Prop where
  ne_nil : s ≠ []
  ne_here : s ≠ here
  unslashed : '/' ∉ s

/-- The name with another extension. From a dot in front of the old extension two dots are left,
which take none. -/
def renamed (ext s : Text) : Text :=
  match splitName s with
  | (_, none) => s ++ '.' :: ext
  | (stem, some _) => if stem = here then up else stem ++ '.' :: ext

variable {lead s stem ext : Text}

theorem splitName_append (hstem : stem ≠ []) (hext : '.' ∉ ext) :
    splitName (stem ++ '.' :: ext) = (stem, some ext) := by
  have hpass : ∀ c ∈ ext.reverse, (c != '.') = true := by
    intro c hc
    have hne : c ≠ '.' := fun hdot => hext (hdot ▸ List.mem_reverse.mp hc)
    simpa using hne
  have hrest : (stem ++ '.' :: ext).reverse.dropWhile (· != '.') = '.' :: stem.reverse := by
    rw [List.reverse_append, List.reverse_cons, List.append_assoc,
      List.dropWhile_append_of_pos hpass]
    rfl
  obtain ⟨c, cs, hcs⟩ := List.exists_cons_of_ne_nil (by simpa using hstem : stem.reverse ≠ [])
  simp only [splitName, hrest, hcs]
  rw [← hcs, List.reverse_reverse, List.length_cons, List.length_reverse]
  simp

/-- A name has no extension, or it is a stem, a dot and an extension. -/
theorem splitName_cases (n : Text) :
    splitName n = (n, none) ∨
      ∃ stem ext, stem ≠ [] ∧ '.' ∉ ext ∧ n = stem ++ '.' :: ext := by
  have hcut : n.reverse.takeWhile (· != '.') ++ n.reverse.dropWhile (· != '.') = n.reverse :=
    List.takeWhile_append_dropWhile
  have hpass : ∀ c ∈ n.reverse.takeWhile (· != '.'), (c != '.') = true := fun c hc =>
    List.all_eq_true.mp List.all_takeWhile c hc
  cases hrest : n.reverse.dropWhile (· != '.') with
  | nil => exact .inl (by simp [splitName, hrest])
  | cons c cs =>
    cases cs with
    | nil => exact .inl (by simp [splitName, hrest])
    | cons c' cs =>
      have hdot : c = '.' := by
        have hne : n.reverse.dropWhile (· != '.') ≠ [] := by simp [hrest]
        simpa [hrest] using List.head_dropWhile_not (· != '.') hne
      refine .inr ⟨(c' :: cs).reverse, (n.reverse.takeWhile (· != '.')).reverse, by simp, ?_, ?_⟩
      · intro hmem
        simpa using hpass _ (List.mem_reverse.mp hmem)
      · rw [hrest, hdot] at hcut
        have hn := congrArg List.reverse hcut
        rw [List.reverse_reverse, List.reverse_append, List.reverse_cons, List.append_assoc] at hn
        exact hn.symm

/-- The pieces of a path, each with a slash behind it. -/
theorem flatMap_splitOn (p : Text) : ((p.splitOn '/').flatMap fun s => s ++ ['/']) = p ++ ['/'] := by
  induction p with
  | nil => rfl
  | cons c p ih =>
    rw [List.splitOn_cons_eq_if_modifyHead]
    split
    · next hc =>
      rw [List.flatMap_cons, ih, eq_of_beq hc]
      rfl
    · obtain ⟨piece, pieces, hp⟩ := List.exists_cons_of_ne_nil (List.splitOn_ne_nil '/' p)
      rw [hp, List.flatMap_cons] at ih
      rw [hp, List.modifyHead_cons, List.flatMap_cons, List.cons_append, List.cons_append, ih]
      rfl

/-- The last piece of a path that ends in a step is the step. -/
theorem splitOn_append_of_isLead (hl : IsLead lead) (hs : '/' ∉ s) :
    ∃ pieces, (lead ++ s).splitOn '/' = pieces ++ [s] ∧
      (pieces.flatMap fun s => s ++ ['/']) = lead := by
  obtain rfl | ⟨l, rfl⟩ := hl
  · exact ⟨[], List.splitOn_eq_singleton hs, rfl⟩
  · refine ⟨l.splitOn '/', ?_, flatMap_splitOn l⟩
    rw [List.append_assoc, List.singleton_append, splitOn_append_slash, List.splitOn_eq_singleton hs]

theorem getLast?_steps_append (hl : IsLead lead) (hne : s ≠ []) (hs : '/' ∉ s) :
    (steps (lead ++ s)).getLast? = some s := by
  obtain ⟨pieces, hpieces, -⟩ := splitOn_append_of_isLead hl hs
  rw [steps, hpieces, List.filter_append, List.filter_cons_of_pos (by simp [hne])]
  exact List.getLast?_concat

/-- Every path ends in a stretch without a slash, which is empty behind one. -/
theorem exists_isLead (p : Text) : ∃ lead s, p = lead ++ s ∧ IsLead lead ∧ '/' ∉ s := by
  induction p with
  | nil => exact ⟨[], [], rfl, .inl rfl, by simp⟩
  | cons c p ih =>
    obtain ⟨lead, s, rfl, rfl | ⟨l, rfl⟩, hs⟩ := ih
    · by_cases hc : c = '/'
      · exact ⟨['/'], s, by simp [hc], .inr ⟨[], rfl⟩, hs⟩
      · exact ⟨[], c :: s, rfl, .inl rfl, by simp [Ne.symm hc, hs]⟩
    · exact ⟨c :: l ++ ['/'], s, rfl, .inr ⟨c :: l, rfl⟩, hs⟩

theorem foldl_marks_fst (pieces : List Text) (start : Nat) (ms : List (Component × Nat)) :
    (pieces.foldl (fun (start, ms) s =>
        let stop := start + s.length
        (stop + 1, if s.isEmpty || s = here then ms else (Component.ofStep s, stop) :: ms))
      (start, ms)).1 = start + (pieces.flatMap fun s => s ++ ['/']).length := by
  induction pieces generalizing start ms with
  | nil => rfl
  | cons s pieces ih =>
    rw [List.foldl_cons, ih, List.flatMap_cons, List.length_append, List.length_append,
      List.length_singleton]
    omega

/-- The last component of a path that ends in a step. -/
theorem marks_append (hl : IsLead lead) (hs : IsStep s) :
    ∃ ms, marks (lead ++ s) = (Component.ofStep s, (lead ++ s).length) :: ms := by
  obtain ⟨pieces, hpieces, hlead⟩ := splitOn_append_of_isLead hl hs.unslashed
  simp only [marks, hpieces, List.foldl_append, List.foldl_cons, List.foldl_nil, foldl_marks_fst,
    hlead, hs.ne_here, List.isEmpty_eq_false_iff.mpr hs.ne_nil, Nat.zero_add, List.length_append]
  exact ⟨_, rfl⟩

theorem extension?_append (hl : IsLead lead) (hs : IsStep s) (hup : s ≠ up) :
    extension? (lead ++ s) = (splitName s).2 := by
  obtain ⟨ms, hms⟩ := marks_append hl hs
  rw [extension?, fileName?, hms, Component.ofStep, if_neg hup]
  rfl

theorem putExtension_append (hl : IsLead lead) (hs : IsStep s) (hup : s ≠ up) (ext : Text) :
    putExtension ext (lead ++ s) = lead ++ ((splitName s).1 ++ '.' :: ext) := by
  obtain ⟨ms, hms⟩ := marks_append hl hs
  rw [putExtension, hms, Component.ofStep, if_neg hup]
  simp

theorem putExtension_append_up (hl : IsLead lead) (ext : Text) :
    putExtension ext (lead ++ up) = lead ++ up := by
  obtain ⟨ms, hms⟩ := marks_append (s := up) hl ⟨by decide, by decide, by decide⟩
  rw [putExtension, hms]
  rfl

/-- Another extension changes the last name and nothing before it. -/
theorem withExtension_append (hl : IsLead lead) (hs : IsStep s) (hup : s ≠ up) (ext : Text) :
    withExtension ext (lead ++ s) = lead ++ renamed ext s := by
  rw [withExtension, extension?_append hl hs hup]
  obtain hn | ⟨stem, old, hstem, hold, rfl⟩ := splitName_cases s
  · simp only [hn, putExtension_append hl hs hup, renamed]
  · have htake : (lead ++ (stem ++ '.' :: old)).take
        ((lead ++ (stem ++ '.' :: old)).length - old.length) = lead ++ (stem ++ ['.']) := by
      have hcons : lead ++ (stem ++ '.' :: old) = (lead ++ (stem ++ ['.'])) ++ old := by simp
      rw [hcons, List.length_append, Nat.add_sub_cancel, List.take_left]
    simp only [splitName_append hstem hold, htake, renamed]
    split
    · next hdot =>
      rw [hdot]
      exact putExtension_append_up hl ext
    · next hdot =>
      have hs' : IsStep (stem ++ ['.']) :=
        ⟨by simp, by simpa [here, List.append_eq_singleton_iff] using hstem, fun hmem =>
          hs.unslashed (by simp_all)⟩
      have hup' : stem ++ ['.'] ≠ up := fun h => hdot (List.append_inj_left' h rfl)
      rw [putExtension_append hl hs' hup', splitName_append hstem (by simp)]

example : withExtension "tmp".toList "d/..x".toList = "d/..".toList := by decide

theorem renamed_ne_nil : renamed ext s ≠ [] := by
  unfold renamed
  split
  · simp
  · split <;> simp [up]

theorem unslashed_renamed (hs : '/' ∉ s) (hext : '/' ∉ ext) : '/' ∉ renamed ext s := by
  unfold renamed
  obtain hn | ⟨stem, old, hstem, hold, rfl⟩ := splitName_cases s
  · simp [hn, hs, hext]
  · rw [splitName_append hstem hold]
    simp only
    split
    · decide
    · simp_all

/-- A name that stays as it is has that extension. -/
theorem splitName_of_renamed_eq (hup : s ≠ up) (h : renamed ext s = s) :
    (splitName s).2 = some ext := by
  unfold renamed at h
  obtain hn | ⟨stem, old, hstem, hold, rfl⟩ := splitName_cases s
  · simp [hn] at h
  · rw [splitName_append hstem hold] at h ⊢
    simp only at h
    split at h
    · exact absurd h.symm hup
    · simpa using (List.cons.inj (List.append_cancel_left h)).2.symm

end FilePath

namespace Disk
open FilePath (IsLead IsStep)

variable {d : Disk} {path : Text} {spot : Spot} {ext : Text}

/-- Where a path that ends in a name leads to no directory, the place has that name. -/
theorem getLast?_of_locate {lead s : Text} (hl : IsLead lead) (hne : s ≠ []) (hs : '/' ∉ s)
    (h : d.locate (lead ++ s) = .ok spot) (hf : spot.entry ≠ some .directory) :
    Node.IsName s ∧ spot.location.getLast? = some s := by
  obtain ⟨-, place, found, hw, rfl⟩ := locate_eq_ok_iff.mp h
  have harrives := Node.arrives_of_walk hw
  have hlast : (d.stepsTo (lead ++ s)).getLast? = some s := by
    rw [stepsTo, List.getLast?_append, FilePath.getLast?_steps_append hl hne hs, Option.some_or]
  obtain ⟨t, ht, hname⟩ := harrives.last_isName (show Node.Leads d.root [] d.root from rfl) rfl hf
  obtain rfl : s = t := Option.some.inj (hlast.symm.trans ht)
  exact ⟨hname, harrives.getLast?_eq hlast hname⟩

/-- A path to a file, or to where one can be made, ends in a name. -/
theorem exists_isLead_of_locate (h : d.locate path = .ok spot) (hslash : spot.slashed = false)
    (hf : spot.entry ≠ some .directory) :
    ∃ lead s, path = lead ++ s ∧ IsLead lead ∧ IsStep s ∧ s ≠ FilePath.up ∧
      spot.location.getLast? = some s := by
  obtain ⟨lead, s, rfl, hl, hs⟩ := FilePath.exists_isLead path
  have hne : s ≠ [] := by
    rintro rfl
    obtain ⟨⟨-, -, hpath⟩, place, found, -, rfl⟩ := locate_eq_ok_iff.mp h
    obtain rfl | ⟨l, rfl⟩ := hl
    · exact hpath rfl
    · simp at hslash
  obtain ⟨hname, hlast⟩ := getLast?_of_locate hl hne hs h hf
  exact ⟨lead, s, rfl, hl, ⟨hne, hname.1, hs⟩, hname.2.1, hlast⟩

/-- The path with another extension leads to another file, unless it is the same path. -/
theorem location_ne_of_withExtension {place : Location} {e : Entry} (hext : '/' ∉ ext)
    (hne : FilePath.withExtension ext path ≠ path)
    (hopen : d.openFile (FilePath.withExtension ext path) = .ok (place, e))
    (h : d.locate path = .ok spot) (hslash : spot.slashed = false)
    (hf : spot.entry ≠ some .directory) : spot.location ≠ place := by
  obtain ⟨lead, s, rfl, hl, hs, hup, hlast⟩ := exists_isLead_of_locate h hslash hf
  obtain ⟨-, beside, hbeside, -, hfile, rfl, -⟩ := openFile_eq_ok hopen
  rw [FilePath.withExtension_append hl hs hup] at hne hbeside
  have hlast' := (getLast?_of_locate hl FilePath.renamed_ne_nil
    (FilePath.unslashed_renamed hs.unslashed hext) hbeside hfile).2
  intro hplace
  rw [hplace, hlast'] at hlast
  exact hne (by rw [Option.some.inj hlast])

/-- A path that another extension leaves as it is has that extension. -/
theorem extension?_of_withExtension_eq (hsame : FilePath.withExtension ext path = path)
    (h : d.locate path = .ok spot) (hslash : spot.slashed = false)
    (hf : spot.entry ≠ some .directory) : FilePath.extension? path = some ext := by
  obtain ⟨lead, s, rfl, hl, hs, hup, -⟩ := exists_isLead_of_locate h hslash hf
  rw [FilePath.withExtension_append hl hs hup] at hsame
  rw [FilePath.extension?_append hl hs hup]
  exact FilePath.splitName_of_renamed_eq hup (List.append_cancel_left hsame)

end Disk
end WebHost
