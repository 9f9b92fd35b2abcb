import WebHost.Disk.Basic

/-! Where paths lead on a disk that changes. A way goes through directories alone, so that a path
leads to the same place as long as the directories stay, whatever becomes of the files. -/
namespace WebHost

namespace Node

/-- A step down, by a name that a directory can hold. -/
def IsName (s : Text) : Prop :=
  s ≠ FilePath.here ∧ s ≠ FilePath.up ∧ Text.byteLength s ≤ nameLimit

/-- The ways that a walk can go, step by step, to where it ends. -/
inductive Arrives : List (Text × Node) → Node → List Text → Location → Option Node → Prop
  | done (above n) : Arrives above n [] (above.map Prod.fst).reverse (some n)
  | stay {above es ss place found} (h : Arrives above (directory es) ss place found) :
      Arrives above (directory es) (FilePath.here :: ss) place found
  | top {es ss place found} (h : Arrives [] (directory es) ss place found) :
      Arrives [] (directory es) (FilePath.up :: ss) place found
  | up {above name parent es ss place found} (h : Arrives above parent ss place found) :
      Arrives ((name, parent) :: above) (directory es) (FilePath.up :: ss) place found
  | down {above es s m ss place found} (hs : IsName s) (hl : es.lookup s = some m)
      (h : Arrives ((s, directory es) :: above) m ss place found) :
      Arrives above (directory es) (s :: ss) place found
  | missing {above es s} (hs : IsName s) (hl : es.lookup s = none) :
      Arrives above (directory es) [s] (s :: above.map Prod.fst).reverse none

variable {root n : Node} {above : List (Text × Node)} {ss : List Text} {place : Location}
  {found : Option Node}

theorem arrives_of_walk (hw : walk above n ss = .ok (place, found)) :
    Arrives above n ss place found := by
  induction ss generalizing above n with
  | nil =>
    simp only [walk, Except.ok.injEq, Prod.mk.injEq] at hw
    obtain ⟨rfl, rfl⟩ := hw
    exact .done above n
  | cons s ss ih =>
    cases n with
    | file c => simp [walk] at hw
    | sink => simp [walk] at hw
    | directory es =>
      rw [walk.eq_def] at hw
      simp only at hw
      split at hw
      · next hhere => exact hhere ▸ .stay (ih hw)
      · next hhere =>
        split at hw
        · next hup =>
          cases above with
          | nil => exact hup ▸ .top (ih hw)
          | cons e above => exact hup ▸ .up (ih hw)
        · next hup =>
          split at hw
          · simp at hw
          · next hlong =>
            have hs : IsName s := ⟨hhere, hup, Nat.le_of_not_lt hlong⟩
            cases hl : es.lookup s with
            | some m =>
              simp only [hl] at hw
              exact .down hs hl (ih hw)
            | none =>
              cases ss with
              | cons t ss => simp [hl] at hw
              | nil =>
                simp only [hl, Except.ok.injEq, Prod.mk.injEq] at hw
                obtain ⟨rfl, rfl⟩ := hw
                exact .missing hs hl

theorem Arrives.walk_eq (h : Arrives above n ss place found) :
    walk above n ss = .ok (place, found) := by
  have hdown {s : Text} (hs : IsName s) :
      ¬ s = FilePath.here ∧ ¬ s = FilePath.up ∧ ¬ Text.byteLength s > nameLimit :=
    ⟨hs.1, hs.2.1, Nat.not_lt.mpr hs.2.2⟩
  induction h with
  | done above n => rfl
  | stay _ ih => rwa [walk.eq_def]
  | top _ ih => rwa [walk.eq_def]
  | up _ ih => rwa [walk.eq_def]
  | down hs hl _ ih =>
    rw [walk.eq_def]
    simp only [hdown hs, if_false, hl]
    exact ih
  | missing hs hl =>
    rw [walk.eq_def]
    simp only [hdown hs, if_false, hl]

/-- A walk ends at the place that it names, with what is there. -/
theorem Arrives.at?_eq (hw : Arrives above n ss place found) (h : Leads root above n) :
    root.at? place = found := by
  induction hw with
  | done above n => exact at?_of_leads h
  | stay _ ih => exact ih h
  | top _ ih => exact ih h
  | up _ ih => exact ih h.2
  | down _ hl _ ih => exact ih ⟨hl, h⟩
  | missing _ hl => simp [at?_append, at?_of_leads h, hl]

/-- What a walk finds that is no directory, or not there, is in a directory. -/
theorem Arrives.directory_above (hw : Arrives above n ss place found)
    (hroot : root.entry = .directory) (h : Leads root above n)
    (hf : found.map entry ≠ some .directory) :
    place ≠ [] ∧ (root.at? place.dropLast).map entry = some .directory := by
  induction hw with
  | done above n =>
    cases above with
    | nil =>
      obtain rfl : n = root := h
      exact absurd (by simp [hroot]) hf
    | cons e above =>
      obtain ⟨hl, hparent⟩ := h
      simp [at?_of_leads hparent, entry_of_lookup hl]
  | stay _ ih => exact ih h hf
  | top _ ih => exact ih h hf
  | up _ ih => exact ih h.2 hf
  | down _ hl _ ih => exact ih ⟨hl, h⟩ hf
  | missing _ hl => simp [at?_of_leads h]

/-- A walk whose last step is a name ends at that name. -/
theorem Arrives.getLast?_eq {s : Text} (hw : Arrives above n ss place found)
    (hs : ss.getLast? = some s) (hname : IsName s) : place.getLast? = some s := by
  have hcons {t : Text} {ts : List Text} (h : (t :: ts).getLast? = some s) :
      ts.getLast? = some s ∨ ts = [] ∧ t = s := by
    cases ts with
    | nil => exact .inr ⟨rfl, by simpa using h⟩
    | cons u us => exact .inl (by rwa [List.getLast?_cons_cons] at h)
  induction hw with
  | done above n => cases hs
  | stay _ ih =>
    obtain hs | ⟨-, rfl⟩ := hcons hs
    · exact ih hs
    · exact absurd rfl hname.1
  | top _ ih =>
    obtain hs | ⟨-, rfl⟩ := hcons hs
    · exact ih hs
    · exact absurd rfl hname.2.1
  | up _ ih =>
    obtain hs | ⟨-, rfl⟩ := hcons hs
    · exact ih hs
    · exact absurd rfl hname.2.1
  | down _ _ hrest ih =>
    obtain hs | ⟨rfl, rfl⟩ := hcons hs
    · exact ih hs
    · cases hrest
      simp
  | missing =>
    obtain rfl : _ = s := by simpa using hs
    simp

/-- A walk that never goes up ends below where it starts. -/
theorem Arrives.prefix_of_not_mem (hw : Arrives above n ss place found) (hup : FilePath.up ∉ ss) :
    (above.map Prod.fst).reverse <+: place := by
  induction hw with
  | done above n => exact List.prefix_rfl
  | stay _ ih => exact ih fun h => hup (.tail _ h)
  | top | up => exact absurd (.head _) hup
  | down _ _ _ ih =>
    have hbelow := ih fun h => hup (.tail _ h)
    rw [List.map_cons, List.reverse_cons] at hbelow
    exact (List.prefix_append _ _).trans hbelow
  | missing =>
    rw [List.reverse_cons]
    exact List.prefix_append _ _

/-- Directories stay directories. -/
def KeepsDirectories (m n : Node) : Prop :=
  ∀ p, (m.at? p).map entry = some .directory → (n.at? p).map entry = some .directory

theorem entry_eq_directory_iff : n.entry = .directory ↔ ∃ es, n = directory es := by
  cases n <;> simp [entry]

theorem at?_concat_of_leads {es : List (Text × Node)} (h : Leads root above (directory es))
    (s : Text) : root.at? (s :: above.map Prod.fst).reverse = es.lookup s := by
  simp [at?_append, at?_of_leads h]

section
variable {root' n' : Node} {above' : List (Text × Node)} (hd : KeepsDirectories root root')
include hd

theorem exists_directory_of_leads {es : List (Text × Node)} (h : Leads root above (directory es))
    (h' : Leads root' above' n') (ha : above.map Prod.fst = above'.map Prod.fst) :
    ∃ es', n' = directory es' := by
  have hdir := hd (above.map Prod.fst).reverse (by simp [at?_of_leads h])
  rw [ha, at?_of_leads h'] at hdir
  exact entry_eq_directory_iff.mp (by simpa using hdir)

/-- A walk leads to the same place, where it finds what is there. Both walks stand at the same place,
behind the same names. -/
theorem Arrives.of_keepsDirectories (hw : Arrives above n ss place found) (h : Leads root above n)
    (h' : Leads root' above' n') (ha : above.map Prod.fst = above'.map Prod.fst) :
    Arrives above' n' ss place (root'.at? place) := by
  induction hw generalizing above' n' with
  | done above n =>
    rw [ha, at?_of_leads h']
    exact .done above' n'
  | stay _ ih =>
    obtain ⟨es', rfl⟩ := exists_directory_of_leads hd h h' ha
    exact .stay (ih h h' ha)
  | top _ ih =>
    obtain ⟨es', rfl⟩ := exists_directory_of_leads hd h h' ha
    obtain rfl : above' = [] := List.map_eq_nil_iff.mp ha.symm
    exact .top (ih h h' rfl)
  | up _ ih =>
    obtain ⟨es', rfl⟩ := exists_directory_of_leads hd h h' ha
    obtain ⟨e', above', rfl, -, ha⟩ := List.map_eq_cons_iff.mp ha.symm
    exact .up (ih h.2 h'.2 ha.symm)
  | @down above es s m ss place found hs hl hrest ih =>
    obtain ⟨es', rfl⟩ := exists_directory_of_leads hd h h' ha
    have hat := at?_concat_of_leads h s
    have hat' := at?_concat_of_leads h' s
    rw [← ha] at hat'
    cases hl' : es'.lookup s with
    | some m' => exact .down hs hl' (ih ⟨hl, h⟩ ⟨hl', h'⟩ (by simp [ha]))
    | none =>
      -- What is gone was no directory, so that the walk ended there.
      have hfile : m.entry ≠ .directory := by
        intro hm
        have hdir := hd (s :: above.map Prod.fst).reverse
        rw [hat, hat', hl, hl'] at hdir
        cases hdir (by simp [hm])
      cases hrest with
      | done =>
        rw [List.map_cons, hat', hl', ha]
        exact .missing hs hl'
      | stay | up | down | missing => exact absurd rfl hfile
  | @missing above es s hs hl =>
    obtain ⟨es', rfl⟩ := exists_directory_of_leads hd h h' ha
    rw [ha, at?_concat_of_leads h' s]
    cases hl' : es'.lookup s with
    | some m' => exact .down hs hl' (.done _ m')
    | none => exact .missing hs hl'

end

/-- A walk that never goes up goes the same way on a smaller tree that has the place where it ends. -/
theorem Arrives.of_subtree {root' n' : Node} {above' : List (Text × Node)}
    (hsub : ∀ p e, (root.at? p).map entry = some e → (root'.at? p).map entry = some e)
    (hw : Arrives above' n' ss place found) (hup : FilePath.up ∉ ss) (h : Leads root above n)
    (h' : Leads root' above' n') (ha : above.map Prod.fst = above'.map Prod.fst)
    (hplace : root.at? place ≠ none) : Arrives above n ss place (root.at? place) := by
  have hdirectory {n n' : Node} {above above' : List (Text × Node)} (h : Leads root above n)
      (h' : Leads root' above' n') (ha : above.map Prod.fst = above'.map Prod.fst)
      (hn' : n'.entry = .directory) : ∃ es, n = directory es := by
    have hentry := hsub (above.map Prod.fst).reverse n.entry (by rw [at?_of_leads h]; rfl)
    rw [ha, at?_of_leads h', Option.map_some, hn'] at hentry
    exact entry_eq_directory_iff.mp (Option.some.inj hentry).symm
  induction hw generalizing above n with
  | done above' n' =>
    rw [← ha, at?_of_leads h]
    exact .done above n
  | stay _ ih =>
    obtain ⟨es, rfl⟩ := hdirectory h h' ha rfl
    exact .stay (ih (fun hmem => hup (.tail _ hmem)) h h' ha hplace)
  | top | up => exact absurd (.head _) hup
  | @down above' es' s m' ss place found hs hl hrest ih =>
    obtain ⟨es, rfl⟩ := hdirectory h h' ha rfl
    have hup' : FilePath.up ∉ ss := fun hmem => hup (.tail _ hmem)
    -- The place is below the name, so that the name is there.
    obtain ⟨rest, hrest'⟩ := hrest.prefix_of_not_mem hup'
    obtain ⟨m, hm⟩ : ∃ m, es.lookup s = some m := by
      rw [← Option.ne_none_iff_exists']
      intro hnone
      apply hplace
      rw [← hrest', List.map_cons, ← ha, at?_append, at?_concat_of_leads h, hnone]
      rfl
    exact .down hs hm (ih hup' ⟨hm, h⟩ ⟨hl, h'⟩ (by simp [ha]) hplace)
  | @missing above' es' s hs hl =>
    obtain ⟨es, rfl⟩ := hdirectory h h' ha rfl
    rw [← ha, at?_concat_of_leads h] at hplace ⊢
    cases hm : es.lookup s with
    | none => exact absurd hm hplace
    | some m => exact .down hs hm (.done _ m)

end Node

namespace Disk

/-- The same places are directories, and relative paths start at the same place. -/
structure SameDirectories (d d' : Disk) : Prop where
  workplace : d'.workplace = d.workplace
  directories : ∀ place, d'.get? place = some .directory ↔ d.get? place = some .directory

/-- The steps of a path, from the root on. -/
def stepsTo (d : Disk) (path : Text) : List Text :=
  (if FilePath.isAbsolute path then [] else d.workplace) ++ FilePath.steps path

section
variable {d d' : Disk} {path : Text} {spot : Spot}

/-- A path leads where its steps lead, unless it is none. -/
theorem locate_eq_ok_iff : d.locate path = .ok spot ↔
    (¬ path.contains '\x00' ∧ ¬ Text.byteLength path ≥ pathLimit ∧ ¬ path.isEmpty) ∧
      ∃ place found, d.root.walk [] (d.stepsTo path) = .ok (place, found) ∧
        spot = ⟨place, found.map Node.entry, path.getLast? == some '/',
          (FilePath.steps path).getLast?.any fun s => s != FilePath.here && s != FilePath.up⟩ := by
  unfold locate
  split
  · next hzero => exact ⟨fun h => by simp at h, fun h => absurd hzero h.1.1⟩
  · next hzero =>
    split
    · next hlong => exact ⟨fun h => by simp at h, fun h => absurd hlong h.1.2.1⟩
    · next hlong =>
      split
      · next hempty => exact ⟨fun h => by simp at h, fun h => absurd hempty h.1.2.2⟩
      · next hempty =>
        rw [and_iff_right ⟨hzero, hlong, hempty⟩]
        simp only [stepsTo]
        cases hw : d.root.walk [] ((if FilePath.isAbsolute path then [] else d.workplace) ++
            FilePath.steps path) with
        | error k => simp [Except.map]
        | ok r =>
          obtain ⟨place, found⟩ := r
          simp only [Except.map, Except.ok.injEq, Prod.mk.injEq]
          constructor
          · rintro rfl
            exact ⟨place, found, ⟨rfl, rfl⟩, rfl⟩
          · rintro ⟨_, _, ⟨rfl, rfl⟩, rfl⟩
            rfl

theorem entry_of_locate (h : d.locate path = .ok spot) : spot.entry = d.get? spot.location := by
  obtain ⟨-, place, found, hw, rfl⟩ := locate_eq_ok_iff.mp h
  rw [get?, (Node.arrives_of_walk hw).at?_eq (show Node.Leads d.root [] d.root from rfl)]

/-- What is no directory, or not there, is in a directory. -/
theorem above_of_locate (h : d.locate path = .ok spot) (hf : spot.entry ≠ some .directory) :
    spot.location ≠ [] ∧ d.get? spot.location.dropLast = some .directory := by
  obtain ⟨-, place, found, hw, rfl⟩ := locate_eq_ok_iff.mp h
  exact (Node.arrives_of_walk hw).directory_above rfl (show Node.Leads d.root [] d.root from rfl) hf

/-- A path leads to the same place as long as directories stay. -/
theorem locate_of_keepsDirectories (hwork : d'.workplace = d.workplace)
    (hd : Node.KeepsDirectories d.root d'.root) (h : d.locate path = .ok spot) :
    d'.locate path = .ok { spot with entry := d'.get? spot.location } := by
  obtain ⟨hpath, place, found, hw, rfl⟩ := locate_eq_ok_iff.mp h
  have hw' := (Node.arrives_of_walk hw).of_keepsDirectories hd
    (show Node.Leads d.root [] d.root from rfl) (show Node.Leads d'.root [] d'.root from rfl) rfl
  refine locate_eq_ok_iff.mpr ⟨hpath, place, _, ?_, rfl⟩
  rw [stepsTo, hwork]
  exact hw'.walk_eq

theorem SameDirectories.locate (hs : SameDirectories d d') (h : d.locate path = .ok spot) :
    d'.locate path = .ok { spot with entry := d'.get? spot.location } :=
  locate_of_keepsDirectories hs.workplace (fun place => (hs.directories place).mpr) h

theorem SameDirectories.symm (hs : SameDirectories d d') : SameDirectories d' d :=
  ⟨hs.workplace.symm, fun place => (hs.directories place).symm⟩

/-- A file is put where a path leads, and is found there. -/
theorem sameDirectories_put (h : d.locate path = .ok spot) (hf : spot.entry ≠ some .directory)
    {e : Entry} (he : e ≠ .directory) :
    SameDirectories d (d.put spot.location e) ∧ (d.put spot.location e).get? spot.location = some e := by
  obtain ⟨hne, habove⟩ := above_of_locate h hf
  rw [entry_of_locate h] at hf
  have hput := get?_put e hne habove hf
  refine ⟨⟨rfl, fun place => ?_⟩, by simp [hput]⟩
  rw [hput]
  split
  · next hp =>
    subst hp
    simp [he, hf]
  · rfl

theorem locate_put (h : d.locate path = .ok spot) (hf : spot.entry ≠ some .directory) {e : Entry}
    (he : e ≠ .directory) :
    (d.put spot.location e).locate path = .ok { spot with entry := some e } := by
  obtain ⟨hs, hget⟩ := sameDirectories_put h hf he
  rw [hs.locate h, hget]

theorem sameDirectories_remove (h : d.locate path = .ok spot) (hf : spot.entry ≠ some .directory) :
    SameDirectories d (d.remove spot.location) := by
  obtain ⟨hne, -⟩ := above_of_locate h hf
  rw [entry_of_locate h] at hf
  refine ⟨rfl, fun place => ?_⟩
  rw [get?_remove hne hf]
  split
  · next hp =>
    subst hp
    simp [hf]
  · rfl

end

end Disk
end WebHost
