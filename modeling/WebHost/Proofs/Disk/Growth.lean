import WebHost.Proofs.Disk.Files

/-! What stays on a disk to which things are added. Making directories takes nothing away, so that
every path to something there leads to it afterwards, however far the making has come. And as nothing
else is added, only a path that goes up can lead to a file that it has not led to before. -/
namespace WebHost

namespace FilePath

theorem isAbsolute_of_steps_eq_nil {path : Text} (hne : path ≠ []) (h : steps path = []) :
    isAbsolute path = true := by
  cases path with
  | nil => exact absurd rfl hne
  | cons c r =>
    by_cases hc : c = '/'
    · simp [isAbsolute, hc]
    · rw [steps, List.splitOn, List.splitOnP_cons_eq_if_modifyHead, if_neg (by simp [hc])] at h
      cases hr : List.splitOnP (· == '/') r with
      | nil => exact absurd hr (List.splitOn_ne_nil '/' r)
      | cons piece pieces => simp [hr] at h

end FilePath

namespace Node

/-- The last step to what is no directory, or to nothing, is an ordinary name. -/
theorem Arrives.last_isName {root n : Node} {above : List (Text × Node)} {ss : List Text}
    {place : Location} {found : Option Node} (hw : Arrives above n ss place found)
    (h : Leads root above n) (hn : n.entry = .directory) (hf : found.map entry ≠ some .directory) :
    ∃ s, ss.getLast? = some s ∧ IsName s := by
  have hcons {s t : Text} {ss : List Text} (hs : ss.getLast? = some s) :
      (t :: ss).getLast? = some s := by
    rw [List.getLast?_cons, hs, Option.getD_some]
  induction hw with
  | done above n => exact absurd (by rw [Option.map_some, hn]) hf
  | stay _ ih =>
    obtain ⟨s, hs, hname⟩ := ih h hn hf
    exact ⟨s, hcons hs, hname⟩
  | top _ ih =>
    obtain ⟨s, hs, hname⟩ := ih h hn hf
    exact ⟨s, hcons hs, hname⟩
  | up _ ih =>
    obtain ⟨s, hs, hname⟩ := ih h.2 (entry_of_lookup h.1) hf
    exact ⟨s, hcons hs, hname⟩
  | @down above es s m ss place found hs hl hrest ih =>
    by_cases hm : m.entry = .directory
    · obtain ⟨t, ht, hname⟩ := ih ⟨hl, h⟩ hm hf
      exact ⟨t, hcons ht, hname⟩
    · -- Nothing leads on from a file.
      cases hrest with
      | done => exact ⟨s, rfl, hs⟩
      | stay | up | down | missing => exact absurd rfl hm
  | missing hs hl => exact ⟨_, rfl, hs⟩

end Node

namespace Disk

/-- All that was there is there, and relative paths start at the same place. -/
structure Extends (d d' : Disk) : Prop where
  workplace : d'.workplace = d.workplace
  kept : ∀ place e, d.get? place = some e → d'.get? place = some e

variable {d d' d₁ : Disk} {path : Text} {spot : Spot} {e : Entry}

theorem Extends.refl (d : Disk) : Extends d d := ⟨rfl, fun _ _ h => h⟩

theorem Extends.trans (h : Extends d d₁) (h' : Extends d₁ d') : Extends d d' :=
  ⟨h'.workplace.trans h.workplace, fun place e he => h'.kept place e (h.kept place e he)⟩

/-- A path to something that is there leads to it still. -/
theorem Extends.locate (hx : Extends d d') (h : d.locate path = .ok spot)
    (he : spot.entry = some e) : d'.locate path = .ok spot := by
  have hd : Node.KeepsDirectories d.root d'.root := fun place => hx.kept place .directory
  have hthere := hx.kept spot.location e ((entry_of_locate h).symm.trans he)
  rw [locate_of_keepsDirectories hx.workplace hd h, hthere, ← he]

theorem Extends.look (hx : Extends d d') (h : d.look path = .ok e) (he : e ≠ .directory) :
    d'.look path = .ok e := by
  obtain ⟨spot, hspot, hentry, hslash⟩ := (look_eq_ok_iff he).mp h
  exact (look_eq_ok_iff he).mpr ⟨spot, hx.locate hspot hentry, hentry, hslash⟩

/-- Directories have been added, and nothing else. -/
structure AddsDirectories (d d' : Disk) : Prop extends Extends d d' where
  added : ∀ place e, e ≠ .directory → d'.get? place = some e → d.get? place = some e

theorem AddsDirectories.refl (d : Disk) : AddsDirectories d d := ⟨.refl d, fun _ _ _ h => h⟩

theorem AddsDirectories.trans (h : AddsDirectories d d₁) (h' : AddsDirectories d₁ d') :
    AddsDirectories d d' :=
  ⟨h.toExtends.trans h'.toExtends, fun place e he hthere =>
    h.added place e he (h'.added place e he hthere)⟩

theorem addsDirectories_of_makeDirectory (h : d.makeDirectory path = .ok d') :
    AddsDirectories d d' := by
  unfold makeDirectory at h
  split at h
  · cases h
  · next spot hspot =>
    split at h
    · next hfree =>
      obtain rfl := Except.ok.inj h
      have hnone := (entry_of_locate hspot).symm.trans hfree
      have habove := above_of_locate hspot (by simp [hfree])
      have hput := get?_put .directory habove.1 habove.2 (by simp [hnone])
      refine ⟨⟨rfl, fun place e he => ?_⟩, fun place e he hthere => ?_⟩
      · rw [hput]
        split
        · next hplace => simp [hplace, hnone] at he
        · exact he
      · rw [hput] at hthere
        split at hthere
        · exact absurd (Option.some.inj hthere).symm he
        · exact hthere
    · cases h

theorem addsDirectories_of_ensureDirectory (h : d.ensureDirectory path = .ok d') :
    AddsDirectories d d' := by
  unfold ensureDirectory at h
  split at h
  · split at h
    · exact Except.ok.inj h ▸ .refl d
    · cases h
  · exact addsDirectories_of_makeDirectory h

theorem addsDirectories_settle {r : Except FaultKind Disk}
    (h : ∀ d', r = .ok d' → AddsDirectories d d') : AddsDirectories d (d.settle r).2 := by
  cases r with
  | ok d' => exact h d' rfl
  | error k => exact .refl d

/-- Making directories adds nothing else and takes nothing away, however far it comes. -/
theorem addsDirectories_makeDirectoriesUp (d : Disk) (path : Text) (lengths : List Nat) :
    AddsDirectories d (d.makeDirectoriesUp path lengths).2 := by
  induction lengths with
  | nil => exact .refl d
  | cons n above ih =>
    rw [makeDirectoriesUp]
    split
    · split
      · next d₁ hd₁ =>
        rw [hd₁] at ih
        exact ih.trans (addsDirectories_settle fun d' hd' => addsDirectories_of_ensureDirectory hd')
      · next hfailed => exact ih
    · exact addsDirectories_settle fun d' hd' => addsDirectories_of_ensureDirectory hd'

/-- A path that never goes up leads to no file that it did not lead to before the directories were
made. -/
theorem AddsDirectories.look_eq (h : AddsDirectories d d') (hup : FilePath.up ∉ d.stepsTo path)
    (he : e ≠ .directory) (hl : d'.look path = .ok e) : d.look path = .ok e := by
  obtain ⟨spot, hspot, hentry, hslash⟩ := (look_eq_ok_iff he).mp hl
  have hthere : d.get? spot.location = some e :=
    h.added _ _ he ((entry_of_locate hspot).symm.trans hentry)
  obtain ⟨hpath, place, found, hw, rfl⟩ := locate_eq_ok_iff.mp hspot
  have hsteps : d'.stepsTo path = d.stepsTo path := by rw [stepsTo, h.workplace, stepsTo]
  rw [hsteps] at hw
  have hw' := (Node.arrives_of_walk hw).of_subtree h.kept hup
    (show Node.Leads d.root [] d.root from rfl) (show Node.Leads d'.root [] d'.root from rfl) rfl
    (fun hnone => by simp [get?, hnone] at hthere)
  exact (look_eq_ok_iff he).mpr
    ⟨_, locate_eq_ok_iff.mpr ⟨hpath, place, _, hw'.walk_eq, rfl⟩, hthere, hslash⟩

/-- A path to what is no directory, or to nothing, ends in an ordinary name. -/
theorem named_of_locate (h : d.locate path = .ok spot) (hf : spot.entry ≠ some .directory) :
    spot.named = true := by
  obtain ⟨⟨-, -, hpath⟩, place, found, hw, rfl⟩ := locate_eq_ok_iff.mp h
  obtain ⟨s, hs, hname⟩ := (Node.arrives_of_walk hw).last_isName
    (show Node.Leads d.root [] d.root from rfl) rfl hf
  -- A path of slashes alone leads to the root.
  have hsteps : (FilePath.steps path).getLast? = some s := by
    rw [stepsTo, List.getLast?_append] at hs
    cases hlast : (FilePath.steps path).getLast? with
    | some t => rw [hlast, Option.some_or] at hs; exact hs
    | none =>
      have habsolute := FilePath.isAbsolute_of_steps_eq_nil (by simpa using hpath)
        (List.getLast?_eq_none_iff.mp hlast)
      rw [hlast, if_pos habsolute] at hs
      cases hs
  simp [hsteps, hname.1, hname.2.1]

/-- Nothing is altered but what is no directory at a place. -/
structure AltersOnly (place : Location) (d d' : Disk) : Prop where
  same : SameDirectories d d'
  elsewhere : ∀ p ≠ place, d'.get? p = d.get? p

/-- Writing to an open file alters it alone. -/
theorem altersOnly_of_openFile {place : Location} (h : d.openFile path = .ok (place, e))
    (bs : Bytes) : AltersOnly place d (d.put place (e.filled bs)) := by
  obtain ⟨he, spot, hspot, -, hfile, rfl, -⟩ := openFile_eq_ok h
  have hfilled := filled_ne_directory he bs
  refine ⟨(sameDirectories_put hspot hfile hfilled).1, fun p hp => ?_⟩
  obtain ⟨hne, habove⟩ := above_of_locate hspot hfile
  rw [entry_of_locate hspot] at hfile
  rw [get?_put _ hne habove hfile, if_neg hp]

/-- An open file that has been written to can be opened and written to again. -/
theorem openFile_put {place : Location} (h : d.openFile path = .ok (place, e)) (bs : Bytes) :
    (d.put place (e.filled bs)).openFile path = .ok (place, e.filled bs) := by
  obtain ⟨he, spot, hspot, hslash, hfile, rfl, -⟩ := openFile_eq_ok h
  have hfilled := filled_ne_directory he bs
  simp [openFile, locate_put hspot hfile hfilled, hslash, hfilled]

/-- A path to a file elsewhere leads to it still, and one to the altered place leads where all such
paths lead. -/
theorem AltersOnly.look {place : Location} (h : AltersOnly place d d') (he : e ≠ .directory)
    (hl : d.look path = .ok e) {path' : Text} {e' : Entry}
    (hopen : d'.openFile path' = .ok (place, e')) (hthere : d'.look path' = .ok e') :
    d'.look path = .ok e ∨ d'.look path = d'.look path' := by
  obtain ⟨spot, hspot, hentry, hslash⟩ := (look_eq_ok_iff he).mp hl
  have hspot' := h.same.locate hspot
  by_cases hplace : spot.location = place
  · obtain ⟨he', found, hfound, -, -, hloc, -⟩ := openFile_eq_ok hopen
    obtain ⟨found', hfound', hentry', -⟩ := (look_eq_ok_iff he').mp hthere
    obtain rfl : found = found' := Except.ok.inj (hfound.symm.trans hfound')
    have hget : d'.get? spot.location = some e' := by
      rw [hplace, hloc, ← entry_of_locate hfound, hentry']
    refine .inr ?_
    rw [hthere]
    exact (look_eq_ok_iff he').mpr ⟨_, hspot', hget, hslash⟩
  · refine .inl ((look_eq_ok_iff he).mpr ⟨_, hspot', ?_, hslash⟩)
    rw [← hentry, entry_of_locate hspot]
    exact h.elsewhere _ hplace

/-- A file can be moved to a path of a file. -/
theorem rename_of_look {old new : Text} {e' : Entry} (he : e ≠ .directory) (he' : e' ≠ .directory)
    (hold : d.look old = .ok e) (hnew : d.look new = .ok e') : ∃ d', d.rename old new = .ok d' := by
  obtain ⟨source, hsource, hentry, hslash⟩ := (look_eq_ok_iff he).mp hold
  obtain ⟨target, htarget, hentry', hslash'⟩ := (look_eq_ok_iff he').mp hnew
  have hnamed := named_of_locate htarget (by simp [hentry', he'])
  cases e with
  | directory => exact absurd rfl he
  | file c => simp [rename, hsource, htarget, hentry, hnamed, hslash, hslash', hentry', he']
  | sink => simp [rename, hsource, htarget, hentry, hnamed, hslash, hslash', hentry', he']

end Disk
end WebHost
