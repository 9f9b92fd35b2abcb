import WebHost.Disk.Change
import WebHost.Proofs.Disk.Walk

/-! What files are found after the changes that write and move them. -/
namespace WebHost.Disk

variable {d d' : Disk} {path : Text} {e : Entry}

theorem settle_eq_ok_iff {r : Except FaultKind Disk} : d.settle r = (.ok (), d') ↔ r = .ok d' := by
  cases r <;> simp [settle]

theorem applyAll_cons_eq_ok {c : Change} {cs : List Change} (h : applyAll (c :: cs) d = (.ok (), d')) :
    ∃ d₁, c.apply d = (.ok (), d₁) ∧ applyAll cs d₁ = (.ok (), d') := by
  rw [applyAll] at h
  split at h
  · next d₁ hc => exact ⟨d₁, hc, h⟩
  · simp at h

theorem applyAll_cons_of_ok {c : Change} {cs : List Change} {d₁ : Disk} (h : c.apply d = (.ok (), d₁)) :
    applyAll (c :: cs) d = applyAll cs d₁ := by
  rw [applyAll, h]

theorem applyAll_cons_of_error {c : Change} {cs : List Change} {k : FaultKind}
    (h : c.apply d = (.error k, d')) : applyAll (c :: cs) d = (.error k, d') := by
  rw [applyAll, h]

theorem applyAll_append_of_ok {cs ds : List Change} {d₁ : Disk}
    (h : applyAll cs d = (.ok (), d₁)) : applyAll (cs ++ ds) d = applyAll ds d₁ := by
  rw [applyAll_append, h]

theorem applyAll_append_eq_ok {cs ds : List Change} (h : applyAll (cs ++ ds) d = (.ok (), d')) :
    ∃ d₁, applyAll cs d = (.ok (), d₁) ∧ applyAll ds d₁ = (.ok (), d') := by
  rw [applyAll_append] at h
  split at h
  · next d₁ hc => exact ⟨d₁, hc, h⟩
  · simp at h

theorem look_eq_ok_iff (he : e ≠ .directory) : d.look path = .ok e ↔
    ∃ spot, d.locate path = .ok spot ∧ spot.entry = some e ∧ spot.slashed = false := by
  unfold look
  split
  · next k hk => simp [hk]
  · next spot hspot =>
    simp only [hspot, Except.ok.injEq, exists_eq_left']
    split
    · next hentry => simp [hentry]
    · next hentry => simp [hentry, Ne.symm he]
    · next found _ hentry =>
      cases hslash : spot.slashed <;> simp [hentry]

theorem filled_ne_directory (he : e ≠ .directory) (bs : Bytes) : e.filled bs ≠ .directory := by
  cases e with
  | directory => exact absurd rfl he
  | file c => simp [Entry.filled]
  | sink => simp [Entry.filled]

theorem openFile_eq_ok {place : Location} (h : d.openFile path = .ok (place, e)) :
    e ≠ .directory ∧ ∃ spot, d.locate path = .ok spot ∧ spot.slashed = false ∧
      spot.entry ≠ some .directory ∧ place = spot.location ∧ e = spot.entry.getD (.file []) := by
  unfold openFile at h
  split at h
  · simp at h
  · next spot hspot =>
    split at h
    · simp at h
    · next hfile =>
      simp only [Bool.or_eq_true, decide_eq_true_eq, not_or, Bool.not_eq_true] at hfile
      simp only [Except.ok.injEq, Prod.mk.injEq] at h
      refine ⟨?_, spot, hspot, hfile.1, hfile.2, h.1.symm, h.2.symm⟩
      rw [← h.2]
      cases hentry : spot.entry with
      | none => simp
      | some found =>
        rintro rfl
        exact hfile.2 hentry

/-- What is written to an open file is found at its path. -/
theorem look_put_of_openFile {place : Location} (h : d.openFile path = .ok (place, e)) (bs : Bytes) :
    (d.put place (e.filled bs)).look path = .ok (e.filled bs) := by
  obtain ⟨he, spot, hspot, hslash, hfile, rfl, -⟩ := openFile_eq_ok h
  have hfilled := filled_ne_directory he bs
  exact (look_eq_ok_iff hfilled).mpr ⟨_, locate_put hspot hfile hfilled, rfl, hslash⟩

/-- A file that has been moved is found at its new path, whatever was there. -/
theorem look_of_rename {old : Text} (he : e ≠ .directory) (hl : d.look old = .ok e)
    (h : d.rename old path = .ok d') : d'.look path = .ok e := by
  obtain ⟨source, hsource, hentry, -⟩ := (look_eq_ok_iff he).mp hl
  unfold rename at h
  split at h
  · simp at h
  · simp at h
  · next source' target hsource' htarget =>
    obtain rfl : source = source' := Except.ok.inj (hsource.symm.trans hsource')
    split at h
    · simp at h
    · simp at h
    · next found _ hfound =>
      obtain rfl : found = e := Option.some.inj (hfound.symm.trans hentry)
      split at h
      · simp at h
      · split at h
        · simp at h
        · next hslash =>
          split at h
          · simp at h
          · next hfile =>
            simp only [Bool.or_eq_true, not_or, Bool.not_eq_true] at hslash
            obtain rfl := Except.ok.inj h
            have hremove := sameDirectories_remove hsource (by simp [hentry, he])
            have htarget' := hremove.locate htarget
            have hfree : (d.remove source.location).get? target.location ≠ some .directory := by
              rw [Ne, hremove.directories, ← entry_of_locate htarget]
              exact hfile
            exact (look_eq_ok_iff he).mpr
              ⟨_, locate_put htarget' hfree he, rfl, hslash.2⟩

end WebHost.Disk
