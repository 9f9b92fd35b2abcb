import WebHost.Proofs.Accounts.Stored
import WebHost.Proofs.Disk.FileName

/-! A saving that fails or is cut short. The document is written to the temporary file, so that the
users file is what it was until the one takes the place of the other. This fails where the two are
one file, and where the directories that are made uncover a file that no path led to before. -/
namespace WebHost.UsersFile
open Disk (Change Cut)

/-- What is read at the path is what was read there before, or the whole document. -/
def StaysWhole (d d' : Disk) (path : Text) (us : List Account) : Prop :=
  d'.content? path = d.content? path ∨ d'.content? path = some (toBytes us)

/-- However the document is cut into writes, and wherever a saving fails or is cut short, no reader
finds a part of it; and a saving that succeeds leaves it. -/
structure SavesWhole (d : Disk) (path : Text) (us : List Account) : Prop where
  cut : ∀ parts d', parts.flatten = toBytes us → Cut (savingParts path parts) d d' →
    StaysWhole d d' path us
  refused : ∀ err d', save d path us = (.error err, d') → StaysWhole d d' path us
  done : ∀ d', save d path us = (.ok (), d') → d'.content? path = some (toBytes us)

/-- The temporary file is the users file, and it can be written. -/
def WritesInPlace (d : Disk) (path : Text) : Prop :=
  temporary path = path ∧ ∃ d₁ place e,
    Disk.applyAll (preparing path) d = (.ok (), d₁) ∧ d₁.openFile path = .ok (place, e)

/-- The directories that are made on the way lead to a file that was not found before. -/
def Uncovers (d : Disk) (path : Text) (us : List Account) : Prop :=
  ∃ d₁ bs, Cut (preparing path) d d₁ ∧ d.content? path = none ∧ d₁.content? path = some bs ∧
    bs ≠ toBytes us

variable {d d' d₁ : Disk} {path : Text} {us : List Account} {parts : List Bytes}

instance (d d' : Disk) (path : Text) (us : List Account) : Decidable (StaysWhole d d' path us) :=
  inferInstanceAs (Decidable (_ ∨ _))

theorem addsDirectories_of_cut_preparing (h : Cut (preparing path) d d') : d.AddsDirectories d' := by
  refine h.addsDirectories fun c hc => ?_
  unfold preparing at hc
  split at hc
  · exact ⟨_, List.mem_singleton.mp hc⟩
  · cases hc

theorem cut_preparing_of_applyAll (h : Disk.applyAll (preparing path) d = (.ok (), d₁)) :
    Cut (preparing path) d d₁ := by
  have hcut := Disk.cut_applyAll (preparing path) d
  rwa [h] at hcut

/-- A saving that is cut short has made directories, or it has written some of the document to the
temporary file, or it has moved the whole of it. -/
theorem cut_savingParts_cases (h : Cut (savingParts path parts) d d') :
    Cut (preparing path) d d' ∨ ∃ d₁ place e,
      Disk.applyAll (preparing path) d = (.ok (), d₁) ∧
      d₁.openFile (temporary path) = .ok (place, e) ∧
      ((∃ bs, bs <+: parts.flatten ∧ d' = d₁.put place (e.filled bs)) ∨
        (d₁.put place (e.filled parts.flatten)).rename (temporary path) path = .ok d') := by
  rw [savingParts_eq, Disk.cut_append_iff] at h
  obtain hcut | ⟨d₁, hprepared, hcut⟩ := h
  · exact .inl hcut
  · cases hcut with
    | within hleaves =>
      cases hleaves
      exact .inl (cut_preparing_of_applyAll hprepared)
    | next hcreate hcut =>
      rw [Change.apply, Disk.settle_eq_ok_iff] at hcreate
      cases hopen : d₁.openFile (temporary path) with
      | error k => simp [Disk.create, hopen, Except.map] at hcreate
      | ok r =>
        obtain ⟨place, e⟩ := r
        obtain rfl := Except.ok.inj ((Disk.create_eq hopen).symm.trans hcreate)
        refine .inr ⟨d₁, place, e, hprepared, hopen, ?_⟩
        obtain hcut | ⟨d₂, hwritten, hcut⟩ := Disk.cut_append_iff.mp hcut
        · exact .inl (Disk.cut_appends hopen hcut)
        · rw [Disk.applyAll_appends hopen, Prod.mk.injEq] at hwritten
          obtain ⟨-, rfl⟩ := hwritten
          cases hcut with
          | within hleaves =>
            cases hleaves
            exact .inl ⟨_, List.prefix_rfl, rfl⟩
          | next hrename hcut =>
            cases hcut
            exact .inr (Disk.settle_eq_ok_iff.mp hrename)

/-- Where the temporary file has been made, the cut falls among the writes or on the move. -/
theorem cut_of_create {place : Location} {e : Entry} (parts : List Bytes)
    (hprepared : Disk.applyAll (preparing path) d = (.ok (), d₁))
    (hopen : d₁.openFile (temporary path) = .ok (place, e))
    (h : Cut (parts.map (.append (temporary path)) ++ [.rename (temporary path) path])
      (d₁.put place (e.filled [])) d') : Cut (savingParts path parts) d d' := by
  rw [savingParts_eq, Disk.cut_append_iff]
  exact .inr ⟨d₁, hprepared, .next (Disk.apply_create hopen) h⟩

theorem exists_toBytes_eq (us : List Account) : ∃ b b' bs, toBytes us = b :: b' :: bs := by
  unfold toBytes print
  split
  · exact ⟨_, _, _, rfl⟩
  · exact ⟨_, _, _, rfl⟩

theorem toBytes_ne_nil (us : List Account) : toBytes us ≠ [] := by
  obtain ⟨b, b', bs, hbytes⟩ := exists_toBytes_eq us
  simp [hbytes]

theorem content?_filled {e : Entry} {bs : Bytes} (he : e.filled bs ≠ .sink) :
    (e.filled bs).content? = some bs := by
  cases e with
  | directory | file c => rfl
  | sink => exact absurd rfl he

/-- A temporary file beside the users file takes nothing from it. -/
theorem content?_put_temporary {place : Location} {e : Entry}
    (hopen : d.openFile (temporary path) = .ok (place, e)) (hne : temporary path ≠ path)
    (bs : Bytes) : (d.put place (e.filled bs)).content? path = d.content? path := by
  have halters := Disk.altersOnly_of_openFile hopen bs
  exact Disk.content?_eq_of_same halters.same fun spot hspot hslash hf =>
    halters.elsewhere _ (Disk.location_ne_of_withExtension (by decide) hne hopen hspot hslash hf)

theorem staysWhole_of_cut_preparing (hu : ¬ Uncovers d path us)
    (h : Cut (preparing path) d d₁) : StaysWhole d d₁ path us := by
  cases hbefore : d.content? path with
  | some bs =>
    obtain ⟨e, he, hl, hbs⟩ := Disk.content?_eq_some_iff.mp hbefore
    have hl₁ := (addsDirectories_of_cut_preparing h).look hl he
    exact .inl (by rw [hbefore, Disk.content?_of_look hl₁, hbs])
  | none =>
    cases hafter : d₁.content? path with
    | none => exact .inl (hafter.trans hbefore.symm)
    | some bs =>
      by_cases hbs : bs = toBytes us
      · exact .inr (hbs ▸ hafter)
      · exact absurd ⟨d₁, bs, h, hbefore, hafter, hbs⟩ hu

/-- What is neither written in place nor uncovered nor kept by a device is saved as a whole. -/
theorem savesWhole_of_not (hin : ¬ WritesInPlace d path) (hu : ¬ Uncovers d path us)
    (hsink : ∀ d', save d path us = (.ok (), d') → d'.look path ≠ .ok .sink) :
    SavesWhole d path us := by
  have hdone : ∀ d', save d path us = (.ok (), d') → d'.content? path = some (toBytes us) := by
    intro d' hsave
    obtain ⟨e, he, hl⟩ := look_of_save hsave
    have hfilled : e.filled (toBytes us) ≠ .sink := fun hs => hsink d' hsave (hs ▸ hl)
    rw [Disk.content?_of_look hl, content?_filled hfilled]
  have hcut : ∀ parts d', parts.flatten = toBytes us → Cut (savingParts path parts) d d' →
      StaysWhole d d' path us := by
    intro parts d' hparts hcut
    obtain hcut | ⟨d₁, place, e, hprepared, hopen, ⟨bs, -, rfl⟩ | hrename⟩ :=
      cut_savingParts_cases hcut
    · exact staysWhole_of_cut_preparing hu hcut
    · have hne : temporary path ≠ path := fun hsame =>
        hin ⟨hsame, d₁, place, e, hprepared, hsame ▸ hopen⟩
      rw [StaysWhole, content?_put_temporary hopen hne]
      exact staysWhole_of_cut_preparing hu (cut_preparing_of_applyAll hprepared)
    · rw [hparts] at hrename
      exact .inr (hdone d' (save_eq_ok_iff.mpr ⟨d₁, place, e, hprepared, hopen, hrename⟩))
  refine ⟨hcut, fun err d' hsave => ?_, hdone⟩
  have hleft := Disk.cut_applyAll (saving path us) d
  rw [← save_snd, hsave] at hleft
  exact hcut [toBytes us] d' List.flatten_singleton hleft

theorem SavesWhole.look_ne_sink (h : SavesWhole d path us)
    (hsave : save d path us = (.ok (), d')) : d'.look path ≠ .ok .sink := by
  intro hl
  have hdone := h.done d' hsave
  rw [Disk.content?_of_look hl] at hdone
  exact toBytes_ne_nil us (Option.some.inj hdone).symm

theorem SavesWhole.not_uncovers (h : SavesWhole d path us) : ¬ Uncovers d path us := by
  rintro ⟨d₁, bs, hcut, hbefore, hafter, hbs⟩
  have hall : Cut (savingParts path [toBytes us]) d d₁ := by
    rw [savingParts_eq]
    exact Disk.cut_append_iff.mpr (.inl hcut)
  obtain hsame | hwhole := h.cut _ d₁ List.flatten_singleton hall
  · rw [hbefore, hafter] at hsame
    cases hsame
  · exact hbs (Option.some.inj (hafter.symm.trans hwhole))

/-- A file that is written in place is empty for a moment, and then has the first byte of the
document alone. -/
theorem SavesWhole.not_writesInPlace (h : SavesWhole d path us) : ¬ WritesInPlace d path := by
  rintro ⟨hsame, d₁, place, e, hprepared, hopen⟩
  obtain ⟨b, b', bs, hbytes⟩ := exists_toBytes_eq us
  have hcut {d₂ : Disk} (hwritten : Cut [.append path (toBytes us), .rename path path]
      (d₁.put place (e.filled [])) d₂) : StaysWhole d d₂ path us := by
    refine h.cut [toBytes us] d₂ List.flatten_singleton ?_
    exact cut_of_create [toBytes us] hprepared (hsame.symm ▸ hopen) (hsame.symm ▸ hwritten)
  have hl (written : Bytes) := Disk.look_put_of_openFile hopen written
  by_cases hsink : e = .sink
  · subst hsink
    obtain ⟨d', hrename⟩ := Disk.rename_of_look (by simp [Entry.filled])
      (by simp [Entry.filled]) (hl (toBytes us)) (hl (toBytes us))
    have hsave := save_eq_ok_iff.mpr ⟨d₁, place, _, hprepared, hsame.symm ▸ hopen, by rwa [hsame]⟩
    exact h.look_ne_sink hsave
      (Disk.look_of_rename (by simp) (hl (toBytes us)) hrename)
  · have hcontent (written : Bytes) :
        (d₁.put place (e.filled written)).content? path = some written := by
      have hfilled : e.filled written ≠ .sink := by
        cases e with
        | directory | file c => simp [Entry.filled]
        | sink => exact absurd rfl hsink
      rw [Disk.content?_of_look (hl written), content?_filled hfilled]
    have hfirst : (d₁.put place (e.filled [])).append path ((toBytes us).take 1) =
        .ok (d₁.put place (e.filled [b])) := by
      rw [Disk.append_put hopen, hbytes]
      rfl
    have hempty := hcut (.start _ _)
    have hpart := hcut (.within (.bytes hfirst))
    simp only [StaysWhole, hcontent, hbytes, Option.some.injEq, List.cons.injEq] at hempty hpart
    obtain hempty | hempty := hempty
    · obtain hpart | hpart := hpart
      · rw [← hempty] at hpart
        cases hpart
      · cases hpart.2
    · cases hempty

/-- A path that never goes up leads to nothing new when directories are made. -/
theorem not_uncovers (hup : FilePath.up ∉ d.stepsTo path) : ¬ Uncovers d path us := by
  rintro ⟨d₁, bs, hcut, hbefore, hafter, -⟩
  obtain ⟨e, he, hl, hbs⟩ := Disk.content?_eq_some_iff.mp hafter
  have hl' := (addsDirectories_of_cut_preparing hcut).look_eq hup he hl
  rw [Disk.content?_of_look hl', hbs] at hbefore
  cases hbefore

theorem WritesInPlace.extension? (h : WritesInPlace d path) :
    FilePath.extension? path = some "tmp".toList := by
  obtain ⟨hsame, d₁, place, e, -, hopen⟩ := h
  obtain ⟨-, spot, hspot, hslash, hf, -⟩ := Disk.openFile_eq_ok hopen
  exact Disk.extension?_of_withExtension_eq hsame hspot hslash hf

/-- A saving that fails or is cut short leaves what could be read at the path or the whole document,
and one that succeeds leaves the document, unless the file is written in place, the directories made
on the way uncover another, or a device keeps nothing of what is saved. Only a name with the extension
of temporary files is written in place, and only a path that goes up can uncover a file. -/
theorem savesWhole_iff (d : Disk) (path : Text) (us : List Account) :
    (SavesWhole d path us ↔
      ¬ WritesInPlace d path ∧ ¬ Uncovers d path us ∧
        ∀ d', save d path us = (.ok (), d') → d'.look path ≠ .ok .sink) ∧
      (WritesInPlace d path → FilePath.extension? path = some "tmp".toList) ∧
      (Uncovers d path us → FilePath.up ∈ d.stepsTo path) := by
  refine ⟨⟨fun h => ?_, fun h => ?_⟩, WritesInPlace.extension?, fun h => ?_⟩
  · exact ⟨h.not_writesInPlace, h.not_uncovers, fun d' => h.look_ne_sink⟩
  · exact savesWhole_of_not h.1 h.2.1 h.2.2
  · exact Decidable.not_not.mp fun hup => not_uncovers hup h

/-- A disk with one file of two bytes. -/
def withFile (place : Location) : Disk := ({} : Disk).put place (.file [1, 2])

/-- An old file is replaced by the list of one account, or stays. -/
theorem savesWhole_over_old_file :
    let d := withFile ["data".toList, "users.json".toList]
    let path := "data/users.json".toList
    let us : List Account :=
      [⟨1, "alice".toList, "alice@x.org".toList, [], [], 0, 0, true, .admin⟩]
    d.content? path = some [1, 2] ∧ (save d path us).1 = .ok () ∧ SavesWhole d path us := by
  intro d path us
  obtain ⟨hiff, htmp, hup⟩ := savesWhole_iff d path us
  have hin : ¬ WritesInPlace d path := fun h => absurd (htmp h) (by decide)
  have hu : ¬ Uncovers d path us := fun h => absurd (hup h) (by decide)
  have hsink : (save d path us).2.look path ≠ .ok .sink := by decide +kernel
  refine ⟨by decide +kernel, by decide +kernel, hiff.mpr ⟨hin, hu, fun d' hsave => ?_⟩⟩
  rwa [hsave] at hsink

/-- A file with the extension of temporary files is empty when the saving is cut behind its first
change. And a saving that fails can have made a directory by whose name an old file is found. -/
theorem not_forall_staysWhole :
    (¬ ∀ (d : Disk) (path : Text) (us : List Account) (parts : List Bytes) (d' : Disk),
      parts.flatten = toBytes us → Cut (savingParts path parts) d d' → StaysWhole d d' path us) ∧
    ¬ ∀ (d : Disk) (path : Text) (us : List Account) (err : AccountError) (d' : Disk),
      save d path us = (.error err, d') → StaysWhole d d' path us := by
  constructor
  · intro hwhole
    let place := ["users.tmp".toList]
    let path := "users.tmp".toList
    have hopen : (withFile place).openFile path = .ok (place, .file [1, 2]) := by decide +kernel
    have hsame : temporary path = path := by decide
    have hprepared : Disk.applyAll (preparing path) (withFile place) = (.ok (), withFile place) := by
      have hnone : preparing path = [] := by decide
      rw [hnone, Disk.applyAll]
    have hcut := cut_of_create [toBytes []] hprepared (hsame.symm ▸ hopen) (.start _ _)
    have hempty := hwhole _ path [] _ _ List.flatten_singleton hcut
    have hlost : ¬ StaysWhole (withFile place) ((withFile place).put place (.file [])) path [] := by
      decide +kernel
    exact hlost hempty
  · intro hwhole
    let d := withFile ["users.json".toList]
    let path := "users.tmp/../users.json".toList
    have hfails : (save d path []).1 = .error (.io FaultKind.isADirectory.error) := by
      decide +kernel
    have hsave : save d path [] =
        (.error (.io FaultKind.isADirectory.error), (save d path []).2) := by
      rw [← hfails]
    have hnew := hwhole d path [] _ _ hsave
    have hother : ¬ StaysWhole d (save d path []).2 path [] := by decide +kernel
    exact hother hnew

end WebHost.UsersFile
