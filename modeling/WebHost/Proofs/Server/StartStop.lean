import WebHost.Proofs.Accounts.Saving
import WebHost.Server.Startup

/-! What a start and a stop do to the users file. Accounts that have been taken over are saved as
they were, and a saving that fails leaves the file alone. But a file that has been refused counts as
empty, and a saving that succeeds puts the empty list in its place. -/
namespace WebHost

namespace UsersFile

theorem lt_of_natural? {bound n : Nat} {v : Json.Value} (h : natural? bound v = some n) :
    n < bound := by
  unfold natural? at h
  split at h
  · simpa using (Option.filter_eq_some_iff.mp h).2
  · cases h

theorem isStorable_of_ofItems? {u : Account} {v₁ v₂ v₃ v₄ v₅ v₆ v₇ v₈ v₉ : Json.Value}
    (h : ofItems? v₁ v₂ v₃ v₄ v₅ v₆ v₇ v₈ v₉ = some u) : u.IsStorable := by
  simp only [ofItems?, Option.bind_eq_bind, Option.bind_eq_some_iff, Option.pure_def,
    Option.some.injEq] at h
  obtain ⟨id, hid, -, -, -, -, -, -, -, -, created, hcreated, last, hlast, -, -, -, -, rfl⟩ := h
  exact ⟨lt_of_natural? hid, lt_of_natural? hcreated, lt_of_natural? hlast⟩

theorem isStorable_of_account? {u : Account} {v : Json.Value} (h : account? v = some u) :
    u.IsStorable := by
  unfold account? at h
  split at h
  · exact isStorable_of_ofItems? h
  · -- The guard and the nine values are there.
    iterate 10 obtain ⟨_, _, h⟩ := Option.bind_eq_some_iff.mp h
    exact isStorable_of_ofItems? h
  · cases h

/-- The numbers of accounts that have been read fit. -/
theorem isStorable_of_parse {bs : Bytes} {us : List Account} (h : parse bs = some us) :
    ∀ u ∈ us, u.IsStorable := by
  unfold parse at h
  split at h
  · next items _ =>
    simp only [accounts?] at h
    split at h
    · intro u hu
      rw [← Option.some.inj h] at hu
      obtain ⟨v, -, hv⟩ : ∃ v ∈ items, account? v = some u := by simpa using hu
      exact isStorable_of_account? hv
    · cases h
  · cases h

/-- What has been saved is accepted and is what was there, unless a device has kept nothing. -/
theorem ofEntry_filled_iff {us : List Account} (hu : ∀ u ∈ us, u.IsStorable)
    (hn : us.length ≤ Accounts.userLimit) {e : Entry} (he : e ≠ .directory) :
    ofEntry (.ok (e.filled (toBytes us))) = .ok (some us) ↔ e.filled (toBytes us) ≠ .sink := by
  cases e with
  | directory => exact absurd rfl he
  | file c =>
    have hread : (Entry.file c).filled (toBytes us) = .file (toBytes us) := rfl
    simp [hread, ofEntry, Entry.content?, parse_toBytes_accounts, if_pos hu, hn]
  | sink =>
    simp [Entry.filled, ofEntry, Entry.content?, parse_nil]

theorem ofEntry_of_save {d d' : Disk} {path : Text} {us : List Account}
    (hu : ∀ u ∈ us, u.IsStorable) (hn : us.length ≤ Accounts.userLimit)
    (h : save d path us = (.ok (), d')) :
    ofEntry (d'.look path) = .ok (some us) ↔ d'.look path ≠ .ok .sink := by
  obtain ⟨e, he, hlook⟩ := look_of_save h
  rw [hlook, ofEntry_filled_iff hu hn he]
  simp

/-- A saving that fails has made directories at most, or it has written the temporary file and could
not move it. -/
theorem save_error_cases {d d' : Disk} {path : Text} {us : List Account} {err : AccountError}
    (h : save d path us = (.error err, d')) :
    d.Extends d' ∨ ∃ d₁ place e, d.Extends d₁ ∧ Disk.AltersOnly place d₁ d' ∧
      d'.openFile (temporary path) = .ok (place, e) ∧ d'.look (temporary path) = .ok e ∧
      ∀ d'', d'.rename (temporary path) path ≠ .ok d'' := by
  have hfails : ∃ k, Disk.applyAll (saving path us) d = (.error k, d') := by
    unfold save at h
    split at h
    · cases h
    · next k d₁ hall =>
      obtain rfl : d₁ = d' := congrArg Prod.snd h
      exact ⟨k, hall⟩
  obtain ⟨k, hall⟩ := hfails
  have hcut := Disk.cut_applyAll (preparing path) d
  rw [saving, savingParts_eq, Disk.applyAll_append] at hall
  split at hall
  · next d₁ hprepared =>
    rw [hprepared] at hcut
    have hext := (addsDirectories_of_cut_preparing hcut).toExtends
    cases hopen : d₁.openFile (temporary path) with
    | error k' =>
      have hcreate : (Disk.Change.create (temporary path)).apply d₁ = (.error k', d₁) := by
        simp [Disk.Change.apply, Disk.create, hopen, Except.map, Disk.settle]
      rw [Disk.applyAll_cons_of_error hcreate] at hall
      obtain rfl : d₁ = d' := congrArg Prod.snd hall
      exact .inl hext
    | ok r =>
      obtain ⟨place, e⟩ := r
      let d₂ := d₁.put place (e.filled (toBytes us))
      rw [Disk.applyAll_write hopen, List.flatten_singleton] at hall
      cases hrename : d₂.rename (temporary path) path with
      | ok d₃ =>
        have hmove : (Disk.Change.rename (temporary path) path).apply d₂ = (.ok (), d₃) :=
          Disk.settle_eq_ok_iff.mpr hrename
        rw [Disk.applyAll_cons_of_ok hmove] at hall
        cases hall
      | error k' =>
        have hmove : (Disk.Change.rename (temporary path) path).apply d₂ = (.error k', d₂) := by
          simp [Disk.Change.apply, hrename, Disk.settle]
        rw [Disk.applyAll_cons_of_error hmove] at hall
        obtain rfl : d₂ = d' := congrArg Prod.snd hall
        exact .inr ⟨d₁, place, _, hext, Disk.altersOnly_of_openFile hopen _,
          Disk.openFile_put hopen _, Disk.look_put_of_openFile hopen _, by simp [hrename]⟩
  · next k' d₁ hprepared =>
    rw [hprepared] at hcut
    obtain rfl : d₁ = d' := congrArg Prod.snd hall
    exact .inl (addsDirectories_of_cut_preparing hcut).toExtends

/-- A saving that fails leaves the files alone if there is one at its path. -/
theorem extends_of_save_error {d d' : Disk} {path : Text} {us : List Account} {err : AccountError}
    (h : save d path us = (.error err, d')) {e : Entry} (he : e ≠ .directory)
    (hl : d.look path = .ok e) : d.Extends d' := by
  obtain hext | ⟨d₁, place, written, hext, halters, hopen, hthere, hfails⟩ := save_error_cases h
  · exact hext
  · -- What has been written can be moved to where a file is.
    have hwritten := (Disk.openFile_eq_ok hopen).1
    obtain ⟨e', he', hl'⟩ : ∃ e', e' ≠ .directory ∧ d'.look path = .ok e' := by
      obtain hsame | hother := halters.look he (hext.look hl he) hopen hthere
      · exact ⟨e, he, hsame⟩
      · exact ⟨written, hwritten, hother.trans hthere⟩
    obtain ⟨d'', hd''⟩ := Disk.rename_of_look hwritten he' hthere hl'
    exact absurd hd'' (hfails d'')

/-- A saving that fails loses no file but what was where it writes the temporary one. -/
theorem look_of_save_error {d d' : Disk} {path : Text} {us : List Account} {err : AccountError}
    (h : save d path us = (.error err, d')) {q : Text} {e : Entry} (he : e ≠ .directory)
    (hl : d.look q = .ok e) : d'.look q = .ok e ∨ d'.look q = d'.look (temporary path) := by
  obtain hext | ⟨d₁, place, written, hext, halters, hopen, hthere, -⟩ := save_error_cases h
  · exact .inl (hext.look hl he)
  · exact halters.look he (hext.look hl he) hopen hthere

end UsersFile

namespace Machine
variable {α β : Type}

@[simp] theorem run_pure (a : α) (m : Machine) : m.run (pure a) = (a, m) := rfl

@[simp] theorem run_bind (p : Action Op α) (f : α → Action Op β) (m : Machine) :
    m.run (p >>= f) = (m.run p).2.run (f (m.run p).1) :=
  Action.run_bind _ p f m

@[simp] theorem run_look (path : Text) (m : Machine) :
    m.run (Action.perform (.look path)) = (m.look path, m) := rfl

@[simp] theorem run_listen (address : Text) (m : Machine) :
    m.run (Action.perform (.listen address)) = (m.listen address, m) := rfl

@[simp] theorem run_serve (s : Settings) (site : Site) (m : Machine) :
    m.run (Action.perform (.serve s site)) = (m.serve s site, m) := rfl

theorem look_eq_of_ok {m : Machine} {path : Text} {e : Entry} (h : m.look path = .ok e) :
    m.disk.look path = .ok e := by
  unfold look at h
  split at h
  · exact h
  · cases h

end Machine

namespace Startup
open UsersFile

/-- The settings are in order, the address is free, and the server is stopped before any request. -/
structure StopsAtOnce (m : Machine) (s : Settings) : Prop where
  valid : s.validate = .ok ()
  listens : m.listen s.address = .ok ()
  idle : m.serve s (siteOf s (accountsOf (m.look s.usersFile))) =
    some (siteOf s (accountsOf (m.look s.usersFile)))

variable {m : Machine} {s : Settings}

/-- What the users file has shown at the start is saved at the end. -/
theorem StopsAtOnce.run_serve (h : StopsAtOnce m s) :
    m.run (serve s) = (some (.ok ()),
      { m with disk := (save m.disk s.usersFile (accountsOf (m.look s.usersFile)).users).2 }) := by
  simp only [serve, h.valid, h.listens, h.idle, Machine.run_bind, Machine.run_look,
    Machine.run_listen, Machine.run_serve, Machine.run_pure, Machine.run_changeAll, save_snd]
  rfl

theorem users_accountsOf {seen : Except FaultKind Entry} {us : Option (List Account)}
    (h : ofEntry seen = .ok us) : (accountsOf seen).users = us.getD [] := by
  cases us <;> simp [accountsOf, h]

theorem users_accountsOf_of_error {seen : Except FaultKind Entry} {err : AccountError}
    (h : ofEntry seen = .error err) : (accountsOf seen).users = [] := by
  simp [accountsOf, h]

/-- Accounts that have been taken over stay in the file. Where no file was, an empty list is saved.
A file that has been refused keeps its bytes only if the saving fails; otherwise the empty list takes
its place. And a saving that fails loses no file but what was where it writes the temporary one. A
device in the place of the temporary file keeps nothing of what is saved. -/
theorem users_file_after_start_stop (h : StopsAtOnce m s) :
    ∃ saved d', save m.disk s.usersFile (accountsOf (m.look s.usersFile)).users = (saved, d') ∧
      m.run (serve s) = (some (.ok ()), { m with disk := d' }) ∧
      (∀ us, ofEntry (m.look s.usersFile) = .ok (some us) →
        (ofEntry (d'.look s.usersFile) = .ok (some us) ↔ d'.look s.usersFile ≠ .ok .sink)) ∧
      (ofEntry (m.look s.usersFile) = .ok none → saved = .ok () →
        (ofEntry (d'.look s.usersFile) = .ok (some []) ↔ d'.look s.usersFile ≠ .ok .sink)) ∧
      (∀ err content, ofEntry (m.look s.usersFile) = .error err →
        m.disk.look s.usersFile = .ok (.file content) →
        (saved ≠ .ok () → d'.look s.usersFile = .ok (.file content)) ∧
          (saved = .ok () → d'.look s.usersFile ≠ .ok .sink →
            d'.look s.usersFile = .ok (.file (toBytes [])))) ∧
      (saved ≠ .ok () → ∀ q e, e ≠ .directory → m.disk.look q = .ok e →
        d'.look q = .ok e ∨ d'.look q = d'.look (temporary s.usersFile)) := by
  obtain ⟨saved, d', hsave⟩ : ∃ saved d', save m.disk s.usersFile
      (accountsOf (m.look s.usersFile)).users = (saved, d') := ⟨_, _, rfl⟩
  have hrun := h.run_serve
  rw [hsave] at hrun
  refine ⟨saved, d', hsave, hrun, ?_, ?_, ?_, ?_⟩
  · intro us hus
    obtain ⟨content, hseen, hparse, hn⟩ := file_of_ofEntry_eq_some hus
    have hthere := Machine.look_eq_of_ok hseen
    rw [users_accountsOf hus, Option.getD_some] at hsave
    cases saved with
    | ok u => exact ofEntry_of_save (isStorable_of_parse hparse) hn hsave
    | error err =>
      have hstays := (extends_of_save_error hsave (by simp) hthere).look hthere (by simp)
      rw [hseen] at hus
      rw [hstays]
      exact ⟨fun _ => by simp, fun _ => hus⟩
  · intro hnone hok
    rw [users_accountsOf hnone, hok, Option.getD_none] at hsave
    exact ofEntry_of_save (by simp) (Nat.zero_le _) hsave
  · intro err content herr hthere
    rw [users_accountsOf_of_error herr] at hsave
    cases saved with
    | ok u =>
      obtain ⟨e, he, hlook⟩ := look_of_save hsave
      refine ⟨fun hne => absurd rfl hne, fun _ hsink => ?_⟩
      cases e with
      | directory => exact absurd rfl he
      | file c => exact hlook
      | sink => exact absurd hlook hsink
    | error err' =>
      refine ⟨fun _ => ?_, fun hok => by cases hok⟩
      exact (extends_of_save_error hsave (by simp) hthere).look hthere (by simp)
  · intro hne q e he hl
    cases saved with
    | ok u => exact absurd rfl hne
    | error err => exact look_of_save_error hsave he hl

/-- A machine with a users file and nothing else. -/
def holding (content : Text) : Machine :=
  { disk := ({} : Disk).put ["users.json".toList] (.file (Utf8.encode content)) }

def localSettings : Settings := { usersFile := "users.json".toList }

theorem stopsAtOnce_holding (content : Text) : StopsAtOnce (holding content) localSettings :=
  ⟨rfl, rfl, rfl⟩

/-- A file that lists the values of one account is written anew in another form. -/
theorem users_file_after_start_stop_of_one_account :
    let m := holding "[[1,\"alice\",\"alice@x.org\",\"\",\"\",0,0,true,\"admin\"]]".toList
    let us : List Account :=
      [⟨1, "alice".toList, "alice@x.org".toList, [], [], 0, 0, true, .admin⟩]
    StopsAtOnce m localSettings ∧ ofEntry (m.look localSettings.usersFile) = .ok (some us) ∧
      ∃ d', m.run (serve localSettings) = (some (.ok ()), { m with disk := d' }) ∧
        ofEntry (d'.look localSettings.usersFile) = .ok (some us) := by
  intro m us
  have hstops : StopsAtOnce m localSettings := stopsAtOnce_holding _
  have hseen : ofEntry (m.look localSettings.usersFile) = .ok (some us) := by decide +kernel
  obtain ⟨saved, d', hsave, hrun, haccepted, -⟩ := users_file_after_start_stop hstops
  have hdisk : d' = (save m.disk localSettings.usersFile us).2 := by
    rw [users_accountsOf hseen, Option.getD_some] at hsave
    rw [hsave]
  have hsink : d'.look localSettings.usersFile ≠ .ok .sink := by
    rw [hdisk]
    decide +kernel
  exact ⟨hstops, hseen, d', hrun, (haccepted us hseen).mpr hsink⟩

/-- Text that is no list of users is gone after a start and a stop. -/
theorem not_forall_start_stop_keeps_accounts :
    ¬ ∀ (m : Machine) (s : Settings), StopsAtOnce m s →
      let seen := ofEntry (m.look s.usersFile)
      let now := (m.run (serve s)).2.disk.look s.usersFile
      (∀ us, seen = .ok us → ∃ us', ofEntry now = .ok us' ∧ us'.getD [] = us.getD []) ∧
        ∀ err content, seen = .error err → m.disk.look s.usersFile = .ok (.file content) →
          now = .ok (.file content) := by
  intro hkeeps
  let m := holding "\x7bnot json".toList
  have hstops : StopsAtOnce m localSettings := stopsAtOnce_holding _
  have hrefused : ofEntry (m.look localSettings.usersFile) =
      .error (.corrupt "not a list of users".toList) := by decide +kernel
  have hthere : m.disk.look localSettings.usersFile =
      .ok (.file (Utf8.encode "\x7bnot json".toList)) := by decide +kernel
  have hnow := (hkeeps m localSettings hstops).2 _ _ hrefused hthere
  simp only [hstops.run_serve, users_accountsOf_of_error hrefused] at hnow
  have hgone : (save m.disk localSettings.usersFile []).2.look localSettings.usersFile =
      .ok (.file (toBytes [])) := by decide +kernel
  rw [hgone] at hnow
  exact absurd hnow (by decide +kernel)

end Startup
end WebHost
