import WebHost.Proofs.Accounts.Regular

/-! What a loading that succeeds leaves in memory. A users file describes the list of accounts that
its bytes are a document of, and a missing file describes the empty list. The accounts of a file take
the place of all that there have been. Where no file is, the answer promises that there are none, but
those that there have been stay. -/
namespace WebHost.UsersFile

/-- What is found at a path describes these accounts. -/
inductive Describes : Except FaultKind Entry → List Account → Prop
  | missing : Describes (.error .notFound) []
  | written {content : Bytes} {us : List Account} (h : parse content = some us) :
      Describes (.ok (.file content)) us

variable {found : Except FaultKind Entry} {us vs : List Account} {files : Files} {path : Text}
  {a a' : Accounts} {n : Nat}

/-- Nothing describes two lists. -/
theorem Describes.unique (h : Describes found us) (h' : Describes found vs) : us = vs := by
  cases h with
  | missing =>
    cases h' with
    | missing => rfl
  | written hus =>
    cases h' with
    | written hvs => exact Option.some.inj (hus.symm.trans hvs)

/-- A document as it is saved describes the accounts that it has been printed from. -/
theorem describes_toBytes (hu : ∀ u ∈ us, u.IsStorable) :
    Describes (.ok (.file (toBytes us))) us :=
  .written (by rw [parse_toBytes_accounts, if_pos hu])

theorem ofEntry_eq_none_iff : ofEntry found = .ok none ↔ found = .error .notFound := by
  constructor
  · intro h
    unfold ofEntry at h
    split at h
    · rfl
    · cases h
    · split at h
      · cases h
      · split at h
        · cases h
        · split at h <;> cases h
  · rintro rfl
    rfl

theorem ofEntry_eq_some_iff : ofEntry found = .ok (some us) ↔
    found ≠ .error .notFound ∧ Describes found us ∧ us.length ≤ Accounts.userLimit := by
  constructor
  · intro h
    obtain ⟨content, rfl, hparse, hn⟩ := file_of_ofEntry_eq_some h
    exact ⟨by simp, .written hparse, hn⟩
  · rintro ⟨hne, hd, hn⟩
    cases hd with
    | missing => exact absurd rfl hne
    | written hparse =>
      simp only [ofEntry, Entry.content?, hparse, if_neg (Nat.not_lt.mpr hn)]

/-- A loading succeeds in two ways: it finds no file and does nothing, or it takes over the accounts
that a file describes. -/
theorem load_eq_ok_iff : load files path a = (.ok n, a') ↔
    (files path = .error .notFound ∧ n = 0 ∧ a' = a) ∨
      ∃ us, files path ≠ .error .notFound ∧ Describes (files path) us ∧
        us.length ≤ Accounts.userLimit ∧ n = us.length ∧ a' = { a with users := us } := by
  unfold load
  split
  · next e he =>
    constructor
    · intro h
      cases (Prod.mk.inj h).1
    · rintro (⟨hmissing, -⟩ | ⟨us, hne, hd, hn, -⟩)
      · rw [ofEntry_eq_none_iff.mpr hmissing] at he
        cases he
      · rw [ofEntry_eq_some_iff.mpr ⟨hne, hd, hn⟩] at he
        cases he
  · next hnone =>
    have hmissing := ofEntry_eq_none_iff.mp hnone
    simp [hmissing, eq_comm]
  · next us hsome =>
    obtain ⟨hne, hd, hn⟩ := ofEntry_eq_some_iff.mp hsome
    constructor
    · intro h
      obtain ⟨hcount, ha⟩ := Prod.mk.inj h
      exact .inr ⟨us, hne, hd, hn, (Except.ok.inj hcount).symm, ha.symm⟩
    · rintro (⟨hmissing, -⟩ | ⟨vs, -, hd', -, rfl, rfl⟩)
      · exact absurd hmissing hne
      · rw [hd.unique hd']

theorem exists_load_eq_ok_iff : (∃ n a', load files path a = (.ok n, a')) ↔
    ∃ us, Describes (files path) us ∧ us.length ≤ Accounts.userLimit := by
  constructor
  · rintro ⟨n, a', h⟩
    rcases load_eq_ok_iff.mp h with ⟨hmissing, -⟩ | ⟨us, -, hd, hn, -⟩
    · exact ⟨[], hmissing ▸ .missing, Nat.zero_le _⟩
    · exact ⟨us, hd, hn⟩
  · rintro ⟨us, hd, hn⟩
    by_cases hmissing : files path = .error .notFound
    · exact ⟨0, a, load_eq_ok_iff.mpr (.inl ⟨hmissing, rfl, rfl⟩)⟩
    · exact ⟨us.length, _, load_eq_ok_iff.mpr (.inr ⟨us, hmissing, hd, hn, rfl, rfl⟩)⟩

/-- A loading succeeds where a file, or no file, describes as many accounts as there may be, and
answers their number. Afterwards the accounts are those that are described if and only if there is a
file, or there have been no accounts before: without a file those that there have been stay. The
sessions stay in any case. -/
theorem load_replaces_users_iff (files : Files) (path : Text) (a : Accounts) :
    ((∃ n a', load files path a = (.ok n, a')) ↔
      ∃ us, Describes (files path) us ∧ us.length ≤ Accounts.userLimit) ∧
    ∀ n a', load files path a = (.ok n, a') →
      (∀ us, Describes (files path) us → n = us.length ∧
        (a'.users.length = n ∧ a'.users = us ↔ files path ≠ .error .notFound ∨ a.users = [])) ∧
      (files path = .error .notFound → a' = a) ∧ a'.sessions = a.sessions := by
  refine ⟨exists_load_eq_ok_iff, fun n a' h => ?_⟩
  rcases load_eq_ok_iff.mp h with ⟨hmissing, rfl, rfl⟩ | ⟨us, hne, hd, -, rfl, rfl⟩
  · refine ⟨fun us hd => ?_, fun _ => rfl, rfl⟩
    obtain rfl : us = [] := hd.unique (hmissing ▸ .missing)
    simp [hmissing]
  · refine ⟨fun vs hd' => ?_, fun hmissing => absurd hmissing hne, rfl⟩
    obtain rfl := hd.unique hd'
    simp [hne]

/-- A disk with a users file in which these accounts have been saved. -/
def diskOf (us : List Account) : Disk :=
  ({} : Disk).put ["users.json".toList] (.file (toBytes us))

/-- The account of a file takes the place of two others, and the session of one of them stays. -/
theorem load_replaces_users_of_others :
    let account (id : Nat) (name : String) : Account :=
      ⟨id, name.toList, "x@x.org".toList, [], [], 0, 0, true, .user⟩
    let us := [account 1 "carol"]
    let files := (diskOf us).look
    let path := "users.json".toList
    let a : Accounts :=
      { users := [account 1 "alice", account 2 "bob"], sessions := [⟨['t'], 2, 0, 9, none⟩] }
    Describes (files path) us ∧ ∃ a', load files path a = (.ok 1, a') ∧ a'.users = us ∧
      a'.sessions = a.sessions := by
  intro account us files path a
  have hlook : files path = .ok (.file (toBytes us)) := by decide +kernel
  have hd : Describes (files path) us := hlook ▸ describes_toBytes (by decide)
  obtain ⟨hsucceeds, hleaves⟩ := load_replaces_users_iff files path a
  obtain ⟨n, a', h⟩ := hsucceeds.mpr ⟨us, hd, by decide⟩
  obtain ⟨hdescribed, -, hsessions⟩ := hleaves n a' h
  obtain ⟨rfl, hiff⟩ := hdescribed us hd
  exact ⟨hd, a', h, (hiff.mpr (.inl (by simp [hlook]))).2, hsessions⟩

/-- Somebody who has registered is there still after a loading that has found no file and has
answered that there is nobody. -/
theorem not_forall_load_replaces_users :
    ¬ ∀ (a : Accounts) (d : Disk), Accounts.Reached a d → ∀ path n a',
      load d.look path a = (.ok n, a') →
        a'.users.length = n ∧ ∀ us, Describes (d.look path) us → a'.users = us := by
  intro hreplaces
  let m : Moment := ⟨0, [], []⟩
  let bob : Accounts.Op (Except AccountError Nat) :=
    .register "bob".toList "bob@x.org".toList "Passw0rd".toList
  let a := (bob.apply m {}).2
  have hreached : Accounts.Reached a {} := .op (.empty 3600 {}) m bob
  have hmissing : ({} : Disk).look "none.json".toList = .error .notFound := by decide +kernel
  have hload : load ({} : Disk).look "none.json".toList a = (.ok 0, a) := load_of_missing hmissing a
  have hcount : a.users.length = 1 := by decide +kernel
  have hzero := (hreplaces a {} hreached _ _ _ hload).1
  rw [hcount] at hzero
  cases hzero

end WebHost.UsersFile
