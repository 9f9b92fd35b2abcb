import WebHost.Proofs.Accounts.Identity
import WebHost.Proofs.Accounts.Stored
import WebHost.Proofs.Text.Digits

/-! What holds of the accounts whatever has been done with them: there are no more than there may
be, they are numbered from one in order, no name stands twice, and none is an account that a
registration refuses. Saving and loading keep this, and so a number and a name that lead to an
account lead to the same one. -/
namespace WebHost

/-- The form in which the hash of a password is kept. -/
def Credentials.IsDigest (t : Text) : Prop := t.length = 64 ∧ ∀ c ∈ t, c ∈ Text.hexDigits

theorem Credentials.isDigest_hash (password salt : Text) : IsDigest (hash password salt) :=
  ⟨length_hash password salt, fun _ hc => Text.mem_hexDigits_of_mem_hex hc⟩

/-- An account that a registration may have made. -/
structure Account.IsSound (u : Account) : Prop where
  username : Credentials.isUsername u.username
  email : Credentials.isEmail u.email
  passwordHash : Credentials.IsDigest u.passwordHash

namespace Accounts

/-- Accounts as registrations leave them. -/
structure Regular (us : List Account) : Prop where
  length_le : us.length ≤ userLimit
  ids : us.map Account.id = List.range' 1 us.length
  names : (us.map Account.username).Nodup
  sound : ∀ u ∈ us, u.IsSound

structure IsRegular (a : Accounts) : Prop where
  users : Regular a.users
  sessions : a.sessions.length ≤ sessionLimit

theorem regular_nil : Regular [] := ⟨by decide, rfl, List.nodup_nil, by simp⟩

theorem isRegular_vacant (lifetime : Nat) : ({ lifetime } : Accounts).IsRegular :=
  ⟨regular_nil, Nat.zero_le _⟩

section
variable {us : List Account}

theorem Regular.append_singleton (h : Regular us) {u : Account} (hroom : us.length < userLimit)
    (hid : u.id = us.length + 1) (hname : ∀ v ∈ us, v.username ≠ u.username) (hu : u.IsSound) :
    Regular (us ++ [u]) where
  length_le := by simpa using Nat.succ_le_of_lt hroom
  ids := by
    rw [List.map_append, h.ids, List.length_append, List.length_singleton, List.range'_concat]
    simp [hid, Nat.add_comm]
  names := by
    rw [List.map_append, List.map_singleton]
    refine h.names.append (List.nodup_singleton _) (List.disjoint_singleton.mpr fun hmem => ?_)
    obtain ⟨v, hv, he⟩ := List.mem_map.mp hmem
    exact hname v hv he
  sound v hv := by
    rcases List.mem_append.mp hv with hv | hv
    · exact h.sound v hv
    · exact List.mem_singleton.mp hv ▸ hu

theorem mem_changeFirst {test : Account → Bool} {change : Account → Account} {u : Account}
    (h : u ∈ changeFirst test change us) : u ∈ us ∨ ∃ v ∈ us, u = change v := by
  induction us with
  | nil => exact .inl h
  | cons v us ih =>
    rw [changeFirst] at h
    split at h
    · rcases List.mem_cons.mp h with rfl | h
      · exact .inr ⟨v, by simp, rfl⟩
      · exact .inl (by simp [h])
    · rcases List.mem_cons.mp h with rfl | h
      · exact .inl (by simp)
      · rcases ih h with h | ⟨w, hw, rfl⟩
        · exact .inl (by simp [h])
        · exact .inr ⟨w, by simp [hw], rfl⟩

/-- A change that leaves an account its number, its name and its soundness. -/
theorem Regular.changeFirst (h : Regular us) (test : Account → Bool) {change : Account → Account}
    (hi : ∀ u, (change u).identity = u.identity) (hs : ∀ u, u.IsSound → (change u).IsSound) :
    Regular (changeFirst test change us) := by
  have hids : (Accounts.changeFirst test change us).map Account.id = us.map Account.id :=
    map_changeFirst (fun u => congrArg Prod.fst (hi u)) test us
  have hnames : (Accounts.changeFirst test change us).map Account.username =
      us.map Account.username :=
    map_changeFirst (fun u => congrArg Prod.snd (hi u)) test us
  refine ⟨?_, ?_, ?_, fun u hu => ?_⟩
  · rw [length_changeFirst]
    exact h.length_le
  · rw [hids, length_changeFirst, h.ids]
  · rw [hnames]
    exact h.names
  · rcases mem_changeFirst hu with hu | ⟨v, hv, rfl⟩
    · exact h.sound u hu
    · exact hs v (h.sound v hv)

end

/-- Every operation keeps the accounts and the sessions regular. -/
theorem isRegular_apply {β : Type} (m : Moment) {a : Accounts} (o : Op β) (h : a.IsRegular) :
    (o.apply m a).2.IsRegular := by
  have hpurge : (a.purge m.now).sessions.length ≤ sessionLimit :=
    Nat.le_trans (List.length_filter_le _ _) h.sessions
  cases o with
  | register username email password =>
    rcases register_cases a m username email password with
      ⟨e, ho⟩ | ⟨hname, hemail, -, hfree, hroom, ho⟩
    · rw [Op.apply, ho]
      exact h
    · rw [Op.apply, ho]
      exact ⟨h.users.append_singleton hroom rfl hfree
        ⟨hname, hemail, Credentials.isDigest_hash password m.salt⟩, h.sessions⟩
  | authenticate username password =>
    rcases authenticate_cases a m username password with ⟨e, ho⟩ | ⟨u, -, -, -, ho⟩
    · rw [Op.apply, ho]
      exact h
    · rw [Op.apply, ho]
      exact ⟨h.users.changeFirst _ (fun _ => rfl) fun _ hu => ⟨hu.1, hu.2, hu.3⟩, h.sessions⟩
  | setRole id role | setActive id active =>
    exact ⟨h.users.changeFirst _ (fun _ => rfl) fun _ hu => ⟨hu.1, hu.2, hu.3⟩, h.sessions⟩
  | openSession userId address =>
    rcases openSession_cases a m userId address with ⟨-, ho⟩ | ⟨hroom, ho⟩
    · rw [Op.apply, ho]
      exact ⟨h.users, hpurge⟩
    · rw [Op.apply, ho]
      refine ⟨h.users, ?_⟩
      simpa using Nat.succ_le_of_lt hroom
  | closeSession token => exact ⟨h.users, Nat.le_trans (List.length_filter_le _ _) h.sessions⟩
  | cleanup => exact ⟨h.users, hpurge⟩
  | userById _ | userByName _ | userCount | validate _ | sessionCount => exact h

theorem isRegular_run {a : Accounts} (h : a.IsRegular) (es : List Event) : (a.run es).IsRegular := by
  induction es generalizing a with
  | nil => exact h
  | cons e es ih => exact ih (isRegular_apply e.moment e.op h)

/-- There is no file at the path, or one as some regular accounts have been saved. -/
def MayLoad (d : Disk) (path : Text) : Prop :=
  d.look path = .error .notFound ∨
    ∃ (us : List Account) (before after : Disk) (place : Text), Regular us ∧
      UsersFile.save before place us = (.ok (), after) ∧ d.look path = after.look place

/-- The accounts and the disk after any run from accounts without users. The operations come in any
order, each undivided, and others may change the disk at any time. -/
inductive Reached : Accounts → Disk → Prop
  | empty (lifetime : Nat) (d : Disk) : Reached { lifetime } d
  | op {a : Accounts} {d : Disk} (h : Reached a d) (m : Moment) {β : Type} (o : Op β) :
      Reached (o.apply m a).2 d
  | save {a : Accounts} {d : Disk} (h : Reached a d) (path : Text) :
      Reached a (UsersFile.save d path a.users).2
  | load {a : Accounts} {d : Disk} (h : Reached a d) {path : Text} (hf : MayLoad d path) :
      Reached (UsersFile.load d.look path a).2 d
  | others {a : Accounts} {d : Disk} (h : Reached a d) (d' : Disk) : Reached a d'

theorem isRegular_load {d : Disk} {path : Text} (hf : MayLoad d path) {a : Accounts}
    (h : a.IsRegular) : (UsersFile.load d.look path a).2.IsRegular := by
  rcases hf with hnone | ⟨us, before, after, place, hus, hsave, hlook⟩
  · rw [UsersFile.load_of_missing hnone]
    exact h
  · obtain ⟨e, -, hfound⟩ := UsersFile.look_of_save hsave
    rcases UsersFile.load_of_filled (hlook.trans hfound) a with hl | hl
    · rw [hl]
      exact h
    · rw [hl]
      exact ⟨hus, h.sessions⟩

/-- A whole run keeps the accounts and the sessions regular. -/
theorem Reached.isRegular {a : Accounts} {d : Disk} (h : Reached a d) : a.IsRegular := by
  induction h with
  | empty lifetime d => exact isRegular_vacant lifetime
  | op _ m o ih => exact isRegular_apply m o ih
  | save _ path ih => exact ih
  | load _ hf ih => exact isRegular_load hf ih
  | others _ d' ih => exact ih

section
variable {a : Accounts} (h : a.IsRegular) {u : Account}
include h

theorem IsRegular.userById?_eq_some_iff {id : Nat} :
    a.userById? id = some u ↔ u ∈ a.users ∧ u.id = id :=
  find?_eq_some_iff_of_nodup_map (by rw [h.users.ids]; exact List.nodup_range')

theorem IsRegular.userByName?_eq_some_iff {name : Text} :
    a.userByName? name = some u ↔ u ∈ a.users ∧ u.username = name :=
  find?_eq_some_iff_of_nodup_map h.users.names

end

/-- Whatever has been done, with the accounts saved and loaded in between: there are no more
accounts and no more sessions than there may be, the accounts are numbered from one in order, their
names are distinct, and names, mail addresses and hashes have the form that they must have. So the
way from a number to an account and on by its name leads back, and the other way round, and a
registration answers the number of accounts with the new one. -/
theorem regular_of_reached {a : Accounts} {d : Disk} (h : Reached a d) :
    (a.users.length ≤ userLimit ∧ a.sessions.length ≤ sessionLimit ∧
      a.users.map Account.id = List.range' 1 a.users.length ∧
      (a.users.map Account.username).Nodup ∧
      ∀ u ∈ a.users, Credentials.isUsername u.username ∧ Credentials.isEmail u.email ∧
        u.passwordHash.length = 64 ∧ ∀ c ∈ u.passwordHash, c ∈ "0123456789abcdef".toList) ∧
    (∀ u ∈ a.users, a.userById? u.id = some u ∧ a.userByName? u.username = some u) ∧
    (∀ id u, a.userById? id = some u → u.id = id ∧ a.userByName? u.username = some u) ∧
    (∀ name u, a.userByName? name = some u → u.username = name ∧ a.userById? u.id = some u) ∧
    ∀ m username email password id, (a.register m username email password).1 = .ok id →
      id = a.users.length + 1 := by
  have hr := h.isRegular
  refine ⟨⟨hr.users.length_le, hr.sessions, hr.users.ids, hr.users.names, fun u hu => ?_⟩,
    fun u hu => ⟨?_, ?_⟩, fun id u hu => ?_, fun name u hu => ?_, ?_⟩
  · have hs := hr.users.sound u hu
    exact ⟨hs.username, hs.email, hs.passwordHash⟩
  · exact hr.userById?_eq_some_iff.mpr ⟨hu, rfl⟩
  · exact hr.userByName?_eq_some_iff.mpr ⟨hu, rfl⟩
  · obtain ⟨hmem, hid⟩ := hr.userById?_eq_some_iff.mp hu
    exact ⟨hid, hr.userByName?_eq_some_iff.mpr ⟨hmem, rfl⟩⟩
  · obtain ⟨hmem, hname⟩ := hr.userByName?_eq_some_iff.mp hu
    exact ⟨hname, hr.userById?_eq_some_iff.mpr ⟨hmem, rfl⟩⟩
  · intro m username email password id hok
    rcases register_cases a m username email password with ⟨e, ho⟩ | ⟨-, -, -, -, -, ho⟩
    · simp [ho] at hok
    · simpa [ho] using hok.symm

/-- One account that has been registered, saved and loaded; the next has the number after it. -/
theorem regular_of_reached_by_loading :
    let m : Moment := ⟨0, [], []⟩
    let b := (({} : Accounts).register m "bob".toList "bob@x.org".toList "Passw0rd".toList).2
    let path := "users.json".toList
    let d := (UsersFile.save {} path b.users).2
    let a := (UsersFile.load d.look path b).2
    Reached a d ∧ a.users.map Account.username = ["bob".toList] ∧
      a.users.map Account.id = List.range' 1 a.users.length ∧
      ∀ id, (a.register m "eve".toList "eve@x.org".toList "Passw0rd".toList).1 = .ok id → id = 2 := by
  intro m b path d a
  have hb : Reached b {} :=
    .op (.empty 3600 {}) m (.register "bob".toList "bob@x.org".toList "Passw0rd".toList)
  have hok : (UsersFile.save {} path b.users).1 = .ok () := by decide +kernel
  have hsave : UsersFile.save {} path b.users = (.ok (), d) := by
    rw [← hok]
  have ha : Reached a d :=
    .load (hb.save path) (.inr ⟨b.users, {}, d, path, hb.isRegular.users, hsave, rfl⟩)
  have hnames : a.users.map Account.username = ["bob".toList] := by decide +kernel
  have hlength : a.users.length = 1 := by simpa using congrArg List.length hnames
  obtain ⟨⟨-, -, hids, -⟩, -, -, -, hnext⟩ := regular_of_reached ha
  exact ⟨ha, hnames, hids, fun id hid => by rw [hnext _ _ _ _ _ hid, hlength]⟩

end Accounts
end WebHost
