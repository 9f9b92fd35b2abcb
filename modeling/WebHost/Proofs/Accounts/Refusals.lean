import WebHost.Accounts.UsersFile
import WebHost.Proofs.Accounts.SessionHistory

/-! What a call that fails leaves of the accounts: everything. Every way in which a call can fail is
found out before the call has changed anything. Only the opening of a session has dropped sessions
by then, and these have expired. -/
namespace WebHost.Accounts

/-- What can be asked of the accounts: an operation, or that they are loaded or saved. -/
inductive Call : Type → Type 1
  | op {β : Type} (o : Op β) : Call β
  /-- The files may be in any state, and anything may be wrong with them. -/
  | load (files : Files) (path : Text) : Call (Except AccountError Nat)
  | save (disk : Disk) (path : Text) : Call (Except AccountError Unit)

namespace Call
variable {β : Type}

/-- The answer of a call and the accounts after it. -/
def apply (m : Moment) (a : Accounts) : Call β → β × Accounts
  | .op o => o.apply m a
  | .load files path => UsersFile.load files path a
  | .save disk path => ((UsersFile.save disk path a.users).1, a)

/-- The answer says that the call has failed: it is an error, or where a call can only tell whether
there has been what it is about, that there has not. -/
inductive Failed : {β : Type} → Call β → β → Prop
  | register (username email password : Text) (e : AccountError) :
      Failed (.op (.register username email password)) (.error e)
  | authenticate (username password : Text) (e : AccountError) :
      Failed (.op (.authenticate username password)) (.error e)
  | setRole (id : Nat) (role : Role) : Failed (.op (.setRole id role)) false
  | setActive (id : Nat) (active : Bool) : Failed (.op (.setActive id active)) false
  | openSession (userId : Nat) (address : Option Text) (e : AccountError) :
      Failed (.op (.openSession userId address)) (.error e)
  | closeSession (token : Text) : Failed (.op (.closeSession token)) false
  | load (files : Files) (path : Text) (e : AccountError) : Failed (.load files path) (.error e)
  | save (disk : Disk) (path : Text) (e : AccountError) : Failed (.save disk path) (.error e)

/-- The call is for a new session. -/
def Opens : Call β → Prop
  | .op (.openSession _ _) => True
  | _ => False

end Call

variable {m : Moment} {a b : Accounts}

theorem changeFirst_of_find?_eq_none {test : Account → Bool} {us : List Account}
    (h : us.find? test = none) (change : Account → Account) : changeFirst test change us = us := by
  induction us with
  | nil => rfl
  | cons u us ih =>
    rw [List.find?_cons] at h
    split at h
    · cases h
    · next htest =>
      rw [changeFirst, htest, if_neg Bool.false_ne_true, ih h]

/-- A change of an account that there is not changes nothing. -/
theorem changeUser_of_false {id : Nat} {change : Account → Account}
    (h : a.changeUser id change = (false, b)) : b = a := by
  obtain ⟨hnone, rfl⟩ := Prod.mk.inj h
  rw [Option.isSome_eq_false_iff, Option.isNone_iff_eq_none] at hnone
  rw [changeFirst_of_find?_eq_none hnone]

theorem closeSession_of_false {token : Text} (h : a.closeSession token = (false, b)) : b = a := by
  obtain ⟨hkept, rfl⟩ := Prod.mk.inj h
  rw [decide_eq_false_iff_not, Nat.not_lt] at hkept
  rw [List.filter_sublist.eq_of_length_le hkept]

theorem load_of_error {files : Files} {path : Text} {e : AccountError}
    (h : UsersFile.load files path a = (.error e, b)) : b = a := by
  unfold UsersFile.load at h
  split at h
  · exact (Prod.mk.inj h).2.symm
  · cases (Prod.mk.inj h).1
  · cases (Prod.mk.inj h).1

/-- A call that fails leaves the accounts as they are, or without their expired sessions if it has
been for a new one. -/
theorem Call.apply_of_failed {β : Type} {c : Call β} {r : β} (hf : c.Failed r)
    (h : c.apply m a = (r, b)) : ¬ c.Opens ∧ b = a ∨ c.Opens ∧ b = a.purge m.now := by
  cases hf with
  | register username email password e =>
    refine .inl ⟨id, ?_⟩
    rcases register_cases a m username email password with ⟨e', ho⟩ | ⟨-, -, -, -, -, ho⟩
    · exact (Prod.mk.inj (ho.symm.trans h)).2.symm
    · cases (Prod.mk.inj (ho.symm.trans h)).1
  | authenticate username password e =>
    refine .inl ⟨id, ?_⟩
    rcases authenticate_cases a m username password with ⟨e', ho⟩ | ⟨u, -, -, -, ho⟩
    · exact (Prod.mk.inj (ho.symm.trans h)).2.symm
    · cases (Prod.mk.inj (ho.symm.trans h)).1
  | setRole id role => exact .inl ⟨fun ho => ho, changeUser_of_false h⟩
  | setActive id active => exact .inl ⟨fun ho => ho, changeUser_of_false h⟩
  | openSession userId address e =>
    refine .inr ⟨trivial, ?_⟩
    rcases openSession_cases a m userId address with ⟨-, ho⟩ | ⟨-, ho⟩
    · exact (Prod.mk.inj (ho.symm.trans h)).2.symm
    · cases (Prod.mk.inj (ho.symm.trans h)).1
  | closeSession token => exact .inl ⟨fun ho => ho, closeSession_of_false h⟩
  | load files path e => exact .inl ⟨fun ho => ho, load_of_error h⟩
  | save disk path e => exact .inl ⟨fun ho => ho, (Prod.mk.inj h).2.symm⟩

/-- A call that fails leaves all accounts as they are, and the sessions that are live then and
later. If it has not been for a new session, it leaves the expired ones too. -/
theorem failed_call_changes_nothing {β : Type} {c : Call β} {r : β} (hf : c.Failed r)
    (h : c.apply m a = (r, b)) :
    b.users = a.users ∧
      (∀ now, m.now ≤ now →
        (b.sessions.filter fun x => x.isLive now) = a.sessions.filter fun x => x.isLive now) ∧
      (¬ c.Opens → b.sessions = a.sessions) := by
  rcases c.apply_of_failed hf h with ⟨-, rfl⟩ | ⟨hopens, rfl⟩
  · exact ⟨rfl, fun _ _ => rfl, fun _ => rfl⟩
  · exact ⟨rfl, fun _ hnow => filter_isLive_filter_isLive hnow a.sessions, fun hn => absurd hopens hn⟩

/-- As many sessions as there may be, and one that has expired and is gone afterwards. -/
theorem failed_call_changes_nothing_in_full_book :
    let live : Session := ⟨['t'], 1, 0, 9, none⟩
    let stale : Session := ⟨['s'], 1, 0, 5, none⟩
    let a : Accounts := { sessions := stale :: List.replicate 1000 live }
    let m : Moment := ⟨5, ['u'], []⟩
    ∃ b, (Call.op (.openSession 1 none)).apply m a = (.error .tooManySessions, b) ∧
      b.users = a.users ∧ stale ∉ b.sessions ∧
      (b.sessions.filter fun x => x.isLive 5) = List.replicate 1000 live := by
  intro live stale a m
  have hpurge : (a.purge m.now).sessions = List.replicate 1000 live := by
    rw [sessions_purge, List.filter_cons_of_neg (by decide), List.filter_replicate_of_pos (by decide)]
  have hfails : (Call.op (.openSession 1 none)).apply m a =
      (.error .tooManySessions, a.purge m.now) := by
    rcases openSession_cases a m 1 none with ⟨-, ho⟩ | ⟨hroom, -⟩
    · exact ho
    · rw [hpurge, List.length_replicate] at hroom
      exact absurd hroom (Nat.lt_irrefl _)
  obtain ⟨husers, hlive, -⟩ :=
    failed_call_changes_nothing (.openSession 1 none .tooManySessions) hfails
  refine ⟨_, hfails, husers, ?_, ?_⟩
  · rw [hpurge, List.mem_replicate]
    decide
  · rw [hlive 5 (Nat.le_refl 5)]
    exact hpurge

end WebHost.Accounts
