import WebHost.Accounts.Op

/-! What each operation on the accounts can do: the one way in which it succeeds, and that nothing
changes where it is refused. -/
namespace WebHost.Accounts

/-- The account that a registration adds. -/
def newAccount (a : Accounts) (m : Moment) (username email password : Text) : Account :=
  { id := a.users.length + 1, username, email
    passwordHash := Credentials.hash password m.salt
    salt := m.salt
    createdAt := m.now
    lastLogin := 0
    active := true
    role := .user }

theorem register_cases (a : Accounts) (m : Moment) (username email password : Text) :
    (∃ e, a.register m username email password = (.error e, a)) ∨
      Credentials.isUsername username ∧ Credentials.isEmail email ∧
        Credentials.isStrongPassword password ∧ (∀ u ∈ a.users, u.username ≠ username) ∧
        a.users.length < userLimit ∧
        a.register m username email password = (.ok (a.users.length + 1),
          { a with users := a.users ++ [newAccount a m username email password] }) := by
  unfold register
  split
  · exact .inl ⟨_, rfl⟩
  · split
    · exact .inl ⟨_, rfl⟩
    · split
      · exact .inl ⟨_, rfl⟩
      · split
        · exact .inl ⟨_, rfl⟩
        · split
          · exact .inl ⟨_, rfl⟩
          · next hname hemail hpassword hfree hroom =>
            refine .inr ⟨by simpa using hname, by simpa using hemail, by simpa using hpassword,
              by simpa using hfree, by omega, rfl⟩

/-- Nothing else is asked of a registration. -/
theorem register_of_valid {a : Accounts} {username email password : Text}
    (hname : Credentials.isUsername username) (hemail : Credentials.isEmail email)
    (hpassword : Credentials.isStrongPassword password)
    (hfree : ∀ u ∈ a.users, u.username ≠ username) (hroom : a.users.length < userLimit) (m : Moment) :
    a.register m username email password = (.ok (a.users.length + 1),
      { a with users := a.users ++ [newAccount a m username email password] }) := by
  have hany : (a.users.any fun u => u.username == username) = false := by
    simpa using hfree
  simp only [register, hname, hemail, hpassword, hany, Bool.not_true, Bool.false_eq_true, if_false,
    if_neg (Nat.not_le.mpr hroom)]
  rfl

theorem authenticate_cases (a : Accounts) (m : Moment) (username password : Text) :
    (∃ e, a.authenticate m username password = (.error e, a)) ∨
      ∃ u, a.userByName? username = some u ∧ u.active ∧
        Credentials.verify password u.salt u.passwordHash ∧
        a.authenticate m username password = (.ok u.id,
          { a with
            users := changeFirst (fun u => u.username == username)
              (fun u => { u with lastLogin := m.now }) a.users }) := by
  unfold authenticate
  split
  · exact .inl ⟨_, rfl⟩
  · next u hu =>
    split
    · exact .inl ⟨_, rfl⟩
    · split
      · exact .inl ⟨_, rfl⟩
      · next hactive hverify =>
        exact .inr ⟨u, hu, by simpa using hactive, by simpa using hverify, rfl⟩

/-- Nothing else is asked of a login. -/
theorem authenticate_of_verify {a : Accounts} {u : Account} {username password : Text}
    (hu : a.userByName? username = some u) (hactive : u.active)
    (hverify : Credentials.verify password u.salt u.passwordHash) (m : Moment) :
    a.authenticate m username password = (.ok u.id,
      { a with
        users := changeFirst (fun u => u.username == username)
          (fun u => { u with lastLogin := m.now }) a.users }) := by
  simp only [authenticate, hu, hactive, hverify, Bool.not_true, Bool.false_eq_true, if_false]

/-- A session expires so many seconds on exactly if it is to last so long and the bound on times is
not reached. -/
theorem expiry_eq_add_iff {now lifetime named : Nat} (h : lifetime < timeBound) :
    expiry now lifetime = now + named ↔ lifetime = named ∧ now + named < timeBound := by
  unfold expiry timeBound at *
  omega

/-- The session that an opening adds. -/
def newSession (a : Accounts) (m : Moment) (userId : Nat) (address : Option Text) : Session :=
  { token := m.token, userId, createdAt := m.now, expiresAt := expiry m.now a.lifetime, address }

theorem openSession_cases (a : Accounts) (m : Moment) (userId : Nat) (address : Option Text) :
    sessionLimit ≤ (a.purge m.now).sessions.length ∧
        a.openSession m userId address = (.error .tooManySessions, a.purge m.now) ∨
      (a.purge m.now).sessions.length < sessionLimit ∧
        a.openSession m userId address = (.ok m.token,
          { a with sessions := (a.purge m.now).sessions ++ [newSession a m userId address] }) := by
  unfold openSession
  simp only
  split
  · next h => exact .inl ⟨h, rfl⟩
  · next h => exact .inr ⟨by omega, rfl⟩

@[simp] theorem sessions_purge (a : Accounts) (now : Nat) :
    (a.purge now).sessions = a.sessions.filter fun s => s.isLive now := rfl

@[simp] theorem users_purge (a : Accounts) (now : Nat) : (a.purge now).users = a.users := rfl

@[simp] theorem users_openSession (a : Accounts) (m : Moment) (userId : Nat) (address : Option Text) :
    (a.openSession m userId address).2.users = a.users := by
  rcases openSession_cases a m userId address with ⟨-, ho⟩ | ⟨-, ho⟩
  · rw [ho, users_purge]
  · rw [ho]

/-- An opening drops the expired sessions, whether there is room then or not. -/
theorem sessions_openSession (a : Accounts) (m : Moment) (userId : Nat) (address : Option Text) :
    (a.openSession m userId address).2.sessions =
      if sessionLimit ≤ (a.sessions.filter fun s => s.isLive m.now).length then
        a.sessions.filter fun s => s.isLive m.now
      else (a.sessions.filter fun s => s.isLive m.now) ++
        [⟨m.token, userId, m.now, expiry m.now a.lifetime, address⟩] := by
  rcases openSession_cases a m userId address with ⟨hfull, ho⟩ | ⟨hroom, ho⟩
  · rw [ho, ← sessions_purge, if_pos hfull]
  · rw [ho, ← sessions_purge, if_neg (Nat.not_le.mpr hroom)]
    rfl

/-- A token is looked for among the sessions that have not expired. -/
theorem validate_eq_find? (a : Accounts) (m : Moment) (token : Text) :
    a.validate m token =
      (a.sessions.filter fun s => s.isLive m.now).find? fun s => s.token == token := by
  rw [List.find?_filter, validate]
  congr 1
  funext s
  rw [Bool.eq_iff_iff]
  simp [and_comm]

/-- No operation changes how long sessions last. -/
@[simp] theorem lifetime_apply {β : Type} (m : Moment) (a : Accounts) (o : Op β) :
    (o.apply m a).2.lifetime = a.lifetime := by
  cases o with
  | register username email password =>
    rcases register_cases a m username email password with ⟨e, h⟩ | ⟨-, -, -, -, -, h⟩ <;>
      simp [Op.apply, h]
  | authenticate username password =>
    rcases authenticate_cases a m username password with ⟨e, h⟩ | ⟨u, -, -, -, h⟩ <;>
      simp [Op.apply, h]
  | openSession userId address =>
    rcases openSession_cases a m userId address with ⟨-, h⟩ | ⟨-, h⟩ <;>
      simp [Op.apply, h, purge]
  | _ => rfl

/-- Only opening, closing and cleaning up change the sessions. -/
theorem sessions_apply {β : Type} (m : Moment) (a : Accounts) (o : Op β) :
    (o.apply m a).2.sessions =
      match o with
      | .openSession userId address => (a.openSession m userId address).2.sessions
      | .closeSession token => a.sessions.filter fun s => s.token != token
      | .cleanup => a.sessions.filter fun s => s.isLive m.now
      | _ => a.sessions := by
  cases o with
  | register username email password =>
    rcases register_cases a m username email password with ⟨e, h⟩ | ⟨-, -, -, -, -, h⟩ <;>
      simp [Op.apply, h]
  | authenticate username password =>
    rcases authenticate_cases a m username password with ⟨e, h⟩ | ⟨u, -, -, -, h⟩ <;>
      simp [Op.apply, h]
  | _ => rfl

end WebHost.Accounts
