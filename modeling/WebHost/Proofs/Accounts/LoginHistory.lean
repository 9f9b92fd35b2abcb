import Mathlib.Data.List.Induction
import WebHost.Proofs.Accounts.Regular

/-! Logins and the history of a run. A name can be logged in to with the password that it has been
registered with and with no other, as long as the account has not been switched off since. Hashes
are compared and not passwords, so that this needs a digest that tells apart what it is given. -/
namespace WebHost

/-- No two of the byte strings have the same digest. -/
def Sha256.CollisionFree (inputs : List Bytes) : Prop :=
  ∀ x ∈ inputs, ∀ y ∈ inputs, digest x = digest y → x = y

instance (inputs : List Bytes) : Decidable (Sha256.CollisionFree inputs) :=
  inferInstanceAs (Decidable (∀ x ∈ inputs, ∀ y ∈ inputs, _))

namespace Credentials

/-- The bytes whose digest is kept for a password. -/
def salted (password salt : Text) : Bytes := Utf8.encode password ++ Utf8.encode salt

/-- Nothing stands between the password and the salt, but with one salt the bytes tell the
passwords apart. -/
theorem salted_inj {password other salt : Text} :
    salted password salt = salted other salt ↔ password = other := by
  simp [salted, Utf8.encode_inj]

theorem verify_hash (password salt : Text) : verify password salt (hash password salt) := by
  simp [verify]

theorem verify_hash_iff {inputs : List Bytes} (hc : Sha256.CollisionFree inputs)
    {password other salt : Text} (hp : salted password salt ∈ inputs)
    (ho : salted other salt ∈ inputs) :
    verify other salt (hash password salt) ↔ other = password := by
  constructor
  · intro h
    have hdigest : Sha256.digest (salted other salt) = Sha256.digest (salted password salt) :=
      Text.hex_inj.mp (beq_iff_eq.mp h)
    exact salted_inj.mp (hc _ ho _ hp hdigest)
  · rintro rfl
    exact verify_hash other salt

end Credentials

namespace Accounts

/-- How an event switches the account of that number, if it does. -/
def Event.switch? (id : Nat) : Event → Option Bool
  | ⟨_, .setActive i active⟩ => if i = id then some active else none
  | _ => none

/-- Whether the account of that number is active after the events, if it has been before. -/
def activeAfter (id : Nat) (es : List Event) : Bool :=
  ((es.filterMap (Event.switch? id)).getLast?).getD true

theorem activeAfter_concat (id : Nat) (es : List Event) (e : Event) :
    activeAfter id (es ++ [e]) = (e.switch? id).getD (activeAfter id es) := by
  rw [activeAfter, activeAfter, List.filterMap_append]
  cases hs : e.switch? id <;> simp [hs]

/-- What an event has digested: for a registration that adds an account, and for a login that gets
as far as the password. -/
def Event.digested (a : Accounts) : Event → List Bytes
  | ⟨m, .register username email password⟩ =>
    match (a.register m username email password).1 with
    | .ok _ => [Credentials.salted password m.salt]
    | .error _ => []
  | ⟨_, .authenticate username password⟩ =>
    match a.userByName? username with
    | some u => if u.active then [Credentials.salted password u.salt] else []
    | none => []
  | _ => []

/-- What a run has digested. -/
def digested (a : Accounts) : List Event → List Bytes
  | [] => []
  | e :: es => e.digested a ++ (e.op.apply e.moment a).2.digested es

theorem digested_append (a : Accounts) (es fs : List Event) :
    a.digested (es ++ fs) = a.digested es ++ (a.run es).digested fs := by
  induction es generalizing a with
  | nil => rfl
  | cons e es ih => rw [List.cons_append, digested, digested, ih, run_cons, List.append_assoc]

/-- In the run the name has been registered with the password and has got the number, and the events
`after` have followed. -/
def RegisteredIn (a : Accounts) (es : List Event) (username password : Text) (id : Nat)
    (after : List Event) : Prop :=
  ∃ (before : List Event) (m : Moment) (email : Text),
    es = before ++ ⟨m, .register username email password⟩ :: after ∧
      ((a.run before).register m username email password).1 = .ok id

variable {a : Accounts} {es after : List Event} {e : Event} {username password : Text} {id : Nat}

theorem RegisteredIn.concat (h : RegisteredIn a es username password id after) (e : Event) :
    RegisteredIn a (es ++ [e]) username password id (after ++ [e]) := by
  obtain ⟨before, m, email, rfl, hok⟩ := h
  exact ⟨before, m, email, by simp, hok⟩

/-- Where no two accounts are alike, a change of the first that is like `k` is a change of all that
are. -/
theorem changeFirst_eq_map {α : Type} [BEq α] [LawfulBEq α] {f : Account → α} {us : List Account}
    (h : (us.map f).Nodup) (k : α) (change : Account → Account) :
    changeFirst (fun u => f u == k) change us = us.map fun u => if f u == k then change u else u := by
  induction us with
  | nil => rfl
  | cons u us ih =>
    obtain ⟨hu, hus⟩ := List.nodup_cons.mp h
    rw [changeFirst, List.map_cons, ih hus]
    split
    · next hk =>
      -- The first is the only one, and the rest is left as it is.
      have hrest : (us.map fun v => if f v == k then change v else v) = us := by
        refine (List.map_congr_left fun v hv => ?_).trans (List.map_id us)
        have hne : f v ≠ k := by
          rintro rfl
          exact hu (beq_iff_eq.mp hk ▸ List.mem_map_of_mem hv)
        simp [hne]
      rw [hrest]
    · rfl

theorem find?_username_changeFirst {α : Type} [BEq α] [LawfulBEq α] {f : Account → α}
    {us : List Account} (h : (us.map f).Nodup) (k : α) (change : Account → Account)
    (hc : ∀ u, (change u).username = u.username) (name : Text) :
    ((changeFirst (fun u => f u == k) change us).find? fun u => u.username == name) =
      (us.find? fun u => u.username == name).map fun u => if f u == k then change u else u := by
  rw [changeFirst_eq_map h, List.find?_map]
  congr 2
  funext u
  show ((if f u == k then change u else u).username == name) = (u.username == name)
  split
  · rw [hc]
  · rfl

/-- What an event leaves of the account with a name: it may be switched and its last login noted. -/
theorem userByName?_apply (h : a.IsRegular) {u : Account} (hu : a.userByName? username = some u)
    (e : Event) :
    ∃ v, (e.op.apply e.moment a).2.userByName? username = some v ∧ v.id = u.id ∧ v.salt = u.salt ∧
      v.passwordHash = u.passwordHash ∧ v.active = (e.switch? u.id).getD u.active := by
  have hids : (a.users.map Account.id).Nodup := h.users.ids ▸ List.nodup_range'
  obtain ⟨m, o⟩ := e
  cases o with
  | register name email password =>
    refine ⟨u, ?_, rfl, rfl, rfl, rfl⟩
    rcases register_cases a m name email password with ⟨e, ho⟩ | ⟨-, -, -, -, -, ho⟩
    · simpa only [Op.apply, ho] using hu
    · simp only [Op.apply, ho]
      rw [userByName?, List.find?_append, show a.users.find? _ = some u from hu, Option.some_or]
  | authenticate name password =>
    rcases authenticate_cases a m name password with ⟨e, ho⟩ | ⟨w, -, -, -, ho⟩
    · exact ⟨u, by simpa only [Op.apply, ho] using hu, rfl, rfl, rfl, rfl⟩
    · refine ⟨if u.username == name then { u with lastLogin := m.now } else u, ?_, ?_⟩
      · simp only [Op.apply, ho]
        exact (find?_username_changeFirst h.users.names name (fun u => { u with lastLogin := m.now })
          (fun _ => rfl) username).trans (congrArg (Option.map _) hu)
      · split <;> exact ⟨rfl, rfl, rfl, rfl⟩
  | setRole id role =>
    refine ⟨if u.id == id then { u with role } else u,
      (find?_username_changeFirst hids id (fun u => { u with role }) (fun _ => rfl) username).trans
        (congrArg (Option.map _) hu), ?_⟩
    split <;> exact ⟨rfl, rfl, rfl, rfl⟩
  | setActive id active =>
    refine ⟨if u.id == id then { u with active } else u,
      (find?_username_changeFirst hids id (fun u => { u with active }) (fun _ => rfl) username).trans
        (congrArg (Option.map _) hu), ?_⟩
    by_cases hid : u.id = id
    · simp [Event.switch?, hid]
    · simp [Event.switch?, hid, Ne.symm hid]
  | openSession userId address =>
    refine ⟨u, ?_, rfl, rfl, rfl, rfl⟩
    rw [Op.apply, userByName?, users_openSession]
    exact hu
  | _ => exact ⟨u, hu, rfl, rfl, rfl, rfl⟩

/-- What a run leaves of an active account: the last switch of it counts. -/
theorem userByName?_run (h : a.IsRegular) {u : Account} (hu : a.userByName? username = some u)
    (hactive : u.active) (es : List Event) :
    ∃ v, (a.run es).userByName? username = some v ∧ v.id = u.id ∧ v.salt = u.salt ∧
      v.passwordHash = u.passwordHash ∧ v.active = activeAfter u.id es := by
  induction es using List.reverseRecOn with
  | nil => exact ⟨u, hu, rfl, rfl, rfl, hactive⟩
  | append_singleton es e ih =>
    obtain ⟨v, hv, hid, hsalt, hhash, hswitched⟩ := ih
    obtain ⟨w, hw, hid', hsalt', hhash', hswitched'⟩ := userByName?_apply (isRegular_run h es) hv e
    refine ⟨w, by rw [run_concat]; exact hw, hid'.trans hid, hsalt'.trans hsalt,
      hhash'.trans hhash, ?_⟩
    rw [activeAfter_concat, hswitched', hid, hswitched]

/-- Whoever has been registered has an account, with the number and the password of the
registration. -/
theorem RegisteredIn.userByName? (h : RegisteredIn a es username password id after)
    (ha : a.IsRegular) :
    ∃ v, (a.run es).userByName? username = some v ∧ v.id = id ∧
      v.passwordHash = Credentials.hash password v.salt ∧ v.active = activeAfter id after ∧
      Credentials.salted password v.salt ∈ a.digested es := by
  obtain ⟨before, m, email, rfl, hok⟩ := h
  have hbefore := isRegular_run ha before
  have hafter := isRegular_apply m (.register username email password) hbefore
  rcases register_cases (a.run before) m username email password with
    ⟨e, ho⟩ | ⟨-, -, -, hfree, -, ho⟩
  · rw [ho] at hok
    cases hok
  · have hid : (a.run before).users.length + 1 = id := by simpa [ho] using hok
    have hnew : (Op.apply m (a.run before) (.register username email password)).2.userByName?
        username = some (newAccount (a.run before) m username email password) := by
      rw [Op.apply, ho, Accounts.userByName?, List.find?_append, List.find?_eq_none.mpr]
      · simp [newAccount]
      · simpa using hfree
    obtain ⟨v, hv, hvid, hsalt, hhash, hactive⟩ := userByName?_run hafter hnew rfl after
    refine ⟨v, by rw [run_append, run_cons]; exact hv, hvid.trans hid, hhash.trans ?_,
      hactive.trans ?_, ?_⟩
    · rw [hsalt]
      rfl
    · rw [← hid]
      rfl
    · rw [digested_append, digested, Event.digested, hok, hsalt]
      exact List.mem_append_right _ (List.mem_append_left _ (List.mem_singleton.mpr rfl))

/-- Whoever has not been registered has no account. -/
theorem userByName?_eq_none (ha : a.users = [])
    (h : ∀ q id after, ¬ RegisteredIn a es username q id after) :
    (a.run es).userByName? username = none := by
  induction es using List.reverseRecOn with
  | nil => simp [userByName?, ha]
  | append_singleton es e ih =>
    have hes := ih fun q id after hr => h q id _ (hr.concat e)
    rw [run_concat]
    obtain ⟨m, o⟩ := e
    cases o with
    | register name email password =>
      rcases register_cases (a.run es) m name email password with ⟨e, ho⟩ | ⟨-, -, -, -, -, ho⟩
      · simpa only [Op.apply, ho] using hes
      · have hname : name ≠ username := by
          rintro rfl
          exact h password _ [] ⟨es, m, email, rfl, by rw [ho]⟩
        rw [Op.apply, ho, userByName?, List.find?_append, show (a.run es).users.find? _ = none from hes]
        simp [newAccount, hname]
    | _ =>
      rw [← Option.map_eq_none_iff, identity_userByName?, identities_apply_eq,
        ← identity_userByName?, hes]
      rfl

/-- A login asks first whether the account is active and then for the password. -/
theorem authenticate_eq_of_some {u : Account} (hu : a.userByName? username = some u) (m : Moment)
    (password : Text) :
    (a.authenticate m username password).1 =
      if u.active then
        if Credentials.verify password u.salt u.passwordHash then .ok u.id else .error .wrongPassword
      else .error (.userInactive username) := by
  cases hactive : u.active <;> cases hverify : Credentials.verify password u.salt u.passwordHash <;>
    simp [authenticate, hu, hactive, hverify]

/-- What a login answers to somebody who has been registered. -/
theorem RegisteredIn.authenticate_eq {q : Text} {m : Moment}
    (h : RegisteredIn a es username q id after) (ha : a.IsRegular)
    (hc : Sha256.CollisionFree (a.digested (es ++ [⟨m, .authenticate username password⟩]))) :
    ((a.run es).authenticate m username password).1 =
      if activeAfter id after then if password = q then .ok id else .error .wrongPassword
      else .error (.userInactive username) := by
  obtain ⟨v, hv, hid, hhash, hactive, hq⟩ := h.userByName? ha
  rw [authenticate_eq_of_some hv, hactive, hhash, hid]
  split
  · next hon =>
    have hdigested : a.digested (es ++ [⟨m, .authenticate username password⟩]) =
        a.digested es ++ [Credentials.salted password v.salt] := by
      simp [digested_append, digested, Event.digested, hv, hactive, hon]
    rw [hdigested] at hc
    simp only [Credentials.verify_hash_iff hc (List.mem_append_left _ hq)
      (List.mem_append_right _ (List.mem_singleton_self _))]
  · rfl

/-- A login changes nothing but the time of the last login of the account with the name, and that
only if it succeeds. -/
theorem authenticate_eq_map (h : a.IsRegular) (m : Moment) (username password : Text) :
    (a.authenticate m username password).2 =
      match (a.authenticate m username password).1 with
      | .ok _ => { a with
          users := a.users.map fun u =>
            if u.username = username then { u with lastLogin := m.now } else u }
      | .error _ => a := by
  rcases authenticate_cases a m username password with ⟨e, ho⟩ | ⟨u, -, -, -, ho⟩
  · rw [ho]
  · rw [ho, changeFirst_eq_map h.users.names]
    simp only [beq_iff_eq]

/-- A name opens an account with the password that it has been registered with and with no other, if
the account has not been switched off since. What has been done with other accounts and which
attempts have failed makes no difference. A success changes nothing but the time of the last login
of this account, and a refusal changes nothing. -/
theorem login_follows_registration {lifetime : Nat} {es : List Event} {m : Moment}
    {username password : Text}
    (hc : Sha256.CollisionFree
      (({ lifetime } : Accounts).digested (es ++ [⟨m, .authenticate username password⟩]))) :
    let start : Accounts := { lifetime }
    let a := start.run es
    let outcome := a.authenticate m username password
    (∀ id, outcome.1 = .ok id ↔
      ∃ after, RegisteredIn start es username password id after ∧ activeAfter id after) ∧
    (outcome.1 = .error (.userNotFound username) ↔
      ∀ q id after, ¬ RegisteredIn start es username q id after) ∧
    (outcome.1 = .error (.userInactive username) ↔
      ∃ q id after, RegisteredIn start es username q id after ∧ activeAfter id after = false) ∧
    (outcome.1 = .error .wrongPassword ↔
      ∃ q id after, RegisteredIn start es username q id after ∧ activeAfter id after ∧
        q ≠ password) ∧
    (∀ id, outcome.1 = .ok id → outcome.2 = { a with
      users := a.users.map fun u =>
        if u.username = username then { u with lastLogin := m.now } else u }) ∧
    ∀ e, outcome.1 = .error e → outcome.2 = a := by
  intro start a outcome
  have hstart : start.IsRegular := isRegular_vacant lifetime
  have hstate : outcome.2 = _ := authenticate_eq_map (isRegular_run hstart es) m username password
  have hanswer : ∀ {q id after}, RegisteredIn start es username q id after → outcome.1 =
      if activeAfter id after then if password = q then .ok id else .error .wrongPassword
      else .error (.userInactive username) :=
    fun h => h.authenticate_eq hstart hc
  have hmissing : (∀ q id after, ¬ RegisteredIn start es username q id after) →
      outcome.1 = .error (.userNotFound username) := fun h => by
    simp [outcome, a, authenticate, userByName?_eq_none rfl h]
  have hknown : outcome.1 ≠ .error (.userNotFound username) →
      ∃ q id after, RegisteredIn start es username q id after := fun h => by
    by_contra hnone
    exact h (hmissing fun q id after hr => hnone ⟨q, id, after, hr⟩)
  refine ⟨fun id => ⟨fun hok => ?_, ?_⟩, ⟨fun hnone q id after h => ?_, hmissing⟩,
    ⟨fun hoff => ?_, ?_⟩, ⟨fun hwrong => ?_, ?_⟩, fun id hok => by rw [hstate, hok],
    fun e he => by rw [hstate, he]⟩
  · obtain ⟨q, id', after, h⟩ := hknown (by simp [hok])
    rw [hanswer h] at hok
    split_ifs at hok with hon hp
    cases hok
    exact ⟨after, hp ▸ h, hon⟩
  · rintro ⟨after, h, hon⟩
    rw [hanswer h, if_pos hon, if_pos rfl]
  · rw [hanswer h] at hnone
    split_ifs at hnone <;> cases hnone
  · obtain ⟨q, id, after, h⟩ := hknown (by simp [hoff])
    rw [hanswer h] at hoff
    split_ifs at hoff with hon
    · cases hoff
    · exact ⟨q, id, after, h, Bool.not_eq_true _ ▸ hon⟩
  · rintro ⟨q, id, after, h, hoff⟩
    rw [hanswer h, if_neg (by simp [hoff])]
  · obtain ⟨q, id, after, h⟩ := hknown (by simp [hwrong])
    rw [hanswer h] at hwrong
    split_ifs at hwrong with hon hp
    · exact ⟨q, id, after, h, hon, Ne.symm hp⟩
    · cases hwrong
  · rintro ⟨q, id, after, h, hon, hp⟩
    rw [hanswer h, if_pos hon, if_neg (Ne.symm hp)]

/-- Two accounts for which the same bytes have been digested, an attempt with the password of the
other, and an account that has been switched off and on again. -/
theorem login_follows_registration_of_equal_digests :
    let es : List Event :=
      [⟨⟨1, [], "xy".toList⟩, .register "alice".toList "a@x.org".toList "Passw0rd".toList⟩,
       ⟨⟨2, [], "y".toList⟩, .register "bob".toList "b@x.org".toList "Passw0rdx".toList⟩,
       ⟨⟨3, [], []⟩, .setActive 1 false⟩,
       ⟨⟨4, [], []⟩, .setActive 2 false⟩,
       ⟨⟨5, [], []⟩, .setActive 1 true⟩,
       ⟨⟨6, [], []⟩, .authenticate "alice".toList "Passw0rdx".toList⟩]
    let outcome := (({} : Accounts).run es).authenticate ⟨7, [], []⟩ "alice".toList "Passw0rd".toList
    Sha256.CollisionFree (({} : Accounts).digested
        (es ++ [⟨⟨7, [], []⟩, .authenticate "alice".toList "Passw0rd".toList⟩])) ∧
      outcome.1 = .ok 1 ∧ outcome.2.users.map Account.lastLogin = [7, 0] := by
  intro es outcome
  have hc : Sha256.CollisionFree (({} : Accounts).digested
      (es ++ [⟨⟨7, [], []⟩, .authenticate "alice".toList "Passw0rd".toList⟩])) := by decide +kernel
  obtain ⟨hok, -, -, -, hstate, -⟩ := login_follows_registration hc
  have hlogin : outcome.1 = .ok 1 :=
    (hok 1).mpr ⟨es.tail, ⟨[], ⟨1, [], "xy".toList⟩, "a@x.org".toList, rfl, by decide +kernel⟩, rfl⟩
  refine ⟨hc, hlogin, ?_⟩
  rw [hstate 1 hlogin]
  decide +kernel

/-- It does not count how a number has been switched before an account has got it. -/
theorem not_forall_login_follows_last_switch :
    ¬ ∀ (lifetime : Nat) (es : List Event) (m : Moment) (username password : Text) (id : Nat),
      Sha256.CollisionFree (({ lifetime } : Accounts).digested
        (es ++ [⟨m, .authenticate username password⟩])) →
      (((({ lifetime } : Accounts).run es).authenticate m username password).1 = .ok id ↔
        (∃ after, RegisteredIn { lifetime } es username password id after) ∧ activeAfter id es) := by
  intro h
  let es : List Event :=
    [⟨⟨1, [], []⟩, .setActive 1 false⟩,
     ⟨⟨2, [], "salt".toList⟩, .register "alice".toList "a@x.org".toList "Passw0rd".toList⟩]
  have hok : ((({} : Accounts).run es).authenticate ⟨3, [], []⟩ "alice".toList "Passw0rd".toList).1 =
      .ok 1 := by decide +kernel
  have hlast := ((h 3600 es ⟨3, [], []⟩ _ _ 1 (by decide +kernel)).mp hok).2
  exact absurd hlast (by decide)

end Accounts
end WebHost
