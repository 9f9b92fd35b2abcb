import WebHost.Proofs.Site.Requests

/-! What requests leave of the accounts. They add ordinary users, and of an account that is there
they change the time of its last login, when somebody logs in to it; nobody gets another role or
another number, and nobody is switched. A session is opened for whom a login has found. -/
namespace WebHost
open Http

namespace Account
variable {rs rs' : List (Surroundings × Request)} {u v x : Account}

/-- What requests may make of an account. -/
def MayBecome (rs : List (Surroundings × Request)) (u v : Account) : Prop :=
  v.settled = u.settled ∧ (v ≠ u → ∃ r ∈ rs, ∃ password, u.LoggedInBy r.2 password)

theorem MayBecome.refl (rs : List (Surroundings × Request)) (u : Account) : MayBecome rs u u :=
  ⟨rfl, fun h => absurd rfl h⟩

theorem MayBecome.append (h : MayBecome rs u v) (h' : MayBecome rs' v x) :
    MayBecome (rs ++ rs') u x := by
  refine ⟨h'.1.trans h.1, fun hne => ?_⟩
  by_cases hvu : v = u
  · obtain ⟨r, hr, password, hlogin⟩ := h'.2 (hvu ▸ hne)
    exact ⟨r, List.mem_append_right _ hr, password, hvu ▸ hlogin⟩
  · obtain ⟨r, hr, hlogin⟩ := h.2 hvu
    exact ⟨r, List.mem_append_left _ hr, hlogin⟩

/-- An account as registrations make them. -/
def IsOrdinary (u : Account) : Prop := u.role = .user ∧ u.active

theorem MayBecome.isOrdinary (h : MayBecome rs u v) (hu : u.IsOrdinary) : v.IsOrdinary := by
  obtain ⟨-, -, -, -, -, -, hactive, hrole⟩ := settled_eq_iff.mp h.1
  exact ⟨hrole.trans hu.1, hactive ▸ hu.2⟩

end Account

/-- A change of the first that passes a test leaves every other account as it is, at its place. -/
theorem Accounts.getElem?_changeFirst (test : Account → Bool) (change : Account → Account)
    {us : List Account} {i : Nat} {u : Account} (h : us[i]? = some u) :
    (changeFirst test change us)[i]? = some u ∨
      us.find? test = some u ∧ (changeFirst test change us)[i]? = some (change u) := by
  induction us generalizing i with
  | nil => simp at h
  | cons v us ih =>
    rw [changeFirst]
    split
    · next htest =>
      cases i with
      | zero =>
        obtain rfl : v = u := by simpa using h
        exact .inr ⟨List.find?_cons_of_pos htest, rfl⟩
      | succ i => exact .inl h
    · next htest =>
      cases i with
      | zero => exact .inl h
      | succ i =>
        rw [List.find?_cons_of_neg htest]
        exact ih h

namespace Site
variable {timeline : Nat → Moment} {pages : Text} {static : StaticRoute} {s : Site}

/-- What the requests make of the accounts: those that are there stay at their places, and those
that are added are ordinary. -/
structure AddsUsers (rs : List (Surroundings × Request)) (us vs : List Account) : Prop where
  kept : ∀ (i : Nat) (u : Account), us[i]? = some u → ∃ v, vs[i]? = some v ∧ u.MayBecome rs v
  added : ∀ (i : Nat) (v : Account), us[i]? = none → vs[i]? = some v → v.IsOrdinary

theorem AddsUsers.refl (rs : List (Surroundings × Request)) (us : List Account) :
    AddsUsers rs us us where
  kept _ u h := ⟨u, h, .refl rs u⟩
  added i v h hv := by simp [h] at hv

theorem AddsUsers.append {rs rs' : List (Surroundings × Request)} {us vs xs : List Account}
    (h : AddsUsers rs us vs) (h' : AddsUsers rs' vs xs) : AddsUsers (rs ++ rs') us xs where
  kept i u hu := by
    obtain ⟨v, hv, huv⟩ := h.kept i u hu
    obtain ⟨x, hx, hvx⟩ := h'.kept i v hv
    exact ⟨x, hx, huv.append hvx⟩
  added i x hu hx := by
    cases hv : vs[i]? with
    | none => exact h'.added i x hv hx
    | some v =>
      obtain ⟨y, hy, hvy⟩ := h'.kept i v hv
      obtain rfl : y = x := Option.some.inj (hy.symm.trans hx)
      exact hvy.isOrdinary (h.added i v hu hv)

theorem addsUsers_respond (hr : s.routes = addEndpoints pages static {}) (timeline : Nat → Moment)
    (r : Surroundings × Request) :
    AddsUsers [r] s.accounts.users (s.respond timeline r.1 r.2).2.accounts.users := by
  rcases respond_cases timeline r.1 r.2 hr with
    ⟨h, -⟩ | ⟨username, email, password, h⟩ | ⟨u, password, hlogin, hu, -, h, -⟩
  · exact h ▸ .refl _ _
  · rw [h]
    refine ⟨fun i u hi => ⟨u, ?_, .refl _ u⟩, fun i v hi hv => ?_⟩
    · rw [List.getElem?_append_left (List.getElem?_eq_some_iff.mp hi).1, hi]
    · rw [List.getElem?_append_right (List.getElem?_eq_none_iff.mp hi)] at hv
      obtain rfl := List.mem_singleton.mp (List.mem_of_getElem? hv)
      exact ⟨rfl, rfl⟩
  · rw [h]
    refine ⟨fun i v hi => ?_, fun i v hi hv => ?_⟩
    · rcases Accounts.getElem?_changeFirst (fun v => v.username == u.username) _ hi with
        hsame | ⟨hfirst, hchanged⟩
      · exact ⟨v, hsame, .refl _ v⟩
      · -- The account that is changed is the one that the login has found.
        obtain rfl : u = v := Option.some.inj (hu.symm.trans hfirst)
        exact ⟨_, hchanged, rfl, fun _ => ⟨r, List.mem_singleton_self r, password, hlogin⟩⟩
    · rw [List.getElem?_eq_none_iff] at hi
      rw [List.getElem?_eq_none (by simpa using hi)] at hv
      cases hv

theorem addsUsers_afterRequests (hr : s.routes = addEndpoints pages static {})
    (timeline : Nat → Moment) (rs : List (Surroundings × Request)) :
    AddsUsers rs s.accounts.users (s.afterRequests timeline rs).accounts.users := by
  induction rs generalizing s with
  | nil => exact .refl _ _
  | cons r rs ih =>
    exact (addsUsers_respond hr timeline r).append (ih ((kept_routes _).respond hr hr))

/-- One of the requests has opened the session: it has been a login to an account that there has
been at that time, and the session is for the number that the check of the password has answered. -/
def OpenedBy (timeline : Nat → Moment) (s : Site) (rs : List (Surroundings × Request))
    (x : Session) : Prop :=
  ∃ before r after, rs = before ++ r :: after ∧
    let now := s.afterRequests timeline before
    ∃ u ∈ now.accounts.users, ∃ password, u.LoggedInBy r.2 password ∧
      (now.accounts.authenticate (timeline (now.elapsed + 1)) u.username password).1 =
        .ok x.userId ∧
      x = now.accounts.newSession (timeline (now.elapsed + 2)) x.userId
        (r.2.header? "X-Forwarded-For".toList)

theorem OpenedBy.cons {r : Surroundings × Request} {rs : List (Surroundings × Request)}
    {x : Session} (h : OpenedBy timeline (s.respond timeline r.1 r.2).2 rs x) :
    OpenedBy timeline s (r :: rs) x := by
  obtain ⟨before, r', after, rfl, hx⟩ := h
  exact ⟨r :: before, r', after, rfl, hx⟩

theorem sessions_afterRequests (hr : s.routes = addEndpoints pages static {})
    (timeline : Nat → Moment) (rs : List (Surroundings × Request)) :
    ∃ opened : List Session,
      (s.afterRequests timeline rs).accounts.sessions.Sublist (s.accounts.sessions ++ opened) ∧
        ∀ x ∈ opened, OpenedBy timeline s rs x := by
  induction rs generalizing s with
  | nil => exact ⟨[], by simp, by simp⟩
  | cons r rs ih =>
    obtain ⟨opened, hs, hopened⟩ := ih ((kept_routes _).respond hr hr)
    rw [afterRequests_cons]
    rcases respond_cases timeline r.1 r.2 hr with
      ⟨-, h⟩ | ⟨username, email, password, h⟩ | ⟨u, password, hlogin, hu, hok, -, h⟩
    · exact ⟨opened, hs.trans (h.append_right _), fun x hx => (hopened x hx).cons⟩
    · refine ⟨opened, ?_, fun x hx => (hopened x hx).cons⟩
      rwa [show (s.respond timeline r.1 r.2).2.accounts.sessions = s.accounts.sessions by rw [h]]
        at hs
    · have hnew : OpenedBy timeline s (r :: rs) (s.accounts.newSession
          (timeline (s.elapsed + 2)) u.id (r.2.header? "X-Forwarded-For".toList)) :=
        ⟨[], r, rs, rfl, u, List.mem_of_find?_eq_some hu, password, hlogin, hok, rfl⟩
      refine ⟨_ :: opened, hs.trans ?_,
        List.forall_mem_cons.mpr ⟨hnew, fun x hx => (hopened x hx).cons⟩⟩
      rw [List.append_cons]
      exact h.append_right _

/-- Whatever the accounts are, after any requests each account is where it has been, with everything
but the time of its last login; and this is another only if somebody has logged in to the account,
with its name and a password that its hash verifies. Every account that has been added is active and
no administrator. Every session that has been added has been opened by such a login, for the number
that the login has been answered. -/
theorem requests_only_append_users (hr : s.routes = addEndpoints pages static {})
    (timeline : Nat → Moment) (rs : List (Surroundings × Request)) :
    let s' := s.afterRequests timeline rs
    (∀ (i : Nat) (u : Account), s.accounts.users[i]? = some u →
      ∃ v, s'.accounts.users[i]? = some v ∧
        (v.id = u.id ∧ v.username = u.username ∧ v.email = u.email ∧
          v.passwordHash = u.passwordHash ∧ v.salt = u.salt ∧ v.createdAt = u.createdAt ∧
          v.active = u.active ∧ v.role = u.role) ∧
        (v ≠ u → ∃ r ∈ rs, ∃ password, u.LoggedInBy r.2 password)) ∧
    (∀ (i : Nat) (v : Account), s.accounts.users[i]? = none → s'.accounts.users[i]? = some v →
      v.role = .user ∧ v.active) ∧
    ∃ opened : List Session, s'.accounts.sessions.Sublist (s.accounts.sessions ++ opened) ∧
      ∀ x ∈ opened, OpenedBy timeline s rs x := by
  have h := addsUsers_afterRequests hr timeline rs
  refine ⟨fun i u hu => ?_, h.added, sessions_afterRequests hr timeline rs⟩
  obtain ⟨v, hv, hsettled, hlogin⟩ := h.kept i u hu
  exact ⟨v, hv, Account.settled_eq_iff.mp hsettled, hlogin⟩

/-- Somebody who asks to be an administrator is none, and to whom nobody has logged in stays as he
is. -/
theorem requests_only_append_users_beside_administrator :
    let alice : Account :=
      ⟨1, "alice".toList, "alice@x.org".toList, [], [], 0, 0, true, .admin⟩
    let s : Site := ⟨{ users := [alice] }, addEndpoints [] ⟨['/'], []⟩ {}, 0⟩
    let posting (e : Endpoint) (form : String) : Surroundings × Request :=
      ({}, ⟨e.method, e.path, [], [], Utf8.encode form.toList⟩)
    let rs := [posting .register "username=bob&email=bob@x.org&password=Passw0rd&role=admin",
      posting .login "username=bob&password=Passw0rd"]
    let s' := s.afterRequests (fun n => ⟨n, Text.decimal n, []⟩) rs
    s'.accounts.users.length = 2 ∧ s'.accounts.sessions.map Session.userId = [2] ∧
      s'.accounts.users[0]? = some alice ∧
      ∀ v, s'.accounts.users[1]? = some v → v.role = .user := by
  intro alice s posting rs
  have hr : s.routes = addEndpoints [] ⟨['/'], []⟩ {} := rfl
  obtain ⟨hkept, hadded, -⟩ :=
    requests_only_append_users hr (fun n => ⟨n, Text.decimal n, []⟩) rs
  have hbob : ∀ r ∈ rs, r.2.formValue? "username".toList = some "bob".toList := by decide +kernel
  refine ⟨by decide +kernel, by decide +kernel, ?_, fun v hv => (hadded 1 v rfl hv).1⟩
  obtain ⟨v, hv, -, hlogin⟩ := hkept 0 alice rfl
  by_cases hne : v = alice
  · rw [hv, hne]
  · obtain ⟨r, hrs, password, -, hname, -⟩ := hlogin hne
    exact absurd ((hbob r hrs).symm.trans hname) (by decide)

end Site
end WebHost
