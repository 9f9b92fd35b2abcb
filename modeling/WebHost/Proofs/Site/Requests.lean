import WebHost.Proofs.Accounts.SessionHistory
import WebHost.Proofs.Site.Answers
import WebHost.Proofs.Site.History

/-! What requests do to the accounts. An endpoint has only few kinds of operations done, and what
those keep, every history of requests keeps: accounts stay as they are but for the time of their
last login, and a session stays until it expires or its token is given back. -/
namespace WebHost
open Http

namespace Action
variable {Op : Type → Type} {α β : Type} {allowed : {β : Type} → Op β → Prop}

/-- Every operation that the action can come to is allowed. -/
def Within (allowed : {β : Type} → Op β → Prop) : Action Op α → Prop
  | .done _ => True
  | .step o next => allowed o ∧ ∀ b, (next b).Within allowed

theorem within_pure (a : α) : (pure a : Action Op α).Within allowed := trivial

theorem within_perform {o : Op α} (h : allowed o) : (perform o).Within allowed :=
  ⟨h, fun _ => trivial⟩

theorem within_bind {p : Action Op α} {f : α → Action Op β} (hp : p.Within allowed)
    (hf : ∀ a, (f a).Within allowed) : (p >>= f).Within allowed := by
  induction p with
  | done a => exact hf a
  | step o next ih => exact ⟨hp.1, fun b => ih b (hp.2 b)⟩

end Action

namespace Endpoint

/-- The operations that an endpoint may have done for a request. -/
def May (e : Endpoint) (request : Request) {β : Type} : Accounts.Op β → Prop
  | .register _ _ _ => e = .register
  | .authenticate _ _ | .openSession _ _ => e = .login
  | .validate token => Access.Presents request token
  | .closeSession token => e = .logout ∧ Access.Presents request token
  | .userById _ => e = .me ∨ e = .admin
  | .userCount | .sessionCount => e = .admin
  | .userByName _ | .setRole _ _ | .setActive _ _ | .cleanup => False

theorem within_requireLogin (e : Endpoint) (request : Request) (response : Response) :
    (Access.requireLogin request response).Within (e.May request) := by
  unfold Access.requireLogin
  split
  · exact Action.within_pure _
  · next value hvalue =>
    split
    · exact Action.within_pure _
    · next token htoken =>
      have hp : Access.Presents request token := by rw [Access.Presents, hvalue]; exact htoken
      refine Action.within_bind (Action.within_perform hp) fun found => ?_
      cases found <;> exact Action.within_pure _

theorem within_respond (files : Files) (pages : Text) (request : Request) (e : Endpoint) :
    (e.respond files pages request).Within (e.May request) := by
  cases e with
  | home | about | status | submit => exact Action.within_pure _
  | register =>
    simp only [respond, doRegister]
    split
    · exact Action.within_bind (Action.within_perform rfl) fun _ => Action.within_pure _
    · exact Action.within_pure _
  | login =>
    simp only [respond, doLogin]
    split
    · refine Action.within_bind (Action.within_perform rfl) fun outcome => ?_
      cases outcome with
      | error _ => exact Action.within_pure _
      | ok id =>
        refine Action.within_bind (Action.within_perform rfl) fun opened => ?_
        cases opened <;> exact Action.within_pure _
    · exact Action.within_pure _
  | logout =>
    refine Action.within_bind (within_requireLogin _ _ _) fun admitted => ?_
    obtain ⟨_ | id, response⟩ := admitted
    · exact Action.within_pure _
    · simp only
      split
      · exact Action.within_pure _
      · next token htoken =>
        exact Action.within_bind (Action.within_perform ⟨rfl, htoken⟩) fun _ => Action.within_pure _
  | me =>
    refine Action.within_bind (within_requireLogin _ _ _) fun admitted => ?_
    obtain ⟨_ | id, response⟩ := admitted
    · exact Action.within_pure _
    · refine Action.within_bind (Action.within_perform (.inl rfl)) fun found => ?_
      cases found <;> exact Action.within_pure _
  | admin =>
    have hadmin : (Access.requireAdmin request {}).Within (Endpoint.admin.May request) := by
      refine Action.within_bind (within_requireLogin _ _ _) fun admitted => ?_
      obtain ⟨_ | id, response⟩ := admitted
      · exact Action.within_pure _
      · refine Action.within_bind (Action.within_perform (.inr rfl)) fun found => ?_
        cases found with
        | none => exact Action.within_pure _
        | some u =>
          simp only
          split <;> exact Action.within_pure _
    refine Action.within_bind hadmin fun admitted => ?_
    obtain ⟨_ | id, response⟩ := admitted
    · exact Action.within_pure _
    · exact Action.within_bind (Action.within_perform rfl) fun _ =>
        Action.within_bind (Action.within_perform rfl) fun _ => Action.within_pure _

theorem askedBy_of_asked?_eq_some {e : Endpoint} {request : Request}
    (h : asked? request.method request.path = some e) : e.AskedBy request := by
  have he := List.find?_some h
  rw [Bool.and_eq_true, beq_iff_eq, beq_iff_eq] at he
  exact ⟨he.1.symm, he.2.symm⟩

end Endpoint

/-- What no login changes of an account. -/
def Account.settled (u : Account) : Account := { u with lastLogin := 0 }

theorem Account.settled_eq_iff {u v : Account} : u.settled = v.settled ↔
    u.id = v.id ∧ u.username = v.username ∧ u.email = v.email ∧ u.passwordHash = v.passwordHash ∧
      u.salt = v.salt ∧ u.createdAt = v.createdAt ∧ u.active = v.active ∧ u.role = v.role := by
  simp [settled]

/-- The request is a login with the name of the account and a password that its hash verifies. -/
def Account.LoggedInBy (u : Account) (request : Request) (password : Text) : Prop :=
  Endpoint.login.AskedBy request ∧ request.formValue? "username".toList = some u.username ∧
    request.formValue? "password".toList = some password ∧
    Credentials.verify password u.salt u.passwordHash

namespace Accounts
variable {e : Endpoint} {request : Request} {β : Type}

/-- A request leaves the accounts as they are, but for their last logins, and may add others. -/
theorem settled_beginning_apply (m : Moment) (a : Accounts) {o : Op β} (ho : e.May request o) :
    a.users.map Account.settled <+: (o.apply m a).2.users.map Account.settled := by
  cases o with
  | register username email password =>
    rcases register_cases a m username email password with ⟨e, h⟩ | ⟨-, -, -, -, -, h⟩
    · simp only [Op.apply, h, List.prefix_rfl]
    · simp only [Op.apply, h, List.map_append, List.prefix_append]
  | authenticate username password =>
    rcases authenticate_cases a m username password with ⟨e, h⟩ | ⟨u, -, -, -, h⟩
    · simp only [Op.apply, h, List.prefix_rfl]
    · have hsame : ((a.authenticate m username password).2.users.map Account.settled) =
          a.users.map Account.settled := by
        rw [h]
        apply map_changeFirst
        intro u
        rfl
      simp only [Op.apply, hsame, List.prefix_rfl]
  | openSession userId address => simp only [Op.apply, users_openSession, List.prefix_rfl]
  | setRole _ _ | setActive _ _ => exact absurd ho (by simp [Endpoint.May])
  | userById _ | userByName _ | userCount | validate _ | closeSession _ | cleanup | sessionCount =>
    exact List.prefix_refl _

/-- A session outlasts every operation before it expires that does not close its token. -/
theorem mem_sessions_apply_of_mem {m : Moment} {a : Accounts} {o : Op β} {x : Session}
    (hx : x ∈ a.sessions) (hl : x.isLive m.now) (hc : Event.closing? ⟨m, o⟩ ≠ some x.token) :
    x ∈ (o.apply m a).2.sessions := by
  have hpurge : x ∈ (a.purge m.now).sessions := List.mem_filter.mpr ⟨hx, hl⟩
  rw [sessions_apply]
  cases o with
  | openSession userId address =>
    rcases openSession_cases a m userId address with ⟨-, h⟩ | ⟨-, h⟩
    · simp only [h]
      exact hpurge
    · simp only [h]
      exact List.mem_append_left _ hpurge
  | closeSession token =>
    have hne : x.token ≠ token := fun he => hc (by rw [Event.closing?, he])
    exact List.mem_filter.mpr ⟨hx, by simpa using hne⟩
  | cleanup => exact hpurge
  | _ => exact hx

end Accounts

namespace Site
variable {timeline : Nat → Moment} {P : Site → Prop} {w : Surroundings} {pages : Text}
  {static : StaticRoute} {request : Request} {s : Site}

/-- What every operation keeps that an answer to the request may have done. -/
structure KeptBy (timeline : Nat → Moment) (request : Request) (P : Site → Prop) : Prop where
  op : ∀ (s : Site) {β : Type} (o : Accounts.Op β) {e : Endpoint}, e.AskedBy request →
    e.May request o → P s → P (applyAt (timeline s.elapsed) (.inl o) s).2
  tick : ∀ s : Site, P s → P s.tick

theorem run_of_within {allowed : {β : Type} → Accounts.Op β → Prop}
    (hop : ∀ (s : Site) {β : Type} (o : Accounts.Op β), allowed o → P s →
      P (applyAt (timeline s.elapsed) (.inl o) s).2)
    {α : Type} {p : Action Accounts.Op α} (hp : p.Within allowed) (hs : P s) :
    P (s.run timeline (p.lift Sum.inl)).2 := by
  induction p generalizing s with
  | done a => exact hs
  | step o next ih => exact ih _ (hp.2 _) (hop s o hp.1 hs)

theorem KeptBy.respond (h : KeptBy timeline request P)
    (hr : s.routes = addEndpoints pages static {}) (hs : P s) :
    P (s.respond timeline w request).2 := by
  have ht := h.tick s hs
  rw [respond_eq hr]
  split
  · next e he =>
    exact run_of_within (fun s _ o => h.op s o (Endpoint.askedBy_of_asked?_eq_some he))
      (Endpoint.within_respond _ _ _ e) ht
  · split
    · exact ht
    · exact ht

/-- The site after requests that have been answered one after the other. -/
def afterRequests (timeline : Nat → Moment) (s : Site) (rs : List (Surroundings × Request)) : Site :=
  s.after timeline (rs.map fun r => .request r.1 r.2)

@[simp] theorem afterRequests_nil (timeline : Nat → Moment) (s : Site) :
    s.afterRequests timeline [] = s := rfl

@[simp] theorem afterRequests_cons (timeline : Nat → Moment) (s : Site) (r : Surroundings × Request)
    (rs : List (Surroundings × Request)) :
    s.afterRequests timeline (r :: rs) =
      ((s.respond timeline r.1 r.2).2).afterRequests timeline rs := rfl

theorem afterRequests_append (timeline : Nat → Moment) (s : Site)
    (rs rs' : List (Surroundings × Request)) :
    s.afterRequests timeline (rs ++ rs') =
      (s.afterRequests timeline rs).afterRequests timeline rs' := by
  simp [afterRequests, after]

theorem KeptBy.afterRequests {rs : List (Surroundings × Request)}
    (h : ∀ r ∈ rs, KeptBy timeline r.2 P) (hr : s.routes = addEndpoints pages static {})
    (hs : P s) : P (s.afterRequests timeline rs) := by
  induction rs generalizing s with
  | nil => exact hs
  | cons r rs ih =>
    rw [afterRequests_cons]
    exact ih (fun r hr => h r (by simp [hr])) ((kept_routes _).respond hr hr)
      ((h r (by simp)).respond hr hs)

theorem keptBy_settled (a : Accounts) : KeptBy timeline request fun s =>
    a.users.map Account.settled <+: s.accounts.users.map Account.settled where
  op _ _ _ _ _ ho h := h.trans (Accounts.settled_beginning_apply _ _ ho)
  tick _ h := h

/-- Until it expires, and unless it is logged out. -/
theorem keptBy_session {n : Nat} {x : Session} (hl : ∀ i < n, x.isLive (timeline i).now)
    (hx : Endpoint.logout.AskedBy request → ¬ Access.Presents request x.token) :
    KeptBy timeline request fun s => s.elapsed ≤ n → x ∈ s.accounts.sessions where
  op s β o e he ho h hn := by
    have hlt : s.elapsed < n := hn
    refine Accounts.mem_sessions_apply_of_mem (h (Nat.le_of_lt hlt)) (hl _ hlt) ?_
    cases o with
    | closeSession token =>
      obtain ⟨rfl, hp⟩ := ho
      intro ht
      obtain rfl : token = x.token := by simpa [Accounts.Event.closing?] using ht
      exact hx he hp
    | _ => simp [Accounts.Event.closing?]
  tick s h hn := h (Nat.le_of_succ_le hn)

/-- Only a login opens sessions. -/
theorem keptBy_sessions_sublist (h : ¬ Endpoint.login.AskedBy request) (xs : List Session) :
    KeptBy timeline request fun s => s.accounts.sessions.Sublist xs where
  op s β o e he ho hs := by
    refine List.Sublist.trans ?_ hs
    show ((o.apply _ s.accounts).2.sessions).Sublist s.accounts.sessions
    rw [Accounts.sessions_apply]
    cases o with
    | openSession userId address =>
      obtain rfl : e = .login := ho
      exact absurd he h
    | closeSession token => exact List.filter_sublist
    | cleanup => exact List.filter_sublist
    | _ => exact List.Sublist.refl _
  tick _ h := h

/-- Where an endpoint answers without an operation, nothing changes. -/
theorem respond_of_pure (hr : s.routes = addEndpoints pages static {}) {e : Endpoint}
    (he : e.AskedBy request) {response : Response}
    (h : e.respond w.files pages request = pure response) :
    s.respond timeline w request = (response, s.tick) := by
  rw [respond_of_askedBy hr he, h]
  rfl

/-- Without a name or a password a login is refused and does nothing. -/
theorem respond_login_of_missing (hr : s.routes = addEndpoints pages static {})
    (he : Endpoint.login.AskedBy request)
    (h : request.formValue? "username".toList = none ∨
      request.formValue? "password".toList = none) :
    s.respond timeline w request =
      (.problem .badRequest "username and password are required".toList, s.tick) := by
  refine respond_of_pure hr he ?_
  show Endpoint.doLogin request = _
  unfold Endpoint.doLogin
  split
  · next hname hpassword =>
    rw [hname, hpassword] at h
    simp at h
  · rfl

/-- A registration adds one account and says so, or changes nothing. -/
theorem respond_register_cases (timeline : Nat → Moment) (w : Surroundings)
    (hr : s.routes = addEndpoints pages static {}) (he : Endpoint.register.AskedBy request) :
    (s.respond timeline w request).2.accounts = s.accounts ∨
      (s.respond timeline w request).1.status = .created ∧
        ∃ username email password, (s.respond timeline w request).2.accounts =
          { s.accounts with users := s.accounts.users ++
            [s.accounts.newAccount (timeline (s.elapsed + 1)) username email password] } := by
  by_cases hpure : ∃ response, Endpoint.doRegister request = pure response
  · obtain ⟨response, hpure⟩ := hpure
    exact .inl (by rw [respond_of_pure hr he hpure, accounts_tick])
  · unfold Endpoint.doRegister at hpure
    split at hpure
    · next username email password hname hemail hpassword =>
      rw [respond_register hr he hname hemail hpassword]
      rcases Accounts.register_cases s.accounts (timeline (s.elapsed + 1)) username email password
        with ⟨e, ho⟩ | ⟨-, -, -, -, -, ho⟩
      · exact .inl (by rw [ho])
      · rw [ho]
        exact .inr ⟨rfl, username, email, password, rfl⟩
    · exact absurd ⟨_, rfl⟩ hpure

/-- The request is a login to the account that the check of the password lets pass. -/
structure Admits (s : Site) (request : Request) (u : Account) : Prop where
  login : ∃ password, u.LoggedInBy request password
  found : s.accounts.userByName? u.username = some u
  active : u.active

/-- The accounts with the time of a login noted, and without the sessions that have expired. -/
def noted (timeline : Nat → Moment) (s : Site) (u : Account) : Accounts :=
  { s.accounts.purge (timeline (s.elapsed + 2)).now with
    users := Accounts.changeFirst (fun v => v.username == u.username)
      (fun v => { v with lastLogin := (timeline (s.elapsed + 1)).now }) s.accounts.users }

/-- A login that is let pass has the time noted. Then it opens a session, if there is room, and is
turned away otherwise. -/
theorem respond_of_admits (timeline : Nat → Moment) (w : Surroundings)
    (hr : s.routes = addEndpoints pages static {}) {u : Account} (h : s.Admits request u) :
    Accounts.sessionLimit ≤ (s.noted timeline u).sessions.length ∧
        (s.respond timeline w request).1 =
          .problem .serviceUnavailable "Too many sessions".toList ∧
        (s.respond timeline w request).2.accounts = s.noted timeline u ∨
      (s.noted timeline u).sessions.length < Accounts.sessionLimit ∧
        (s.respond timeline w request).1 =
          Endpoint.loginAnswer u.id (timeline (s.elapsed + 2)).token ∧
        (s.respond timeline w request).2.accounts =
          { s.noted timeline u with sessions := (s.noted timeline u).sessions ++
            [s.accounts.newSession (timeline (s.elapsed + 2)) u.id
              (request.header? "X-Forwarded-For".toList)] } := by
  obtain ⟨password, he, hname, hpassword, hverify⟩ := h.login
  rw [respond_login hr he hname hpassword,
    Accounts.authenticate_of_verify h.found h.active hverify]
  -- The opening must not look into the accounts that the check has left.
  obtain ⟨c, hc⟩ : ∃ c : Accounts, c = { s.accounts with
      users := Accounts.changeFirst (fun v => v.username == u.username)
        (fun v => { v with lastLogin := (timeline (s.elapsed + 1)).now }) s.accounts.users } :=
    ⟨_, rfl⟩
  have hnoted : s.noted timeline u = c.purge (timeline (s.elapsed + 2)).now := by
    rw [hc]
    rfl
  rw [← hc, hnoted]
  rcases Accounts.openSession_cases c (timeline (s.elapsed + 2)) u.id
    (request.header? "X-Forwarded-For".toList) with ⟨hfull, ho⟩ | ⟨hroom, ho⟩
  · simp only [ho]
    exact .inl ⟨hfull, trivial, trivial⟩
  · simp only [ho]
    exact .inr ⟨hroom, trivial, by rw [hc]; rfl⟩

/-- A login that is not let pass is refused and changes nothing. -/
theorem login_refused_or_admits (timeline : Nat → Moment) (w : Surroundings)
    (hr : s.routes = addEndpoints pages static {}) (he : Endpoint.login.AskedBy request) :
    (s.respond timeline w request).1.status ≠ .ok ∧
        (s.respond timeline w request).2.accounts = s.accounts ∨
      ∃ u, s.Admits request u := by
  by_cases hmissing : request.formValue? "username".toList = none ∨
    request.formValue? "password".toList = none
  · rw [respond_login_of_missing hr he hmissing]
    exact .inl ⟨nofun, accounts_tick s⟩
  · rw [not_or, ← ne_eq, ← ne_eq, Option.ne_none_iff_exists', Option.ne_none_iff_exists']
      at hmissing
    obtain ⟨⟨name, hname⟩, password, hpassword⟩ := hmissing
    rw [respond_login hr he hname hpassword]
    rcases Accounts.authenticate_cases s.accounts (timeline (s.elapsed + 1)) name password with
      ⟨e, ha⟩ | ⟨u, hu, hactive, hverify, -⟩
    · rw [ha]
      exact .inl ⟨nofun, rfl⟩
    · obtain rfl : u.username = name := by simpa using List.find?_some hu
      exact .inr ⟨u, ⟨password, he, hname, hpassword, hverify⟩, hu, hactive⟩

/-- A login notes the time with the first account of its name and opens a session for it, if there
is room, or it opens none and leaves the accounts as they are. -/
theorem respond_login_cases (timeline : Nat → Moment) (w : Surroundings)
    (hr : s.routes = addEndpoints pages static {}) (he : Endpoint.login.AskedBy request) :
    let a := s.accounts
    let b := (s.respond timeline w request).2.accounts
    (b.users = a.users ∧ b.sessions.Sublist a.sessions) ∨
      ∃ u password, u.LoggedInBy request password ∧ a.userByName? u.username = some u ∧
        (a.authenticate (timeline (s.elapsed + 1)) u.username password).1 = .ok u.id ∧
        b.users = Accounts.changeFirst (fun v => v.username == u.username)
          (fun v => { v with lastLogin := (timeline (s.elapsed + 1)).now }) a.users ∧
        b.sessions.Sublist (a.sessions ++ [a.newSession (timeline (s.elapsed + 2)) u.id
          (request.header? "X-Forwarded-For".toList)]) := by
  intro a b
  obtain ⟨-, hsame⟩ | ⟨u, hu⟩ := login_refused_or_admits timeline w hr he
  · left
    simp only [b, hsame]
    exact ⟨rfl, List.Sublist.refl _⟩
  · right
    obtain ⟨password, hlogin⟩ := hu.login
    have hpurge : (s.noted timeline u).sessions.Sublist a.sessions := List.filter_sublist
    refine ⟨u, password, hlogin, hu.found, ?_, ?_⟩
    · rw [Accounts.authenticate_of_verify hu.found hu.active hlogin.2.2.2]
    · obtain ⟨-, -, hb⟩ | ⟨-, -, hb⟩ := respond_of_admits timeline w hr hu
      · simp only [b, hb]
        exact ⟨rfl, hpurge.trans (List.sublist_append_left _ _)⟩
      · simp only [b, hb]
        exact ⟨rfl, hpurge.append_right _⟩

/-- Only a registration and a login change the accounts. -/
theorem keptBy_users (hregister : ¬ Endpoint.register.AskedBy request)
    (hlogin : ¬ Endpoint.login.AskedBy request) (us : List Account) :
    KeptBy timeline request fun s => s.accounts.users = us where
  op s β o e he ho hs := by
    cases o with
    | register _ _ _ =>
      obtain rfl : e = .register := ho
      exact absurd he hregister
    | authenticate _ _ | openSession _ _ =>
      obtain rfl : e = .login := ho
      exact absurd he hlogin
    | setRole _ _ | setActive _ _ => exact absurd ho (by simp [Endpoint.May])
    | _ => exact hs
  tick _ h := h

/-- What a request can do to the accounts and their sessions, in three cases. -/
theorem respond_cases (timeline : Nat → Moment) (w : Surroundings) (request : Request)
    (hr : s.routes = addEndpoints pages static {}) :
    let a := s.accounts
    let b := (s.respond timeline w request).2.accounts
    (b.users = a.users ∧ b.sessions.Sublist a.sessions) ∨
    -- A registration adds one account.
    (∃ username email password, b = { a with
      users := a.users ++ [a.newAccount (timeline (s.elapsed + 1)) username email password] }) ∨
    -- A login notes the time with the first account of its name, and may open a session for it.
    ∃ u password, u.LoggedInBy request password ∧ a.userByName? u.username = some u ∧
      (a.authenticate (timeline (s.elapsed + 1)) u.username password).1 = .ok u.id ∧
      b.users = Accounts.changeFirst (fun v => v.username == u.username)
        (fun v => { v with lastLogin := (timeline (s.elapsed + 1)).now }) a.users ∧
      b.sessions.Sublist (a.sessions ++ [a.newSession (timeline (s.elapsed + 2)) u.id
        (request.header? "X-Forwarded-For".toList)]) := by
  intro a b
  by_cases hregister : Endpoint.register.AskedBy request
  · rcases respond_register_cases timeline w hr hregister with h | h
    · exact .inl (by simp only [b, h]; exact ⟨rfl, List.Sublist.refl _⟩)
    · exact .inr (.inl h.2)
  · by_cases hlogin : Endpoint.login.AskedBy request
    · rcases respond_login_cases timeline w hr hlogin with h | h
      · exact .inl h
      · exact .inr (.inr h)
    · exact .inl ⟨(keptBy_users hregister hlogin _).respond hr rfl,
        (keptBy_sessions_sublist hlogin _).respond hr (List.Sublist.refl _)⟩

/-- A request opens at most one session. -/
theorem sessions_sublist_respond (timeline : Nat → Moment) (w : Surroundings) (request : Request)
    (hr : s.routes = addEndpoints pages static {}) :
    ∃ xs : List Session, xs.length ≤ 1 ∧
      (s.respond timeline w request).2.accounts.sessions.Sublist (s.accounts.sessions ++ xs) := by
  rcases respond_cases timeline w request hr with
    ⟨-, h⟩ | ⟨username, email, password, h⟩ | ⟨u, password, -, -, -, -, h⟩
  · exact ⟨[], by decide, by simpa using h⟩
  · exact ⟨[], by decide, by simp [h]⟩
  · exact ⟨[_], Nat.le_refl 1, h⟩

theorem sessions_sublist_afterRequests (timeline : Nat → Moment)
    (hr : s.routes = addEndpoints pages static {}) (rs : List (Surroundings × Request)) :
    ∃ xs : List Session, xs.length ≤ rs.length ∧
      (s.afterRequests timeline rs).accounts.sessions.Sublist (s.accounts.sessions ++ xs) := by
  induction rs generalizing s with
  | nil => exact ⟨[], by simp, by simp⟩
  | cons r rs ih =>
    obtain ⟨xs, hxs, hs⟩ := sessions_sublist_respond timeline r.1 r.2 hr
    obtain ⟨ys, hys, hs'⟩ := ih ((kept_routes _).respond hr hr)
    refine ⟨xs ++ ys, ?_, ?_⟩
    · rw [List.length_append, List.length_cons]
      omega
    · rw [afterRequests_cons, ← List.append_assoc]
      exact hs'.trans (hs.append_right ys)

/-- Of the sessions that are live later, all but one for each request have been live before. -/
theorem length_purge_afterRequests (timeline : Nat → Moment)
    (hr : s.routes = addEndpoints pages static {}) (rs : List (Surroundings × Request))
    {now later : Nat} (hl : now ≤ later) :
    ((s.afterRequests timeline rs).accounts.purge later).sessions.length ≤
      (s.accounts.purge now).sessions.length + rs.length := by
  obtain ⟨xs, hxs, hs⟩ := sessions_sublist_afterRequests timeline hr rs
  have hlive := (hs.filter fun x => x.isLive later).length_le
  rw [List.filter_append, List.length_append] at hlive
  have hnew := List.length_filter_le (fun x => x.isLive later) xs
  have hold : (s.accounts.sessions.filter fun x => x.isLive later).length ≤
      (s.accounts.sessions.filter fun x => x.isLive now).length :=
    (List.monotone_filter_right _ fun x hx => Accounts.isLive_of_le hl hx).length_le
  simp only [Accounts.sessions_purge]
  omega

end Site
end WebHost
