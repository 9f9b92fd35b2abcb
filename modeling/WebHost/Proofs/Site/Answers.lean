import WebHost.Proofs.Json.Compact
import WebHost.Proofs.Site.Dispatch
import WebHost.Proofs.Text.Utf8
import WebHost.Proofs.Accounts.Cases

/-! What the endpoints answer about accounts, from the accounts as they are when they are asked. -/
namespace WebHost
open Http

/-- The request bears the token `t`. -/
def Access.Presents (request : Request) (t : Text) : Prop :=
  (request.header? authorization).bind bearerToken? = some t

instance (request : Request) (t : Text) : Decidable (Access.Presents request t) :=
  inferInstanceAs (Decidable (_ = _))

/-- Whoever bears a token passes if a session is found with it. -/
theorem Access.requireLogin_eq {request : Request} {t : Text} (ht : Presents request t)
    (response : Response) :
    requireLogin request response = Action.perform (.validate t) >>= fun found =>
      pure (match found with
        | some x => (some x.userId, response)
        | none => (none, expired)) := by
  obtain ⟨value, hvalue, htoken⟩ := Option.bind_eq_some_iff.mp ht
  simp only [requireLogin, hvalue, htoken]
  congr 1
  funext found
  cases found <;> rfl

namespace Endpoint

theorem object_inj {status status' : Status} {ms ms' : List (Text × Json.Scalar)} :
    object status ms = object status' ms' ↔ status = status' ∧ ms = ms' := by
  constructor
  · intro h
    obtain ⟨hstatus, -, hbody⟩ := Response.mk.injEq .. ▸ h
    exact ⟨hstatus, Json.printObject_inj.mp (Utf8.encode_inj.mp (Option.some.inj hbody))⟩
  · rintro ⟨rfl, rfl⟩
    rfl

/-- The answer to a login shows the number and the token. -/
theorem loginAnswer_inj {id id' : Nat} {t t' : Text} :
    loginAnswer id t = loginAnswer id' t' ↔ id = id' ∧ t = t' := by
  simp [loginAnswer, object_inj, and_comm]

theorem problem_ne_loginAnswer {status : Status} (h : status ≠ .ok) (message : Text) (id : Nat)
    (t : Text) : Response.problem status message ≠ loginAnswer id t :=
  fun he => h (congrArg Response.status he)

/-- The answer shows an account of this name. -/
def Shows (response : Response) (name : Text) : Prop :=
  ∃ u : Account, response = profile u ∧ u.username = name

theorem shows_profile_iff {u : Account} {name : Text} : Shows (profile u) name ↔ u.username = name := by
  constructor
  · rintro ⟨v, hv, rfl⟩
    simp only [profile, object_inj, List.cons.injEq, Prod.mk.injEq, Json.Scalar.text.injEq] at hv
    simp [hv]
  · exact fun h => ⟨u, rfl, h⟩

end Endpoint

namespace Site
variable {timeline : Nat → Moment} {w : Surroundings} {pages : Text} {static : StaticRoute}
  {request : Request} {s : Site} {t : Text}

/-- A token is looked for among the sessions by one operation. -/
theorem run_requireLogin (ht : Access.Presents request t) (response : Response) :
    s.run timeline ((Access.requireLogin request response).lift Sum.inl) =
      (match s.accounts.validate (timeline s.elapsed) t with
        | some x => (some x.userId, response)
        | none => (none, Access.expired), s.tick) := by
  rw [Access.requireLogin_eq ht]
  simp only [Action.lift_bind, Action.lift_perform, Action.lift_pure, run_bind, run_perform_inl,
    run_pure]
  rfl

/-- The second operation on the site looks for the session, and the third for its account. -/
theorem answer_me (hr : s.routes = addEndpoints pages static {}) (he : Endpoint.me.AskedBy request)
    (ht : Access.Presents request t) :
    (s.respond timeline w request).1 =
      match s.accounts.validate (timeline (s.elapsed + 1)) t with
      | none => Access.expired
      | some x =>
        match s.accounts.userById? x.userId with
        | none => .problem .notFound "User not found".toList
        | some u => Endpoint.profile u := by
  rw [respond_of_askedBy hr he]
  simp only [Endpoint.respond, Endpoint.doMe, Action.lift_bind, run_bind, run_requireLogin ht,
    accounts_tick, elapsed_tick]
  cases s.accounts.validate (timeline (s.elapsed + 1)) t with
  | none => rfl
  | some x =>
    simp only [Action.lift_bind, Action.lift_perform, run_bind, run_perform_inl, Accounts.Op.apply,
      accounts_tick]
    cases s.accounts.userById? x.userId with
    | none => rfl
    | some u => rfl

theorem answer_admin (hr : s.routes = addEndpoints pages static {})
    (he : Endpoint.admin.AskedBy request) (ht : Access.Presents request t) :
    (s.respond timeline w request).1 =
      match s.accounts.validate (timeline (s.elapsed + 1)) t with
      | none => Access.expired
      | some x =>
        match s.accounts.userById? x.userId with
        | none => Access.notAdmin
        | some u =>
          if u.role = .admin then
            Endpoint.object .ok
              [("sessions".toList, .number s.accounts.sessions.length),
               ("users".toList, .number s.accounts.users.length)]
          else Access.notAdmin := by
  rw [respond_of_askedBy hr he]
  simp only [Endpoint.respond, Endpoint.doAdmin, Access.requireAdmin, Action.lift_bind, run_bind,
    run_requireLogin ht, accounts_tick, elapsed_tick]
  cases s.accounts.validate (timeline (s.elapsed + 1)) t with
  | none => rfl
  | some x =>
    simp only [Action.lift_bind, Action.lift_perform, run_bind, run_perform_inl, Accounts.Op.apply,
      accounts_tick]
    cases s.accounts.userById? x.userId with
    | none => rfl
    | some u => by_cases hrole : u.role = .admin <;> simp only [hrole] <;> rfl

/-- A registration is the second operation on the site. -/
theorem respond_register (hr : s.routes = addEndpoints pages static {})
    (he : Endpoint.register.AskedBy request) {username email password : Text}
    (hname : request.formValue? "username".toList = some username)
    (hemail : request.formValue? "email".toList = some email)
    (hpassword : request.formValue? "password".toList = some password) :
    s.respond timeline w request =
      (Endpoint.registerAnswer username
          (s.accounts.register (timeline (s.elapsed + 1)) username email password).1,
        { s with
          accounts := (s.accounts.register (timeline (s.elapsed + 1)) username email password).2
          elapsed := s.elapsed + 2 }) := by
  rw [respond_of_askedBy hr he]
  simp only [Endpoint.respond, Endpoint.doRegister, hname, hemail, hpassword, Action.lift_bind,
    Action.lift_perform, run_bind, run_perform_inl, Accounts.Op.apply, accounts_tick, elapsed_tick]
  rfl

/-- A login has the name and the password checked by the second operation on the site, and a session
opened by the third. -/
theorem respond_login (hr : s.routes = addEndpoints pages static {})
    (he : Endpoint.login.AskedBy request) {name password : Text}
    (hname : request.formValue? "username".toList = some name)
    (hpassword : request.formValue? "password".toList = some password) :
    s.respond timeline w request =
      match s.accounts.authenticate (timeline (s.elapsed + 1)) name password with
      | (.error _, a) =>
        (.problem .unauthorized "Invalid credentials".toList,
          { s with accounts := a, elapsed := s.elapsed + 2 })
      | (.ok id, a) =>
        match a.openSession (timeline (s.elapsed + 2)) id
            (request.header? "X-Forwarded-For".toList) with
        | (.error _, b) =>
          (.problem .serviceUnavailable "Too many sessions".toList,
            { s with accounts := b, elapsed := s.elapsed + 3 })
        | (.ok token, b) =>
          (Endpoint.loginAnswer id token, { s with accounts := b, elapsed := s.elapsed + 3 }) := by
  rw [respond_of_askedBy hr he]
  simp only [Endpoint.respond, Endpoint.doLogin, hname, hpassword, Action.lift_bind,
    Action.lift_perform, run_bind, run_perform_inl, Accounts.Op.apply, accounts_tick, elapsed_tick]
  rcases s.accounts.authenticate (timeline (s.elapsed + 1)) name password with ⟨_ | id, a⟩
  · rfl
  · simp only [Action.lift_bind, Action.lift_perform, run_bind, run_perform_inl, Accounts.Op.apply]
    rcases a.openSession (timeline (s.elapsed + 2)) id (request.header? "X-Forwarded-For".toList) with
      ⟨_ | token, b⟩ <;> rfl

/-- A login that shows a number and a token has found the account by its name. The number is its
number, and the token is new and opens a session for that number. -/
theorem login_cases (hr : s.routes = addEndpoints pages static {})
    (he : Endpoint.login.AskedBy request) {name : Text}
    (hname : request.formValue? "username".toList = some name) {id : Nat}
    (h : (s.respond timeline w request).1 = Endpoint.loginAnswer id t) :
    (∃ u, s.accounts.userByName? name = some u ∧ u.id = id) ∧
      t = (timeline (s.elapsed + 2)).token ∧
      (s.respond timeline w request).2.elapsed = s.elapsed + 3 ∧
      ∀ x ∈ (s.respond timeline w request).2.accounts.sessions,
        x ∈ s.accounts.sessions ∨ x.userId = id := by
  cases hpassword : request.formValue? "password".toList with
  | none =>
    rw [respond_of_askedBy hr he] at h
    simp only [Endpoint.respond, Endpoint.doLogin, hname, hpassword, Action.lift_pure, run_pure] at h
    exact absurd h (Endpoint.problem_ne_loginAnswer (by decide) _ _ _)
  | some password =>
    rw [respond_login hr he hname hpassword] at h ⊢
    rcases Accounts.authenticate_cases s.accounts (timeline (s.elapsed + 1)) name password with
      ⟨e, ha⟩ | ⟨u, hu, -, -, ha⟩
    · simp only [ha] at h
      exact absurd h (Endpoint.problem_ne_loginAnswer (by decide) _ _ _)
    · obtain ⟨a, ha, hsessions⟩ : ∃ a : Accounts,
          s.accounts.authenticate (timeline (s.elapsed + 1)) name password = (.ok u.id, a) ∧
            a.sessions = s.accounts.sessions := ⟨_, ha, rfl⟩
      simp only [ha] at h ⊢
      rcases Accounts.openSession_cases a (timeline (s.elapsed + 2)) u.id
        (request.header? "X-Forwarded-For".toList) with ⟨-, ho⟩ | ⟨-, ho⟩
      · simp only [ho] at h
        exact absurd h (Endpoint.problem_ne_loginAnswer (by decide) _ _ _)
      · simp only [ho, Endpoint.loginAnswer_inj] at h ⊢
        obtain ⟨rfl, rfl⟩ := h
        refine ⟨⟨u, hu, rfl⟩, rfl, trivial, fun x hx => ?_⟩
        rcases List.mem_append.mp hx with hx | hx
        · exact .inl (hsessions ▸ (List.mem_filter.mp hx).1)
        · exact .inr (by rw [List.mem_singleton.mp hx, Accounts.newSession])

end Site
end WebHost
