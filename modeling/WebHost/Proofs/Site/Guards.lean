import WebHost.Proofs.Accounts.Identity
import WebHost.Proofs.Http.Headers
import WebHost.Proofs.Site.Answers

/-! Whom the guards let through. A guard comes to a verdict on the request and on the accounts
without a look at the response: whoever passes keeps the response as it is, and whoever does not gets
a refusal in place of it. -/
namespace WebHost
open Http

namespace Accounts
variable {a : Accounts} {m : Moment} {t : Text} {x : Session}

/-- What an action that is done at one moment answers, and the accounts after it. -/
def perform {α : Type} (a : Accounts) (m : Moment) (p : Action Op α) : α × Accounts :=
  p.run (fun o a => o.apply m a) a

/-- Where no two sessions have the same token, a token leads to the live session that has it. -/
theorem validate_eq_some_iff (ha : (a.sessions.map Session.token).Nodup) :
    a.validate m t = some x ↔ x ∈ a.sessions ∧ x.token = t ∧ m.now < x.expiresAt := by
  have hlive : ((a.sessions.filter fun y => y.isLive m.now).map Session.token).Nodup :=
    ha.sublist (List.filter_sublist.map _)
  rw [validate_eq_find?, find?_eq_some_iff_of_nodup_map hlive, List.mem_filter, Session.isLive,
    decide_eq_true_eq]
  exact ⟨fun ⟨⟨hx, hnow⟩, ht⟩ => ⟨hx, ht, hnow⟩, fun ⟨hx, ht, hnow⟩ => ⟨⟨hx, hnow⟩, ht⟩⟩

end Accounts

namespace Access
variable {a : Accounts} {m : Moment} {request : Request} {response answer : Response}
  {t value : Text} {id : Nat}

theorem bearerToken?_eq_some_iff : bearerToken? value = some t ↔
    ∃ rest, value = "Bearer ".toList ++ rest ∧ Text.trim rest = t ∧ t ≠ [] := by
  simp only [bearerToken?, Option.filter_eq_some_iff, Option.map_eq_some_iff,
    Text.after?_eq_some_iff]
  constructor
  · rintro ⟨⟨rest, rfl, rfl⟩, hne⟩
    exact ⟨rest, rfl, rfl, by simpa using hne⟩
  · rintro ⟨rest, rfl, rfl, hne⟩
    exact ⟨⟨rest, rfl, rfl⟩, by simpa using hne⟩

/-- Of the headers with the right name, in whatever case, only the first counts. -/
theorem presents_iff : Presents request t ↔
    ∃ rest, request.headers.First authorization ("Bearer ".toList ++ rest) ∧ Text.trim rest = t ∧
      t ≠ [] := by
  simp only [Presents, Request.header?, Option.bind_eq_some_iff, Headers.get?_eq_some_iff,
    bearerToken?_eq_some_iff]
  constructor
  · rintro ⟨_, hfirst, rest, rfl, ht⟩
    exact ⟨rest, hfirst, ht⟩
  · rintro ⟨rest, hfirst, ht⟩
    exact ⟨_, hfirst, rest, rfl, ht⟩

/-- The verdict on a request for which there must be a session. -/
def loginVerdict (a : Accounts) (m : Moment) (request : Request) : Except Response Nat :=
  match request.header? authorization with
  | none => .error unnamed
  | some value =>
    match bearerToken? value with
    | none => .error malformed
    | some t =>
      match a.validate m t with
      | none => .error expired
      | some x => .ok x.userId

/-- The verdict on a request for which there must be the session of an administrator. -/
def adminVerdict (a : Accounts) (m : Moment) (request : Request) : Except Response Nat :=
  match loginVerdict a m request with
  | .error refusal => .error refusal
  | .ok id =>
    match a.userById? id with
    | none => .error notAdmin
    | some u => if u.role = .admin then .ok id else .error notAdmin

theorem loginVerdict_eq_ok_iff : loginVerdict a m request = .ok id ↔
    ∃ t x, Presents request t ∧ a.validate m t = some x ∧ x.userId = id := by
  unfold loginVerdict Presents
  cases request.header? authorization with
  | none => simp
  | some value =>
    simp only [Option.bind_some]
    cases bearerToken? value with
    | none => simp
    | some t => cases hx : a.validate m t <;> simp [hx]

/-- A refusal with this code, which says so in JSON. -/
def refusal (code : UInt16) (message : String) : Response where
  status := ⟨code⟩
  headers := [⟨"Content-Type".toList, "application/json".toList⟩]
  body := some (Utf8.encode
    ("\x7b\"error\":\"".toList ++ message.toList ++ "\"\x7d".toList))

theorem unnamed_eq : unnamed = refusal 401 "Authorization header required" := by decide

theorem malformed_eq : malformed = refusal 401 "Invalid authorization format" := by decide

theorem expired_eq : expired = refusal 401 "Invalid or expired session" := by decide

theorem notAdmin_eq : notAdmin = refusal 403 "Admin access required" := by decide

/-- The login guard has three refusals. -/
theorem loginVerdict_of_error (h : loginVerdict a m request = .error answer) :
    ∃ message ∈ ["Authorization header required", "Invalid authorization format",
      "Invalid or expired session"], answer = refusal 401 message := by
  unfold loginVerdict at h
  repeat' split at h
  all_goals cases h
  · exact ⟨_, .head _, unnamed_eq⟩
  · exact ⟨_, .tail _ (.head _), malformed_eq⟩
  · exact ⟨_, .tail _ (.tail _ (.head _)), expired_eq⟩

/-- An administrator's number is the number of a login, and there is an account with it. -/
theorem adminVerdict_eq_ok_iff : adminVerdict a m request = .ok id ↔
    loginVerdict a m request = .ok id ∧ ∃ u, a.userById? id = some u ∧ u.role = .admin := by
  unfold adminVerdict
  cases loginVerdict a m request with
  | error refusal => simp
  | ok i =>
    simp only [Except.ok.injEq]
    constructor
    · cases hu : a.userById? i with
      | none => simp
      | some u =>
        intro h
        simp only at h
        split at h
        · next hrole =>
          cases h
          exact ⟨rfl, u, hu, hrole⟩
        · cases h
    · rintro ⟨rfl, u, hu, hrole⟩
      simp [hu, hrole]

/-- Who has a session and is no administrator gets a refusal of its own. -/
theorem adminVerdict_of_error (h : adminVerdict a m request = .error answer) :
    loginVerdict a m request = .error answer ∨
      (∃ i, loginVerdict a m request = .ok i) ∧ answer = notAdmin := by
  unfold adminVerdict at h
  cases hlogin : loginVerdict a m request with
  | error r =>
    rw [hlogin] at h
    exact .inl h
  | ok i =>
    simp only [hlogin] at h
    repeat' split at h
    all_goals cases h
    all_goals exact .inr ⟨⟨i, rfl⟩, rfl⟩

/-- What a verdict makes of a response: the number of who passes is given with the response as it
is, and a refusal stands in place of it. -/
def outcome (verdict : Except Response Nat) (response : Response) : Option Nat × Response :=
  match verdict with
  | .ok id => (some id, response)
  | .error refusal => (none, refusal)

theorem outcome_eq_some_iff {verdict : Except Response Nat} :
    (outcome verdict response).1 = some id ↔ verdict = .ok id := by
  cases verdict <;> simp [outcome]

theorem outcome_eq_none_iff {verdict : Except Response Nat} :
    (outcome verdict response).1 = none ↔ ∃ refusal, verdict = .error refusal := by
  cases verdict <;> simp [outcome]

theorem outcome_of_ne_none {verdict : Except Response Nat} (h : (outcome verdict response).1 ≠ none) :
    (outcome verdict response).2 = response := by
  cases verdict with
  | ok id => rfl
  | error refusal => exact absurd rfl h

theorem perform_requireLogin (a : Accounts) (m : Moment) (request : Request) (response : Response) :
    a.perform m (requireLogin request response) =
      (outcome (loginVerdict a m request) response, a) := by
  unfold requireLogin loginVerdict
  cases request.header? authorization with
  | none => rfl
  | some value =>
    simp only
    cases bearerToken? value with
    | none => rfl
    | some t =>
      simp only [Accounts.perform, Action.run_bind, Action.run_perform, Accounts.Op.apply]
      cases a.validate m t <;> rfl

theorem perform_requireAdmin (a : Accounts) (m : Moment) (request : Request) (response : Response) :
    a.perform m (requireAdmin request response) =
      (outcome (adminVerdict a m request) response, a) := by
  have hlogin := perform_requireLogin a m request response
  rw [Accounts.perform] at hlogin
  rw [Accounts.perform, requireAdmin, Action.run_bind, hlogin, adminVerdict]
  cases loginVerdict a m request with
  | error refusal => rfl
  | ok id =>
    simp only [outcome, Action.run_bind, Action.run_perform, Accounts.Op.apply]
    cases a.userById? id with
    | none => rfl
    | some u => by_cases hrole : u.role = .admin <;> simp [hrole]

/-- Whom the guards let through, and what they leave of the response. Of the headers with the name
of the authorization, in whatever case, the first must hold the word Bearer and the token of a live
session; for the other guard there must also be an administrator's account with the session's
number. Whoever passes keeps the response as it is. Whoever does not gets one of four refusals in
JSON, three with the code 401 and one with 403, which does not depend on what the response has been.
Neither guard changes the accounts. -/
theorem guards_decide_exactly (ha : (a.sessions.map Session.token).Nodup) (m : Moment)
    (request : Request) (response : Response) :
    let login response := a.perform m (requireLogin request response)
    let admin response := a.perform m (requireAdmin request response)
    (∀ id, (login response).1.1 = some id ↔
      ∃ rest, request.headers.First authorization ("Bearer ".toList ++ rest) ∧ Text.trim rest ≠ [] ∧
        ∃ x ∈ a.sessions, x.token = Text.trim rest ∧ m.now < x.expiresAt ∧ x.userId = id) ∧
    (∀ id, (admin response).1.1 = some id ↔
      (login response).1.1 = some id ∧ ∃ u, a.userById? id = some u ∧ u.role = .admin) ∧
    ((login response).1.1 ≠ none → (login response).1.2 = response) ∧
    ((admin response).1.1 ≠ none → (admin response).1.2 = response) ∧
    ((login response).1.1 = none →
      (∃ message ∈ ["Authorization header required", "Invalid authorization format",
          "Invalid or expired session"],
        (login response).1.2 = refusal 401 message) ∧
      ∀ response', login response' = login response) ∧
    ((admin response).1.1 = none →
      ((login response).1.1 = none ∧ (admin response).1.2 = (login response).1.2 ∨
        (login response).1.1 ≠ none ∧
          (admin response).1.2 = refusal 403 "Admin access required") ∧
      ∀ response', admin response' = admin response) ∧
    (login response).2 = a ∧ (admin response).2 = a := by
  simp only [perform_requireLogin, perform_requireAdmin, outcome_eq_some_iff, outcome_eq_none_iff,
    and_true]
  refine ⟨fun id => ?_, fun id => adminVerdict_eq_ok_iff, outcome_of_ne_none, outcome_of_ne_none,
    ?_, ?_⟩
  · rw [loginVerdict_eq_ok_iff]
    simp only [presents_iff, Accounts.validate_eq_some_iff ha]
    constructor
    · rintro ⟨_, x, ⟨rest, hfirst, rfl, hne⟩, ⟨hx, ht, hlive⟩, hid⟩
      exact ⟨rest, hfirst, hne, x, hx, ht, hlive, hid⟩
    · rintro ⟨rest, hfirst, hne, x, hx, ht, hlive, hid⟩
      exact ⟨_, x, ⟨rest, hfirst, rfl, hne⟩, ⟨hx, ht, hlive⟩, hid⟩
  · rintro ⟨refusal, h⟩
    rw [h]
    -- The verdict has been come to without the response, and so is the same for any other.
    exact ⟨loginVerdict_of_error h, fun _ => rfl⟩
  · rintro ⟨refusal, h⟩
    rw [h]
    refine ⟨?_, fun _ => rfl⟩
    rcases adminVerdict_of_error h with hlogin | ⟨⟨i, hlogin⟩, rfl⟩
    · exact .inl ⟨⟨refusal, hlogin⟩, by rw [hlogin]⟩
    · exact .inr ⟨by simp [hlogin, outcome], notAdmin_eq⟩

/-- The second header of the first request is the first that counts. What it names is an
administrator's session, and the token of the third has expired. Who bears that token is refused, and
so is who would be an administrator and is none. -/
theorem guards_decide_exactly_by_first_header :
    let account (id : Nat) (role : Role) : Account := ⟨id, [], [], [], [], 0, 0, true, role⟩
    let a : Accounts :=
      { users := [account 1 .user, account 2 .admin]
        sessions := [⟨['u'], 1, 0, 5, none⟩, ⟨['t'], 2, 0, 9, none⟩, ⟨['v'], 1, 0, 9, none⟩] }
    let request : Request :=
      ⟨"GET".toList, "/".toList, [],
        [⟨"Host".toList, "Bearer u".toList⟩, ⟨"AUTHORIZATION".toList, "Bearer  t".toList⟩,
          ⟨"Authorization".toList, "Bearer u".toList⟩], []⟩
    let bearing (value : String) : Request :=
      ⟨"GET".toList, "/".toList, [], [⟨authorization, value.toList⟩], []⟩
    let preset : Response := { status := .notFound, body := some [7] }
    let m : Moment := ⟨5, [], []⟩
    (a.sessions.map Session.token).Nodup ∧
      (a.perform m (requireLogin request preset)).1 = (some 2, preset) ∧
      (a.perform m (requireAdmin request preset)).1 = (some 2, preset) ∧
      (∃ message, (a.perform m (requireLogin (bearing "Bearer u") preset)).1 =
        (none, refusal 401 message)) ∧
      (a.perform m (requireAdmin (bearing "Bearer v") preset)).1 =
        (none, refusal 403 "Admin access required") := by
  intro account a request bearing preset m
  have ha : (a.sessions.map Session.token).Nodup := by decide
  obtain ⟨hlogin, hadmin, hkept, hkept', -⟩ := guards_decide_exactly ha m request preset
  have h₂ : (a.perform m (requireLogin request preset)).1.1 = some 2 :=
    (hlogin 2).mpr ⟨" t".toList,
      ⟨[⟨"Host".toList, "Bearer u".toList⟩], "AUTHORIZATION".toList, _, rfl, by decide, by decide⟩,
      by decide, ⟨['t'], 2, 0, 9, none⟩, by decide, by decide, by decide, rfl⟩
  have h₂' : (a.perform m (requireAdmin request preset)).1.1 = some 2 :=
    (hadmin 2).mpr ⟨h₂, account 2 .admin, rfl, rfl⟩
  obtain ⟨-, -, -, -, hrefused, -⟩ := guards_decide_exactly ha m (bearing "Bearer u") preset
  have hlate : (a.perform m (requireLogin (bearing "Bearer u") preset)).1.1 = none := by decide
  obtain ⟨⟨message, -, hmessage⟩, -⟩ := hrefused hlate
  obtain ⟨-, -, -, -, -, hforbidden, -⟩ := guards_decide_exactly ha m (bearing "Bearer v") preset
  have hlow : (a.perform m (requireAdmin (bearing "Bearer v") preset)).1.1 = none := by decide
  have hknown : (a.perform m (requireLogin (bearing "Bearer v") preset)).1.1 ≠ none := by decide
  have hcode := ((hforbidden hlow).1.resolve_left fun h => hknown h.1).2
  exact ⟨ha, Prod.ext h₂ (hkept (by simp [h₂])), Prod.ext h₂' (hkept' (by simp [h₂'])),
    ⟨message, Prod.ext hlate hmessage⟩, Prod.ext hlow hcode⟩

end Access
end WebHost
