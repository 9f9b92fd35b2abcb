import WebHost.Proofs.Site.Refusals

/-! What the answer to a login says of the session that it has opened: its token, the number of its
account, and how long it lasts. A session lasts as long as the accounts have been set to let it, if
its end is not beyond the bound on times, and the answer names the time that they let it last unless
another is set. -/
namespace WebHost
open Http

namespace Accounts
variable {a : Accounts} {es : List Event} {x : Session} {t : Text} {start last id : Nat}

/-- The token that an event has ready for a session to be opened. -/
def Event.offering? (e : Event) : Option Text := e.opening?.map fun o => o.1.token

theorem offering?_of_opened? {β : Type} {m : Moment} {o : Op β} {answer : β}
    (h : o.opened? answer = some t) : Event.offering? ⟨m, o⟩ = some m.token := by
  cases o with
  | openSession userId address => rfl
  | _ => cases h

/-- A session after a run was there before it, if its token has not been offered in it. -/
theorem mem_sessions_of_mem_run (hx : x ∈ (a.run es).sessions)
    (ho : ∀ e ∈ es, e.offering? ≠ some x.token) : x ∈ a.sessions := by
  induction es generalizing a with
  | nil => exact hx
  | cons e es ih =>
    obtain ⟨he, hes⟩ := List.forall_mem_cons.mp ho
    obtain hold | ⟨ht, hopened⟩ := mem_sessions_apply (ih hx hes)
    · exact hold
    · exact absurd (ht ▸ offering?_of_opened? hopened) he

/-- A session outlasts every run before it expires in which its token is not closed. -/
theorem mem_sessions_run (hx : x ∈ a.sessions) (hl : ∀ e ∈ es, x.isLive e.moment.now)
    (hc : ∀ e ∈ es, e.closing? ≠ some x.token) : x ∈ (a.run es).sessions := by
  induction es generalizing a with
  | nil => exact hx
  | cons e es ih =>
    obtain ⟨hle, hles⟩ := List.forall_mem_cons.mp hl
    obtain ⟨hce, hces⟩ := List.forall_mem_cons.mp hc
    exact ih (mem_sessions_apply_of_mem hx hle hce) hles hces

/-- After a run in which a token is closed no session has it, if it has not been offered. -/
theorem not_mem_sessions_run {e : Event} (he : e ∈ es) (hc : e.closing? = some x.token)
    (ho : ∀ e ∈ es, e.offering? ≠ some x.token) : x ∉ (a.run es).sessions := by
  intro hx
  obtain ⟨before, later, rfl⟩ := List.append_of_mem he
  rw [run_append, run_cons] at hx
  have hmem := mem_sessions_of_mem_run hx fun e' he' => ho e' (by simp [he'])
  obtain ⟨m, o⟩ := e
  cases o with
  | closeSession token =>
    obtain rfl : token = x.token := by simpa [Event.closing?] using hc
    have hne := (List.mem_filter.mp hmem).2
    simp at hne
  | _ => cases hc

/-- From `start` on a token is valid for the account `id` before the second `last` and no longer,
whatever is done in that time, unless it is closed. For that no other session may get the token. -/
def AcceptsUntil (a : Accounts) (start last : Nat) (t : Text) (id : Nat) : Prop :=
  ∀ (es : List Event) (m : Moment), start ≤ m.now →
    (∀ e ∈ es, e.moment.now ≤ m.now ∧ e.offering? ≠ some t) →
    ∀ i, ((a.run es).validate m t).map Session.userId = some i ↔
      i = id ∧ (∀ e ∈ es, e.closing? ≠ some t) ∧ m.now < last

/-- The only session with its token is valid until it expires. -/
theorem acceptsUntil_of_mem (hx : x ∈ a.sessions)
    (hone : ∀ y ∈ a.sessions, y.token = x.token → y = x) (start : Nat) :
    a.AcceptsUntil start x.expiresAt x.token x.userId := by
  intro es m _ hes i
  have hoffer : ∀ e ∈ es, e.offering? ≠ some x.token := fun e he => (hes e he).2
  have hfound {y : Session} (hy : (a.run es).validate m x.token = some y) :
      y = x ∧ y ∈ (a.run es).sessions ∧ m.now < x.expiresAt := by
    have hgood := List.find?_some hy
    have hmem := List.mem_of_find?_eq_some hy
    rw [Bool.and_eq_true, beq_iff_eq, Session.isLive, decide_eq_true_eq] at hgood
    obtain ⟨ht, hlive⟩ := hgood
    obtain rfl := hone y (mem_sessions_of_mem_run hmem (ht ▸ hoffer)) ht
    exact ⟨rfl, hmem, hlive⟩
  rw [Option.map_eq_some_iff]
  constructor
  · rintro ⟨y, hy, rfl⟩
    obtain ⟨rfl, hmem, hlive⟩ := hfound hy
    exact ⟨rfl, fun e he hc => not_mem_sessions_run he hc hoffer hmem, hlive⟩
  · rintro ⟨rfl, hc, hlive⟩
    have hkept : x ∈ (a.run es).sessions := by
      refine mem_sessions_run hx (fun e he => ?_) hc
      exact isLive_of_le (hes e he).1 (by simpa [Session.isLive] using hlive)
    have hsome : ((a.run es).validate m x.token).isSome := by
      rw [validate, List.find?_isSome]
      exact ⟨x, hkept, by simpa [Session.isLive] using hlive⟩
    obtain ⟨y, hy⟩ := Option.isSome_iff_exists.mp hsome
    exact ⟨y, hy, by rw [(hfound hy).1]⟩

/-- Until when a token is valid is not to be named in two ways. -/
theorem AcceptsUntil.iff_eq (h : a.AcceptsUntil start last t id) {named : Nat} (hn : start < named) :
    a.AcceptsUntil start named t id ↔ last = named := by
  constructor
  · intro h'
    -- In the second in which the shorter time is over, the token is valid for neither or for both.
    let m : Moment := ⟨max start (min last named), [], []⟩
    have hm : start ≤ m.now := Nat.le_max_left _ _
    have hboth := (h [] m hm (by simp) id).symm.trans (h' [] m hm (by simp) id)
    simp only [true_and, List.not_mem_nil, false_implies, implies_true, m] at hboth
    omega
  · rintro rfl
    exact h

end Accounts

namespace Endpoint

/-- The answer shows how long a session lasts, its token and the number of its account. -/
def ShowsSession (response : Response) (seconds : Nat) (t : Text) (id : Nat) : Prop :=
  response = object .ok [("expires_in".toList, .number seconds), ("token".toList, .text t),
    ("user_id".toList, .number id)]

theorem showsSession_loginAnswer_iff {seconds id id' : Nat} {t t' : Text} :
    ShowsSession (loginAnswer id t) seconds t' id' ↔
      seconds = Accounts.defaultLifetime ∧ t' = t ∧ id' = id := by
  simp [ShowsSession, loginAnswer, object_inj, eq_comm]

end Endpoint

namespace Site
variable {timeline : Nat → Moment} {w : Surroundings} {pages : Text} {static : StaticRoute}
  {request : Request} {s : Site}

/-- A login that is answered well has been let pass and has found room, and the answer is made of
the number of the account and the token of the moment. -/
theorem respond_of_login_ok (hr : s.routes = addEndpoints pages static {})
    (he : Endpoint.login.AskedBy request) (hok : (s.respond timeline w request).1.status = .ok) :
    ∃ u, s.Admits request u ∧
      (s.respond timeline w request).1 =
        Endpoint.loginAnswer u.id (timeline (s.elapsed + 2)).token ∧
      (s.respond timeline w request).2.accounts =
        { s.noted timeline u with sessions := (s.noted timeline u).sessions ++
          [s.accounts.newSession (timeline (s.elapsed + 2)) u.id
            (request.header? "X-Forwarded-For".toList)] } := by
  obtain ⟨hne, -⟩ | ⟨u, hu⟩ := login_refused_or_admits timeline w hr he
  · exact absurd hok hne
  · obtain ⟨-, hfull, -⟩ | ⟨-, hanswer⟩ := respond_of_admits timeline w hr hu
    · rw [hfull] at hok
      exact absurd hok (by decide)
    · exact ⟨u, hu, hanswer⟩

/-- The answer to a login, whatever the time for which the accounts let sessions last. It shows the
number of the account with the name of the login and the token of a session for that number, and the
token is valid for that number until the session expires, unless it is closed. The time that the
answer names is always the one that is set by default, so it is the time for which the token is
valid exactly if no other has been set and its end is not beyond the bound on times. -/
theorem login_answer_describes_session_iff (hr : s.routes = addEndpoints pages static {})
    (he : Endpoint.login.AskedBy request) (hok : (s.respond timeline w request).1.status = .ok)
    (hfresh : ∀ x ∈ s.accounts.sessions, x.token ≠ (timeline (s.elapsed + 2)).token)
    (hbound : s.accounts.lifetime < Accounts.timeBound) :
    let m := timeline (s.elapsed + 2)
    let b := (s.respond timeline w request).2.accounts
    ∃ u, request.formValue? "username".toList = some u.username ∧
      s.accounts.userByName? u.username = some u ∧
      (∃ x ∈ b.sessions, x.token = m.token ∧ x.userId = u.id) ∧
      b.AcceptsUntil m.now (Accounts.expiry m.now s.accounts.lifetime) m.token u.id ∧
      ∀ seconds t id,
        (Endpoint.ShowsSession (s.respond timeline w request).1 seconds t id ↔
          seconds = Accounts.defaultLifetime ∧ t = m.token ∧ id = u.id) ∧
        (Endpoint.ShowsSession (s.respond timeline w request).1 seconds t id →
          (b.AcceptsUntil m.now (m.now + seconds) t id ↔
            s.accounts.lifetime = Accounts.defaultLifetime ∧
              m.now + Accounts.defaultLifetime < Accounts.timeBound)) := by
  intro m b
  obtain ⟨u, hadmits, hanswer, hb⟩ := respond_of_login_ok hr he hok
  obtain ⟨_, -, hname, -⟩ := hadmits.login
  let x := s.accounts.newSession m u.id (request.header? "X-Forwarded-For".toList)
  have hsessions : b.sessions = (s.accounts.purge m.now).sessions ++ [x] :=
    congrArg Accounts.sessions hb
  have hx : x ∈ b.sessions := hsessions ▸ List.mem_append_right _ (List.mem_singleton.mpr rfl)
  have hone : ∀ y ∈ b.sessions, y.token = x.token → y = x := by
    intro y hy ht
    rw [hsessions, List.mem_append, List.mem_singleton] at hy
    obtain hold | hnew := hy
    · exact absurd ht (hfresh y (List.mem_filter.mp hold).1)
    · exact hnew
  have haccepts :
      b.AcceptsUntil m.now (Accounts.expiry m.now s.accounts.lifetime) m.token u.id :=
    Accounts.acceptsUntil_of_mem hx hone m.now
  refine ⟨u, hname, hadmits.found, ⟨x, hx, rfl, rfl⟩, haccepts, fun seconds t id => ?_⟩
  rw [hanswer, Endpoint.showsSession_loginAnswer_iff]
  refine ⟨Iff.rfl, ?_⟩
  rintro ⟨rfl, rfl, rfl⟩
  have hlater : m.now < m.now + Accounts.defaultLifetime := Nat.lt_add_of_pos_right (by decide)
  rw [haccepts.iff_eq hlater, Accounts.expiry_eq_add_iff hbound]

/-- Where sessions last as long as they do by default, bob's token is valid for as long as he is
told, beside another session of his. -/
theorem login_answer_describes_session_of_default :
    let s := vacantSite.after oneSecond [bobSignsUp, .keeping (.openSession 1 none)]
    (s.respond oneSecond {} bobsLogin).1.status = .ok ∧
      (∀ x ∈ s.accounts.sessions, x.token ≠ ['4']) ∧
      Endpoint.ShowsSession (s.respond oneSecond {} bobsLogin).1 3600 ['4'] 1 ∧
      s.accounts.lifetime < Accounts.timeBound ∧
      (s.respond oneSecond {} bobsLogin).2.accounts.AcceptsUntil 7 3607 ['4'] 1 := by
  intro s
  have hr : s.routes = addEndpoints [] ⟨['/'], []⟩ {} := (kept_routes _).after rfl rfl _
  have hmoment : oneSecond (s.elapsed + 2) = ⟨7, ['4'], []⟩ := by decide +kernel
  have hlifetime : s.accounts.lifetime = Accounts.defaultLifetime := by decide +kernel
  have hok : (s.respond oneSecond {} bobsLogin).1.status = .ok := by decide +kernel
  have hfresh : ∀ x ∈ s.accounts.sessions, x.token ≠ ['4'] := by decide +kernel
  have hshows : Endpoint.ShowsSession (s.respond oneSecond {} bobsLogin).1 3600 ['4'] 1 := by
    unfold Endpoint.ShowsSession
    decide +kernel
  have hbound : s.accounts.lifetime < Accounts.timeBound := by
    rw [hlifetime]
    decide
  obtain ⟨u, -, -, -, -, hanswer⟩ := login_answer_describes_session_iff (w := {}) hr ⟨rfl, rfl⟩ hok
    (by rwa [hmoment]) hbound
  rw [hmoment] at hanswer
  exact ⟨hok, hfresh, hshows, hbound, ((hanswer 3600 ['4'] 1).2 hshows).mpr ⟨hlifetime, by decide⟩⟩

/-- Where sessions last a minute, bob is told that his lasts an hour. -/
theorem not_forall_login_answer_describes_session :
    ¬ ∀ (lifetime : Nat) (pages : Text) (static : StaticRoute) (timeline : Nat → Moment)
        (before : List Happening) (login : Request) (seconds id : Nat) (t : Text),
      let site : Site := { accounts := { lifetime }, routes := addEndpoints pages static {} }
      let s := site.after timeline before
      (∀ x ∈ s.accounts.sessions, x.token ≠ (timeline (s.elapsed + 2)).token) →
      Endpoint.login.AskedBy login →
      Endpoint.ShowsSession (s.respond timeline {} login).1 seconds t id →
      (s.respond timeline {} login).2.accounts.AcceptsUntil (timeline (s.elapsed + 2)).now
        ((timeline (s.elapsed + 2)).now + seconds) t id := by
  intro h
  have haccepts := h 60 [] ⟨['/'], []⟩ oneSecond [bobSignsUp] bobsLogin 3600 1 ['3']
    (by decide +kernel) ⟨rfl, rfl⟩ (by unfold Endpoint.ShowsSession; decide +kernel)
  -- A minute after the login, at the second 7, the token is no longer valid.
  have hvalid := (haccepts [] ⟨67, [], []⟩ (by decide) (by simp) 1).mpr ⟨rfl, by simp, by decide⟩
  revert hvalid
  decide +kernel

end Site
end WebHost
