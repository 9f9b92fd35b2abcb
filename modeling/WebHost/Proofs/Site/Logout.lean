import WebHost.Proofs.Site.Clients
import WebHost.Proofs.Site.Requests

/-! Logging out beside other clients. The operations of the requests come in any order and at any
times, so that others act between the check of a token and its closing. As long as no token is
opened twice, a session that has been logged out of is found by nobody any more, and nobody's logout
touches a session of another token. -/
namespace WebHost
open Http

namespace Action
variable {α : Type} {allowed : {β : Type} → Accounts.Op β → Prop}

/-- An action that only comes to allowed operations has only those done. -/
theorem Within.of_leads {p : Action Accounts.Op α} (hp : p.Within allowed)
    {ds : List (Deed Site.Op)} {q : Action Site.Op α} (h : Leads (p.lift Sum.inl) ds q)
    {d : Deed Site.Op} (hd : d ∈ ds) :
    ∃ (β : Type) (o : Accounts.Op β) (b : β), d = ⟨.inl o, b⟩ ∧ allowed o := by
  induction p generalizing ds with
  | done a =>
    obtain ⟨rfl, -⟩ := leads_done_iff.mp h
    cases hd
  | step o next ih =>
    rcases leads_step_iff.mp h with ⟨rfl, -⟩ | ⟨b, ds', rfl, htail⟩
    · cases hd
    · rcases List.mem_cons.mp hd with rfl | hd
      · exact ⟨_, o, b, rfl, hp.1⟩
      · exact ih b (hp.2 b) htail hd

/-- The token that a session has been opened with. -/
def Deed.opened? : Deed Site.Op → Option Text
  | ⟨.inl o, b⟩ => o.opened? b
  | ⟨.inr _, _⟩ => none

/-- A session has been found with the token. -/
def Deed.found (t : Text) (x : Session) : Deed Site.Op := ⟨.inl (.validate t), some x⟩

end Action

namespace Endpoint
variable {request : Request} {t : Text}

/-- These ask for a session before anything else. -/
def IsGuarded (e : Endpoint) : Prop := e = .logout ∨ e = .me ∨ e = .admin

theorem doLogout_eq (ht : Access.Presents request t) :
    doLogout request = .step (.validate t) fun
      | some _ => .step (.closeSession t) fun _ => .done loggedOut
      | none => .done Access.expired := by
  have htoken : (request.header? Access.authorization).bind Access.bearerToken? = some t := ht
  rw [doLogout, Access.requireLogin_eq ht]
  refine congrArg (Action.step _) (funext fun found => ?_)
  cases found with
  | none => rfl
  | some x => simp only [htoken]; rfl

theorem respond_of_isGuarded {e : Endpoint} (he : e.IsGuarded) (ht : Access.Presents request t)
    (files : Files) (pages : Text) :
    ∃ next, e.respond files pages request = .step (.validate t) next ∧
      next none = .done Access.expired := by
  rcases he with rfl | rfl | rfl
  · exact ⟨_, doLogout_eq ht, rfl⟩
  · rw [respond, doMe, Access.requireLogin_eq ht]
    exact ⟨_, rfl, rfl⟩
  · rw [respond, doAdmin, Access.requireAdmin, Access.requireLogin_eq ht]
    exact ⟨_, rfl, rfl⟩

end Endpoint

namespace Crowd
open WebHost.Action Site
variable {ι : Type} {α : ι → Type}

/-- The tokens of the sessions. -/
def tokens (p : Crowd α) : List Text := p.site.accounts.sessions.map Session.token

/-- The tokens that sessions have been opened with. -/
def opened (es : List (Event ι)) : List Text := es.filterMap fun e => e.2.opened?

theorem opened_append (es fs : List (Event ι)) : opened (es ++ fs) = opened es ++ opened fs :=
  List.filterMap_append

theorem opened_cons_of_none {e : Event ι} (h : e.2.opened? = none) (es : List (Event ι)) :
    opened (e :: es) = opened es :=
  List.filterMap_cons_none h

variable [DecidableEq ι]

section
variable {p q r : Crowd α} {es fs : List (Event ι)} {i j : ι} {t : Text}

theorem Step.tokens_subset {e : Event ι} (h : Step p e q) : q.tokens ⊆ p.tokens ++ opened [e] := by
  intro t ht
  obtain ⟨x, hx, rfl⟩ := List.mem_map.mp ht
  obtain ⟨i, o | o, b⟩ := e
  · obtain ⟨m, rfl, hq⟩ := h.applied
    rw [hq] at hx
    rcases Accounts.mem_sessions_apply hx with hx | ⟨-, ho⟩
    · exact List.mem_append_left _ (List.mem_map_of_mem hx)
    · exact List.mem_append_right _ (by simp [opened, Deed.opened?, ho])
  · rw [h.accounts_eq] at hx
    exact List.mem_append_left _ (List.mem_map_of_mem hx)

theorem Run.tokens_subset (h : Run p es q) : q.tokens ⊆ p.tokens ++ opened es := by
  induction h with
  | nil p => simp
  | @cons p q r e es head tail ih =>
    intro t ht
    rw [show e :: es = [e] ++ es from rfl, opened_append, ← List.append_assoc]
    rcases List.mem_append.mp (ih ht) with ht | ht
    · exact List.mem_append_left _ (head.tokens_subset ht)
    · exact List.mem_append_right _ ht

theorem Step.token_mem_of_found {x : Session} (h : Step p (i, .found t x) q) : t ∈ p.tokens := by
  obtain ⟨m, hx, -⟩ := h.applied
  have htoken := List.find?_some hx.symm
  rw [Bool.and_eq_true, beq_iff_eq] at htoken
  exact htoken.1 ▸ List.mem_map_of_mem (List.mem_of_find?_eq_some hx.symm)

/-- A token with which a session has been found has been there or has been opened. -/
theorem Run.token_mem_of_found (h : Run p es q) {x : Session} (hx : (i, .found t x) ∈ es) :
    t ∈ p.tokens ++ opened es := by
  obtain ⟨before, after, rfl⟩ := List.append_of_mem hx
  obtain ⟨p', hbefore, htail⟩ := run_append_iff.mp h
  obtain ⟨q', hstep, -⟩ := run_cons_iff.mp htail
  rw [opened_append, ← List.append_assoc]
  exact List.mem_append_left _ (hbefore.tokens_subset hstep.token_mem_of_found)

theorem Step.token_not_mem_of_closed {b : Bool} (h : Step p (i, ⟨.inl (.closeSession t), b⟩) q) :
    t ∉ q.tokens := by
  obtain ⟨m, -, hq⟩ := h.applied
  rw [tokens, hq]
  simp [Accounts.Op.apply, Accounts.closeSession]

/-- No token is opened twice, and none that is there already. -/
def Fresh (p : Crowd α) (es : List (Event ι)) : Prop := (p.tokens ++ opened es).Nodup

/-- A token that has been there or has been opened, and has been closed then, is not found again. -/
theorem Run.not_found_of_closed {before after : List (Event ι)} {b : Bool}
    (h : Run p (before ++ (i, ⟨.inl (.closeSession t), b⟩) :: after) q)
    (hfresh : p.Fresh (before ++ (i, ⟨.inl (.closeSession t), b⟩) :: after))
    (ht : t ∈ p.tokens ++ opened before) (j : ι) (x : Session) : (j, .found t x) ∉ after := by
  intro hx
  obtain ⟨p₁, -, htail⟩ := run_append_iff.mp h
  obtain ⟨p₂, hclose, hafter⟩ := run_cons_iff.mp htail
  -- After the closing the token could only come from an opening, and that would be its second.
  rcases List.mem_append.mp (hafter.token_mem_of_found hx) with h₂ | h₂
  · exact hclose.token_not_mem_of_closed h₂
  · rw [Fresh, opened_append, opened_cons_of_none rfl, ← List.append_assoc] at hfresh
    exact (List.nodup_append.mp hfresh).2.2 t ht t h₂ rfl

end

section
variable {p q r q' : Crowd fun _ : ι => Response} {es fs : List (Event ι)} {pages : Text}
  {static : StaticRoute} {w : ι → Surroundings} {request : ι → Request} {i j : ι} {t : Text}
  {e : Endpoint}

/-- The routes are those of all endpoints, and every client waits for the answer to a request. -/
structure Waits (pages : Text) (static : StaticRoute) (w : ι → Surroundings) (request : ι → Request)
    (p : Crowd fun _ : ι => Response) : Prop where
  routes : p.site.routes = addEndpoints pages static {}
  rest : ∀ i, p.rest i = dispatch (w i) (p.site.routes.depth + 1) (request i)

/-- A request for an endpoint has not been looked at, or it is with its endpoint. -/
theorem Run.leads_of_askedBy (h : Run p es q) (hp : p.Waits pages static w request)
    (he : e.AskedBy (request i)) :
    share i es = [] ∧ q.rest i = p.rest i ∨
      ∃ ds, share i es = .resolved (request i).method (request i).path
          (.handler (.endpoint e pages)) :: ds ∧
        Leads ((e.respond (w i).files pages (request i)).lift Sum.inl) ds (q.rest i) := by
  have hp₀ : p.site.routes.resolve (request i).method (request i).path =
      .handler (.endpoint e pages) := by
    rw [hp.routes, resolve_addEndpoints, Endpoint.asked?_of_askedBy he]
  have hleads := h.leads i
  rw [hp.rest, dispatch_succ] at hleads ⊢
  rcases leads_step_iff.mp hleads with ⟨hnone, hrest⟩ | ⟨target, ds, hds, htail⟩
  · exact .inl ⟨hnone, hrest⟩
  · have hmem : (i, .resolved (request i).method (request i).path target) ∈ es :=
      mem_share.mp (hds ▸ List.mem_cons_self)
    obtain ⟨p', q', before, after, hbefore, hstep, -⟩ := h.exists_of_mem hmem
    obtain rfl : target = .handler (.endpoint e pages) := by
      rw [hstep.resolved, hbefore.resolve_eq hp₀]
    exact .inr ⟨ds, hds, htail⟩

/-- A logout that has been answered well has found a session and has closed its token. -/
theorem Run.share_of_logout (h : Run p es q) (hp : p.Waits pages static w request)
    (he : Endpoint.logout.AskedBy (request i)) (ht : Access.Presents (request i) t)
    {response : Response} (hdone : q.rest i = .done response) (hok : response.status = .ok) :
    ∃ x b, share i es = [.resolved (request i).method (request i).path
      (.handler (.endpoint .logout pages)), .found t x] ++ [⟨.inl (.closeSession t), b⟩] := by
  rcases h.leads_of_askedBy hp he with ⟨-, hrest⟩ | ⟨ds, hds, hleads⟩
  · rw [hrest, hp.rest, dispatch_succ] at hdone
    cases hdone
  · rw [hdone, Endpoint.respond, Endpoint.doLogout_eq ht] at hleads
    rcases leads_step_iff.mp hleads with ⟨-, hrest⟩ | ⟨found, ds', rfl, htail⟩
    · cases hrest
    · cases found with
      | none =>
        have htail : Leads (.done Access.expired) ds' (.done response) := htail
        obtain ⟨-, hrest⟩ := leads_done_iff.mp htail
        obtain rfl : response = Access.expired := by cases hrest; rfl
        exact absurd hok (by decide)
      | some x =>
        have htail : Leads (.step (.inl (.closeSession t)) fun _ => .done Endpoint.loggedOut) ds'
          (.done response) := htail
        rcases leads_step_iff.mp htail with ⟨-, hrest⟩ | ⟨b, ds'', rfl, hend⟩
        · cases hrest
        · obtain ⟨rfl, -⟩ := leads_done_iff.mp hend
          exact ⟨x, b, hds⟩

/-- Whoever is refused the session that he asks for is told so. -/
theorem Run.eq_expired_of_not_found (h : Run p es q) (hp : p.Waits pages static w request)
    (he : e.AskedBy (request j)) (hguarded : e.IsGuarded) (ht : Access.Presents (request j) t)
    (hnone : ∀ x, (j, .found t x) ∉ es) {response : Response} (hdone : q.rest j = .done response) :
    response = Access.expired := by
  obtain ⟨next, hrespond, hnext⟩ :=
    Endpoint.respond_of_isGuarded hguarded ht (w j).files pages
  rcases h.leads_of_askedBy hp he with ⟨-, hrest⟩ | ⟨ds, hds, hleads⟩
  · rw [hrest, hp.rest, dispatch_succ] at hdone
    cases hdone
  · rw [hdone, hrespond] at hleads
    rcases leads_step_iff.mp hleads with ⟨-, hrest⟩ | ⟨found, ds', rfl, htail⟩
    · cases hrest
    · cases found with
      | some x => exact absurd (mem_share.mp (hds ▸ by simp [Deed.found])) (hnone x)
      | none =>
        have htail : Leads ((next none).lift Sum.inl) ds' (.done response) := htail
        rw [hnext] at htail
        obtain ⟨-, hrest⟩ := leads_done_iff.mp htail
        cases hrest
        rfl

/-- A step of a logout leaves the sessions as they are, but for those with the token that has been
presented. -/
theorem Run.sessions_of_logout (h : Run p es q) (hp : p.Waits pages static w request)
    {d : Deed Site.Op} (hstep : Step q (i, d) q') (he : Endpoint.logout.AskedBy (request i)) :
    (q'.site.accounts.sessions.filter fun x => ¬ Access.Presents (request i) x.token) =
      q.site.accounts.sessions.filter fun x => ¬ Access.Presents (request i) x.token := by
  have hrun : Run p (es ++ [(i, d)]) q' := run_append_iff.mpr ⟨q, h, .cons hstep (.nil q')⟩
  have hshare : d ∈ share i (es ++ [(i, d)]) := mem_share.mpr (by simp)
  rcases hrun.leads_of_askedBy hp he with ⟨hnone, -⟩ | ⟨ds, hds, hleads⟩
  · rw [hnone] at hshare
    cases hshare
  · rw [hds] at hshare
    rcases List.mem_cons.mp hshare with rfl | hd
    · rw [hstep.accounts_eq]
    · obtain ⟨β, o, b, rfl, ho⟩ := (Endpoint.within_respond _ _ _ _).of_leads hleads hd
      obtain ⟨m, -, hq⟩ := hstep.applied
      rw [hq, Accounts.sessions_apply]
      cases o with
      | closeSession token =>
        rw [List.filter_filter]
        refine List.filter_congr fun x _ => ?_
        by_cases hx : x.token = token
        · simp [hx, ho.2]
        · simp [hx]
      | openSession _ _ => exact absurd (show Endpoint.logout = .login from ho) (by decide)
      | cleanup => exact absurd ho id
      | _ => rfl

/-- Whatever turns the clients take and whatever the clock shows, as long as no token is opened
twice: when somebody's logout has been answered well, no session is found with his token any more,
and who asks for one afterwards with that token, at whatever guarded place, is told that it has
expired. And what a logout does leaves all sessions as they are that have not the token that has
been presented. -/
theorem logout_is_final (hp : p.Waits pages static w request) (hes : Run p es q) (hfs : Run q fs r)
    (hfresh : p.Fresh (es ++ fs)) :
    (∀ i t response, Endpoint.logout.AskedBy (request i) → Access.Presents (request i) t →
      q.rest i = .done response → response.status = .ok →
      (∀ j x, (j, .found t x) ∉ fs) ∧
        ∀ j (e : Endpoint) response', share j es = [] → e.AskedBy (request j) → e.IsGuarded →
          Access.Presents (request j) t → r.rest j = .done response' →
          response' = Access.expired) ∧
    ∀ i d q', Endpoint.logout.AskedBy (request i) → Step q (i, d) q' →
      (q'.site.accounts.sessions.filter fun x => ¬ Access.Presents (request i) x.token) =
        q.site.accounts.sessions.filter fun x => ¬ Access.Presents (request i) x.token := by
  refine ⟨fun i t response he ht hdone hok => ?_,
    fun i d q' he hstep => hes.sessions_of_logout hp hstep he⟩
  have hrun : Run p (es ++ fs) r := run_append_iff.mpr ⟨q, hes, hfs⟩
  obtain ⟨x, b, hshare⟩ := hes.share_of_logout hp he ht hdone hok
  -- The session has been found before its token has been closed.
  obtain ⟨before, after, rfl, hbefore, -⟩ := split_of_share hshare
  obtain ⟨p', hp', -⟩ := run_append_iff.mp hes
  have hfound : (i, .found t x) ∈ before := mem_share.mp (hbefore ▸ by simp)
  rw [List.append_assoc, List.cons_append] at hrun hfresh
  have hgone (j : ι) (y : Session) : (j, .found t y) ∉ fs := fun hy =>
    hrun.not_found_of_closed hfresh (hp'.token_mem_of_found hfound) j y (List.mem_append_right _ hy)
  refine ⟨hgone, fun j e response' hj he' hguarded ht' hdone' => ?_⟩
  refine (run_append_iff.mpr ⟨q, hes, hfs⟩).eq_expired_of_not_found hp he' hguarded ht'
    (fun y hy => ?_) hdone'
  rcases List.mem_append.mp hy with hy | hy
  · rw [← mem_share, hj] at hy
    cases hy
  · exact hgone j y hy

end

/-- Two clients log out of one session at the same time, and a third asks for it when both have been
answered. -/
theorem logout_is_final_beside_another :
    let asking (e : Endpoint) : Request :=
      ⟨e.method, e.path, [], [⟨Access.authorization, "Bearer t".toList⟩], []⟩
    let request (i : Fin 3) : Request := asking (if i = 2 then .me else .logout)
    let looking (i : Fin 3) (e : Endpoint) : Event (Fin 3) :=
      (i, .resolved (request i).method (request i).path (.handler (.endpoint e [])))
    let x : Session := ⟨['t'], 1, 0, 9, none⟩
    let s : Site := { accounts := { sessions := [x] }, routes := addEndpoints [] ⟨['/'], []⟩ {} }
    let p : Crowd fun _ : Fin 3 => Response :=
      ⟨s, fun i => dispatch {} (s.routes.depth + 1) (request i)⟩
    let es : List (Event (Fin 3)) :=
      [looking 0 .logout, looking 1 .logout, (1, .found ['t'] x), (0, .found ['t'] x),
        (0, ⟨.inl (.closeSession ['t']), true⟩), (1, ⟨.inl (.closeSession ['t']), false⟩)]
    let fs : List (Event (Fin 3)) := [looking 2 .me, (2, ⟨.inl (.validate ['t']), none⟩)]
    ∃ q r, Run p es q ∧ Run q fs r ∧ p.Fresh (es ++ fs) ∧ q.rest 0 = .done Endpoint.loggedOut ∧
      q.rest 1 = .done Endpoint.loggedOut ∧ r.rest 2 = .done Access.expired := by
  intro asking request looking x s p es fs
  let m : Moment := ⟨0, [], []⟩
  have hp : p.Waits [] ⟨['/'], []⟩ (fun _ => {}) request := ⟨rfl, fun _ => rfl⟩
  have hfresh : p.Fresh (es ++ fs) := by
    simp [Fresh, tokens, opened, es, fs, p, s, looking, Deed.opened?, Deed.found, Deed.resolved,
      Accounts.Op.opened?]
  obtain ⟨q, r, response, hq, h₀, h₁, hr, h₂⟩ : ∃ q r response, Run p es q ∧
      q.rest 0 = .done Endpoint.loggedOut ∧ q.rest 1 = .done Endpoint.loggedOut ∧
      Run q fs r ∧ r.rest 2 = .done response :=
    ⟨_, _, _,
      .cons (.perform m rfl) (.cons (.perform m rfl) (.cons (.perform m rfl) (.cons (.perform m rfl)
        (.cons (.perform m rfl) (.cons (.perform m rfl) (.nil _)))))),
      rfl, rfl, .cons (.perform m rfl) (.cons (.perform m rfl) (.nil _)), rfl⟩
  obtain ⟨hfinal, -⟩ := logout_is_final hp hq hr hfresh
  obtain ⟨-, hlater⟩ := hfinal 0 ['t'] Endpoint.loggedOut (by decide) (by decide) h₀ rfl
  have hguarded : Endpoint.me.IsGuarded := .inr (.inl rfl)
  obtain rfl := hlater 2 .me response rfl (by decide) hguarded (by decide) h₂
  exact ⟨q, r, hq, hr, hfresh, h₀, h₁, h₂⟩

end Crowd
end WebHost
