import WebHost.Proofs.Site.Logout

/-! What a request leaves of the accounts when it is refused. Whoever asks for something and does not
get it changes nothing, with one exception: a login checks the password first, which notes the time
with the account, and is turned away after that if there is no room for another session. -/
namespace WebHost
open Http

/-- The response says neither that all is well nor that something has been made. -/
def Http.Response.IsRefusal (r : Response) : Prop := r.status ≠ .ok ∧ r.status ≠ .created

instance (r : Response) : Decidable r.IsRefusal := inferInstanceAs (Decidable (_ ∧ _))

namespace Accounts

theorem changeFirst_eq_self_iff {test : Account → Bool} {change : Account → Account}
    {us : List Account} {u : Account} (h : us.find? test = some u) :
    changeFirst test change us = us ↔ change u = u := by
  induction us with
  | nil => cases h
  | cons v us ih =>
    rw [List.find?_cons] at h
    split at h
    · next htest =>
      obtain rfl := Option.some.inj h
      simp [changeFirst, htest]
    · next htest => simp [changeFirst, htest, ih h]

end Accounts

namespace Site
variable {timeline : Nat → Moment} {w : Surroundings} {pages : Text} {static : StaticRoute}
  {request : Request} {s : Site}

/-- The request is a login that is let pass, but by then there are as many live sessions as there may
be. -/
structure TurnsAway (timeline : Nat → Moment) (s : Site) (request : Request) (u : Account) : Prop
    extends s.Admits request u where
  full : Accounts.sessionLimit ≤ (s.accounts.purge (timeline (s.elapsed + 2)).now).sessions.length

/-- Whoever is turned away is told so, and the time of the login has been noted. -/
theorem respond_of_turnsAway (hr : s.routes = addEndpoints pages static {}) {u : Account}
    (h : s.TurnsAway timeline request u) :
    (s.respond timeline w request).1 =
        .problem .serviceUnavailable "Too many sessions".toList ∧
      (s.respond timeline w request).2.accounts = s.noted timeline u := by
  obtain ⟨-, hanswer⟩ | ⟨hroom, -⟩ := respond_of_admits timeline w hr h.toAdmits
  · exact hanswer
  · exact absurd h.full (Nat.not_le.mpr hroom)

theorem accounts_of_refused_register (hr : s.routes = addEndpoints pages static {})
    (he : Endpoint.register.AskedBy request) (h : (s.respond timeline w request).1.IsRefusal) :
    (s.respond timeline w request).2.accounts = s.accounts := by
  obtain hsame | ⟨hmade, -⟩ := respond_register_cases timeline w hr he
  · exact hsame
  · exact absurd hmade h.2

/-- A login that is refused changes nothing, unless it is turned away. -/
theorem accounts_of_refused_login (hr : s.routes = addEndpoints pages static {})
    (he : Endpoint.login.AskedBy request) (h : (s.respond timeline w request).1.IsRefusal) :
    (s.respond timeline w request).2.accounts = s.accounts ∨
      ∃ u, s.TurnsAway timeline request u := by
  obtain ⟨-, hsame⟩ | ⟨u, hu⟩ := login_refused_or_admits timeline w hr he
  · exact .inl hsame
  · obtain ⟨hfull, -⟩ | ⟨-, hanswer, -⟩ := respond_of_admits timeline w hr hu
    · exact .inr ⟨u, hu, hfull⟩
    · exact absurd (congrArg Response.status hanswer) h.1

/-- The bearer of a token is logged out if a session is found with it. -/
theorem respond_logout (hr : s.routes = addEndpoints pages static {})
    (he : Endpoint.logout.AskedBy request) {t : Text} (ht : Access.Presents request t) :
    s.respond timeline w request =
      match s.accounts.validate (timeline (s.elapsed + 1)) t with
      | some _ => (Endpoint.loggedOut,
          { s with accounts := (s.accounts.closeSession t).2, elapsed := s.elapsed + 3 })
      | none => (Access.expired, s.tick.tick) := by
  rw [respond_of_askedBy hr he]
  change s.tick.run timeline ((Endpoint.doLogout request).lift Sum.inl) = _
  rw [Endpoint.doLogout_eq ht]
  change Site.run timeline (Action.lift Sum.inl
    (match s.accounts.validate (timeline (s.elapsed + 1)) t with
      | some _ => .step (.closeSession t) fun _ => .done Endpoint.loggedOut
      | none => .done Access.expired)) s.tick.tick = _
  cases s.accounts.validate (timeline (s.elapsed + 1)) t with
  | none => rfl
  | some x => rfl

theorem accounts_of_refused_logout (hr : s.routes = addEndpoints pages static {})
    (he : Endpoint.logout.AskedBy request) {t : Text} (ht : Access.Presents request t)
    (h : (s.respond timeline w request).1.IsRefusal) :
    (s.respond timeline w request).2.accounts = s.accounts := by
  rw [respond_logout hr he ht] at h ⊢
  cases hfound : s.accounts.validate (timeline (s.elapsed + 1)) t with
  | none => rfl
  | some x =>
    rw [hfound] at h
    exact absurd rfl h.1

/-- All other requests only look at the accounts. -/
theorem keptBy_accounts (hregister : ¬ Endpoint.register.AskedBy request)
    (hlogin : ¬ Endpoint.login.AskedBy request)
    (hlogout : ∀ t, Endpoint.logout.AskedBy request → ¬ Access.Presents request t) (a : Accounts) :
    KeptBy timeline request fun s => s.accounts = a where
  op s β o e he ho hs := by
    cases o with
    | register _ _ _ =>
      obtain rfl : e = .register := ho
      exact absurd he hregister
    | authenticate _ _ | openSession _ _ =>
      obtain rfl : e = .login := ho
      exact absurd he hlogin
    | closeSession token =>
      obtain ⟨rfl, hp⟩ := ho
      exact absurd hp (hlogout token he)
    | setRole _ _ | setActive _ _ | cleanup => exact absurd ho (by simp [Endpoint.May])
    | userById _ | userByName _ | userCount | validate _ | sessionCount => exact hs
  tick _ h := h

/-- A request that is refused leaves the accounts and sessions as they are, unless it is a login that
is turned away. -/
theorem accounts_of_refused (hr : s.routes = addEndpoints pages static {})
    (h : (s.respond timeline w request).1.IsRefusal) :
    (s.respond timeline w request).2.accounts = s.accounts ∨
      ∃ u, s.TurnsAway timeline request u := by
  by_cases hregister : Endpoint.register.AskedBy request
  · exact .inl (accounts_of_refused_register hr hregister h)
  · by_cases hlogin : Endpoint.login.AskedBy request
    · exact accounts_of_refused_login hr hlogin h
    · by_cases hlogout : ∃ t, Endpoint.logout.AskedBy request ∧ Access.Presents request t
      · obtain ⟨t, he, ht⟩ := hlogout
        exact .inl (accounts_of_refused_logout hr he ht h)
      · have hkept : KeptBy timeline request fun s' => s'.accounts = s.accounts :=
          keptBy_accounts hregister hlogin (fun t he ht => hlogout ⟨t, he, ht⟩) s.accounts
        exact .inl (hkept.respond hr rfl)

/-- A request that is refused leaves the live sessions as they are. It leaves the accounts as they
are if and only if it turns away no login but in the second that the account has been logged in to
before. A login that is turned away has the time noted with its account and changes nothing else. -/
theorem refused_request_changes_nothing_iff (hr : s.routes = addEndpoints pages static {})
    (h : (s.respond timeline w request).1.IsRefusal) :
    let b := (s.respond timeline w request).2.accounts
    (∀ now, (timeline (s.elapsed + 2)).now ≤ now →
      (b.sessions.filter fun x => x.isLive now) =
        s.accounts.sessions.filter fun x => x.isLive now) ∧
    (b.users = s.accounts.users ↔
      ∀ u, s.TurnsAway timeline request u → u.lastLogin = (timeline (s.elapsed + 1)).now) ∧
    ((∀ u, ¬ s.TurnsAway timeline request u) → b = s.accounts) ∧
    ∀ u, s.TurnsAway timeline request u → b = s.noted timeline u ∧
      (s.respond timeline w request).1 =
        .problem .serviceUnavailable "Too many sessions".toList := by
  intro b
  by_cases hlate : ∃ u, s.TurnsAway timeline request u
  · obtain ⟨u, hu⟩ := hlate
    have hb : b = s.noted timeline u := (respond_of_turnsAway hr hu).2
    have hsame {v : Account} (hv : s.TurnsAway timeline request v) : v = u := by
      obtain ⟨_, -, hname, -⟩ := hu.login
      obtain ⟨_, -, hname', -⟩ := hv.login
      have hfound := hv.found
      rw [Option.some.inj (hname'.symm.trans hname), hu.found] at hfound
      exact (Option.some.inj hfound).symm
    refine ⟨fun now hnow => ?_, ?_, fun hnone => absurd hu (hnone u), fun v hv => ?_⟩
    · rw [hb]
      exact Accounts.filter_isLive_filter_isLive hnow s.accounts.sessions
    · rw [hb]
      refine (Accounts.changeFirst_eq_self_iff hu.found).trans ⟨fun hnoted v hv => ?_, fun hnoted => ?_⟩
      · rw [hsame hv]
        exact congrArg Account.lastLogin hnoted.symm
      · rw [← hnoted u hu]
    · obtain rfl := hsame hv
      exact ⟨hb, (respond_of_turnsAway hr hu).1⟩
  · have hb : b = s.accounts := (accounts_of_refused hr h).resolve_right hlate
    rw [not_exists] at hlate
    refine ⟨fun now _ => by rw [hb], ?_, fun _ => hb, fun v hv => absurd hv (hlate v)⟩
    exact ⟨fun _ v hv => absurd hv (hlate v), fun _ => by rw [hb]⟩

/-- Of sessions that are opened in one second none expires, and each finds room until there are as
many as there may be. -/
theorem after_openings {now : Nat} (hclock : ∀ i, (timeline i).now = now) (userId : Nat)
    (address : Option Text) {n : Nat} (hexpiry : now < Accounts.expiry now s.accounts.lifetime)
    (hlive : ∀ x ∈ s.accounts.sessions, x.isLive now)
    (hn : s.accounts.sessions.length + n ≤ Accounts.sessionLimit) :
    let s' := s.after timeline (List.replicate n (.keeping (.openSession userId address)))
    s'.routes = s.routes ∧ s'.accounts.users = s.accounts.users ∧
      s'.accounts.sessions.length = s.accounts.sessions.length + n ∧
      ∀ x ∈ s'.accounts.sessions, x.isLive now := by
  induction n generalizing s with
  | zero => exact ⟨rfl, rfl, rfl, hlive⟩
  | succ n ih =>
    have hpurge : (s.accounts.purge (timeline s.elapsed).now).sessions = s.accounts.sessions := by
      rw [hclock, Accounts.sessions_purge, List.filter_eq_self]
      exact hlive
    obtain ⟨-, ho⟩ := (Accounts.openSession_cases s.accounts (timeline s.elapsed) userId
      address).resolve_left fun hfull => by
        rw [hpurge] at hfull
        omega
    rw [hpurge] at ho
    rw [List.replicate_succ, after_cons]
    have hnext : (s.happen timeline (.keeping (.openSession userId address))).accounts =
        { s.accounts with sessions := s.accounts.sessions ++
          [s.accounts.newSession (timeline s.elapsed) userId address] } :=
      congrArg Prod.snd ho
    obtain ⟨hroutes, husers, hlength, hall⟩ :=
      ih (s := s.happen timeline (.keeping (.openSession userId address)))
        (by rw [hnext]; exact hexpiry)
        (by
          rw [hnext]
          refine List.forall_mem_append.mpr ⟨hlive, List.forall_mem_singleton.mpr ?_⟩
          simpa [Accounts.newSession, Session.isLive, hclock] using hexpiry)
        (by
          rw [hnext, List.length_append, List.length_singleton]
          omega)
    refine ⟨hroutes, husers.trans (by rw [hnext]), ?_, hall⟩
    rw [hlength, hnext, List.length_append, List.length_singleton]
    omega

section Crowded

/-- All happens in one second, and every token is new. -/
def oneSecond (n : Nat) : Moment := ⟨7, Text.decimal n, []⟩

def vacantSite : Site := { routes := addEndpoints [] ⟨['/'], []⟩ {} }

def bob : Account :=
  ({} : Accounts).newAccount (oneSecond 0) "bob".toList "bob@x.org".toList "Passw0rd".toList

def bobSignsUp : Happening := .keeping (.register bob.username bob.email "Passw0rd".toList)

def bobsLogin : Request :=
  ⟨Endpoint.login.method, Endpoint.login.path, [], [],
    Utf8.encode "username=bob&password=Passw0rd".toList⟩

theorem turnsAway_bob (husers : s.accounts.users = [bob])
    (hlength : s.accounts.sessions.length = Accounts.sessionLimit)
    (hlive : ∀ x ∈ s.accounts.sessions, x.isLive 7) : s.TurnsAway oneSecond bobsLogin bob := by
  refine ⟨⟨⟨"Passw0rd".toList, ?_⟩, ?_, rfl⟩, ?_⟩
  · exact ⟨⟨rfl, rfl⟩, by decide +kernel, by decide +kernel, by decide +kernel⟩
  · rw [Accounts.userByName?, husers]
    exact List.find?_cons_of_pos (by simp)
  · have hpurge : (s.accounts.purge (oneSecond (s.elapsed + 2)).now).sessions =
        s.accounts.sessions := List.filter_eq_self.mpr hlive
    exact Nat.le_of_eq (by rw [hpurge, hlength])

/-- Somebody registers, and then as many sessions are opened for him as there may be. -/
theorem exists_crowded : ∃ hs : List Happening,
    let s := vacantSite.after oneSecond hs
    s.routes = vacantSite.routes ∧ s.accounts.users = [bob] ∧
      s.TurnsAway oneSecond bobsLogin bob := by
  have hregister : (vacantSite.happen oneSecond bobSignsUp).accounts = { users := [bob] } := by
    decide +kernel
  -- The number must not be unfolded into so many openings.
  obtain ⟨n, hn⟩ : ∃ n, n = Accounts.sessionLimit := ⟨_, rfl⟩
  have hclock : ∀ i, (oneSecond i).now = 7 := fun _ => rfl
  obtain ⟨hroutes, husers, hlength, hlive⟩ := after_openings
    (s := vacantSite.happen oneSecond bobSignsUp) hclock bob.id none (n := n)
    (by rw [hregister]; decide) (by rw [hregister]; simp) (by rw [hregister, hn]; simp)
  rw [hregister] at husers hlength
  refine ⟨bobSignsUp :: List.replicate n (.keeping (.openSession bob.id none)), hroutes, husers,
    turnsAway_bob husers ?_ hlive⟩
  exact hlength.trans ((Nat.zero_add n).trans hn)

end Crowded

/-- Nobody's session is touched, but the account shows a login that has not been let in. -/
theorem refused_request_changes_nothing_in_crowd :
    ∃ hs : List Happening,
      let s := vacantSite.after oneSecond hs
      let b := (s.respond oneSecond {} bobsLogin).2.accounts
      s.routes = addEndpoints [] ⟨['/'], []⟩ {} ∧
        (s.respond oneSecond {} bobsLogin).1.IsRefusal ∧
        (b.sessions.filter fun x => x.isLive 7) =
          (s.accounts.sessions.filter fun x => x.isLive 7) ∧
        b.users ≠ s.accounts.users := by
  obtain ⟨hs, hroutes, -, hturns⟩ := exists_crowded
  have hrefused : ((vacantSite.after oneSecond hs).respond oneSecond {} bobsLogin).1.IsRefusal := by
    rw [(respond_of_turnsAway hroutes hturns).1]
    decide
  obtain ⟨hlive, hsame, -⟩ := refused_request_changes_nothing_iff hroutes hrefused
  refine ⟨hs, hroutes, hrefused, hlive 7 (Nat.le_refl 7), fun hb => ?_⟩
  have hnoted : 0 = 7 := hsame.mp hb bob hturns
  cases hnoted

/-- Somebody who has never logged in has a last login after he has been turned away. -/
theorem not_forall_refused_request_changes_nothing :
    ¬ ∀ (timeline : Nat → Moment) (pages : Text) (static : StaticRoute) (hs : List Happening)
        (w : Surroundings) (request : Request),
      let s := ({ routes := addEndpoints pages static {} } : Site).after timeline hs
      let b := (s.respond timeline w request).2.accounts
      (s.respond timeline w request).1.IsRefusal → b.users = s.accounts.users ∧
        ∀ now, (timeline (s.elapsed + 2)).now ≤ now →
          (b.sessions.filter fun x => x.isLive now) =
            s.accounts.sessions.filter fun x => x.isLive now := by
  intro hchanges
  obtain ⟨hs, hroutes, -, hturns⟩ := exists_crowded
  obtain ⟨hresponse, hnoted⟩ := respond_of_turnsAway (w := {}) hroutes hturns
  have hrefused : ((vacantSite.after oneSecond hs).respond oneSecond {} bobsLogin).1.IsRefusal := by
    rw [hresponse]
    decide
  have hb : ((vacantSite.after oneSecond hs).respond oneSecond {} bobsLogin).2.accounts.users =
      (vacantSite.after oneSecond hs).accounts.users :=
    (hchanges oneSecond [] ⟨['/'], []⟩ hs {} bobsLogin hrefused).1
  rw [hnoted] at hb
  have hzero := congrArg Account.lastLogin
    ((Accounts.changeFirst_eq_self_iff hturns.found).mp hb)
  cases hzero

end Site
end WebHost
