import WebHost.Accounts.UsersFile
import WebHost.Proofs.Site.Answers
import WebHost.Proofs.Site.History

/-! Whom a login is for. A session keeps the number of the account that has logged in, and the
account is looked up again by its number; it is the same account exactly if no earlier account has
that number. Registrations give numbers by counting, whatever numbers a users file has given. -/
namespace WebHost

theorem UsersFile.sessions_load (files : Files) (path : Text) (a : Accounts) :
    (load files path a).2.sessions = a.sessions := by
  unfold load
  split <;> rfl

namespace Site
open Http

/-- A site that opens with the accounts of a users file. -/
def opened (files : Files) (path : Text) (lifetime : Nat) (pages : Text) (static : StaticRoute) :
    Site :=
  { accounts := (UsersFile.load files path { lifetime }).2, routes := addEndpoints pages static {} }

variable {timeline : Nat → Moment} {w : Surroundings} {pages : Text} {static : StaticRoute}
  {request : Request} {s : Site} {k id : Nat}

theorem TokenIsFor.userId_eq (h : TokenIsFor timeline k id s) {m : Moment} {x : Session}
    (hx : s.accounts.validate m (timeline k).token = some x) : x.userId = id := by
  have htoken := List.find?_some hx
  rw [Bool.and_eq_true, beq_iff_eq] at htoken
  exact h.2 x (List.mem_of_find?_eq_some hx) htoken.1

/-- Whoever is shown his account with the token is shown the first account with the number. -/
theorem TokenIsFor.answer_me (h : TokenIsFor timeline k id s)
    (hr : s.routes = addEndpoints pages static {}) (he : Endpoint.me.AskedBy request)
    (ht : Access.Presents request (timeline k).token)
    (hok : (s.respond timeline w request).1.status = .ok) :
    ∃ u, s.accounts.userById? id = some u ∧
      (s.respond timeline w request).1 = Endpoint.profile u := by
  rw [Site.answer_me hr he ht] at hok ⊢
  split at hok
  · exact absurd hok (by decide)
  · next x hx =>
    rw [h.userId_eq hx] at hok ⊢
    split at hok
    · exact absurd hok (by decide)
    · next u hu => exact ⟨u, hu, rfl⟩

/-- Whoever passes as administrator with the token passes by the role of the first account with the
number. -/
theorem TokenIsFor.answer_admin (h : TokenIsFor timeline k id s)
    (hr : s.routes = addEndpoints pages static {}) (he : Endpoint.admin.AskedBy request)
    (ht : Access.Presents request (timeline k).token)
    (hok : (s.respond timeline w request).1.status = .ok) :
    ∃ u, s.accounts.userById? id = some u ∧ u.role = .admin := by
  rw [Site.answer_admin hr he ht] at hok
  split at hok
  · exact absurd hok (by decide)
  · next x hx =>
    rw [h.userId_eq hx] at hok
    split at hok
    · exact absurd hok (by decide)
    · next u hu =>
      split at hok
      · next hrole => exact ⟨u, hu, hrole⟩
      · exact absurd hok (by decide)

/-- After a login that shows the number `id` and the token `t`, the sessions with that token are for
that number, and `id` is the number of the account with the name of the login. -/
theorem tokenIsFor_of_login (hr : s.routes = addEndpoints pages static {})
    (hdrawn : TokensDrawn timeline s) {n : Nat} (hfresh : FreshBelow timeline n)
    (he : Endpoint.login.AskedBy request) {name t : Text}
    (hname : request.formValue? "username".toList = some name)
    (h : (s.respond timeline w request).1 = Endpoint.loginAnswer id t)
    (hn : (s.respond timeline w request).2.elapsed ≤ n) :
    t = (timeline (s.elapsed + 2)).token ∧
      TokenIsFor timeline (s.elapsed + 2) id (s.respond timeline w request).2 ∧
      ∃ u, s.accounts.userByName? name = some u ∧ u.id = id := by
  obtain ⟨hu, ht, helapsed, hsessions⟩ := login_cases hr he hname h
  rw [helapsed] at hn
  refine ⟨ht, ⟨by omega, fun x hx hxt => ?_⟩, hu⟩
  rcases hsessions x hx with hx | hx
  · obtain ⟨i, hi, hit⟩ := hdrawn x hx
    have := hfresh i (by omega) (s.elapsed + 2) (by omega) (hit ▸ hxt)
    omega
  · exact hx

/-- A login at a site with the accounts of a users file, after any history. Every later answer that
shows an account to the token shows the account of the login, and every administrator that passes
with the token is that account, exactly if that account was the first with its number at the time of
the login. It is so at all times, if the numbers of the file leave those alone that registrations
give. -/
theorem login_is_for_account_iff {files : Files} {path : Text} {lifetime : Nat}
    {before later : List Happening} {login : Request} {name t : Text} {s' : Site}
    (hs : s = (opened files path lifetime pages static).after timeline before)
    (hlogin : Endpoint.login.AskedBy login)
    (hname : login.formValue? "username".toList = some name)
    (hanswer : (s.respond timeline w login).1 = Endpoint.loginAnswer id t)
    (hs' : s' = (s.respond timeline w login).2.after timeline later)
    (hfresh : FreshBelow timeline s'.elapsed) :
    (Accounts.SoundNumbers
        ((opened files path lifetime pages static).accounts.users.map Account.id) →
      s.accounts.HasOwnNumber name) ∧
    ∀ (w' : Surroundings) (request : Request), Access.Presents request t →
      (s'.respond timeline w' request).1.status = .ok →
      (Endpoint.me.AskedBy request →
        (Endpoint.Shows (s'.respond timeline w' request).1 name ↔ s.accounts.HasOwnNumber name)) ∧
      (Endpoint.admin.AskedBy request →
        ∃ u, s'.accounts.userById? id = some u ∧ u.role = .admin ∧
          (s'.accounts.userByName? name = some u ↔ s.accounts.HasOwnNumber name)) := by
  have hr₀ : (opened files path lifetime pages static).routes = addEndpoints pages static {} := rfl
  have hsessions : (opened files path lifetime pages static).accounts.sessions = [] :=
    UsersFile.sessions_load _ _ _
  have hr : s.routes = addEndpoints pages static {} :=
    hs ▸ (kept_routes _).after hr₀ hr₀ before
  have hr₁ : (s.respond timeline w login).2.routes = addEndpoints pages static {} :=
    (kept_routes _).respond hr hr
  have hr' : s'.routes = addEndpoints pages static {} := hs' ▸ (kept_routes _).after hr₁ hr₁ later
  have hdrawn : TokensDrawn timeline s :=
    hs ▸ kept_tokensDrawn.after hr₀ (by simp [TokensDrawn, hsessions]) before
  -- The token is for the number after the login, and stays so as long as tokens are fresh.
  have helapsed : (s.respond timeline w login).2.elapsed ≤ s'.elapsed :=
    hs' ▸ (kept_le_elapsed _).after hr₁ (Nat.le_refl _) later
  obtain ⟨rfl, htoken, u, hu, rfl⟩ :=
    tokenIsFor_of_login hr hdrawn hfresh hlogin hname hanswer helapsed
  have htoken' : TokenIsFor timeline (s.elapsed + 2) u.id s' :=
    hs' ▸ htoken.after hr₁ later (hs' ▸ hfresh)
  -- The account is the same at the later time, and so is the first with its number.
  have hsame : s.accounts.identities <+: s'.accounts.identities :=
    hs' ▸ (kept_identities _).after hr₁ ((kept_identities _).respond hr (List.prefix_refl _)) later
  obtain ⟨u', hu', hui⟩ := Accounts.userByName?_of_beginning hsame hu
  obtain ⟨hid, -⟩ := Prod.mk.injEq .. ▸ hui
  rw [← Accounts.hasOwnNumber_iff_of_beginning hsame hu]
  refine ⟨fun hsound => ?_, fun w' request ht hok => ⟨fun he => ?_, fun he => ?_⟩⟩
  · rw [Accounts.hasOwnNumber_iff_of_beginning hsame hu]
    exact Accounts.hasOwnNumber_of_soundNumbers (hs ▸ kept_soundNumbers.after hr₀ hsound before) hu
  · obtain ⟨v, hv, hshown⟩ := htoken'.answer_me hr' he ht hok
    rw [hshown, Endpoint.shows_profile_iff, Accounts.hasOwnNumber_iff hu' (hid ▸ hv)]
  · obtain ⟨v, hv, hrole⟩ := htoken'.answer_admin hr' he ht hok
    exact ⟨v, hv, hrole, Accounts.userByName?_eq_some_iff_hasOwnNumber hu' (hid ▸ hv)⟩

/-- A users file with one account, an administrator of this number. -/
def aliceAlone (number : Nat) : Files := fun _ =>
  .ok (.file (Utf8.encode ("[[".toList ++ Text.decimal number ++
    ",\"alice\",\"alice@x.org\",\"\",\"\",0,0,true,\"admin\"]]".toList)))

/-- A moment whose token is its own number. -/
def numbered (n : Nat) : Moment := ⟨0, Text.decimal n, []⟩

theorem freshBelow_numbered (n : Nat) : FreshBelow numbered n := by
  intro i _ j _ h
  have hv := congrArg Text.decimalValue? h
  simpa [numbered] using hv

def asking (e : Endpoint) (headers : Headers) (form : Text) : Request :=
  ⟨e.method, e.path, "HTTP/1.1".toList, headers, Utf8.encode form⟩

def bobRegisters : Happening :=
  .request {} (asking .register [] "username=bob&email=bob@x.org&password=Passw0rd".toList)

def bobLogsIn : Request := asking .login [] "username=bob&password=Passw0rd".toList

/-- Where alice has the first number, bob gets the next, and his token shows him. -/
theorem login_is_for_account_beside_first_number :
    let s := (opened (aliceAlone 1) [] 3600 [] ⟨['/'], []⟩).after numbered [bobRegisters]
    let s' := (s.respond numbered {} bobLogsIn).2.after numbered [bobRegisters]
    (s.respond numbered {} bobLogsIn).1 = Endpoint.loginAnswer 2 ['4'] ∧
      FreshBelow numbered s'.elapsed ∧ s.accounts.HasOwnNumber "bob".toList ∧
      ∀ (w' : Surroundings) (request : Request), Access.Presents request ['4'] →
        (s'.respond numbered w' request).1.status = .ok → Endpoint.me.AskedBy request →
          Endpoint.Shows (s'.respond numbered w' request).1 "bob".toList := by
  intro s s'
  have hanswer : (s.respond numbered {} bobLogsIn).1 = Endpoint.loginAnswer 2 ['4'] := by
    decide +kernel
  have hname : bobLogsIn.formValue? "username".toList = some "bob".toList := by decide +kernel
  have hs' : s' = (s.respond numbered {} bobLogsIn).2.after numbered [bobRegisters] := rfl
  obtain ⟨hown, hlater⟩ := login_is_for_account_iff (s := s) rfl (by decide) hname hanswer hs'
    (freshBelow_numbered _)
  have hown : s.accounts.HasOwnNumber "bob".toList := hown (by decide +kernel)
  refine ⟨hanswer, freshBelow_numbered _, hown, fun w' request ht hok he => ?_⟩
  exact ((hlater w' request ht hok).1 he).mpr hown

/-- Where alice has the second number, bob gets it too, and his token shows alice. -/
theorem not_forall_login_shows_name :
    ¬ ∀ (files : Files) (path : Text) (lifetime count : Nat) (pages : Text) (static : StaticRoute)
        (timeline : Nat → Moment) (before : List Happening) (login request : Request)
        (name t : Text) (id : Nat),
      (UsersFile.load files path { lifetime }).1 = .ok count →
      let s := (opened files path lifetime pages static).after timeline before
      let s' := (s.respond timeline {} login).2
      FreshBelow timeline s'.elapsed →
      Endpoint.login.AskedBy login → login.formValue? "username".toList = some name →
      (s.respond timeline {} login).1 = Endpoint.loginAnswer id t →
      Access.Presents request t → Endpoint.me.AskedBy request →
      (s'.respond timeline {} request).1.status = .ok →
      Endpoint.Shows (s'.respond timeline {} request).1 name := by
  intro h
  let request : Request := asking .me [⟨Access.authorization, "Bearer 4".toList⟩] []
  let alice : Account := ⟨2, "alice".toList, "alice@x.org".toList, [], [], 0, 0, true, .admin⟩
  let s := (opened (aliceAlone 2) [] 3600 [] ⟨['/'], []⟩).after numbered [bobRegisters]
  have hshown : ((s.respond numbered {} bobLogsIn).2.respond numbered {} request).1 =
      Endpoint.profile alice := by decide +kernel
  have hbob := h (aliceAlone 2) [] 3600 1 [] ⟨['/'], []⟩ numbered [bobRegisters] bobLogsIn request
    "bob".toList ['4'] 2 (by decide +kernel) (freshBelow_numbered _) (by decide) (by decide +kernel)
    (by decide +kernel) (by decide +kernel) (by decide) (by rw [hshown]; rfl)
  rw [hshown, Endpoint.shows_profile_iff] at hbob
  exact absurd hbob (by decide)

end Site
end WebHost
