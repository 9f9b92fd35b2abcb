import WebHost.Proofs.Accounts.Regular
import WebHost.Proofs.Http.FormSpelling
import WebHost.Proofs.Http.Printing
import WebHost.Proofs.Json.Document
import WebHost.Proofs.Site.Framing
import WebHost.Proofs.Site.Login
import WebHost.Proofs.Site.Requests

/-! Signing up, from the bytes of the requests to the bytes of the answers. Whoever has registered
can log in, and the token of the login shows the account as it has been registered, whatever other
requests come in between. -/
namespace WebHost
open Http

/-- In forms where no key stands twice, the order of the fields makes no difference. -/
theorem Http.Form.get?_of_perm {form fields : List (Text × Text)} (hp : form.Perm fields)
    (hn : (fields.map Prod.fst).Nodup) {key value : Text} (h : (key, value) ∈ fields) :
    Form.get? form key = some value := by
  have hn' : (form.map Prod.fst).Nodup := (hp.map Prod.fst).nodup_iff.mpr hn
  have hfind := Accounts.find?_of_nodup_map hn' (hp.mem_iff.mpr h)
  rw [Form.get?, hfind]
  rfl

theorem Access.bearerToken?_append {t : Text} (hne : t ≠ []) (ht : Text.IsTrimmed t) :
    bearerToken? ("Bearer ".toList ++ t) = some t := by
  rw [bearerToken?, Text.after?_append, Option.map_some, Text.trim_of_isTrimmed ht]
  simp [hne]

theorem Access.presents_of_header? {request : Request} {t : Text}
    (ht : t.length = Credentials.tokenLength ∧ ∀ c ∈ t, c.isAlphanum)
    (h : request.header? authorization = some ("Bearer ".toList ++ t)) : Presents request t := by
  have hne : t ≠ [] := List.ne_nil_of_length_pos (by rw [ht.1]; decide)
  rw [Presents, h, Option.bind_some]
  exact bearerToken?_append hne
    (Text.isTrimmed_of_forall fun c hc => Text.isBlank_of_isAlphanum (ht.2 c hc))

/-- The request is for the endpoint and carries these fields, in any order and any spelling. -/
structure Endpoint.PostedBy (e : Endpoint) (limit : Nat) (fields : List (Text × Text))
    (request : Request) : Prop where
  whole : request.IsWhole limit
  asked : e.AskedBy request
  body : ∃ form t, form.Perm fields ∧ Form.SpellsForm form t ∧ request.body = Utf8.encode t

theorem Endpoint.PostedBy.formValue? {e : Endpoint} {limit : Nat} {fields : List (Text × Text)}
    {request : Request} (h : e.PostedBy limit fields request) (hn : (fields.map Prod.fst).Nodup)
    {key value : Text} (hmem : (key, value) ∈ fields) : request.formValue? key = some value := by
  obtain ⟨form, t, hp, ht, hbody⟩ := h.body
  rw [Request.formValue?, Request.form, hbody, Utf8.decodeLossy_encode, Form.parse_of_spellsForm ht]
  exact Form.get?_of_perm hp hn hmem

/-- The fields of a registration. -/
def Endpoint.registration (username email password : Text) : List (Text × Text) :=
  [("username".toList, username), ("email".toList, email), ("password".toList, password)]

/-- The fields of a login. -/
def Endpoint.credentials (username password : Text) : List (Text × Text) :=
  [("username".toList, username), ("password".toList, password)]

theorem Endpoint.PostedBy.formValue?_registration {e : Endpoint} {limit : Nat} {request : Request}
    {username email password : Text}
    (h : e.PostedBy limit (Endpoint.registration username email password) request) :
    request.formValue? "username".toList = some username ∧
      request.formValue? "email".toList = some email ∧
      request.formValue? "password".toList = some password := by
  have hkeys : ((Endpoint.registration username email password).map Prod.fst).Nodup := by
    show ["username".toList, "email".toList, "password".toList].Nodup
    decide
  exact ⟨h.formValue? hkeys (by simp [Endpoint.registration]),
    h.formValue? hkeys (by simp [Endpoint.registration]),
    h.formValue? hkeys (by simp [Endpoint.registration])⟩

theorem Endpoint.PostedBy.formValue?_credentials {e : Endpoint} {limit : Nat} {request : Request}
    {username password : Text}
    (h : e.PostedBy limit (Endpoint.credentials username password) request) :
    request.formValue? "username".toList = some username ∧
      request.formValue? "password".toList = some password := by
  have hkeys : ((Endpoint.credentials username password).map Prod.fst).Nodup := by
    show ["username".toList, "password".toList].Nodup
    decide
  exact ⟨h.formValue? hkeys (by simp [Endpoint.credentials]),
    h.formValue? hkeys (by simp [Endpoint.credentials])⟩

namespace Site

/-- A site that opens without accounts. -/
def vacant (lifetime : Nat) (pages : Text) (static : StaticRoute) : Site :=
  { accounts := { lifetime }, routes := addEndpoints pages static {} }

variable {timeline : Nat → Moment} {w : Surroundings} {pages : Text} {static : StaticRoute}
  {request : Request} {s : Site} {limit lifetime : Nat}

/-- What a connection is sent in return for the bytes of a request, and the site after it. -/
def receive (timeline : Nat → Moment) (w : Surroundings) (limit : Nat) (raw : Bytes) (s : Site) :
    Except IoError (List Bytes) × Site :=
  Connection.answer (m := StateM Site) (fun request s => s.respond timeline w request) limit
    (.ok raw) s

theorem receive_of_parse {raw : Bytes} (h : Request.parse limit raw = .ok request) :
    s.receive timeline w limit raw =
      (.ok [(Connection.closing (s.respond timeline w request).1).toBytes],
        (s.respond timeline w request).2) := by
  simp only [receive, Connection.answer, h]
  rfl

/-- The site answers these bytes with one piece. Its head shows the status and that the body is JSON,
and the body that it frames is an object that has these members. -/
def Answers (s : Site) (timeline : Nat → Moment) (w : Surroundings) (limit : Nat) (raw : Bytes)
    (status : Status) (members : List (Text × Json.Scalar)) : Prop :=
  ∃ written body, (s.receive timeline w limit raw).1 = .ok [written] ∧
    Frames (answerHead status "application/json".toList body.length) body written ∧
    Json.Value.parse body = some (.object (members.map fun m => (some m.1, m.2.value)))

theorem answers_of_respond {status : Status} {members : List (Text × Json.Scalar)}
    (hw : request.IsWhole limit)
    (h : (s.respond timeline w request).1 = Endpoint.object status members) :
    s.Answers timeline w limit request.toBytes status members := by
  have hjson : "application/json".toList ∈ contentTypes := by decide
  refine ⟨(Connection.closing (Endpoint.object status members)).toBytes,
    Utf8.encode (Json.printObject members), ?_, (frames_closing_typed status hjson _).1,
    (Json.writes_printObject members).parse⟩
  rw [receive_of_parse (Request.parse_toBytes_of_isWhole hw), h]

theorem kept_isRegular : Kept timeline fun s => s.accounts.IsRegular where
  op _ _ o h := Accounts.isRegular_apply _ o h
  tick _ h := h

theorem kept_lifetime : Kept timeline fun s => s.accounts.lifetime = lifetime where
  op _ _ o h := (Accounts.lifetime_apply _ _ o).trans h
  tick _ h := h

/-- What holds of a site that has opened without accounts, whatever has happened there. -/
structure Orderly (timeline : Nat → Moment) (lifetime : Nat) (pages : Text) (static : StaticRoute)
    (s : Site) : Prop where
  routes : s.routes = addEndpoints pages static {}
  regular : s.accounts.IsRegular
  drawn : TokensDrawn timeline s
  lifetime : s.accounts.lifetime = lifetime

theorem orderly_vacant : (vacant lifetime pages static).Orderly timeline lifetime pages static where
  routes := rfl
  regular := Accounts.isRegular_vacant lifetime
  drawn _ hx := absurd hx List.not_mem_nil
  lifetime := rfl

theorem Orderly.after (h : s.Orderly timeline lifetime pages static) (xs : List Happening) :
    (s.after timeline xs).Orderly timeline lifetime pages static where
  routes := (kept_routes _).after h.routes h.routes xs
  regular := kept_isRegular.after h.routes h.regular xs
  drawn := kept_tokensDrawn.after h.routes h.drawn xs
  lifetime := kept_lifetime.after h.routes h.lifetime xs

theorem Orderly.respond (h : s.Orderly timeline lifetime pages static) (w : Surroundings)
    (request : Request) :
    (s.respond timeline w request).2.Orderly timeline lifetime pages static :=
  h.after [.request w request]

/-- An account is still there after any requests, as it was but for its last login. -/
theorem exists_account_afterRequests (hr : s.routes = addEndpoints pages static {}) {u : Account}
    (hu : u ∈ s.accounts.users) (rs : List (Surroundings × Request)) :
    ∃ v ∈ (s.afterRequests timeline rs).accounts.users, v.settled = u.settled := by
  have hkept : s.accounts.users.map Account.settled <+:
      (s.afterRequests timeline rs).accounts.users.map Account.settled :=
    KeptBy.afterRequests (fun _ _ => keptBy_settled s.accounts) hr List.prefix_rfl
  exact List.mem_map.mp (hkept.subset (List.mem_map_of_mem hu))

/-- Whoever has the password of an account can log in after any requests, as long as there is room
for a session, and the login opens one for the account. -/
theorem respond_login_afterRequests (h : s.Orderly timeline lifetime pages static)
    (hclock : ∀ i j, i ≤ j → (timeline i).now ≤ (timeline j).now)
    {u : Account} (hu : u ∈ s.accounts.users) (hactive : u.active) {password : Text}
    (hverify : Credentials.verify password u.salt u.passwordHash)
    {n : Nat} (hn : n ≤ s.elapsed) {rs : List (Surroundings × Request)}
    (hroom : (s.accounts.purge (timeline n).now).sessions.length + rs.length <
      Accounts.sessionLimit)
    {s' : Site} (hs' : s' = s.afterRequests timeline rs)
    {opening : Moment} (hopening : opening = timeline (s'.elapsed + 2))
    (he : Endpoint.login.AskedBy request)
    (hname : request.formValue? "username".toList = some u.username)
    (hpassword : request.formValue? "password".toList = some password) :
    ∃ s'' address,
      s'.respond timeline w request = (Endpoint.loginAnswer u.id opening.token, s'') ∧
      ⟨opening.token, u.id, opening.now, Accounts.expiry opening.now lifetime, address⟩ ∈
        s''.accounts.sessions := by
  have h' : s'.Orderly timeline lifetime pages static := hs' ▸ h.after _
  obtain ⟨v, hv, hvu⟩ : ∃ v ∈ s'.accounts.users, v.settled = u.settled :=
    hs' ▸ exists_account_afterRequests h.routes hu rs
  obtain ⟨hid, husername, -, hhash, hsalt, -, hsame, -⟩ := Account.settled_eq_iff.mp hvu
  rw [← hsame] at hactive
  rw [← hsalt, ← hhash] at hverify
  have hfound : s'.accounts.userByName? u.username = some v :=
    h'.regular.userByName?_eq_some_iff.mpr ⟨hv, husername⟩
  obtain ⟨a, ha, hsessions, hlifetime⟩ : ∃ a : Accounts,
      s'.accounts.authenticate (timeline (s'.elapsed + 1)) u.username password = (.ok v.id, a) ∧
        a.sessions = s'.accounts.sessions ∧ a.lifetime = s'.accounts.lifetime :=
    ⟨_, Accounts.authenticate_of_verify hfound hactive hverify _, rfl, rfl⟩
  have hfree : (a.purge opening.now).sessions.length < Accounts.sessionLimit := by
    have helapsed : s.elapsed ≤ s'.elapsed :=
      hs' ▸ (kept_le_elapsed _).after h.routes (Nat.le_refl _) _
    have hnow : (timeline n).now ≤ opening.now := hopening ▸ hclock n _ (by omega)
    have hmost := length_purge_afterRequests timeline h.routes rs hnow
    rw [← hs', Accounts.sessions_purge s'.accounts, ← hsessions, ← Accounts.sessions_purge] at hmost
    omega
  rw [respond_login h'.routes he hname hpassword, ha, ← hopening, ← hid, ← h'.lifetime, ← hlifetime]
  rcases Accounts.openSession_cases a opening v.id (request.header? "X-Forwarded-For".toList) with
    ⟨hfull, -⟩ | ⟨-, ho⟩
  · omega
  · simp only [ho]
    exact ⟨_, _, rfl, List.mem_append_right _ (List.mem_singleton.mpr rfl)⟩

/-- The token of a session shows the account that it is for, whatever other requests have been
answered, as long as none logs it out, no token is drawn again and the session has not expired. -/
theorem respond_me_afterRequests (h : s.Orderly timeline lifetime pages static)
    (hclock : ∀ i j, i ≤ j → (timeline i).now ≤ (timeline j).now)
    {u : Account} (hu : u ∈ s.accounts.users) {k : Nat} (hk : TokenIsFor timeline k u.id s)
    {x : Session} (hx : x ∈ s.accounts.sessions) (hxt : x.token = (timeline k).token)
    {rs : List (Surroundings × Request)}
    (hkept : ∀ r ∈ rs, Endpoint.logout.AskedBy r.2 → ¬ Access.Presents r.2 x.token)
    {s' : Site} (hs' : s' = s.afterRequests timeline rs) (hfresh : FreshBelow timeline s'.elapsed)
    (hl : x.isLive (timeline (s'.elapsed + 1)).now) (he : Endpoint.me.AskedBy request)
    (hp : Access.Presents request x.token) :
    ∃ v : Account, v.settled = u.settled ∧
      (s'.respond timeline w request).1 = Endpoint.profile v := by
  subst hs'
  have h' : (s.afterRequests timeline rs).Orderly timeline lifetime pages static := h.after _
  obtain ⟨v, hv, hvu⟩ : ∃ v ∈ (s.afterRequests timeline rs).accounts.users, v.settled = u.settled :=
    exists_account_afterRequests h.routes hu rs
  have hfor : TokenIsFor timeline k v.id (s.afterRequests timeline rs) :=
    (Account.settled_eq_iff.mp hvu).1 ▸ hk.after h.routes _ hfresh
  have hlive : ∀ i < (s.afterRequests timeline rs).elapsed, x.isLive (timeline i).now :=
    fun i hi => Accounts.isLive_of_le (hclock i _ (by omega)) hl
  have hsession : x ∈ (s.afterRequests timeline rs).accounts.sessions :=
    KeptBy.afterRequests (fun r hr => keptBy_session hlive (hkept r hr)) h.routes (fun _ => hx)
      (Nat.le_refl _)
  have hvalid : ∃ y, (s.afterRequests timeline rs).accounts.validate
      (timeline ((s.afterRequests timeline rs).elapsed + 1)) (timeline k).token = some y := by
    rw [← Option.isSome_iff_exists, Accounts.validate, List.find?_isSome]
    exact ⟨x, hsession, by simp [hxt, hl]⟩
  obtain ⟨y, hy⟩ := hvalid
  refine ⟨v, hvu, ?_⟩
  rw [answer_me h'.routes he (hxt ▸ hp), hy]
  simp only [hfor.userId_eq hy, h'.regular.userById?_eq_some_iff.mpr ⟨hv, rfl⟩]

/-- A registration that nothing speaks against adds the account. -/
theorem respond_register_of_valid (h : s.Orderly timeline lifetime pages static)
    {username email password : Text} (hvalid : Credentials.isUsername username ∧
      Credentials.isEmail email ∧ Credentials.isStrongPassword password)
    (hfree : ∀ u ∈ s.accounts.users, u.username ≠ username)
    (hroom : s.accounts.users.length < Accounts.userLimit)
    (hposted : Endpoint.register.PostedBy limit (Endpoint.registration username email password)
      request) :
    ∃ s', s.respond timeline w request =
        (Endpoint.object .created [("id".toList, .number (s.accounts.users.length + 1)),
          ("username".toList, .text username)], s') ∧
      s.accounts.newAccount (timeline (s.elapsed + 1)) username email password ∈
        s'.accounts.users ∧
      s'.accounts.sessions = s.accounts.sessions ∧ s.elapsed ≤ s'.elapsed := by
  obtain ⟨hname, hemail, hpassword⟩ := hposted.formValue?_registration
  rw [respond_register h.routes hposted.asked hname hemail hpassword,
    Accounts.register_of_valid hvalid.1 hvalid.2.1 hvalid.2.2 hfree hroom]
  exact ⟨_, rfl, List.mem_append_right _ (List.mem_singleton.mpr rfl), rfl, Nat.le_add_right _ _⟩

/-- One second after the other, each with a token of one letter. -/
def lettered (n : Nat) : Moment :=
  ⟨n, List.replicate Credentials.tokenLength (Char.ofNat (97 + n % 26)), []⟩

theorem token_lettered (n : Nat) : (lettered n).token.length = Credentials.tokenLength ∧
    ∀ c ∈ (lettered n).token, c.isAlphanum := by
  have hall : ∀ k < 26, (Char.ofNat (97 + k)).isAlphanum := by decide
  refine ⟨List.length_replicate, fun c hc => ?_⟩
  rw [List.eq_of_mem_replicate hc]
  exact hall _ (Nat.mod_lt _ (by decide))

theorem freshBelow_lettered {n : Nat} (h : n ≤ 26) : FreshBelow lettered n := by
  intro i hi j hj he
  have hall : ∀ i < 26, ∀ j < 26, Char.ofNat (97 + i) = Char.ofNat (97 + j) → i = j := by decide
  have hc : Char.ofNat (97 + i % 26) = Char.ofNat (97 + j % 26) := by
    simpa [lettered, Credentials.tokenLength] using he
  have := hall (i % 26) (by omega) (j % 26) (by omega) hc
  omega

end Site
end WebHost
