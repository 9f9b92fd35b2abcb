import WebHost.Proofs.Accounts.LoginHistory
import WebHost.Proofs.Accounts.SessionHistory
import WebHost.Proofs.Site.Guards

/-! Accounts that are switched off. The name and the password open nothing until the account is
switched on again. But the guards ask for a session and for a role and not whether the account is
active, so that its sessions open the guarded places as before. -/
namespace WebHost
open Http

namespace Accounts
variable {a b : Accounts} {m : Moment} {id : Nat}

/-- The account of that number is there and is switched off. -/
def IsOff (a : Accounts) (id : Nat) : Prop := ∃ u, a.userById? id = some u ∧ u.active = false

/-- What an event leaves of the account of a number. -/
theorem userById?_apply (h : a.IsRegular) {u : Account} (hu : a.userById? id = some u) (e : Event) :
    ∃ v, (e.op.apply e.moment a).2.userById? id = some v ∧
      v.active = (e.switch? id).getD u.active := by
  obtain ⟨hmem, rfl⟩ := h.userById?_eq_some_iff.mp hu
  have hname : a.userByName? u.username = some u := h.userByName?_eq_some_iff.mpr ⟨hmem, rfl⟩
  obtain ⟨v, hv, hid, -, -, hactive⟩ := userByName?_apply h hname e
  refine ⟨v, ?_, hactive⟩
  exact (isRegular_apply e.moment e.op h).userById?_eq_some_iff.mpr
    ⟨List.mem_of_find?_eq_some hv, hid⟩

theorem isOff_of_setActive (h : a.IsRegular) (hoff : (a.setActive id false).1) :
    (a.setActive id false).2.IsOff id := by
  obtain ⟨u, hu⟩ := Option.isSome_iff_exists.mp hoff
  obtain ⟨v, hv, hactive⟩ := userById?_apply h hu ⟨⟨0, [], []⟩, .setActive id false⟩
  exact ⟨v, hv, by simpa [Event.switch?] using hactive⟩

/-- An event that does not switch the account on leaves it switched off. -/
theorem IsOff.apply (hoff : a.IsOff id) (h : a.IsRegular) {e : Event} (he : e.switch? id ≠ some true) :
    (e.op.apply e.moment a).2.IsOff id := by
  obtain ⟨u, hu, hu'⟩ := hoff
  obtain ⟨v, hv, hactive⟩ := userById?_apply h hu e
  refine ⟨v, hv, ?_⟩
  cases hs : e.switch? id with
  | none => rw [hactive, hs, Option.getD_none, hu']
  | some active =>
    rw [hactive, hs, Option.getD_some]
    rw [hs] at he
    simpa using he

theorem IsOff.run (hoff : a.IsOff id) (h : a.IsRegular) {es : List Event}
    (hes : ∀ e ∈ es, e.switch? id ≠ some true) : (a.run es).IsOff id := by
  induction es generalizing a with
  | nil => exact hoff
  | cons e es ih =>
    rw [run_cons]
    exact ih (hoff.apply h (hes e List.mem_cons_self)) (isRegular_apply e.moment e.op h)
      fun d hd => hes d (List.mem_cons_of_mem e hd)

/-- Whoever is switched off does not get in by name and password, whatever these are. -/
theorem IsOff.authenticate_ne_ok (hoff : a.IsOff id) (h : a.IsRegular) (m : Moment)
    (username password : Text) : (a.authenticate m username password).1 ≠ .ok id := by
  intro hok
  obtain ⟨u, hu, hu'⟩ := hoff
  rcases authenticate_cases a m username password with ⟨e, ha⟩ | ⟨v, hv, hactive, -, ha⟩
  · rw [ha] at hok
    cases hok
  · rw [ha] at hok
    have hid : v.id = id := Except.ok.inj hok
    have huv : a.userById? id = some v :=
      h.userById?_eq_some_iff.mpr ⟨List.mem_of_find?_eq_some hv, hid⟩
    obtain rfl : u = v := Option.some.inj (hu.symm.trans huv)
    rw [hu'] at hactive
    cases hactive

/-- What becomes of the sessions does not depend on the accounts. -/
theorem sessions_apply_congr {β : Type} (hs : a.sessions = b.sessions) (hl : a.lifetime = b.lifetime)
    (m : Moment) (o : Op β) : (o.apply m a).2.sessions = (o.apply m b).2.sessions := by
  rw [sessions_apply, sessions_apply]
  cases o with
  | openSession userId address =>
    simp only
    rw [sessions_openSession, sessions_openSession, hs, hl]
  | _ => simp only [hs]

theorem sessions_run_congr (hs : a.sessions = b.sessions) (hl : a.lifetime = b.lifetime)
    (es : List Event) : (a.run es).sessions = (b.run es).sessions := by
  induction es generalizing a b with
  | nil => exact hs
  | cons e es ih =>
    rw [run_cons, run_cons]
    exact ih (sessions_apply_congr hs hl e.moment e.op) (by simp [hl])

end Accounts

namespace Access
open Accounts
variable {a b : Accounts}

theorem loginVerdict_congr (h : a.sessions = b.sessions) (m : Moment) (request : Request) :
    loginVerdict a m request = loginVerdict b m request := by
  simp only [loginVerdict, validate, h]

/-- What switching an account off does and what it does not, until the account is switched on again.
Its name opens nothing with any password. But the login guard answers all requests as if nobody had
been switched off: the account's number is given for every request that bears the token of one of
its sessions, opened before or after, that has not expired or been closed; and the other guard asks
for nothing more than the role that the account has. -/
theorem switched_off_account_keeps_sessions {lifetime : Nat} {before after : List Event} {id : Nat}
    (hoff : ((({ lifetime } : Accounts).run before).setActive id false).1)
    (hkept : ∀ e ∈ after, e.switch? id ≠ some true) (m₀ m : Moment) :
    let start : Accounts := { lifetime }
    let es := before ++ ⟨m₀, .setActive id false⟩ :: after
    let a := start.run es
    (∀ username password, (a.authenticate m username password).1 ≠ .ok id) ∧
    (∀ request response, (a.perform m (requireLogin request response)).1 =
      ((start.run (before ++ after)).perform m (requireLogin request response)).1) ∧
    (ClockTo es m.now → FreshTokens es → ∀ request response,
      (a.perform m (requireLogin request response)).1.1 = some id ↔
        ∃ x, OpenIn start es x ∧ x.userId = id ∧ Presents request x.token ∧ m.now < x.expiresAt) ∧
    ∀ request response, (a.perform m (requireAdmin request response)).1.1 = some id ↔
      (a.perform m (requireLogin request response)).1.1 = some id ∧
        ∃ u, a.userById? id = some u ∧ u.role = .admin := by
  intro start es a
  have hbefore : (start.run before).IsRegular := isRegular_run (isRegular_vacant lifetime) before
  have hregular : ((start.run before).setActive id false).2.IsRegular :=
    isRegular_apply m₀ (.setActive id false) hbefore
  have ha : a = ((start.run before).setActive id false).2.run after := by
    rw [show a = start.run es from rfl, run_append, run_cons]
    rfl
  have hstill : a.IsOff id := ha ▸ (isOff_of_setActive hbefore hoff).run hregular hkept
  have hsessions : a.sessions = (start.run (before ++ after)).sessions := by
    have hsame : ((start.run before).setActive id false).2.sessions = (start.run before).sessions := rfl
    rw [ha, run_append]
    exact sessions_run_congr hsame rfl after
  simp only [perform_requireLogin, perform_requireAdmin, outcome_eq_some_iff]
  refine ⟨hstill.authenticate_ne_ok (ha ▸ isRegular_run hregular after) m, fun request response => ?_,
    fun hc hf request response => ?_, fun request response => adminVerdict_eq_ok_iff⟩
  · rw [loginVerdict_congr hsessions]
  · rw [loginVerdict_eq_ok_iff]
    simp only [a, validate_run_eq_some_iff (a := start) rfl hc hf]
    constructor
    · rintro ⟨_, x, ht, ⟨rfl, hx, hlive⟩, hid⟩
      exact ⟨x, hx, hid, ht, hlive⟩
    · rintro ⟨x, hx, hid, ht, hlive⟩
      exact ⟨x.token, x, ht, ⟨rfl, hx, hlive⟩, hid⟩

/-- An administrator has two sessions, is switched off and gets one more. The first is closed, and
the others are used. -/
theorem switched_off_account_keeps_sessions_of_administrator :
    let before : List Event :=
      [⟨⟨1, [], []⟩, .register "bob".toList "b@x.org".toList "Passw0rd".toList⟩,
       ⟨⟨2, [], []⟩, .setRole 1 .admin⟩,
       ⟨⟨3, ['s'], []⟩, .openSession 1 none⟩,
       ⟨⟨4, ['t'], []⟩, .openSession 1 none⟩]
    let after : List Event :=
      [⟨⟨6, ['u'], []⟩, .openSession 1 none⟩, ⟨⟨7, [], []⟩, .closeSession ['s']⟩]
    let es := before ++ ⟨⟨5, [], []⟩, .setActive 1 false⟩ :: after
    let a := ({} : Accounts).run es
    let m : Moment := ⟨8, [], []⟩
    let request (t : Text) : Request :=
      ⟨"GET".toList, "/api/me".toList, [], [⟨authorization, "Bearer ".toList ++ t⟩], []⟩
    ((({} : Accounts).run before).setActive 1 false).1 ∧
      (∀ e ∈ after, e.switch? 1 ≠ some true) ∧ ClockTo es m.now ∧ FreshTokens es ∧
      (a.authenticate m "bob".toList "Passw0rd".toList).1 ≠ .ok 1 ∧
      (a.perform m (requireAdmin (request ['t']) {})).1.1 = some 1 ∧
      (a.perform m (requireAdmin (request ['u']) {})).1.1 = some 1 := by
  intro before after es a m request
  have hoff : ((({} : Accounts).run before).setActive 1 false).1 := by decide
  have hkept : ∀ e ∈ after, e.switch? 1 ≠ some true := by simp [after, Event.switch?]
  have hc : ClockTo es m.now := by simp [ClockTo, es, before, after, m]
  have hf : FreshTokens es := by
    change ([['s'], ['t'], ['u']] : List Text).Nodup
    decide
  obtain ⟨hname, -, hlogin, hadmin⟩ :=
    switched_off_account_keeps_sessions hoff hkept ⟨5, [], []⟩ m
  have hopen {t : Text} (ht : t ≠ ['s']) :
      ∀ m', ⟨m', .closeSession t⟩ ∉ (⟨⟨5, [], []⟩, .setActive 1 false⟩ :: after : List Event) :=
    fun m' h => by
      have hclosed : some t ∈ [none, none, some ['s']] := List.mem_map_of_mem (f := Event.closing?) h
      simp [ht] at hclosed
  have hold : OpenIn {} es ⟨['t'], 1, 4, 3604, none⟩ :=
    ⟨before.take 3, _, ⟨4, ['t'], []⟩, rfl, by decide, rfl, rfl, hopen (by decide)⟩
  have hnew : OpenIn {} es ⟨['u'], 1, 6, 3606, none⟩ :=
    ⟨before ++ [⟨⟨5, [], []⟩, .setActive 1 false⟩], after.tail, ⟨6, ['u'], []⟩, rfl, by decide, rfl, rfl,
      fun m' h => hopen (by decide) m' (.tail _ (List.mem_of_mem_tail h))⟩
  have hrole : ∃ u, a.userById? 1 = some u ∧ u.role = .admin := ⟨_, rfl, by decide⟩
  refine ⟨hoff, hkept, hc, hf, hname _ _, ?_, ?_⟩
  · exact (hadmin _ _).mpr ⟨(hlogin hc hf _ _).mpr ⟨_, hold, rfl, by decide, by decide⟩, hrole⟩
  · exact (hadmin _ _).mpr ⟨(hlogin hc hf _ _).mpr ⟨_, hnew, rfl, by decide, by decide⟩, hrole⟩

/-- Whoever is switched off is not locked out: his session lets him pass. -/
theorem not_forall_switched_off_account_is_refused :
    ¬ ∀ (lifetime : Nat) (before after : List Event) (m₀ m : Moment) (id : Nat),
      ((({ lifetime } : Accounts).run before).setActive id false).1 →
      (∀ e ∈ after, e.switch? id ≠ some true) →
      let a := ({ lifetime } : Accounts).run (before ++ ⟨m₀, .setActive id false⟩ :: after)
      (∀ username password, (a.authenticate m username password).1 ≠ .ok id) ∧
        ∀ request response, (a.perform m (requireLogin request response)).1.1 ≠ some id ∧
          (a.perform m (requireAdmin request response)).1.1 ≠ some id := by
  intro h
  let before : List Event :=
    [⟨⟨1, [], []⟩, .register "bob".toList "b@x.org".toList "Passw0rd".toList⟩,
     ⟨⟨2, ['t'], []⟩, .openSession 1 none⟩]
  let request : Request :=
    ⟨"GET".toList, "/api/me".toList, [], [⟨authorization, "Bearer t".toList⟩], []⟩
  obtain ⟨-, hguards⟩ := h 3600 before [] ⟨3, [], []⟩ ⟨4, [], []⟩ 1 (by decide) (by simp)
  exact (hguards request {}).1 (by decide)

end Access
end WebHost
