import Mathlib.Data.List.Induction
import Mathlib.Data.List.Perm.Subperm
import WebHost.Proofs.Accounts.Identity

/-! Sessions and the history of a run. A session is valid from its opening until it expires or its
token is closed, whatever else happens and whenever the expired sessions are dropped. -/
namespace WebHost.Accounts

/-- When, for whom and from where an event opens a session, if it does. -/
def Event.opening? : Event → Option (Moment × Nat × Option Text)
  | ⟨m, .openSession userId address⟩ => some (m, userId, address)
  | _ => none

/-- The token that an event closes, if it does. -/
def Event.closing? : Event → Option Text
  | ⟨_, .closeSession token⟩ => some token
  | _ => none

def Event.isCleanup : Event → Bool
  | ⟨_, .cleanup⟩ => true
  | _ => false

/-- `s` has been opened in the run, by an operation that answered its token, and its token has not
been closed since. -/
def OpenIn (a : Accounts) (es : List Event) (s : Session) : Prop :=
  ∃ (before after : List Event) (m : Moment),
    es = before ++ ⟨m, .openSession s.userId s.address⟩ :: after ∧
    ((a.run before).openSession m s.userId s.address).1 = .ok s.token ∧
    s.createdAt = m.now ∧ s.expiresAt = expiry m.now a.lifetime ∧
    ∀ m', ⟨m', .closeSession s.token⟩ ∉ after

/-- The sessions opened and not closed, the expired ones among them, after one more event. -/
def ledgerStep (lifetime : Nat) (ss : List Session) : Event → List Session
  | ⟨m, .openSession userId address⟩ =>
    if sessionLimit ≤ (ss.filter fun s => s.isLive m.now).length then ss
    else ss ++ [⟨m.token, userId, m.now, expiry m.now lifetime, address⟩]
  | ⟨_, .closeSession token⟩ => ss.filter fun s => s.token != token
  | _ => ss

/-- The sessions opened and not closed in a run. Nothing is dropped from it by and by, so that it
does not depend on when the book is cleaned up. -/
def ledger (lifetime : Nat) (es : List Event) : List Session := es.foldl (ledgerStep lifetime) []

theorem ledger_concat (lifetime : Nat) (es : List Event) (e : Event) :
    ledger lifetime (es ++ [e]) = ledgerStep lifetime (ledger lifetime es) e := by
  simp [ledger]

theorem isLive_of_le {s : Session} {now later : Nat} (h : now ≤ later) (hs : s.isLive later) :
    s.isLive now := by
  simp only [Session.isLive, decide_eq_true_eq] at *
  omega

theorem filter_isLive_filter_isLive {now later : Nat} (h : now ≤ later) (ss : List Session) :
    (ss.filter fun s => s.isLive now).filter (fun s => s.isLive later) =
      ss.filter fun s => s.isLive later := by
  rw [List.filter_filter]
  refine List.filter_congr fun s _ => ?_
  rw [Bool.eq_iff_iff, Bool.and_eq_true]
  exact ⟨fun hs => hs.1, fun hs => ⟨hs, isLive_of_le h hs⟩⟩

/-- The book and the ledger hold the same live sessions at every moment from `now` on. -/
def Tallies (now : Nat) (a : Accounts) (ss : List Session) : Prop :=
  ∀ later, now ≤ later →
    (a.sessions.filter fun s => s.isLive later) = ss.filter fun s => s.isLive later

theorem tallies_purge {now later : Nat} {a : Accounts} {ss : List Session} (h : Tallies now a ss)
    (hl : now ≤ later) : Tallies later (a.purge later) ss := by
  intro t ht
  rw [sessions_purge, filter_isLive_filter_isLive ht, h t (by omega)]

theorem tallies_of_le {now later : Nat} {a : Accounts} {ss : List Session} (h : Tallies now a ss)
    (hl : now ≤ later) : Tallies later a ss :=
  fun t ht => h t (by omega)

/-- Every event keeps the book and the ledger in step. -/
theorem tallies_step {now : Nat} {a : Accounts} {ss : List Session} (h : Tallies now a ss)
    (e : Event) (he : now ≤ e.moment.now) :
    Tallies e.moment.now (e.op.apply e.moment a).2 (ledgerStep a.lifetime ss e) := by
  obtain ⟨m, o⟩ := e
  cases o with
  | openSession userId address =>
    have hp := tallies_purge h he
    have hlen : (a.purge m.now).sessions.length = (ss.filter fun s => s.isLive m.now).length := by
      rw [sessions_purge, h m.now he]
    rcases openSession_cases a m userId address with ⟨hfull, ho⟩ | ⟨hroom, ho⟩
    · rw [hlen] at hfull
      simp only [Op.apply, ho, ledgerStep, if_pos hfull]
      exact hp
    · rw [hlen] at hroom
      simp only [Op.apply, ho, ledgerStep, if_neg (Nat.not_le.mpr hroom)]
      intro t ht
      rw [List.filter_append, List.filter_append, hp t ht]
      rfl
  | closeSession token =>
    intro t ht
    have hcomm (xs : List Session) : (xs.filter fun s => s.token != token).filter
        (fun s => s.isLive t) = (xs.filter fun s => s.isLive t).filter fun s => s.token != token := by
      simp only [List.filter_filter, Bool.and_comm]
    simp only [sessions_apply, ledgerStep, hcomm, h t (Nat.le_trans he ht)]
  | cleanup =>
    intro t ht
    simp only [sessions_apply, ledgerStep, filter_isLive_filter_isLive ht, h t (Nat.le_trans he ht)]
  | _ =>
    intro t ht
    simp only [sessions_apply, ledgerStep, h t (Nat.le_trans he ht)]

/-- A whole run keeps the book and the ledger in step. -/
theorem tallies_run {a : Accounts} (ha : a.sessions = []) {es : List Event} {now : Nat}
    (hc : ClockTo es now) : Tallies now (a.run es) (ledger a.lifetime es) := by
  induction es using List.reverseRecOn generalizing now with
  | nil => exact fun t _ => by simp [ledger, ha]
  | append_singleton es e ih =>
    obtain ⟨hes, he⟩ := clockTo_concat_iff.mp hc
    have hstep := tallies_step (ih hes) e (Nat.le_refl _)
    rw [lifetime_run] at hstep
    rw [run_concat, ledger_concat]
    exact tallies_of_le hstep he

theorem length_purge_run {a : Accounts} (ha : a.sessions = []) {es : List Event} {now : Nat}
    (hc : ClockTo es now) :
    ((a.run es).purge now).sessions.length =
      ((ledger a.lifetime es).filter fun s => s.isLive now).length := by
  rw [sessions_purge, tallies_run ha hc now (Nat.le_refl _)]

theorem eq_open_iff {e : Event} {m : Moment} {userId : Nat} {address : Option Text} :
    e = ⟨m, .openSession userId address⟩ ↔ e.opening? = some (m, userId, address) := by
  constructor
  · rintro rfl
    rfl
  · obtain ⟨m', o⟩ := e
    cases o <;> simp_all [Event.opening?]

theorem forall_ne_close_iff {e : Event} {token : Text} :
    (∀ m, e ≠ ⟨m, .closeSession token⟩) ↔ e.closing? ≠ some token := by
  constructor
  · intro h hc
    obtain ⟨m, o⟩ := e
    cases o <;> simp_all [Event.closing?]
  · rintro h m rfl
    exact h rfl

/-- One more event leaves the open sessions open unless it closes them, and may open one. -/
theorem openIn_concat_iff {a : Accounts} {es : List Event} {e : Event} {s : Session} :
    OpenIn a (es ++ [e]) s ↔
      (OpenIn a es s ∧ e.closing? ≠ some s.token) ∨
        ∃ m, e.opening? = some (m, s.userId, s.address) ∧
          ((a.run es).openSession m s.userId s.address).1 = .ok s.token ∧
          s.createdAt = m.now ∧ s.expiresAt = expiry m.now a.lifetime := by
  simp only [← forall_ne_close_iff, ← eq_open_iff]
  constructor
  · rintro ⟨before, after, m, hsplit, hok, hcreated, hexpires, hclosed⟩
    rcases List.eq_nil_or_concat after with rfl | ⟨after, last, rfl⟩
    · obtain ⟨rfl, he⟩ := List.append_inj' hsplit rfl
      exact .inr ⟨m, by simpa using he, hok, hcreated, hexpires⟩
    · rw [List.concat_eq_append] at hsplit hclosed
      rw [← List.cons_append, ← List.append_assoc] at hsplit
      obtain ⟨rfl, he⟩ := List.append_inj' hsplit rfl
      obtain rfl : e = last := by simpa using he
      refine .inl ⟨⟨before, after, m, rfl, hok, hcreated, hexpires, fun m' h => ?_⟩, fun m' h => ?_⟩
      · exact hclosed m' (List.mem_append_left _ h)
      · exact hclosed m' (by simp [h])
  · rintro (⟨⟨before, after, m, rfl, hok, hcreated, hexpires, hclosed⟩, he⟩ |
      ⟨m, rfl, hok, hcreated, hexpires⟩)
    · refine ⟨before, after ++ [e], m, by simp, hok, hcreated, hexpires, fun m' h => ?_⟩
      rcases List.mem_append.mp h with h | h
      · exact hclosed m' h
      · exact he m' (List.mem_singleton.mp h).symm
    · exact ⟨es, [], m, rfl, hok, hcreated, hexpires, by simp⟩

/-- The ledger is the history: it holds the sessions that are open in the run. -/
theorem mem_ledger_iff {a : Accounts} (ha : a.sessions = []) {es : List Event} {now : Nat}
    (hc : ClockTo es now) {s : Session} : s ∈ ledger a.lifetime es ↔ OpenIn a es s := by
  induction es using List.reverseRecOn generalizing now with
  | nil =>
    simp only [ledger, List.foldl_nil, List.not_mem_nil, false_iff]
    rintro ⟨before, after, m, h, -⟩
    simp at h
  | append_singleton es e ih =>
    obtain ⟨hes, -⟩ := clockTo_concat_iff.mp hc
    rw [ledger_concat, openIn_concat_iff]
    have ih := ih hes
    obtain ⟨m, o⟩ := e
    cases o with
    | openSession userId address =>
      have hlen := length_purge_run ha hes
      rcases openSession_cases (a.run es) m userId address with ⟨hfull, ho⟩ | ⟨hroom, ho⟩
      · rw [hlen] at hfull
        simp only [ledgerStep, if_pos hfull, ih, Event.closing?, Event.opening?]
        constructor
        · exact fun h => .inl ⟨h, by simp⟩
        · rintro (⟨h, -⟩ | ⟨m', he, hok, -⟩)
          · exact h
          · obtain ⟨rfl, rfl, rfl⟩ : m = m' ∧ userId = s.userId ∧ address = s.address := by
              simpa using he
            simp [ho] at hok
      · rw [hlen] at hroom
        simp only [ledgerStep, if_neg (Nat.not_le.mpr hroom), List.mem_append, ih,
          List.mem_singleton, Event.closing?, Event.opening?]
        constructor
        · rintro (h | rfl)
          · exact .inl ⟨h, by simp⟩
          · exact .inr ⟨m, rfl, by rw [ho], rfl, rfl⟩
        · rintro (⟨h, -⟩ | ⟨m', he, hok, hcreated, hexpires⟩)
          · exact .inl h
          · obtain ⟨rfl, rfl, rfl⟩ : m = m' ∧ userId = s.userId ∧ address = s.address := by
              simpa using he
            rw [ho, Except.ok.injEq] at hok
            right
            rw [hok, ← hexpires, ← hcreated]
    | closeSession token =>
      simp only [ledgerStep, List.mem_filter, ih, Event.closing?, Event.opening?, bne_iff_ne,
        ne_eq, Option.some.injEq, reduceCtorEq, false_and, exists_false, or_false,
        eq_comm (a := s.token)]
    | _ => simp [ledgerStep, ih, Event.closing?, Event.opening?]

theorem mem_live_ledger_iff {a : Accounts} (ha : a.sessions = []) {es : List Event} {now : Nat}
    (hc : ClockTo es now) {s : Session} :
    s ∈ (ledger a.lifetime es).filter (fun s => s.isLive now) ↔
      OpenIn a es s ∧ now < s.expiresAt := by
  rw [List.mem_filter, mem_ledger_iff ha hc, Session.isLive, decide_eq_true_eq]

/-- No token is offered to two openings. -/
def FreshTokens (es : List Event) : Prop :=
  ((es.filterMap Event.opening?).map fun o => o.1.token).Nodup

theorem tokens_ledger_sublist (lifetime : Nat) (es : List Event) :
    ((ledger lifetime es).map Session.token).Sublist
      ((es.filterMap Event.opening?).map fun o => o.1.token) := by
  induction es using List.reverseRecOn with
  | nil => exact List.Sublist.refl _
  | append_singleton es e ih =>
    rw [ledger_concat, List.filterMap_append, List.map_append]
    obtain ⟨m, o⟩ := e
    cases o with
    | openSession userId address =>
      simp only [ledgerStep]
      split
      · exact ih.trans (List.sublist_append_left _ _)
      · rw [List.map_append]
        exact ih.append_right _
    | closeSession token =>
      exact ((List.filter_sublist.map _).trans ih).trans (List.sublist_append_left _ _)
    | _ => exact ih.trans (List.sublist_append_left _ _)

theorem nodup_tokens_ledger {es : List Event} (hf : FreshTokens es) (lifetime : Nat) :
    ((ledger lifetime es).map Session.token).Nodup :=
  hf.sublist (tokens_ledger_sublist lifetime es)

theorem ledger_filter_not_isCleanup (lifetime : Nat) (es : List Event) :
    ledger lifetime (es.filter fun e => ! e.isCleanup) = ledger lifetime es := by
  rw [ledger, ledger, List.foldl_filter]
  congr 1
  funext ss e
  obtain ⟨m, o⟩ := e
  cases o <;> rfl

theorem validate_run_eq {a : Accounts} (ha : a.sessions = []) {es : List Event} {m : Moment}
    (hc : ClockTo es m.now) (token : Text) :
    (a.run es).validate m token =
      ((ledger a.lifetime es).filter fun s => s.isLive m.now).find? fun s => s.token == token := by
  rw [validate_eq_find?, tallies_run ha hc m.now (Nat.le_refl _)]

theorem validate_run_eq_some_iff {a : Accounts} (ha : a.sessions = []) {es : List Event} {m : Moment}
    (hc : ClockTo es m.now) (hf : FreshTokens es) {token : Text} {s : Session} :
    (a.run es).validate m token = some s ↔
      s.token = token ∧ OpenIn a es s ∧ m.now < s.expiresAt := by
  have hlive : (((ledger a.lifetime es).filter fun s => s.isLive m.now).map Session.token).Nodup :=
    (nodup_tokens_ledger hf _).sublist (List.filter_sublist.map _)
  rw [validate_run_eq ha hc, find?_eq_some_iff_of_nodup_map hlive, mem_live_ledger_iff ha hc, and_comm]

theorem openSession_run_eq_error_iff {a : Accounts} (ha : a.sessions = []) {es : List Event}
    {m : Moment} (hc : ClockTo es m.now) (hf : FreshTokens es) (userId : Nat)
    (address : Option Text) :
    ((a.run es).openSession m userId address).1 = .error .tooManySessions ↔
      ∃ ss : List Session, ss.Nodup ∧ sessionLimit ≤ ss.length ∧
        ∀ s ∈ ss, OpenIn a es s ∧ m.now < s.expiresAt := by
  have hmem {s : Session} := mem_live_ledger_iff ha hc (s := s)
  have hfull : ((a.run es).openSession m userId address).1 = .error .tooManySessions ↔
      sessionLimit ≤ ((ledger a.lifetime es).filter fun s => s.isLive m.now).length := by
    rw [← length_purge_run ha hc]
    rcases openSession_cases (a.run es) m userId address with ⟨h, ho⟩ | ⟨h, ho⟩
    · simpa [ho] using h
    · simpa [ho] using h
  rw [hfull]
  constructor
  · intro h
    exact ⟨_, (nodup_tokens_ledger hf _).of_map.filter _, h, fun s hs => hmem.mp hs⟩
  · rintro ⟨ss, hn, hl, hss⟩
    have hsub : ss ⊆ (ledger a.lifetime es).filter fun s => s.isLive m.now :=
      fun s hs => hmem.mpr (hss s hs)
    exact Nat.le_trans hl (List.subperm_of_subset hn hsub).length_le

end WebHost.Accounts
