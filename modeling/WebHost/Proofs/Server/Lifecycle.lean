import WebHost.Server.Lifecycle

/-! Stop requests under every order of steps. After a request the server counts as running only as
long as the first caller has yet to unmark it, or until serving begins and sees the request. Once it
is unmarked, the loop goes on only as long as that caller is on its way to wake it, or has left a
connection that is queued or in hand. So nobody waits for a connection that will not come. -/
namespace WebHost

/-- Between two connections, or busy with one. -/
@[grind] def Serving.inLoop : Serving → Bool
  | .accept | .checkRunning _ | .checkRequest _ | .hand => true
  | _ => false

namespace Lifecycle

/-- All calls for a stop that were made have returned. -/
def AllReturned (l : Lifecycle) : Prop := ∀ s ∈ l.stops, s = .returned

/-- How things stand until a stop is requested. -/
structure Untouched (l : Lifecycle) : Prop where
  callers : ∀ s ∈ l.stops, s = .request
  running_iff : l.running ↔ l.serving = .begin ∨ l.serving.inLoop
  late : l.late = 0

/-- The first caller has yet to unmark the server, or the serving thread will. -/
@[grind] def Unmarking (l : Lifecycle) : Prop :=
  .unmarkRunning ∈ l.stops ∨ l.serving = .begin ∨ l.serving = .unmarkRunning

/-- The first caller has yet to connect, or a connection is there that leads to the next check. -/
@[grind] def Waking (l : Lifecycle) : Prop :=
  .readAddress ∈ l.stops ∨ .wake ∈ l.stops ∨ 0 < l.queued ∨ ∃ held, l.serving = .checkRunning held

/-- What holds whatever steps have been taken. -/
structure Sound (l : Lifecycle) : Prop where
  listening_iff : l.listening ↔ l.serving ≠ .openListener ∧ l.serving ≠ .finished
  hasAddress : l.serving = .markRunning ∨ l.serving = .begin ∨ l.serving.inLoop → l.hasAddress
  untouched : l.stopRequested = false → l.Untouched
  unmarking : l.stopRequested → l.running → l.Unmarking
  waking : l.serving.inLoop → l.running = false → l.Waking

variable {l t : Lifecycle} {e : Event} {es : List Event} {i : Nat} {s next : Stopping}

/-- A caller that goes on leaves the others where they are. -/
theorem mem_set_of_ne {old : Stopping} (hi : l.stops[i]? = some old) (hne : s ≠ old)
    (h : s ∈ l.stops) : s ∈ l.stops.set i next := by
  obtain ⟨j, hj⟩ := List.mem_iff_getElem?.mp h
  have hij : i ≠ j := by
    rintro rfl
    exact hne (Option.some.inj (hj.symm.trans hi))
  exact List.mem_iff_getElem?.mpr ⟨j, by rwa [List.getElem?_set_ne hij]⟩

theorem step_stop_cases (h : l.step (.stop i) = some t) :
    ∃ s l' next, l.stops[i]? = some s ∧ l.stopStep s = some (l', next) ∧
      t = { l' with stops := l'.stops.set i next } := by
  obtain ⟨s, hs, h⟩ := Option.bind_eq_some_iff.mp h
  obtain ⟨⟨l', next⟩, hstep, h⟩ := Option.bind_eq_some_iff.mp h
  exact ⟨s, l', next, hs, hstep, (Option.some.inj h).symm⟩

theorem sound_new : Sound {} := by
  constructor <;> simp [Serving.inLoop]
  exact ⟨by simp, by simp [Serving.inLoop], rfl⟩

theorem Sound.serveStep (h : l.Sound) (hs : l.serveStep = some t) : t.Sound := by
  obtain ⟨hlistening, haddress, huntouched, hunmarking, hwaking⟩ := h
  rw [Lifecycle.serveStep] at hs
  cases hv : l.serving with
  | accept =>
    -- The connection that is taken off the queue leads to the check.
    cases hq : l.queued with
    | zero => simp [hv, hq] at hs
    | succ queued =>
      simp only [hv, hq, Option.some.injEq] at hs
      subst hs
      constructor <;> grind -linarith [Untouched]
  | finished => simp [hv] at hs
  | _ =>
    -- The loop is entered only before a request, and then with the server running; its check is
    -- passed only by a server that runs; and from there nothing is taken off the queue.
    simp only [hv, Option.some.injEq] at hs
    subst hs
    constructor <;> grind -linarith [Untouched]

theorem Sound.refusal {lost : Bool} (h : l.Sound) (hs : l.refusal lost = some t) : t.Sound := by
  obtain ⟨hlistening, haddress, huntouched, hunmarking, hwaking⟩ := h
  rw [Lifecycle.refusal.eq_def] at hs
  cases hv : l.serving with
  | openListener | noteAddress | accept =>
    -- Even if the connection that is lost is the one that should wake, the check comes next.
    simp only [hv, Option.some.injEq] at hs
    subst hs
    constructor <;> grind -linarith [Untouched]
  | _ => simp [hv] at hs

theorem Sound.call (h : l.Sound) : Sound { l with stops := l.stops ++ [.request] } where
  listening_iff := h.listening_iff
  hasAddress := h.hasAddress
  untouched hr :=
    have hl := h.untouched hr
    ⟨by simpa [or_imp, forall_and] using hl.callers, hl.running_iff, hl.late⟩
  unmarking hr hrun := (h.unmarking hr hrun).imp_left (List.mem_append_left _)
  waking hin hrun := (h.waking hin hrun).imp (List.mem_append_left _)
    (Or.imp_left (List.mem_append_left _))

/-- A connection changes nothing but how many are queued. -/
theorem connect_eq (l : Lifecycle) : ∃ queued, l.connect = { l with queued } := by
  unfold Lifecycle.connect
  split
  · exact ⟨_, rfl⟩
  · exact ⟨l.queued, rfl⟩

/-- In the loop the listener is open, so that a connection is queued. -/
theorem Sound.queued_connect_pos (h : l.Sound) (hin : l.serving.inLoop) : 0 < l.connect.queued := by
  have hopen : l.listening := h.listening_iff.mpr
    ⟨by rintro hv; simp [hv, Serving.inLoop] at hin, by rintro hv; simp [hv, Serving.inLoop] at hin⟩
  simp [Lifecycle.connect, hopen]

theorem Sound.connect (h : l.Sound) : l.connect.Sound := by
  have hpos := h.queued_connect_pos
  obtain ⟨queued, hq⟩ := connect_eq l
  rw [hq] at hpos ⊢
  exact {
    listening_iff := h.listening_iff
    hasAddress := h.hasAddress
    untouched := fun hr =>
      have hl := h.untouched hr
      ⟨hl.callers, hl.running_iff, hl.late⟩
    unmarking := h.unmarking
    waking := fun hin _ => .inr (.inr (.inl (hpos hin))) }

/-- A caller that goes on leaves it to the others what they are to do. -/
theorem Unmarking.set (h : l.Unmarking) (hi : l.stops[i]? = some s) (hs : s ≠ .unmarkRunning) :
    Unmarking { l with stops := l.stops.set i next } :=
  h.imp_left (mem_set_of_ne hi hs.symm)

theorem Waking.set (h : l.Waking) (hi : l.stops[i]? = some s) (hs : s ≠ .readAddress)
    (hs' : s ≠ .wake) : Waking { l with stops := l.stops.set i next } :=
  h.imp (mem_set_of_ne hi hs.symm) (Or.imp_left (mem_set_of_ne hi hs'.symm))

theorem Sound.stopStep {l' : Lifecycle} (h : l.Sound) (hi : l.stops[i]? = some s)
    (hs : l.stopStep s = some (l', next)) : Sound { l' with stops := l'.stops.set i next } := by
  have hnext : next ∈ l.stops.set i next := List.mem_set (List.getElem?_eq_some_iff.mp hi).1 next
  have hcaller : s ∈ l.stops := List.mem_of_getElem? hi
  cases s with
  | request =>
    simp only [Lifecycle.stopStep, Option.some.injEq, Prod.mk.injEq] at hs
    obtain ⟨rfl, rfl⟩ := hs
    refine ⟨h.listening_iff, h.hasAddress, nofun, fun _ hrun => ?_, fun hin hrun =>
      (h.waking hin hrun).set hi (by decide) (by decide)⟩
    -- Only the first caller finds nothing requested, and it will unmark the server.
    cases hr : l.stopRequested with
    | false => exact .inl (by simpa [hr] using hnext)
    | true => exact (h.unmarking hr hrun).set hi (by decide)
  | unmarkRunning =>
    simp only [Lifecycle.stopStep, Option.some.injEq, Prod.mk.injEq] at hs
    obtain ⟨rfl, rfl⟩ := hs
    refine ⟨h.listening_iff, h.hasAddress, fun hr => ?_, fun _ => nofun, fun hin _ => ?_⟩
    · exact absurd ((h.untouched hr).callers _ hcaller) (by decide)
    · -- If the server ran, this caller goes on to wake the loop; if not, another one does.
      cases hrun : l.running with
      | false => exact (h.waking hin hrun).set hi (by decide) (by decide)
      | true => exact .inl (by simpa [hrun] using hnext)
  | readAddress =>
    simp only [Lifecycle.stopStep, Option.some.injEq, Prod.mk.injEq] at hs
    obtain ⟨rfl, rfl⟩ := hs
    refine ⟨h.listening_iff, h.hasAddress, fun hr => ?_, fun hr hrun =>
      (h.unmarking hr hrun).set hi (by decide), fun hin _ => ?_⟩
    · exact absurd ((h.untouched hr).callers _ hcaller) (by decide)
    · -- In the loop the address is known.
      exact .inr (.inl (by simpa [h.hasAddress (.inr (.inr hin))] using hnext))
  | wake =>
    simp only [Lifecycle.stopStep, Option.some.injEq, Prod.mk.injEq] at hs
    obtain ⟨rfl, rfl⟩ := hs
    have hpos := h.queued_connect_pos
    obtain ⟨queued, hq⟩ := connect_eq l
    rw [hq] at hpos ⊢
    refine ⟨h.listening_iff, h.hasAddress, fun hr => ?_, fun hr hrun =>
      (h.unmarking hr hrun).set hi (by decide), fun hin _ => .inr (.inr (.inl (hpos hin)))⟩
    exact absurd ((h.untouched hr).callers _ hcaller) (by decide)
  | returned => simp [Lifecycle.stopStep] at hs

theorem Sound.step (h : l.Sound) (hs : l.step e = some t) : t.Sound := by
  cases e with
  | serve => exact h.serveStep hs
  | refuse lost => exact h.refusal hs
  | call =>
    obtain rfl := Option.some.inj hs
    exact h.call
  | stop i =>
    obtain ⟨s, l', next, hi, hstep, rfl⟩ := step_stop_cases hs
    exact h.stopStep hi hstep
  | client =>
    obtain rfl := Option.some.inj hs
    exact h.connect

theorem Sound.run (h : l.Sound) (hs : l.run es = some t) : t.Sound := by
  induction es generalizing l with
  | nil =>
    obtain rfl := Option.some.inj hs
    exact h
  | cons e es ih =>
    obtain ⟨l', hstep, hrun⟩ := Option.bind_eq_some_iff.mp hs
    exact ih (h.step hstep) hrun

/-- What callers were to do is done once all have returned. -/
theorem AllReturned.not_mem (h : l.AllReturned) (hs : s ≠ .returned) : s ∉ l.stops :=
  fun hmem => hs (h s hmem)

theorem Sound.requested (h : l.Sound) (hne : l.stops ≠ []) (hret : l.AllReturned) :
    l.stopRequested := by
  cases hr : l.stopRequested with
  | true => rfl
  | false =>
    obtain ⟨s, hs⟩ := List.exists_mem_of_ne_nil _ hne
    have hrequest := (h.untouched hr).callers s hs
    rw [hret s hs] at hrequest
    cases hrequest

/-- Once all callers have returned, the server runs only until serving begins. -/
theorem Sound.running_of_returned (h : l.Sound) (hr : l.stopRequested) (hret : l.AllReturned)
    (hrun : l.running) : l.serving = .begin ∨ l.serving = .unmarkRunning :=
  (h.unmarking hr hrun).resolve_left (hret.not_mem (by decide))

/-- Once all callers have returned, the loop has a connection to come to its check with. -/
theorem Sound.queued_of_returned (h : l.Sound) (hr : l.stopRequested) (hret : l.AllReturned)
    (hin : l.serving.inLoop) : l.running = false ∧
      (0 < l.queued ∨ ∃ held, l.serving = .checkRunning held) := by
  have hrun : l.running = false := by
    cases hrun : l.running with
    | false => rfl
    | true =>
      rcases h.running_of_returned hr hret hrun with hv | hv <;> rw [hv] at hin <;> cases hin
  exact ⟨hrun, ((h.waking hin hrun).resolve_left (hret.not_mem (by decide))).resolve_left
    (hret.not_mem (by decide))⟩

/-- The serving thread finishes by itself once all callers have returned. -/
theorem Sound.finishes (h : l.Sound) (hr : l.stopRequested) (hret : l.AllReturned) :
    (l.serveFor 6).serving = .finished := by
  have hloop := h.queued_of_returned hr hret
  cases hv : l.serving with
  | accept | hand =>
    obtain ⟨hrun, hq⟩ := hloop (by simp [hv, Serving.inLoop])
    simp only [hv, reduceCtorEq, exists_const, or_false] at hq
    obtain ⟨queued, hq⟩ := Nat.exists_eq_succ_of_ne_zero (Nat.ne_of_gt hq)
    simp [serveFor, Lifecycle.serveStep, hv, hq, hrun]
  | checkRunning held =>
    obtain ⟨hrun, -⟩ := hloop (by simp [hv, Serving.inLoop])
    simp [serveFor, Lifecycle.serveStep, hv, hrun]
  | _ => simp [serveFor, Lifecycle.serveStep, hv, hr]

/-- A stop is requested by a caller's step, which leaves the serving thread where it is. -/
theorem stopRequested_of_step (h : l.step e = some t) :
    t.stopRequested = l.stopRequested ∨
      t.stopRequested ∧ t.serving = l.serving ∧ t.late = l.late := by
  cases e with
  | serve =>
    rw [Lifecycle.step, Lifecycle.serveStep] at h
    cases hv : l.serving <;> grind -linarith
  | refuse lost =>
    rw [Lifecycle.step, Lifecycle.refusal.eq_def] at h
    cases hv : l.serving <;> grind -linarith
  | call =>
    obtain rfl := Option.some.inj h
    exact .inl rfl
  | stop i =>
    obtain ⟨s, l', next, -, hstep, rfl⟩ := step_stop_cases h
    cases s <;> grind -linarith [Lifecycle.stopStep, Lifecycle.connect]
  | client =>
    obtain ⟨queued, hq⟩ := connect_eq l
    obtain rfl := Option.some.inj h
    rw [hq]
    exact .inl rfl

/-- What is or will be handed over late once a stop has been requested: a connection that is past
the checks can no longer be held back. -/
def due (l : Lifecycle) : Nat := l.late + if l.serving = .hand then 1 else 0

/-- After a request no further connection gets past the checks. -/
theorem due_step (hr : l.stopRequested) (h : l.step e = some t) : t.due ≤ l.due := by
  cases e with
  | serve =>
    rw [Lifecycle.step, Lifecycle.serveStep] at h
    cases hv : l.serving <;> grind -linarith [due]
  | refuse lost =>
    rw [Lifecycle.step, Lifecycle.refusal.eq_def] at h
    cases hv : l.serving <;> grind -linarith [due]
  | call =>
    obtain rfl := Option.some.inj h
    exact Nat.le_refl _
  | stop i =>
    obtain ⟨s, l', next, -, hstep, rfl⟩ := step_stop_cases h
    cases s <;> grind -linarith [due, Lifecycle.stopStep, Lifecycle.connect]
  | client =>
    obtain ⟨queued, hq⟩ := connect_eq l
    obtain rfl := Option.some.inj h
    rw [hq]
    exact Nat.le_refl _

theorem due_run (hr : l.stopRequested) (h : l.run es = some t) : t.due ≤ l.due := by
  induction es generalizing l with
  | nil =>
    obtain rfl := Option.some.inj h
    exact Nat.le_refl _
  | cons e es ih =>
    obtain ⟨l', hstep, hrun⟩ := Option.bind_eq_some_iff.mp h
    have hr' : l'.stopRequested := (stopRequested_of_step hstep).elim (·.trans hr) And.left
    exact Nat.le_trans (ih hr' hrun) (due_step hr hstep)

theorem due_eq_of_request (h : l.step e = some t) (hr : l.stopRequested = false)
    (hr' : t.stopRequested) : t.due = l.due := by
  rcases stopRequested_of_step h with hsame | ⟨-, hserving, hlate⟩
  · rw [hr', hr] at hsame
    cases hsame
  · rw [due, hserving, hlate, due]

theorem run_append_cons_eq_some {before after : List Event}
    (h : l.run (before ++ e :: after) = some t) :
    ∃ s u, l.run before = some s ∧ s.step e = some u ∧ u.run after = some t := by
  induction before generalizing l with
  | nil =>
    obtain ⟨u, hstep, hrun⟩ := Option.bind_eq_some_iff.mp h
    exact ⟨l, u, rfl, hstep, hrun⟩
  | cons d before ih =>
    obtain ⟨l', hstep, hrun⟩ := Option.bind_eq_some_iff.mp h
    obtain ⟨s, u, hs, hu, ht⟩ := ih hrun
    exact ⟨s, u, Option.bind_eq_some_iff.mpr ⟨l', hstep, hs⟩, hu, ht⟩

/-- If a stop is requested in a run, there is a step that does it. -/
theorem exists_request (h : l.run es = some t) (hr : l.stopRequested = false)
    (hr' : t.stopRequested) : ∃ before e after s u, es = before ++ e :: after ∧
      l.run before = some s ∧ s.step e = some u ∧ s.stopRequested = false ∧ u.stopRequested := by
  induction es generalizing l with
  | nil =>
    obtain rfl := Option.some.inj h
    rw [hr] at hr'
    cases hr'
  | cons e es ih =>
    obtain ⟨l', hstep, hrun⟩ := Option.bind_eq_some_iff.mp h
    cases hl' : l'.stopRequested with
    | true => exact ⟨[], e, es, l, l', rfl, rfl, hstep, hr, hl'⟩
    | false =>
      obtain ⟨before, d, after, s, u, rfl, hs, hu, hrs, hru⟩ := ih hrun hl'
      exact ⟨e :: before, d, after, s, u, rfl, Option.bind_eq_some_iff.mpr ⟨l', hstep, hs⟩, hu,
        hrs, hru⟩

/-- Only a connection that was past the checks at the time of the request is handed over late. -/
theorem late_le_of_request {before after : List Event} {s t : Lifecycle}
    (h : ({} : Lifecycle).run (before ++ e :: after) = some l)
    (hs : ({} : Lifecycle).run before = some s) (ht : s.step e = some t)
    (hr : s.stopRequested = false) (hr' : t.stopRequested) :
    l.late ≤ if s.serving = .hand then 1 else 0 := by
  obtain ⟨s', t', hs', ht', hrun⟩ := run_append_cons_eq_some h
  obtain rfl := Option.some.inj (hs.symm.trans hs')
  obtain rfl := Option.some.inj (ht.symm.trans ht')
  have hlate := ((sound_new.run hs).untouched hr).late
  calc
    l.late ≤ l.due := Nat.le_add_right _ _
    _ ≤ t.due := due_run hr' hrun
    _ = s.due := due_eq_of_request ht hr hr'
    _ = if s.serving = .hand then 1 else 0 := by rw [due, hlate, Nat.zero_add]

theorem late_le_one (h : ({} : Lifecycle).run es = some l) : l.late ≤ 1 := by
  cases hr : l.stopRequested with
  | false => exact Nat.le_trans (Nat.le_of_eq ((sound_new.run h).untouched hr).late) (Nat.zero_le 1)
  | true =>
    obtain ⟨before, e, after, s, t, rfl, hs, ht, hrs, hrt⟩ := exists_request h rfl hr
    have hle := late_le_of_request h hs ht hrs hrt
    split at hle <;> omega

/-- A stop request is never lost, whatever order the steps of the serving thread, of any number of
callers and of clients come in. Once all calls for a stop have returned, and there was one, the
serving thread does not wait for a connection that nobody makes; left to itself it finishes. At most
one connection is handed over after the request, and only if it was past the checks when the request
was made. Once serving and all calls have returned, the server does not run. -/
theorem stop_is_never_lost {es : List Event} {l : Lifecycle}
    (h : ({} : Lifecycle).run es = some l) :
    (l.stops ≠ [] → l.AllReturned →
      ¬ (l.serving = .accept ∧ l.queued = 0) ∧ (l.serveFor 6).serving = .finished) ∧
    l.late ≤ 1 ∧
    (∀ before e after s t, es = before ++ e :: after → ({} : Lifecycle).run before = some s →
      s.step e = some t → s.stopRequested = false → t.stopRequested → 0 < l.late →
      s.serving = .hand) ∧
    (l.serving = .finished → l.AllReturned → l.running = false) := by
  have hl : l.Sound := sound_new.run h
  refine ⟨fun hne hret => ?_, late_le_one h, ?_, fun hv hret => ?_⟩
  · have hr := hl.requested hne hret
    refine ⟨fun ⟨hv, hq⟩ => ?_, hl.finishes hr hret⟩
    rcases (hl.queued_of_returned hr hret (by rw [hv]; rfl)).2 with hpos | ⟨held, hheld⟩
    · omega
    · rw [hv] at hheld
      cases hheld
  · rintro before e after s t rfl hs ht hr hr' hlate
    have hle := late_le_of_request h hs ht hr hr'
    split at hle
    · assumption
    · omega
  · cases hrun : l.running with
    | false => rfl
    | true =>
      cases hr : l.stopRequested with
      | false =>
        have hiff := (hl.untouched hr).running_iff
        simp [hv, hrun, Serving.inLoop] at hiff
      | true =>
        rcases hl.running_of_returned hr hret hrun with hv' | hv' <;> rw [hv] at hv' <;> cases hv'

/-- The stop is requested by the first of two callers while a connection is past the checks, and the
connection that should wake the loop is lost by an accept that fails. -/
theorem stop_is_never_lost_beside_late_connection :
    let before : List Event := .client :: List.replicate 4 .serve ++ .client ::
      List.replicate 3 .serve ++ [.call, .call]
    let after : List Event := [.stop 1, .serve, .stop 0, .stop 0, .stop 0, .refuse true]
    ∃ s t l, ({} : Lifecycle).run before = some s ∧ s.step (.stop 0) = some t ∧
      ({} : Lifecycle).run (before ++ .stop 0 :: after) = some l ∧
      s.stopRequested = false ∧ t.stopRequested ∧ l.late = 1 ∧ s.serving = .hand ∧
      l.stops ≠ [] ∧ l.AllReturned ∧ ¬ (l.serving = .accept ∧ l.queued = 0) ∧
      (l.serveFor 6).serving = .finished := by
  intro before after
  let s : Lifecycle := ⟨true, false, true, true, 0, 0, .hand, [.request, .request]⟩
  let t : Lifecycle := ⟨true, true, true, true, 0, 0, .hand, [.unmarkRunning, .request]⟩
  let l : Lifecycle :=
    ⟨false, true, true, true, 0, 1, .checkRunning false, [.returned, .returned]⟩
  have hs : ({} : Lifecycle).run before = some s := rfl
  have ht : s.step (.stop 0) = some t := rfl
  have hl : ({} : Lifecycle).run (before ++ .stop 0 :: after) = some l := rfl
  have hret : l.AllReturned := by simp [AllReturned, l]
  obtain ⟨hkept, -, hpast, -⟩ := stop_is_never_lost hl
  obtain ⟨hwaits, hfinishes⟩ := hkept (by simp [l]) hret
  exact ⟨s, t, l, hs, ht, hl, rfl, rfl, rfl,
    hpast before (.stop 0) after s t rfl hs ht rfl rfl Nat.one_pos, by simp [l], hret, hwaits,
    hfinishes⟩

end Lifecycle
end WebHost
