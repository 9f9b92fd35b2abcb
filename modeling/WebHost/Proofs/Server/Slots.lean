import WebHost.Server.Slots

/-! The cap on connections under every order of events. The counter shows how many guards there are:
one for each worker, and one for the connection in the acceptor's hand. A worker is only started if
the connection was counted within the limit, and workers can only have become fewer since; a
connection is only refused if the workers filled the limit when it was counted.

Counting, dropping a guard and handing it to a worker are each undivided. The comparison with the
limit is part of the decision: it looks at the number in the acceptor's hand, which no worker
changes, so that it makes no difference when it is made. -/
namespace WebHost.Slots

/-- The event lets a guard go, which counts down. -/
def Drops (s : Slots) : Event → Prop
  | .count => False
  | .decide starts => ∃ seen, s.counted = some seen ∧ s.fate seen starts ≠ .served
  | .leave => True

/-- What an event can do. -/
theorem step_cases {s t : Slots} {e : Event} (h : s.step e = some t) :
    (e = .count ∧ s.counted = none ∧
      t = { s with active := s.active + 1, counted := some (s.active + 1) }) ∨
    (∃ starts seen, e = .decide starts ∧ s.counted = some seen ∧ s.fate seen starts = .served ∧
      t = { s with workers := s.workers + 1, counted := none }) ∨
    (∃ starts seen, e = .decide starts ∧ s.counted = some seen ∧ s.fate seen starts ≠ .served ∧
      t = { s with active := s.active - 1, counted := none }) ∨
    ∃ workers, e = .leave ∧ s.workers = workers + 1 ∧
      t = { s with active := s.active - 1, workers } := by
  cases e with
  | count =>
    cases hc : s.counted with
    | some seen => simp [step, hc] at h
    | none => exact .inl ⟨rfl, rfl, by simpa [step, hc] using h.symm⟩
  | decide starts =>
    cases hc : s.counted with
    | none => simp [step, hc] at h
    | some seen =>
      simp only [step, hc] at h
      split at h
      · next hf => exact .inr (.inl ⟨starts, seen, rfl, rfl, hf, by simpa using h.symm⟩)
      · next hf =>
        exact .inr (.inr (.inl ⟨starts, seen, rfl, rfl, by simp [hf], by simpa using h.symm⟩))
      · next hf =>
        exact .inr (.inr (.inl ⟨starts, seen, rfl, rfl, by simp [hf], by simpa using h.symm⟩))
  | leave =>
    cases hw : s.workers with
    | zero => simp [step, hw] at h
    | succ workers =>
      exact .inr (.inr (.inr ⟨workers, rfl, rfl, by simpa [step, hw] using h.symm⟩))

theorem fate_eq_refused_iff {s : Slots} {seen : Nat} {starts : Bool} (hl : 0 < s.limit) :
    s.fate seen starts = .refused ↔ s.limit < seen := by
  simp only [fate, hl, decide_true, Bool.true_and, decide_eq_true_eq]
  split
  · next h => simpa using h
  · next h => cases starts <;> simpa using h

theorem le_limit_of_served {s : Slots} {seen : Nat} {starts : Bool} (hl : 0 < s.limit)
    (h : s.fate seen starts = .served) : seen ≤ s.limit := by
  refine Nat.le_of_not_lt fun hlt => ?_
  rw [(fate_eq_refused_iff hl).mpr hlt] at h
  cases h

/-- What holds whatever has happened under a limit. -/
structure Sound (limit : Nat) (s : Slots) : Prop where
  limit_eq : s.limit = limit
  active : s.active = s.taken
  workers_le : s.workers ≤ limit
  /-- Since the acceptor has counted, workers can only have left. -/
  workers_lt_seen : ∀ seen, s.counted = some seen → s.workers < seen

variable {limit : Nat} {s t : Slots} {e : Event} {es : List Event}

theorem sound_idle (limit : Nat) : Sound limit { limit } := ⟨rfl, rfl, Nat.zero_le _, by simp⟩

theorem Sound.step (h : Sound limit s) (hl : 0 < limit) (hs : s.step e = some t) :
    Sound limit t := by
  have hactive := active_eq_taken_of_step h.active hs
  obtain ⟨hlimit, htaken, hle, hlt⟩ := h
  rcases step_cases hs with ⟨-, hc, rfl⟩ | ⟨starts, seen, -, hc, hf, rfl⟩ |
    ⟨starts, seen, -, hc, hf, rfl⟩ | ⟨workers, -, hw, rfl⟩
  · refine ⟨hlimit, hactive, hle, ?_⟩
    rintro _ ⟨rfl⟩
    rw [htaken, taken, hc]
    exact Nat.lt_succ_self _
  · have hseen : seen ≤ limit := hlimit ▸ le_limit_of_served (hlimit ▸ hl) hf
    exact ⟨hlimit, hactive, Nat.le_trans (hlt seen hc) hseen, by simp⟩
  · exact ⟨hlimit, hactive, hle, by simp⟩
  · have hfewer : workers < s.workers := by omega
    exact ⟨hlimit, hactive, Nat.le_trans (Nat.le_of_lt hfewer) hle,
      fun seen hc => Nat.lt_trans hfewer (hlt seen hc)⟩

theorem Sound.run (h : Sound limit s) (hl : 0 < limit) (hs : s.run es = some t) :
    Sound limit t := by
  induction es generalizing s with
  | nil =>
    obtain rfl := Option.some.inj hs
    exact h
  | cons e es ih =>
    obtain ⟨s', hstep, hrun⟩ := Option.bind_eq_some_iff.mp hs
    exact ih (h.step hl hstep) hrun

theorem Sound.pos_of_drops (h : Sound limit s) (hs : s.step e = some t) (hd : s.Drops e) :
    0 < s.active := by
  rw [h.active, taken]
  rcases step_cases hs with ⟨rfl, -, -⟩ | ⟨starts, seen, rfl, hc, hf, -⟩ |
    ⟨starts, seen, rfl, hc, hf, -⟩ | ⟨workers, rfl, hw, -⟩
  · exact absurd hd id
  · simp [hc]
  · simp [hc]
  · omega

/-- Until the acceptor decides, it keeps the number that it has seen. -/
theorem counted_run {seen : Nat} (hc : s.counted = some seen) (hd : ∀ starts, .decide starts ∉ es)
    (hs : s.run es = some t) : t.counted = some seen := by
  induction es generalizing s with
  | nil =>
    obtain rfl := Option.some.inj hs
    exact hc
  | cons e es ih =>
    obtain ⟨s', hstep, hrun⟩ := Option.bind_eq_some_iff.mp hs
    refine ih ?_ (fun starts hmem => hd starts (List.mem_cons_of_mem _ hmem)) hrun
    rcases step_cases hstep with ⟨-, hnone, -⟩ | ⟨starts, _, rfl, -⟩ | ⟨starts, _, rfl, -⟩ |
      ⟨workers, -, -, rfl⟩
    · simp [hc] at hnone
    · exact absurd List.mem_cons_self (hd starts)
    · exact absurd List.mem_cons_self (hd starts)
    · exact hc

/-- Whatever order the events come in, under a limit: no more workers than the limit serve
connections; the counter shows as many connections as there are guards, one for each worker and one
for the connection in the acceptor's hand, finds itself above zero whenever it is counted down, and
shows none once all workers have ended and the acceptor's hand is empty; and the connection that is
counted next is refused, at whatever time that is decided, exactly if as many workers as the limit
serve connections when it is counted. -/
theorem workers_within_limit {limit : Nat} (hl : 0 < limit) {es : List Event} {s : Slots}
    (h : ({ limit } : Slots).run es = some s) :
    s.workers ≤ limit ∧
    s.active = s.workers + (if s.counted.isSome then 1 else 0) ∧
    (∀ e t, s.step e = some t → s.Drops e → 0 < s.active) ∧
    (s.workers = 0 → s.counted = none → s.active = 0) ∧
    ∀ between t, s.run (.count :: between) = some t → (∀ starts, .decide starts ∉ between) →
      ∃ seen, t.counted = some seen ∧
        ∀ starts, t.fate seen starts = .refused ↔ s.workers = limit := by
  have hs : Sound limit s := (sound_idle limit).run hl h
  refine ⟨hs.workers_le, hs.active, fun e t hstep hd => hs.pos_of_drops hstep hd, fun hw hc => ?_,
    fun between t hrun hd => ?_⟩
  · rw [hs.active, taken, hw, hc]
    rfl
  · have ht : Sound limit t := hs.run hl hrun
    obtain ⟨s', hcount, hbetween⟩ := Option.bind_eq_some_iff.mp hrun
    rcases step_cases hcount with ⟨-, hc, rfl⟩ | ⟨_, _, he, -⟩ | ⟨_, _, he, -⟩ | ⟨_, he, -⟩
    · refine ⟨s.active + 1, counted_run rfl hd hbetween, fun starts => ?_⟩
      have hactive : s.active = s.workers := by rw [hs.active, taken, hc]; rfl
      have hle := hs.workers_le
      rw [fate_eq_refused_iff (ht.limit_eq ▸ hl), ht.limit_eq, hactive]
      omega
    · cases he
    · cases he
    · cases he

/-- One worker under a limit of one. It ends after the next connection has been counted and before
that is decided, and the connection is refused all the same. -/
theorem workers_within_limit_of_late_decision :
    ∃ s t : Slots, ({ limit := 1 } : Slots).run [.count, .decide true] = some s ∧
      s.run [.count, .leave] = some t ∧ s.workers ≤ 1 ∧ t.workers = 0 ∧
      ∃ seen, t.counted = some seen ∧ t.fate seen true = .refused := by
  have hs : ({ limit := 1 } : Slots).run [.count, .decide true] = some ⟨1, 1, 1, none⟩ := rfl
  obtain ⟨hle, -, -, -, hrefused⟩ := workers_within_limit (by decide) hs
  obtain ⟨seen, hseen, hiff⟩ := hrefused [.leave] ⟨1, 1, 0, some 2⟩ rfl (by simp)
  exact ⟨_, _, hs, rfl, hle, rfl, seen, hseen, (hiff true).mpr rfl⟩

end WebHost.Slots
