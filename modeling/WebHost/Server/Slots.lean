/-! The cap on connections. The acceptor counts a connection, compares what it has counted with the
limit, and refuses the connection or starts a worker for it; workers leave at any time between. -/
namespace WebHost

structure Slots where
  /-- Zero means no limit. -/
  limit : Nat := 0
  /-- The counter. -/
  active : Nat := 0
  /-- The connections that workers serve. -/
  workers : Nat := 0
  /-- What the counter showed for the connection in the acceptor's hand. -/
  counted : Option Nat := none
  deriving DecidableEq, Repr

namespace Slots

inductive Event
  /-- The acceptor takes and counts a connection. -/
  | count
  /-- The acceptor decides on it; a worker that is due may fail to start. -/
  | decide (starts : Bool)
  /-- A worker ends, well or badly. -/
  | leave
  deriving DecidableEq, Repr

/-- What becomes of a connection. -/
inductive Fate
  | served | refused | dropped
  deriving DecidableEq, Repr

def fate (s : Slots) (seen : Nat) (starts : Bool) : Fate :=
  if 0 < s.limit && s.limit < seen then .refused else if starts then .served else .dropped

/-- The slots after an event, if it can happen now. -/
def step (s : Slots) : Event → Option Slots
  | .count =>
    match s.counted with
    | some _ => none
    | none => some { s with active := s.active + 1, counted := some (s.active + 1) }
  | .decide starts =>
    match s.counted with
    | none => none
    | some seen =>
      match s.fate seen starts with
      | .served => some { s with workers := s.workers + 1, counted := none }
      | .refused | .dropped => some { s with active := s.active - 1, counted := none }
  | .leave =>
    match s.workers with
    | 0 => none
    | workers + 1 => some { s with active := s.active - 1, workers }

def run (s : Slots) : List Event → Option Slots
  | [] => some s
  | e :: es => (s.step e).bind fun s => s.run es

/-- The slots that are taken: one for each worker, one for a connection in the acceptor's hand. -/
def taken (s : Slots) : Nat := s.workers + (if s.counted.isSome then 1 else 0)

theorem active_eq_taken_of_step {s t : Slots} {e : Event} (h : s.active = s.taken)
    (hs : s.step e = some t) : t.active = t.taken := by
  cases e with
  | count =>
    cases hc : s.counted with
    | some seen => simp [step, hc] at hs
    | none =>
      simp only [step, hc, Option.some.injEq] at hs
      subst hs
      simpa [taken, hc] using h
  | decide starts =>
    cases hc : s.counted with
    | none => simp [step, hc] at hs
    | some seen =>
      have ha : s.active = s.workers + 1 := by simpa [taken, hc] using h
      simp only [step, hc] at hs
      split at hs <;> (obtain rfl := Option.some.inj hs; simp [taken, ha])
  | leave =>
    cases hw : s.workers with
    | zero => simp [step, hw] at hs
    | succ workers =>
      simp only [step, hw, Option.some.injEq] at hs
      subst hs
      simp only [taken, hw] at h ⊢
      omega

end Slots
end WebHost
