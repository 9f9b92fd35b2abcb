import WebHost.Proofs.Accounts.Cases

/-! Runs of operations on the accounts, one after the other, each at a moment of its own. -/
namespace WebHost.Accounts

/-- An operation and the moment at which it happens. -/
structure Event where
  moment : Moment
  {Answer : Type}
  op : Op Answer

/-- The book after a run. -/
def run (a : Accounts) (es : List Event) : Accounts :=
  es.foldl (fun a e => (e.op.apply e.moment a).2) a

@[simp] theorem run_nil (a : Accounts) : a.run [] = a := rfl

@[simp] theorem run_cons (a : Accounts) (e : Event) (es : List Event) :
    a.run (e :: es) = (e.op.apply e.moment a).2.run es := rfl

theorem run_append (a : Accounts) (es fs : List Event) : a.run (es ++ fs) = (a.run es).run fs := by
  simp [run]

theorem run_concat (a : Accounts) (es : List Event) (e : Event) :
    a.run (es ++ [e]) = (e.op.apply e.moment (a.run es)).2 := by
  rw [run_append, run_cons, run_nil]

@[simp] theorem lifetime_run (a : Accounts) (es : List Event) : (a.run es).lifetime = a.lifetime := by
  induction es generalizing a with
  | nil => rfl
  | cons e es ih => rw [run_cons, ih, lifetime_apply]

/-- A clock that never goes back, from the first event to `now`. -/
def ClockTo (es : List Event) (now : Nat) : Prop :=
  (es.map (fun e => e.moment.now) ++ [now]).Pairwise (· ≤ ·)

theorem clockTo_concat_iff {es : List Event} {e : Event} {now : Nat} :
    ClockTo (es ++ [e]) now ↔ ClockTo es e.moment.now ∧ e.moment.now ≤ now := by
  simp only [ClockTo, List.map_append, List.map_cons, List.map_nil, List.pairwise_append,
    List.mem_append, List.mem_map, List.mem_singleton, List.pairwise_singleton]
  constructor
  · rintro ⟨⟨hes, -, he⟩, -, hnow⟩
    exact ⟨⟨hes, trivial, he⟩, hnow _ (.inr rfl) _ rfl⟩
  · rintro ⟨⟨hes, -, he⟩, hnow⟩
    refine ⟨⟨hes, trivial, he⟩, trivial, ?_⟩
    rintro t (ht | rfl) _ rfl
    · exact Nat.le_trans (he t ht _ rfl) hnow
    · exact hnow

end WebHost.Accounts
