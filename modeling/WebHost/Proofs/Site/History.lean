import WebHost.Proofs.Accounts.Identity
import WebHost.Proofs.Site.Dispatch

/-! Whatever happens at a site, one thing after another: requests are answered, and its keeper has
operations done on the accounts. What every operation keeps, every history keeps. -/
namespace WebHost
open Http

namespace Accounts

/-- The token that an operation has opened a session with, if it has been answered so. -/
def Op.opened? {β : Type} : Op β → β → Option Text
  | .openSession _ _, .ok token => some token
  | _, _ => none

/-- A session that an operation leaves was there before, or it is the one that the operation has
opened, with the token of the moment. -/
theorem mem_sessions_apply {β : Type} {m : Moment} {a : Accounts} {o : Op β} {x : Session}
    (hx : x ∈ (o.apply m a).2.sessions) :
    x ∈ a.sessions ∨ x.token = m.token ∧ o.opened? (o.apply m a).1 = some x.token := by
  rw [sessions_apply] at hx
  cases o with
  | openSession userId address =>
    rcases openSession_cases a m userId address with ⟨-, h⟩ | ⟨-, h⟩
    · simp only [h] at hx
      exact .inl (List.mem_filter.mp hx).1
    · simp only [h] at hx
      rcases List.mem_append.mp hx with hx | hx
      · exact .inl (List.mem_filter.mp hx).1
      · obtain rfl := List.mem_singleton.mp hx
        exact .inr ⟨rfl, by rw [Op.apply, h]; rfl⟩
  | closeSession token => exact .inl (List.mem_filter.mp hx).1
  | cleanup => exact .inl (List.mem_filter.mp hx).1
  | _ => exact .inl hx

end Accounts

namespace Site

inductive Happening
  | request (w : Surroundings) (r : Request)
  /-- The keeper has an operation done on the accounts. -/
  | keeping {β : Type} (o : Accounts.Op β)

def happen (timeline : Nat → Moment) (s : Site) : Happening → Site
  | .request w r => (s.respond timeline w r).2
  | .keeping o => (applyAt (timeline s.elapsed) (.inl o) s).2

/-- The site after a history. -/
def after (timeline : Nat → Moment) (s : Site) (hs : List Happening) : Site :=
  hs.foldl (happen timeline) s

@[simp] theorem after_nil (timeline : Nat → Moment) (s : Site) : s.after timeline [] = s := rfl

@[simp] theorem after_cons (timeline : Nat → Moment) (s : Site) (h : Happening)
    (hs : List Happening) : s.after timeline (h :: hs) = (s.happen timeline h).after timeline hs := rfl

/-- What every operation on the accounts keeps, whenever it happens. -/
structure Kept (timeline : Nat → Moment) (P : Site → Prop) : Prop where
  op : ∀ (s : Site) {β : Type} (o : Accounts.Op β), P s →
    P (applyAt (timeline s.elapsed) (.inl o) s).2
  tick : ∀ s : Site, P s → P s.tick

variable {timeline : Nat → Moment} {P : Site → Prop} {w : Surroundings} {pages : Text}
  {static : StaticRoute} {request : Request} {s : Site}

theorem Kept.run (h : Kept timeline P) {α : Type} (p : Action Accounts.Op α) (hs : P s) :
    P (s.run timeline (p.lift Sum.inl)).2 := by
  induction p generalizing s with
  | done a => exact hs
  | step o next ih => exact ih _ (h.op s o hs)

theorem Kept.respond (h : Kept timeline P) (hr : s.routes = addEndpoints pages static {}) (hs : P s) :
    P (s.respond timeline w request).2 := by
  have ht := h.tick s hs
  rw [respond_eq hr]
  split
  · exact h.run _ ht
  · split
    · exact ht
    · exact ht

theorem kept_routes (t : Routes) : Kept timeline fun s => s.routes = t where
  op _ _ _ h := h
  tick _ h := h

theorem Kept.happen (h : Kept timeline P) (hr : s.routes = addEndpoints pages static {}) (hs : P s)
    (x : Happening) : P (s.happen timeline x) := by
  cases x with
  | request w r => exact h.respond hr hs
  | keeping o => exact h.op s o hs

theorem Kept.after (h : Kept timeline P) (hr : s.routes = addEndpoints pages static {}) (hs : P s)
    (xs : List Happening) : P (s.after timeline xs) := by
  induction xs generalizing s with
  | nil => rwa [after_nil]
  | cons x xs ih =>
    rw [after_cons]
    exact ih ((kept_routes _).happen hr hr x) (h.happen hr hs x)

theorem kept_le_elapsed (n : Nat) : Kept timeline fun s => n ≤ s.elapsed where
  op _ _ _ h := Nat.le_succ_of_le h
  tick _ h := Nat.le_succ_of_le h

theorem kept_identities (a : Accounts) :
    Kept timeline fun s => a.identities <+: s.accounts.identities where
  op _ _ o h := h.trans (Accounts.identities_beginning_apply _ _ o)
  tick _ h := h

theorem kept_soundNumbers :
    Kept timeline fun s => Accounts.SoundNumbers (s.accounts.users.map Account.id) where
  op _ _ o h := Accounts.soundNumbers_apply _ o h
  tick _ h := h

/-- Every session has the token of some earlier moment. -/
def TokensDrawn (timeline : Nat → Moment) (s : Site) : Prop :=
  ∀ x ∈ s.accounts.sessions, ∃ i < s.elapsed, x.token = (timeline i).token

theorem kept_tokensDrawn : Kept timeline (TokensDrawn timeline) where
  op s _ o h x hx := by
    rcases Accounts.mem_sessions_apply hx with hx | ⟨hx, -⟩
    · obtain ⟨i, hi, ht⟩ := h x hx
      exact ⟨i, Nat.lt_succ_of_lt hi, ht⟩
    · exact ⟨s.elapsed, Nat.lt_succ_self _, hx⟩
  tick s h x hx := by
    obtain ⟨i, hi, ht⟩ := h x hx
    exact ⟨i, Nat.lt_succ_of_lt hi, ht⟩

/-- No two of the first `n` moments have one token. -/
def FreshBelow (timeline : Nat → Moment) (n : Nat) : Prop :=
  ∀ i < n, ∀ j < n, (timeline i).token = (timeline j).token → i = j

/-- The sessions with the token of the moment `k`, which is past, are for the account `id`. -/
def TokenIsFor (timeline : Nat → Moment) (k id : Nat) (s : Site) : Prop :=
  k < s.elapsed ∧ ∀ x ∈ s.accounts.sessions, x.token = (timeline k).token → x.userId = id

/-- Until a token is drawn again. -/
theorem kept_tokenIsFor {n : Nat} (hf : FreshBelow timeline n) (k id : Nat) :
    Kept timeline fun s => k < s.elapsed ∧ (s.elapsed ≤ n → TokenIsFor timeline k id s) where
  op s _ o h := by
    obtain ⟨hk, hid⟩ := h
    refine ⟨Nat.lt_succ_of_lt hk, fun hn => ⟨Nat.lt_succ_of_lt hk, fun x hx ht => ?_⟩⟩
    have hlt : s.elapsed < n := hn
    rcases Accounts.mem_sessions_apply hx with hx | ⟨hx, -⟩
    · exact (hid (Nat.le_of_lt hlt)).2 x hx ht
    · have := hf k (by omega) s.elapsed hlt (by rw [← ht, hx])
      omega
  tick s h := by
    obtain ⟨hk, hid⟩ := h
    refine ⟨Nat.lt_succ_of_lt hk, fun hn => ⟨Nat.lt_succ_of_lt hk, fun x hx ht => ?_⟩⟩
    exact (hid (Nat.le_of_succ_le hn)).2 x hx ht

theorem TokenIsFor.after {k id : Nat} (h : TokenIsFor timeline k id s)
    (hr : s.routes = addEndpoints pages static {}) (xs : List Happening)
    (hf : FreshBelow timeline (s.after timeline xs).elapsed) :
    TokenIsFor timeline k id (s.after timeline xs) :=
  ((kept_tokenIsFor hf k id).after hr ⟨h.1, fun _ => h⟩ xs).2 (Nat.le_refl _)

end Site
end WebHost
