import WebHost.Text.Basic

/-! Patterns that are searched for in a text. A pattern matches a part of the text, and it may ask
where in the text that part stands. -/
namespace WebHost.Text

inductive Pattern
  /-- Nothing, at the beginning of the text. -/
  | start
  /-- Nothing, at the end of the text. -/
  | stop
  /-- One character of a class. -/
  | one (test : Char → Bool)
  /-- The pattern once or more, each time behind the last. -/
  | plus (p : Pattern)
  /-- One pattern and the other behind it. -/
  | seq (p q : Pattern)

namespace Pattern
variable {p q : Pattern} {test : Char → Bool} {before part after : Text}

/-- The pattern matches a part of a text, with this text before it and after it. -/
inductive Matches : Pattern → Text → Text → Text → Prop
  | start (after : Text) : Matches .start [] [] after
  | stop (before : Text) : Matches .stop before [] []
  | one {test : Char → Bool} {c : Char} (h : test c) (before after : Text) :
      Matches (.one test) before [c] after
  | once {p : Pattern} {before part after : Text} (h : Matches p before part after) :
      Matches (.plus p) before part after
  | more {p : Pattern} {before first part after : Text}
      (hfirst : Matches p before first (part ++ after))
      (hpart : Matches (.plus p) (before ++ first) part after) :
      Matches (.plus p) before (first ++ part) after
  | seq {p q : Pattern} {before first part after : Text}
      (hfirst : Matches p before first (part ++ after))
      (hpart : Matches q (before ++ first) part after) :
      Matches (.seq p q) before (first ++ part) after

/-- Some part of the text is matched. -/
def FoundIn (p : Pattern) (t : Text) : Prop :=
  ∃ before part after, t = before ++ part ++ after ∧ p.Matches before part after

theorem matches_start_iff : start.Matches before part after ↔ before = [] ∧ part = [] := by
  constructor
  · rintro ⟨⟩
    exact ⟨rfl, rfl⟩
  · rintro ⟨rfl, rfl⟩
    exact .start after

theorem matches_stop_iff : stop.Matches before part after ↔ part = [] ∧ after = [] := by
  constructor
  · rintro ⟨⟩
    exact ⟨rfl, rfl⟩
  · rintro ⟨rfl, rfl⟩
    exact .stop before

theorem matches_one_iff :
    (one test).Matches before part after ↔ ∃ c, test c ∧ part = [c] := by
  constructor
  · rintro ⟨⟩
    next c h => exact ⟨c, h, rfl⟩
  · rintro ⟨c, h, rfl⟩
    exact .one h before after

theorem matches_seq_iff : (seq p q).Matches before part after ↔
    ∃ first second, part = first ++ second ∧ p.Matches before first (second ++ after) ∧
      q.Matches (before ++ first) second after := by
  constructor
  · rintro ⟨⟩
    next first second hfirst hsecond => exact ⟨first, second, rfl, hfirst, hsecond⟩
  · rintro ⟨first, second, rfl, hfirst, hsecond⟩
    exact .seq hfirst hsecond

theorem forall_of_matches_plus_one (h : (plus (one test)).Matches before part after) :
    part ≠ [] ∧ ∀ c ∈ part, test c := by
  generalize hp : plus (one test) = p at h
  induction h with
  | once h =>
    obtain rfl := Pattern.plus.inj hp
    obtain ⟨c, hc, rfl⟩ := matches_one_iff.mp h
    simp [hc]
  | more hfirst _ _ ih =>
    obtain rfl := Pattern.plus.inj hp
    obtain ⟨c, hc, rfl⟩ := matches_one_iff.mp hfirst
    obtain ⟨-, hall⟩ := ih rfl
    exact ⟨by simp, List.forall_mem_cons.mpr ⟨hc, hall⟩⟩
  | start | stop | one | seq => cases hp

/-- A class once or more matches whatever is not empty and all of the class. -/
theorem matches_plus_one_iff :
    (plus (one test)).Matches before part after ↔ part ≠ [] ∧ ∀ c ∈ part, test c := by
  refine ⟨forall_of_matches_plus_one, fun h => ?_⟩
  induction part generalizing before with
  | nil => exact absurd rfl h.1
  | cons c part ih =>
    obtain ⟨hc, hall⟩ := List.forall_mem_cons.mp h.2
    cases part with
    | nil => exact .once (.one hc before after)
    | cons d part => exact .more (.one hc before _) (ih ⟨by simp, hall⟩)

/-- A pattern that begins with the text is found by matching a beginning of the text. -/
theorem foundIn_start_seq_iff {t : Text} :
    (seq start p).FoundIn t ↔ ∃ part after, t = part ++ after ∧ p.Matches [] part after := by
  simp only [FoundIn, matches_seq_iff, matches_start_iff]
  constructor
  · rintro ⟨_, _, after, rfl, _, part, rfl, ⟨rfl, rfl⟩, h⟩
    exact ⟨part, after, rfl, h⟩
  · rintro ⟨part, after, rfl, h⟩
    exact ⟨[], part, after, rfl, [], part, rfl, ⟨rfl, rfl⟩, h⟩

/-- Patterns one behind the other. -/
def row (p : Pattern) : List Pattern → Pattern
  | [] => p
  | q :: qs => seq p (row q qs)

end Pattern
end WebHost.Text
