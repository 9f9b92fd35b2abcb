import Mathlib.Logic.Function.Defs
import WebHost.Site.Endpoint

/-! Text within markup. Once escaped a text has no tag or quote in it, each of its ampersands begins
an entity, and reading the entities gives it back. -/
namespace WebHost.Text

/-- The characters that begin and end tags and quotes. -/
def isMarkup (c : Char) : Bool := ['<', '>', '\x22', '\x27'].contains c

/-- The characters that are written as entities, each with its own. -/
def entities : List (Char × Text) :=
  [('&', "&amp;".toList), ('<', "&lt;".toList), ('>', "&gt;".toList), ('\x22', "&quot;".toList),
    ('\x27', "&#39;".toList)]

/-- Every ampersand begins an entity. -/
def IsEscaped (t : Text) : Prop :=
  ∀ after, '&' :: after <:+ t → ∃ e ∈ entities, e.2 <+: '&' :: after

/-- The text with each entity read as the character that it stands for. -/
def unescapeMarkup : Text → Text
  | '&' :: 'a' :: 'm' :: 'p' :: ';' :: r => '&' :: unescapeMarkup r
  | '&' :: 'l' :: 't' :: ';' :: r => '<' :: unescapeMarkup r
  | '&' :: 'g' :: 't' :: ';' :: r => '>' :: unescapeMarkup r
  | '&' :: 'q' :: 'u' :: 'o' :: 't' :: ';' :: r => '\x22' :: unescapeMarkup r
  | '&' :: '#' :: '3' :: '9' :: ';' :: r => '\x27' :: unescapeMarkup r
  | c :: r => c :: unescapeMarkup r
  | [] => []

/-- A character has an entity, or it is harmless. -/
theorem entity?_cases (c : Char) :
    (entity? c = none ∧ c ≠ '&' ∧ isMarkup c = false) ∨
      ∃ e, entity? c = some e ∧ (c, e) ∈ entities := by
  by_cases hc : c ∈ entities.map Prod.fst
  · right
    have hall : ∀ p ∈ entities, entity? p.1 = some p.2 := by decide
    obtain ⟨p, hp, rfl⟩ := List.mem_map.mp hc
    exact ⟨p.2, hall p hp, hp⟩
  · left
    simp only [entities, List.map_cons, List.map_nil, List.mem_cons, List.not_mem_nil, or_false,
      not_or] at hc
    simp [entity?, isMarkup, hc]

theorem escapeMarkup_cons_of_none {c : Char} (h : entity? c = none) (t : Text) :
    escapeMarkup (c :: t) = c :: escapeMarkup t := by
  simp [escapeMarkup, h]

theorem escapeMarkup_cons_of_some {c : Char} {e : Text} (h : entity? c = some e) (t : Text) :
    escapeMarkup (c :: t) = e ++ escapeMarkup t := by
  simp [escapeMarkup, h]

/-- Escaped text has no tag or quote in it. -/
theorem filter_isMarkup_escapeMarkup (t : Text) : (escapeMarkup t).filter isMarkup = [] := by
  induction t with
  | nil => rfl
  | cons c t ih =>
    rcases entity?_cases c with ⟨hc, -, hmarkup⟩ | ⟨e, hc, he⟩
    · rw [escapeMarkup_cons_of_none hc, List.filter_cons_of_neg (by simp [hmarkup]), ih]
    · have hall : ∀ p ∈ entities, p.2.filter isMarkup = [] := by decide
      rw [escapeMarkup_cons_of_some hc, List.filter_append, hall _ he, ih, List.nil_append]

theorem isEscaped_nil : IsEscaped [] := fun after h => absurd (List.suffix_nil.mp h) (by simp)

theorem IsEscaped.cons {c : Char} {t : Text} (hc : c ≠ '&') (h : IsEscaped t) :
    IsEscaped (c :: t) := by
  intro after hafter
  rcases List.suffix_cons_iff.mp hafter with he | hafter
  · exact absurd (List.cons.inj he).1.symm hc
  · exact h after hafter

theorem IsEscaped.append {s t : Text} (hs : '&' ∉ s) (h : IsEscaped t) : IsEscaped (s ++ t) := by
  induction s with
  | nil => exact h
  | cons c s ih =>
    rw [List.mem_cons, not_or] at hs
    exact (ih hs.2).cons (Ne.symm hs.1)

/-- An entity is an ampersand and characters that are none. -/
theorem IsEscaped.entity {p : Char × Text} (hp : p ∈ entities) {t : Text} (h : IsEscaped t) :
    IsEscaped (p.2 ++ t) := by
  have hall : ∀ p ∈ entities, p.2 = '&' :: p.2.tail ∧ '&' ∉ p.2.tail := by decide
  obtain ⟨hhead, htail⟩ := hall p hp
  intro after hafter
  rw [hhead, List.cons_append] at hafter
  rcases List.suffix_cons_iff.mp hafter with he | hafter
  · refine ⟨p, hp, ?_⟩
    rw [he, hhead]
    exact ⟨t, rfl⟩
  · exact h.append htail after hafter

theorem isEscaped_escapeMarkup (t : Text) : IsEscaped (escapeMarkup t) := by
  induction t with
  | nil => exact isEscaped_nil
  | cons c t ih =>
    rcases entity?_cases c with ⟨hc, hne, -⟩ | ⟨e, hc, he⟩
    · rw [escapeMarkup_cons_of_none hc]
      exact ih.cons hne
    · rw [escapeMarkup_cons_of_some hc]
      exact ih.entity he

theorem unescapeMarkup_cons_of_ne {c : Char} (h : c ≠ '&') (r : Text) :
    unescapeMarkup (c :: r) = c :: unescapeMarkup r := by
  rw [unescapeMarkup.eq_def]
  split <;> simp_all

theorem unescapeMarkup_entity {p : Char × Text} (h : p ∈ entities) (r : Text) :
    unescapeMarkup (p.2 ++ r) = p.1 :: unescapeMarkup r := by
  simp only [entities, List.mem_cons, List.not_mem_nil, or_false] at h
  rcases h with rfl | rfl | rfl | rfl | rfl <;> rfl

/-- Reading the entities of an escaped text gives it back. -/
theorem unescapeMarkup_escapeMarkup (t : Text) : unescapeMarkup (escapeMarkup t) = t := by
  induction t with
  | nil => rfl
  | cons c t ih =>
    rcases entity?_cases c with ⟨hc, hne, -⟩ | ⟨e, hc, he⟩
    · rw [escapeMarkup_cons_of_none hc, unescapeMarkup_cons_of_ne hne, ih]
    · rw [escapeMarkup_cons_of_some hc, unescapeMarkup_entity he, ih]

theorem escapeMarkup_injective : Function.Injective escapeMarkup :=
  Function.LeftInverse.injective unescapeMarkup_escapeMarkup

end WebHost.Text
