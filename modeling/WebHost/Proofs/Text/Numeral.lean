import Mathlib.Data.List.Induction
import WebHost.Proofs.Text.Digits

/-! Numerals: digits in a row, with any number of leading zeros, and the number that they stand for.
A reader of numbers below a bound takes numerals, and numerals behind a plus sign. -/
namespace WebHost.Text

/-- The text is a row of ASCII digits, and `n` is its value. -/
inductive IsNumeral : Text → Nat → Prop
  | digit {d : Nat} (hd : d < 10) : IsNumeral [Nat.digitChar d] d
  | next {t : Text} {n d : Nat} (h : IsNumeral t n) (hd : d < 10) :
      IsNumeral (t ++ [Nat.digitChar d]) (10 * n + d)

variable {t : Text} {n : Nat}

theorem exists_digitChar {c : Char} (h : c.isDigit) : ∃ d < 10, c = Nat.digitChar d := by
  obtain ⟨hl, hm⟩ := Bool.and_eq_true_iff.mp h
  have hl : 48 ≤ c.toNat := of_decide_eq_true hl
  have hm : c.toNat ≤ 57 := of_decide_eq_true hm
  refine ⟨c.toNat - 48, by omega, Char.toNat_inj.mp ?_⟩
  rw [Nat.toNat_digitChar_of_lt_ten (by omega)]
  omega

theorem IsNumeral.ne_nil (h : IsNumeral t n) : t ≠ [] := by
  cases h <;> simp

theorem IsNumeral.isDigit (h : IsNumeral t n) {c : Char} (hc : c ∈ t) : c.isDigit := by
  induction h with
  | digit hd => simpa [List.mem_singleton.mp hc] using hd
  | next h hd ih =>
    rcases List.mem_append.mp hc with hc | hc
    · exact ih hc
    · simpa [List.mem_singleton.mp hc] using hd

theorem IsNumeral.ofDigitChars_eq (h : IsNumeral t n) : Nat.ofDigitChars 10 t 0 = n := by
  induction h with
  | digit hd => rw [Nat.ofDigitChars_cons_digitChar_of_lt_ten hd]; simp
  | next h hd ih =>
    rw [Nat.ofDigitChars_append, ih, Nat.ofDigitChars_cons_digitChar_of_lt_ten hd,
      Nat.ofDigitChars_nil]

theorem isNumeral_ofDigitChars (hne : t ≠ []) (h : ∀ c ∈ t, c.isDigit) :
    IsNumeral t (Nat.ofDigitChars 10 t 0) := by
  induction t using List.reverseRecOn with
  | nil => exact absurd rfl hne
  | append_singleton t c ih =>
    obtain ⟨d, hd, rfl⟩ := exists_digitChar (h c (by simp))
    rw [Nat.ofDigitChars_append, Nat.ofDigitChars_cons_digitChar_of_lt_ten hd, Nat.ofDigitChars_nil]
    by_cases ht : t = []
    · subst ht
      simpa using IsNumeral.digit hd
    · exact .next (ih ht fun c hc => h c (by simp [hc])) hd

/-- Exactly the numerals have a decimal value. -/
theorem decimalValue?_eq_some_iff : decimalValue? t = some n ↔ IsNumeral t n := by
  constructor
  · intro h
    unfold decimalValue? at h
    split at h
    · next hc =>
      obtain ⟨hne, hall⟩ := Bool.and_eq_true_iff.mp hc
      obtain rfl := Option.some.inj h
      exact isNumeral_ofDigitChars (by simpa using hne) (List.all_eq_true.mp hall)
    · simp at h
  · intro h
    have hall : t.all Char.isDigit := List.all_eq_true.mpr fun c hc => h.isDigit hc
    simp [decimalValue?, hall, h.ne_nil, h.ofDigitChars_eq]

theorem isNumeral_decimal (n : Nat) : IsNumeral (decimal n) n :=
  decimalValue?_eq_some_iff.mp (decimalValue?_decimal n)

theorem IsNumeral.ne_plus (h : IsNumeral t n) (r : Text) : t ≠ '+' :: r := by
  rintro rfl
  exact absurd (h.isDigit (List.mem_cons_self ..)) (by decide)

/-- A number is read from a numeral, or from one behind a plus sign. -/
theorem boundedValue?_eq_some_iff {bound : Nat} :
    boundedValue? bound t = some n ↔
      n < bound ∧ (IsNumeral t n ∨ ∃ digits, t = '+' :: digits ∧ IsNumeral digits n) := by
  unfold boundedValue?
  rw [Option.filter_eq_some_iff, decimalValue?_eq_some_iff, decide_eq_true_eq, and_comm]
  refine and_congr_right fun _ => ?_
  split
  · next digits =>
    refine ⟨fun h => .inr ⟨digits, rfl, h⟩, ?_⟩
    rintro (h | ⟨_, he, h⟩)
    · exact absurd rfl (h.ne_plus digits)
    · rwa [← (List.cons.inj he).2] at h
  · next hp =>
    refine ⟨.inl, ?_⟩
    rintro (h | ⟨digits, rfl, -⟩)
    · exact h
    · exact absurd rfl (hp digits)

theorem size?_eq_some_iff :
    size? t = some n ↔
      n < sizeBound ∧ (IsNumeral t n ∨ ∃ digits, t = '+' :: digits ∧ IsNumeral digits n) :=
  boundedValue?_eq_some_iff

end WebHost.Text
