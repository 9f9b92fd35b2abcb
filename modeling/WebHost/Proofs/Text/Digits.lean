import WebHost.Proofs.Text.Lines
import WebHost.Text.Decimal

/-! Digits, decimal and hexadecimal. Numbers below a bound are read back from their digits, and no
digit is a blank. -/
namespace WebHost.Text

theorem isDigit_of_mem_decimal {n : Nat} {c : Char} (h : c ∈ decimal n) : c.isDigit :=
  Nat.isDigit_of_mem_toDigits (by omega) (by omega) h

theorem boundedValue?_decimal {n bound : Nat} (h : n < bound) :
    boundedValue? bound (decimal n) = some n := by
  have hplus : ∀ r, decimal n ≠ '+' :: r := by
    intro r hr
    have hc : '+'.isDigit := isDigit_of_mem_decimal (n := n) (by simp [hr])
    exact absurd hc (by decide)
  unfold boundedValue?
  split
  · next r hr => exact absurd hr (hplus r)
  · simp [h]

theorem size?_decimal {n : Nat} (h : n < sizeBound) : size? (decimal n) = some n :=
  boundedValue?_decimal h

theorem isBlank_of_isAlphanum {c : Char} (h : c.isAlphanum) : isBlank c = false := by
  have hkind : (c.isUpper || c.isLower || c.isDigit) = true := h
  rw [Bool.or_eq_true, Bool.or_eq_true] at hkind
  have hrange : 48 ≤ c.toNat ∧ c.toNat ≤ 122 := by
    rcases hkind with (h | h) | h
    · obtain ⟨hl, hm⟩ : 65 ≤ c.toNat ∧ c.toNat ≤ 90 := of_decide_eq_true h
      omega
    · obtain ⟨hl, hm⟩ := Bool.and_eq_true_iff.mp h
      have hl : 97 ≤ c.toNat := of_decide_eq_true hl
      have hm : c.toNat ≤ 122 := of_decide_eq_true hm
      omega
    · obtain ⟨hl, hm⟩ := Bool.and_eq_true_iff.mp h
      have hl : 48 ≤ c.toNat := of_decide_eq_true hl
      have hm : c.toNat ≤ 57 := of_decide_eq_true hm
      omega
  exact isBlank_of_lt_of_lt (by omega) (by omega)

theorem isBlank_of_isDigit {c : Char} (h : c.isDigit) : isBlank c = false :=
  isBlank_of_isAlphanum (by simp [Char.isAlphanum, h])

theorem isTrimmed_decimal (n : Nat) : IsTrimmed (decimal n) :=
  isTrimmed_of_forall fun _ hc => isBlank_of_isDigit (isDigit_of_mem_decimal hc)

/-- The sixteen digits that are written. -/
def hexDigits : Text := "0123456789abcdef".toList

theorem digitChar_mem_hexDigits : ∀ n < 16, Nat.digitChar n ∈ hexDigits := by decide

theorem hexByte_inj {b c : UInt8} : hexByte b = hexByte c ↔ b = c := by
  have hall : ∀ m < 16, ∀ n < 16, Nat.digitChar m = Nat.digitChar n → m = n := by decide
  constructor
  · intro h
    obtain ⟨hhigh, hlow, -⟩ : Nat.digitChar (b.toNat / 16) = Nat.digitChar (c.toNat / 16) ∧
        Nat.digitChar (b.toNat % 16) = Nat.digitChar (c.toNat % 16) ∧ True := by
      simpa [hexByte] using h
    have hb := b.toNat_lt
    have hc := c.toNat_lt
    have hhigh := hall _ (by omega) _ (by omega) hhigh
    have hlow := hall _ (by omega) _ (by omega) hlow
    exact UInt8.toNat_inj.mp (by omega)
  · rintro rfl
    rfl

theorem hex_inj {as bs : Bytes} : hex as = hex bs ↔ as = bs := by
  constructor
  · intro h
    induction as generalizing bs with
    | nil => cases bs with
      | nil => rfl
      | cons b bs => simp [hex, hexByte] at h
    | cons a as ih => cases bs with
      | nil => simp [hex, hexByte] at h
      | cons b bs =>
        obtain ⟨hhead, htail⟩ := List.append_inj (h : hexByte a ++ hex as = hexByte b ++ hex bs) rfl
        rw [hexByte_inj.mp hhead, ih htail]
  · rintro rfl
    rfl

theorem mem_hexDigits_of_mem_hex {bs : Bytes} {c : Char} (h : c ∈ hex bs) : c ∈ hexDigits := by
  obtain ⟨b, -, hc⟩ := List.mem_flatMap.mp h
  have hb := b.toNat_lt
  simp only [hexByte, List.mem_cons, List.not_mem_nil, or_false] at hc
  rcases hc with rfl | rfl
  · exact digitChar_mem_hexDigits _ (by omega)
  · exact digitChar_mem_hexDigits _ (by omega)

end WebHost.Text
