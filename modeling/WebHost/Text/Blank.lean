import WebHost.Text.Basic

/-! Blank characters are those with the Unicode property White_Space; trimming removes them at both ends. -/
namespace WebHost.Text

def isBlank (c : Char) : Bool :=
  let n := c.toNat
  (9 ≤ n && n ≤ 13) || n == 0x20 || n == 0x85 || n == 0xA0 || n == 0x1680 ||
    (0x2000 ≤ n && n ≤ 0x200A) || n == 0x2028 || n == 0x2029 || n == 0x202F || n == 0x205F ||
    n == 0x3000

def trimStart (t : Text) : Text := t.dropWhile isBlank

def trimEnd (t : Text) : Text := (t.reverse.dropWhile isBlank).reverse

def trim (t : Text) : Text := trimEnd (trimStart t)

/-- No blank at either end. The empty text is trimmed. -/
def IsTrimmed (t : Text) : Prop := t.head?.all (! isBlank ·) ∧ t.getLast?.all (! isBlank ·)

instance (t : Text) : Decidable (IsTrimmed t) := inferInstanceAs (Decidable (_ ∧ _))

theorem trimStart_of_isTrimmed {t : Text} (h : IsTrimmed t) : trimStart t = t := by
  cases t with
  | nil => rfl
  | cons c r =>
    have hc : isBlank c = false := by simpa using h.1
    simp [trimStart, hc]

theorem trimEnd_of_isTrimmed {t : Text} (h : IsTrimmed t) : trimEnd t = t := by
  have hl := h.2
  rw [List.getLast?_eq_head?_reverse] at hl
  cases hr : t.reverse with
  | nil => simp_all [trimEnd]
  | cons c r =>
    rw [hr] at hl
    have hc : isBlank c = false := by simpa using hl
    rw [trimEnd, hr, List.dropWhile_cons, hc]
    simp [← hr]

theorem trim_of_isTrimmed {t : Text} (h : IsTrimmed t) : trim t = t := by
  rw [trim, trimStart_of_isTrimmed h, trimEnd_of_isTrimmed h]

end WebHost.Text
