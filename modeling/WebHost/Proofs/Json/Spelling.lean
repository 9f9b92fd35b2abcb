import Mathlib.Data.List.Forall2
import WebHost.Json.Compact
import WebHost.Json.Token
import WebHost.Proofs.Text.Digits
import WebHost.Proofs.Text.Utf8

/-! What tokens a text spells. Marks, strings and words end by themselves, wherever they stand; a
number ends where something follows that is no part of it. -/
namespace WebHost.Json
open Utf8 (encode)

/-- The text is read as these tokens, whatever stands behind it. -/
def Marks (t : Text) (ts : List Token) : Prop :=
  ∀ done, (encode t).foldl Lexer.step ⟨done, .between⟩ = ⟨ts.reverse ++ done, .between⟩

theorem Marks.append {s t : Text} {ss ts : List Token} (hs : Marks s ss) (ht : Marks t ts) :
    Marks (s ++ t) (ss ++ ts) := by
  intro done
  rw [Utf8.encode_append, List.foldl_append, hs, ht, List.reverse_append, List.append_assoc]

/-- Bytes that do not go on with a number. -/
def EndsNumber (r : Bytes) : Prop := ∀ b ∈ r.head?, NumberPart.next? .digits b = none

/-- The text is read as these tokens, unless more of a number follows. -/
def Spells (t : Text) (ts : List Token) : Prop :=
  ∀ (done : List Token) (r : Bytes), EndsNumber r →
    ((encode t ++ r).foldl Lexer.step ⟨done, .between⟩).finish =
      (r.foldl Lexer.step ⟨ts.reverse ++ done, .between⟩).finish

theorem Marks.spells {t : Text} {ts : List Token} (h : Marks t ts) : Spells t ts := by
  intro done r _
  rw [List.foldl_append, h]

theorem Marks.append_spells {s t : Text} {ss ts : List Token} (hs : Marks s ss) (ht : Spells t ts) :
    Spells (s ++ t) (ss ++ ts) := by
  intro done r hr
  rw [Utf8.encode_append, List.append_assoc, List.foldl_append, hs, ht _ _ hr, List.reverse_append,
    List.append_assoc]

/-- The text begins with a character that is in no number. -/
def Apart (t : Text) : Prop := ∃ c ∈ [' ', '\n', ',', ':', ']', '\x7d'], ∃ r, t = c :: r

theorem Apart.append {s : Text} (h : Apart s) (t : Text) : Apart (s ++ t) := by
  obtain ⟨c, hc, r, rfl⟩ := h
  exact ⟨c, hc, r ++ t, rfl⟩

theorem Apart.endsNumber {t : Text} (h : Apart t) (r : Bytes) : EndsNumber (encode t ++ r) := by
  obtain ⟨c, hc, s, rfl⟩ := h
  obtain ⟨hascii, hnext⟩ :
      c.toNat < 0x80 ∧ NumberPart.next? .digits (UInt8.ofNat c.toNat) = none := by
    simp only [List.mem_cons, List.not_mem_nil, or_false] at hc
    rcases hc with rfl | rfl | rfl | rfl | rfl | rfl <;> decide
  intro b hb
  rw [encode, List.flatMap_cons, Utf8.utf8EncodeChar_of_ascii hascii] at hb
  obtain rfl : UInt8.ofNat c.toNat = b := Option.some.inj hb
  exact hnext

theorem Spells.append {s t : Text} {ss ts : List Token} (hs : Spells s ss) (ht : Spells t ts)
    (ha : Apart t) : Spells (s ++ t) (ss ++ ts) := by
  intro done r hr
  rw [Utf8.encode_append, List.append_assoc, hs _ _ (ha.endsNumber r), ht _ _ hr,
    List.reverse_append, List.append_assoc]

/-- A text has the tokens that it spells. -/
theorem Spells.tokens? {t : Text} {ts : List Token} (h : Spells t ts) :
    tokens? (encode t) = some ts := by
  have h := h [] [] (by simp [EndsNumber])
  simpa [Json.tokens?, Lexer.finish] using h

/-- Items that stand apart from each other are read one by one, with a comma between. -/
theorem spells_intercalate {sep : Text} (hsep : Marks sep [.comma]) (ha : Apart sep)
    {texts : List Text} {tss : List (List Token)} (h : List.Forall₂ Spells texts tss) :
    Spells (sep.intercalate texts) ([Token.comma].intercalate tss) := by
  induction h with
  | nil => exact Marks.spells fun done => rfl
  | cons ht hrest ih =>
    cases hrest with
    | nil => simpa using ht
    | cons hu hrest =>
      rw [List.intercalate_cons_cons, List.intercalate_cons_cons, List.append_assoc,
        List.append_assoc]
      exact ht.append (hsep.append_spells ih) (ha.append _)

section Strings

theorem spellBefore_bytes (out bs : Bytes) (ps : List Piece) :
    Piece.spellBefore out ((bs.map Piece.byte).reverse ++ ps) = Piece.spellBefore (bs ++ out) ps := by
  induction bs generalizing out ps with
  | nil => rfl
  | cons b bs ih =>
    rw [List.map_cons, List.reverse_cons, List.append_assoc, ih]
    rfl

theorem spellBefore_unit {n : Nat} (hlow : Piece.isLow n = false) (hhigh : Piece.isHigh n = false)
    (out : Bytes) (ps : List Piece) :
    Piece.spellBefore out (.unit n :: ps) =
      Piece.spellBefore (String.utf8EncodeChar (Char.ofNat n) ++ out) ps := by
  rw [Piece.spellBefore.eq_def]
  simp [hlow, hhigh]

/-- Bytes of a string that are neither a quote nor a backslash nor a control character. -/
theorem foldl_step_plain {bs : Bytes} (h : ∀ b ∈ bs, b ≠ 0x22 ∧ b ≠ 0x5C ∧ 0x20 ≤ b)
    (done : List Token) (ps : List Piece) :
    bs.foldl Lexer.step ⟨done, .string ps⟩ = ⟨done, .string ((bs.map Piece.byte).reverse ++ ps)⟩ := by
  induction bs generalizing ps with
  | nil => rfl
  | cons b bs ih =>
    obtain ⟨hquote, hslash, hcontrol⟩ := h b (by simp)
    have hstep : Lexer.step ⟨done, .string ps⟩ b = ⟨done, .string (.byte b :: ps)⟩ := by
      simp [Lexer.step, hquote, hslash, UInt8.not_lt.mpr hcontrol]
    rw [List.foldl_cons, hstep, ih fun b' hb' => h b' (by simp [hb'])]
    simp

/-- The bytes of a character that is not escaped. -/
theorem plain_of_mem_utf8EncodeChar {c : Char} (hshort : shortEscape? c = none)
    (hc : ¬ c.toNat < 0x20) {b : UInt8} (hb : b ∈ String.utf8EncodeChar c) :
    b ≠ 0x22 ∧ b ≠ 0x5C ∧ 0x20 ≤ b := by
  have hchar (hlt : b.toNat < 0x80) : c = Char.ofNat b.toNat := by
    rw [← Utf8.toNat_of_mem_utf8EncodeChar hb hlt, Char.ofNat_toNat]
  refine ⟨?_, ?_, ?_⟩
  · rintro rfl
    rw [hchar (by decide)] at hshort
    exact absurd hshort (by decide)
  · rintro rfl
    rw [hchar (by decide)] at hshort
    exact absurd hshort (by decide)
  · rw [UInt8.le_iff_toNat_le]
    by_contra hlt
    have hlt : b.toNat < 32 := Nat.lt_of_not_le hlt
    rw [Utf8.toNat_of_mem_utf8EncodeChar hb (by omega)] at hc
    exact hc hlt

theorem hexDigit?_digitChar : ∀ d < 16,
    encode [Nat.digitChar d] = [UInt8.ofNat (Nat.digitChar d).toNat] ∧
      Lexer.hexDigit? (UInt8.ofNat (Nat.digitChar d).toNat) = some d := by
  decide

/-- A control character as a unit of four hexadecimal digits. -/
theorem foldl_step_unit {n : Nat} (hn : n < 0x20) (done : List Token) (ps : List Piece) :
    (encode ("\\u00".toList ++ Text.hexByte (UInt8.ofNat n))).foldl Lexer.step ⟨done, .string ps⟩ =
      ⟨done, .string (.unit n :: ps)⟩ := by
  have hb : (UInt8.ofNat n).toNat = n := Utf8.toNat_ofNat_of_lt (by omega)
  obtain ⟨hhigh, hhigh'⟩ := hexDigit?_digitChar (n / 16) (by omega)
  obtain ⟨hlow, hlow'⟩ := hexDigit?_digitChar (n % 16) (by omega)
  have hzero : (encode "\\u00".toList).foldl Lexer.step ⟨done, .string ps⟩ =
      ⟨done, .unit ps 2 0⟩ := rfl
  have hdigits : encode (Text.hexByte (UInt8.ofNat n)) =
      [UInt8.ofNat (Nat.digitChar (n / 16)).toNat, UInt8.ofNat (Nat.digitChar (n % 16)).toNat] := by
    rw [Text.hexByte, hb, ← List.singleton_append, Utf8.encode_append, hhigh, hlow]
    rfl
  rw [Utf8.encode_append, List.foldl_append, hzero, hdigits]
  simp only [List.foldl_cons, List.foldl_nil, Lexer.step, hhigh', hlow']
  simp
  omega

/-- An escaped character adds pieces that spell its bytes. -/
theorem foldl_step_escape (c : Char) (done : List Token) (ps : List Piece) :
    ∃ qs, (encode (escape c)).foldl Lexer.step ⟨done, .string ps⟩ = ⟨done, .string (qs ++ ps)⟩ ∧
      ∀ out, Piece.spellBefore out (qs ++ ps) =
        Piece.spellBefore (String.utf8EncodeChar c ++ out) ps := by
  unfold escape
  split
  · next e he =>
    unfold shortEscape? at he
    repeat' split at he
    all_goals simp only [Option.some.injEq, reduceCtorEq] at he
    all_goals subst_vars; exact ⟨[.byte _], rfl, fun out => rfl⟩
  · next he =>
    split
    · next hc =>
      refine ⟨[.unit c.toNat], foldl_step_unit hc done ps, fun out => ?_⟩
      have hlow : Piece.isLow c.toNat = false := by simp [Piece.isLow]; omega
      have hhigh : Piece.isHigh c.toNat = false := by simp [Piece.isHigh]; omega
      rw [List.singleton_append, spellBefore_unit hlow hhigh, Char.ofNat_toNat]
    · next hc =>
      refine ⟨_, ?_, fun out => spellBefore_bytes out (String.utf8EncodeChar c) ps⟩
      rw [encode, List.flatMap_singleton]
      exact foldl_step_plain (fun b hb => plain_of_mem_utf8EncodeChar he hc hb) done ps

theorem foldl_step_escapes (t : Text) (done : List Token) (ps : List Piece) :
    ∃ qs, (encode (t.flatMap escape)).foldl Lexer.step ⟨done, .string ps⟩ =
        ⟨done, .string (qs ++ ps)⟩ ∧
      ∀ out, Piece.spellBefore out (qs ++ ps) = Piece.spellBefore (encode t ++ out) ps := by
  induction t generalizing ps with
  | nil => exact ⟨[], rfl, fun out => rfl⟩
  | cons c t ih =>
    obtain ⟨qs, hfold, hspell⟩ := foldl_step_escape c done ps
    obtain ⟨rs, hfolds, hspells⟩ := ih (qs ++ ps)
    refine ⟨rs ++ qs, ?_, fun out => ?_⟩
    · rw [List.flatMap_cons, Utf8.encode_append, List.foldl_append, hfold, hfolds,
        List.append_assoc]
    · rw [List.append_assoc, hspells, hspell, ← List.append_assoc]
      rfl

/-- A quoted text is a string that holds it. -/
theorem marks_quote (t : Text) : Marks (quote t) [.string (some t)] := by
  intro done
  obtain ⟨qs, hfold, hspell⟩ := foldl_step_escapes t done []
  have htext : Piece.text? qs = some t := by
    have h := hspell []
    rw [List.append_nil, List.append_nil] at h
    rw [Piece.text?, h]
    exact Utf8.decode?_encode t
  have hopen : Lexer.step ⟨done, .between⟩ 0x22 = ⟨done, .string []⟩ := rfl
  have hclose : Lexer.step ⟨done, .string qs⟩ 0x22 = ⟨.string (Piece.text? qs) :: done, .between⟩ :=
    rfl
  have hquote : encode (quote t) = 0x22 :: (encode (t.flatMap escape) ++ [0x22]) := by
    rw [quote, Utf8.encode_append]
    rfl
  rw [List.append_nil] at hfold
  rw [hquote, List.foldl_cons, hopen, List.foldl_append, hfold, List.foldl_cons, hclose, htext]
  rfl

end Strings

section Numbers

theorem digit_byte : ∀ d < 10,
    encode [Nat.digitChar d] = [UInt8.ofNat (48 + d)] ∧ NumberPart.isDigit (UInt8.ofNat (48 + d)) ∧
      (UInt8.ofNat (48 + d)).toNat - 0x30 = d := by
  decide

theorem start_digit {d : Nat} (h : d < 10) (hd : d ≠ 0) (done : List Token) :
    Lexer.step ⟨done, .between⟩ (UInt8.ofNat (48 + d)) = ⟨done, .number .digits (some d)⟩ := by
  match d with
  | 0 => exact absurd rfl hd
  | 1 | 2 | 3 | 4 | 5 | 6 | 7 | 8 | 9 => rfl
  | d + 10 => omega

/-- The digits of a number above zero. -/
theorem foldl_step_decimal {n : Nat} (hn : n ≠ 0) (done : List Token) :
    (encode (Text.decimal n)).foldl Lexer.step ⟨done, .between⟩ =
      ⟨done, .number .digits (some n)⟩ := by
  induction n using Nat.strongRecOn with
  | ind n ih =>
    by_cases hlt : n < 10
    · rw [Text.decimal, Nat.toDigits_of_lt_base hlt, (digit_byte n hlt).1, List.foldl_cons,
        start_digit hlt hn, List.foldl_nil]
    · obtain ⟨hbyte, hdigit, hvalue⟩ := digit_byte (n % 10) (by omega)
      have hsplit : Text.decimal n = Text.decimal (n / 10) ++ [Nat.digitChar (n % 10)] :=
        Nat.toDigits_of_base_le (by omega) (by omega)
      rw [hsplit, Utf8.encode_append, List.foldl_append, ih (n / 10) (by omega) (by omega), hbyte,
        List.foldl_cons, List.foldl_nil]
      simp only [Lexer.step, NumberPart.next?, hdigit, if_true, Option.map_some, hvalue]
      rw [Nat.div_add_mod]

/-- A number is complete where it ends. -/
theorem finish_number {part : NumberPart} (hc : part.isComplete) {r : Bytes}
    (hr : ∀ b ∈ r.head?, part.next? b = none) (value : Option Nat) (done : List Token) :
    (r.foldl Lexer.step ⟨done, .number part value⟩).finish =
      (r.foldl Lexer.step ⟨.number value :: done, .between⟩).finish := by
  cases r with
  | nil => simp [Lexer.finish, hc]
  | cons b r =>
    have hb : part.next? b = none := hr b rfl
    have hstep : Lexer.step ⟨done, .number part value⟩ b =
        Lexer.step ⟨.number value :: done, .between⟩ b := by
      simp [Lexer.step, hb, hc]
    rw [List.foldl_cons, List.foldl_cons, hstep]

theorem spells_decimal (n : Nat) : Spells (Text.decimal n) [.number (some n)] := by
  intro done r hr
  rw [List.foldl_append]
  by_cases hn : n = 0
  · subst hn
    have hend : ∀ b ∈ r.head?, NumberPart.zero.next? b = none := by
      intro b hb
      have hb := hr b hb
      simp only [NumberPart.next?] at hb ⊢
      split at hb
      · simp at hb
      · exact hb
    exact finish_number rfl hend _ _
  · rw [foldl_step_decimal hn]
    exact finish_number rfl hr _ _

end Numbers

end WebHost.Json
