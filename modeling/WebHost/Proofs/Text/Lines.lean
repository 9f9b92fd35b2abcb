import Mathlib.Data.List.TakeWhile
import WebHost.Text.Blank
import WebHost.Text.Cut

/-! Lines, cuts and blanks. Lines and cuts hold no characters but those of the text they come from,
and give back the parts of a text that has been put together from them. -/
namespace WebHost.Text

theorem mem_of_mem_consLine {c d : Char} {ls : List Text} {l : Text} (hl : l ∈ consLine c ls)
    (hd : d ∈ l) : d = c ∨ ∃ l' ∈ ls, d ∈ l' := by
  unfold consLine at hl
  split at hl
  · left
    simp_all
  · next first others =>
    split at hl
    · next rest =>
      simp only [List.mem_cons] at hl
      rcases hl with rfl | rfl | hl
      · simp at hd
      · exact .inr ⟨'\n' :: l, by simp, by simp [hd]⟩
      · exact .inr ⟨l, by simp [hl], hd⟩
    · simp only [List.mem_cons] at hl
      rcases hl with rfl | hl
      · rcases List.mem_cons.mp hd with rfl | hd
        · exact .inl rfl
        · exact .inr ⟨first, by simp, hd⟩
      · exact .inr ⟨l, by simp [hl], hd⟩

theorem mem_of_mem_lines {t l : Text} {c : Char} (hl : l ∈ lines t) (hc : c ∈ l) : c ∈ t := by
  induction t generalizing l with
  | nil =>
    rw [lines_nil, List.mem_singleton] at hl
    simp [hl] at hc
  | cons d t ih =>
    have hl : l ∈ consLine d (lines t) := hl
    rcases mem_of_mem_consLine hl hc with rfl | ⟨l', hl', hc'⟩
    · simp
    · exact List.mem_cons_of_mem _ (ih hl' hc')

theorem mem_of_cut?_singleton {c : Char} {t before rest : Text}
    (h : cut? [c] t = some (before, rest)) : c ∈ t := by
  rw [cut?_eq_some h]
  simp

theorem consLine_of_ne {c : Char} (h : c ≠ '\r') (l : Text) (ls : List Text) :
    consLine c (l :: ls) = (c :: l) :: ls := by
  unfold consLine
  split
  · next he => simp at he
  · next he =>
    obtain ⟨rfl, rfl⟩ := List.cons.inj he
    split
    · exact absurd rfl h
    · rfl

/-- What a line begins with stays in front of it. -/
theorem lines_append_of_not_mem {l t first : Text} {others : List Text} (h : '\r' ∉ l)
    (ht : lines t = first :: others) : lines (l ++ t) = (l ++ first) :: others := by
  induction l with
  | nil => exact ht
  | cons c l ih =>
    rw [List.mem_cons, not_or] at h
    have hl := ih h.2
    rw [List.cons_append, lines, List.foldr_cons, ← lines, hl, consLine_of_ne (Ne.symm h.1)]
    rfl

theorem lines_of_not_mem {l : Text} (h : '\r' ∉ l) : lines l = [l] := by
  simpa using lines_append_of_not_mem h lines_nil

theorem lines_lineBreak (t : Text) : lines ('\r' :: '\n' :: t) = [] :: lines t := by
  obtain ⟨first, others, h⟩ := List.exists_cons_of_ne_nil (lines_ne_nil t)
  rw [lines, List.foldr_cons, List.foldr_cons, ← lines, h, consLine_of_ne (by decide)]
  rfl

/-- A line ends at the first line break behind it. -/
theorem lines_append_lineBreak {l : Text} (h : '\r' ∉ l) (t : Text) :
    lines (l ++ '\r' :: '\n' :: t) = l :: lines t := by
  simpa using lines_append_of_not_mem h (lines_lineBreak t)

/-- Lines that are joined by line breaks come apart again. -/
theorem lines_intercalate {ls : List Text} (h : ∀ l ∈ ls, '\r' ∉ l) (hne : ls ≠ []) :
    lines (['\r', '\n'].intercalate ls) = ls := by
  induction ls with
  | nil => exact absurd rfl hne
  | cons l ls ih =>
    have hl : '\r' ∉ l := h l (by simp)
    cases ls with
    | nil => simpa using lines_of_not_mem hl
    | cons m ms =>
      rw [List.intercalate_cons_cons, List.append_assoc, List.cons_append, List.cons_append,
        List.nil_append, lines_append_lineBreak hl, ih (fun l' hl' => h l' (by simp [hl'])) (by simp)]

theorem cutFrom_append_of_not_mem {c : Char} {before : Text} (h : c ∉ before) (seen rest : Text) :
    cutFrom [c] seen (before ++ c :: rest) = some (seen.reverse ++ before, rest) := by
  induction before generalizing seen with
  | nil => simp [cutFrom]
  | cons d before ih =>
    rw [List.mem_cons, not_or] at h
    simp [cutFrom, h.1, ih h.2]

/-- A text is cut at the first occurrence of a character. -/
theorem cut?_append_of_not_mem {c : Char} {before : Text} (h : c ∉ before) (rest : Text) :
    cut? [c] (before ++ c :: rest) = some (before, rest) :=
  cutFrom_append_of_not_mem h [] rest

theorem not_mem_of_cutFrom {c : Char} {seen t found rest : Text}
    (h : cutFrom [c] seen t = some (found, rest)) :
    ∃ before, found = seen.reverse ++ before ∧ c ∉ before := by
  induction t generalizing seen with
  | nil => simp [cutFrom] at h
  | cons d t ih =>
    rw [cutFrom] at h
    split at h
    · obtain ⟨rfl, -⟩ : seen.reverse = found ∧ _ = rest := by simpa using h
      exact ⟨[], by simp, by simp⟩
    · next hd =>
      obtain ⟨before, rfl, hbefore⟩ := ih h
      exact ⟨d :: before, by simp, by simpa [hbefore] using hd⟩

/-- A cut at a character is at its first occurrence. -/
theorem cut?_singleton_eq_some_iff {c : Char} {t before rest : Text} :
    cut? [c] t = some (before, rest) ↔ t = before ++ c :: rest ∧ c ∉ before := by
  constructor
  · intro h
    obtain ⟨found, rfl, hfound⟩ := not_mem_of_cutFrom h
    exact ⟨by simpa using cut?_eq_some h, hfound⟩
  · rintro ⟨rfl, h⟩
    exact cut?_append_of_not_mem h rest

theorem cutFrom_of_not_mem {c : Char} {t : Text} (h : c ∉ t) (seen : Text) :
    cutFrom [c] seen t = none := by
  induction t generalizing seen with
  | nil => simp [cutFrom]
  | cons d t ih =>
    rw [List.mem_cons, not_or] at h
    simp [cutFrom, h.1, ih h.2]

theorem cut?_of_not_mem {c : Char} {t : Text} (h : c ∉ t) : cut? [c] t = none :=
  cutFrom_of_not_mem h []

theorem isSome_cutFrom_of_infix {mark t : Text} (h : mark <:+: t) (seen : Text) :
    (cutFrom mark seen t).isSome := by
  induction t generalizing seen with
  | nil =>
    obtain rfl := List.infix_nil.mp h
    rfl
  | cons c t ih =>
    rw [cutFrom]
    split
    · rfl
    · next hp =>
      rw [List.isPrefixOf_iff_prefix] at hp
      exact ih ((List.infix_cons_iff.mp h).resolve_left hp) _

/-- A text can be cut at a mark that stands in it. -/
theorem isSome_cut?_of_infix {mark t : Text} (h : mark <:+: t) : (cut? mark t).isSome :=
  isSome_cutFrom_of_infix h []

theorem isBlank_of_lt_of_lt {c : Char} (h : 0x20 < c.toNat) (h' : c.toNat < 0x85) :
    isBlank c = false := by
  simp only [isBlank, Bool.or_eq_false_iff, Bool.and_eq_false_iff, beq_eq_false_iff_ne,
    decide_eq_false_iff_not]
  omega

theorem toNat_toLower (c : Char) :
    c.toLower.toNat = if 65 ≤ c.toNat ∧ c.toNat ≤ 90 then c.toNat + 32 else c.toNat := by
  have hupper : c.val ≥ 'A'.val ∧ c.val ≤ 'Z'.val ↔ 65 ≤ c.toNat ∧ c.toNat ≤ 90 := Iff.rfl
  unfold Char.toLower
  by_cases h : 65 ≤ c.toNat ∧ c.toNat ≤ 90
  · have hn : (c.val + ('a'.val - 'A'.val)).toNat = (c.toNat + 32) % 4294967296 := rfl
    rw [dif_pos (hupper.mpr h), if_pos h]
    exact hn.trans (Nat.mod_eq_of_lt (by omega))
  · rw [dif_neg (mt hupper.mp h), if_neg h]

/-- No letter that folding changes is a blank, before or after. -/
theorem isBlank_toLower (c : Char) : isBlank c.toLower = isBlank c := by
  have hn := toNat_toLower c
  split at hn
  · rw [isBlank_of_lt_of_lt (c := c) (by omega) (by omega), isBlank_of_lt_of_lt (by omega) (by omega)]
  · rw [isBlank, hn, isBlank]

theorem isTrimmed_of_forall {t : Text} (h : ∀ c ∈ t, isBlank c = false) : IsTrimmed t := by
  constructor
  · cases hc : t.head? with
    | none => rfl
    | some c => simp [h c (List.mem_of_head? hc)]
  · cases hc : t.getLast? with
    | none => rfl
    | some c => simp [h c (List.mem_of_getLast? hc)]

/-- Blanks in front of a text that is trimmed are all that trimming removes. -/
theorem trim_cons_of_isBlank {c : Char} {t : Text} (hc : isBlank c) (ht : IsTrimmed t) :
    trim (c :: t) = t := by
  have hstart : trimStart (c :: t) = trimStart t := by simp [trimStart, hc]
  rw [trim, hstart, ← trim, trim_of_isTrimmed ht]

theorem trim_ne_nil_of_mem {c : Char} {t : Text} (hc : isBlank c = false) (h : c ∈ t) :
    trim t ≠ [] := by
  have hstart : c ∈ trimStart t := by
    rw [← List.takeWhile_append_dropWhile (p := isBlank) (l := t), List.mem_append] at h
    refine h.resolve_left fun hw => ?_
    rw [List.mem_takeWhile_imp hw] at hc
    exact absurd hc (by decide)
  intro hnil
  rw [trim, trimEnd, List.reverse_eq_nil_iff, List.dropWhile_eq_nil_iff] at hnil
  rw [hnil c (by simpa using hstart)] at hc
  exact absurd hc (by decide)

end WebHost.Text
