import WebHost.Proofs.Text.Lines
import WebHost.Text.Basic

/-! Folding the case of letters. It touches nothing but ASCII letters, so that a text without them
is the only spelling of itself. -/
namespace WebHost.Text

theorem toNat_of_isAlpha_eq_false {c : Char} (h : c.isAlpha = false) :
    ¬ (65 ≤ c.toNat ∧ c.toNat ≤ 90) ∧ ¬ (97 ≤ c.toNat ∧ c.toNat ≤ 122) := by
  obtain ⟨hupper, hlower⟩ := Bool.or_eq_false_iff.mp h
  refine ⟨of_decide_eq_false hupper, fun ⟨hl, hm⟩ => ?_⟩
  have hsmall : c.isLower = true :=
    Bool.and_eq_true_iff.mpr ⟨decide_eq_true (p := 97 ≤ c.toNat) hl,
      decide_eq_true (p := c.toNat ≤ 122) hm⟩
  rw [hsmall] at hlower
  cases hlower

/-- Folding leads to and from no character but a letter. -/
theorem toLower_eq_iff {c d : Char} (hd : d.isAlpha = false) : c.toLower = d ↔ c = d := by
  obtain ⟨hupper, hlower⟩ := toNat_of_isAlpha_eq_false hd
  have hn := toNat_toLower c
  constructor
  · rintro rfl
    split at hn
    · omega
    · exact Char.toNat_inj.mp hn.symm
  · rintro rfl
    rw [if_neg hupper] at hn
    exact Char.toNat_inj.mp hn

@[simp] theorem folded_append (s t : Text) : folded (s ++ t) = folded s ++ folded t :=
  List.map_append

/-- A text without letters has no other spelling. -/
theorem eq_of_folded_eq {s t : Text} (ht : ∀ c ∈ t, c.isAlpha = false)
    (h : folded s = folded t) : s = t := by
  induction t generalizing s with
  | nil => simpa [folded] using h
  | cons c t ih =>
    obtain ⟨d, s, rfl, hd, hs⟩ := List.map_eq_cons_iff.mp h
    have hc := ht c (by simp)
    rw [(toLower_eq_iff hc).mp (hd.trans ((toLower_eq_iff hc).mpr rfl)),
      ih (fun c hc => ht c (by simp [hc])) hs]

theorem mem_folded_iff {c : Char} {t : Text} (hc : c.isAlpha = false) : c ∈ folded t ↔ c ∈ t := by
  simp [folded, toLower_eq_iff hc]

theorem toLower_toLower (c : Char) : c.toLower.toLower = c.toLower := by
  have hn := toNat_toLower c
  refine Char.toNat_inj.mp ?_
  rw [toNat_toLower c.toLower, if_neg]
  split at hn <;> omega

@[simp] theorem folded_folded (t : Text) : folded (folded t) = folded t := by
  rw [folded, folded, List.map_map]
  exact List.map_congr_left fun c _ => toLower_toLower c

end WebHost.Text
