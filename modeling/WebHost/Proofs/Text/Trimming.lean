import Mathlib.Data.List.TakeWhile
import WebHost.Text.Blank

/-! Trimming. It takes off the blanks at both ends and nothing else, so that what is left is the one
trimmed text that has nothing but blanks around it. -/
namespace WebHost.Text

/-- Nothing but blanks. -/
def Blanks (t : Text) : Prop := ∀ c ∈ t, isBlank c

instance (t : Text) : Decidable (Blanks t) := List.decidableBAll (isBlank ·) t

variable {lead t trail : Text}

theorem trimStart_append (hl : Blanks lead) (t : Text) : trimStart (lead ++ t) = trimStart t :=
  List.dropWhile_append_of_pos hl

theorem trimEnd_append (ht : Blanks trail) (t : Text) : trimEnd (t ++ trail) = trimEnd t := by
  have hrev : ∀ c ∈ trail.reverse, isBlank c := fun c hc => ht c (List.mem_reverse.mp hc)
  rw [trimEnd, List.reverse_append, List.dropWhile_append_of_pos hrev, ← trimEnd]

theorem trimEnd_eq (t : Text) : ∃ trail, Blanks trail ∧ t = trimEnd t ++ trail := by
  refine ⟨(t.reverse.takeWhile isBlank).reverse, fun c hc => ?_, ?_⟩
  · exact List.mem_takeWhile_imp (List.mem_reverse.mp hc)
  · rw [trimEnd, ← List.reverse_append, List.takeWhile_append_dropWhile, List.reverse_reverse]

theorem head?_trimStart (t : Text) : (trimStart t).head?.all (! isBlank ·) := by
  cases h : (trimStart t).head? with
  | none => rfl
  | some c =>
    have hc := List.head?_dropWhile_not isBlank t
    rw [← trimStart, h] at hc
    simpa using hc

/-- What is taken off is blank. -/
theorem exists_trim (t : Text) :
    ∃ lead trail, Blanks lead ∧ Blanks trail ∧ t = lead ++ trim t ++ trail := by
  obtain ⟨trail, htrail, hend⟩ := trimEnd_eq (trimStart t)
  refine ⟨t.takeWhile isBlank, trail, fun c hc => List.mem_takeWhile_imp hc, htrail, ?_⟩
  rw [trim, List.append_assoc, ← hend, trimStart, List.takeWhile_append_dropWhile]

theorem isTrimmed_trim (t : Text) : IsTrimmed (trim t) := by
  constructor
  · -- The first character is that of the text without the blanks in front.
    obtain ⟨trail, -, hend⟩ := trimEnd_eq (trimStart t)
    have hhead := head?_trimStart t
    rw [hend, ← trim] at hhead
    cases hd : trim t with
    | nil => rfl
    | cons c r => simpa [hd] using hhead
  · rw [trim, trimEnd, List.getLast?_reverse]
    exact head?_trimStart (trimStart t).reverse

/-- Blanks around a trimmed text are all that trimming takes off. -/
theorem trim_append (hl : Blanks lead) (h : IsTrimmed t) (ht : Blanks trail) :
    trim (lead ++ t ++ trail) = t := by
  rw [List.append_assoc, trim, trimStart_append hl]
  cases t with
  | nil =>
    have hnil : trimStart trail = [] := List.dropWhile_eq_nil_iff.mpr ht
    rw [List.nil_append, hnil]
    rfl
  | cons c r =>
    have hc : isBlank c = false := by simpa using h.1
    have hstart : trimStart (c :: r ++ trail) = c :: r ++ trail := by simp [trimStart, hc]
    rw [hstart, trimEnd_append ht, trimEnd_of_isTrimmed h]

end WebHost.Text
