import WebHost.Http.Request

/-! Where a head ends. The search finds the least place at which the terminator stands, so more
bytes never move an end that has been found, and a search that found nothing need not look again
at the bytes it has passed. -/
namespace WebHost.Http

@[simp] theorem headEnd?_nil : headEnd? [] = none := rfl

theorem headEndFrom_eq_map (i : Nat) (bs : Bytes) : headEndFrom i bs = (headEnd? bs).map (i + ·) := by
  have shift (bs : Bytes) (i j : Nat) : headEndFrom (i + j) bs = (headEndFrom j bs).map (i + ·) := by
    induction bs generalizing j with
    | nil => rfl
    | cons b bs ih =>
      rw [headEndFrom, headEndFrom]
      split
      · rfl
      · exact ih (j + 1)
  exact shift bs i 0

theorem headEnd?_cons (b : UInt8) (bs : Bytes) :
    headEnd? (b :: bs) =
      if terminator.isPrefixOf (b :: bs) then some 0 else (headEnd? bs).map (1 + ·) := by
  rw [headEnd?, headEndFrom, headEndFrom_eq_map]

theorem not_terminator_nil : ¬ terminator <+: [] := by decide

theorem add_le_length_of_terminator {bs : Bytes} {n : Nat} (h : terminator <+: bs.drop n) :
    n + terminator.length ≤ bs.length := by
  have hl := h.length_le
  have hp : 0 < terminator.length := by decide
  simp only [List.length_drop] at hl
  omega

theorem headEnd?_eq_none_iff {bs : Bytes} : headEnd? bs = none ↔ ∀ j, ¬ terminator <+: bs.drop j := by
  induction bs with
  | nil => simpa using not_terminator_nil
  | cons b bs ih =>
    rw [headEnd?_cons]
    by_cases hp : terminator <+: b :: bs
    · simp only [List.isPrefixOf_iff_prefix, hp, if_true, reduceCtorEq, false_iff]
      exact fun h => h 0 hp
    · simp only [List.isPrefixOf_iff_prefix, hp, if_false, Option.map_eq_none_iff, ih]
      constructor
      · rintro h (_ | j)
        · exact hp
        · exact h j
      · exact fun h j => h (j + 1)

/-- The end of the head is the first place at which the terminator stands. -/
theorem headEnd?_eq_some_iff {bs : Bytes} {n : Nat} :
    headEnd? bs = some n ↔ terminator <+: bs.drop n ∧ ∀ j < n, ¬ terminator <+: bs.drop j := by
  induction bs generalizing n with
  | nil =>
    have := not_terminator_nil
    simp [this]
  | cons b bs ih =>
    rw [headEnd?_cons]
    by_cases hp : terminator <+: b :: bs
    · simp only [List.isPrefixOf_iff_prefix, hp, if_true, Option.some.injEq]
      constructor
      · rintro rfl
        exact ⟨hp, by omega⟩
      · rintro ⟨-, h⟩
        rcases Nat.eq_zero_or_pos n with hn | hn
        · exact hn.symm
        · exact absurd hp (h 0 hn)
    · simp only [List.isPrefixOf_iff_prefix, hp, if_false, Option.map_eq_some_iff]
      constructor
      · rintro ⟨m, hm, rfl⟩
        obtain ⟨h, hlt⟩ := ih.mp hm
        refine ⟨by simpa [Nat.add_comm 1 m] using h, ?_⟩
        rintro (_ | j) hj
        · exact hp
        · exact hlt j (by omega)
      · rintro ⟨h, hlt⟩
        cases n with
        | zero => exact absurd h hp
        | succ n =>
          exact ⟨n, ih.mpr ⟨h, fun j hj => hlt (j + 1) (by omega)⟩, Nat.add_comm 1 n⟩

theorem headEnd?_add_le_length {bs : Bytes} {n : Nat} (h : headEnd? bs = some n) :
    n + terminator.length ≤ bs.length :=
  add_le_length_of_terminator (headEnd?_eq_some_iff.mp h).1

theorem drop_mono {a b : Bytes} (h : a <+: b) (n : Nat) : a.drop n <+: b.drop n := by
  obtain ⟨r, rfl⟩ := h
  rw [List.drop_append]
  exact List.prefix_append _ _

/-- The terminator stands within a part of the bytes if that part is long enough to hold it. -/
theorem terminator_drop_of_le_length {a b : Bytes} (h : a <+: b) {n : Nat}
    (ht : terminator <+: b.drop n) (hn : n + terminator.length ≤ a.length) :
    terminator <+: a.drop n := by
  refine List.prefix_of_prefix_length_le ht (drop_mono h n) ?_
  simp only [List.length_drop]
  omega

/-- More bytes do not move the end of the head. -/
theorem headEnd?_mono {a b : Bytes} (hp : a <+: b) {n : Nat} (h : headEnd? a = some n) :
    headEnd? b = some n := by
  have hn := headEnd?_add_le_length h
  obtain ⟨ht, hlt⟩ := headEnd?_eq_some_iff.mp h
  refine headEnd?_eq_some_iff.mpr ⟨ht.trans (drop_mono hp n), fun j hj hb => ?_⟩
  exact hlt j hj (terminator_drop_of_le_length hp hb (by omega))

/-- A search may start at any place before which the terminator does not stand. -/
theorem headEnd?_eq_headEndFrom {bs : Bytes} {k : Nat}
    (h : ∀ j < k, ¬ terminator <+: bs.drop j) : headEnd? bs = headEndFrom k (bs.drop k) := by
  rw [headEndFrom_eq_map]
  cases hd : headEnd? (bs.drop k) with
  | none =>
    rw [headEnd?_eq_none_iff] at hd
    refine headEnd?_eq_none_iff.mpr fun j hj => ?_
    rcases Nat.lt_or_ge j k with hlt | hge
    · exact h j hlt hj
    · refine hd (j - k) ?_
      rwa [List.drop_drop, Nat.add_sub_cancel' hge]
  | some m =>
    obtain ⟨ht, hlt⟩ := headEnd?_eq_some_iff.mp hd
    rw [List.drop_drop] at ht
    refine headEnd?_eq_some_iff.mpr ⟨ht, fun j (hj : j < k + m) hb => ?_⟩
    rcases Nat.lt_or_ge j k with hjk | hge
    · exact h j hjk hb
    · refine hlt (j - k) (by omega) ?_
      rwa [List.drop_drop, Nat.add_sub_cancel' hge]

/-- After bytes without a terminator the search can go on three bytes before their end, where a
terminator that is only partly there would begin. -/
theorem headEnd?_append_of_none {held : Bytes} (h : headEnd? held = none) (bs : Bytes) :
    headEnd? (held ++ bs) =
      headEndFrom (held.length - (terminator.length - 1))
        ((held ++ bs).drop (held.length - (terminator.length - 1))) := by
  refine headEnd?_eq_headEndFrom fun j hj ht => ?_
  have hl : 0 < terminator.length := by decide
  exact headEnd?_eq_none_iff.mp h j
    (terminator_drop_of_le_length (List.prefix_append held bs) ht (by omega))

theorem headEnd?_cons_of_ne {b : UInt8} (h : b ≠ 13) (bs : Bytes) :
    headEnd? (b :: bs) = (headEnd? bs).map (1 + ·) := by
  rw [headEnd?_cons, if_neg]
  simp [terminator, Ne.symm h]

/-- No terminator begins among bytes without a carriage return. -/
theorem headEnd?_append_of_not_mem {l : Bytes} (h : 13 ∉ l) (bs : Bytes) :
    headEnd? (l ++ bs) = (headEnd? bs).map (l.length + ·) := by
  induction l with
  | nil => simp
  | cons b l ih =>
    rw [List.mem_cons, not_or] at h
    rw [List.cons_append, headEnd?_cons_of_ne (Ne.symm h.1), ih h.2, Option.map_map]
    congr 1
    funext n
    simp only [Function.comp_apply, List.length_cons]
    omega

/-- A line break is no terminator if more of a head follows. -/
theorem headEnd?_lineBreak {b : UInt8} (h : b ≠ 13) (bs : Bytes) :
    headEnd? (13 :: 10 :: b :: bs) = (headEnd? (b :: bs)).map (2 + ·) := by
  have hp : terminator.isPrefixOf (13 :: 10 :: b :: bs) = false := by
    simp [terminator, List.isPrefixOf, Ne.symm h]
  rw [headEnd?_cons, hp, headEnd?_cons_of_ne (by decide), if_neg (by decide), Option.map_map]
  congr 1
  funext n
  simp only [Function.comp_apply]
  omega

theorem headEnd?_terminator (bs : Bytes) : headEnd? (terminator ++ bs) = some 0 := by
  simp [headEnd?_eq_some_iff]

end WebHost.Http
