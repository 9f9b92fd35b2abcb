import WebHost.Json.Compact

/-! Compact objects can be told apart: every part of one ends where its own text says so, and equal
texts have equal members. -/
namespace WebHost.Json

/-- The character that an escape letter stands for. -/
def longForm? (e : Char) : Option Char :=
  if e = '\x22' then some '\x22'
  else if e = '\\' then some '\\'
  else if e = 'b' then some '\x08'
  else if e = 'f' then some '\x0c'
  else if e = 'n' then some '\n'
  else if e = 'r' then some '\r'
  else if e = 't' then some '\t'
  else none

/-- The control character whose number has these two digits. -/
def control? (x y : Char) : Option Char :=
  ((List.range 0x20).find? fun n => Text.hexByte (UInt8.ofNat n) == [x, y]).map Char.ofNat

/-- The first character that a text spells in a JSON string, and the rest. -/
def unescape? : Text → Option (Char × Text)
  | '\\' :: e :: r =>
    if e = 'u' then
      match r with
      | _ :: _ :: x :: y :: r => (control? x y).map fun c => (c, r)
      | _ => none
    else (longForm? e).map fun c => (c, r)
  | c :: r => some (c, r)
  | [] => none

theorem longForm?_of_shortEscape? {c e : Char} (h : shortEscape? c = some e) :
    longForm? e = some c ∧ e ≠ 'u' := by
  unfold shortEscape? at h
  repeat' split at h
  all_goals simp only [Option.some.injEq, reduceCtorEq] at h
  all_goals subst_vars; decide

theorem control?_hexByte : ∀ n < 0x20,
    control? (Nat.digitChar ((UInt8.ofNat n).toNat / 16)) (Nat.digitChar ((UInt8.ofNat n).toNat % 16)) =
      some (Char.ofNat n) := by
  decide

/-- Reading an escaped character gives it back. -/
theorem unescape?_escape (c : Char) (r : Text) : unescape? (escape c ++ r) = some (c, r) := by
  unfold escape
  split
  · next e he =>
    obtain ⟨hl, hu⟩ := longForm?_of_shortEscape? he
    simp [unescape?, hl, hu]
  · next he =>
    split
    · next hc =>
      have h := control?_hexByte c.toNat hc
      rw [Char.ofNat_toNat] at h
      have hread : unescape? ("\\u00".toList ++ Text.hexByte (UInt8.ofNat c.toNat) ++ r) =
          (control? (Nat.digitChar ((UInt8.ofNat c.toNat).toNat / 16))
            (Nat.digitChar ((UInt8.ofNat c.toNat).toNat % 16))).map fun c => (c, r) := rfl
      rw [hread, h, Option.map_some]
    · have hslash : c ≠ '\\' := by
        rintro rfl
        simp [shortEscape?] at he
      simp [unescape?, hslash]

theorem escape_append_inj {c c' : Char} {r r' : Text} :
    escape c ++ r = escape c' ++ r' ↔ c = c' ∧ r = r' := by
  constructor
  · intro h
    have := congrArg unescape? h
    simpa [unescape?_escape] using this
  · rintro ⟨rfl, rfl⟩
    rfl

/-- No character is escaped to something that begins with a quote. -/
theorem escape_append_ne_quote (c : Char) (r s : Text) : escape c ++ r ≠ '\x22' :: s := by
  unfold escape
  split
  · simp
  · next he =>
    split
    · simp
    · simp only [List.cons_append, List.nil_append, ne_eq, List.cons.injEq, not_and]
      rintro rfl
      simp [shortEscape?] at he

theorem escapes_append_inj {t t' r r' : Text} :
    t.flatMap escape ++ '\x22' :: r = t'.flatMap escape ++ '\x22' :: r' ↔ t = t' ∧ r = r' := by
  induction t generalizing t' with
  | nil =>
    cases t' with
    | nil => simp
    | cons c' t' =>
      simp only [List.flatMap_nil, List.nil_append, List.flatMap_cons, List.append_assoc,
        reduceCtorEq, false_and, iff_false]
      exact fun h => escape_append_ne_quote _ _ _ h.symm
  | cons c t ih =>
    cases t' with
    | nil =>
      simp only [List.flatMap_nil, List.nil_append, List.flatMap_cons, List.append_assoc,
        reduceCtorEq, false_and, iff_false]
      exact escape_append_ne_quote _ _ _
    | cons c' t' =>
      rw [List.flatMap_cons, List.flatMap_cons, List.append_assoc, List.append_assoc,
        escape_append_inj, ih, List.cons.injEq, and_assoc]

/-- A JSON string ends at its own closing quote. -/
theorem quote_append_inj {t t' r r' : Text} :
    quote t ++ r = quote t' ++ r' ↔ t = t' ∧ r = r' := by
  simp only [quote, List.cons_append, List.append_assoc, List.nil_append, List.cons.injEq, true_and]
  exact escapes_append_inj

/-- A text that does not go on with a digit. -/
def NoDigit (r : Text) : Prop := ∀ c ∈ r.head?, ¬ c.isDigit

theorem noDigit_cons {c : Char} (h : ¬ c.isDigit) (r : Text) : NoDigit (c :: r) := by
  intro d hd
  obtain rfl : c = d := Option.some.inj hd
  exact h

theorem takeWhile_decimal_append (n : Nat) {r : Text} (hr : NoDigit r) :
    (Text.decimal n ++ r).takeWhile Char.isDigit = Text.decimal n := by
  have hd : ∀ c ∈ Text.decimal n, c.isDigit :=
    fun c hc => Nat.isDigit_of_mem_toDigits (by omega) (by omega) hc
  rw [List.takeWhile_append_of_pos hd]
  cases r with
  | nil => simp
  | cons c r => simp [hr c rfl]

theorem decimal_append_inj {n n' : Nat} {r r' : Text} (hr : NoDigit r) (hr' : NoDigit r') :
    Text.decimal n ++ r = Text.decimal n' ++ r' ↔ n = n' ∧ r = r' := by
  constructor
  · intro h
    have hd := congrArg (List.takeWhile Char.isDigit) h
    rw [takeWhile_decimal_append n hr, takeWhile_decimal_append n' hr'] at hd
    have hn := congrArg Text.decimalValue? hd
    rw [Text.decimalValue?_decimal, Text.decimalValue?_decimal, Option.some.injEq] at hn
    rw [hd] at h
    exact ⟨hn, List.append_cancel_left h⟩
  · rintro ⟨rfl, rfl⟩
    rfl

theorem decimal_append_ne_quote (n : Nat) (r t r' : Text) :
    Text.decimal n ++ r ≠ quote t ++ r' := by
  intro h
  cases hd : Text.decimal n with
  | nil => exact Nat.toDigits_ne_nil hd
  | cons c s =>
    have hc : c.isDigit := Nat.isDigit_of_mem_toDigits (b := 10) (n := n) (by omega) (by omega)
      (by rw [← Text.decimal, hd]; simp)
    rw [hd] at h
    simp only [quote, List.cons_append, List.cons.injEq] at h
    rw [h.1] at hc
    exact absurd hc (by decide)

theorem Scalar.print_append_inj {s s' : Scalar} {r r' : Text} (hr : NoDigit r) (hr' : NoDigit r') :
    s.print ++ r = s'.print ++ r' ↔ s = s' ∧ r = r' := by
  cases s with
  | number n =>
    cases s' with
    | number n' => simpa [Scalar.print] using decimal_append_inj hr hr'
    | text t' => simpa [Scalar.print] using decimal_append_ne_quote n r t' r'
  | text t =>
    cases s' with
    | number n' => simpa [Scalar.print] using (decimal_append_ne_quote n' r' t r).symm
    | text t' => simpa [Scalar.print] using quote_append_inj

theorem printMember_append_inj {m m' : Text × Scalar} {r r' : Text} (hr : NoDigit r)
    (hr' : NoDigit r') : printMember m ++ r = printMember m' ++ r' ↔ m = m' ∧ r = r' := by
  simp only [printMember, List.append_assoc, List.cons_append, quote_append_inj, List.cons.injEq,
    true_and, Scalar.print_append_inj hr hr', Prod.ext_iff, and_assoc]

/-- What stands behind a member: the further members, and the closing brace. -/
def printRest (ms : List (Text × Scalar)) : Text :=
  ms.flatMap (fun m => ',' :: printMember m) ++ ['\x7d']

theorem noDigit_printRest (ms : List (Text × Scalar)) : NoDigit (printRest ms) := by
  cases ms with
  | nil => exact noDigit_cons (by decide) _
  | cons m ms => exact noDigit_cons (by decide) _

theorem printRest_inj {ms ms' : List (Text × Scalar)} : printRest ms = printRest ms' ↔ ms = ms' := by
  induction ms generalizing ms' with
  | nil => cases ms' <;> simp [printRest]
  | cons m ms ih =>
    cases ms' with
    | nil => simp [printRest]
    | cons m' ms' =>
      have hcons (m : Text × Scalar) (ms : List (Text × Scalar)) :
          printRest (m :: ms) = ',' :: (printMember m ++ printRest ms) := by
        simp [printRest]
      rw [hcons, hcons, List.cons.injEq,
        printMember_append_inj (noDigit_printRest ms) (noDigit_printRest ms'), ih, List.cons.injEq]
      simp

theorem printObject_cons (m : Text × Scalar) (ms : List (Text × Scalar)) :
    printObject (m :: ms) = '\x7b' :: (printMember m ++ printRest ms) := by
  have h (m : Text × Scalar) : [','].intercalate ((m :: ms).map printMember) ++ ['\x7d'] =
      printMember m ++ printRest ms := by
    induction ms generalizing m with
    | nil => simp [printRest]
    | cons m' ms ih =>
      rw [List.map_cons, List.map_cons, List.intercalate_cons_cons, List.append_assoc, ← List.map_cons, ih]
      simp [printRest]
  rw [printObject, List.cons_append, h]

/-- Different members make different objects. -/
theorem printObject_inj {ms ms' : List (Text × Scalar)} :
    printObject ms = printObject ms' ↔ ms = ms' := by
  cases ms with
  | nil =>
    cases ms' with
    | nil => simp
    | cons m' ms' => rw [printObject_cons]; simp [printObject, printMember, quote]
  | cons m ms =>
    cases ms' with
    | nil => rw [printObject_cons]; simp [printObject, printMember, quote]
    | cons m' ms' =>
      rw [printObject_cons, printObject_cons, List.cons.injEq,
        printMember_append_inj (noDigit_printRest ms) (noDigit_printRest ms'), printRest_inj,
        List.cons.injEq]
      simp

end WebHost.Json
