import WebHost.Text.Utf8

/-! Different texts have different bytes, bytes below 0x80 are each a character of its own, and the
scanner reads back every text that is encoded. -/
namespace WebHost.Utf8

theorem encode_inj {s t : Text} : encode s = encode t ↔ s = t := by
  constructor
  · intro h
    have hb : s.utf8Encode = t.utf8Encode := congrArg List.toByteArray h
    rw [← String.toByteArray_ofList, ← String.toByteArray_ofList, String.toByteArray_inj] at hb
    exact String.ofList_injective hb
  · rintro rfl
    rfl

theorem lead_of_ascii {b : UInt8} (h : b.toNat < 0x80) : lead b = .whole (Char.ofNat b.toNat) := by
  simp [lead, h]

/-- A scanner between characters that reads such bytes is between characters again. -/
theorem foldl_step_of_ascii {bs : Bytes} (h : ∀ b ∈ bs, b.toNat < 0x80) (units : List (Option Char)) :
    bs.foldl Scanner.step ⟨units, none⟩ =
      ⟨(bs.map fun b => some (Char.ofNat b.toNat)).reverse ++ units, none⟩ := by
  induction bs generalizing units with
  | nil => rfl
  | cons b bs ih =>
    have hb : Scanner.step ⟨units, none⟩ b = ⟨some (Char.ofNat b.toNat) :: units, none⟩ := by
      simp only [Scanner.step, Scanner.start, lead_of_ascii (h b (by simp))]
    rw [List.foldl_cons, hb, ih fun c hc => h c (by simp [hc])]
    simp

theorem scan_of_ascii {bs : Bytes} (h : ∀ b ∈ bs, b.toNat < 0x80) :
    scan bs = bs.map fun b => some (Char.ofNat b.toNat) := by
  simp [scan, foldl_step_of_ascii h, Scanner.finish]

theorem decode?_of_ascii {bs : Bytes} (h : ∀ b ∈ bs, b.toNat < 0x80) :
    decode? bs = some (bs.map fun b => Char.ofNat b.toNat) := by
  simp [decode?, scan_of_ascii h, List.filterMap_map, Function.comp_def]

theorem toNat_ofNat_of_lt {n : Nat} (h : n < 0x100) : (UInt8.ofNat n).toNat = n :=
  UInt8.toNat_ofNat_of_lt' h

theorem step_of_owed_one {p : Partial} {b : UInt8} (hb : p.least ≤ b ∧ b ≤ p.most) (ho : p.owed = 1)
    (units : List (Option Char)) :
    Scanner.step ⟨units, some p⟩ b =
      ⟨some (Char.ofNat (p.bits * 64 + (b.toNat - 0x80))) :: units, none⟩ := by
  simp [Scanner.step, hb, ho]

theorem step_of_owed_more {p : Partial} {b : UInt8} (hb : p.least ≤ b ∧ b ≤ p.most) {n : Nat}
    (ho : p.owed = n + 2) (units : List (Option Char)) :
    Scanner.step ⟨units, some p⟩ b =
      ⟨units, some { bits := p.bits * 64 + (b.toNat - 0x80), owed := n + 1 }⟩ := by
  simp [Scanner.step, hb, ho]

theorem step_of_lead {b : UInt8} {p : Partial} (h : lead b = .opens p) (units : List (Option Char)) :
    Scanner.step ⟨units, none⟩ b = ⟨units, some p⟩ := by
  simp [Scanner.step, Scanner.start, h]

/-- A byte that goes on with a character, by the six bits that it holds. -/
def tail (n : Nat) : UInt8 := UInt8.ofNat (n % 64 + 128)

theorem toNat_tail (n : Nat) : (tail n).toNat = n % 64 + 128 := by
  rw [tail, toNat_ofNat_of_lt (by omega)]

theorem tail_mem (n : Nat) : (0x80 : UInt8) ≤ tail n ∧ tail n ≤ 0xBF := by
  rw [UInt8.le_iff_toNat_le, UInt8.le_iff_toNat_le, toNat_tail]
  constructor
  · show 128 ≤ _
    omega
  · show _ ≤ 191
    omega

theorem lead_two {n : Nat} (hn : 0x80 ≤ n) (hn' : n < 0x800) :
    lead (UInt8.ofNat (n / 64 % 32 + 192)) = .opens { bits := n / 64, owed := 1 } := by
  have hb : (UInt8.ofNat (n / 64 % 32 + 192)).toNat = n / 64 + 192 := by
    rw [toNat_ofNat_of_lt (by omega)]
    omega
  simp only [lead, hb]
  rw [if_neg (by omega), if_neg (by omega), if_pos (by omega)]
  simp

/-- The first byte of three: what it leaves open admits the second. -/
theorem lead_three {n : Nat} (hn : 0x800 ≤ n) (hn' : n < 0x10000) (hs : n < 0xD800 ∨ 0xDFFF < n) :
    ∃ p, lead (UInt8.ofNat (n / 4096 % 16 + 224)) = .opens p ∧ p.bits = n / 4096 ∧ p.owed = 2 ∧
      p.least ≤ tail (n / 64) ∧ tail (n / 64) ≤ p.most := by
  have hb : (UInt8.ofNat (n / 4096 % 16 + 224)).toNat = n / 4096 + 224 := by
    rw [toNat_ofNat_of_lt (by omega)]
    omega
  obtain ⟨hl, hm⟩ := tail_mem (n / 64)
  simp only [lead, hb]
  rw [if_neg (by omega), if_neg (by omega), if_neg (by omega)]
  split
  · refine ⟨_, rfl, by simp; omega, rfl, ?_, hm⟩
    rw [UInt8.le_iff_toNat_le, toNat_tail]
    show 160 ≤ _
    omega
  · split
    · refine ⟨_, rfl, by simp; omega, rfl, hl, ?_⟩
      rw [UInt8.le_iff_toNat_le, toNat_tail]
      show _ ≤ 159
      omega
    · rw [if_pos (by omega)]
      exact ⟨_, rfl, by simp, rfl, hl, hm⟩

/-- The first byte of four. -/
theorem lead_four {n : Nat} (hn : 0x10000 ≤ n) (hn' : n < 0x110000) :
    ∃ p, lead (UInt8.ofNat (n / 262144 % 8 + 240)) = .opens p ∧ p.bits = n / 262144 ∧ p.owed = 3 ∧
      p.least ≤ tail (n / 4096) ∧ tail (n / 4096) ≤ p.most := by
  have hb : (UInt8.ofNat (n / 262144 % 8 + 240)).toNat = n / 262144 + 240 := by
    rw [toNat_ofNat_of_lt (by omega)]
    omega
  obtain ⟨hl, hm⟩ := tail_mem (n / 4096)
  simp only [lead, hb]
  rw [if_neg (by omega), if_neg (by omega), if_neg (by omega), if_neg (by omega), if_neg (by omega),
    if_neg (by omega)]
  split
  · refine ⟨_, rfl, by simp; omega, rfl, ?_, hm⟩
    rw [UInt8.le_iff_toNat_le, toNat_tail]
    show 144 ≤ _
    omega
  · split
    · exact ⟨_, rfl, by simp, rfl, hl, hm⟩
    · rw [if_pos (by omega)]
      refine ⟨_, rfl, by simp; omega, rfl, hl, ?_⟩
      rw [UInt8.le_iff_toNat_le, toNat_tail]
      show _ ≤ 143
      omega

/-- Reading the bytes of a character gives it back. -/
theorem foldl_step_utf8EncodeChar (c : Char) (units : List (Option Char)) :
    (String.utf8EncodeChar c).foldl Scanner.step ⟨units, none⟩ = ⟨some c :: units, none⟩ := by
  have hv : c.toNat < 0xD800 ∨ 0xDFFF < c.toNat ∧ c.toNat < 0x110000 := c.valid
  have hc {n : Nat} (h : n = c.toNat) : Char.ofNat n = c := by rw [h, Char.ofNat_toNat]
  have hto : c.val.toNat = c.toNat := rfl
  simp only [String.utf8EncodeChar, hto]
  generalize hn : c.toNat = n at hv hc ⊢
  split
  · have hb : (UInt8.ofNat n).toNat = n := by
      rw [toNat_ofNat_of_lt (by omega)]
    simp only [List.foldl_cons, List.foldl_nil, Scanner.step, Scanner.start, lead, hb]
    rw [if_pos (by omega), hc rfl]
  · split
    · have h1 := lead_two (n := n) (by omega) (by omega)
      rw [List.foldl_cons, step_of_lead h1]
      change List.foldl Scanner.step _ [tail n] = _
      rw [List.foldl_cons, step_of_owed_one (tail_mem _) rfl, List.foldl_nil, hc]
      simp only [toNat_tail]
      omega
    · split
      · obtain ⟨p, h1, hbits, howed, h2⟩ := lead_three (n := n) (by omega) (by omega) (by omega)
        rw [List.foldl_cons, step_of_lead h1]
        change List.foldl Scanner.step _ [tail (n / 64), tail n] = _
        rw [List.foldl_cons, step_of_owed_more h2 howed, List.foldl_cons,
          step_of_owed_one (tail_mem _) rfl, List.foldl_nil, hc]
        simp only [toNat_tail, hbits]
        omega
      · obtain ⟨p, h1, hbits, howed, h2⟩ := lead_four (n := n) (by omega) (by omega)
        rw [List.foldl_cons, step_of_lead h1]
        change List.foldl Scanner.step _ [tail (n / 4096), tail (n / 64), tail n] = _
        rw [List.foldl_cons, step_of_owed_more h2 howed, List.foldl_cons,
          step_of_owed_more (tail_mem _) rfl, List.foldl_cons,
          step_of_owed_one (tail_mem _) rfl, List.foldl_nil, hc]
        simp only [toNat_tail, hbits]
        omega

theorem scan_encode (t : Text) : scan (encode t) = t.map some := by
  have h (units : List (Option Char)) :
      (encode t).foldl Scanner.step ⟨units, none⟩ = ⟨(t.map some).reverse ++ units, none⟩ := by
    induction t generalizing units with
    | nil => rfl
    | cons c t ih =>
      rw [encode, List.flatMap_cons, List.foldl_append, foldl_step_utf8EncodeChar]
      rw [encode] at ih
      rw [ih]
      simp
  simp [scan, h, Scanner.finish]

/-- Strict reading gives back every text that is encoded. -/
@[simp] theorem decode?_encode (t : Text) : decode? (encode t) = some t := by
  simp [decode?, scan_encode, List.filterMap_map, Function.comp_def]

@[simp] theorem decodeLossy_encode (t : Text) : decodeLossy (encode t) = t :=
  decodeLossy_of_decode? (decode?_encode t)

/-- A byte below 0x80 is all of its character. -/
theorem toNat_of_mem_utf8EncodeChar {c : Char} {b : UInt8} (h : b ∈ String.utf8EncodeChar c)
    (hb : b.toNat < 0x80) : c.toNat = b.toNat := by
  have hto : c.val.toNat = c.toNat := rfl
  simp only [String.utf8EncodeChar, hto] at h
  split at h
  · rw [List.mem_singleton.mp h, toNat_ofNat_of_lt (by omega)]
  · -- All bytes of a longer form have the highest bit.
    have hhigh : ∃ n, b = UInt8.ofNat n ∧ 0x80 ≤ n ∧ n < 256 := by
      split at h
      · simp only [List.mem_cons, List.not_mem_nil, or_false] at h
        rcases h with h | h <;> exact ⟨_, h, by omega, by omega⟩
      · split at h
        · simp only [List.mem_cons, List.not_mem_nil, or_false] at h
          rcases h with h | h | h <;> exact ⟨_, h, by omega, by omega⟩
        · simp only [List.mem_cons, List.not_mem_nil, or_false] at h
          rcases h with h | h | h | h <;> exact ⟨_, h, by omega, by omega⟩
    obtain ⟨n, rfl, hn, hn'⟩ := hhigh
    rw [toNat_ofNat_of_lt hn'] at hb
    omega

theorem utf8EncodeChar_ne_nil (c : Char) : String.utf8EncodeChar c ≠ [] :=
  List.ne_nil_of_length_pos (by rw [String.length_utf8EncodeChar]; exact c.utf8Size_pos)

theorem utf8EncodeChar_of_ascii {c : Char} (h : c.toNat < 0x80) :
    String.utf8EncodeChar c = [UInt8.ofNat c.toNat] := by
  have hto : c.val.toNat = c.toNat := rfl
  simp only [String.utf8EncodeChar, hto]
  rw [if_pos (by omega)]

/-- The byte of a character below 0x80 stands where the character stands, and nowhere else. -/
theorem mem_encode_iff_of_ascii {t : Text} {c : Char} (h : c.toNat < 0x80) :
    UInt8.ofNat c.toNat ∈ encode t ↔ c ∈ t := by
  have hb : (UInt8.ofNat c.toNat).toNat = c.toNat := toNat_ofNat_of_lt (by omega)
  constructor
  · intro hmem
    obtain ⟨d, hd, hbd⟩ := List.mem_flatMap.mp hmem
    have hdc := toNat_of_mem_utf8EncodeChar hbd (by omega)
    rw [hb] at hdc
    rwa [← Char.ofNat_toNat c, ← hdc, Char.ofNat_toNat]
  · intro hmem
    exact List.mem_flatMap.mpr ⟨c, hmem, by simp [utf8EncodeChar_of_ascii h]⟩

end WebHost.Utf8
