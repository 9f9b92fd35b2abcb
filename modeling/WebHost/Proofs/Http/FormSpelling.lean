import Mathlib.Data.List.Forall2
import WebHost.Http.Request
import WebHost.Proofs.Text.Digits
import WebHost.Proofs.Text.Utf8

/-! The ways to write a form. Characters stand for themselves or are escaped byte by byte, and the
marks of the form are always escaped, so that reading gives back the keys and the values in whatever
way they have been written. -/
namespace WebHost.Http.Form

/-- A character escaped, with small letters. -/
def escape (c : Char) : Text := (String.utf8EncodeChar c).flatMap fun b => '%' :: Text.hexByte b

/-- The ways to write a character where `reserved` must be escaped. An escape may have letters of
either case. -/
inductive SpellsChar (reserved : Text) : Char → Text → Prop
  | plain {c : Char} (h : c ∉ reserved) : SpellsChar reserved c [c]
  | plus : SpellsChar reserved ' ' ['+']
  | escaped {c : Char} {s : Text} (h : Text.folded s = escape c) : SpellsChar reserved c s

/-- The ways to write a text, character by character. -/
inductive Spells (reserved : Text) : Text → Text → Prop
  | nil : Spells reserved [] []
  | cons {c : Char} {s t r : Text} (hc : SpellsChar reserved c s) (ht : Spells reserved t r) :
      Spells reserved (c :: t) (s ++ r)

def valueMarks : Text := ['%', '+', '&']
def keyMarks : Text := '=' :: valueMarks

/-- The ways to write a pair. A key alone has an empty value, if it is not empty itself. -/
inductive SpellsPair : Text × Text → Text → Prop
  | full {k v s r : Text} (hk : Spells keyMarks k s) (hv : Spells valueMarks v r) :
      SpellsPair (k, v) (s ++ '=' :: r)
  | bare {k s : Text} (hk : Spells keyMarks k s) (hne : k ≠ []) : SpellsPair (k, []) s

/-- The ways to write a form: pairs with marks between them, and empty segments anywhere. -/
def SpellsForm (form : List (Text × Text)) (t : Text) : Prop :=
  ∃ segments, t = ['&'].intercalate segments ∧
    List.Forall₂ SpellsPair form (segments.filter fun s => ! s.isEmpty)

theorem decodeFrom_cons_of_ne {b : UInt8} (h : b ≠ 0x25) (h' : b ≠ 0x2B) (out r : Bytes) :
    decodeFrom out (b :: r) = decodeFrom (b :: out) r := by
  rw [decodeFrom.eq_def]
  simp [h, h']

theorem decodeFrom_append_of_forall {bs : Bytes} (h : ∀ b ∈ bs, b ≠ 0x25 ∧ b ≠ 0x2B) (out r : Bytes) :
    decodeFrom out (bs ++ r) = decodeFrom (bs.reverse ++ out) r := by
  induction bs generalizing out with
  | nil => rfl
  | cons b bs ih =>
    obtain ⟨hb, hb'⟩ := h b (by simp)
    rw [List.cons_append, decodeFrom_cons_of_ne hb hb', ih fun c hc => h c (by simp [hc])]
    simp

theorem decodeFrom_escaped {b h l : UInt8} (he : escaped? h l = some b) (out r : Bytes) :
    decodeFrom out (0x25 :: h :: l :: r) = decodeFrom (b :: out) r := by
  rw [decodeFrom.eq_def]
  simp [he]

/-- What is checked of every ASCII character holds of a character that folds to one. -/
theorem forall_of_toLower_lt {P : Char → Prop} (h : ∀ n < 128, P (Char.ofNat n)) {c : Char}
    (hc : c.toLower.toNat < 128) : P c := by
  have hlt : c.toNat < 128 := by
    rw [Text.toNat_toLower] at hc
    split at hc <;> omega
  have hp := h c.toNat hlt
  rwa [Char.ofNat_toNat] at hp

theorem encode_of_toLower_eq_percent {c : Char} (h : c.toLower = '%') :
    String.utf8EncodeChar c = [0x25] := by
  have hlt : c.toLower.toNat < 128 := by rw [h]; decide
  revert h
  exact forall_of_toLower_lt (P := fun c => c.toLower = '%' → String.utf8EncodeChar c = [0x25])
    (by decide +kernel) hlt

/-- A digit of either case is one byte, which has its value. -/
theorem encode_of_toLower_eq_digitChar {c : Char} {n : Nat} (hn : n < 16)
    (h : c.toLower = Nat.digitChar n) :
    ∃ b, String.utf8EncodeChar c = [b] ∧ Text.hexValue? b = some (UInt8.ofNat n) := by
  have hdigit : ∀ n < 16, (Nat.digitChar n).toNat < 128 := by decide
  have hlt : c.toLower.toNat < 128 := h ▸ hdigit n hn
  have hascii : c.toNat < 128 := forall_of_toLower_lt (P := fun c => c.toNat < 128) (by decide) hlt
  refine ⟨_, Utf8.utf8EncodeChar_of_ascii hascii, ?_⟩
  have hall : ∀ n < 16, c.toLower = Nat.digitChar n →
      Text.hexValue? (UInt8.ofNat c.toNat) = some (UInt8.ofNat n) :=
    forall_of_toLower_lt (P := fun c => ∀ n < 16, c.toLower = Nat.digitChar n →
      Text.hexValue? (UInt8.ofNat c.toNat) = some (UInt8.ofNat n)) (by decide +kernel) hlt
  exact hall n hn h

/-- Bytes that have been escaped are read back. -/
theorem decodeFrom_of_folded_eq {bs : Bytes} {s : Text}
    (h : Text.folded s = bs.flatMap fun b => '%' :: Text.hexByte b) (out r : Bytes) :
    decodeFrom out (Utf8.encode s ++ r) = decodeFrom (bs.reverse ++ out) r := by
  induction bs generalizing s out with
  | nil =>
    obtain rfl : s = [] := by simpa [Text.folded] using h
    rfl
  | cons b bs ih =>
    rw [List.flatMap_cons, Text.hexByte, Text.folded] at h
    simp only [List.cons_append, List.nil_append, List.map_eq_cons_iff] at h
    obtain ⟨p, _, rfl, hp, c, _, rfl, hc, d, s, rfl, hd, hs⟩ := h
    have hb := b.toNat_lt
    have hp := encode_of_toLower_eq_percent hp
    obtain ⟨high, hc, hhigh⟩ := encode_of_toLower_eq_digitChar (by omega) hc
    obtain ⟨low, hd, hlow⟩ := encode_of_toLower_eq_digitChar (by omega) hd
    have hvalue : UInt8.ofNat (b.toNat / 16) * 16 + UInt8.ofNat (b.toNat % 16) = b := by
      rw [← UInt8.toNat_inj]
      simp
      omega
    have hescaped : escaped? high low = some b := by
      simp [escaped?, hhigh, hlow, hvalue]
    have hencode : Utf8.encode (p :: c :: d :: s) = 0x25 :: high :: low :: Utf8.encode s := by
      simp [Utf8.encode, hp, hc, hd]
    rw [hencode, List.cons_append, List.cons_append, List.cons_append,
      decodeFrom_escaped hescaped, ih hs]
    simp

variable {reserved : Text}

/-- Whatever else must be escaped, percent and plus signs must. -/
theorem decodeFrom_of_spellsChar (hp : '%' ∈ reserved) (hq : '+' ∈ reserved) {c : Char} {s : Text}
    (h : SpellsChar reserved c s) (out r : Bytes) :
    decodeFrom out (Utf8.encode s ++ r) = decodeFrom ((String.utf8EncodeChar c).reverse ++ out) r := by
  cases h with
  | plain hc =>
    have hne {d : Char} (hd : d ∈ reserved) (hlt : d.toNat < 128) :
        UInt8.ofNat d.toNat ∉ Utf8.encode [c] := by
      rw [Utf8.mem_encode_iff_of_ascii hlt, List.mem_singleton]
      rintro rfl
      exact hc hd
    have hencode : Utf8.encode [c] = String.utf8EncodeChar c := by simp [Utf8.encode]
    rw [← hencode]
    refine decodeFrom_append_of_forall (fun b hb => ⟨?_, ?_⟩) out r
    · rintro rfl
      exact hne hp (by decide) hb
    · rintro rfl
      exact hne hq (by decide) hb
  | plus =>
    show decodeFrom out (0x2B :: r) = decodeFrom (0x20 :: out) r
    rw [decodeFrom.eq_def]
    rfl
  | escaped he => exact decodeFrom_of_folded_eq he out r

/-- A text is read back from any of its spellings. -/
theorem decode_of_spells (hp : '%' ∈ reserved) (hq : '+' ∈ reserved) {t s : Text}
    (h : Spells reserved t s) : decode s = t := by
  have hbytes (out r : Bytes) :
      decodeFrom out (Utf8.encode s ++ r) = decodeFrom ((Utf8.encode t).reverse ++ out) r := by
    induction h generalizing out with
    | nil => rfl
    | @cons c s t r' hc _ ih =>
      have hencode : Utf8.encode (c :: t) = String.utf8EncodeChar c ++ Utf8.encode t := rfl
      rw [Utf8.encode_append, List.append_assoc, decodeFrom_of_spellsChar hp hq hc, ih, hencode]
      simp
  have hdecode : decodeBytes (Utf8.encode s) = Utf8.encode t := by
    have hb := hbytes [] []
    rw [List.append_nil, List.append_nil] at hb
    rw [decodeBytes, hb, decodeFrom, List.reverse_reverse]
  rw [decode, hdecode, Utf8.decodeLossy_encode]

/-- What must be escaped stands nowhere, if it is no mark of an escape itself. -/
theorem not_mem_of_spells {m : Char} (hm : m ∈ reserved) (hmark : m = '&' ∨ m = '=') {t s : Text}
    (h : Spells reserved t s) : m ∉ s := by
  induction h with
  | nil => simp
  | @cons c s t r hc _ ih =>
    rw [List.mem_append, not_or]
    refine ⟨?_, ih⟩
    cases hc with
    | plain hc =>
      rw [List.mem_singleton]
      rintro rfl
      exact hc hm
    | plus => rcases hmark with rfl | rfl <;> decide
    | escaped he =>
      intro hmem
      have hfold : m.toLower ∈ escape c := he ▸ List.mem_map_of_mem hmem
      obtain ⟨b, -, hb⟩ := List.mem_flatMap.mp hfold
      have hhex : m.toLower ∈ '%' :: Text.hexDigits := by
        rcases List.mem_cons.mp hb with hb | hb
        · simp [hb]
        · have hb : m.toLower ∈ Text.hex [b] := by simpa [Text.hex] using hb
          exact List.mem_cons_of_mem _ (Text.mem_hexDigits_of_mem_hex hb)
      rcases hmark with rfl | rfl
      · exact absurd hhex (by decide)
      · exact absurd hhex (by decide)

theorem ne_nil_of_spells {t s : Text} (h : Spells reserved t s) (ht : t ≠ []) : s ≠ [] := by
  cases h with
  | nil => exact absurd rfl ht
  | @cons c s t r hc _ =>
    have hs : s ≠ [] := by
      cases hc with
      | plain => simp
      | plus => simp
      | escaped he =>
        rintro rfl
        obtain ⟨b, bs, hb⟩ := List.exists_cons_of_ne_nil (Utf8.utf8EncodeChar_ne_nil c)
        simp [escape, hb, Text.folded] at he
    simp [hs]

theorem ne_nil_of_spellsPair {p : Text × Text} {s : Text} (h : SpellsPair p s) : s ≠ [] := by
  cases h with
  | full => simp
  | bare hk hne => exact ne_nil_of_spells hk hne

theorem not_mem_of_spellsPair {p : Text × Text} {s : Text} (h : SpellsPair p s) : '&' ∉ s := by
  cases h with
  | full hk hv =>
    simp [not_mem_of_spells (by decide) (.inl rfl) hk, not_mem_of_spells (by decide) (.inl rfl) hv]
  | bare hk _ => exact not_mem_of_spells (by decide) (.inl rfl) hk

/-- A pair is read back from any of its spellings. -/
theorem pair_of_spellsPair {p : Text × Text} {s : Text} (h : SpellsPair p s) : pair s = p := by
  cases h with
  | full hk hv =>
    have hcut := not_mem_of_spells (m := '=') (by decide) (.inr rfl) hk
    simp only [pair, Text.cut?_append_of_not_mem hcut, decode_of_spells (by decide) (by decide) hk,
      decode_of_spells (by decide) (by decide) hv]
  | bare hk _ =>
    have hcut := not_mem_of_spells (m := '=') (by decide) (.inr rfl) hk
    simp only [pair, Text.cut?_of_not_mem hcut, decode_of_spells (by decide) (by decide) hk]

theorem map_pair_of_forall₂ {form : List (Text × Text)} {segments : List Text}
    (h : List.Forall₂ SpellsPair form segments) :
    segments.map pair = form ∧ ∀ s ∈ segments, '&' ∉ s := by
  induction h with
  | nil => simp
  | cons hp _ ih =>
    obtain ⟨hread, hmark⟩ := ih
    refine ⟨by rw [List.map_cons, pair_of_spellsPair hp, hread], ?_⟩
    exact List.forall_mem_cons.mpr ⟨not_mem_of_spellsPair hp, hmark⟩

/-- A form is read back from any of its spellings. -/
theorem parse_of_spellsForm {form : List (Text × Text)} {t : Text} (h : SpellsForm form t) :
    parse t = form := by
  obtain ⟨segments, rfl, hpairs⟩ := h
  obtain ⟨hread, hmark⟩ := map_pair_of_forall₂ hpairs
  rcases List.eq_nil_or_concat segments with rfl | ⟨_, _, rfl⟩
  · exact hread
  · rw [parse, List.splitOn_intercalate _ _ (by simp), hread]
    intro s hs
    by_cases he : s = []
    · simp [he]
    · exact hmark s (by simpa [he] using hs)

/-- A text that needs no escapes. -/
theorem spells_of_all {t : Text} (h : t.all (! reserved.contains ·)) : Spells reserved t t := by
  induction t with
  | nil => exact .nil
  | cons c t ih =>
    rw [List.all_cons, Bool.and_eq_true] at h
    exact .cons (.plain (by simpa using h.1)) (ih h.2)

/-- Without empty segments. -/
theorem spellsForm_intercalate {form : List (Text × Text)} {segments : List Text}
    (h : List.Forall₂ SpellsPair form segments) : SpellsForm form (['&'].intercalate segments) := by
  refine ⟨segments, rfl, ?_⟩
  have hfull : ∀ s ∈ segments, (! s.isEmpty) = true := by
    induction h with
    | nil => simp
    | cons hp _ ih =>
      exact List.forall_mem_cons.mpr ⟨by simpa using ne_nil_of_spellsPair hp, ih⟩
  rwa [List.filter_eq_self.mpr hfull]

/-- A value is that of the first pair with its key. -/
theorem get?_append_cons {before : List (Text × Text)} {key : Text} (h : ∀ p ∈ before, p.1 ≠ key)
    (value : Text) (after : List (Text × Text)) :
    get? (before ++ (key, value) :: after) key = some value := by
  have hbefore : before.find? (fun p => p.1 == key) = none := by
    simpa [List.find?_eq_none] using h
  simp [get?, List.find?_append, hbefore]

theorem get?_eq_none_of_forall {form : List (Text × Text)} {key : Text}
    (h : ∀ p ∈ form, p.1 ≠ key) : get? form key = none := by
  simpa [get?, List.find?_eq_none] using h

/-- In whatever way a form has been written, reading gives back its pairs in their order. A request
with that body gives for a key the value of the first pair that has it, or nothing if none has. -/
theorem read_of_spellsForm {form : List (Text × Text)} {t : Text} (h : SpellsForm form t) :
    parse t = form ∧
      ∀ request : Request, request.body = Utf8.encode t →
        request.form = form ∧
          (∀ before key value after, form = before ++ (key, value) :: after →
            (∀ p ∈ before, p.1 ≠ key) → request.formValue? key = some value) ∧
          ∀ key, (∀ p ∈ form, p.1 ≠ key) → request.formValue? key = none := by
  refine ⟨parse_of_spellsForm h, fun request hbody => ?_⟩
  have hform : request.form = form := by
    rw [Request.form, hbody, Utf8.decodeLossy_encode, parse_of_spellsForm h]
  refine ⟨hform, fun before key value after hplace hfirst => ?_, fun key hnone => ?_⟩
  · rw [Request.formValue?, hform, hplace, get?_append_cons hfirst]
  · rw [Request.formValue?, hform, get?_eq_none_of_forall hnone]

/-- Empty segments at either end, an empty key, an equals sign in a value, a key alone, a letter
beyond ASCII with digits of either case, and a key that comes again. -/
theorem read_of_spellsForm_with_odd_pairs :
    let form : List (Text × Text) :=
      [([], "=é".toList), ("a b".toList, []), ("a b".toList, "+ %".toList)]
    let t := "&==%C3%a9&&a+b&a%20b=%2B %25&".toList
    let request : Request := ⟨"POST".toList, ['/'], "HTTP/1.1".toList, [], Utf8.encode t⟩
    SpellsForm form t ∧ parse t = form ∧ request.formValue? "a b".toList = some [] ∧
      request.formValue? ['b'] = none := by
  intro form t request
  have hempty : SpellsPair ([], "=é".toList) "==%C3%a9".toList :=
    .full (r := "=%C3%a9".toList) .nil <| .cons (.plain (by decide)) <|
      .cons (s := "%C3%a9".toList) (r := []) (.escaped (by decide)) .nil
  have hbare : SpellsPair ("a b".toList, []) "a+b".toList :=
    .bare (.cons (.plain (by decide)) (.cons .plus (.cons (.plain (by decide)) .nil))) (by decide)
  have hagain : SpellsPair ("a b".toList, "+ %".toList) "a%20b=%2B %25".toList :=
    .full (s := "a%20b".toList)
      (.cons (.plain (by decide)) <| .cons (s := "%20".toList) (.escaped (by decide)) <|
        .cons (.plain (by decide)) .nil)
      (.cons (s := "%2B".toList) (.escaped (by decide)) <| .cons (.plain (by decide)) <|
        .cons (s := "%25".toList) (r := []) (.escaped (by decide)) .nil)
  have hspells : SpellsForm form t :=
    ⟨[[], "==%C3%a9".toList, [], "a+b".toList, "a%20b=%2B %25".toList, []], rfl,
      .cons hempty (.cons hbare (.cons hagain .nil))⟩
  obtain ⟨hparse, hrequest⟩ := read_of_spellsForm hspells
  obtain ⟨-, hfirst, hnone⟩ := hrequest request rfl
  refine ⟨hspells, hparse, ?_, hnone _ (by decide)⟩
  exact hfirst [([], "=é".toList)] _ _ _ rfl (by decide)

end WebHost.Http.Form
