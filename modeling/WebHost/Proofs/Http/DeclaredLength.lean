import WebHost.Proofs.Http.Delivery
import WebHost.Proofs.Http.HeaderLimit
import WebHost.Proofs.Http.Headers
import WebHost.Proofs.Text.Numeral
import WebHost.Proofs.Text.Trimming

/-! How a length may be spelled. A numeral of 64 bits with blanks around it declares its value, to
the reader of a head and to the parser of a request alike. So does a numeral behind a plus sign,
which is no plain decimal; nothing else declares a length, and both refuse it. -/
namespace WebHost.Http

/-- Blanks around a numeral of 64 bits, which stands right behind `sign`. -/
def SpellsLength (sign value : Text) (n : Nat) : Prop :=
  ∃ lead digits trail, value = lead ++ (sign ++ digits) ++ trail ∧ Text.Blanks lead ∧
    Text.Blanks trail ∧ Text.IsNumeral digits n ∧ n < Text.sizeBound

/-- A plain decimal is taken for its value, and whatever is none is refused. -/
structure TakesPlainLength {α : Type} (value : Text) (taken : Nat → α)
    (result : Except RequestError α) : Prop where
  takes : ∀ n, SpellsLength [] value n → result = .ok (taken n)
  refuses : (∀ n, ¬ SpellsLength [] value n) →
    result = .error (.invalidContentLength (Text.trim value))

/-- The line is a Content-Length header with `value` behind its first colon. -/
def IsLengthLine (line value : Text) : Prop :=
  ∃ name, line = name ++ ':' :: value ∧ ':' ∉ name ∧ Text.sameFolded (Text.trim name) contentLength

/-- The first Content-Length line has this value. -/
def FirstLengthLine (lines : List Text) (value : Text) : Prop :=
  ∃ before line after, lines = before ++ line :: after ∧ IsLengthLine line value ∧
    ∀ l ∈ before, ∀ v, ¬ IsLengthLine l v

section Spelling
variable {sign value : Text} {m n : Nat}

theorem spellsLength_iff (hs : ∀ c ∈ sign, Text.isBlank c = false) :
    SpellsLength sign value n ↔
      ∃ digits, Text.trim value = sign ++ digits ∧ Text.IsNumeral digits n ∧
        n < Text.sizeBound := by
  constructor
  · rintro ⟨lead, digits, trail, rfl, hlead, htrail, hdigits, hn⟩
    have htrimmed : Text.IsTrimmed (sign ++ digits) := by
      refine Text.isTrimmed_of_forall fun c hc => ?_
      rcases List.mem_append.mp hc with hc | hc
      · exact hs c hc
      · exact Text.isBlank_of_isDigit (hdigits.isDigit hc)
    exact ⟨digits, Text.trim_append hlead htrimmed htrail, hdigits, hn⟩
  · rintro ⟨digits, htrim, hdigits, hn⟩
    obtain ⟨lead, trail, hlead, htrail, hvalue⟩ := Text.exists_trim value
    exact ⟨lead, digits, trail, htrim ▸ hvalue, hlead, htrail, hdigits, hn⟩

theorem size?_trim_eq_some_iff :
    Text.size? (Text.trim value) = some n ↔
      SpellsLength [] value n ∨ SpellsLength ['+'] value n := by
  rw [spellsLength_iff (by simp), spellsLength_iff (List.forall_mem_singleton.mpr rfl),
    Text.size?_eq_some_iff]
  constructor
  · rintro ⟨hn, h | ⟨digits, he, h⟩⟩
    · exact .inl ⟨_, rfl, h, hn⟩
    · exact .inr ⟨digits, he, h, hn⟩
  · rintro (⟨digits, he, h, hn⟩ | ⟨digits, he, h, hn⟩)
    · exact ⟨hn, .inl (he ▸ h)⟩
    · exact ⟨hn, .inr ⟨digits, he, h⟩⟩

/-- A plus sign makes a length that is not plain. -/
theorem not_plain_of_signed (h : SpellsLength ['+'] value m) : ¬ SpellsLength [] value n := by
  intro hplain
  obtain ⟨digits, he, hdigits, -⟩ := (spellsLength_iff (by simp)).mp hplain
  obtain ⟨digits', he', -⟩ := (spellsLength_iff (List.forall_mem_singleton.mpr rfl)).mp h
  exact hdigits.ne_plus digits' (he.symm.trans he')

/-- What is read of the trimmed value takes plain decimals only, unless there is a sign. -/
theorem takesPlainLength_iff {α : Type} {taken : Nat → α} {result : Except RequestError α}
    (h : result = match Text.size? (Text.trim value) with
      | some n => .ok (taken n)
      | none => .error (.invalidContentLength (Text.trim value))) :
    (TakesPlainLength value taken result ↔ ∀ n, ¬ SpellsLength ['+'] value n) ∧
      ∀ n, SpellsLength ['+'] value n → result = .ok (taken n) := by
  have htaken (n : Nat) (hn : SpellsLength [] value n ∨ SpellsLength ['+'] value n) :
      result = .ok (taken n) := by
    rw [h, size?_trim_eq_some_iff.mpr hn]
  refine ⟨⟨fun hplain n hsigned => ?_, fun hunsigned => ⟨fun n hn => htaken n (.inl hn), ?_⟩⟩,
    fun n hn => htaken n (.inr hn)⟩
  · have hrefused := hplain.refuses fun m => not_plain_of_signed hsigned
    rw [htaken n (.inr hsigned)] at hrefused
    cases hrefused
  · intro hno
    have hnone : Text.size? (Text.trim value) = none := by
      refine Option.eq_none_iff_forall_ne_some.mpr fun n hn => ?_
      exact (size?_trim_eq_some_iff.mp hn).elim (hno n) (hunsigned n)
    rw [h, hnone]

end Spelling

namespace Headers
variable {hs : Headers} {lines : List Text} {limit : Nat} {name value : Text}

theorem declaredLength_of_first (h : hs.First contentLength value) :
    hs.declaredLength = match Text.size? value with
      | some n => .ok (some n)
      | none => .error (.invalidContentLength value) := by
  have hget := get?_eq_some_iff.mpr h
  cases hsize : Text.size? value <;> simp only [declaredLength, hget, hsize]

/-- The first line of that name is the first header of that name, but for the blanks. -/
theorem first_of_firstLengthLine (h : FirstLengthLine lines value) :
    First (lines.filterMap ofLine?) contentLength (Text.trim value) := by
  obtain ⟨before, line, after, rfl, ⟨name, rfl, hcolon, hname⟩, hbefore⟩ := h
  refine ⟨before.filterMap ofLine?, Text.trim name, after.filterMap ofLine?, ?_, hname, ?_⟩
  · rw [List.filterMap_append, List.filterMap_cons_some (ofLine?_append hcolon value)]
  · intro header hheader hsame
    obtain ⟨l, hl, ho⟩ := List.mem_filterMap.mp hheader
    obtain ⟨⟨name', value'⟩, hcut, rfl⟩ := Option.map_eq_some_iff.mp ho
    obtain ⟨rfl, hcolon'⟩ := Text.cut?_singleton_eq_some_iff.mp hcut
    exact hbefore _ hl value' ⟨name', rfl, hcolon', hsame⟩

theorem isTrimmed_of_first_ofLines (h : (ofLines limit lines).First name value) :
    Text.IsTrimmed value := by
  obtain ⟨before, spelling, after, he, -, -⟩ := h
  have hmem : ⟨spelling, value⟩ ∈ ofLines limit lines := by simp [he]
  obtain ⟨line, -, ho⟩ := List.mem_filterMap.mp ((ofLines_beginning limit lines).subset hmem)
  obtain ⟨⟨name', value'⟩, -, hheader⟩ := Option.map_eq_some_iff.mp ho
  rw [← (Header.mk.inj hheader).2]
  exact Text.isTrimmed_trim value'

end Headers

/-- The first Content-Length that is kept decides whether bytes with a good first line make a
request, and how long its body is. -/
theorem Request.parse_of_first {limit n : Nat} {bs : Bytes} {head method path version value : Text}
    (hn : headEnd? bs = some n) (hd : Utf8.decode? (bs.take n) = some head)
    (hw : requestLine ((Text.lines head).headD []) = .ok (method, path, version))
    (hf : (Headers.ofLines limit ((Text.lines head).drop 1)).First contentLength value) :
    parse limit bs = match Text.size? value with
      | some k => .ok ⟨method, path, version, Headers.ofLines limit ((Text.lines head).drop 1),
          (bs.drop (n + terminator.length)).take k⟩
      | none => .error (.invalidContentLength value) := by
  have hb := all_isAsciiBlank_eq_false hd (Headers.get?_eq_some_iff.mpr hf)
  obtain ⟨first, others, hl⟩ := List.exists_cons_of_ne_nil (Text.lines_ne_nil head)
  rw [parse_eq_ofHead hb hn hd, ofHead, hl]
  rw [hl] at hw hf
  simp only [List.headD_cons, List.drop_one, List.tail_cons] at hw hf ⊢
  rw [hw, Headers.declaredLength_of_first hf]
  cases Text.size? value <;> rfl

/-- Only plain decimals declare a length, with their true value, unless there is a plus sign in
front of one. This holds of the first Content-Length line behind the first line of any head, and of
the first Content-Length among the headers that are kept of any bytes with a good first line; the
body is then cut to that value. A number with a plus sign declares its value all the same. -/
theorem takesPlainLength_iff_unsigned (value : Text) :
    (∀ head, FirstLengthLine ((Text.lines (Utf8.decodeLossy head)).drop 1) value →
      (TakesPlainLength value some (declaredLength head) ↔ ∀ n, ¬ SpellsLength ['+'] value n) ∧
        ∀ n, SpellsLength ['+'] value n → declaredLength head = .ok (some n)) ∧
    ∀ limit bs n head method path version, headEnd? bs = some n →
      Utf8.decode? (bs.take n) = some head →
      Request.requestLine ((Text.lines head).headD []) = .ok (method, path, version) →
      (Headers.ofLines limit ((Text.lines head).drop 1)).First contentLength value →
      let request (k : Nat) : Request := ⟨method, path, version,
        Headers.ofLines limit ((Text.lines head).drop 1), (bs.drop (n + terminator.length)).take k⟩
      (TakesPlainLength value request (Request.parse limit bs) ↔
          ∀ k, ¬ SpellsLength ['+'] value k) ∧
        ∀ k, SpellsLength ['+'] value k → Request.parse limit bs = .ok (request k) := by
  constructor
  · intro head hfirst
    have hhead := Headers.declaredLength_of_first (Headers.first_of_firstLengthLine hfirst)
    exact takesPlainLength_iff hhead
  · intro limit bs n head method path version hn hd hw hfirst request
    have hparse := Request.parse_of_first hn hd hw hfirst
    have htrim := Text.trim_of_isTrimmed (Headers.isTrimmed_of_first_ofLines hfirst)
    exact takesPlainLength_iff (htrim.symm ▸ hparse)

/-- Zeros in front, blanks around and further lines make no difference. -/
theorem takesPlainLength_iff_unsigned_of_leading_zeros :
    let head := "P / H\r\n-\r\ncontent-LENGTH :\t\u00a0007 \r\nContent-Length:1".toList
    let request : Request := ⟨"P".toList, "/".toList, "H".toList,
      [⟨"content-LENGTH".toList, "007".toList⟩, ⟨contentLength, "1".toList⟩],
      Utf8.encode "abcdefg".toList⟩
    FirstLengthLine ((Text.lines (Utf8.decodeLossy (Utf8.encode head))).drop 1)
        "\t\u00a0007 ".toList ∧
      (∀ n, ¬ SpellsLength ['+'] "\t\u00a0007 ".toList n) ∧
      declaredLength (Utf8.encode head) = .ok (some 7) ∧
      (Headers.ofLines 2 ((Text.lines head).drop 1)).First contentLength "007".toList ∧
      Request.parse 2 (Utf8.encode head ++ terminator ++ Utf8.encode "abcdefgh".toList) =
        .ok request := by
  intro head request
  have hnumeral : Text.IsNumeral "007".toList 7 := Text.decimalValue?_eq_some_iff.mp rfl
  have hraw : SpellsLength [] "\t\u00a0007 ".toList 7 :=
    ⟨"\t\u00a0".toList, _, [' '], rfl, by decide, by decide, hnumeral, by decide⟩
  have hkept : SpellsLength [] "007".toList 7 :=
    ⟨[], _, [], rfl, by decide, by decide, hnumeral, by decide⟩
  have hfirst : FirstLengthLine ((Text.lines (Utf8.decodeLossy (Utf8.encode head))).drop 1)
      "\t\u00a0007 ".toList := by
    rw [Utf8.decodeLossy_encode]
    refine ⟨[['-']], _, ["Content-Length:1".toList], rfl,
      ⟨"content-LENGTH ".toList, rfl, by decide, by decide⟩, ?_⟩
    rintro l hl v ⟨name, rfl, -⟩
    have hcolon : ':' ∈ ['-'] := by simp [← List.mem_singleton.mp hl]
    exact absurd hcolon (by decide)
  have hkeptFirst : (Headers.ofLines 2 ((Text.lines head).drop 1)).First contentLength
      "007".toList := ⟨[], _, _, rfl, by decide, by simp⟩
  have hend : headEnd? (Utf8.encode head ++ terminator ++ Utf8.encode "abcdefgh".toList) =
      some 51 := by decide +kernel
  have hdecode : Utf8.decode? ((Utf8.encode head ++ terminator ++
      Utf8.encode "abcdefgh".toList).take 51) = some head := by decide +kernel
  have hwords : Request.requestLine ((Text.lines head).headD []) =
      .ok (request.method, request.path, request.version) := by decide +kernel
  have hplain := ((takesPlainLength_iff_unsigned _).1 _ hfirst).1.mpr
    fun n h => not_plain_of_signed h hraw
  have hplain' := ((takesPlainLength_iff_unsigned _).2 2 _ _ head _ _ _ hend hdecode hwords
    hkeptFirst).1.mpr fun n h => not_plain_of_signed h hkept
  exact ⟨hfirst, fun n h => not_plain_of_signed h hraw, hplain.takes 7 hraw, hkeptFirst,
    hplain'.takes 7 hkept⟩

/-- A plus sign is passed over by both. -/
theorem not_forall_takesPlainLength :
    (¬ ∀ head value, FirstLengthLine ((Text.lines (Utf8.decodeLossy head)).drop 1) value →
      TakesPlainLength value some (declaredLength head)) ∧
    ¬ ∀ limit bs n head value, headEnd? bs = some n → Utf8.decode? (bs.take n) = some head →
      (Request.requestLine ((Text.lines head).headD [])).isOk →
      (Headers.ofLines limit ((Text.lines head).drop 1)).First contentLength value →
      ∃ taken, TakesPlainLength value taken (Request.parse limit bs) := by
  let head := "GET / HTTP/1.1\r\nContent-Length: +5".toList
  have hnumeral : Text.IsNumeral ['5'] 5 := Text.decimalValue?_eq_some_iff.mp rfl
  have hsigned : SpellsLength ['+'] " +5".toList 5 :=
    ⟨[' '], _, [], rfl, by decide, by decide, hnumeral, by decide⟩
  have hsigned' : SpellsLength ['+'] "+5".toList 5 :=
    ⟨[], _, [], rfl, by decide, by decide, hnumeral, by decide⟩
  constructor
  · intro h
    have hplain := h (Utf8.encode head) " +5".toList
      ⟨[], _, [], rfl, ⟨contentLength, rfl, by decide, by decide⟩, by simp⟩
    have hrefused := hplain.refuses fun n => not_plain_of_signed hsigned
    have htaken : declaredLength (Utf8.encode head) = .ok (some 5) := rfl
    rw [htaken] at hrefused
    cases hrefused
  · intro h
    obtain ⟨taken, hplain⟩ := h 1 (Utf8.encode head ++ terminator) _ head "+5".toList rfl rfl rfl
      ⟨[], _, _, rfl, by decide, by simp⟩
    have hrefused := hplain.refuses fun n => not_plain_of_signed hsigned'
    have htaken : (Request.parse 1 (Utf8.encode head ++ terminator)).isOk := rfl
    rw [hrefused] at htaken
    cases htaken

end WebHost.Http
