import Mathlib.Data.List.Basic
import WebHost.Proofs.Http.BodyLength
import WebHost.Proofs.Http.Headers
import WebHost.Proofs.Text.Digits
import WebHost.Proofs.Text.Lines
import WebHost.Proofs.Text.Utf8

/-! Messages on the wire. A message is printed as lines, an empty line and its body, and the parser
gives back the words of its first line, its headers and its body: no line holds a line break, so
that the first empty line is the printed one. So the parser undoes the printing of a request. -/
namespace WebHost.Http

def lineBreak : Text := ['\r', '\n']

theorem encode_lineBreak : Utf8.encode lineBreak = [13, 10] := by decide

/-- Lines that each end in a line break, by the breaks between them and one more. -/
theorem flatMap_append_lineBreak {ls : List Text} (hne : ls ≠ []) :
    ls.flatMap (· ++ lineBreak) = lineBreak.intercalate ls ++ lineBreak := by
  induction ls with
  | nil => exact absurd rfl hne
  | cons l ls ih =>
    cases ls with
    | nil => simp
    | cons m ms =>
      rw [List.flatMap_cons, ih (by simp), List.intercalate_cons_cons]
      simp only [List.append_assoc]

theorem not_mem_encode_of_not_mem {t : Text} (h : '\r' ∉ t) : 13 ∉ Utf8.encode t :=
  fun hb => h ((Utf8.mem_encode_iff_of_ascii (c := '\r') (by decide)).mp hb)

theorem exists_encode_eq_cons {l : Text} (hne : l ≠ []) (h : '\r' ∉ l) :
    ∃ b bs, Utf8.encode l = b :: bs ∧ b ≠ 13 := by
  cases hl : Utf8.encode l with
  | nil =>
    rw [← Utf8.encode_nil, Utf8.encode_inj] at hl
    exact absurd hl hne
  | cons b bs =>
    refine ⟨b, bs, rfl, ?_⟩
    rintro rfl
    exact not_mem_encode_of_not_mem h (by simp [hl])

/-- The head of printed lines ends behind the last of them, whatever bytes follow. -/
theorem headEnd?_encode_intercalate {ls : List Text} (hne : ls ≠ [])
    (h : ∀ l ∈ ls, l ≠ [] ∧ '\r' ∉ l) (rest : Bytes) :
    headEnd? (Utf8.encode (lineBreak.intercalate ls) ++ (terminator ++ rest)) =
      some (Utf8.encode (lineBreak.intercalate ls)).length := by
  induction ls with
  | nil => exact absurd rfl hne
  | cons l ls ih =>
    have hl := not_mem_encode_of_not_mem (h l (by simp)).2
    cases ls with
    | nil =>
      rw [List.intercalate_singleton, headEnd?_append_of_not_mem hl, headEnd?_terminator]
      rfl
    | cons m ms =>
      have ih := ih (by simp) fun l' hl' => h l' (by simp [hl'])
      obtain ⟨b, bs, hb, hb'⟩ : ∃ b bs,
          Utf8.encode (lineBreak.intercalate (m :: ms)) = b :: bs ∧ b ≠ 13 := by
        obtain ⟨b, bs, hb, hb'⟩ := exists_encode_eq_cons (h m (by simp)).1 (h m (by simp)).2
        cases ms with
        | nil => exact ⟨b, bs, by simpa using hb, hb'⟩
        | cons n ns => exact ⟨b, _, by rw [List.intercalate_cons_cons]; simp [hb]; rfl, hb'⟩
      rw [hb, List.cons_append] at ih
      rw [List.intercalate_cons_cons, Utf8.encode_append, Utf8.encode_append, encode_lineBreak, hb,
        List.append_assoc, List.append_assoc, headEnd?_append_of_not_mem hl]
      simp only [List.cons_append, List.nil_append]
      rw [headEnd?_lineBreak hb', ih]
      simp
      omega

/-- The white space of ASCII. -/
def asciiBlanks : Text := [' ', '\t', '\n', '\x0c', '\r']

/-- A word of a request line: not empty, and without white space. -/
def IsWord (w : Text) : Prop := w ≠ [] ∧ w.all (! asciiBlanks.contains ·)

instance (w : Text) : Decidable (IsWord w) := inferInstanceAs (Decidable (_ ∧ _))

theorem IsWord.not_mem {w : Text} (hw : IsWord w) {c : Char} (hc : c ∈ asciiBlanks) : c ∉ w := by
  intro h
  have hblank := List.all_eq_true.mp hw.2 c h
  simp [hc] at hblank

namespace Header

def line (h : Header) : Text := h.name ++ ':' :: ' ' :: h.value

/-- A header that its line can give back. A line feed alone ends no line. -/
structure IsPrintable (h : Header) : Prop where
  colon : ':' ∉ h.name
  name_break : '\r' ∉ h.name
  value_break : '\r' ∉ h.value
  name_trimmed : Text.IsTrimmed h.name
  value_trimmed : Text.IsTrimmed h.value

theorem isPrintable_iff {h : Header} :
    h.IsPrintable ↔ ':' ∉ h.name ∧ '\r' ∉ h.name ∧ '\r' ∉ h.value ∧ Text.IsTrimmed h.name ∧
      Text.IsTrimmed h.value :=
  ⟨fun ⟨a, b, c, d, e⟩ => ⟨a, b, c, d, e⟩, fun ⟨a, b, c, d, e⟩ => ⟨a, b, c, d, e⟩⟩

instance (h : Header) : Decidable h.IsPrintable := decidable_of_iff' _ isPrintable_iff

theorem not_mem_line {h : Header} (hp : h.IsPrintable) : '\r' ∉ h.line := by
  simp [line, hp.name_break, hp.value_break]

/-- A line gives back its header. -/
theorem ofLine?_line {h : Header} (hp : h.IsPrintable) : Headers.ofLine? h.line = some h := by
  have hname := Text.trim_of_isTrimmed hp.name_trimmed
  have hvalue := Text.trim_cons_of_isBlank (c := ' ') (by decide) hp.value_trimmed
  simp only [Headers.ofLine?, line, Text.cut?_append_of_not_mem hp.colon, Option.map_some, hname,
    hvalue]

theorem trim_line_ne_nil (h : Header) : Text.trim h.line ≠ [] :=
  Text.trim_ne_nil_of_mem (c := ':') (by decide) (by simp [line])

/-- Whatever the case of its letters, the name is on one line and has no colon or blank in it. -/
theorem isPrintable_contentLength {name : Text} (h : Text.sameFolded name contentLength) (n : Nat) :
    (Header.mk name (Text.decimal n)).IsPrintable := by
  have hplain : ∀ c ∈ name, Text.isBlank c = false ∧ c ≠ ':' := by
    intro c hc
    have hfold : c.toLower ∈ Text.folded contentLength := by
      rw [← Text.sameFolded_iff.mp h]
      exact List.mem_map_of_mem hc
    have hall : (Text.folded contentLength).all fun d => ! Text.isBlank d && d != ':' := by decide
    have hd := List.all_eq_true.mp hall _ hfold
    rw [Bool.and_eq_true, bne_iff_ne, Bool.not_eq_true', Text.isBlank_toLower] at hd
    refine ⟨hd.1, ?_⟩
    rintro rfl
    exact hd.2 rfl
  exact {
    colon := fun hc => (hplain _ hc).2 rfl
    name_break := fun hc => absurd (hplain _ hc).1 (by decide)
    value_break := fun hc => absurd (Text.isDigit_of_mem_decimal hc) (by decide)
    name_trimmed := Text.isTrimmed_of_forall fun c hc => (hplain c hc).1
    value_trimmed := Text.isTrimmed_decimal n }

end Header

namespace Headers

/-- Lines of printable headers give them back, up to the limit. -/
theorem ofLines_map_line {limit : Nat} {hs : Headers} (hp : ∀ h ∈ hs, h.IsPrintable) :
    ofLines limit (hs.map Header.line) = hs.take limit := by
  have hall : ∀ l ∈ hs.map Header.line, (! (Text.trim l).isEmpty) = true := by
    intro l hl
    obtain ⟨h, -, rfl⟩ := List.mem_map.mp hl
    simpa using h.trim_line_ne_nil
  have hread : (hs.map Header.line).filterMap ofLine? = hs := by
    rw [List.filterMap_map]
    calc hs.filterMap (ofLine? ∘ Header.line)
      _ = hs.filterMap some := List.filterMap_congr fun h hh => Header.ofLine?_line (hp h hh)
      _ = hs := List.filterMap_some
  rw [ofLines, List.takeWhile_eq_self_iff.mpr hall, hread]

end Headers

/-- A message: a first line, headers, an empty line and a body. -/
def message (first : Text) (hs : Headers) (body : Bytes) : Bytes :=
  Utf8.encode (first ++ "\r\n".toList ++ hs.print ++ "\r\n".toList) ++ body

/-- The head of a message, without the line break behind its last line. -/
def headText (first : Text) (hs : Headers) : Text :=
  lineBreak.intercalate (first :: hs.map Header.line)

theorem message_eq (first : Text) (hs : Headers) (body : Bytes) :
    message first hs body = Utf8.encode (headText first hs) ++ (terminator ++ body) := by
  have hprint : hs.print = (hs.map Header.line).flatMap (· ++ lineBreak) := by
    simp [Headers.print, List.flatMap_map, Header.line, lineBreak]
  have hhead : first ++ "\r\n".toList ++ hs.print ++ "\r\n".toList =
      headText first hs ++ lineBreak ++ lineBreak := by
    rw [headText, ← flatMap_append_lineBreak (by simp), List.flatMap_cons, hprint]
    rfl
  rw [message, hhead, Utf8.encode_append, Utf8.encode_append, encode_lineBreak]
  simp [terminator]

section
variable {first : Text} {hs : Headers} (hbreak : '\r' ∉ first) (hp : ∀ h ∈ hs, h.IsPrintable)
include hbreak hp

theorem not_mem_lines_of_isPrintable : ∀ l ∈ first :: hs.map Header.line, '\r' ∉ l := by
  intro l hl
  rcases List.mem_cons.mp hl with rfl | hl
  · exact hbreak
  · obtain ⟨h, hh, rfl⟩ := List.mem_map.mp hl
    exact Header.not_mem_line (hp h hh)

theorem lines_headText : Text.lines (headText first hs) = first :: hs.map Header.line :=
  Text.lines_intercalate (not_mem_lines_of_isPrintable hbreak hp) (by simp)

/-- The head of a message ends where it has been printed to end, whatever the body is. -/
theorem headEnd?_message (hne : first ≠ []) (body : Bytes) :
    headEnd? (message first hs body) = some (Utf8.encode (headText first hs)).length := by
  rw [message_eq]
  refine headEnd?_encode_intercalate (by simp) (fun l hl => ⟨?_, ?_⟩) body
  · rcases List.mem_cons.mp hl with rfl | hl
    · exact hne
    · obtain ⟨h, -, rfl⟩ := List.mem_map.mp hl
      simp [Header.line]
  · exact not_mem_lines_of_isPrintable hbreak hp l hl

end

/-- A character that is no white space of ASCII has a byte that is none. -/
theorem all_isAsciiBlank_message {c : Char} (hc : c ∉ asciiBlanks) {first : Text} (hfirst : c ∈ first)
    (hs : Headers) (body : Bytes) : (message first hs body).all Request.isAsciiBlank = false := by
  obtain ⟨b, hb⟩ := List.exists_mem_of_ne_nil _ (Utf8.utf8EncodeChar_ne_nil c)
  have hmem : b ∈ message first hs body := by
    have hm : b ∈ Utf8.encode first := List.mem_flatMap.mpr ⟨c, hfirst, hb⟩
    simp [message, hm]
  rw [Bool.eq_false_iff]
  intro hall
  have hb' := List.all_eq_true.mp hall b hmem
  simp only [Request.isAsciiBlank, Bool.or_eq_true, beq_iff_eq] at hb'
  refine hc ?_
  rcases hb' with (((rfl | rfl) | rfl) | rfl) | rfl
  all_goals
    have hcb := Utf8.toNat_of_mem_utf8EncodeChar hb (by decide)
    rw [← Char.ofNat_toNat c, hcb]
    decide

/-- What is parsed of a message whose first line has three words: the words, the headers that are
kept, and the body cut to the length that these declare. -/
theorem parse_message {limit : Nat} {first method path version : Text} {hs : Headers}
    (hbreak : '\r' ∉ first) {c : Char} (hc : c ∉ asciiBlanks) (hfirst : c ∈ first)
    (hwords : Request.requestLine first = .ok (method, path, version))
    (hp : ∀ h ∈ hs, h.IsPrintable) (body : Bytes) :
    Request.parse limit (message first hs body) =
      (Headers.declaredLength (hs.take limit)).map fun declared =>
        ⟨method, path, version, hs.take limit, body.take (declared.getD body.length)⟩ := by
  have hblank := all_isAsciiBlank_message hc hfirst hs body
  have hn := headEnd?_message hbreak hp (List.ne_nil_of_mem hfirst) body
  rw [message_eq] at hblank hn ⊢
  rw [Request.parse_eq_ofHead hblank hn (by rw [List.take_left, Utf8.decode?_encode]),
    ← List.append_assoc, ← List.length_append, List.drop_left, Request.ofHead,
    lines_headText hbreak hp]
  simp only [hwords, Headers.ofLines_map_line hp]
  cases (Headers.declaredLength (hs.take limit)) <;> rfl

namespace Request

/-- A request that its printed form can give back. -/
structure IsPrintable (r : Request) : Prop where
  method : IsWord r.method ∧ Text.byteLength r.method ≤ methodLimit
  path : IsWord r.path ∧ Text.byteLength r.path ≤ pathLimit
  version : IsWord r.version ∧ Text.byteLength r.version ≤ versionLimit
  headers : ∀ h ∈ r.headers, h.IsPrintable

def firstLine (r : Request) : Text := r.method ++ ' ' :: r.path ++ ' ' :: r.version

theorem toBytes_eq (r : Request) : r.toBytes = message r.firstLine r.headers r.body := rfl

section
variable {r : Request} (hr : r.IsPrintable)
include hr

/-- The words of the first line are found in it. -/
theorem requestLine_firstLine : requestLine r.firstLine = .ok (r.method, r.path, r.version) := by
  have hword {w : Text} (hw : IsWord w) : ' ' ∉ w := hw.not_mem (by decide)
  have hsplit : r.firstLine.splitOn ' ' = [r.method, r.path, r.version] := by
    rw [firstLine, List.append_assoc, List.cons_append,
      List.splitOn_append_cons_self_of_not_mem (hword hr.method.1),
      List.splitOn_append_cons_self_of_not_mem (hword hr.path.1),
      List.splitOn_eq_singleton (hword hr.version.1)]
  have hkeep : [r.method, r.path, r.version].filter (fun w => ! w.isEmpty) =
      [r.method, r.path, r.version] := by
    simp [hr.method.1.1, hr.path.1.1, hr.version.1.1]
  simp only [requestLine, hsplit, hkeep, if_neg (Nat.not_lt.mpr hr.method.2),
    if_neg (Nat.not_lt.mpr hr.path.2), if_neg (Nat.not_lt.mpr hr.version.2)]

/-- What is parsed of a printed request: all of it, with the body cut to the declared length. -/
theorem parse_toBytes_eq {limit : Nat} (hl : r.headers.length ≤ limit) :
    parse limit r.toBytes = r.headers.declaredLength.map fun declared =>
      { r with body := r.body.take (declared.getD r.body.length) } := by
  have hbreak : '\r' ∉ r.firstLine := by
    have hword {w : Text} (hw : IsWord w) : '\r' ∉ w := hw.not_mem (by decide)
    simp [firstLine, hword hr.method.1, hword hr.path.1, hword hr.version.1]
  -- The method has a character, and it is no blank.
  obtain ⟨c, hc⟩ := List.exists_mem_of_ne_nil _ hr.method.1.1
  have hblank : c ∉ asciiBlanks := fun h => hr.method.1.not_mem h hc
  rw [toBytes_eq, parse_message hbreak hblank (by simp [firstLine, hc]) (requestLine_firstLine hr)
    hr.headers, List.take_of_length_le hl]

end

/-- A request that is printed with as many headers as are read, and with the length of its body if
with any. -/
structure IsWhole (limit : Nat) (r : Request) : Prop where
  printable : r.IsPrintable
  room : r.headers.length ≤ limit
  declared : r.headers.declaredLength = .ok none ∨ r.headers.declaredLength = .ok (some r.body.length)

theorem parse_toBytes_of_isWhole {limit : Nat} {r : Request} (h : r.IsWhole limit) :
    parse limit r.toBytes = .ok r := by
  rw [parse_toBytes_eq h.printable h.room]
  rcases h.declared with hd | hd
  · simp [hd, Except.map]
  · simp [hd, Except.map]

/-- The parser undoes printing. Without a declared length the body is whatever follows the empty
line; with one, at whatever place among the headers, it is as much of that as is declared. -/
theorem parse_toBytes {limit : Nat} {r : Request} (hr : r.IsPrintable)
    (hn : ∀ h ∈ r.headers, ¬ Text.sameFolded h.name contentLength)
    (hl : r.headers.length ≤ limit) :
    parse limit r.toBytes = .ok r ∧
      ∀ (before after : Headers) (name : Text) (n : Nat), r.headers = before ++ after →
        Text.sameFolded name contentLength → n < Text.sizeBound → r.headers.length + 1 ≤ limit →
        let declaring := { r with headers := before ++ Header.mk name (Text.decimal n) :: after }
        parse limit declaring.toBytes =
          .ok { declaring with body := r.body.take (min n r.body.length) } := by
  constructor
  · have hd := Headers.declaredLength_eq_none_iff.mpr (Headers.get?_eq_none_of_forall hn)
    simp [parse_toBytes_eq hr hl, hd, Except.map]
  · intro before after name n hsplit hname hsize hl declaring
    rw [hsplit] at hn
    have hp : declaring.IsPrintable := by
      refine ⟨hr.method, hr.path, hr.version, fun h hh => ?_⟩
      rcases List.mem_append.mp hh with hh | hh
      · exact hr.headers h (by simp [hsplit, hh])
      · rcases List.mem_cons.mp hh with rfl | hh
        · exact Header.isPrintable_contentLength hname n
        · exact hr.headers h (by simp [hsplit, hh])
    have hget : declaring.headers.get? contentLength = some (Text.decimal n) :=
      Headers.get?_append_cons (fun x hx => hn x (by simp [hx])) hname after
    have hd : declaring.headers.declaredLength = .ok (some n) :=
      Headers.declaredLength_eq_some_iff.mpr ⟨_, hget, Text.size?_decimal hsize⟩
    have hlength : declaring.headers.length ≤ limit := by
      simpa [declaring, hsplit, Nat.add_assoc] using hl
    rw [parse_toBytes_eq hp hlength, hd]
    simp [Except.map, declaring, ← List.take_eq_take_min]

/-- Headers without a name or a value, a colon in a value, and a body with an empty line in it. -/
theorem parse_toBytes_with_odd_headers :
    let before : Headers := [⟨[], []⟩]
    let after : Headers := [⟨"A".toList, "b: c".toList⟩]
    let r : Request :=
      ⟨"PUT".toList, "/é?a:b".toList, "HTTP/1.1".toList, before ++ after, [0xFF, 13, 10, 13, 10]⟩
    let declaring := { r with
      headers := before ++ Header.mk "content-LENGTH".toList (Text.decimal 3) :: after }
    r.IsPrintable ∧ (∀ h ∈ r.headers, ¬ Text.sameFolded h.name contentLength) ∧
      r.headers.length ≤ 3 ∧ parse 3 r.toBytes = .ok r ∧
      parse 3 declaring.toBytes = .ok { declaring with body := [0xFF, 13, 10] } := by
  intro before after r declaring
  have hr : r.IsPrintable := ⟨by decide, by decide, by decide, by decide⟩
  have hn : ∀ h ∈ r.headers, ¬ Text.sameFolded h.name contentLength := by decide
  have hl : r.headers.length ≤ 3 := by decide
  obtain ⟨hplain, hdeclaring⟩ := parse_toBytes hr hn hl
  exact ⟨hr, hn, hl, hplain,
    hdeclaring before after _ 3 rfl (by decide) (by decide) (by decide)⟩

end Request
end WebHost.Http
