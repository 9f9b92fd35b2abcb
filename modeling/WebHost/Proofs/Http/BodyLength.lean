import Mathlib.Data.List.TakeDrop
import WebHost.Proofs.Http.HeadEnd

/-! The length of a body, as a reader of the head expects it and as the parser cuts it. Both take
the first Content-Length, the reader among all lines and the parser among the headers it keeps. -/
namespace WebHost.Http

namespace Headers

/-- The headers on all lines of a head after the first, wherever a parser stops. -/
def ofHead (head : Bytes) : Headers :=
  ((Text.lines (Utf8.decodeLossy head)).drop 1).filterMap ofLine?

theorem ofHead_of_decode? {head : Bytes} {text : Text} (h : Utf8.decode? head = some text) :
    ofHead head = ((Text.lines text).drop 1).filterMap ofLine? := by
  rw [ofHead, Utf8.decodeLossy_of_decode? h]

theorem ofLines_beginning (limit : Nat) (lines : List Text) :
    ofLines limit lines <+: lines.filterMap ofLine? :=
  (List.take_prefix _ _).trans ((List.takeWhile_prefix _).filterMap _)

theorem get?_mono {kept all : Headers} (h : kept <+: all) {name value : Text}
    (hk : kept.get? name = some value) : all.get? name = some value := by
  obtain ⟨rest, rfl⟩ := h
  obtain ⟨header, hf, rfl⟩ := Option.map_eq_some_iff.mp hk
  simp [get?, List.find?_append, hf]

theorem declaredLength_of_get?_eq {a b : Headers}
    (h : a.get? contentLength = b.get? contentLength) : a.declaredLength = b.declaredLength := by
  rw [declaredLength, declaredLength, h]

theorem declaredLength_eq_none_iff {hs : Headers} :
    hs.declaredLength = .ok none ↔ hs.get? contentLength = none := by
  unfold declaredLength
  split
  · next h => simp [h]
  · next h => split <;> simp [h]

theorem declaredLength_eq_some_iff {hs : Headers} {n : Nat} :
    hs.declaredLength = .ok (some n) ↔
      ∃ value, hs.get? contentLength = some value ∧ Text.size? value = some n := by
  unfold declaredLength
  split
  · next h => simp [h]
  · next value h => split <;> simp_all

end Headers

theorem declaredLength_eq_ofHead (head : Bytes) :
    declaredLength head = (Headers.ofHead head).declaredLength := rfl

namespace Request

theorem parse_eq_ofHead {limit : Nat} {bs : Bytes} {n : Nat} {head : Text}
    (hb : bs.all isAsciiBlank = false) (hn : headEnd? bs = some n)
    (hd : Utf8.decode? (bs.take n) = some head) :
    parse limit bs = ofHead limit head (bs.drop (n + terminator.length)) := by
  simp [parse, hb, hn, hd]

/-- What has been parsed has a head that is well-formed text. -/
theorem head_of_parse {limit : Nat} {bs : Bytes} {r : Request} (h : parse limit bs = .ok r) :
    ∃ n head, headEnd? bs = some n ∧ Utf8.decode? (bs.take n) = some head ∧
      ofHead limit head (bs.drop (n + terminator.length)) = .ok r := by
  unfold parse at h
  split at h
  · simp at h
  · split at h
    · simp at h
    · next n hn =>
      split at h
      · simp at h
      · next head hd => exact ⟨n, head, hn, hd, h⟩

/-- The parts of a request: three words, the kept headers, and the body cut to their length. -/
theorem ofHead_eq_ok_iff {limit : Nat} {head : Text} {rest : Bytes} {r : Request} :
    ofHead limit head rest = .ok r ↔
      ∃ declared, requestLine ((Text.lines head).headD []) = .ok (r.method, r.path, r.version) ∧
        r.headers = Headers.ofLines limit ((Text.lines head).drop 1) ∧
        r.headers.declaredLength = .ok declared ∧
        r.body = rest.take (declared.getD rest.length) := by
  unfold ofHead
  split
  · next hl => exact absurd hl (Text.lines_ne_nil head)
  · next first others hl =>
    simp only [List.headD_cons, List.drop_one, List.tail_cons, hl]
    cases hw : requestLine first with
    | error e => simp [bind, Except.bind]
    | ok words =>
      obtain ⟨method, path, version⟩ := words
      cases hd : (Headers.ofLines limit others).declaredLength with
      | error e =>
        simp only [bind, Except.bind, reduceCtorEq, false_iff]
        rintro ⟨declared, -, hh, hr, -⟩
        rw [hh, hd] at hr
        simp at hr
      | ok declared =>
        simp only [bind, Except.bind, pure, Except.pure, Except.ok.injEq, Prod.mk.injEq]
        constructor
        · rintro rfl
          exact ⟨declared, ⟨rfl, rfl, rfl⟩, rfl, hd, rfl⟩
        · rintro ⟨declared', ⟨rfl, rfl, rfl⟩, hh, hr, hbody⟩
          rw [hh, hd, Except.ok.injEq] at hr
          subst hr
          rw [← hh, ← hbody]

theorem headers_of_parse {limit : Nat} {bs : Bytes} {r : Request} {n : Nat}
    (h : parse limit bs = .ok r) (hn : headEnd? bs = some n) :
    r.headers <+: Headers.ofHead (bs.take n) := by
  obtain ⟨m, head, hm, hd, ho⟩ := head_of_parse h
  obtain rfl : m = n := Option.some.inj (hm.symm.trans hn)
  obtain ⟨declared, -, hh, -⟩ := ofHead_eq_ok_iff.mp ho
  rw [hh, Headers.ofHead_of_decode? hd]
  exact Headers.ofLines_beginning _ _

/-- The body is what follows the terminator, cut to the length that the kept headers declare. -/
theorem body_of_parse {limit : Nat} {bs : Bytes} {r : Request} {n : Nat}
    (h : parse limit bs = .ok r) (hn : headEnd? bs = some n) :
    ∃ declared, r.headers.declaredLength = .ok declared ∧
      r.body = (bs.drop (n + terminator.length)).take
        (declared.getD (bs.drop (n + terminator.length)).length) := by
  obtain ⟨m, head, hm, -, ho⟩ := head_of_parse h
  obtain rfl : m = n := Option.some.inj (hm.symm.trans hn)
  obtain ⟨declared, -, -, hdec, hbody⟩ := ofHead_eq_ok_iff.mp ho
  exact ⟨declared, hdec, hbody⟩

/-- The parser sees the same first Content-Length as a reader of the whole head, or none at all. -/
theorem header?_contentLength_eq_or_none {limit : Nat} {bs : Bytes} {r : Request} {n : Nat}
    (h : parse limit bs = .ok r) (hn : headEnd? bs = some n) :
    r.header? contentLength = (Headers.ofHead (bs.take n)).get? contentLength ∨
      r.header? contentLength = none := by
  cases hg : r.headers.get? contentLength with
  | none => exact .inr hg
  | some value =>
    left
    rw [header?, hg, Headers.get?_mono (headers_of_parse h hn) hg]

end Request

/-- The body is the one that the head tells a reader to expect: all of `rest` without a declared
length, as much of it as is declared and there otherwise. A bad length is expected by nobody. -/
def BodyAgrees (head rest body : Bytes) : Prop :=
  match declaredLength head with
  | .error _ => False
  | .ok none => body = rest
  | .ok (some n) => body = rest.take (min n rest.length)

instance (head rest body : Bytes) : Decidable (BodyAgrees head rest body) :=
  match h : declaredLength head with
  | .error _ => isFalse (by simp [BodyAgrees, h])
  | .ok none => decidable_of_iff (body = rest) (by simp [BodyAgrees, h])
  | .ok (some n) =>
    decidable_of_iff (body = rest.take (min n rest.length)) (by simp [BodyAgrees, h])

/-- Reader and parser agree on the body exactly if the parser keeps the first Content-Length of
the head, which it does not past its limit or after a blank line, or if one it does not keep
declares no less than has come. -/
theorem bodyAgrees_iff_of_parse {limit : Nat} {bs : Bytes} {r : Request}
    (h : Request.parse limit bs = .ok r) :
    ∃ n, headEnd? bs = some n ∧
      (BodyAgrees (bs.take n) (bs.drop (n + terminator.length)) r.body ↔
        r.header? contentLength = (Headers.ofHead (bs.take n)).get? contentLength ∨
          ∃ value declared, (Headers.ofHead (bs.take n)).get? contentLength = some value ∧
            Text.size? value = some declared ∧
            (bs.drop (n + terminator.length)).length ≤ declared) := by
  obtain ⟨n, -, hn, -, -⟩ := Request.head_of_parse h
  refine ⟨n, hn, ?_⟩
  obtain ⟨declared, hdec, hbody⟩ := Request.body_of_parse h hn
  generalize bs.drop (n + terminator.length) = rest at hbody ⊢
  rw [BodyAgrees, declaredLength_eq_ofHead]
  rcases Request.header?_contentLength_eq_or_none h hn with he | he
  · -- The same first Content-Length is read on both sides.
    rw [← Headers.declaredLength_of_get?_eq he, hdec, iff_true_right (.inl he)]
    cases declared with
    | none => simpa using hbody
    | some k =>
      have hk : rest.take k = rest.take (min k rest.length) := by
        rw [← List.take_eq_take_min]
      simpa [← hk] using hbody
  · -- The parser keeps none and takes everything.
    have hnone := Headers.declaredLength_eq_none_iff.mpr he
    obtain rfl : declared = none := Except.ok.inj (hdec.symm.trans hnone)
    have hall : r.body = rest := by simpa using hbody
    rw [he, hall]
    cases hg : (Headers.ofHead (bs.take n)).get? contentLength with
    | none => simp [Headers.declaredLength, hg]
    | some value =>
      cases hv : Text.size? value with
      | none => simp [Headers.declaredLength, hg, hv]
      | some k =>
        have hk : rest = rest.take (min k rest.length) ↔ rest.length ≤ k := by
          rw [List.take_self_eq_iff]
          omega
        simp only [Headers.declaredLength, hg, hv, hk, reduceCtorEq, Option.some.injEq,
          exists_and_left, exists_eq_left', false_or]

/-- The limit drops the Content-Length, and what it declares is less than has come. -/
theorem bodyAgrees_iff_past_limit :
    let bs := Utf8.encode "POST / HTTP/1.1\r\nHost: x\r\nContent-Length: 2\r\n\r\nhello".toList
    let r : Request := ⟨"POST".toList, "/".toList, "HTTP/1.1".toList,
      [⟨"Host".toList, "x".toList⟩], Utf8.encode "hello".toList⟩
    Request.parse 1 bs = .ok r ∧
      ∃ n, headEnd? bs = some n ∧
        (BodyAgrees (bs.take n) (bs.drop (n + terminator.length)) r.body ↔
          r.header? contentLength = (Headers.ofHead (bs.take n)).get? contentLength ∨
            ∃ value declared, (Headers.ofHead (bs.take n)).get? contentLength = some value ∧
              Text.size? value = some declared ∧
              (bs.drop (n + terminator.length)).length ≤ declared) := by
  intro bs r
  have hp : Request.parse 1 bs = .ok r := by rfl
  exact ⟨hp, bodyAgrees_iff_of_parse hp⟩

/-- A blank line ends the section for the parser only. -/
theorem not_bodyAgrees_of_blank_line :
    ¬ ∀ (limit : Nat) (bs : Bytes) (r : Request) (n : Nat), 1 ≤ limit →
      Request.parse limit bs = .ok r → headEnd? bs = some n →
        BodyAgrees (bs.take n) (bs.drop (n + terminator.length)) r.body := by
  intro h
  let bs := Utf8.encode "POST / HTTP/1.1\r\n \r\nContent-Length: 2\r\n\r\nhello".toList
  have hp : Request.parse Request.defaultHeaderLimit bs =
      .ok ⟨"POST".toList, "/".toList, "HTTP/1.1".toList, [], Utf8.encode "hello".toList⟩ := by
    rfl
  have hn : headEnd? bs = some 37 := by decide +kernel
  have ha := h _ bs _ 37 (by decide) hp hn
  exact absurd ha (by decide +kernel)

end WebHost.Http
