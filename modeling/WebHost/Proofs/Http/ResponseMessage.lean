import WebHost.Http.Response
import WebHost.Proofs.Http.Printing

/-! Responses on the wire. A response with a body is a message, and the parser of requests reads it:
the first line begins with three words, whatever the status, and the body ends where the computed
length says, whatever lengths have been set by hand. -/
namespace WebHost.Http

theorem Status.reason_words (s : Status) :
    '\r' ∉ s.reason ∧
      ((s.reason.splitOn ' ').filter fun w => ! w.isEmpty).head? =
        some (s.reason.takeWhile (· != ' ')) ∧
      Text.byteLength (s.reason.takeWhile (· != ' ')) ≤ Request.versionLimit := by
  unfold reason
  repeat' split
  all_goals decide

namespace Response

def protocol : Text := "HTTP/1.1".toList

def firstLine (r : Response) : Text := protocol ++ ' ' :: r.status.text

theorem toBytes_eq (r : Response) : r.toBytes = message r.firstLine r.sentHeaders (r.body.getD []) :=
  rfl

theorem byteLength_decimal_code (s : Status) :
    Text.byteLength (Text.decimal s.code.toNat) ≤ Request.pathLimit := by
  have hdigits : (Text.decimal s.code.toNat).length ≤ 5 := by
    rw [Text.decimal, Nat.length_toDigits_le_iff (by decide) (by decide)]
    exact Nat.lt_of_lt_of_le s.code.toNat_lt (by decide)
  calc Text.byteLength (Text.decimal s.code.toNat)
    _ ≤ 4 * (Text.decimal s.code.toNat).length := Text.byteLength_le _
    _ ≤ 4 * 5 := Nat.mul_le_mul_left 4 hdigits
    _ ≤ Request.pathLimit := by decide

/-- The version, the code and the first word of the reason stand where a request has its words. -/
theorem requestLine_firstLine (r : Response) : Request.requestLine r.firstLine =
    .ok (protocol, Text.decimal r.status.code.toNat, r.status.reason.takeWhile (· != ' ')) := by
  obtain ⟨-, hfirst, hversion⟩ := r.status.reason_words
  obtain ⟨others, hreason⟩ : ∃ others,
      ((r.status.reason.splitOn ' ').filter fun w => ! w.isEmpty) =
        r.status.reason.takeWhile (· != ' ') :: others := List.head?_eq_some_iff.mp hfirst
  have hcode : ' ' ∉ Text.decimal r.status.code.toNat :=
    fun h => absurd (Text.isDigit_of_mem_decimal h) (by decide)
  have hne : Text.decimal r.status.code.toNat ≠ [] := Nat.toDigits_ne_nil
  have hsplit : r.firstLine.splitOn ' ' =
      protocol :: Text.decimal r.status.code.toNat :: r.status.reason.splitOn ' ' := by
    rw [firstLine, Status.text, List.splitOn_append_cons_self_of_not_mem (by decide),
      List.splitOn_append_cons_self_of_not_mem hcode]
  have hkeep : ((r.firstLine.splitOn ' ').filter fun w => ! w.isEmpty) =
      protocol :: Text.decimal r.status.code.toNat ::
        r.status.reason.takeWhile (· != ' ') :: others := by
    have hprotocol : protocol ≠ [] := by decide
    simp [hsplit, hprotocol, hne, hreason]
  have hmethod : ¬ Text.byteLength protocol > Request.methodLimit := by decide
  simp only [Request.requestLine, hkeep, if_neg hmethod,
    if_neg (Nat.not_lt.mpr (byteLength_decimal_code r.status)), if_neg (Nat.not_lt.mpr hversion)]

/-- A response with a body is read back by the rules for requests, whatever its status and its body.
The headers are those that have been set but for any length, in their order, and then the computed
length, which frames the body. -/
theorem parse_toBytes_with_body {limit : Nat} {r : Response} {body : Bytes} (hb : r.body = some body)
    (hsize : body.length < Text.sizeBound) (hp : ∀ h ∈ r.headers, h.IsPrintable)
    (hl : (r.headers.filter fun h => ! Text.sameFolded h.name contentLength).length + 1 ≤ limit) :
    Request.parse limit r.toBytes = .ok
      { method := "HTTP/1.1".toList
        path := Text.decimal r.status.code.toNat
        version := r.status.reason.takeWhile (· != ' ')
        headers := (r.headers.filter fun h => ! Text.sameFolded h.name contentLength) ++
          [⟨contentLength, Text.decimal body.length⟩]
        body } := by
  have hsent : r.sentHeaders = (r.headers.filter fun h => ! Text.sameFolded h.name contentLength) ++
      [⟨contentLength, Text.decimal body.length⟩] := by
    simp only [sentHeaders, hb]
    rfl
  have hprintable : ∀ h ∈ r.sentHeaders, h.IsPrintable := by
    intro h hh
    rw [hsent] at hh
    rcases List.mem_append.mp hh with hh | hh
    · exact hp h (List.mem_filter.mp hh).1
    · exact List.mem_singleton.mp hh ▸
        Header.isPrintable_contentLength (Text.sameFolded_self _) body.length
  have hroom : r.sentHeaders.length ≤ limit := by
    rw [hsent, List.length_append]
    exact hl
  -- No other length is left in front of the computed one.
  have hdeclared : r.sentHeaders.declaredLength = .ok (some body.length) := by
    rw [hsent]
    refine Headers.declaredLength_eq_some_iff.mpr ⟨_, Headers.get?_append_cons (fun h hh => ?_)
      (Text.sameFolded_self _) [], Text.size?_decimal hsize⟩
    simpa using (List.mem_filter.mp hh).2
  have hbreak : '\r' ∉ r.firstLine := by
    have hcode : '\r' ∉ Text.decimal r.status.code.toNat :=
      fun h => absurd (Text.isDigit_of_mem_decimal h) (by decide)
    have hprotocol : '\r' ∉ protocol := by decide
    simp [firstLine, Status.text, hprotocol, hcode, r.status.reason_words.1]
  have hletter : 'H' ∈ r.firstLine := List.mem_append_left _ (by decide)
  rw [toBytes_eq, parse_message hbreak (by decide) hletter r.requestLine_firstLine hprintable,
    List.take_of_length_le hroom, hdeclared, hb]
  simp only [Except.map, hsent, Option.getD_some, List.take_length]
  rfl

/-- A reason of two words, lengths that have been set by hand, a header without a name, and a body
with an empty line in it. -/
theorem parse_toBytes_with_body_of_odd_headers :
    let headers : Headers :=
      [⟨"content-length".toList, "7".toList⟩, ⟨[], "a: b".toList⟩, ⟨"CONTENT-LENGTH".toList, []⟩]
    let body : Bytes := [13, 10, 13, 10, 0xFF]
    let r : Response := { status := .notFound, headers, body := some body }
    body.length < Text.sizeBound ∧ (∀ h ∈ headers, h.IsPrintable) ∧
      (headers.filter fun h => ! Text.sameFolded h.name contentLength).length + 1 ≤ 2 ∧
      Request.parse 2 r.toBytes = .ok
        ⟨"HTTP/1.1".toList, "404".toList, "Not".toList,
          [⟨[], "a: b".toList⟩, ⟨contentLength, "5".toList⟩], body⟩ := by
  intro headers body r
  have hsize : body.length < Text.sizeBound := by decide
  have hp : ∀ h ∈ headers, h.IsPrintable := by decide
  have hl : (headers.filter fun h => ! Text.sameFolded h.name contentLength).length + 1 ≤ 2 := by
    decide
  have hcode : Text.decimal r.status.code.toNat = "404".toList := by decide
  have hword : r.status.reason.takeWhile (· != ' ') = "Not".toList := by decide
  have hlength : Text.decimal body.length = "5".toList := by decide
  have hkept : (headers.filter fun h => ! Text.sameFolded h.name contentLength) =
      [⟨[], "a: b".toList⟩] := by decide
  have hparse := parse_toBytes_with_body (r := r) rfl hsize hp hl
  rw [hcode, hword, hlength, hkept] at hparse
  exact ⟨hsize, hp, hl, hparse⟩

end Response
end WebHost.Http
