import WebHost.Proofs.Http.BodyLength
import WebHost.Proofs.Text.Lines

/-! The limit on headers. The headers of a request are the first ones of the section that its lines
have without a limit, so that a lower limit keeps fewer of them and changes nothing before them.
Only the body can be longer for it, if the header that declares its length is past the limit. -/
namespace WebHost.Http

namespace Headers

/-- The headers on lines, up to the first blank one. Lines without a colon are passed over. -/
inductive Section : List Text → Headers → Prop
  | ended : Section [] []
  | blank {line : Text} (h : Text.trim line = []) (lines : List Text) : Section (line :: lines) []
  | skipped {line : Text} {lines : List Text} {hs : Headers} (hb : Text.trim line ≠ [])
      (hc : ':' ∉ line) (h : Section lines hs) : Section (line :: lines) hs
  | header {name : Text} {lines : List Text} {hs : Headers} (hc : ':' ∉ name) (value : Text)
      (h : Section lines hs) :
      Section ((name ++ ':' :: value) :: lines) (⟨Text.trim name, Text.trim value⟩ :: hs)

variable {line name : Text} {lines : List Text} {hs : Headers}

theorem trim_ne_nil_of_colon (name value : Text) : Text.trim (name ++ ':' :: value) ≠ [] :=
  Text.trim_ne_nil_of_mem (c := ':') (by decide) (by simp)

theorem ofLine?_of_not_mem (h : ':' ∉ line) : ofLine? line = none := by
  rw [ofLine?, Text.cut?_of_not_mem h, Option.map_none]

theorem ofLine?_append (h : ':' ∉ name) (value : Text) :
    ofLine? (name ++ ':' :: value) = some ⟨Text.trim name, Text.trim value⟩ := by
  rw [ofLine?, Text.cut?_append_of_not_mem h, Option.map_some]

theorem exists_section (lines : List Text) : ∃ hs, Section lines hs := by
  induction lines with
  | nil => exact ⟨[], .ended⟩
  | cons line lines ih =>
    obtain ⟨hs, h⟩ := ih
    by_cases hb : Text.trim line = []
    · exact ⟨[], .blank hb lines⟩
    · by_cases hc : ':' ∈ line
      · obtain ⟨name, value, rfl, hname⟩ := List.eq_append_cons_of_mem hc
        exact ⟨_, .header hname value h⟩
      · exact ⟨hs, .skipped hb hc h⟩

/-- Of the headers of the section as many are kept as the limit allows. -/
theorem Section.ofLines_eq (h : Section lines hs) (limit : Nat) :
    ofLines limit lines = hs.take limit := by
  suffices hall : (lines.takeWhile fun l => ! (Text.trim l).isEmpty).filterMap ofLine? = hs by
    rw [ofLines, hall]
  induction h with
  | ended => rfl
  | blank h lines => simp [h]
  | skipped hb hc _ ih =>
    rw [List.takeWhile_cons_of_pos (by simpa using hb),
      List.filterMap_cons_none (ofLine?_of_not_mem hc), ih]
  | @header name lines hs hc value _ ih =>
    have hb := trim_ne_nil_of_colon name value
    rw [List.takeWhile_cons_of_pos (by simpa using hb),
      List.filterMap_cons_some (ofLine?_append hc value), ih]

/-- A beginning of the headers declares the length that all of them declare, or none. -/
theorem declaredLength_of_beginning {kept all : Headers} (h : kept <+: all) {declared : Option Nat}
    (ha : all.declaredLength = .ok declared) :
    kept.declaredLength = .ok declared ∨ kept.declaredLength = .ok none := by
  cases hk : kept.get? contentLength with
  | none => exact .inr (declaredLength_eq_none_iff.mpr hk)
  | some value =>
    left
    rw [← ha]
    exact declaredLength_of_get?_eq (hk.trans (get?_mono h hk).symm)

end Headers

namespace Request
variable {limit lower : Nat} {bs : Bytes} {r : Request}

/-- The limit makes a difference to the head only. -/
theorem parse_eq_ofHead_of_parse (h : parse limit bs = .ok r) :
    ∃ n head, headEnd? bs = some n ∧ Utf8.decode? (bs.take n) = some head ∧
      ∀ limit, parse limit bs = ofHead limit head (bs.drop (n + terminator.length)) := by
  obtain ⟨n, head, hn, hd, -⟩ := head_of_parse h
  have hb : bs.all isAsciiBlank = false := by
    cases hb : bs.all isAsciiBlank with
    | false => rfl
    | true => simp [parse, hb] at h
  exact ⟨n, head, hn, hd, fun limit => parse_eq_ofHead hb hn hd⟩

/-- Under another limit a request has the same words, if the headers kept then declare a good length
or none. -/
theorem ofHead_of_other_limit {head : Text} {rest : Bytes} (h : ofHead limit head rest = .ok r)
    {hs : Headers} (hs_eq : Headers.ofLines lower ((Text.lines head).drop 1) = hs)
    {declared : Option Nat} (hd : hs.declaredLength = .ok declared) :
    ofHead lower head rest =
      .ok { r with headers := hs, body := rest.take (declared.getD rest.length) } := by
  obtain ⟨-, hwords, -⟩ := ofHead_eq_ok_iff.mp h
  exact ofHead_eq_ok_iff.mpr ⟨declared, hwords, hs_eq.symm, hd, rfl⟩

/-- Bytes that make a request under some limit make one under every lower limit. Its words are the
same and its headers are the first ones of the other's, as many as the limit allows: both have the
first headers of the section that the lines of the head have, in which lines without a colon count
for nothing and which a blank line ends. The body is the same or goes on, for its length may have
been declared past the limit. -/
theorem parse_of_lower_limit (h : parse limit bs = .ok r) (hl : lower ≤ limit) :
    ∃ r', parse lower bs = .ok r' ∧
      r'.method = r.method ∧ r'.path = r.path ∧ r'.version = r.version ∧
      r'.headers = r.headers.take lower ∧ r.body <+: r'.body ∧
      ∃ n head hs, headEnd? bs = some n ∧ Utf8.decode? (bs.take n) = some head ∧
        Headers.Section ((Text.lines head).drop 1) hs ∧
        r.headers = hs.take limit ∧ r'.headers = hs.take lower := by
  obtain ⟨n, head, hn, hd, hparse⟩ := parse_eq_ofHead_of_parse h
  have ho := hparse limit ▸ h
  obtain ⟨declared, -, hheaders, hdeclared, hbody⟩ := ofHead_eq_ok_iff.mp ho
  obtain ⟨hs, hsection⟩ := Headers.exists_section ((Text.lines head).drop 1)
  rw [hsection.ofLines_eq] at hheaders
  have htake : hs.take lower = r.headers.take lower := by
    rw [hheaders, List.take_take, Nat.min_eq_left hl]
  have hbeginning : hs.take lower <+: r.headers := by
    rw [htake]
    exact List.take_prefix _ _
  rw [hparse lower]
  rcases Headers.declaredLength_of_beginning hbeginning hdeclared with hsame | hnone
  · exact ⟨_, ofHead_of_other_limit ho (hsection.ofLines_eq lower) hsame, rfl, rfl, rfl, htake,
      hbody ▸ List.prefix_rfl, n, head, hs, hn, hd, hsection, hheaders, rfl⟩
  · refine ⟨_, ofHead_of_other_limit ho (hsection.ofLines_eq lower) hnone, rfl, rfl, rfl, htake,
      ?_, n, head, hs, hn, hd, hsection, hheaders, rfl⟩
    rw [hbody, Option.getD_none, List.take_length]
    exact List.take_prefix _ _

/-- The lower limit drops the header that declares the length. A line without a colon and what is
behind the blank line count for neither. -/
theorem parse_of_lower_limit_before_length :
    let bs := Utf8.encode
      "POST / HTTP/1.1\r\nno colon\r\nHost: x\r\nContent-Length: 2\r\n\t\r\nLate: y\r\n\r\nabc".toList
    let host : Header := ⟨"Host".toList, "x".toList⟩
    let r : Request := ⟨"POST".toList, "/".toList, "HTTP/1.1".toList,
      [host, ⟨contentLength, "2".toList⟩], Utf8.encode "ab".toList⟩
    parse 3 bs = .ok r ∧ 1 ≤ 3 ∧
      ∃ r', parse 1 bs = .ok r' ∧ r'.path = r.path ∧ r'.headers = [host] ∧ r.body <+: r'.body := by
  intro bs host r
  have hp : parse 3 bs = .ok r := by rfl
  obtain ⟨r', hr', -, hpath, -, hheaders, hbody, -⟩ := parse_of_lower_limit hp (by decide : 1 ≤ 3)
  exact ⟨hp, by decide, r', hr', hpath, hheaders, hbody⟩

end Request
end WebHost.Http
