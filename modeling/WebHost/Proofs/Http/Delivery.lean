import WebHost.Proofs.Http.Intake
import WebHost.Proofs.Http.BodyLength
import WebHost.Proofs.Text.Lines
import WebHost.Proofs.Text.Utf8

/-! The division of a stream into deliveries. Whatever the division, what is taken into a buffer
is a beginning of it that holds the head and all of the declared body that there is room for, and
a parser sees the same request in it. -/
namespace WebHost.Http

/-- Deliveries that hand out these bytes in parts, with interruptions between, up to the end of the
stream or a timeout. -/
inductive Delivers : Bytes → List Delivery → Prop
  | ended : Delivers [] []
  | endMarked (ds : List Delivery) : Delivers [] (.data [] :: ds)
  | timedOut (e : IoError) (ds : List Delivery) (he : e.kind = .wouldBlock ∨ e.kind = .timedOut) :
      Delivers [] (.failure e :: ds)
  | interrupted {bs : Bytes} (e : IoError) {ds : List Delivery} (he : e.kind = .interrupted)
      (hd : Delivers bs ds) : Delivers bs (.failure e :: ds)
  | part {bs rest : Bytes} {ds : List Delivery} (hne : bs ≠ []) (hd : Delivers rest ds) :
      Delivers (bs ++ rest) (.data bs :: ds)

namespace Stream

/-- A read gets the end of the stream, or bytes that leave the rest to be delivered. -/
theorem receiveFrom_of_delivers {room : Nat} (hr : 0 < room) {left : Bytes} {ds : List Delivery}
    (hd : Delivers left ds) (asked : List Nat) :
    ∃ bs s, receiveFrom room asked ds = (.ok bs, s) ∧
      (bs = [] ∧ left = [] ∨
        bs ≠ [] ∧ bs.length ≤ room ∧ ∃ rest, left = bs ++ rest ∧ Delivers rest s.deliveries) := by
  induction hd generalizing asked with
  | ended => exact ⟨[], _, rfl, .inl ⟨rfl, rfl⟩⟩
  | endMarked ds => exact ⟨[], ⟨ds, room :: asked⟩, by simp [receiveFrom, read], .inl ⟨rfl, rfl⟩⟩
  | timedOut e ds he =>
    refine ⟨[], ⟨ds, room :: asked⟩, ?_, .inl ⟨rfl, rfl⟩⟩
    rcases he with he | he <;> simp [receiveFrom, he]
  | interrupted e he hd ih =>
    obtain ⟨bs, s, h, hs⟩ := ih (room :: asked)
    exact ⟨bs, s, by simpa [receiveFrom, he] using h, hs⟩
  | @part bs rest ds hne hd =>
    cases hl : bs.drop room with
    | nil =>
      have hlen : bs.length ≤ room := List.drop_eq_nil_iff.mp hl
      exact ⟨bs, ⟨ds, room :: asked⟩, by simp [receiveFrom, read, hl],
        .inr ⟨hne, hlen, rest, rfl, hd⟩⟩
    | cons b left =>
      refine ⟨bs.take room, ⟨.data (b :: left) :: ds, room :: asked⟩,
        by simp [receiveFrom, read, hl], .inr ⟨?_, ?_, b :: left ++ rest, ?_, ?_⟩⟩
      · have := List.length_pos_iff.mpr hne
        rw [← List.length_pos_iff, List.length_take]
        omega
      · rw [List.length_take]
        omega
      · rw [← hl, ← List.append_assoc, List.take_append_drop]
      · exact .part (by simp) hd

section Receive
variable {room : Nat} {left : Bytes} {s s' : Stream}

theorem receive_ne_error (hr : 0 < room) (hd : Delivers left s.deliveries) (e : IoError) :
    s.receive room ≠ (.error e, s') := by
  obtain ⟨bs, t, ht, -⟩ := receiveFrom_of_delivers hr hd s.asked
  simp [receive, ht]

theorem eq_nil_of_receive_nil (hr : 0 < room) (hd : Delivers left s.deliveries)
    (h : s.receive room = (.ok [], s')) : left = [] := by
  obtain ⟨bs, t, ht, hbs⟩ := receiveFrom_of_delivers hr hd s.asked
  obtain ⟨rfl, -⟩ : bs = [] ∧ t = s' := by simpa [receive, ht] using h
  rcases hbs with ⟨-, hleft⟩ | ⟨hne, -⟩
  · exact hleft
  · exact absurd rfl hne

theorem receive_cons (hr : 0 < room) (hd : Delivers left s.deliveries) {b : UInt8} {bs : Bytes}
    (h : s.receive room = (.ok (b :: bs), s')) :
    (b :: bs).length ≤ room ∧ ∃ rest, left = b :: bs ++ rest ∧ Delivers rest s'.deliveries := by
  obtain ⟨bs', t, ht, hbs⟩ := receiveFrom_of_delivers hr hd s.asked
  obtain ⟨rfl, rfl⟩ : bs' = b :: bs ∧ t = s' := by simpa [receive, ht] using h
  rcases hbs with ⟨hnil, -⟩ | ⟨-, hlen, hrest⟩
  · simp at hnil
  · exact ⟨hlen, hrest⟩

end Receive

/-- The search for the head ends with a beginning of the stream that holds the head. -/
theorem seekHead_of_delivers {capacity n : Nat} {whole left : Bytes} (held : Bytes) (start : Nat)
    (s : Stream) (hn : headEnd? (whole.take capacity) = some n) (hw : whole = held ++ left)
    (hd : Delivers left s.deliveries) (hc : held.length ≤ capacity)
    (hs : headEnd? held = headEndFrom start (held.drop start)) :
    ∃ held' left' s', seekHead capacity held start s = (.ok (n, held'), s') ∧
      whole = held' ++ left' ∧ Delivers left' s'.deliveries ∧ held'.length ≤ capacity ∧
      headEnd? held' = some n := by
  -- The invariant is `hs`: the search from `start` finds what a search from the front would.
  have hp : held <+: whole.take capacity :=
    List.prefix_take_iff.mpr ⟨⟨left, hw.symm⟩, hc⟩
  fun_induction seekHead capacity held start s generalizing left with
  | case1 held start s h hf =>
    have hh := headEnd?_mono hp (hs.trans hf)
    obtain rfl : n = h := Option.some.inj (hn.symm.trans hh)
    exact ⟨held, left, s, rfl, hw, hd, hc, hs.trans hf⟩
  | case2 held start s hf hle =>
    have he : held = whole.take capacity :=
      hp.eq_of_length_le (by rw [List.length_take]; omega)
    rw [← he, hs, hf] at hn
    simp at hn
  | case3 held start s hf hle e s' he => exact absurd he (receive_ne_error (by omega) hd e)
  | case4 held start s hf hle s' he =>
    obtain rfl := eq_nil_of_receive_nil (by omega) hd he
    rw [List.append_nil] at hw
    rw [hw, List.take_of_length_le hc, hs, hf] at hn
    simp at hn
  | case5 held start s hf hle b bs s' he ih =>
    obtain ⟨hlen, rest, rfl, hrest⟩ := receive_cons (by omega) hd he
    rw [← List.append_assoc] at hw
    have hc' : (held ++ b :: bs).length ≤ capacity := by
      rw [List.length_append]
      omega
    refine ih hw hrest hc' (headEnd?_append_of_none (hs.trans hf) _) ?_
    exact List.prefix_take_iff.mpr ⟨⟨rest, hw.symm⟩, hc'⟩

/-- Filling ends with the goal reached or the whole stream held. -/
theorem fill_of_delivers (goal : Nat) {whole held left : Bytes} {s : Stream}
    (hw : whole = held ++ left) (hd : Delivers left s.deliveries) :
    ∃ held' s', fill goal held s = (.ok held', s') ∧ held <+: held' ∧ held' <+: whole ∧
      held'.length ≤ max held.length goal ∧ (goal ≤ held'.length ∨ held' = whole) := by
  fun_induction fill goal held s generalizing left with
  | case1 held s hle =>
    exact ⟨held, s, rfl, List.prefix_rfl, ⟨left, hw.symm⟩, by omega, .inl hle⟩
  | case2 held s hle e s' he => exact absurd he (receive_ne_error (by omega) hd e)
  | case3 held s hle s' he =>
    obtain rfl := eq_nil_of_receive_nil (by omega) hd he
    rw [List.append_nil] at hw
    exact ⟨held, s', rfl, List.prefix_rfl, ⟨[], by simp [hw]⟩, by omega, .inr hw.symm⟩
  | case4 held s hle b bs s' he ih =>
    obtain ⟨hlen, rest, rfl, hrest⟩ := receive_cons (by omega) hd he
    rw [← List.append_assoc] at hw
    obtain ⟨held', s'', hf, hp, hpw, hl, hg⟩ := ih hw hrest
    refine ⟨held', s'', hf, (List.prefix_append _ _).trans hp, hpw, ?_, hg⟩
    rw [List.length_append] at hl
    omega

/-- What is taken off the stream when the head declares `k` bytes of body. -/
theorem takeRequest_of_delivers {capacity n k : Nat} {whole : Bytes} {ds : List Delivery}
    (hcap : capacity ≤ bufferBound) (hd : Delivers whole ds) (asked : List Nat)
    (hn : headEnd? (whole.take capacity) = some n)
    (hk : declaredLength ((whole.take capacity).take n) = .ok (some k)) :
    ∃ raw s, takeRequest capacity ⟨ds, asked⟩ = (.ok raw, s) ∧ raw <+: whole.take capacity ∧
      headEnd? raw = some n ∧
      (n + terminator.length + k ≤ raw.length ∨ raw = whole.take capacity) := by
  obtain ⟨held, left, s, hs, hw, hl, hc, hh⟩ :=
    seekHead_of_delivers [] 0 ⟨ds, asked⟩ hn rfl hd (by simp) rfl
  have hheld : held.take n = (whole.take capacity).take n := by
    have hp : held <+: whole.take capacity := List.prefix_take_iff.mpr ⟨⟨left, hw.symm⟩, hc⟩
    have hlen := headEnd?_add_le_length hh
    obtain ⟨more, hmore⟩ := hp
    rw [← hmore, List.take_append_of_le_length (by omega)]
  obtain ⟨raw, s', hf, hp, hpw, hlen, hg⟩ :=
    fill_of_delivers (min (n + terminator.length + k) capacity) hw hl
  have hraw : raw <+: whole.take capacity := List.prefix_take_iff.mpr ⟨hpw, by omega⟩
  refine ⟨raw, s', ?_, hraw, headEnd?_mono hp hh, ?_⟩
  · simp only [takeRequest, if_neg (Nat.not_lt_of_le hcap), hs, hheld, hk, hf]
  · rcases hg with hg | rfl
    · by_cases hcap : n + terminator.length + k ≤ raw.length
      · exact .inl hcap
      · exact .inr (hraw.eq_of_length_le (by rw [List.length_take]; omega))
    · exact .inr (hraw.eq_of_length_le (by rw [List.length_take]; omega))

end Stream

namespace Request

theorem ascii_of_isAsciiBlank {b : UInt8} (h : isAsciiBlank b) :
    b.toNat < 0x80 ∧ Char.ofNat b.toNat ≠ ':' := by
  simp only [isAsciiBlank, Bool.or_eq_true, beq_iff_eq] at h
  rcases h with (((rfl | rfl) | rfl) | rfl) | rfl <;> decide

/-- Bytes with a header in their head are not blank, for its line has a colon. -/
theorem all_isAsciiBlank_eq_false {bs : Bytes} {n limit : Nat} {head : Text} {name value : Text}
    (hd : Utf8.decode? (bs.take n) = some head)
    (hv : (Headers.ofLines limit ((Text.lines head).drop 1)).get? name = some value) :
    bs.all isAsciiBlank = false := by
  obtain ⟨header, hf, -⟩ := Option.map_eq_some_iff.mp hv
  have hmem := (Headers.ofLines_beginning limit _).subset (List.mem_of_find?_eq_some hf)
  obtain ⟨line, hline, ho⟩ := List.mem_filterMap.mp hmem
  obtain ⟨⟨before, rest⟩, hcut, -⟩ := Option.map_eq_some_iff.mp ho
  have hcolon : ':' ∈ head :=
    Text.mem_of_mem_lines (List.mem_of_mem_drop hline) (Text.mem_of_cut?_singleton hcut)
  rw [Bool.eq_false_iff]
  intro hall
  have hb (b : UInt8) (h : b ∈ bs.take n) : b.toNat < 0x80 ∧ Char.ofNat b.toNat ≠ ':' :=
    ascii_of_isAsciiBlank (List.all_eq_true.mp hall b (List.mem_of_mem_take h))
  rw [Utf8.decode?_of_ascii fun b h => (hb b h).1, Option.some.injEq] at hd
  rw [← hd, List.mem_map] at hcolon
  obtain ⟨b, hbmem, he⟩ := hcolon
  exact (hb b hbmem).2 he

/-- A beginning of the bytes that holds the head and the declared body is parsed as the whole. -/
theorem parse_of_beginning {limit n k : Nat} {raw bs : Bytes} {r : Request} (hp : raw <+: bs)
    (hn : headEnd? raw = some n) (h : parse limit bs = .ok r)
    (hk : r.headers.declaredLength = .ok (some k))
    (hl : n + terminator.length + k ≤ raw.length ∨ raw = bs) : parse limit raw = .ok r := by
  rcases hl with hl | rfl
  · obtain ⟨m, head, hm, hd, ho⟩ := head_of_parse h
    obtain rfl : m = n := Option.some.inj (hm.symm.trans (headEnd?_mono hp hn))
    obtain ⟨declared, hw, hh, hdec, hbody⟩ := ofHead_eq_ok_iff.mp ho
    obtain rfl : declared = some k := Except.ok.inj (hdec.symm.trans hk)
    obtain ⟨more, rfl⟩ := hp
    rw [List.take_append_of_le_length (by omega)] at hd
    obtain ⟨value, hv, -⟩ := Headers.declaredLength_eq_some_iff.mp hk
    rw [hh] at hv
    rw [parse_eq_ofHead (all_isAsciiBlank_eq_false hd hv) hn hd, ofHead_eq_ok_iff]
    refine ⟨some k, hw, hh, hk, ?_⟩
    rw [hbody, List.drop_append_of_le_length (by omega), Option.getD_some, Option.getD_some,
      List.take_append_of_le_length (by rw [List.length_drop]; omega)]
  · exact h

end Request

/-- Every delivery of the same bytes into a buffer makes the same request of them, if it declares
its length. -/
theorem parse_takeRequest_of_delivers {capacity limit : Nat} {whole : Bytes} {ds : List Delivery}
    {r : Request} (hcap : capacity ≤ bufferBound) (hd : Delivers whole ds)
    (hp : Request.parse limit (whole.take capacity) = .ok r)
    (hc : (r.header? contentLength).isSome) :
    ∃ raw s, Stream.takeRequest capacity ⟨ds, []⟩ = (.ok raw, s) ∧
      Request.parse limit raw = .ok r := by
  obtain ⟨n, -, hn, -⟩ := Request.head_of_parse hp
  obtain ⟨declared, hdec, -⟩ := Request.body_of_parse hp hn
  have hsame : declaredLength ((whole.take capacity).take n) = r.headers.declaredLength := by
    refine (Headers.declaredLength_of_get?_eq ?_).symm
    rcases Request.header?_contentLength_eq_or_none hp hn with he | he
    · exact he
    · simp [he] at hc
  cases declared with
  | none =>
    rw [Headers.declaredLength_eq_none_iff] at hdec
    simp [Request.header?, hdec] at hc
  | some k =>
    obtain ⟨raw, s, ht, hraw, hh, hl⟩ :=
      Stream.takeRequest_of_delivers hcap hd [] hn (hsame.trans hdec)
    exact ⟨raw, s, ht, Request.parse_of_beginning hraw hh hp hdec hl⟩

/-- The terminator and the body are divided, and the capacity ends within the body. -/
theorem parse_takeRequest_divided :
    let first := Utf8.encode "POST / HTTP/1.1\r\nContent-Length: 3\r\n\r".toList
    let second := Utf8.encode "\nabcd".toList
    let whole := first ++ (second ++ [])
    let ds := [.data first, .failure FaultKind.interrupted.error, .data second,
      .failure FaultKind.timedOut.error, .data second]
    let r : Request := ⟨"POST".toList, "/".toList, "HTTP/1.1".toList,
      [⟨contentLength, "3".toList⟩], Utf8.encode "ab".toList⟩
    40 ≤ bufferBound ∧ Delivers whole ds ∧ Request.parse 1 (whole.take 40) = .ok r ∧
      (r.header? contentLength).isSome ∧
      ∃ raw s, Stream.takeRequest 40 ⟨ds, []⟩ = (.ok raw, s) ∧ Request.parse 1 raw = .ok r := by
  intro first second whole ds r
  have hd : Delivers whole ds :=
    .part (by decide) (.interrupted _ rfl (.part (by decide) (.timedOut _ _ (.inr rfl))))
  have hp : Request.parse 1 (whole.take 40) = .ok r := by rfl
  have hc : (r.header? contentLength).isSome := by decide
  have hcap : 40 ≤ bufferBound := by decide
  exact ⟨hcap, hd, hp, hc, parse_takeRequest_of_delivers hcap hd hp hc⟩

/-- One byte more than a buffer can have, and nothing is taken, not even a request that comes in
one delivery. -/
theorem not_takeRequest_beyond_bufferBound :
    let whole := Utf8.encode "GET / HTTP/1.1\r\nContent-Length: 0\r\n\r\n".toList ++ []
    let ds : List Delivery :=
      [.data (Utf8.encode "GET / HTTP/1.1\r\nContent-Length: 0\r\n\r\n".toList)]
    let r : Request := ⟨"GET".toList, "/".toList, "HTTP/1.1".toList,
      [⟨contentLength, "0".toList⟩], []⟩
    Delivers whole ds ∧ Request.parse 50 (whole.take (bufferBound + 1)) = .ok r ∧
      (r.header? contentLength).isSome ∧
      ¬ ∃ raw s, Stream.takeRequest (bufferBound + 1) ⟨ds, []⟩ = (.ok raw, s) := by
  intro whole ds r
  have hlen : whole.length ≤ bufferBound + 1 := by decide
  refine ⟨.part (by decide) .ended, ?_, by decide, fun ⟨raw, s, htaken⟩ => ?_⟩
  · rw [List.take_of_length_le hlen]
    rfl
  · rw [Stream.takeRequest_of_lt (Nat.lt_succ_self _)] at htaken
    cases htaken

end WebHost.Http
