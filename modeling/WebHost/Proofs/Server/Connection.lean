import WebHost.Proofs.Http.Arrival
import WebHost.Proofs.Http.ResponseHeaders

/-! Every connection for which there is a buffer and on which something arrives gets one answer,
which says that it is the last: the response of one call to the routes, or the same refusal whatever
is wrong with the request. Without a buffer a connection gets none. -/
namespace WebHost
open Http

namespace Http.Response

/-- The computed length stands in for no other header. -/
theorem get?_sentHeaders (r : Response) {name : Text} (h : ¬ Text.sameFolded contentLength name) :
    r.sentHeaders.get? name = r.headers.get? name := by
  have hkept (x : Header) :
      ((! Text.sameFolded x.name contentLength) && Text.sameFolded x.name name) =
        Text.sameFolded x.name name := by
    by_cases hx : Text.sameFolded x.name name
    · rw [hx, Bool.and_true, Bool.not_eq_true', Bool.eq_false_iff]
      intro hl
      rw [Text.sameFolded_iff] at h hx hl
      exact h (hl.symm.trans hx)
    · simp [hx]
  cases hb : r.body with
  | none => rw [sentHeaders, hb]
  | some body =>
    simp [sentHeaders, hb, Headers.get?, Headers.without, List.find?_append, List.find?_filter,
      hkept, h]

end Http.Response

namespace Connection

/-- What is written in return for bytes that are not understood. -/
def badRequest : Bytes :=
  Utf8.encode ("HTTP/1.1 400 Bad Request\r\nContent-Type: text/plain\r\n".toList ++
    "Connection: close\r\nContent-Length: 11\r\n\r\nBad Request".toList)

theorem toBytes_closing_malformed : (closing malformed).toBytes = badRequest := by rfl

/-- The last response says that it is the last. -/
theorem get?_sentHeaders_closing (r : Response) :
    (closing r).sentHeaders.get? "Connection".toList = some "close".toList := by
  rw [Response.get?_sentHeaders _ (by decide), closing, Response.setHeader, Headers.get?_set,
    Text.sameFolded_self, if_pos rfl]

/-- What arrives has no head within the capacity, or it is refused when it is taken or parsed. -/
def Refused (capacity headerLimit : Nat) (ds : List Delivery) : Prop :=
  headEnd? ((Stream.arriving ds).take capacity) = none ∨
    (∃ e, (Stream.takeRequest capacity ⟨ds, []⟩).1 = .error e) ∨
    ∃ raw e, (Stream.takeRequest capacity ⟨ds, []⟩).1 = .ok raw ∧
      Request.parse headerLimit raw = .error e

section Answer
variable {m : Type → Type u} [Monad m] (dispatch : Request → m Response) (headerLimit : Nat)
  {capacity : Nat} {ds : List Delivery}

/-- Bytes that arrive are refused or understood, and the answer shows which. -/
theorem serve_of_arriving (hb : capacity ≤ bufferBound) (hw : Stream.arriving ds ≠ [])
    (hio : Stream.handedOn? (Stream.takeRequest capacity ⟨ds, []⟩).1 = none) :
    (Refused capacity headerLimit ds →
      serve dispatch capacity headerLimit ⟨ds, []⟩ = pure (.ok [badRequest])) ∧
    (¬ Refused capacity headerLimit ds → ∃ raw request,
      (Stream.takeRequest capacity ⟨ds, []⟩).1 = .ok raw ∧ raw <+: Stream.arriving ds ∧
      Request.parse headerLimit raw = .ok request ∧
      serve dispatch capacity headerLimit ⟨ds, []⟩ = do
        let response ← dispatch request
        pure (.ok [(closing response).toBytes])) := by
  have hfits := Stream.takeRequest_fits capacity ds []
  unfold Refused serve
  cases htaken : (Stream.takeRequest capacity ⟨ds, []⟩).1 with rw [htaken] at hfits
  | error e =>
    have hrefused : ∃ f, (Except.error e : Except IntakeError Bytes) = .error f := ⟨e, rfl⟩
    refine ⟨fun _ => ?_, fun h => absurd (.inr (.inl hrefused)) h⟩
    cases e with
    | noBuffer => exact absurd hfits (Nat.not_lt_of_le hb)
    | closed => exact absurd hfits hw
    | malformed e => rw [answer, toBytes_closing_malformed]
    | io e => simp [htaken, Stream.handedOn?] at hio
  | ok raw =>
    have hhead : headEnd? ((Stream.arriving ds).take capacity) ≠ none := hfits
    have hprefix : raw <+: Stream.arriving ds := Stream.prefix_of_takeRequest (Prod.ext htaken rfl)
    cases hparse : Request.parse headerLimit raw with
    | error e =>
      refine ⟨fun _ => ?_, fun h => absurd (.inr (.inr ⟨raw, e, rfl, hparse⟩)) h⟩
      simp only [answer, hparse, toBytes_closing_malformed]
    | ok request =>
      refine ⟨fun h => ?_,
        fun _ => ⟨raw, request, rfl, hprefix, hparse, by simp only [answer, hparse]⟩⟩
      obtain hnone | ⟨e, he⟩ | ⟨raw', e, hraw, he⟩ := h
      · exact absurd hnone hhead
      · cases he
      · cases hraw
        simp [hparse] at he

/-- Nothing is written if nothing arrives before the end of the stream or a timeout. -/
theorem serve_of_no_arrival (hc : 0 < capacity) (hw : Stream.arriving ds = [])
    (hio : Stream.handedOn? (Stream.takeRequest capacity ⟨ds, []⟩).1 = none) :
    serve dispatch capacity headerLimit ⟨ds, []⟩ = pure (.ok []) := by
  have hfits := Stream.takeRequest_fits capacity ds []
  rw [hw] at hfits
  unfold serve
  cases htaken : (Stream.takeRequest capacity ⟨ds, []⟩).1 with rw [htaken] at hfits
  | ok raw => exact absurd (by rw [List.take_nil, headEnd?_nil]) hfits
  | error e =>
    cases e with
    | noBuffer | closed => rfl
    | malformed e => exact absurd rfl (hfits hc)
    | io e => simp [htaken, Stream.handedOn?] at hio

/-- Nothing is written if a failure is handed on. -/
theorem serve_of_handedOn {e : IoError}
    (hio : Stream.handedOn? (Stream.takeRequest capacity ⟨ds, []⟩).1 = some e) :
    serve dispatch capacity headerLimit ⟨ds, []⟩ = pure (.error e) := by
  unfold serve
  cases htaken : (Stream.takeRequest capacity ⟨ds, []⟩).1 with rw [htaken] at hio
  | ok raw => cases hio
  | error f =>
    cases f with
    | noBuffer | closed | malformed => cases hio
    | io f =>
      obtain rfl : f = e := Option.some.inj hio
      rfl

/-- Nothing is read and nothing is written if there is no buffer. -/
theorem serve_of_lt (hb : bufferBound < capacity) :
    serve dispatch capacity headerLimit ⟨ds, []⟩ = pure (.ok []) := by
  rw [serve, Stream.takeRequest_of_lt hb]
  rfl

/-- Every connection that has a buffer is answered once, whatever the deliveries and the reads that
they lead to. If no read breaks off, then nothing is written if nothing arrives, the refusal is
written once if what arrives is refused, and otherwise the routes are called once, with the request
that a beginning of what arrives is parsed to, and their response is written once. A read that
breaks off is handed on, and nothing is written. What is written says that it is the last on the
connection. With a capacity beyond the bound no read is made and nothing is written, whatever
arrives. -/
theorem each_buffered_connection_is_answered_once (hc : 0 < capacity) (ds : List Delivery) :
    let after := (Stream.takeRequest capacity ⟨ds, []⟩).2
    let made := Stream.readings after.asked.reverse ⟨ds, []⟩
    let served := serve dispatch capacity headerLimit ⟨ds, []⟩
    Stream.Reads ⟨ds, []⟩ made after ∧
      (bufferBound < capacity → made = [] ∧ served = pure (.ok [])) ∧
      (∀ e, Stream.broken? made = some e → served = pure (.error e)) ∧
      (capacity ≤ bufferBound → Stream.broken? made = none →
        (Stream.arriving ds = [] → served = pure (.ok [])) ∧
        (Stream.arriving ds ≠ [] → Refused capacity headerLimit ds →
          served = pure (.ok [badRequest])) ∧
        (Stream.arriving ds ≠ [] → ¬ Refused capacity headerLimit ds → ∃ raw request,
          (Stream.takeRequest capacity ⟨ds, []⟩).1 = .ok raw ∧ raw <+: Stream.arriving ds ∧
          Request.parse headerLimit raw = .ok request ∧
          served = do
            let response ← dispatch request
            pure (.ok [(closing response).toBytes]))) ∧
      (closing malformed).toBytes = badRequest ∧
      ∀ response, (closing response).sentHeaders.get? "Connection".toList =
        some "close".toList := by
  intro after made served
  obtain ⟨made', hreads, hbroken⟩ := Stream.takeRequest_broken capacity ⟨ds, []⟩
  obtain rfl : made = made' := hreads.readings_asked
  refine ⟨hreads, fun hlt => ?_, fun e he => ?_, fun hle hnone => ?_, toBytes_closing_malformed,
    get?_sentHeaders_closing⟩
  · refine ⟨?_, serve_of_lt dispatch headerLimit hlt⟩
    show Stream.readings (Stream.takeRequest capacity ⟨ds, []⟩).2.asked.reverse ⟨ds, []⟩ = []
    rw [Stream.takeRequest_of_lt hlt]
    rfl
  · exact serve_of_handedOn dispatch headerLimit (hbroken.symm.trans he)
  · have hio := hbroken.symm.trans hnone
    refine ⟨fun hw => ?_, fun hw => ?_, fun hw => ?_⟩
    · exact serve_of_no_arrival dispatch headerLimit hc hw hio
    · exact (serve_of_arriving dispatch headerLimit hle hw hio).1
    · exact (serve_of_arriving dispatch headerLimit hle hw hio).2

end Answer

/-- An interruption divides the terminator. The routes count the calls. -/
theorem interrupted_connection_is_answered_once :
    let first := Utf8.encode "GET /a HTTP/1.1\r\n\r".toList
    let ds : List Delivery := [.data first, .failure FaultKind.interrupted.error, .data [10],
      .failure FaultKind.connectionReset.error]
    let dispatch (request : Request) : StateM Nat Response := fun calls =>
      (.text .ok request.path, calls + 1)
    0 < 40 ∧ ¬ Refused 40 0 ds ∧
      serve dispatch 40 0 ⟨ds, []⟩ 0 = (.ok [(closing (.text .ok "/a".toList)).toBytes], 1) := by
  intro first ds dispatch
  have hfirst : Stream.seekHead 40 [] 0 ⟨ds, []⟩ =
      Stream.seekHead 40 first 0 ⟨ds.drop 1, [40]⟩ := by
    rw [Stream.seekHead]
    rfl
  have hsecond : Stream.seekHead 40 first 0 ⟨ds.drop 1, [40]⟩ =
      Stream.seekHead 40 (first ++ [10]) 15 ⟨ds.drop 3, [22, 22, 40]⟩ := by
    rw [Stream.seekHead]
    rfl
  have hhead : Stream.seekHead 40 [] 0 ⟨ds, []⟩ =
      (.ok (15, first ++ [10]), ⟨ds.drop 3, [22, 22, 40]⟩) := by
    rw [hfirst, hsecond, Stream.seekHead]
    rfl
  have hdec : declaredLength ((first ++ [10]).take 15) = .ok none := rfl
  have htaken : Stream.takeRequest 40 ⟨ds, []⟩ =
      (.ok (first ++ [10]), ⟨ds.drop 3, [22, 22, 40]⟩) := by
    rw [Stream.takeRequest, if_neg (by decide), hhead]
    simp only [hdec]
  have hparse : Request.parse 0 (first ++ [10]) =
      .ok ⟨"GET".toList, "/a".toList, "HTTP/1.1".toList, [], []⟩ := by rfl
  have hgood : ¬ Refused 40 0 ds := by
    unfold Refused
    rw [htaken]
    rintro (h | ⟨e, h⟩ | ⟨raw, e, h, he⟩)
    · revert h
      decide
    · cases h
    · cases h
      rw [hparse] at he
      cases he
  obtain ⟨-, -, -, hwhole, -⟩ :=
    each_buffered_connection_is_answered_once dispatch 0 (by decide : 0 < 40) ds
  rw [htaken] at hwhole
  obtain ⟨-, -, hanswer⟩ := hwhole (by decide) rfl
  obtain ⟨raw, request, hraw, -, hrequest, hserved⟩ := hanswer (by decide) hgood
  cases hraw
  rw [hparse] at hrequest
  cases hrequest
  refine ⟨by decide, hgood, ?_⟩
  rw [hserved]
  rfl

/-- One byte more than a buffer can have, and a request that arrives whole is not answered. -/
theorem not_each_connection_is_answered :
    let raw := Utf8.encode "GET / HTTP/1.1\r\nContent-Length: 0\r\n\r\n".toList
    let ds : List Delivery := [.data raw]
    let dispatch (request : Request) : Id Response := .text .ok request.path
    0 < bufferBound + 1 ∧ Stream.arriving ds = raw ∧
      (headEnd? (raw.take (bufferBound + 1))).isSome ∧ (Request.parse 50 raw).isOk ∧
      serve dispatch (bufferBound + 1) 50 ⟨ds, []⟩ = .ok [] := by
  intro raw ds dispatch
  have hlen : raw.length ≤ bufferBound + 1 := by decide
  refine ⟨by decide, rfl, ?_, by rfl, serve_of_lt dispatch 50 (Nat.lt_succ_self _)⟩
  rw [List.take_of_length_le hlen]
  rfl

end Connection
end WebHost
