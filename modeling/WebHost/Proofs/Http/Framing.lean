import WebHost.Proofs.Http.ResponseMessage

/-! Framing. What is written for a response with a body is its head, the first empty line, and the
body, and one line of the head declares the length of the body. -/
namespace WebHost.Http

/-- The lines of a head that are headers of this name, whatever the case of its letters. -/
def linesNamed (name head : Text) : List Text :=
  (Text.lines head).filter fun l => (Headers.ofLine? l).any fun h => Text.sameFolded h.name name

/-- The bytes written are a head, an empty line, and a body. No empty line stands before that one,
and one line of the head declares a length, which is that of the body. -/
structure Frames (head : Text) (body written : Bytes) : Prop where
  written_eq : written = Utf8.encode head ++ (terminator ++ body)
  headEnd : headEnd? written = some (Utf8.encode head).length
  length : linesNamed contentLength head =
    ["Content-Length: ".toList ++ Text.decimal body.length]

/-- The bytes up to the first empty line, and that line. -/
def upToBody (bs : Bytes) : Bytes := bs.take ((headEnd? bs).getD bs.length + terminator.length)

theorem Frames.upToBody_eq {head : Text} {body written : Bytes} (h : Frames head body written) :
    upToBody written = Utf8.encode head ++ terminator := by
  rw [upToBody, h.headEnd, Option.getD_some, h.written_eq, ← List.append_assoc,
    ← List.length_append, List.take_left]

/-- A first line without a colon is no header, and each header is one line. -/
theorem linesNamed_headText {first : Text} {hs : Headers} (hbreak : '\r' ∉ first)
    (hp : ∀ h ∈ hs, h.IsPrintable) (hcolon : ':' ∉ first) (name : Text) :
    linesNamed name (headText first hs) =
      (hs.filter fun h => Text.sameFolded h.name name).map Header.line := by
  have hfirst : Headers.ofLine? first = none := by
    rw [Headers.ofLine?, Text.cut?_of_not_mem hcolon, Option.map_none]
  rw [linesNamed, lines_headText hbreak hp, List.filter_cons_of_neg (by simp [hfirst]),
    List.filter_map]
  refine congrArg _ (List.filter_congr fun h hh => ?_)
  simp only [Function.comp_apply, Header.ofLine?_line (hp h hh), Option.any_some]

theorem Status.colon_not_mem_reason (s : Status) : ':' ∉ s.reason := by
  unfold reason
  repeat' split
  all_goals decide

namespace Response
variable {r : Response} {body : Bytes}

theorem not_mem_firstLine (r : Response) : '\r' ∉ r.firstLine ∧ ':' ∉ r.firstLine := by
  have hcode {c : Char} (hc : c.isDigit = false) : c ∉ Text.decimal r.status.code.toNat :=
    fun h => Bool.eq_false_iff.mp hc (Text.isDigit_of_mem_decimal h)
  have hprotocol : '\r' ∉ protocol ∧ ':' ∉ protocol := by decide
  constructor
  · simp [firstLine, Status.text, hprotocol.1, hcode (c := '\r') (by decide),
      r.status.reason_words.1]
  · simp [firstLine, Status.text, hprotocol.2, hcode (c := ':') (by decide),
      r.status.colon_not_mem_reason]

theorem sentHeaders_of_body (hb : r.body = some body) :
    r.sentHeaders = r.headers.without contentLength ++
      [⟨contentLength, Text.decimal body.length⟩] := by
  rw [sentHeaders, hb]

/-- The computed length is printed as it is, and the other headers are if those that have been set
are. -/
theorem isPrintable_of_mem_sentHeaders (hp : ∀ h ∈ r.headers, h.IsPrintable) :
    ∀ h ∈ r.sentHeaders, h.IsPrintable := by
  intro h hh
  cases hb : r.body with
  | none =>
    rw [sentHeaders, hb] at hh
    exact hp h hh
  | some body =>
    rw [sentHeaders_of_body hb, List.mem_append, List.mem_singleton] at hh
    rcases hh with hh | rfl
    · exact hp h (List.mem_filter.mp hh).1
    · exact Header.isPrintable_contentLength (Text.sameFolded_self _) body.length

/-- A response with a body is framed, whatever its status and its body, and whatever lengths have
been set by hand. -/
theorem frames_toBytes (hb : r.body = some body) (hp : ∀ h ∈ r.headers, h.IsPrintable) :
    Frames (headText r.firstLine r.sentHeaders) body r.toBytes := by
  obtain ⟨hbreak, hcolon⟩ := r.not_mem_firstLine
  have hsent := isPrintable_of_mem_sentHeaders hp
  refine ⟨?_, ?_, ?_⟩
  · rw [toBytes_eq, message_eq, hb]
    rfl
  · rw [toBytes_eq]
    exact headEnd?_message hbreak hsent (List.cons_ne_nil _ _) _
  · -- Every length that has been set is left out, so that the computed one is alone.
    have hset : (r.headers.without contentLength).filter
        (fun h => Text.sameFolded h.name contentLength) = [] := by
      simp [Headers.without]
    rw [linesNamed_headText hbreak hsent hcolon, sentHeaders_of_body hb, List.filter_append, hset]
    rfl

end Response
end WebHost.Http
