import WebHost.Proofs.Http.Framing
import WebHost.Proofs.Site.Dispatch
import WebHost.Server.Connection

/-! The answers of the site on the wire. Whatever a request holds, and whatever is in the accounts
and on the disk, the answer has a body, a type of content out of six, and no other header, so that
its head shows the status, the type and the length of the body, and nothing else. -/
namespace WebHost
open Http

namespace Action
variable {Op Op' : Type → Type} {α β σ : Type} {P : α → Prop}

/-- Whatever its operations answer, the action comes to a value of this kind. -/
def Yields (P : α → Prop) : Action Op α → Prop
  | .done a => P a
  | .step _ next => ∀ b, (next b).Yields P

theorem yields_pure {a : α} (h : P a) : (pure a : Action Op α).Yields P := h

/-- Nothing is known of the answer to an operation. -/
theorem yields_perform_bind {o : Op β} {f : β → Action Op α} (hf : ∀ b, (f b).Yields P) :
    (perform o >>= f).Yields P := hf

theorem yields_bind {Q : β → Prop} {p : Action Op β} {f : β → Action Op α} (hp : p.Yields Q)
    (hf : ∀ b, Q b → (f b).Yields P) : (p >>= f).Yields P := by
  induction p with
  | done b => exact hf b hp
  | step o next ih => exact fun b => ih b (hp b)

theorem Yields.lift {p : Action Op α} (h : p.Yields P) (wider : {β : Type} → Op β → Op' β) :
    (p.lift wider).Yields P := by
  induction p with
  | done a => exact h
  | step o next ih => exact fun b => ih b (h b)

/-- Then so does each run, from any state. -/
theorem Yields.run {p : Action Op α} (h : p.Yields P) (apply : {β : Type} → Op β → σ → β × σ)
    (s : σ) : P (p.run apply s).1 := by
  induction p generalizing s with
  | done a => exact h
  | step o next ih => exact ih _ (h _) _

end Action

namespace Site

/-- The types of content that the site answers with. -/
def contentTypes : List Text :=
  ["text/plain".toList, "text/html".toList, "application/json".toList, "text/css".toList,
    "application/javascript".toList, "application/octet-stream".toList]

/-- A response with a body, one of these types of content, and no other header. -/
inductive IsAnswer : Response → Prop
  | typed (status : Status) {type : Text} (h : type ∈ contentTypes) (body : Bytes) :
    IsAnswer (.typed status type body)

theorem isAnswer_text (status : Status) (body : Text) : IsAnswer (.text status body) :=
  .typed status (by decide) _

theorem isAnswer_html (status : Status) (body : Bytes) : IsAnswer (.html status body) :=
  .typed status (by decide) body

theorem isAnswer_json (status : Status) (body : Bytes) : IsAnswer (.json status body) :=
  .typed status (by decide) body

theorem isAnswer_problem (status : Status) (message : Text) : IsAnswer (.problem status message) :=
  isAnswer_json status _

theorem isAnswer_notFound (w : Surroundings) : IsAnswer (notFound w) := by
  unfold notFound
  split
  · exact isAnswer_html _ _
  · exact isAnswer_text _ _

end Site

open Site

theorem StaticFile.contentType_mem (path : Text) :
    StaticFile.contentType path ∈ Site.contentTypes := by
  simp only [StaticFile.contentType]
  repeat' split
  all_goals decide

/-- Also where a file changes between the look at it and the reading. -/
theorem StaticFile.isAnswer_answer (limit : Nat) (path : Text) (seen : Except FaultKind Entry)
    (content : Except FaultKind Bytes) : IsAnswer (StaticFile.answer limit path seen content) := by
  unfold StaticFile.answer
  repeat' split
  all_goals first
    | exact .typed .ok (contentType_mem path) _
    | exact isAnswer_text _ _

namespace Access

/-- Who turns a request away makes an answer. -/
def Refuses (admitted : Option Nat × Response) : Prop := admitted.1 = none → IsAnswer admitted.2

theorem yields_requireLogin (request : Request) (response : Response) :
    (requireLogin request response).Yields Refuses := by
  unfold requireLogin
  split
  · exact Action.yields_pure fun _ => isAnswer_problem _ _
  · split
    · exact Action.yields_pure fun _ => isAnswer_problem _ _
    · refine Action.yields_perform_bind fun found => ?_
      cases found with
      | none => exact Action.yields_pure fun _ => isAnswer_problem _ _
      | some session => exact Action.yields_pure fun h => absurd h (Option.some_ne_none _)

theorem yields_requireAdmin (request : Request) (response : Response) :
    (requireAdmin request response).Yields Refuses := by
  refine Action.yields_bind (yields_requireLogin request response) fun admitted hrefuses => ?_
  obtain ⟨_ | id, response⟩ := admitted
  · exact Action.yields_pure hrefuses
  · refine Action.yields_perform_bind fun found => ?_
    cases found with
    | none => exact Action.yields_pure fun _ => isAnswer_problem _ _
    | some u =>
      simp only
      split
      · exact Action.yields_pure fun h => absurd h (Option.some_ne_none _)
      · exact Action.yields_pure fun _ => isAnswer_problem _ _

end Access

namespace Endpoint

theorem isAnswer_object (status : Status) (members : List (Text × Json.Scalar)) :
    IsAnswer (object status members) :=
  isAnswer_json status _

/-- A template that cannot be read makes a fault. -/
theorem isAnswer_page (files : Files) (pages name : Text) (values : List (Text × Text)) :
    IsAnswer (page files pages name values) := by
  unfold page
  split
  · exact isAnswer_html _ _
  · exact isAnswer_text _ _

theorem isAnswer_registerAnswer (username : Text) (outcome : Except AccountError Nat) :
    IsAnswer (registerAnswer username outcome) := by
  unfold registerAnswer
  split
  · exact isAnswer_object _ _
  all_goals exact isAnswer_problem _ _

theorem yields_respond (files : Files) (pages : Text) (request : Request) (e : Endpoint) :
    (e.respond files pages request).Yields IsAnswer := by
  cases e with
  | home | about | submit => exact Action.yields_pure (isAnswer_page _ _ _ _)
  | status => exact Action.yields_pure (isAnswer_object _ _)
  | register =>
    simp only [respond, doRegister]
    split
    · exact Action.yields_perform_bind fun outcome =>
        Action.yields_pure (isAnswer_registerAnswer _ outcome)
    · exact Action.yields_pure (isAnswer_problem _ _)
  | login =>
    simp only [respond, doLogin]
    split
    · refine Action.yields_perform_bind fun outcome => ?_
      cases outcome with
      | error _ => exact Action.yields_pure (isAnswer_problem _ _)
      | ok id =>
        refine Action.yields_perform_bind fun opened => ?_
        cases opened with
        | error _ => exact Action.yields_pure (isAnswer_problem _ _)
        | ok token => exact Action.yields_pure (isAnswer_object _ _)
    · exact Action.yields_pure (isAnswer_problem _ _)
  | logout =>
    refine Action.yields_bind (Access.yields_requireLogin _ _) fun admitted hrefuses => ?_
    obtain ⟨_ | id, response⟩ := admitted
    · exact Action.yields_pure (hrefuses rfl)
    · simp only
      split
      · exact Action.yields_pure (isAnswer_object _ _)
      · exact Action.yields_perform_bind fun _ => Action.yields_pure (isAnswer_object _ _)
  | me =>
    refine Action.yields_bind (Access.yields_requireLogin _ _) fun admitted hrefuses => ?_
    obtain ⟨_ | id, response⟩ := admitted
    · exact Action.yields_pure (hrefuses rfl)
    · refine Action.yields_perform_bind fun found => ?_
      cases found with
      | none => exact Action.yields_pure (isAnswer_problem _ _)
      | some u => exact Action.yields_pure (isAnswer_object _ _)
  | admin =>
    refine Action.yields_bind (Access.yields_requireAdmin _ _) fun admitted hrefuses => ?_
    obtain ⟨_ | id, response⟩ := admitted
    · exact Action.yields_pure (hrefuses rfl)
    · exact Action.yields_perform_bind fun _ => Action.yields_perform_bind fun _ =>
        Action.yields_pure (isAnswer_object _ _)

end Endpoint

namespace Site

theorem isAnswer_respond {s : Site} {pages : Text} {static : StaticRoute}
    (hr : s.routes = addEndpoints pages static {}) (timeline : Nat → Moment) (w : Surroundings)
    (request : Request) : IsAnswer (s.respond timeline w request).1 := by
  rw [respond_eq hr]
  split
  · next e _ => exact ((Endpoint.yields_respond w.files pages request e).lift Sum.inl).run _ _
  · split
    · exact StaticFile.isAnswer_answer _ _ _ _
    · exact isAnswer_notFound w

/-- The head of an answer: the status, the type of content, and the length of the body. -/
def answerHead (status : Status) (type : Text) (length : Nat) : Text :=
  lineBreak.intercalate
    ["HTTP/1.1 ".toList ++ status.text, "Content-Type: ".toList ++ type,
      "Connection: close".toList, "Content-Length: ".toList ++ Text.decimal length]

/-- What is written for an answer is framed, and its head says once that the connection is closed. -/
theorem frames_closing_typed (status : Status) {type : Text} (h : type ∈ contentTypes)
    (body : Bytes) :
    Frames (answerHead status type body.length) body
        (Connection.closing (.typed status type body)).toBytes ∧
      linesNamed "Connection".toList (answerHead status type body.length) =
        ["Connection: close".toList] := by
  let r := Connection.closing (.typed status type body)
  have hhead : answerHead status type body.length = headText r.firstLine r.sentHeaders := rfl
  have hknown : ∀ type ∈ contentTypes, (Header.mk Response.contentType type).IsPrintable := by
    decide
  have hclose : (Header.mk "Connection".toList "close".toList).IsPrintable := by decide
  have hp : ∀ h ∈ r.headers, h.IsPrintable := by
    intro header hh
    obtain rfl | rfl : header = ⟨Response.contentType, type⟩ ∨ header = ⟨"Connection".toList,
        "close".toList⟩ := by simpa using (show header ∈ [_, _] from hh)
    · exact hknown type h
    · exact hclose
  rw [hhead]
  refine ⟨Response.frames_toBytes rfl hp, ?_⟩
  obtain ⟨hbreak, hcolon⟩ := r.not_mem_firstLine
  rw [linesNamed_headText hbreak (Response.isPrintable_of_mem_sentHeaders hp) hcolon]
  rfl

/-- No request can split an answer or have it framed otherwise, whatever the state of the site, the
templates and the files. The head shows the status, the type of content and the length of the body,
so that two answers with the same of these are the same up to the body. -/
theorem answers_are_framed {s s' : Site} {pages pages' : Text} {static static' : StaticRoute}
    (hr : s.routes = addEndpoints pages static {}) (hr' : s'.routes = addEndpoints pages' static' {})
    (timeline timeline' : Nat → Moment) (w w' : Surroundings) (request request' : Request) :
    let r := (s.respond timeline w request).1
    let r' := (s'.respond timeline' w' request').1
    (∃ type ∈ contentTypes, ∃ body, r.header? Response.contentType = some type ∧
      r.body = some body ∧
      Frames (answerHead r.status type body.length) body (Connection.closing r).toBytes ∧
      linesNamed "Connection".toList (answerHead r.status type body.length) =
        ["Connection: close".toList]) ∧
    (r.status = r'.status →
      r.header? Response.contentType = r'.header? Response.contentType →
      r.body.map List.length = r'.body.map List.length →
      upToBody (Connection.closing r).toBytes = upToBody (Connection.closing r').toBytes) := by
  intro r r'
  have h : IsAnswer r := isAnswer_respond hr timeline w request
  have h' : IsAnswer r' := isAnswer_respond hr' timeline' w' request'
  clear_value r r'
  obtain ⟨status, htype, body⟩ := h
  obtain ⟨status', htype', body'⟩ := h'
  obtain ⟨hframes, hclose⟩ := frames_closing_typed status htype body
  obtain ⟨hframes', -⟩ := frames_closing_typed status' htype' body'
  refine ⟨⟨_, htype, body, rfl, rfl, hframes, hclose⟩, fun hstatus htypes hlength => ?_⟩
  obtain rfl : status = status' := hstatus
  obtain rfl := Option.some.inj htypes
  have hlength : body.length = body'.length := Option.some.inj hlength
  rw [hframes.upToBody_eq, hframes'.upToBody_eq, hlength]

/-- A file that is an empty line, and a page that shows a posted character. -/
theorem answers_are_framed_of_file_and_page :
    let files : Files := fun path =>
      if path = "www/a.html".toList then .ok (.file [13, 10, 13, 10])
      else .ok (.file (Utf8.encode "{{data}}".toList))
    let w : Surroundings := { files }
    let s : Site := { routes := addEndpoints "www".toList ⟨['/'], "www".toList⟩ {} }
    let timeline : Nat → Moment := fun n => ⟨n, [], []⟩
    let request : Request := ⟨"GET".toList, "/a.html".toList, [], [], []⟩
    let request' : Request := ⟨"POST".toList, "/submit".toList, [], [], Utf8.encode ['<']⟩
    let r := (s.respond timeline w request).1
    let r' := (s.respond timeline w request').1
    r.body = some [13, 10, 13, 10] ∧ r'.body = some (Utf8.encode "&lt;".toList) ∧
      Frames (answerHead .ok "text/html".toList 4) [13, 10, 13, 10] (Connection.closing r).toBytes ∧
      upToBody (Connection.closing r).toBytes = upToBody (Connection.closing r').toBytes := by
  intro files w s timeline request request' r r'
  have hfile : r = .html .ok [13, 10, 13, 10] := by decide +kernel
  have hpage : r' = .html .ok (Utf8.encode "&lt;".toList) := by decide +kernel
  have hroutes : s.routes = addEndpoints "www".toList ⟨['/'], "www".toList⟩ {} := rfl
  have framed := answers_are_framed hroutes hroutes timeline timeline w w request request'
  have hr : (s.respond timeline w request).1 = r := rfl
  have hr' : (s.respond timeline w request').1 = r' := rfl
  rw [hr, hr'] at framed
  clear_value r r'
  subst hfile hpage
  obtain ⟨⟨type, -, body, htype, hbody, hframes, -⟩, halike⟩ := framed
  obtain rfl := Option.some.inj htype
  obtain rfl := Option.some.inj hbody
  exact ⟨rfl, rfl, hframes, halike rfl rfl rfl⟩

end Site
end WebHost
