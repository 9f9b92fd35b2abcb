import WebHost.Proofs.Site.Dispatch
import WebHost.Proofs.Template
import WebHost.Proofs.Text.Markup
import WebHost.Proofs.Text.Utf8

/-! What is posted is shown as text. The page is its template's stretches with the shown text in
between, and the shown text has no markup in it. -/
namespace WebHost
open Http

namespace Endpoint

/-- The page without what has been posted, by the places for that. -/
def submitStretches (template : Text) : List Text :=
  Template.stretches (Values.ofPairs [("title".toList, "POST Data Received".toList)]) "data".toList
    template

/-- The page that shows what has been posted. -/
def submitText (template : Text) (request : Request) : Text :=
  (shown request).intercalate (submitStretches template)

theorem submitPage_of_reads {files : Files} {pages template : Text}
    (h : Template.Reads files pages "index.html".toList template) (request : Request) :
    submitPage files pages request = .html .ok (Utf8.encode (submitText template request)) := by
  simp only [submitPage, page, Template.renderFile_of_reads h, Values.ofPairs, List.foldl_cons,
    List.foldl_nil, Template.render_set, submitText, submitStretches]

theorem shown_of_bodyText? {request : Request} {text : Text} (h : request.bodyText? = some text)
    (hne : text ≠ []) : shown request = Text.escapeMarkup text := by
  unfold shown
  split
  · next hnone => exact absurd (hnone.symm.trans h) (by simp)
  · next hnil => exact absurd (Option.some.inj (h.symm.trans hnil)) hne
  · next htext => rw [Option.some.inj (h.symm.trans htext)]

/-- What is shown has been escaped, or is a text of the site's own. -/
theorem shown_cases (request : Request) :
    shown request ∈ ["(binary data)".toList, "No data received".toList] ∨
      ∃ text, shown request = Text.escapeMarkup text := by
  unfold shown
  split
  · exact .inl (by simp)
  · exact .inl (by simp)
  · exact .inr ⟨_, rfl⟩

theorem filter_isMarkup_shown (request : Request) : (shown request).filter Text.isMarkup = [] := by
  rcases shown_cases request with h | ⟨text, h⟩
  · have hall : ∀ t ∈ ["(binary data)".toList, "No data received".toList],
        t.filter Text.isMarkup = [] := by decide
    exact hall _ h
  · rw [h, Text.filter_isMarkup_escapeMarkup]

theorem isEscaped_shown (request : Request) : (shown request).IsEscaped := by
  rcases shown_cases request with h | ⟨text, h⟩
  · have hall : ∀ t ∈ ["(binary data)".toList, "No data received".toList], '&' ∉ t := by decide
    have hnone := Text.isEscaped_nil.append (hall _ h)
    rwa [List.append_nil] at hnone
  · rw [h]
    exact Text.isEscaped_escapeMarkup text

/-- All markup of the page is that of its template. -/
theorem filter_isMarkup_submitText (template : Text) (request : Request) :
    (submitText template request).filter Text.isMarkup =
      (Template.render [] template).filter Text.isMarkup := by
  rw [submitText, submitStretches, ← Template.render_set]
  refine Template.filter_render (fun marker => ?_) template
  by_cases hdata : Text.trim marker = "data".toList
  · rw [Template.valueAt_set_of_eq _ hdata, filter_isMarkup_shown]
  · rw [Template.valueAt_set_of_ne _ hdata, Values.ofPairs, List.foldl_cons, List.foldl_nil]
    by_cases htitle : Text.trim marker = "title".toList
    · rw [Template.valueAt_set_of_eq _ htitle]
      decide
    · rw [Template.valueAt_set_of_ne _ htitle]
      rfl

end Endpoint

namespace Site

/-- The request posts to a site that shows what is posted on a page with this text. -/
structure PostsTo (template : Text) (s : Site) (w : Surroundings) (request : Request) : Prop where
  asked : Endpoint.submit.AskedBy request
  page : ∃ pages static, s.routes = addEndpoints pages static {} ∧
    Template.Reads w.files pages "index.html".toList template

theorem PostsTo.respond {template : Text} {s : Site} {w : Surroundings} {request : Request}
    (h : s.PostsTo template w request) (timeline : Nat → Moment) :
    (s.respond timeline w request).1 =
      .html .ok (Utf8.encode (Endpoint.submitText template request)) := by
  obtain ⟨pages, static, hr, hreads⟩ := h.page
  rw [respond_of_askedBy hr h.asked, Endpoint.respond, Endpoint.submitPage_of_reads hreads]
  rfl

/-- Whatever is posted, the page is the same stretches of its template with the shown text between
them, and no tag or quote on it comes from elsewhere. In the shown text each ampersand begins an
entity, and reading the entities gives back the body, so that different texts are shown
differently. -/
theorem posted_text_is_no_markup {template : Text} {s s' : Site} {w w' : Surroundings}
    {request request' : Request} (h : PostsTo template s w request)
    (h' : PostsTo template s' w' request') (timeline timeline' : Nat → Moment) :
    let stretches := Endpoint.submitStretches template
    let page := (Endpoint.shown request).intercalate stretches
    let page' := (Endpoint.shown request').intercalate stretches
    (s.respond timeline w request).1 = .html .ok (Utf8.encode page) ∧
      (s'.respond timeline' w' request').1 = .html .ok (Utf8.encode page') ∧
      page.filter Text.isMarkup = page'.filter Text.isMarkup ∧
      page.filter Text.isMarkup = (Template.render [] template).filter Text.isMarkup ∧
      (Endpoint.shown request).IsEscaped ∧
      (∀ text, request.bodyText? = some text → text ≠ [] →
        Text.unescapeMarkup (Endpoint.shown request) = text) ∧
      Function.Injective Text.escapeMarkup := by
  intro stretches page page'
  have hpage : page.filter Text.isMarkup = (Template.render [] template).filter Text.isMarkup :=
    Endpoint.filter_isMarkup_submitText template request
  have hpage' : page'.filter Text.isMarkup = (Template.render [] template).filter Text.isMarkup :=
    Endpoint.filter_isMarkup_submitText template request'
  refine ⟨h.respond timeline, h'.respond timeline', hpage.trans hpage'.symm, hpage,
    Endpoint.isEscaped_shown request, fun text htext hne => ?_, Text.escapeMarkup_injective⟩
  rw [Endpoint.shown_of_bodyText? htext hne, Text.unescapeMarkup_escapeMarkup]

/-- A body with a tag, a marker and an entity in it, one that is no text, and a template in which the
place for them is within a quote and once more behind a marker that nothing closes. -/
theorem posted_text_is_no_markup_between_markers :
    let template := "<p a='{{ data }}'>{{x}}{{data}}</p>".toList ++ "\x7b\x7b".toList
    let text := "<'{{title}}&lt;".toList
    let s : Site := { routes := addEndpoints [] ⟨['/'], []⟩ {} }
    let w : Surroundings := { files := fun _ => .ok (.file (Utf8.encode template)) }
    let request : Request := ⟨"POST".toList, "/submit".toList, [], [], Utf8.encode text⟩
    let request' : Request := { request with body := [0xFF] }
    let shown := "&lt;&#39;{{title}}&amp;lt;".toList
    PostsTo template s w request ∧ PostsTo template s w request' ∧
      Endpoint.submitStretches template =
        ["<p a='".toList, "'>".toList, "</p>\x7b\x7b".toList] ∧
      (s.respond (fun n => ⟨n, [], []⟩) w request).1 = .html .ok (Utf8.encode
        ("<p a='".toList ++ shown ++ "'>".toList ++ shown ++ "</p>\x7b\x7b".toList)) ∧
      Text.unescapeMarkup shown = text := by
  intro template text s w request request' shown
  have hreads : Template.Reads w.files [] "index.html".toList template :=
    ⟨Utf8.encode template, rfl, Utf8.decode?_encode template⟩
  have hpost : PostsTo template s w request := ⟨by decide, [], _, rfl, hreads⟩
  have hpost' : PostsTo template s w request' := ⟨by decide, [], _, rfl, hreads⟩
  have hstretches : Endpoint.submitStretches template =
      ["<p a='".toList, "'>".toList, "</p>\x7b\x7b".toList] := by decide +kernel
  have htext : request.bodyText? = some text := Utf8.decode?_encode text
  have hshown : Endpoint.shown request = shown := by
    rw [Endpoint.shown_of_bodyText? htext (by decide)]
    rfl
  obtain ⟨hanswer, -, -, -, -, hback, -⟩ := posted_text_is_no_markup hpost hpost'
    (fun n => ⟨n, [], []⟩) (fun n => ⟨n, [], []⟩)
  rw [hshown, hstretches] at hanswer
  exact ⟨hpost, hpost', hstretches, hanswer, hshown ▸ hback text htext (by decide)⟩

end Site
end WebHost
