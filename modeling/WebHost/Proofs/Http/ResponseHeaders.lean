import WebHost.Proofs.Http.Headers
import WebHost.Server.Connection

/-! The headers of a response, from the calls that have set them. -/
namespace WebHost.Http.Response

/-- Sets headers one after the other. -/
def setAll (r : Response) (calls : List Header) : Response :=
  calls.foldl (fun r c => r.setHeader c.name c.value) r

theorem setAll_append (r : Response) (calls others : List Header) :
    r.setAll (calls ++ others) = (r.setAll calls).setAll others :=
  List.foldl_append

/-- All calls together keep the headers in step. -/
theorem follows_setAll {r : Response} {earlier : List Header}
    (h : Headers.Follows earlier r.headers) (calls : List Header) :
    Headers.Follows (earlier ++ calls) (r.setAll calls).headers := by
  induction calls generalizing r earlier with
  | nil => simpa [setAll] using h
  | cons c calls ih =>
    have hstep := ih (r := r.setHeader c.name c.value) (h.set c)
    rwa [List.append_assoc, List.singleton_append] at hstep

/-- Whatever is set on a response without headers, in whatever spellings: the names of its headers
are distinct whatever their case, they stand in the order of the calls that set them first and are
spelled as there, and a name has the value of the last call that sets it. The last response on a
connection has been set one header more. It says once that it is the last, in whatever spelling the
calls have set that header before. -/
theorem headers_follow_calls (status : Status) (body : Option Bytes) (calls : List Header) :
    let r := ({ status, body } : Response).setAll calls
    let closed := Connection.closing r
    (r.headers.map fun h => Text.folded h.name).Nodup ∧
      (r.headers.Pairwise fun g h =>
        Headers.firstCall calls g.name < Headers.firstCall calls h.name) ∧
      (∀ h ∈ r.headers,
        (calls.find? fun c => Text.sameFolded c.name h.name).map Header.name = some h.name) ∧
      (∀ q, r.header? q =
        (calls.findRev? fun c => Text.sameFolded c.name q).map Header.value) ∧
      closed = ({ status, body } : Response).setAll
        (calls ++ [⟨"Connection".toList, "close".toList⟩]) ∧
      (closed.headers.filter fun h => Text.sameFolded h.name "Connection".toList).map
        Header.value = ["close".toList] := by
  intro r closed
  have hfollows (calls : List Header) :
      Headers.Follows calls (({ status, body } : Response).setAll calls).headers :=
    follows_setAll (r := { status, body }) Headers.follows_nil calls
  have hclosed : closed = ({ status, body } : Response).setAll
      (calls ++ [⟨"Connection".toList, "close".toList⟩]) := by
    rw [setAll_append]
    rfl
  have hr := hfollows calls
  refine ⟨?_, ?_, fun h hh => hr.spelling _ (List.mem_map_of_mem hh), hr.value, hclosed, ?_⟩
  · have hdistinct := hr.distinct
    rwa [Headers.names, List.map_map] at hdistinct
  · have horder := hr.order
    rwa [Headers.names, List.pairwise_map] at horder
  · refine Headers.filter_of_get? (hclosed ▸ (hfollows _).distinct) ?_
    rw [show closed.headers = r.headers.set "Connection".toList "close".toList from rfl,
      Headers.get?_set, Text.sameFolded_self, if_pos rfl]

example : (({} : Response).setAll [⟨"X-A".toList, ['1']⟩, ⟨['b'], ['2']⟩, ⟨"x-a".toList, ['3']⟩]).headers =
    [⟨"X-A".toList, ['3']⟩, ⟨['b'], ['2']⟩] := by decide

end WebHost.Http.Response
