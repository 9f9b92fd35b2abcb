import WebHost.Proofs.Site.Dispatch
import WebHost.Proofs.Text.Utf8

/-! Who answers after any additions to the route table. The first exact route for the very bytes of
a method and a path comes before all static routes, the first static route whose lead begins the
path comes before the page for missing places, and one of them answers alone. So an order among
additions matters only within one method and path, and among the static routes. -/
namespace WebHost
open Http

/-- One addition to the route table. -/
inductive Registration
  | exact (r : Route)
  | static (s : StaticRoute)

namespace Registration

def route? : Registration → Option Route
  | .exact r => some r
  | .static _ => none

def static? : Registration → Option StaticRoute
  | .exact _ => none
  | .static s => some s

@[simp] theorem route?_exact (r : Route) : (exact r).route? = some r := rfl
@[simp] theorem route?_static (s : StaticRoute) : (static s).route? = none := rfl
@[simp] theorem static?_exact (r : Route) : (exact r).static? = none := rfl
@[simp] theorem static?_static (s : StaticRoute) : (static s).static? = some s := rfl

end Registration

/-- The route is for a method and a path, byte for byte. -/
def Route.IsFor (r : Route) (method path : Text) : Prop :=
  Utf8.encode r.method = Utf8.encode method ∧ Utf8.encode r.path = Utf8.encode path

theorem Route.isFor_iff {r : Route} {method path : Text} :
    r.IsFor method path ↔ (r.method == method && r.path == path) = true := by
  simp [IsFor, Utf8.encode_inj]

instance (r : Route) (method path : Text) : Decidable (r.IsFor method path) :=
  inferInstanceAs (Decidable (_ ∧ _))

/-- A path without one slash in front, if it has any. -/
def withoutSlash : Text → Text
  | '/' :: r => r
  | r => r

theorem after?_slash_getD (t : Text) : (Text.after? ['/'] t).getD t = withoutSlash t := by
  unfold withoutSlash
  split
  · next r => simp [Text.after?]
  · next hne =>
    have hnone : Text.after? ['/'] t = none := by
      rw [Option.eq_none_iff_forall_ne_some]
      intro r hr
      exact hne r (Text.after?_eq_some_iff.mp hr)
    rw [hnone]
    rfl

theorem StaticRoute.file?_append (s : StaticRoute) (rest : Text) :
    s.file? (s.lead ++ rest) = some (s.root ++ '/' :: withoutSlash rest) := by
  simp [file?, rest?, Text.after?_append, after?_slash_getD]

theorem StaticRoute.file?_eq_none_iff {s : StaticRoute} {path : Text} :
    s.file? path = none ↔ ¬ s.lead <+: path := by
  simp [file?, rest?, Text.after?, List.isPrefixOf_iff_prefix]

/-- The handler that an addition offers for a method and a path. -/
def Registration.handlerFor? (method path : Text) : Registration → Option Handler
  | .exact r => if r.IsFor method path then some r.handler else none
  | .static _ => none

/-- The file that an addition offers for a path. -/
def Registration.fileFor? (path : Text) : Registration → Option Text
  | .exact _ => none
  | .static s => s.file? path

namespace Registration
variable {method path : Text} {x : Registration}

@[simp] theorem handlerFor?_exact (r : Route) :
    (exact r).handlerFor? method path = if r.IsFor method path then some r.handler else none := rfl

@[simp] theorem handlerFor?_static (s : StaticRoute) :
    (static s).handlerFor? method path = none := rfl

@[simp] theorem fileFor?_exact (r : Route) : (exact r).fileFor? path = none := rfl

@[simp] theorem fileFor?_static (s : StaticRoute) : (static s).fileFor? path = s.file? path := rfl

theorem handlerFor?_eq_some_iff {h : Handler} :
    x.handlerFor? method path = some h ↔ ∃ r, x = .exact r ∧ r.IsFor method path ∧ r.handler = h := by
  cases x <;> simp

theorem handlerFor?_eq_none_iff :
    x.handlerFor? method path = none ↔ ∀ r, x = .exact r → ¬ r.IsFor method path := by
  cases x <;> simp

theorem fileFor?_eq_some_iff {file : Text} :
    x.fileFor? path = some file ↔
      ∃ s rest, x = .static s ∧ path = s.lead ++ rest ∧ s.root ++ '/' :: withoutSlash rest = file := by
  cases x with
  | exact r => simp
  | static s =>
    constructor
    · intro h
      by_cases hlead : s.lead <+: path
      · obtain ⟨rest, rfl⟩ := hlead
        rw [fileFor?_static, StaticRoute.file?_append, Option.some_inj] at h
        exact ⟨s, rest, rfl, rfl, h⟩
      · rw [fileFor?_static, StaticRoute.file?_eq_none_iff.mpr hlead] at h
        cases h
    · rintro ⟨s', rest, hs, rfl, rfl⟩
      cases hs
      exact s.file?_append rest

theorem fileFor?_eq_none_iff :
    x.fileFor? path = none ↔ ∀ s, x = .static s → ¬ s.lead <+: path := by
  cases x <;> simp [StaticRoute.file?_eq_none_iff]

end Registration

namespace Routes

def register (t : Routes) : Registration → Routes
  | .exact r => t.addRoute r
  | .static s => t.addStatic s

/-- The table after additions to an empty one. -/
def registered (rs : List Registration) : Routes := rs.foldl register {}

theorem foldl_register (rs : List Registration) (t : Routes) :
    rs.foldl register t =
      ⟨t.exact ++ rs.filterMap Registration.route?, t.static ++ rs.filterMap Registration.static?⟩ := by
  induction rs generalizing t with
  | nil => simp
  | cons x rs ih =>
    rw [List.foldl_cons, ih]
    cases x <;> simp [register, addRoute, addStatic, List.filterMap_cons]

theorem registered_eq (rs : List Registration) :
    registered rs = ⟨rs.filterMap Registration.route?, rs.filterMap Registration.static?⟩ := by
  simp [registered, foldl_register]

variable {rs rs' : List Registration} {method path : Text} {t t' : Target}

theorem find?_exact_registered :
    ((registered rs).exact.find? fun r => r.method == method && r.path == path).map Route.handler =
      rs.findSome? (·.handlerFor? method path) := by
  rw [registered_eq]
  induction rs with
  | nil => rfl
  | cons x rs ih =>
    cases x with
    | static s => simpa [List.filterMap_cons, List.findSome?_cons] using ih
    | exact r =>
      by_cases hr : r.IsFor method path
      · have hmatch := Route.isFor_iff.mp hr
        simp [hr, hmatch]
      · have hmatch := Bool.not_eq_true _ ▸ mt Route.isFor_iff.mpr hr
        simpa [hr, hmatch] using ih

theorem findSome?_static_registered :
    (registered rs).static.findSome? (fun s => s.file? path) = rs.findSome? (·.fileFor? path) := by
  rw [registered_eq]
  induction rs with
  | nil => rfl
  | cons x rs ih =>
    cases x with
    | exact r => simpa [List.filterMap_cons, List.findSome?_cons] using ih
    | static s =>
      simp only [Registration.static?_static, Registration.fileFor?_static, List.filterMap_cons,
        List.findSome?_cons]
      rw [← ih]

/-- Any handler that an addition offers comes before any file. -/
theorem resolve_registered :
    (registered rs).resolve method path =
      match rs.findSome? (·.handlerFor? method path) with
      | some h => .handler h
      | none =>
        match rs.findSome? (·.fileFor? path) with
        | some file => .file file
        | none => .missing := by
  rw [resolve, ← find?_exact_registered, ← findSome?_static_registered]
  cases (registered rs).exact.find? fun r => r.method == method && r.path == path <;> rfl

/-- Who is to answer requests for a method and a path after these additions. -/
inductive Chooses (rs : List Registration) (method path : Text) : Target → Prop
  | handler {before after r} (place : rs = before ++ .exact r :: after) (asked : r.IsFor method path)
      (first : ∀ r', .exact r' ∈ before → ¬ r'.IsFor method path) :
      Chooses rs method path (.handler r.handler)
  | file {before after s rest} (unasked : ∀ r, .exact r ∈ rs → ¬ r.IsFor method path)
      (place : rs = before ++ .static s :: after) (lead : path = s.lead ++ rest)
      (first : ∀ s', .static s' ∈ before → ¬ s'.lead <+: path) :
      Chooses rs method path (.file (s.root ++ '/' :: withoutSlash rest))
  | missing (unasked : ∀ r, .exact r ∈ rs → ¬ r.IsFor method path)
      (unled : ∀ s, .static s ∈ rs → ¬ s.lead <+: path) : Chooses rs method path .missing

theorem findSome?_handlerFor?_eq_none_iff :
    rs.findSome? (·.handlerFor? method path) = none ↔ ∀ r, .exact r ∈ rs → ¬ r.IsFor method path := by
  simp only [List.findSome?_eq_none_iff, Registration.handlerFor?_eq_none_iff]
  exact ⟨fun h r hr => h _ hr r rfl, fun h x hx r hr => h r (hr ▸ hx)⟩

theorem findSome?_fileFor?_eq_none_iff :
    rs.findSome? (·.fileFor? path) = none ↔ ∀ s, .static s ∈ rs → ¬ s.lead <+: path := by
  simp only [List.findSome?_eq_none_iff, Registration.fileFor?_eq_none_iff]
  exact ⟨fun h s hs => h _ hs s rfl, fun h x hx s hs => h s (hs ▸ hx)⟩

theorem Chooses.resolve_eq (h : Chooses rs method path t) : (registered rs).resolve method path = t := by
  rw [resolve_registered]
  cases h with
  | @handler before after r place asked first =>
    have hr : rs.findSome? (·.handlerFor? method path) = some r.handler := by
      rw [place, List.findSome?_append, findSome?_handlerFor?_eq_none_iff.mpr first]
      simp [asked]
    rw [hr]
  | @file before after s rest unasked place lead first =>
    have hs : rs.findSome? (·.fileFor? path) = some (s.root ++ '/' :: withoutSlash rest) := by
      rw [place, List.findSome?_append, findSome?_fileFor?_eq_none_iff.mpr first]
      simp [lead, StaticRoute.file?_append]
    rw [findSome?_handlerFor?_eq_none_iff.mpr unasked, hs]
  | missing unasked unled =>
    rw [findSome?_handlerFor?_eq_none_iff.mpr unasked, findSome?_fileFor?_eq_none_iff.mpr unled]

theorem chooses_resolve : Chooses rs method path ((registered rs).resolve method path) := by
  rw [resolve_registered]
  cases hh : rs.findSome? (·.handlerFor? method path) with
  | some h =>
    obtain ⟨before, x, after, place, hx, hfirst⟩ := List.findSome?_eq_some_iff.mp hh
    obtain ⟨r, rfl, asked, rfl⟩ := Registration.handlerFor?_eq_some_iff.mp hx
    exact .handler place asked
      (findSome?_handlerFor?_eq_none_iff.mp (List.findSome?_eq_none_iff.mpr hfirst))
  | none =>
    have unasked := findSome?_handlerFor?_eq_none_iff.mp hh
    cases hf : rs.findSome? (·.fileFor? path) with
    | some file =>
      obtain ⟨before, x, after, place, hx, hfirst⟩ := List.findSome?_eq_some_iff.mp hf
      obtain ⟨s, rest, rfl, lead, rfl⟩ := Registration.fileFor?_eq_some_iff.mp hx
      exact .file unasked place lead
        (findSome?_fileFor?_eq_none_iff.mp (List.findSome?_eq_none_iff.mpr hfirst))
    | none => exact .missing unasked (findSome?_fileFor?_eq_none_iff.mp hf)

theorem chooses_iff : Chooses rs method path t ↔ t = (registered rs).resolve method path :=
  ⟨fun h => h.resolve_eq.symm, fun h => h ▸ chooses_resolve⟩

/-- The same additions in an order that keeps the order within each method and path, and among the
static routes. -/
structure Reorders (rs rs' : List Registration) : Prop where
  perm : rs.Perm rs'
  exact : ∀ method path, (rs.filterMap Registration.route?).filter (·.IsFor method path) =
    (rs'.filterMap Registration.route?).filter (·.IsFor method path)
  static : rs.filterMap Registration.static? = rs'.filterMap Registration.static?

theorem Reorders.resolve_eq (h : Reorders rs rs') (method path : Text) :
    (registered rs).resolve method path = (registered rs').resolve method path := by
  have hfirst (l : List Route) : (l.find? fun r => r.method == method && r.path == path) =
      (l.filter (·.IsFor method path)).head? := by
    rw [List.head?_filter]
    congr 1
    funext r
    rw [Bool.eq_iff_iff, ← Route.isFor_iff, decide_eq_true_iff]
  simp only [resolve, registered_eq, hfirst, h.exact method path, h.static]

end Routes

/-- How the one that is to answer does so. -/
def Target.answer (w : Surroundings) (depth : Nat) (request : Request) :
    Target → Action Site.Op Response
  | .handler h => h.respond w (Site.dispatch w depth) request
  | .file path => pure (StaticFile.serve w.files w.fileLimit path)
  | .missing => pure (Site.notFound w)

namespace Site
open Routes

theorem dispatch_succ (w : Surroundings) (depth : Nat) (request : Request) :
    dispatch w (depth + 1) request =
      Action.perform (.inr (.resolve request.method request.path)) >>=
        fun t => t.answer w depth request :=
  rfl

/-- The table is looked at once. After that the site is with whoever is to answer, and nobody else
acts on it. -/
theorem run_dispatch (timeline : Nat → Moment) (w : Surroundings) (depth : Nat) (request : Request)
    (s : Site) :
    s.run timeline (dispatch w (depth + 1) request) =
      s.tick.run timeline
        ((s.routes.resolve request.method request.path).answer w depth request) := by
  rw [dispatch_succ, run_bind]
  rfl

/-- With a template or without one, the page for missing places is one with the code 404. -/
theorem status_notFound (w : Surroundings) : (notFound w).status = ⟨404⟩ := by
  unfold notFound
  split <;> rfl

/-- Whatever has been added in whatever order, one alone is to answer each request, and he does; if
it is the page for missing places, the code of the answer is 404. After any reordering that keeps
the order within each method and path and among the static routes it is the same one. -/
theorem dispatch_chooses_one (rs : List Registration) (timeline : Nat → Moment) (w : Surroundings)
    (depth : Nat) (request : Request) (s : Site) (hs : s.routes = registered rs) :
    ∃ t, (∀ t', Chooses rs request.method request.path t' ↔ t' = t) ∧
      s.run timeline (dispatch w (depth + 1) request) =
        s.tick.run timeline (t.answer w depth request) ∧
      (t = .missing → (s.run timeline (dispatch w (depth + 1) request)).1.status = ⟨404⟩) ∧
      ∀ rs', Reorders rs rs' → (registered rs').resolve request.method request.path = t := by
  refine ⟨(registered rs).resolve request.method request.path, fun t' => chooses_iff, ?_, ?_, ?_⟩
  · rw [run_dispatch, hs]
  · intro hmissing
    rw [run_dispatch, hs, hmissing]
    exact status_notFound w
  · intro rs' hreorder
    exact (hreorder.resolve_eq _ _).symm

/-- A route that is added after a static one whose lead begins its path answers all the same. -/
theorem dispatch_chooses_one_late_route :
    let late : Handler := .script [.setBody [1]]
    let pages : Registration := .static ⟨"/s".toList, "pages".toList⟩
    let first : Registration := .exact ⟨"GET".toList, "/s/x".toList, late⟩
    let second : Registration := .exact ⟨"GET".toList, "/s/x".toList, default⟩
    let request : Request := ⟨"GET".toList, "/s/x".toList, [], [], []⟩
    let s : Site := { routes := registered [pages, first, second] }
    Reorders [pages, first, second] [first, pages, second] ∧
      (s.run (fun n => ⟨n, [], []⟩) (dispatch {} 1 request)).1 = { body := some [1] } ∧
      (registered [first, pages, second]).resolve request.method request.path = .handler late := by
  intro late pages first second request s
  have hreorder : Reorders [pages, first, second] [first, pages, second] :=
    ⟨.swap .., fun _ _ => rfl, rfl⟩
  obtain ⟨t, hone, hrun, -, hsame⟩ :=
    dispatch_chooses_one [pages, first, second] (fun n => ⟨n, [], []⟩) {} 0 request s rfl
  have hlate : Chooses [pages, first, second] request.method request.path (.handler late) :=
    .handler (show [pages, first, second] = [pages] ++ first :: [second] from rfl) ⟨rfl, rfl⟩
      (by simp [pages])
  obtain rfl := (hone _).mp hlate
  exact ⟨hreorder, by rw [hrun]; rfl, hsame _ hreorder⟩

end Site
end WebHost
