import WebHost.Site.Basic

/-! Who answers at a site that has the routes of all endpoints and one static route: the endpoint
that is asked, and otherwise a file or the page for missing places. -/
namespace WebHost
open Http

namespace Action
variable {Op Op' : Type → Type} {α β : Type} {wider : {β : Type} → Op β → Op' β}

@[simp] theorem lift_pure (a : α) : (pure a : Action Op α).lift wider = pure a := rfl

@[simp] theorem lift_perform (o : Op α) : (perform o).lift wider = perform (wider o) := rfl

@[simp] theorem lift_bind (p : Action Op α) (f : α → Action Op β) :
    (p >>= f).lift wider = p.lift wider >>= fun a => (f a).lift wider := by
  induction p with
  | done a => rfl
  | step o next ih => exact congrArg _ (funext ih)

end Action

/-- The request is for the endpoint's method and path. -/
def Endpoint.AskedBy (e : Endpoint) (request : Request) : Prop :=
  request.method = e.method ∧ request.path = e.path

instance (e : Endpoint) (request : Request) : Decidable (e.AskedBy request) :=
  inferInstanceAs (Decidable (_ ∧ _))

/-- The endpoint that a request is for. -/
def Endpoint.asked? (method path : Text) : Option Endpoint :=
  Endpoint.all.find? fun e => e.method == method && e.path == path

theorem Endpoint.asked?_of_askedBy {e : Endpoint} {request : Request} (h : e.AskedBy request) :
    Endpoint.asked? request.method request.path = some e := by
  rw [h.1, h.2]
  cases e <;> decide

namespace Site

theorem exact_addEndpoints (pages : Text) (static : StaticRoute) (t : Routes) :
    (addEndpoints pages static t).exact =
      t.exact ++ Endpoint.all.map fun e => ⟨e.method, e.path, .endpoint e pages⟩ := by
  simp [addEndpoints, Endpoint.all, Routes.addRoute, Routes.addStatic]

theorem static_addEndpoints (pages : Text) (static : StaticRoute) (t : Routes) :
    (addEndpoints pages static t).static = t.static ++ [static] := by
  simp [addEndpoints, Endpoint.all, Routes.addRoute, Routes.addStatic]

theorem resolve_addEndpoints (pages : Text) (static : StaticRoute) (method path : Text) :
    (addEndpoints pages static {}).resolve method path =
      match Endpoint.asked? method path with
      | some e => .handler (.endpoint e pages)
      | none =>
        match static.file? path with
        | some file => .file file
        | none => .missing := by
  rw [Routes.resolve, exact_addEndpoints, static_addEndpoints, List.nil_append, List.nil_append,
    List.find?_map]
  simp only [Function.comp_def, Endpoint.asked?]
  cases Endpoint.all.find? fun e => e.method == method && e.path == path with
  | some e => rfl
  | none => cases hfile : static.file? path <;> simp [hfile]

/-- The site after an operation that has only looked at it. -/
def tick (s : Site) : Site := { s with elapsed := s.elapsed + 1 }

@[simp] theorem accounts_tick (s : Site) : s.tick.accounts = s.accounts := rfl

@[simp] theorem elapsed_tick (s : Site) : s.tick.elapsed = s.elapsed + 1 := rfl

variable {timeline : Nat → Moment} {w : Surroundings} {pages : Text} {static : StaticRoute}
  {request : Request} {s : Site}

@[simp] theorem run_pure {α : Type} (a : α) : s.run timeline (pure a) = (a, s) := rfl

@[simp] theorem run_bind {α β : Type} (p : Action Op α) (f : α → Action Op β) :
    s.run timeline (p >>= f) =
      (s.run timeline p).2.run timeline (f (s.run timeline p).1) :=
  Action.run_bind _ p f s

/-- An operation on the accounts happens at the moment that has come. -/
theorem run_perform_inl {α : Type} (o : Accounts.Op α) :
    s.run timeline (Action.perform (.inl o)) =
      ((o.apply (timeline s.elapsed) s.accounts).1,
        { s with
          accounts := (o.apply (timeline s.elapsed) s.accounts).2
          elapsed := s.elapsed + 1 }) := rfl

/-- A request is resolved once, and then its endpoint has the site. -/
theorem respond_eq (hr : s.routes = addEndpoints pages static {}) :
    s.respond timeline w request =
      match Endpoint.asked? request.method request.path with
      | some e => s.tick.run timeline ((e.respond w.files pages request).lift Sum.inl)
      | none =>
        match static.file? request.path with
        | some file => (StaticFile.serve w.files w.fileLimit file, s.tick)
        | none => (notFound w, s.tick) := by
  have hresolve : s.run timeline (Action.perform (.inr (.resolve request.method request.path))) =
      (s.routes.resolve request.method request.path, s.tick) := rfl
  rw [respond, dispatch, run_bind, hresolve, hr, resolve_addEndpoints]
  cases Endpoint.asked? request.method request.path with
  | some e => rfl
  | none => cases static.file? request.path <;> rfl

theorem respond_of_askedBy (hr : s.routes = addEndpoints pages static {}) {e : Endpoint}
    (he : e.AskedBy request) :
    s.respond timeline w request =
      s.tick.run timeline ((e.respond w.files pages request).lift Sum.inl) := by
  rw [respond_eq hr, Endpoint.asked?_of_askedBy he]

end Site
end WebHost
