import WebHost.Proofs.Disk.Components
import WebHost.Proofs.Site.Registrations
import WebHost.Proofs.Text.Lines
import WebHost.Settings.Basic

/-! Where the files are that static routes answer with. -/
namespace WebHost
open Http

namespace StaticFile

theorem serve_of_hasDotDot {path : Text} (h : hasDotDot path) (files : Files) (limit : Nat) :
    serve files limit path = badPath := by
  simp [serve, answer, h]

/-- The answer depends on what is at the path and on nothing else. -/
theorem serve_congr {files files' : Files} {path : Text} (h : files path = files' path)
    (limit : Nat) : serve files limit path = serve files' limit path := by
  rw [serve, serve, Files.read, Files.read, h]

theorem up_notMem_components_of_hasDotDot {path : Text} (h : hasDotDot path = false) :
    .up ∉ FilePath.components path := by
  intro hup
  have hcut := Text.isSome_cut?_of_infix (FilePath.up_infix_of_mem_components hup)
  rw [hasDotDot] at h
  exact absurd (h.symm.trans hcut) (by decide)

end StaticFile

/-- A file that answers is below the root of a static route. -/
theorem Routes.exists_of_resolve_eq_file {t : Routes} {method path file : Text}
    (h : t.resolve method path = .file file) :
    ∃ s ∈ t.static, ∃ rest, file = s.root ++ '/' :: rest := by
  unfold resolve at h
  split at h
  · cases h
  · split at h
    · next found hfound =>
      obtain rfl := Target.file.inj h
      obtain ⟨s, hs, hfile⟩ := List.exists_of_findSome?_eq_some hfound
      obtain ⟨rest, -, hrest⟩ := Option.map_eq_some_iff.mp hfile
      exact ⟨s, hs, rest, hrest.symm⟩
    · cases h

namespace Site
variable {s : Site} {request : Request} {path : Text}

theorem respond_of_file (h : s.routes.resolve request.method request.path = .file path)
    (timeline : Nat → Moment) (w : Surroundings) :
    (s.respond timeline w request).1 = StaticFile.serve w.files w.fileLimit path := by
  rw [respond, run_dispatch, h]
  rfl

/-- A static route answers the request, and what is at the path decides how. -/
def Opens (s : Site) (request : Request) (path : Text) : Prop :=
  (∃ file, s.routes.resolve request.method request.path = .file file) ∧
    ∃ (timeline : Nat → Moment) (w : Surroundings) (files : Files),
      (∀ p, p ≠ path → files p = w.files p) ∧
        (s.respond timeline { w with files } request).1 ≠ (s.respond timeline w request).1

/-- It is the path that the route has found, unless two dots stand in it. -/
theorem opens_iff : s.Opens request path ↔
    s.routes.resolve request.method request.path = .file path ∧
      StaticFile.hasDotDot path = false := by
  constructor
  · rintro ⟨⟨file, hfile⟩, timeline, w, files, hsame, hne⟩
    rw [respond_of_file hfile, respond_of_file hfile] at hne
    have hpath : file = path := by
      by_contra hother
      exact hne (StaticFile.serve_congr (hsame file hother) _)
    subst hpath
    refine ⟨hfile, ?_⟩
    rw [Bool.eq_false_iff]
    intro hdots
    exact hne (by rw [StaticFile.serve_of_hasDotDot hdots, StaticFile.serve_of_hasDotDot hdots])
  · rintro ⟨hfile, hdots⟩
    -- An empty file is served, and a missing one is not.
    refine ⟨⟨path, hfile⟩, fun n => ⟨n, [], []⟩, {}, fun p => if p = path then .ok (.file []) else
      .error .notFound, fun p hp => if_neg hp, ?_⟩
    rw [respond_of_file hfile, respond_of_file hfile]
    have hserved : (StaticFile.serve (fun p => if p = path then .ok (.file []) else .error .notFound)
        StaticFile.defaultLimit path).status = .ok := by
      simp [StaticFile.serve, StaticFile.answer, hdots, Files.read, Entry.content?, Response.typed]
    have hmissing : (StaticFile.serve (fun _ => .error .notFound)
        StaticFile.defaultLimit path).status = .notFound := by
      simp [StaticFile.serve, StaticFile.answer, hdots, StaticFile.missing, Response.text,
        Response.typed]
    intro he
    have hstatus := hserved.symm.trans ((congrArg Response.status he).trans hmissing)
    exact absurd hstatus (by decide)

/-- Wherever the static root is, and whatever the request, the components of a path that is opened
begin with those of the root, and none leads up. The path is absolute if and only if the root is, or
is empty. -/
theorem opened_path_is_below_root {settings : Settings} {s : Site}
    (hs : s.routes.static = [⟨settings.staticLead, settings.staticRoot⟩]) {request : Request}
    {path : Text} (h : s.Opens request path) :
    FilePath.components settings.staticRoot <+: FilePath.components path ∧
      .up ∉ FilePath.components path ∧
      (FilePath.isAbsolute path ↔
        FilePath.isAbsolute settings.staticRoot ∨ settings.staticRoot = []) := by
  obtain ⟨hfile, hdots⟩ := opens_iff.mp h
  obtain ⟨static, hstatic, rest, rfl⟩ := Routes.exists_of_resolve_eq_file hfile
  rw [hs, List.mem_singleton] at hstatic
  subst hstatic
  exact ⟨FilePath.components_prefix_append_slash _ _,
    StaticFile.up_notMem_components_of_hasDotDot hdots, FilePath.isAbsolute_append_slash_iff⟩

/-- A lead that ends within a name, a root with more slashes and dots than it needs, and a path with
two slashes. -/
theorem opened_path_is_below_root_of_odd_lead :
    let settings : Settings := { staticLead := "/s".toList, staticRoot := "./www//".toList }
    let s : Site :=
      { routes := addEndpoints settings.pages ⟨settings.staticLead, settings.staticRoot⟩ {} }
    let request : Request := ⟨"GET".toList, "/ss//a.b/".toList, [], [], []⟩
    let path := "./www///s//a.b/".toList
    settings.validate = .ok () ∧
      s.routes.static = [⟨settings.staticLead, settings.staticRoot⟩] ∧ s.Opens request path ∧
      FilePath.components settings.staticRoot <+: FilePath.components path ∧
      .up ∉ FilePath.components path ∧
      (FilePath.isAbsolute path ↔
        FilePath.isAbsolute settings.staticRoot ∨ settings.staticRoot = []) := by
  intro settings s request path
  have hstatic : s.routes.static = [⟨settings.staticLead, settings.staticRoot⟩] :=
    static_addEndpoints _ _ _
  have hopens : s.Opens request path := by
    refine opens_iff.mpr ⟨?_, by decide⟩
    rw [resolve_addEndpoints]
    rfl
  exact ⟨rfl, hstatic, hopens, opened_path_is_below_root hstatic hopens⟩

/-- With an empty root, the root of the file system is served. -/
theorem not_forall_opened_path_is_relative :
    ¬ ∀ (settings : Settings) (s : Site) (request : Request) (path : Text),
      settings.validate = .ok () →
      s.routes.static = [⟨settings.staticLead, settings.staticRoot⟩] → s.Opens request path →
      FilePath.components settings.staticRoot <+: FilePath.components path ∧
        .up ∉ FilePath.components path ∧
        (FilePath.isAbsolute path → FilePath.isAbsolute settings.staticRoot) := by
  intro h
  let settings : Settings := { staticRoot := [] }
  let s : Site :=
    { routes := addEndpoints settings.pages ⟨settings.staticLead, settings.staticRoot⟩ {} }
  let request : Request := ⟨"GET".toList, "/static/a.css".toList, [], [], []⟩
  have hopens : s.Opens request "/a.css".toList := by
    refine opens_iff.mpr ⟨?_, by decide⟩
    rw [resolve_addEndpoints]
    rfl
  obtain ⟨-, -, habsolute⟩ := h settings s request "/a.css".toList rfl
    (static_addEndpoints _ _ _) hopens
  exact absurd (habsolute rfl) (by decide)

end Site
end WebHost
