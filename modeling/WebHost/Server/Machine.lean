import WebHost.Disk.Change
import WebHost.Settings.Basic
import WebHost.Site.Basic

/-! What the server asks of the machine it runs on. -/
namespace WebHost

/-- Operations on the machine, by the type of their answers. -/
inductive Machine.Op : Type → Type
  | look (path : Text) : Machine.Op (Except FaultKind Entry)
  | change (c : Disk.Change) : Machine.Op (Except FaultKind Unit)
  | listen (address : Text) : Machine.Op (Except IoError Unit)
  /-- Serves until a stop, and answers the site as it is then; or nothing, if the process has been
  killed. -/
  | serve (settings : Settings) (site : Site) : Machine.Op (Option Site)

/-- A machine as a value: its disk, and what its network does. -/
structure Machine where
  disk : Disk := {}
  /-- What the process may read. -/
  readable : Text → Bool := fun _ => true
  listen : Text → Except IoError Unit := fun _ => .ok ()
  serve : Settings → Site → Option Site := fun _ site => some site

namespace Machine

def look (m : Machine) (path : Text) : Except FaultKind Entry :=
  if m.readable path then m.disk.look path else .error .permissionDenied

def apply {β : Type} (o : Op β) (m : Machine) : β × Machine :=
  match o with
  | .look path => (m.look path, m)
  | .change c =>
    let (outcome, disk) := c.apply m.disk
    (outcome, { m with disk })
  | .listen address => (m.listen address, m)
  | .serve settings site => (m.serve settings site, m)

def run {α : Type} (p : Action Op α) (m : Machine) : α × Machine := p.run (fun o m => m.apply o) m

/-- Changes in turn, up to the first that fails. -/
def changeAll : List Disk.Change → Action Op (Except FaultKind Unit)
  | [] => pure (.ok ())
  | c :: cs => do
    match ← Action.perform (.change c) with
    | .ok () => changeAll cs
    | .error k => pure (.error k)

theorem run_changeAll (cs : List Disk.Change) (m : Machine) :
    m.run (changeAll cs) =
      ((Disk.applyAll cs m.disk).1, { m with disk := (Disk.applyAll cs m.disk).2 }) := by
  induction cs generalizing m with
  | nil => rfl
  | cons c cs ih =>
    have hc : m.run (changeAll (c :: cs)) =
        match (c.apply m.disk).1 with
        | .ok () => ({ m with disk := (c.apply m.disk).2 } : Machine).run (changeAll cs)
        | .error k => (.error k, { m with disk := (c.apply m.disk).2 }) := by
      simp only [run, changeAll, Action.run_bind, Action.run_perform, apply]
      split <;> rfl
    rw [hc, Disk.applyAll]
    rcases h : c.apply m.disk with ⟨_ | _, d⟩
    · rfl
    · exact ih _

end Machine
end WebHost
