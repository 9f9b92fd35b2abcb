import WebHost.Disk.FilePath
import WebHost.Fault

/-! Files and directories as a tree, and the way that steps lead through it. -/
namespace WebHost

inductive Entry
  | directory
  | file (content : Bytes)
  /-- A device that keeps nothing of what is written to it. -/
  | sink
  deriving DecidableEq, Repr

/-- What can be read from an entry; nothing can be from a directory. -/
def Entry.content? : Entry → Option Bytes
  | .directory => none
  | .file content => some content
  | .sink => some []

/-- The entry once `content` has been written to it. -/
def Entry.filled (content : Bytes) : Entry → Entry
  | .sink => .sink
  | _ => .file content

/-- A place in the file system: the names from the root down. -/
abbrev Location := List Text

/-- An entry with all that is below it. -/
inductive Node
  | directory (entries : List (Text × Node))
  | file (content : Bytes)
  | sink
  deriving Repr

namespace Node

/-- The longest name, in bytes. -/
def nameLimit : Nat := 255

def entry : Node → Entry
  | directory _ => .directory
  | file content => .file content
  | sink => .sink

/-- An entry alone; as a directory it is empty. -/
def ofEntry : Entry → Node
  | .directory => directory []
  | .file content => file content
  | .sink => sink

def entries : Node → List (Text × Node)
  | directory es => es
  | _ => []

def at? (n : Node) : Location → Option Node
  | [] => some n
  | s :: ss => (n.entries.lookup s).bind fun m => m.at? ss

/-- Puts `m` under a name in place of what is there. -/
def assign (s : Text) (m : Node) (es : List (Text × Node)) : List (Text × Node) :=
  (s, m) :: es.filter fun e => e.1 != s

/-- Puts `m` at a place. What is in the way there becomes a directory. -/
def put (m : Node) (n : Node) : Location → Node
  | [] => m
  | s :: ss => directory (assign s (put m ((n.entries.lookup s).getD (directory [])) ss) n.entries)

def remove (n : Node) : Location → Node
  | [] => n
  | s :: ss =>
    match n.entries.lookup s with
    | none => n
    | some m =>
      match ss with
      | [] => directory (n.entries.filter fun e => e.1 != s)
      | _ => directory (assign s (m.remove ss) n.entries)

/-- Follows steps from `n`. The names that lead to `n` come with the directories they are in, the
last one first. Only the last step may lead to nothing. -/
def walk (above : List (Text × Node)) (n : Node) :
    List Text → Except FaultKind (Location × Option Node)
  | [] => .ok ((above.map Prod.fst).reverse, some n)
  | s :: ss =>
    match n with
    | file _ | sink => .error .notADirectory
    | directory es =>
      if s = FilePath.here then walk above n ss
      else if s = FilePath.up then
        match above with
        | [] => walk [] n ss
        | (_, parent) :: above => walk above parent ss
      else if Text.byteLength s > nameLimit then .error .invalidFilename
      else
        match es.lookup s, ss with
        | none, [] => .ok ((s :: above.map Prod.fst).reverse, none)
        | none, _ :: _ => .error .notFound
        | some m, ss => walk ((s, n) :: above) m ss

/-- The names and directories in `above` lead from `root` to `n`. -/
def Leads (root : Node) : List (Text × Node) → Node → Prop
  | [], n => n = root
  | (s, parent) :: above, n => parent.entries.lookup s = some n ∧ Leads root above parent

@[simp] theorem at?_nil (n : Node) : n.at? [] = some n := rfl

@[simp] theorem at?_cons (n : Node) (s : Text) (ss : Location) :
    n.at? (s :: ss) = (n.entries.lookup s).bind fun m => m.at? ss := rfl

@[simp] theorem entry_directory (es : List (Text × Node)) : (directory es).entry = .directory := rfl
@[simp] theorem entries_directory (es : List (Text × Node)) : (directory es).entries = es := rfl
@[simp] theorem entry_ofEntry (e : Entry) : (ofEntry e).entry = e := by cases e <;> rfl
@[simp] theorem entries_ofEntry (e : Entry) : (ofEntry e).entries = [] := by cases e <;> rfl

theorem at?_append (n : Node) (p q : Location) :
    n.at? (p ++ q) = (n.at? p).bind fun m => m.at? q := by
  induction p generalizing n with
  | nil => rfl
  | cons s ss ih =>
    simp only [List.cons_append, at?_cons]
    cases n.entries.lookup s with
    | none => rfl
    | some m => exact ih m

theorem lookup_filter (s t : Text) (es : List (Text × Node)) :
    (es.filter fun e => e.1 != s).lookup t = if t = s then none else es.lookup t := by
  induction es with
  | nil => simp
  | cons e es ih =>
    obtain ⟨name, n⟩ := e
    by_cases hs : name = s
    · subst hs
      rw [List.filter_cons_of_neg (by simp), ih]
      by_cases ht : t = name
      · simp [ht]
      · have hf : (t == name) = false := by simp [ht]
        simp [List.lookup_cons, ht, hf]
    · by_cases ht : t = name
      · subst ht
        simp [hs]
      · have hf : (t == name) = false := by simp [ht]
        simp [List.lookup_cons, hs, ih, hf]

theorem lookup_assign (s t : Text) (m : Node) (es : List (Text × Node)) :
    (assign s m es).lookup t = if t = s then some m else es.lookup t := by
  by_cases h : t = s
  · simp [assign, h]
  · have hf : (t == s) = false := by simp [h]
    simp [assign, List.lookup_cons, hf, h, lookup_filter]

/-- What is put at a place is found there. -/
theorem at?_put (m n : Node) (p : Location) : (put m n p).at? p = some m := by
  induction p generalizing n with
  | nil => rfl
  | cons s ss ih => simp [put, lookup_assign, ih]

theorem at?_of_no_entries {n : Node} (h : n.entries = []) {q : Location} (hq : q ≠ []) :
    n.at? q = none := by
  cases q with
  | nil => exact absurd rfl hq
  | cons s ss => simp [h]

theorem entry_of_lookup {n m : Node} {s : Text} (h : n.entries.lookup s = some m) :
    n.entry = .directory := by
  cases n with
  | directory es => rfl
  | file c => simp [entries] at h
  | sink => simp [entries] at h

theorem entries_of_entry {n : Node} (h : n.entry ≠ .directory) : n.entries = [] := by
  cases n with
  | directory es => exact absurd rfl h
  | file c => rfl
  | sink => rfl

/-- There is nothing below what is no directory. -/
theorem at?_below {n : Node} {s : Text} {ts : Location}
    (h : (n.at? [s]).map entry ≠ some .directory) (hts : ts ≠ []) : n.at? (s :: ts) = none := by
  rw [at?_cons]
  cases hl : n.entries.lookup s with
  | none => rfl
  | some m =>
    have hm : m.entry ≠ .directory := fun hm => h (by simp [hl, hm])
    exact at?_of_no_entries (entries_of_entry hm) hts

/-- Putting an entry into a directory that has no directory of its name changes nothing at other
places. -/
theorem entry_at?_put {n : Node} {p q : Location} (e : Entry) (hp : p ≠ [])
    (above : (n.at? p.dropLast).map entry = some .directory)
    (free : (n.at? p).map entry ≠ some .directory) (hq : q ≠ p) :
    ((put (ofEntry e) n p).at? q).map entry = (n.at? q).map entry := by
  induction p generalizing n q with
  | nil => exact absurd rfl hp
  | cons s ss ih =>
    cases q with
    | nil =>
      cases ss with
      | nil => simpa [put, eq_comm] using above
      | cons t ts =>
        cases hl : n.entries.lookup s with
        | none => simp [hl] at above
        | some m => simp [put, entry_of_lookup hl]
    | cons t ts =>
      by_cases ht : t = s
      · subst ht
        cases ss with
        | nil =>
          have hts : ts ≠ [] := fun h => hq (by rw [h])
          rw [at?_below free hts]
          simp [put, lookup_assign, at?_of_no_entries (entries_ofEntry e) hts]
        | cons u us =>
          cases hl : n.entries.lookup t with
          | none => simp [hl] at above
          | some m =>
            have h := ih (n := m) (q := ts) (by simp) (by simpa [hl] using above)
              (by simpa [hl] using free) fun h => hq (by rw [h])
            simpa [put, lookup_assign, hl] using h
      · simp [put, lookup_assign, ht]

/-- Removing what is no directory leaves all other places as they are. -/
theorem entry_at?_remove {n : Node} {p q : Location}
    (here : (n.at? p).map entry ≠ some .directory) (hq : q ≠ p) :
    ((n.remove p).at? q).map entry = (n.at? q).map entry := by
  induction p generalizing n q with
  | nil => rfl
  | cons s ss ih =>
    cases hl : n.entries.lookup s with
    | none => simp [remove, hl]
    | some m =>
      cases q with
      | nil => cases ss <;> simp [remove, hl, entry_of_lookup hl]
      | cons t ts =>
        by_cases ht : t = s
        · subst ht
          cases ss with
          | nil =>
            have hts : ts ≠ [] := fun h => hq (by rw [h])
            simp [remove, hl, lookup_filter, at?_below here hts]
          | cons u us =>
            have h := ih (n := m) (q := ts) (by simpa [hl] using here) fun h => hq (by rw [h])
            simpa [remove, lookup_assign, hl] using h
        · cases ss with
          | nil => simp [remove, hl, lookup_filter, ht]
          | cons u us => simp [remove, hl, lookup_assign, ht]

theorem at?_remove {n : Node} {p : Location} (hp : p ≠ []) : (n.remove p).at? p = none := by
  induction p generalizing n with
  | nil => exact absurd rfl hp
  | cons s ss ih =>
    cases hl : n.entries.lookup s with
    | none => simp [remove, hl]
    | some m =>
      cases ss with
      | nil => simp [remove, hl, lookup_filter]
      | cons u us => simpa [remove, hl, lookup_assign] using ih (n := m) (by simp)

theorem at?_of_leads {root n : Node} {above : List (Text × Node)} (h : Leads root above n) :
    root.at? (above.map Prod.fst).reverse = some n := by
  induction above generalizing n with
  | nil => simp only [Leads] at h; simp [h]
  | cons e above ih =>
    obtain ⟨hs, h⟩ := h
    simp [at?_append, ih h, hs]

mutual

/-- Everything below, as paths behind `lead`; directories end in a slash. -/
def paths (lead : Text) : Node → List Text
  | directory es => pathsOf lead es
  | _ => []

def pathsOf (lead : Text) : List (Text × Node) → List Text
  | [] => []
  | (s, n) :: es =>
    let path := lead ++ s
    match n with
    | directory _ => ((path ++ ['/']) :: n.paths (path ++ ['/'])) ++ pathsOf lead es
    | _ => path :: pathsOf lead es

end

end Node
end WebHost
