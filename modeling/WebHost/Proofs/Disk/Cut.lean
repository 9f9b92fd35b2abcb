import WebHost.Proofs.Disk.Growth

/-! Changes that are cut short: what is on the disk when the last of them has not been made, or not
to its end. -/
namespace WebHost

theorem Node.put_put (m m' n : Node) (place : Location) :
    put m (put m' n place) place = put m n place := by
  induction place generalizing n with
  | nil => rfl
  | cons s ss ih =>
    simp only [put, entries_directory, lookup_assign, if_true, Option.getD_some, ih]
    simp [assign, List.filter_filter]

namespace Disk

/-- What one change can have done when it fails or is cut short: nothing, or some of the directories
made, or some of the bytes written. -/
inductive Change.Leaves (d : Disk) : Change → Disk → Prop
  | nothing (c) : Leaves d c d
  | directories {path above} (h : above <:+ FilePath.lengths path) :
      Leaves d (.makeDirectories path) (d.makeDirectoriesUp path above).2
  | bytes {path bs n d'} (h : d.append path (bs.take n) = .ok d') : Leaves d (.append path bs) d'

/-- What changes can have done when one of them fails or is cut short, or when all are made. -/
inductive Cut : List Change → Disk → Disk → Prop
  | within {c cs d d'} (h : c.Leaves d d') : Cut (c :: cs) d d'
  | next {c cs d d₁ d'} (h : c.apply d = (.ok (), d₁)) (hcut : Cut cs d₁ d') : Cut (c :: cs) d d'
  | done (d) : Cut [] d d

variable {d d' d₁ : Disk} {path : Text} {place : Location} {e : Entry} {cs ds : List Change}

theorem put_put (d : Disk) (place : Location) (e e' : Entry) :
    (d.put place e).put place e' = d.put place e' := by
  cases place with
  | nil => simp [put, Node.put]
  | cons s ss => simp only [put, ← Node.put_put (Node.ofEntry e') (Node.ofEntry e) d.root (s :: ss)]; rfl

theorem Change.leaves_of_error {c : Change} {k : FaultKind} (h : c.apply d = (.error k, d')) :
    c.Leaves d d' := by
  have hsettle {r : Except FaultKind Disk} (hr : d.settle r = (.error k, d')) : d' = d := by
    cases r with
    | ok d₁ => cases hr
    | error k' => exact (congrArg Prod.snd hr).symm
  cases c with
  | makeDirectories path =>
    obtain rfl : (d.makeDirectories path).2 = d' := congrArg Prod.snd h
    exact .directories List.suffix_rfl
  | create | append | rename => exact hsettle h ▸ .nothing _

/-- Changes that are all tried leave what a cut leaves. -/
theorem cut_applyAll (cs : List Change) (d : Disk) : Cut cs d (applyAll cs d).2 := by
  induction cs generalizing d with
  | nil => exact .done d
  | cons c cs ih =>
    rw [applyAll]
    split
    · next d₁ hc => exact .next hc (ih d₁)
    · next k d₁ hc => exact .within (Change.leaves_of_error hc)

theorem Cut.start (cs : List Change) (d : Disk) : Cut cs d d := by
  cases cs with
  | nil => exact .done d
  | cons c cs => exact .within (.nothing c)

/-- The cut falls among the first changes, or they are all made and it falls among the others. -/
theorem cut_append_iff : Cut (cs ++ ds) d d' ↔
    Cut cs d d' ∨ ∃ d₁, applyAll cs d = (.ok (), d₁) ∧ Cut ds d₁ d' := by
  induction cs generalizing d with
  | nil =>
    simp only [List.nil_append, applyAll, Prod.mk.injEq, true_and, exists_eq_left']
    refine ⟨.inr, fun h => h.elim (fun hcut => ?_) id⟩
    cases hcut
    exact .start ds _
  | cons c cs ih =>
    constructor
    · intro h
      cases h with
      | within h => exact .inl (.within h)
      | next hc hcut =>
        obtain hcut | ⟨d₁, hall, hcut⟩ := ih.mp hcut
        · exact .inl (.next hc hcut)
        · exact .inr ⟨d₁, by rwa [applyAll_cons_of_ok hc], hcut⟩
    · rintro (h | ⟨d₁, hall, hcut⟩)
      · cases h with
        | within h => exact .within h
        | next hc hcut => exact .next hc (ih.mpr (.inl hcut))
      · obtain ⟨d₂, hc, hall⟩ := applyAll_cons_eq_ok hall
        exact .next hc (ih.mpr (.inr ⟨d₁, hall, hcut⟩))

/-- What is appended to an open file stands behind what has been written to it. -/
theorem append_put (h : d.openFile path = .ok (place, e)) (written bs : Bytes) :
    (d.put place (e.filled written)).append path bs =
      .ok (d.put place (e.filled (written ++ bs))) := by
  have hfilled : (e.filled written).filled ((e.filled written).content?.getD [] ++ bs) =
      e.filled (written ++ bs) := by cases e <;> rfl
  simp only [append, openFile_put h, Except.map, put_put, hfilled]

theorem create_eq (h : d.openFile path = .ok (place, e)) :
    d.create path = .ok (d.put place (e.filled [])) := by
  rw [create, h, Except.map]

theorem apply_create (h : d.openFile path = .ok (place, e)) :
    (Change.create path).apply d = (.ok (), d.put place (e.filled [])) :=
  settle_eq_ok_iff.mpr (create_eq h)

theorem applyAll_appends (h : d.openFile path = .ok (place, e)) (parts : List Bytes)
    (written : Bytes) :
    applyAll (parts.map (.append path)) (d.put place (e.filled written)) =
      (.ok (), d.put place (e.filled (written ++ parts.flatten))) := by
  induction parts generalizing written with
  | nil => simp [applyAll]
  | cons bs parts ih =>
    have happend : (Change.append path bs).apply (d.put place (e.filled written)) =
        (.ok (), d.put place (e.filled (written ++ bs))) := settle_eq_ok_iff.mpr (append_put h _ _)
    rw [List.map_cons, applyAll_cons_of_ok happend, ih, List.flatten_cons, List.append_assoc]

/-- A file that can be opened is made and filled, however many writes that takes. -/
theorem applyAll_write (h : d.openFile path = .ok (place, e)) (parts : List Bytes)
    (cs : List Change) :
    applyAll (.create path :: (parts.map (.append path) ++ cs)) d =
      applyAll cs (d.put place (e.filled parts.flatten)) := by
  rw [applyAll_cons_of_ok (apply_create h), applyAll_append_of_ok (applyAll_appends h parts []),
    List.nil_append]

/-- Appending that is cut short leaves a beginning of what is to be written. -/
theorem cut_appends (h : d.openFile path = .ok (place, e)) {parts : List Bytes} {written : Bytes}
    (hcut : Cut (parts.map (.append path)) (d.put place (e.filled written)) d') :
    ∃ bs, bs <+: written ++ parts.flatten ∧ d' = d.put place (e.filled bs) := by
  induction parts generalizing written with
  | nil =>
    cases hcut
    exact ⟨written, List.prefix_append _ _, rfl⟩
  | cons part parts ih =>
    rw [List.flatten_cons, ← List.append_assoc]
    cases hcut with
    | within hleaves =>
      cases hleaves with
      | nothing => exact ⟨written, (List.prefix_append _ _).trans (List.prefix_append _ _), rfl⟩
      | @bytes _ _ n _ happend =>
        rw [append_put h] at happend
        refine ⟨written ++ part.take n, ?_, (Except.ok.inj happend).symm⟩
        exact ((List.prefix_append_right_inj written).mpr (List.take_prefix n part)).trans
          (List.prefix_append _ _)
    | next happend hcut =>
      rw [Change.apply, append_put h, settle, Prod.mk.injEq] at happend
      exact ih (happend.2 ▸ hcut)

/-- Where directories alone are to be made, a cut has added directories and nothing else. -/
theorem Cut.addsDirectories (h : Cut cs d d') (hcs : ∀ c ∈ cs, ∃ p, c = .makeDirectories p) :
    AddsDirectories d d' := by
  induction h with
  | within h =>
    obtain ⟨p, rfl⟩ := hcs _ (.head _)
    cases h with
    | nothing => exact .refl _
    | directories => exact addsDirectories_makeDirectoriesUp _ p _
  | @next _ _ d d₁ _ h _ ih =>
    obtain ⟨p, rfl⟩ := hcs _ (.head _)
    obtain rfl : (d.makeDirectories p).2 = d₁ := congrArg Prod.snd h
    exact (addsDirectories_makeDirectoriesUp d p _).trans (ih fun c hc => hcs c (.tail _ hc))
  | done d => exact .refl d

/-- What can be read at a path; nothing where no file is. -/
def content? (d : Disk) (path : Text) : Option Bytes := (d.read path).toOption

theorem content?_of_look (hl : d.look path = .ok e) : d.content? path = e.content? := by
  unfold content? read Files.read
  rw [hl]
  cases e <;> rfl

theorem content?_eq_some_iff {bs : Bytes} : d.content? path = some bs ↔
    ∃ e : Entry, e ≠ .directory ∧ d.look path = .ok e ∧ e.content? = some bs := by
  constructor
  · intro h
    cases hl : d.look path with
    | error k => simp [content?, read, Files.read, hl, Except.toOption] at h
    | ok e =>
      rw [content?_of_look hl] at h
      refine ⟨e, ?_, rfl, h⟩
      rintro rfl
      cases h
  · rintro ⟨e, -, hl, hbs⟩
    rwa [content?_of_look hl]

/-- The content at a path depends on the directories and on the file where the path leads. -/
theorem content?_eq_of_same (hs : SameDirectories d d')
    (hfile : ∀ spot, d.locate path = .ok spot → spot.slashed = false →
      spot.entry ≠ some .directory → d'.get? spot.location = d.get? spot.location) :
    d'.content? path = d.content? path := by
  have hlook {e : Entry} (he : e ≠ .directory) : d'.look path = .ok e ↔ d.look path = .ok e := by
    rw [look_eq_ok_iff he, look_eq_ok_iff he]
    constructor
    · rintro ⟨spot, hspot, hentry, hslash⟩
      have hfree : d.get? spot.location ≠ some .directory := by
        rw [Ne, ← hs.directories, ← entry_of_locate hspot, hentry]
        simpa using he
      have hspot' := hs.symm.locate hspot
      refine ⟨_, hspot', ?_, hslash⟩
      rw [← hentry, entry_of_locate hspot, hfile _ hspot' hslash hfree]
    · rintro ⟨spot, hspot, hentry, hslash⟩
      refine ⟨_, hs.locate hspot, ?_, hslash⟩
      rw [hfile spot hspot hslash (by simpa [hentry] using he), ← entry_of_locate hspot, hentry]
  refine Option.ext fun bs => ?_
  rw [content?_eq_some_iff, content?_eq_some_iff]
  constructor
  · rintro ⟨e, he, hl, hbs⟩
    exact ⟨e, he, (hlook he).mp hl, hbs⟩
  · rintro ⟨e, he, hl, hbs⟩
    exact ⟨e, he, (hlook he).mpr hl, hbs⟩

end Disk
end WebHost
