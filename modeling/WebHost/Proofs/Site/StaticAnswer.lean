import WebHost.Proofs.Text.Lines
import WebHost.Site.StaticFile

/-! Answers that are whole files, where anything may happen between the look at a file and its
reading. What the look shows and what the reading gives decide the answer, and an answer that is not
the file says nothing of what is in it. -/
namespace WebHost

/-- It is a regular file. -/
def Entry.IsFile (e : Entry) : Prop := ∃ content, e = .file content

namespace StaticFile
open Http
variable {limit : Nat} {path : Text} {before after : Files}

/-- The answer for a file that is looked at among the files `before` and read among those `after`. -/
def serveBetween (before after : Files) (limit : Nat) (path : Text) : Response :=
  answer limit path (before path) (after.read path)

example (files : Files) : serve files limit path = serveBetween files files limit path := rfl

/-- The look shows that there is nothing, or no regular file. -/
def Misses (before : Files) (path : Text) : Prop :=
  before path = .error .notFound ∨ ∃ e, before path = .ok e ∧ ¬ e.IsFile

/-- The look shows a regular file that is not too large, and the reading gives `content`, which is
not too large either. -/
structure Gives (before after : Files) (limit : Nat) (path : Text) (content : Bytes) : Prop where
  seen : ∃ held, before path = .ok (.file held) ∧ held.length ≤ limit
  read : after.read path = .ok content
  fits : content.length ≤ limit

theorem hasDotDot_iff : hasDotDot path ↔ FilePath.up <:+: path := by
  constructor
  · intro h
    obtain ⟨⟨front, rest⟩, hcut⟩ := Option.isSome_iff_exists.mp h
    exact ⟨front, rest, (Text.cut?_eq_some hcut).symm⟩
  · exact Text.isSome_cut?_of_infix

theorem serveBetween_of_dots (h : FilePath.up <:+: path) (before after : Files) (limit : Nat) :
    serveBetween before after limit path = badPath :=
  if_pos (hasDotDot_iff.mpr h)

theorem Gives.not_misses {content : Bytes} (h : Gives before after limit path content) :
    ¬ Misses before path := by
  obtain ⟨held, hheld, -⟩ := h.seen
  rintro (hnone | ⟨e, he, hno⟩)
  · rw [hheld] at hnone
    cases hnone
  · obtain rfl : .file held = e := by simpa [hheld] using he
    exact hno ⟨held, rfl⟩

theorem Gives.unique {content other : Bytes} (h : Gives before after limit path content)
    (h' : Gives before after limit path other) : content = other :=
  Except.ok.inj (h.read.symm.trans h'.read)

section
variable (hdots : ¬ FilePath.up <:+: path)
include hdots

theorem serveBetween_eq (before after : Files) (limit : Nat) :
    serveBetween before after limit path =
      match before path with
      | .ok .directory | .ok .sink | .error .notFound => missing
      | .error _ => unreadable
      | .ok (.file held) =>
        if held.length > limit then unreadable
        else
          match after.read path with
          | .error _ => unreadable
          | .ok content =>
            if content.length > limit then unreadable
            else .typed .ok (contentType path) content :=
  if_neg (mt hasDotDot_iff.mp hdots)

theorem serveBetween_of_misses (h : Misses before path) (after : Files) (limit : Nat) :
    serveBetween before after limit path = missing := by
  rw [serveBetween_eq hdots]
  rcases h with hnone | ⟨e, he, hno⟩
  · rw [hnone]
  · rw [he]
    cases e with
    | directory | sink => rfl
    | file held => exact absurd ⟨held, rfl⟩ hno

theorem serveBetween_of_gives {content : Bytes} (h : Gives before after limit path content) :
    serveBetween before after limit path = .typed .ok (contentType path) content := by
  obtain ⟨⟨held, hheld, hseen⟩, hread, hfits⟩ := h
  simp only [serveBetween_eq hdots, hheld, hread, if_neg (Nat.not_lt.mpr hseen),
    if_neg (Nat.not_lt.mpr hfits)]

/-- Whatever else there is to see or to read, the answer is the same. -/
theorem serveBetween_of_neither (hm : ¬ Misses before path)
    (hg : ∀ content, ¬ Gives before after limit path content) :
    serveBetween before after limit path = unreadable := by
  rw [serveBetween_eq hdots]
  rcases hseen : before path with k | e
  · have hk : k ≠ .notFound := fun hk => hm (.inl (hk ▸ hseen))
    cases k <;> first | rfl | exact absurd rfl hk
  · cases e with
    | directory | sink => exact absurd (.inr ⟨_, hseen, fun ⟨_, hf⟩ => by cases hf⟩) hm
    | file held =>
      simp only
      split
      · rfl
      · next hsmall =>
        split
        · rfl
        · next content hread =>
          split
          · rfl
          · next hfits =>
            exact absurd ⟨⟨held, hseen, Nat.not_lt.mp hsmall⟩, hread, Nat.not_lt.mp hfits⟩
              (hg content)

theorem serveBetween_cases (before after : Files) (limit : Nat) :
    Misses before path ∧ serveBetween before after limit path = missing ∨
      (∃ content, Gives before after limit path content ∧
        serveBetween before after limit path = .typed .ok (contentType path) content) ∨
      ¬ Misses before path ∧ (∀ content, ¬ Gives before after limit path content) ∧
        serveBetween before after limit path = unreadable := by
  by_cases hm : Misses before path
  · exact .inl ⟨hm, serveBetween_of_misses hdots hm after limit⟩
  · by_cases hg : ∃ content, Gives before after limit path content
    · obtain ⟨content, hg⟩ := hg
      exact .inr (.inl ⟨content, hg, serveBetween_of_gives hdots hg⟩)
    · rw [not_exists] at hg
      exact .inr (.inr ⟨hm, hg, serveBetween_of_neither hdots hm hg⟩)

end

theorem gives_of_status_eq_ok (h : (serveBetween before after limit path).status = .ok) :
    ∃ content, Gives before after limit path content ∧
      serveBetween before after limit path = .typed .ok (contentType path) content := by
  by_cases hdots : FilePath.up <:+: path
  · rw [serveBetween_of_dots hdots] at h
    exact absurd h (by decide)
  · rcases serveBetween_cases hdots before after limit with ⟨-, hr⟩ | hg | ⟨-, -, hr⟩
    · rw [hr] at h
      exact absurd h (by decide)
    · exact hg
    · rw [hr] at h
      exact absurd h (by decide)

/-- The answers that are not the file. -/
def refusals : List Response := [badPath, missing, unreadable]

theorem mem_refusals_of_status_ne (h : (serveBetween before after limit path).status ≠ .ok) :
    serveBetween before after limit path ∈ refusals := by
  by_cases hdots : FilePath.up <:+: path
  · simp [serveBetween_of_dots hdots, refusals]
  · rcases serveBetween_cases hdots before after limit with ⟨-, hr⟩ | ⟨content, -, hr⟩ | ⟨-, -, hr⟩
    · simp [hr, refusals]
    · exact absurd (congrArg Response.status hr) h
    · simp [hr, refusals]

theorem eq_of_mem_refusals : ∀ r ∈ refusals, ∀ r' ∈ refusals, r'.status = r.status → r' = r := by
  decide

/-- A path with two dots is refused, whatever files there are. Any other is missing exactly if the
look shows nothing or no regular file; it is served exactly if a regular file is seen and can be
read, and both times there is not too much of it; and else it is unreadable. What is served is what
has been read, with the content type of the path, and never more than the limit. An answer that is
not the file depends on its status alone, so that it shows nothing of any file. -/
theorem file_is_served_or_refused (limit : Nat) (path : Text) (before after : Files) :
    let r := serveBetween before after limit path
    (FilePath.up <:+: path → r.status = .badRequest ∧
      ∀ before' after', serveBetween before' after' limit path = r) ∧
    (¬ FilePath.up <:+: path →
      (r.status = .notFound ↔ Misses before path) ∧
      (r.status = .ok ↔ ∃ content, Gives before after limit path content) ∧
      (∀ content, Gives before after limit path content →
        r.body = some content ∧ r.header? Response.contentType = some (contentType path)) ∧
      (r.status = .internalServerError ↔
        ¬ Misses before path ∧ ∀ content, ¬ Gives before after limit path content)) ∧
    (r.status ≠ .ok → ∀ before' after' limit' path',
      (serveBetween before' after' limit' path').status = r.status →
        serveBetween before' after' limit' path' = r) ∧
    (r.status = .ok → ∃ content, r.body = some content ∧ content.length ≤ limit) := by
  intro r
  refine ⟨fun hdots => ?_, fun hdots => ?_, fun hne before' after' limit' path' hsame => ?_, ?_⟩
  · have hr : r = badPath := serveBetween_of_dots hdots before after limit
    exact ⟨by rw [hr]; rfl, fun before' after' => by rw [hr, serveBetween_of_dots hdots]⟩
  · rcases serveBetween_cases hdots before after limit with
      ⟨hm, hr⟩ | ⟨content, hg, hr⟩ | ⟨hm, hg, hr⟩
    · have hnone : ¬ ∃ content, Gives before after limit path content :=
        fun ⟨_, hg⟩ => hg.not_misses hm
      have hstatus : r.status = .notFound := congrArg Response.status hr
      rw [hstatus]
      exact ⟨iff_of_true rfl hm, iff_of_false (by decide) hnone,
        fun content hg => absurd ⟨content, hg⟩ hnone,
        iff_of_false (by decide) fun h => h.1 hm⟩
    · have hstatus : r.status = .ok := congrArg Response.status hr
      rw [hstatus]
      refine ⟨iff_of_false (by decide) hg.not_misses, iff_of_true rfl ⟨content, hg⟩,
        fun other hother => ?_, iff_of_false (by decide) fun h => h.2 content hg⟩
      obtain rfl := hg.unique hother
      exact ⟨congrArg Response.body hr,
        congrArg (fun r => r.header? Response.contentType) hr⟩
    · have hstatus : r.status = .internalServerError := congrArg Response.status hr
      rw [hstatus]
      exact ⟨iff_of_false (by decide) hm, iff_of_false (by decide) (not_exists.mpr hg),
        fun content h => absurd h (hg content), iff_of_true rfl ⟨hm, hg⟩⟩
  · exact eq_of_mem_refusals _ (mem_refusals_of_status_ne hne) _
      (mem_refusals_of_status_ne (hsame ▸ hne)) hsame
  · intro hok
    obtain ⟨content, hg, hr⟩ := gives_of_status_eq_ok hok
    exact ⟨content, congrArg Response.body hr, hg.fits⟩

end StaticFile
end WebHost
