import WebHost.Http.Header

/-! Header lists as maps. A name is looked up by its first header. In a list that has come about by
setting headers one after the other, the names are distinct whatever their case, they stand in the
order in which they were first set and are spelled as they were then, and each has the value that
was set last. -/
namespace WebHost.Http

namespace Headers
variable {hs : Headers} {calls : List Header} {name value : Text}

def names (hs : Headers) : List Text := hs.map Header.name

theorem get?_eq_none_of_forall (h : ∀ x ∈ hs, ¬ Text.sameFolded x.name name) :
    hs.get? name = none := by
  rw [get?, Option.map_eq_none_iff, List.find?_eq_none]
  exact h

/-- A header is found behind others that have another name. -/
theorem get?_append_cons {before : Headers} (h : ∀ x ∈ before, ¬ Text.sameFolded x.name name)
    {header : Header} (hn : Text.sameFolded header.name name) (after : Headers) :
    get? (before ++ header :: after) name = some header.value := by
  have hbefore : before.find? (fun x => Text.sameFolded x.name name) = none :=
    List.find?_eq_none.mpr h
  simp [get?, List.find?_append, hbefore, hn]

/-- The first header of that name, in whatever case it is spelled, has the value. -/
def First (hs : Headers) (name value : Text) : Prop :=
  ∃ before spelling after, hs = before ++ ⟨spelling, value⟩ :: after ∧
    Text.sameFolded spelling name ∧ ∀ h ∈ before, ¬ Text.sameFolded h.name name

theorem get?_eq_some_iff : hs.get? name = some value ↔ hs.First name value := by
  constructor
  · intro h
    obtain ⟨⟨spelling, v⟩, hfind, rfl⟩ := Option.map_eq_some_iff.mp h
    obtain ⟨hname, before, after, rfl, hbefore⟩ := List.find?_eq_some_iff_append.mp hfind
    exact ⟨before, spelling, after, rfl, hname, fun g hg => by simpa using hbefore g hg⟩
  · rintro ⟨before, spelling, after, rfl, hname, hbefore⟩
    exact get?_append_cons hbefore hname after

/-- A name that is set is added at the end, unless it is there already in some spelling. -/
theorem names_set (hs : Headers) (name value : Text) :
    (hs.set name value).names =
      if hs.get? name = none then hs.names ++ [name] else hs.names := by
  induction hs with
  | nil => rfl
  | cons h hs ih =>
    simp only [names] at ih ⊢
    by_cases hn : Text.sameFolded h.name name
    · simp [set, get?, hn]
    · have hget : get? (h :: hs) name = get? hs name := by simp [get?, hn]
      rw [set, if_neg hn, List.map_cons, ih, hget, List.map_cons]
      split <;> rfl

/-- How many calls there are before the first that sets the name. -/
def firstCall (calls : List Header) (name : Text) : Nat :=
  calls.findIdx fun c => Text.sameFolded c.name name

theorem firstCall_append (h : ∃ c ∈ calls, Text.sameFolded c.name name) (others : List Header) :
    firstCall (calls ++ others) name = firstCall calls name := by
  rw [firstCall, List.findIdx_append, if_pos (List.findIdx_lt_length_of_exists h), firstCall]

/-- Setting headers in the order of the calls leaves these headers. -/
structure Follows (calls : List Header) (hs : Headers) : Prop where
  order : hs.names.Pairwise fun m n => firstCall calls m < firstCall calls n
  spelling : ∀ n ∈ hs.names,
    (calls.find? fun c => Text.sameFolded c.name n).map Header.name = some n
  value : ∀ q, hs.get? q = (calls.findRev? fun c => Text.sameFolded c.name q).map Header.value

theorem follows_nil : Follows [] [] := ⟨.nil, by simp [names], fun _ => rfl⟩

theorem Follows.exists_call (h : Follows calls hs) (hn : name ∈ hs.names) :
    ∃ c ∈ calls, Text.sameFolded c.name name := by
  obtain ⟨c, hc, -⟩ := Option.map_eq_some_iff.mp (h.spelling name hn)
  exact ⟨c, List.mem_of_find?_eq_some hc, by simpa using List.find?_some hc⟩

/-- One more call keeps the headers in step with the calls. -/
theorem Follows.set (h : Follows calls hs) (c : Header) :
    Follows (calls ++ [c]) (hs.set c.name c.value) := by
  have hold : ∀ n ∈ hs.names, firstCall (calls ++ [c]) n = firstCall calls n :=
    fun n hn => firstCall_append (h.exists_call hn) [c]
  have horder : hs.names.Pairwise fun m n =>
      firstCall (calls ++ [c]) m < firstCall (calls ++ [c]) n :=
    h.order.imp_of_mem fun hm hn hlt => by rwa [hold _ hm, hold _ hn]
  have hspelling : ∀ n ∈ hs.names,
      ((calls ++ [c]).find? fun d => Text.sameFolded d.name n).map Header.name = some n :=
    fun n hn => by
      obtain ⟨d, hd, hdn⟩ := Option.map_eq_some_iff.mp (h.spelling n hn)
      rw [List.find?_append, hd, Option.some_or, Option.map_some, hdn]
  have hvalue : ∀ q, (hs.set c.name c.value).get? q =
      ((calls ++ [c]).findRev? fun d => Text.sameFolded d.name q).map Header.value := fun q => by
    rw [get?_set, h.value q, List.findRev?_eq_find?_reverse, List.findRev?_eq_find?_reverse,
      List.reverse_append, List.reverse_singleton, List.singleton_append, List.find?_cons]
    cases Text.sameFolded c.name q <;> rfl
  by_cases hnew : hs.get? c.name = none
  · have hnone : calls.find? (fun d => Text.sameFolded d.name c.name) = none := by
      have hcalls := h.value c.name
      rw [hnew, eq_comm, Option.map_eq_none_iff, List.findRev?_eq_find?_reverse] at hcalls
      simpa using hcalls
    -- No call has set this name before, so that the first one to do it is the last.
    have hlast : firstCall (calls ++ [c]) c.name = calls.length := by
      rw [firstCall, List.findIdx_append, if_neg (by simpa using hnone)]
      simp
    refine ⟨?_, ?_, hvalue⟩
    · rw [names_set, if_pos hnew]
      refine List.pairwise_append.mpr ⟨horder, List.pairwise_singleton _ _, fun m hm n hn => ?_⟩
      obtain rfl := List.mem_singleton.mp hn
      rw [hold m hm, hlast]
      exact List.findIdx_lt_length_of_exists (h.exists_call hm)
    · rw [names_set, if_pos hnew]
      intro n hn
      rcases List.mem_append.mp hn with hn | hn
      · exact hspelling n hn
      · obtain rfl := List.mem_singleton.mp hn
        rw [List.find?_append, hnone]
        simp
  · exact ⟨by rwa [names_set, if_neg hnew], by rwa [names_set, if_neg hnew], hvalue⟩

/-- Names that have been set first at different times are different whatever their case. -/
theorem Follows.distinct (h : Follows calls hs) : (hs.names.map Text.folded).Nodup := by
  rw [List.Nodup, List.pairwise_map]
  refine h.order.imp fun {m n} hlt hfolded => ?_
  have heq : firstCall calls m = firstCall calls n := by
    simp only [firstCall, Text.sameFolded, hfolded]
  exact absurd heq (Nat.ne_of_lt hlt)

/-- Among distinct names, one that has a value has it once. -/
theorem filter_of_get? (h : (hs.names.map Text.folded).Nodup) (hv : hs.get? name = some value) :
    (hs.filter fun g => Text.sameFolded g.name name).map Header.value = [value] := by
  obtain ⟨before, spelling, after, rfl, hname, hbefore⟩ := get?_eq_some_iff.mp hv
  have hafter : ∀ g ∈ after, ¬ Text.sameFolded g.name name := fun g hg hsame => by
    simp only [names, List.map_append, List.map_cons, List.map_map] at h
    have hne := (List.nodup_cons.mp (List.nodup_append.mp h).2.1).1
    refine hne (List.mem_map.mpr ⟨g, hg, ?_⟩)
    exact (Text.sameFolded_iff.mp hsame).trans (Text.sameFolded_iff.mp hname).symm
  rw [List.filter_append, List.filter_eq_nil_iff.mpr hbefore, List.nil_append,
    List.filter_cons_of_pos (by exact hname), List.filter_eq_nil_iff.mpr hafter]
  rfl

end Headers

end WebHost.Http
