import Mathlib.Data.List.Basic
import WebHost.Disk.FilePath

/-! The components of a path that has been put together from two. A path below another has that one's
components first, and behind them the steps that lead on; only a step of two dots leads up. -/
namespace WebHost.FilePath

/-- The component at the front that no name stands for. -/
def front (p : Text) : List Component :=
  if isAbsolute p then [.root]
  else if (p.splitOn '/').head? = some here then [.here]
  else []

/-- The components of a path but for the front. -/
def inner (p : Text) : List Component :=
  ((p.splitOn '/').filter fun s => ! (s.isEmpty || s = here)).map Component.ofStep

theorem foldl_marks (pieces : List Text) (start : Nat) (ms : List (Component × Nat)) :
    ((pieces.foldl (fun (start, ms) s =>
        let stop := start + s.length
        (stop + 1, if s.isEmpty || s = here then ms else (Component.ofStep s, stop) :: ms))
      (start, ms)).2.map Prod.fst).reverse =
      (ms.map Prod.fst).reverse ++
        (pieces.filter fun s => ! (s.isEmpty || s = here)).map Component.ofStep := by
  induction pieces generalizing start ms with
  | nil => simp
  | cons s pieces ih =>
    rw [List.foldl_cons, ih, List.filter_cons]
    by_cases hs : (s.isEmpty || s = here) = true
    · simp [hs]
    · simp [hs]

theorem components_eq (p : Text) : components p = front p ++ inner p := by
  have hfront : front p = ((if isAbsolute p then [(Component.root, 1)]
      else if (p.splitOn '/').head? = some here then [(Component.here, 1)]
      else []).map Prod.fst).reverse := by
    unfold front
    split
    · rfl
    · split <;> rfl
  rw [hfront]
  exact foldl_marks _ _ _

theorem splitOn_append_slash (p r : Text) :
    (p ++ '/' :: r).splitOn '/' = p.splitOn '/' ++ r.splitOn '/' :=
  List.splitOnP_append_cons p r (by simp)

theorem inner_append_slash (p r : Text) : inner (p ++ '/' :: r) = inner p ++ inner r := by
  rw [inner, splitOn_append_slash, List.filter_append, List.map_append]
  rfl

theorem isAbsolute_append {p : Text} (hp : p ≠ []) (r : Text) :
    isAbsolute (p ++ r) = isAbsolute p := by
  cases p with
  | nil => exact absurd rfl hp
  | cons c p => rfl

/-- Below the empty path begins the root. -/
theorem isAbsolute_append_slash_iff {p r : Text} :
    isAbsolute (p ++ '/' :: r) = true ↔ isAbsolute p = true ∨ p = [] := by
  cases p with
  | nil => simp [isAbsolute]
  | cons c p => simp [isAbsolute]

theorem front_append_slash {p : Text} (hp : p ≠ []) (r : Text) :
    front (p ++ '/' :: r) = front p := by
  have hhead : ((p ++ '/' :: r).splitOn '/').head? = (p.splitOn '/').head? := by
    rw [splitOn_append_slash, List.head?_append_of_ne_nil _ (List.splitOn_ne_nil '/' p)]
  rw [front, isAbsolute_append hp, hhead, front]

/-- What is below a path has its components in front. -/
theorem components_append_slash {p : Text} (hp : p ≠ []) (r : Text) :
    components (p ++ '/' :: r) = components p ++ inner r := by
  rw [components_eq, components_eq, front_append_slash hp, inner_append_slash, List.append_assoc]

theorem components_nil : components [] = [] := rfl

theorem components_prefix_append_slash (p r : Text) : components p <+: components (p ++ '/' :: r) := by
  by_cases hp : p = []
  · rw [hp, components_nil]
    exact List.nil_prefix
  · rw [components_append_slash hp]
    exact List.prefix_append _ _

theorem infix_intercalate_of_mem {α : Type} {sep s : List α} {ls : List (List α)} (h : s ∈ ls) :
    s <:+: sep.intercalate ls := by
  induction ls with
  | nil => cases h
  | cons l ls ih =>
    cases ls with
    | nil => simpa using (List.mem_singleton.mp h) ▸ List.infix_refl s
    | cons m ms =>
      rw [List.intercalate_cons_cons]
      rcases List.mem_cons.mp h with rfl | h
      · exact ((List.prefix_append _ _).trans (List.prefix_append _ _)).isInfix
      · exact (ih h).trans (List.suffix_append _ _).isInfix

/-- Only two dots lead up, and they stand in the path. -/
theorem up_infix_of_mem_components {p : Text} (h : .up ∈ components p) : up <:+: p := by
  have hfront : Component.up ∉ front p := by
    unfold front
    split
    · simp
    · split <;> simp
  rw [components_eq, List.mem_append, or_iff_right hfront] at h
  obtain ⟨s, hs, hup⟩ := List.mem_map.mp h
  have hs' : s = up := by
    unfold Component.ofStep at hup
    split at hup
    · assumption
    · cases hup
  have hmem : up ∈ p.splitOn '/' := hs' ▸ (List.mem_filter.mp hs).1
  have hjoin : ['/'].intercalate (p.splitOn '/') = p := List.intercalate_splitOn '/'
  exact hjoin ▸ infix_intercalate_of_mem hmem

end WebHost.FilePath
