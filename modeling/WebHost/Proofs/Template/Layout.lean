import Mathlib.Data.List.Induction
import WebHost.Proofs.Template
import WebHost.Proofs.Text.Lines

/-! Layouts of pages. A page comes apart into plain texts and markers in exactly one way, and
rendering puts the value of each marker in its place. -/
namespace WebHost

namespace Text
variable {c : Char} {t before rest : Text}

/-- A double mark stands in front of a single one if the text ends in the mark. -/
theorem pair_infix_concat_iff : [c, c] <:+: t ++ [c] ↔ [c, c] <:+: t ∨ t.getLast? = some c := by
  rw [List.infix_concat_iff, or_comm]
  refine or_congr_right ⟨fun h => ?_, fun h => ?_⟩
  · obtain ⟨front, hfront⟩ := h
    obtain ⟨rfl, -⟩ : front ++ [c] = t ∧ [c] = [c] := by
      refine List.append_inj' ?_ rfl
      simpa using hfront
    simp
  · obtain ⟨front, rfl⟩ := List.getLast?_eq_some_iff.mp h
    exact ⟨front, by simp⟩

theorem not_pair_infix_concat (h : ¬ [c, c] <:+: t) (hlast : t.getLast? ≠ some c) :
    ¬ [c, c] <:+: t ++ [c] := by
  rw [pair_infix_concat_iff, not_or]
  exact ⟨h, hlast⟩

/-- A double mark that stands for the first time at the end of what is before it. -/
theorem cutFrom_pair (h : ¬ [c, c] <:+: before ++ [c]) (seen rest : Text) :
    cutFrom [c, c] seen (before ++ [c, c] ++ rest) = some (seen.reverse ++ before, rest) := by
  induction before generalizing seen with
  | nil => simp [cutFrom]
  | cons d before ih =>
    rw [List.cons_append, List.infix_cons_iff, not_or] at h
    have hp : ¬ [c, c] <+: d :: (before ++ [c, c] ++ rest) := fun hp =>
      h.1 (List.prefix_of_prefix_length_le hp ⟨c :: rest, by simp⟩ (by simp))
    rw [List.cons_append, List.cons_append, cutFrom, if_neg (mt List.isPrefixOf_iff_prefix.mp hp),
      ih h.2]
    simp

theorem cutFrom_pair_eq_some {seen found : Text} (h : cutFrom [c, c] seen t = some (found, rest)) :
    ∃ before, found = seen.reverse ++ before ∧ ¬ [c, c] <:+: before ++ [c] := by
  induction t generalizing seen with
  | nil => simp [cutFrom] at h
  | cons d t ih =>
    have ht := cutFrom_eq_some h
    rw [cutFrom] at h
    split at h
    · obtain ⟨rfl, -⟩ : seen.reverse = found ∧ _ = rest := by simpa using h
      exact ⟨[], by simp, by simp [List.infix_cons_iff]⟩
    · next hp =>
      obtain ⟨before, rfl, hbefore⟩ := ih h
      refine ⟨d :: before, by simp, ?_⟩
      rw [List.cons_append, List.infix_cons_iff, not_or]
      refine ⟨fun hp' => hp ?_, hbefore⟩
      rw [List.isPrefixOf_iff_prefix]
      refine hp'.trans ⟨c :: rest, ?_⟩
      simpa using ht.symm

theorem cut?_pair (h : ¬ [c, c] <:+: before) (hlast : before.getLast? ≠ some c) (rest : Text) :
    cut? [c, c] (before ++ [c, c] ++ rest) = some (before, rest) :=
  cutFrom_pair (not_pair_infix_concat h hlast) [] rest

theorem of_cut?_pair (h : cut? [c, c] t = some (before, rest)) :
    ¬ [c, c] <:+: before ∧ before.getLast? ≠ some c := by
  obtain ⟨before', rfl, hbefore⟩ := cutFrom_pair_eq_some h
  rw [pair_infix_concat_iff, not_or] at hbefore
  exact hbefore

theorem cut?_eq_none_iff {mark : Text} : cut? mark t = none ↔ ¬ mark <:+: t := by
  refine ⟨fun h hi => ?_, fun h => ?_⟩
  · have := isSome_cut?_of_infix hi
    simp [h] at this
  · cases hc : cut? mark t with
    | none => rfl
    | some p => exact absurd ⟨p.1, p.2, (cut?_eq_some hc).symm⟩ h

end Text

namespace Values

/-- The value that the last of these pairs with the name sets. -/
def lastSet (pairs : List (Text × Text)) (name : Text) : Option Text :=
  (pairs.reverse.find? fun p => p.1 = name).map Prod.snd

theorem get?_ofPairs (pairs : List (Text × Text)) (name : Text) :
    (ofPairs pairs).get? name = lastSet pairs name := by
  induction pairs using List.reverseRecOn with
  | nil => rfl
  | append_singleton pairs p ih =>
    rw [ofPairs] at ih
    rw [ofPairs, lastSet, List.foldl_append, List.foldl_cons, List.foldl_nil, get?_set, ih,
      List.reverse_concat, List.find?_cons]
    by_cases h : p.1 = name
    · simp [h]
    · simp [h, Ne.symm h, lastSet]

end Values

namespace Template

/-- A marker that begins at the first opening and ends at the first closing. -/
structure Piece.IsFirst (p : Piece) : Prop where
  plain : ¬ opening <:+: p.plain
  plain_end : p.plain.getLast? ≠ some '\x7b'
  marker : ¬ closing <:+: p.marker
  marker_end : p.marker.getLast? ≠ some '\x7d'

/-- A page taken apart. The tail begins with an opening that nothing closes, if there is one. -/
@[ext] structure Layout where
  pieces : List Piece
  last : Text
  tail : Text
  isFirst : ∀ p ∈ pieces, p.IsFirst
  plain : ¬ opening <:+: last
  plain_end : tail ≠ [] → last.getLast? ≠ some '\x7b'
  unclosed : tail = [] ∨ ∃ rest, tail = opening ++ rest ∧ ¬ closing <:+: rest

namespace Layout

/-- The page of a layout. -/
def text (d : Layout) : Text :=
  (d.pieces.flatMap fun p => p.plain ++ opening ++ p.marker ++ closing) ++ d.last ++ d.tail

/-- The page with values in place of its markers. -/
def filled (d : Layout) (value : Text → Text) : Text :=
  (d.pieces.flatMap fun p => p.plain ++ value p.marker) ++ d.last ++ d.tail

end Layout

theorem split_of_not_infix {t : Text} (h : ¬ opening <:+: t) : split t = ([], t) := by
  rw [split]
  split
  · rfl
  · next hc => rw [Text.cut?_eq_none_iff.mpr h] at hc; cases hc

theorem split_of_unclosed {last rest : Text} (h : ¬ opening <:+: last)
    (hend : last.getLast? ≠ some '\x7b') (hrest : ¬ closing <:+: rest) :
    split (last ++ opening ++ rest) = ([], last ++ opening ++ rest) := by
  rw [split]
  split
  · rfl
  · next plain after hc =>
    rw [opening, Text.cut?_pair h hend] at hc
    obtain ⟨rfl, rfl⟩ : last = plain ∧ rest = after := by simpa using hc
    split
    · rfl
    · next hc' => rw [Text.cut?_eq_none_iff.mpr hrest] at hc'; cases hc'

theorem split_append {p : Piece} (hp : p.IsFirst) (rest : Text) :
    split (p.plain ++ opening ++ p.marker ++ closing ++ rest) =
      (p :: (split rest).1, (split rest).2) := by
  have hopen : Text.cut? opening (p.plain ++ opening ++ (p.marker ++ closing ++ rest)) =
      some (p.plain, p.marker ++ closing ++ rest) := Text.cut?_pair hp.plain hp.plain_end _
  have hclose : Text.cut? closing (p.marker ++ closing ++ rest) = some (p.marker, rest) :=
    Text.cut?_pair hp.marker hp.marker_end rest
  rw [List.append_assoc, List.append_assoc, ← List.append_assoc p.marker, split]
  split
  · next hc => rw [hopen] at hc; cases hc
  · next plain after hc =>
    obtain ⟨rfl, rfl⟩ : p.plain = plain ∧ p.marker ++ closing ++ rest = after := by
      simpa using hopen.symm.trans hc
    split
    · next hc' => rw [hclose] at hc'; cases hc'
    · next marker rest' hc' =>
      obtain ⟨rfl, rfl⟩ : p.marker = marker ∧ rest = rest' := by
        simpa using hclose.symm.trans hc'
      rfl

theorem split_tail (d : Layout) : split (d.last ++ d.tail) = ([], d.last ++ d.tail) := by
  obtain ⟨pieces, last, tail, hfirst, hplain, hend, hunclosed⟩ := d
  rcases hunclosed with rfl | ⟨rest, rfl, hrest⟩
  · simpa using split_of_not_infix hplain
  · simpa using split_of_unclosed hplain (hend (by simp [opening])) hrest

/-- Splitting the page of a layout gives the layout back. -/
theorem split_text (d : Layout) : split d.text = (d.pieces, d.last ++ d.tail) := by
  have hpieces {pieces : List Piece} (h : ∀ p ∈ pieces, p.IsFirst) :
      split ((pieces.flatMap fun p => p.plain ++ opening ++ p.marker ++ closing) ++
        (d.last ++ d.tail)) = (pieces, d.last ++ d.tail) := by
    induction pieces with
    | nil => exact split_tail d
    | cons p pieces ih =>
      rw [List.flatMap_cons, List.append_assoc, split_append (h p (by simp)),
        ih fun q hq => h q (by simp [hq])]
  rw [Layout.text, List.append_assoc, hpieces d.isFirst]

namespace Layout

theorem not_infix_append_tail {d : Layout} (h : ¬ opening <:+: d.last ++ d.tail) : d.tail = [] := by
  rcases d.unclosed with ht | ⟨rest, ht, -⟩
  · exact ht
  · exact absurd ⟨d.last, rest, by simp [ht]⟩ h

/-- The tail begins at the first opening behind the last marker. -/
theorem last_tail_inj {d e : Layout} (h : d.last ++ d.tail = e.last ++ e.tail) :
    d.last = e.last ∧ d.tail = e.tail := by
  rcases d.unclosed with hd | ⟨rest, hd, -⟩
  · have he : e.tail = [] := by
      refine not_infix_append_tail ?_
      rw [← h, hd, List.append_nil]
      exact d.plain
    simpa [hd, he] using h
  · have hcut : Text.cut? opening (e.last ++ e.tail) = some (d.last, rest) := by
      rw [← h, hd, ← List.append_assoc]
      exact Text.cut?_pair d.plain (d.plain_end (by simp [hd, opening])) rest
    rcases e.unclosed with he | ⟨rest', he, -⟩
    · rw [he, List.append_nil, Text.cut?_eq_none_iff.mpr e.plain] at hcut
      cases hcut
    · rw [he, ← List.append_assoc, opening,
        Text.cut?_pair e.plain (e.plain_end (by simp [he, opening]))] at hcut
      obtain ⟨hlast, rfl⟩ : e.last = d.last ∧ rest' = rest := by simpa using hcut
      exact ⟨hlast.symm, hd.trans he.symm⟩

theorem text_injective {d e : Layout} (h : d.text = e.text) : d = e := by
  have hsplit := (split_text d).symm.trans ((congrArg split h).trans (split_text e))
  obtain ⟨hpieces, hrest⟩ := Prod.mk.inj hsplit
  obtain ⟨hlast, htail⟩ := last_tail_inj hrest
  exact Layout.ext hpieces hlast htail

/-- A further marker in front. -/
def cons (p : Piece) (hp : p.IsFirst) (d : Layout) : Layout :=
  { d with pieces := p :: d.pieces, isFirst := by simpa using ⟨hp, d.isFirst⟩ }

theorem text_cons {p : Piece} (hp : p.IsFirst) (d : Layout) :
    (d.cons p hp).text = p.plain ++ opening ++ p.marker ++ closing ++ d.text := by
  simp [text, cons]

theorem exists_text_eq (t : Text) : ∃ d : Layout, d.text = t := by
  fun_induction split t with
  | case1 t hc =>
    exact ⟨⟨[], t, [], by simp, Text.cut?_eq_none_iff.mp hc, by simp, .inl rfl⟩, by simp [text]⟩
  | case2 t plain after hc hc' =>
    obtain ⟨hplain, hend⟩ := Text.of_cut?_pair hc
    refine ⟨⟨[], plain, opening ++ after, by simp, hplain, fun _ => hend,
      .inr ⟨after, rfl, Text.cut?_eq_none_iff.mp hc'⟩⟩, ?_⟩
    rw [Text.cut?_eq_some hc]
    simp [text]
  | case3 t plain after hc marker rest hc' pieces left hsplit ih =>
    obtain ⟨d, hd⟩ := ih
    obtain ⟨hplain, hend⟩ := Text.of_cut?_pair hc
    obtain ⟨hmarker, hend'⟩ := Text.of_cut?_pair hc'
    refine ⟨d.cons ⟨plain, marker⟩ ⟨hplain, hend, hmarker, hend'⟩, ?_⟩
    rw [text_cons, hd, Text.cut?_eq_some hc, Text.cut?_eq_some hc']
    simp

end Layout

/-- Each page has exactly one layout, and is rendered by putting into the place of each marker, just
as it is, the value that was set last for the marker's name without the blanks around it, or nothing
if none was set. -/
theorem render_fills_layout :
    (∀ t, ∃! d : Layout, d.text = t) ∧
    ∀ (d : Layout) (pairs : List (Text × Text)),
      render (Values.ofPairs pairs) d.text =
        d.filled fun marker => (Values.lastSet pairs (Text.trim marker)).getD [] := by
  refine ⟨fun t => ?_, fun d pairs => ?_⟩
  · obtain ⟨d, hd⟩ := Layout.exists_text_eq t
    exact ⟨d, hd, fun e he => Layout.text_injective (he.trans hd.symm)⟩
  · simp only [render_eq, split_text, Layout.filled, valueAt, Values.get?_ofPairs, List.append_assoc]

/-- A third brace belongs to the name in front and to the plain text behind, and an opening in a
value or without a closing stays. -/
example :
    render (Values.ofPairs [("a".toList, "1".toList), ("a".toList, "\x7b\x7ba\x7d\x7d".toList)])
      "\x7b \x7b\x7b a \x7d\x7d\x7d \x7b\x7b\x7ba\x7d\x7d \x7b\x7ba".toList =
      "\x7b \x7b\x7ba\x7d\x7d\x7d  \x7b\x7ba".toList := by cbv

end Template
end WebHost
