import WebHost.Proofs.Disk.FileName
import WebHost.Proofs.Text.Folding

/-! The name that a path ends in. Slashes and single dots may follow it, and neither they nor what
stands before the name make any difference to it; folding the case of letters moves nothing. -/
namespace WebHost.FilePath

/-- Text behind a name that adds no component: slashes, and single dots behind slashes. -/
inductive IsTrail : Text → Prop
  | nil : IsTrail []
  | slash {t : Text} (h : IsTrail t) : IsTrail ('/' :: t)
  | dot {t : Text} (h : IsTrail t) : IsTrail ('/' :: '.' :: t)

/-- The last component of the path is this ordinary name. -/
structure EndsIn (p name : Text) : Prop where
  isStep : IsStep name
  ne_up : name ≠ up
  parts : ∃ lead trail, IsLead lead ∧ IsTrail trail ∧ p = lead ++ name ++ trail

variable {p q t u name : Text}

theorem IsTrail.append (h : IsTrail t) (h' : IsTrail u) : IsTrail (t ++ u) := by
  induction h with
  | nil => exact h'
  | slash _ ih => exact .slash ih
  | dot _ ih => exact .dot ih

theorem IsTrail.isAlpha_eq (h : IsTrail t) {c : Char} (hc : c ∈ t) : c.isAlpha = false := by
  induction h with
  | nil => cases hc
  | slash _ ih =>
    rcases List.mem_cons.mp hc with rfl | hc
    · rfl
    · exact ih hc
  | dot _ ih =>
    rcases List.mem_cons.mp hc with rfl | hc
    · rfl
    · rcases List.mem_cons.mp hc with rfl | hc
      · rfl
      · exact ih hc

/-- Behind the slash with which a trail begins there are no pieces that count. -/
theorem IsTrail.eq_nil_or_slash (h : IsTrail t) :
    t = [] ∨ ∃ r, t = '/' :: r ∧ ∀ s ∈ r.splitOn '/', (s.isEmpty || s = here) = true := by
  induction h with
  | nil => exact .inl rfl
  | slash _ ih =>
    refine .inr ⟨_, rfl, ?_⟩
    obtain rfl | ⟨r, rfl, hr⟩ := ih
    · simp
    · intro s hs
      rw [← List.nil_append ('/' :: r), splitOn_append_slash, List.mem_append] at hs
      rcases hs with hs | hs
      · simp [List.mem_singleton.mp hs]
      · exact hr s hs
  | dot _ ih =>
    refine .inr ⟨_, rfl, ?_⟩
    obtain rfl | ⟨r, rfl, hr⟩ := ih
    · decide
    · intro s hs
      rw [← List.singleton_append, splitOn_append_slash, List.mem_append] at hs
      rcases hs with hs | hs
      · rw [List.mem_singleton.mp hs]
        rfl
      · exact hr s hs

theorem foldl_marks_snd {pieces : List Text}
    (h : ∀ s ∈ pieces, (s.isEmpty || s = here) = true) (start : Nat) (ms : List (Component × Nat)) :
    (pieces.foldl (fun (start, ms) s =>
        let stop := start + s.length
        (stop + 1, if s.isEmpty || s = here then ms else (Component.ofStep s, stop) :: ms))
      (start, ms)).2 = ms := by
  induction pieces generalizing start with
  | nil => rfl
  | cons s pieces ih =>
    rw [List.foldl_cons]
    simp only [h s (by simp), if_true]
    exact ih (fun s hs => h s (by simp [hs])) _

theorem marks_append_trail (hp : p ≠ []) (ht : IsTrail t) : marks (p ++ t) = marks p := by
  obtain rfl | ⟨r, rfl, hr⟩ := ht.eq_nil_or_slash
  · rw [List.append_nil]
  · have hhead : (p.splitOn '/' ++ r.splitOn '/').head? = (p.splitOn '/').head? :=
      List.head?_append_of_ne_nil _ (List.splitOn_ne_nil '/' p)
    simp only [marks, splitOn_append_slash, isAbsolute_append hp, hhead, List.foldl_append]
    exact foldl_marks_snd hr _ _

theorem fileName?_append_trail (hp : p ≠ []) (ht : IsTrail t) :
    fileName? (p ++ t) = fileName? p := by
  rw [fileName?, marks_append_trail hp ht, fileName?]

theorem EndsIn.fileName?_eq (h : EndsIn p name) : fileName? p = some name := by
  obtain ⟨lead, trail, hl, ht, rfl⟩ := h.parts
  have hne : lead ++ name ≠ [] := by simp [h.isStep.ne_nil]
  obtain ⟨ms, hms⟩ := marks_append hl h.isStep
  rw [fileName?_append_trail hne ht, fileName?, hms, Component.ofStep, if_neg h.ne_up]

theorem endsIn_self (hs : IsStep name) (hup : name ≠ up) : EndsIn name name :=
  ⟨hs, hup, [], [], .inl rfl, .nil, by simp⟩

theorem EndsIn.append_trail (h : EndsIn p name) (ht : IsTrail t) : EndsIn (p ++ t) name := by
  obtain ⟨lead, trail, hl, htrail, rfl⟩ := h.parts
  exact ⟨h.isStep, h.ne_up, lead, trail ++ t, hl, htrail.append ht, by simp⟩

/-- A path below another ends in its own name. -/
theorem EndsIn.below (h : EndsIn p name) (root : Text) : EndsIn (root ++ '/' :: p) name := by
  obtain ⟨lead, trail, hl, ht, rfl⟩ := h.parts
  refine ⟨h.isStep, h.ne_up, root ++ '/' :: lead, trail, .inr ?_, ht, by simp⟩
  obtain rfl | ⟨l, rfl⟩ := hl
  · exact ⟨root, rfl⟩
  · exact ⟨root ++ '/' :: l, by simp⟩

/-- Exactly the paths that end in an ordinary name have a file name, and it is that one. -/
theorem fileName?_eq_some_iff : fileName? p = some name ↔ EndsIn p name := by
  refine ⟨fun h => ?_, EndsIn.fileName?_eq⟩
  induction hn : p.length using Nat.strongRecOn generalizing p with
  | _ n ih =>
  subst hn
  obtain ⟨lead, s, rfl, hl, hs⟩ := exists_isLead p
  by_cases hstep : s ≠ [] ∧ s ≠ here
  · have hs : IsStep s := ⟨hstep.1, hstep.2, hs⟩
    obtain ⟨ms, hms⟩ := marks_append hl hs
    rw [fileName?, hms, Component.ofStep] at h
    split at h
    · next n hn =>
      split at hn
      · cases hn
      · next hup =>
        obtain ⟨rfl⟩ := Option.some.inj h
        obtain ⟨⟨rfl⟩, -⟩ := hn
        exact ⟨hs, hup, lead, [], hl, .nil, by simp⟩
    · cases h
  · -- The last stretch says nothing, and the name is the one that is ended in before it.
    have hempty : s = [] ∨ s = here := by
      by_contra hno
      exact hstep (not_or.mp hno)
    have htrail : IsTrail ('/' :: s) := by
      rcases hempty with rfl | rfl
      · exact .slash .nil
      · exact .dot .nil
    have hbefore : ∃ l, l ≠ [] ∧ lead = l ++ ['/'] := by
      obtain rfl | ⟨l, rfl⟩ := hl
      · rcases hempty with rfl | rfl <;> cases h
      · refine ⟨l, ?_, rfl⟩
        rintro rfl
        rcases hempty with rfl | rfl <;> cases h
    obtain ⟨l, hne, rfl⟩ := hbefore
    rw [List.append_assoc, List.singleton_append] at h ⊢
    rw [fileName?_append_trail hne htrail] at h
    exact (ih l.length (by simp) h rfl).append_trail htrail

theorem EndsIn.extension?_eq (h : EndsIn p name) : extension? p = (splitName name).2 := by
  rw [extension?, fileName?_eq_some_iff.mpr h]
  rfl

/-- Another spelling of a path ends in another spelling of the name. -/
theorem EndsIn.of_folded (h : EndsIn p name) (hq : Text.folded q = Text.folded p) :
    ∃ name', EndsIn q name' ∧ Text.folded name' = Text.folded name := by
  obtain ⟨lead, trail, hl, ht, rfl⟩ := h.parts
  rw [Text.folded_append, Text.folded_append] at hq
  obtain ⟨front, trail', rfl, hfront, htrail⟩ := List.map_eq_append_iff.mp hq
  obtain ⟨lead', name', rfl, hlead, hname⟩ := List.map_eq_append_iff.mp hfront
  obtain rfl := Text.eq_of_folded_eq (fun c hc => ht.isAlpha_eq hc) htrail
  have hplain {s : Text} (hs : ∀ c ∈ s, c.isAlpha = false) (hne : name ≠ s) : name' ≠ s := by
    rintro rfl
    exact hne (Text.eq_of_folded_eq hs hname.symm)
  have hdot : ∀ c ∈ ['.'], c.isAlpha = false := List.forall_mem_singleton.mpr rfl
  have hdots : ∀ c ∈ ['.', '.'], c.isAlpha = false := List.forall_mem_cons.mpr ⟨rfl, hdot⟩
  refine ⟨name', ⟨⟨hplain (by simp) h.isStep.ne_nil, hplain hdot h.isStep.ne_here, ?_⟩,
    hplain hdots h.ne_up, lead', trail', ?_, ht, rfl⟩, hname⟩
  · rw [← Text.mem_folded_iff rfl, Text.folded, hname]
    exact fun hmem => h.isStep.unslashed ((Text.mem_folded_iff rfl).mp hmem)
  · obtain rfl | ⟨l, rfl⟩ := hl
    · exact .inl (by simpa [Text.folded] using hlead)
    · rw [Text.folded_append] at hlead
      obtain ⟨l', slash, rfl, -, hslash⟩ := List.map_eq_append_iff.mp hlead
      rw [Text.eq_of_folded_eq (t := ['/']) (by simp) hslash]
      exact .inr ⟨l', rfl⟩

theorem dropWhile_folded (t : Text) :
    (Text.folded t).dropWhile (· != '.') = Text.folded (t.dropWhile (· != '.')) := by
  have hdot : (fun c : Char => c.toLower != '.') = (· != '.') := by
    funext c
    rw [Bool.eq_iff_iff, bne_iff_ne, bne_iff_ne, ne_eq, ne_eq, Text.toLower_eq_iff rfl]
  rw [Text.folded, List.dropWhile_map]
  exact congrArg (fun f => (t.dropWhile f).map Char.toLower) hdot

/-- The extension is folded with the name. -/
theorem splitName_folded (n : Text) :
    (splitName (Text.folded n)).2 = (splitName n).2.map Text.folded := by
  have hrest : (Text.folded n).reverse.dropWhile (· != '.') =
      Text.folded (n.reverse.dropWhile (· != '.')) := by
    rw [← dropWhile_folded, Text.folded, ← List.map_reverse]
    rfl
  simp only [splitName, hrest]
  rcases n.reverse.dropWhile (· != '.') with _ | ⟨c, _ | ⟨d, rest⟩⟩
  · rfl
  · rfl
  · simp [Text.folded, List.map_drop]

end WebHost.FilePath
