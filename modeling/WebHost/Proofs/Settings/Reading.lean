import WebHost.Proofs.Settings.Documented
import WebHost.Proofs.Text.Lines

/-! Settings read from words that spell them. A field that is spelled has the value that the words
give it, whatever the environment says; any other has its value from its own variable, or else the
default. -/
namespace WebHost.CommandLine
open Settings (Field Value)

/-- The ways to give a field the value that it has in `c`. -/
inductive Spelling (c : Settings) : Field → List Text → Prop
  | joined (f : Field) :
      Spelling c f ["--".toList ++ f.documented.option ++ '=' :: (f.value c).print]
  | apart (f : Field) (h : (f.value c).print.head? ≠ some '-') :
      Spelling c f ["--".toList ++ f.documented.option, (f.value c).print]
  | short : Spelling c .port ["-p".toList, Text.decimal c.port.toNat]
  | shortJoined : Spelling c .port ["-p".toList ++ Text.decimal c.port.toNat]
  | shortEquals : Spelling c .port ["-p=".toList ++ Text.decimal c.port.toNat]

/-- Words that give these fields, one after the other, the values that they have in `c`. -/
inductive Spells (c : Settings) : List Field → List Text → Prop
  | nil : Spells c [] []
  | cons {f : Field} {fields : List Field} {words more : List Text} (h : Spelling c f words)
      (h' : Spells c fields more) : Spells c (f :: fields) (words ++ more)

section Words
variable {t name : Text}

theorem ofText_plain (h : t.head? ≠ some '-') : Word.ofText t = .plain t := by
  unfold Word.ofText
  split <;> simp_all

theorem ofText_dashes (h : t ≠ []) :
    Word.ofText ("--".toList ++ t) = match Text.cut? ['='] t with
      | some (name, value) => .long name (some value)
      | none => .long t none := by
  cases t with
  | nil => exact absurd rfl h
  | cons c t => rfl

theorem ofText_long (hne : name ≠ []) (heq : '=' ∉ name) :
    Word.ofText ("--".toList ++ name) = .long name none := by
  rw [ofText_dashes hne, Text.cut?_of_not_mem heq]

theorem ofText_long_value (heq : '=' ∉ name) (value : Text) :
    Word.ofText ("--".toList ++ name ++ '=' :: value) = .long name (some value) := by
  rw [List.append_assoc, ofText_dashes (by simp), Text.cut?_append_of_not_mem heq]

theorem option_ne_nil (f : Field) : f.documented.option ≠ [] := by cases f <;> decide

theorem equals_not_mem_option (f : Field) : '=' ∉ f.documented.option := by cases f <;> decide

/-- A printed number begins with a digit. -/
theorem exists_decimal (n : Nat) : ∃ c r, Text.decimal n = c :: r ∧ c.isDigit := by
  have h := Text.isNumeral_decimal n
  cases hd : Text.decimal n with
  | nil => exact absurd hd h.ne_nil
  | cons c r => exact ⟨c, r, rfl, h.isDigit (hd ▸ List.mem_cons_self ..)⟩

theorem head?_decimal_ne (n : Nat) : (Text.decimal n).head? ≠ some '-' := by
  obtain ⟨c, digits, hd, hc⟩ := exists_decimal n
  rw [hd, List.head?_cons]
  rintro ⟨⟩
  simp at hc

end Words

namespace Reader
variable {c : Settings} {chosen : List Field} {r : Reader} {f : Field} {t : Text}

/-- What is known of a field by the words that have given the fields `chosen`. -/
structure Known (c : Settings) (chosen : List Field) (r : Reader) (f : Field) : Prop where
  given_iff : f ∈ r.given ↔ f ∈ chosen
  value_eq : f.value r.settings = f.value (if f ∈ chosen then c else {})

/-- A reader of words that have given the fields `chosen`, with nothing left open. -/
structure Settled (c : Settings) (chosen : List Field) (r : Reader) : Prop where
  known : ∀ f, Known c chosen r f
  waiting_eq : r.waiting = none
  escaped_eq : r.escaped = false

/-- A reader of such words of which the last may still have to be looked at. -/
structure Settles (c : Settings) (chosen : List Field) (r : Reader) : Prop where
  escaped_eq : r.escaped = false
  settle_eq : ∃ r', r.settle = .ok r' ∧ Settled c chosen r'

theorem take_eq_ok {s : Settings} (hf : f ∉ r.given) (hm : Value.Meant t (f.value s)) :
    ∃ s', r.take f t = .ok { r with settings := s', given := f :: r.given } ∧
      f.value s' = f.value s ∧ ∀ g, g ≠ f → g.value s' = g.value r.settings := by
  obtain ⟨s', hput⟩ := Settings.exists_put? hm r.settings
  obtain ⟨hm', hrest⟩ := Settings.value_of_put? hput
  refine ⟨s', ?_, Settings.value_eq_of_meant hm' hm, hrest⟩
  simp [take, hf, hput]

theorem take_eq_error (hf : f ∉ r.given) (hm : ∀ s, ¬ Value.Meant t (f.value s)) :
    r.take f t = .error .badValue := by
  cases hput : r.settings.put? f t with
  | none => simp [take, hf, hput]
  | some s' => exact absurd (Settings.value_of_put? hput).1 (hm s')

theorem Settled.settles (h : Settled c chosen r) : Settles c chosen r where
  escaped_eq := h.escaped_eq
  settle_eq := ⟨r, by rw [settle, h.waiting_eq], h⟩

/-- A field that has not been given is given by its printed value. -/
theorem Settled.take (h : Settled c chosen r) (hf : f ∉ chosen) :
    ∃ r', r.take f (f.value c).print = .ok r' ∧ Settled c (f :: chosen) r' := by
  obtain ⟨s', htake, hvalue, hrest⟩ :=
    take_eq_ok (mt (h.known f).given_iff.mp hf) (Value.meant_print (f.value c))
  refine ⟨_, htake, fun g => ⟨?_, ?_⟩, h.waiting_eq, h.escaped_eq⟩
  · rw [List.mem_cons, List.mem_cons, (h.known g).given_iff]
  · by_cases hg : g = f
    · subst hg
      rw [if_pos (List.mem_cons_self ..)]
      exact hvalue
    · simp only [List.mem_cons, hg, false_or]
      rw [hrest g hg, (h.known g).value_eq]

/-- A word that gives a field its value settles what was open before it. -/
theorem Settles.foldlM_joined {word : Text} (h : Settles c chosen r) (hf : f ∉ chosen)
    (hword : r.step word = r.option f (some (f.value c).print)) :
    ∃ r', [word].foldlM step r = .ok r' ∧ Settles c (f :: chosen) r' := by
  obtain ⟨r₁, hsettle, h₁⟩ := h.settle_eq
  obtain ⟨r', htake, h'⟩ := h₁.take hf
  refine ⟨r', ?_, h'.settles⟩
  rw [List.foldlM_cons, hword, option, hsettle]
  show (r₁.take f _ >>= fun r => [].foldlM step r) = _
  rw [htake]
  rfl

/-- So does a word that names a field, whose value is then the next word. -/
theorem Settles.foldlM_apart {word : Text} (h : Settles c chosen r) (hf : f ∉ chosen)
    (hword : r.step word = r.option f none) (hplain : (f.value c).print.head? ≠ some '-') :
    ∃ r', [word, (f.value c).print].foldlM step r = .ok r' ∧ Settles c (f :: chosen) r' := by
  obtain ⟨r₁, hsettle, h₁⟩ := h.settle_eq
  obtain ⟨r', htake, h'⟩ := h₁.take hf
  have hnamed : r.step word = .ok { r₁ with waiting := some (f, none) } := by
    rw [hword, option, hsettle]
    rfl
  have hvalued : step { r₁ with waiting := some (f, none) } (f.value c).print =
      .ok { r₁ with waiting := some (f, some (f.value c).print) } := by
    simp only [step, h₁.escaped_eq, ofText_plain hplain]
    rfl
  -- The value is only looked at when the next option comes or the words end.
  refine ⟨{ r₁ with waiting := some (f, some (f.value c).print) }, ?_, h₁.escaped_eq, r', ?_, h'⟩
  · rw [List.foldlM_cons, hnamed]
    show [_].foldlM step _ = _
    rw [List.foldlM_cons, hvalued]
    rfl
  · rw [← htake, settle, ← h₁.waiting_eq]

theorem step_long (he : r.escaped = false) :
    r.step ("--".toList ++ f.documented.option) = r.option f none := by
  simp only [step, he, ofText_long (option_ne_nil f) (equals_not_mem_option f), long,
    Field.ofOption?_option]
  rfl

theorem step_long_value (he : r.escaped = false) (value : Text) :
    r.step ("--".toList ++ f.documented.option ++ '=' :: value) = r.option f (some value) := by
  simp only [step, he, ofText_long_value (equals_not_mem_option f), long, Field.ofOption?_option]
  rfl

theorem step_short (he : r.escaped = false) (rest : Text) :
    r.step ("-p".toList ++ rest) = r.option .port (shortValue rest) := by
  rw [step, he]
  rfl

theorem shortValue_decimal (n : Nat) : shortValue (Text.decimal n) = some (Text.decimal n) := by
  obtain ⟨c, digits, hd, hc⟩ := exists_decimal n
  rw [hd, shortValue]
  · simp
  · rintro rest ⟨⟩
    simp at hc

/-- Words that give one more field its value. -/
theorem foldlM_step_of_spelling {words : List Text} (h : Settles c chosen r) (hf : f ∉ chosen)
    (hs : Spelling c f words) :
    ∃ r', words.foldlM step r = .ok r' ∧ Settles c (f :: chosen) r' := by
  cases hs with
  | joined => exact h.foldlM_joined hf (step_long_value h.escaped_eq _)
  | apart _ hplain => exact h.foldlM_apart hf (step_long h.escaped_eq) hplain
  | short => exact h.foldlM_apart hf (step_short h.escaped_eq []) (head?_decimal_ne _)
  | shortJoined =>
    refine h.foldlM_joined hf ((step_short h.escaped_eq _).trans ?_)
    rw [shortValue_decimal]
    rfl
  | shortEquals => exact h.foldlM_joined hf (step_short h.escaped_eq ('=' :: _))

/-- Words that give fields their values that have not been given before. -/
theorem foldlM_step_of_spells {fields : List Field} {words : List Text} (hs : Spells c fields words)
    (h : Settles c chosen r) (hn : fields.Nodup) (hd : ∀ f ∈ fields, f ∉ chosen) :
    ∃ r', words.foldlM step r = .ok r' ∧ Settles c (fields.reverse ++ chosen) r' := by
  induction hs generalizing chosen r with
  | nil => exact ⟨r, rfl, h⟩
  | @cons f fields words more hf _ ih =>
    obtain ⟨hfresh, hn⟩ := List.nodup_cons.mp hn
    obtain ⟨r₁, hwords, h₁⟩ := foldlM_step_of_spelling h (hd f (List.mem_cons_self ..)) hf
    obtain ⟨r', hmore, h'⟩ := ih h₁ hn fun g hg hmem => by
      rcases List.mem_cons.mp hmem with rfl | hmem
      · exact hfresh hg
      · exact hd g (List.mem_cons_of_mem _ hg) hmem
    refine ⟨r', ?_, by simpa using h'⟩
    rw [List.foldlM_append, hwords]
    exact hmore

end Reader

/-- The value of a field in `s` is from the source that counts. -/
def FromSource (c : Settings) (chosen : List Field) (environment : List (Text × Text))
    (s : Settings) (f : Field) : Prop :=
  if f ∈ chosen then f.value s = f.value c
  else
    match environment.lookup f.documented.environment with
    | some t => Value.Meant t (f.value s)
    | none => f.value s = f.value {}

/-- The variable of a field that counts has no meaning as its value. -/
def Unreadable (chosen : List Field) (environment : List (Text × Text)) (f : Field) : Prop :=
  f ∉ chosen ∧ ∃ t, environment.lookup f.documented.environment = some t ∧
    ∀ s, ¬ Value.Meant t (f.value s)

section Sources
variable {c s s' : Settings} {chosen : List Field} {environment : List (Text × Text)} {f : Field}

theorem FromSource.congr (h : FromSource c chosen environment s f) (hv : f.value s' = f.value s) :
    FromSource c chosen environment s' f := by
  unfold FromSource at h ⊢
  rwa [hv]

theorem FromSource.value_eq (h : FromSource c chosen environment s f)
    (h' : FromSource c chosen environment s' f) : f.value s = f.value s' := by
  unfold FromSource at h h'
  split at h
  · next hf =>
    rw [if_pos hf] at h'
    rw [h, h']
  · next hf =>
    rw [if_neg hf] at h'
    split at h
    · next t ht =>
      rw [ht] at h'
      exact Settings.value_eq_of_meant h h'
    · next ht =>
      rw [ht] at h'
      rw [h, h']

theorem not_fromSource (h : Unreadable chosen environment f) :
    ¬ FromSource c chosen environment s f := by
  obtain ⟨hf, t, ht, hm⟩ := h
  unfold FromSource
  rw [if_neg hf, ht]
  exact hm s

end Sources

namespace Reader
variable {c : Settings} {chosen : List Field} {r : Reader} {f : Field}

/-- Looking up one field sets that field from its source and leaves the others, or there is no
meaning in its variable. -/
theorem consult_cases (environment : List (Text × Text)) (h : Known c chosen r f) :
    (∃ r', r.consult environment f = .ok r' ∧ FromSource c chosen environment r'.settings f ∧
      ∀ g, g ≠ f → g.value r'.settings = g.value r.settings ∧ (g ∈ r'.given ↔ g ∈ r.given)) ∨
    (r.consult environment f = .error .badValue ∧ Unreadable chosen environment f) := by
  have hvalue := h.value_eq
  unfold consult FromSource Unreadable
  by_cases hf : f ∈ chosen
  · have hgiven := h.given_iff.mpr hf
    rw [if_pos hf] at hvalue
    exact .inl ⟨r, by simp [hgiven], by rwa [if_pos hf], fun g _ => ⟨rfl, Iff.rfl⟩⟩
  · have hgiven := mt h.given_iff.mp hf
    rw [if_neg hf] at hvalue
    simp only [List.contains_eq_mem, hgiven, decide_false, Bool.false_eq_true, if_false, hf,
      not_false_eq_true, true_and, Field.variableName_eq]
    cases ht : environment.lookup f.documented.environment with
    | none => exact .inl ⟨r, rfl, hvalue, fun g _ => ⟨rfl, Iff.rfl⟩⟩
    | some t =>
      by_cases hm : ∃ s, Value.Meant t (f.value s)
      · obtain ⟨s, hm⟩ := hm
        obtain ⟨s', htake, hs', hrest⟩ := take_eq_ok hgiven hm
        refine .inl ⟨_, htake, hs' ▸ hm, fun g hg => ⟨hrest g hg, ?_⟩⟩
        simp [hg]
      · rw [not_exists] at hm
        exact .inr ⟨take_eq_error hgiven hm, t, rfl, hm⟩

theorem foldlM_consult (environment : List (Text × Text)) {fields : List Field}
    (hn : fields.Nodup) (h : ∀ f ∈ fields, Known c chosen r f) :
    (∃ r', fields.foldlM (consult environment) r = .ok r' ∧
      (∀ f ∈ fields, FromSource c chosen environment r'.settings f) ∧
      ∀ f ∉ fields, f.value r'.settings = f.value r.settings) ∨
    (fields.foldlM (consult environment) r = .error .badValue ∧
      ∃ f ∈ fields, Unreadable chosen environment f) := by
  induction fields generalizing r with
  | nil => exact .inl ⟨r, rfl, by simp, fun _ _ => rfl⟩
  | cons f fields ih =>
    obtain ⟨hfresh, hn⟩ := List.nodup_cons.mp hn
    rw [List.foldlM_cons]
    obtain ⟨r₁, hconsult, hsource, hrest⟩ | ⟨hconsult, hbad⟩ :=
      consult_cases environment (h f (List.mem_cons_self ..))
    · have hne {g : Field} (hg : g ∈ fields) : g ≠ f := fun heq => hfresh (heq ▸ hg)
      have h₁ : ∀ g ∈ fields, Known c chosen r₁ g := fun g hg => by
        have hg' := h g (List.mem_cons_of_mem _ hg)
        obtain ⟨hv, hmem⟩ := hrest g (hne hg)
        exact ⟨hmem.trans hg'.given_iff, hv.trans hg'.value_eq⟩
      rw [hconsult]
      obtain ⟨r', hfold, hsources, hkept⟩ | ⟨hfold, g, hg, hbad⟩ := ih hn h₁
      · refine .inl ⟨r', hfold, fun g hg => ?_, fun g hg => ?_⟩
        · rcases List.mem_cons.mp hg with rfl | hg
          · exact hsource.congr (hkept g hfresh)
          · exact hsources g hg
        · rw [List.mem_cons, not_or] at hg
          rw [hkept g hg.2, (hrest g hg.1).1]
      · exact .inr ⟨hfold, g, List.mem_cons_of_mem _ hg, hbad⟩
    · rw [hconsult]
      exact .inr ⟨rfl, f, List.mem_cons_self .., hbad⟩

end Reader

section Read
variable {c : Settings} {chosen : List Field} {words : List Text}

theorem settles_start (c : Settings) : Reader.Settles c [] {} :=
  Reader.Settled.settles ⟨fun _ => ⟨Iff.rfl, rfl⟩, rfl, rfl⟩

/-- Reading gives settings with each field from its source, or some variable that counts has no
meaning. -/
theorem read_cases (hs : Spells c chosen words) (hn : chosen.Nodup)
    (environment : List (Text × Text)) :
    (∃ s, read words environment = .ok s ∧ ∀ f, FromSource c chosen environment s f) ∨
    (read words environment = .error .badValue ∧ ∃ f, Unreadable chosen environment f) := by
  obtain ⟨r, hwords, hr⟩ := Reader.foldlM_step_of_spells hs (settles_start c) hn (by simp)
  obtain ⟨r₁, hsettle, h₁⟩ := hr.settle_eq
  have hknown : ∀ f ∈ Field.all, Reader.Known c chosen r₁ f := fun f _ => by
    obtain ⟨hgiven, hvalue⟩ := h₁.known f
    simp only [List.append_nil, List.mem_reverse] at hgiven hvalue
    exact ⟨hgiven, hvalue⟩
  have hread : read words environment =
      (Field.all.foldlM (Reader.consult environment) r₁).map Reader.settings := by
    simp only [read, hwords, hsettle, bind, Except.bind]
    cases Field.all.foldlM (Reader.consult environment) r₁ <;> rfl
  rw [hread]
  obtain ⟨r', hfold, hsource, -⟩ | ⟨hfold, f, -, hbad⟩ :=
    Reader.foldlM_consult environment Field.nodup_all hknown
  · exact .inl ⟨r'.settings, by rw [hfold]; rfl, fun f => hsource f f.mem_all⟩
  · exact .inr ⟨by rw [hfold]; rfl, f, hbad⟩

/-- Words that spell the values of all fields in `c` are read as `c` in any environment. If they
spell only some of them, then reading gives the settings with each field from its source and nothing
else, and it fails exactly if the variable of a field that is not spelled has no meaning. -/
theorem read_of_spells (hs : Spells c chosen words) (hn : chosen.Nodup)
    (environment : List (Text × Text)) :
    ((∀ f, f ∈ chosen) → read words environment = .ok c) ∧
    (∀ s, read words environment = .ok s ↔ ∀ f, FromSource c chosen environment s f) ∧
    (∀ e, read words environment = .error e ↔
      e = .badValue ∧ ∃ f, Unreadable chosen environment f) := by
  have hiff (s : Settings) :
      read words environment = .ok s ↔ ∀ f, FromSource c chosen environment s f := by
    obtain ⟨s', hread, hsource⟩ | ⟨hread, f, hbad⟩ := read_cases hs hn environment
    · rw [hread, Except.ok.injEq]
      exact ⟨fun h => h ▸ hsource,
        fun h => Settings.eq_of_value_eq fun f => (hsource f).value_eq (h f)⟩
    · rw [hread]
      exact ⟨fun h => (nomatch h), fun h => absurd (h f) (not_fromSource hbad)⟩
  refine ⟨fun hall => (hiff c).mpr fun f => ?_, hiff, fun e => ?_⟩
  · rw [FromSource, if_pos (hall f)]
  · obtain ⟨s, hread, hsource⟩ | ⟨hread, hbad⟩ := read_cases hs hn environment
    · rw [hread]
      exact ⟨fun h => (nomatch h), fun ⟨_, f, hbad⟩ => absurd (hsource f) (not_fromSource hbad)⟩
    · rw [hread, Except.error.injEq]
      exact ⟨fun h => ⟨h.symm, hbad⟩, fun h => h.1.symm⟩

/-- The variable of a field that is spelled is not looked at; another one is. -/
theorem read_of_spells_port_and_host :
    let c : Settings := { port := 8080, host := "127.0.0.1".toList }
    let words := ["-p=8080".toList, "--host".toList, "127.0.0.1".toList]
    let environment := [("HTTP_PORT".toList, "abc".toList), ("MAX_HEADERS".toList, "+7".toList)]
    Spells c [.port, .host] words ∧ [Field.port, .host].Nodup ∧
      read words environment = .ok { c with headerLimit := 7 } := by
  intro c words environment
  have hhost : Spelling c .host ["--host".toList, "127.0.0.1".toList] :=
    .apart .host (show "127.0.0.1".toList.head? ≠ some '-' by decide)
  have hport : Spelling c .port ["-p=8080".toList] := by
    rw [show "-p=8080".toList = "-p=".toList ++ Text.decimal 8080 by decide]
    exact .shortEquals
  have hs : Spells c [.port, .host] words := .cons hport (.cons hhost .nil)
  have hn : [Field.port, .host].Nodup := by decide
  refine ⟨hs, hn, ((read_of_spells hs hn environment).2.1 _).mpr fun f => ?_⟩
  have hseven : Value.Meant "+7".toList (.limit 7) :=
    Settings.limit?_eq_some_iff.mp (by decide)
  cases f with
  | headerLimit => exact hseven
  | _ => exact rfl

/-- A field that is left out does not have its default if its variable has no meaning. -/
theorem not_forall_default_of_unreadable :
    ¬ ∀ (c : Settings) (chosen : List Field) (words : List Text)
        (environment : List (Text × Text)), Spells c chosen words → chosen.Nodup →
      ∃ s, read words environment = .ok s ∧ (∀ f ∈ chosen, f.value s = f.value c) ∧
        ∀ f ∉ chosen,
          (∀ t s', environment.lookup f.documented.environment = some t →
            Value.Meant t (f.value s') → f.value s = f.value s') ∧
          ((∀ t s', environment.lookup f.documented.environment = some t →
            ¬ Value.Meant t (f.value s')) → f.value s = f.value {}) := by
  intro h
  obtain ⟨s, hread, -⟩ := h {} [] [] [("HTTP_PORT".toList, "abc".toList)] .nil .nil
  have hfail : read [] [("HTTP_PORT".toList, "abc".toList)] = .error .badValue := by decide
  rw [hfail] at hread
  cases hread

end Read
end WebHost.CommandLine
