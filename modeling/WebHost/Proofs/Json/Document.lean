import WebHost.Json.Compact
import WebHost.Json.Value
import WebHost.Proofs.Json.Spelling

/-! Documents as they are written, with whatever spaces and line breaks between their parts. The
reader gives back the value that is written. -/
namespace WebHost.Json
open Utf8 (encode)

/-- The tokens are those of one value. No value begins with the mark that would end an array. -/
def Builds (ts : List Token) (v : Value) : Prop :=
  ts.head? ≠ some .closeBracket ∧
    ∀ stack, ts.foldl Builder.step ⟨stack, .value⟩ = Builder.accept stack v

theorem Builds.ne_nil {ts : List Token} {v : Value} (h : Builds ts v) : ts ≠ [] := by
  rintro rfl
  have := h.2 []
  simp [Builder.accept] at this

/-- A first item is read as any other value. -/
theorem Builds.foldl_item {ts : List Token} {v : Value} (h : Builds ts v) (stack : List Frame) :
    ts.foldl Builder.step ⟨stack, .item⟩ = Builder.accept stack v := by
  rw [← h.2 stack]
  cases ts with
  | nil => exact absurd rfl h.ne_nil
  | cons t ts =>
    have ht : t ≠ .closeBracket := fun he => h.1 (by simp [he])
    simp [Builder.step, ht]

/-- A key, a colon and a value. -/
def BuildsMember (ts : List Token) (m : Option Text × Value) : Prop :=
  ∃ us, ts = .string m.1 :: .colon :: us ∧ Builds us m.2

theorem BuildsMember.foldl_key {ts : List Token} {m : Option Text × Value} (h : BuildsMember ts m)
    (done : List (Option Text × Value)) (stack : List Frame) :
    ts.foldl Builder.step ⟨.members done :: stack, .key⟩ =
      ⟨.members (m :: done) :: stack, .afterValue⟩ := by
  obtain ⟨us, rfl, hv⟩ := h
  exact hv.2 (.member done m.1 :: stack)

theorem BuildsMember.foldl_member {ts : List Token} {m : Option Text × Value}
    (h : BuildsMember ts m) (stack : List Frame) :
    ts.foldl Builder.step ⟨.members [] :: stack, .member⟩ =
      ⟨.members [m] :: stack, .afterValue⟩ := by
  obtain ⟨us, rfl, hv⟩ := h
  exact hv.2 (.member [] m.1 :: stack)

theorem intercalate_cons_eq_flatMap {α : Type} (sep x : List α) (xs : List (List α)) :
    sep.intercalate (x :: xs) = x ++ xs.flatMap (sep ++ ·) := by
  induction xs generalizing x with
  | nil => simp
  | cons y ys ih =>
    rw [List.intercalate_cons_cons, ih, List.flatMap_cons, List.append_assoc, List.append_assoc]

/-- The items behind the first, each after a comma. -/
theorem foldl_items {tss : List (List Token)} {vs : List Value} (h : List.Forall₂ Builds tss vs)
    (done : List Value) (stack : List Frame) :
    (tss.flatMap ([Token.comma] ++ ·)).foldl Builder.step ⟨.items done :: stack, .afterValue⟩ =
      ⟨.items (vs.reverse ++ done) :: stack, .afterValue⟩ := by
  induction h generalizing done with
  | nil => rfl
  | @cons ts v tss vs hv _ ih =>
    have hcomma : Builder.step ⟨.items done :: stack, .afterValue⟩ .comma =
        ⟨.items done :: stack, .value⟩ := rfl
    rw [List.flatMap_cons, List.foldl_append, List.singleton_append, List.foldl_cons, hcomma, hv.2,
      Builder.accept, ih, List.reverse_cons, List.append_assoc]
    rfl

theorem builds_array {tss : List (List Token)} {vs : List Value} (h : List.Forall₂ Builds tss vs) :
    Builds (.openBracket :: ([Token.comma].intercalate tss ++ [.closeBracket])) (.array vs) := by
  refine ⟨by simp, fun stack => ?_⟩
  have hopen : Builder.step ⟨stack, .value⟩ .openBracket = ⟨.items [] :: stack, .item⟩ := rfl
  rw [List.foldl_cons, hopen, List.foldl_append]
  cases h with
  | nil => rfl
  | @cons ts v tss vs hv hrest =>
    rw [intercalate_cons_eq_flatMap, List.foldl_append, hv.foldl_item, Builder.accept,
      foldl_items hrest]
    change Builder.accept stack (.array (vs.reverse ++ [v]).reverse) = _
    simp

/-- The members behind the first, each after a comma. -/
theorem foldl_members {tss : List (List Token)} {ms : List (Option Text × Value)}
    (h : List.Forall₂ BuildsMember tss ms) (done : List (Option Text × Value)) (stack : List Frame) :
    (tss.flatMap ([Token.comma] ++ ·)).foldl Builder.step ⟨.members done :: stack, .afterValue⟩ =
      ⟨.members (ms.reverse ++ done) :: stack, .afterValue⟩ := by
  induction h generalizing done with
  | nil => rfl
  | @cons ts m tss ms hm _ ih =>
    have hcomma : Builder.step ⟨.members done :: stack, .afterValue⟩ .comma =
        ⟨.members done :: stack, .key⟩ := rfl
    rw [List.flatMap_cons, List.foldl_append, List.singleton_append, List.foldl_cons, hcomma,
      hm.foldl_key, ih, List.reverse_cons, List.append_assoc]
    rfl

theorem builds_object {tss : List (List Token)} {ms : List (Option Text × Value)}
    (h : List.Forall₂ BuildsMember tss ms) :
    Builds (.openBrace :: ([Token.comma].intercalate tss ++ [.closeBrace])) (.object ms) := by
  refine ⟨by simp, fun stack => ?_⟩
  have hopen : Builder.step ⟨stack, .value⟩ .openBrace = ⟨.members [] :: stack, .member⟩ := rfl
  rw [List.foldl_cons, hopen, List.foldl_append]
  cases h with
  | nil => rfl
  | @cons ts m tss ms hm hrest =>
    rw [intercalate_cons_eq_flatMap, List.foldl_append, hm.foldl_member, foldl_members hrest]
    change Builder.accept stack (.object (ms.reverse ++ [m]).reverse) = _
    simp

/-- The text is a document of the value. -/
def Writes (t : Text) (v : Value) : Prop := ∃ ts, Spells t ts ∧ Builds ts v

/-- What is written is read back. -/
theorem Writes.parse {t : Text} {v : Value} (h : Writes t v) : Value.parse (encode t) = some v := by
  obtain ⟨ts, hspells, hbuilds⟩ := h
  have hfold : ts.foldl Builder.step {} = ⟨[], .done v⟩ := hbuilds.2 []
  simp [Value.parse, hspells.tokens?, hfold, Builder.finish]

theorem writes_quote (t : Text) : Writes (quote t) (.string (some t)) :=
  ⟨_, (marks_quote t).spells, by simp, fun _ => rfl⟩

theorem writes_decimal (n : Nat) : Writes (Text.decimal n) (.number (some n)) :=
  ⟨_, spells_decimal n, by simp, fun _ => rfl⟩

theorem writes_bool (b : Bool) : Writes (if b then "true".toList else "false".toList) (.bool b) := by
  refine ⟨[.bool b], Marks.spells fun done => ?_, by simp, fun _ => rfl⟩
  cases b <;> rfl

/-- A chain of two relations between lists, item by item, has a list in the middle. -/
theorem exists_forall₂_of_forall₂ {α β γ : Type} {R : α → β → Prop} {S : β → γ → Prop}
    {xs : List α} {zs : List γ} (h : List.Forall₂ (fun x z => ∃ y, R x y ∧ S y z) xs zs) :
    ∃ ys, List.Forall₂ R xs ys ∧ List.Forall₂ S ys zs := by
  induction h with
  | nil => exact ⟨[], .nil, .nil⟩
  | cons hxz _ ih =>
    obtain ⟨y, hxy, hyz⟩ := hxz
    obtain ⟨ys, hxs, hzs⟩ := ih
    exact ⟨y :: ys, .cons hxy hxs, .cons hyz hzs⟩

section
variable {opening sep closing : Text}

theorem spells_between {opened closed : Token} (ho : Marks opening [opened])
    (hs : Marks sep [.comma]) (hc : Marks closing [closed]) (has : Apart sep) (hac : Apart closing)
    {texts : List Text} {tss : List (List Token)} (h : List.Forall₂ Spells texts tss) :
    Spells (opening ++ sep.intercalate texts ++ closing)
      (opened :: ([Token.comma].intercalate tss ++ [closed])) := by
  rw [List.append_assoc]
  exact ho.append_spells ((spells_intercalate hs has h).append hc.spells hac)

theorem writes_array (ho : Marks opening [.openBracket]) (hs : Marks sep [.comma])
    (hc : Marks closing [.closeBracket]) (has : Apart sep) (hac : Apart closing)
    {texts : List Text} {vs : List Value} (h : List.Forall₂ Writes texts vs) :
    Writes (opening ++ sep.intercalate texts ++ closing) (.array vs) := by
  obtain ⟨tss, hspells, hbuilds⟩ := exists_forall₂_of_forall₂ h
  exact ⟨_, spells_between ho hs hc has hac hspells, builds_array hbuilds⟩

/-- The text is a key, a colon and a document of the value. -/
def WritesMember (t : Text) (m : Option Text × Value) : Prop :=
  ∃ ts, Spells t ts ∧ BuildsMember ts m

theorem writesMember_append {lead colon : Text} (hl : Marks lead []) (hc : Marks colon [.colon])
    (key : Text) {t : Text} {v : Value} (h : Writes t v) :
    WritesMember (lead ++ quote key ++ colon ++ t) (some key, v) := by
  obtain ⟨ts, hspells, hbuilds⟩ := h
  have hkey := ((hl.append (marks_quote key)).append hc).append_spells hspells
  exact ⟨_, hkey, ts, rfl, hbuilds⟩

theorem writes_object (ho : Marks opening [.openBrace]) (hs : Marks sep [.comma])
    (hc : Marks closing [.closeBrace]) (has : Apart sep) (hac : Apart closing)
    {texts : List Text} {ms : List (Option Text × Value)}
    (h : List.Forall₂ WritesMember texts ms) :
    Writes (opening ++ sep.intercalate texts ++ closing) (.object ms) := by
  obtain ⟨tss, hspells, hbuilds⟩ := exists_forall₂_of_forall₂ h
  exact ⟨_, spells_between ho hs hc has hac hspells, builds_object hbuilds⟩

end

/-- The value that a scalar is read as. -/
def Scalar.value : Scalar → Value
  | .number n => .number (some n)
  | .text t => .string (some t)

theorem Scalar.writes_print (s : Scalar) : Writes s.print s.value := by
  cases s with
  | number n => exact writes_decimal n
  | text t => exact writes_quote t

/-- A flat object is read as its members, in their order. -/
theorem writes_printObject (members : List (Text × Scalar)) :
    Writes (printObject members) (.object (members.map fun m => (some m.1, m.2.value))) := by
  have h : List.Forall₂ WritesMember (members.map printMember)
      (members.map fun m => (some m.1, m.2.value)) := by
    rw [List.forall₂_map_left_iff, List.forall₂_map_right_iff, List.forall₂_same]
    intro m _
    have hm : WritesMember ([] ++ quote m.1 ++ [':'] ++ m.2.print) (some m.1, m.2.value) :=
      writesMember_append (fun _ => rfl) (fun _ => rfl) m.1 m.2.writes_print
    simpa [printMember] using hm
  have hobject : Writes (['\x7b'] ++ [','].intercalate (members.map printMember) ++ ['\x7d'])
      (.object (members.map fun m => (some m.1, m.2.value))) :=
    writes_object (fun _ => rfl) (fun _ => rfl) (fun _ => rfl) ⟨',', by decide, [], rfl⟩
      ⟨'\x7d', by decide, [], rfl⟩ h
  simpa [printObject] using hobject

end WebHost.Json
