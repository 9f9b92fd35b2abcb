import Mathlib.Data.List.Basic
import Mathlib.Data.List.Count
import WebHost.Accounts.Credentials
import WebHost.Proofs.Text.Lines
import WebHost.Proofs.Text.Pattern

/-! Which mail addresses are accepted. The check looks at the first at sign and at the first dot
after it, as its pattern does, and so it does not see a second at sign, and does not look for a dot
that is better placed. -/
namespace WebHost.Credentials
open Text
variable {t mailbox host rest : Text}

/-- Something that is no at sign, an at sign, something without a dot, a dot, and something on one
line, from the beginning of the text to its end. -/
def mailPattern : Pattern :=
  .row .start
    [.plus (.one (· != '@')), .one (· == '@'), .plus (.one (· != '.')), .one (· == '.'),
      .plus (.one (· != '\n')), .stop]

/-- A mail address has exactly one at sign, neither first nor last, and somewhere after it a dot
that is not next to it and not last. -/
structure IsMailAddress (t : Text) : Prop where
  one_at : t.count '@' = 1
  not_first : t.head? ≠ some '@'
  not_last : t.getLast? ≠ some '@'
  dot : ∃ mailbox host rest, t = mailbox ++ '@' :: (host ++ '.' :: rest) ∧ host ≠ [] ∧ rest ≠ []

/-- The text comes apart at its first at sign and at the first dot after it. -/
structure Divides (t mailbox host rest : Text) : Prop where
  eq : t = mailbox ++ '@' :: (host ++ '.' :: rest)
  first_at : '@' ∉ mailbox
  first_dot : '.' ∉ host

theorem divides_iff : Divides t mailbox host rest ↔
    ∃ domain, cut? ['@'] t = some (mailbox, domain) ∧ cut? ['.'] domain = some (host, rest) := by
  simp only [cut?_singleton_eq_some_iff]
  constructor
  · rintro ⟨rfl, hat, hdot⟩
    exact ⟨_, ⟨rfl, hat⟩, rfl, hdot⟩
  · rintro ⟨_, ⟨rfl, hat⟩, rfl, hdot⟩
    exact ⟨rfl, hat, hdot⟩

theorem Divides.unique {mailbox' host' rest' : Text} (h : Divides t mailbox host rest)
    (h' : Divides t mailbox' host' rest') : mailbox = mailbox' ∧ host = host' ∧ rest = rest' := by
  obtain ⟨domain, hat, hdot⟩ := divides_iff.mp h
  obtain ⟨domain', hat', hdot'⟩ := divides_iff.mp h'
  obtain ⟨rfl, rfl⟩ : mailbox = mailbox' ∧ domain = domain' := by simpa [hat] using hat'
  obtain ⟨rfl, rfl⟩ : host = host' ∧ rest = rest' := by simpa [hdot] using hdot'
  exact ⟨rfl, rfl, rfl⟩

/-- What the check asks of the parts. -/
theorem hasMailShape_iff : hasMailShape t ↔ ∃ mailbox host rest, Divides t mailbox host rest ∧
    mailbox ≠ [] ∧ host ≠ [] ∧ rest ≠ [] ∧ '\n' ∉ rest := by
  simp only [divides_iff]
  unfold hasMailShape
  cases cut? ['@'] t with
  | none => simp
  | some p =>
    obtain ⟨mailbox, domain⟩ := p
    cases hdot : cut? ['.'] domain with
    | none => simp [hdot]
    | some q =>
      obtain ⟨host, rest⟩ := q
      simp [hdot, and_assoc]

/-- All ways in which the pattern can match come to the same parts. -/
theorem foundIn_mailPattern_iff : mailPattern.FoundIn t ↔ ∃ mailbox host rest,
    Divides t mailbox host rest ∧ mailbox ≠ [] ∧ host ≠ [] ∧ rest ≠ [] ∧ '\n' ∉ rest := by
  simp only [mailPattern, Pattern.row, Pattern.foundIn_start_seq_iff, Pattern.matches_seq_iff,
    Pattern.matches_plus_one_iff, Pattern.matches_one_iff, Pattern.matches_stop_iff, bne_iff_ne,
    beq_iff_eq]
  constructor
  · rintro ⟨_, _, rfl, mailbox, _, rfl, ⟨hmailbox, hat⟩, _, _, rfl, ⟨_, rfl, rfl⟩, host, _, rfl,
      ⟨hhost, hdot⟩, _, _, rfl, ⟨_, rfl, rfl⟩, rest, _, rfl, ⟨hrest, hline⟩, rfl, rfl⟩
    exact ⟨mailbox, host, rest, ⟨by simp, fun h => hat _ h rfl, fun h => hdot _ h rfl⟩, hmailbox,
      hhost, hrest, fun h => hline _ h rfl⟩
  · rintro ⟨mailbox, host, rest, ⟨rfl, hat, hdot⟩, hmailbox, hhost, hrest, hline⟩
    refine ⟨_, [], (List.append_nil _).symm, mailbox, _, rfl, ⟨hmailbox, ?_⟩, ['@'], _, rfl,
      ⟨'@', rfl, rfl⟩, host, _, rfl, ⟨hhost, ?_⟩, ['.'], _, rfl, ⟨'.', rfl, rfl⟩, rest, [],
      (List.append_nil _).symm, ⟨hrest, ?_⟩, rfl, rfl⟩
    · exact fun c hc he => hat (he ▸ hc)
    · exact fun c hc he => hdot (he ▸ hc)
    · exact fun c hc he => hline (he ▸ hc)

/-- With a single at sign the check asks for no less than a mail address. -/
theorem isMailAddress_of_hasMailShape (h : hasMailShape t) (hc : t.count '@' = 1) :
    IsMailAddress t := by
  obtain ⟨mailbox, host, rest, ⟨rfl, hat, -⟩, hmailbox, hhost, hrest, -⟩ := hasMailShape_iff.mp h
  have hafter : '@' ∉ rest := by
    intro hmem
    have := List.count_pos_iff.mpr hmem
    simp only [List.count_append, List.count_cons_self, List.count_cons] at hc
    omega
  refine ⟨hc, fun hfirst => hat ?_, fun hlast => hafter ?_, _, host, rest, rfl, hhost, hrest⟩
  · rw [List.head?_append_of_ne_nil _ hmailbox] at hfirst
    exact List.mem_of_head? hfirst
  · rw [List.append_cons, ← List.append_assoc, List.append_cons,
      List.getLast?_append_of_ne_nil _ hrest] at hlast
    exact List.mem_of_getLast? hlast

/-- A mail address has a first at sign and a first dot, with something at either end. -/
theorem IsMailAddress.exists_divides (h : IsMailAddress t) :
    ∃ mailbox host rest, Divides t mailbox host rest ∧ mailbox ≠ [] ∧ rest ≠ [] := by
  obtain ⟨hc, hfirst, -, mailbox, front, back, rfl, -, hback⟩ := h
  have hat : '@' ∉ mailbox := by
    intro hmem
    have := List.count_pos_iff.mpr hmem
    simp only [List.count_append, List.count_cons_self] at hc
    omega
  have hmem : '.' ∈ front ++ '.' :: back := by simp
  obtain ⟨host, rest, hsplit, hdot⟩ := List.eq_append_cons_of_mem hmem
  refine ⟨mailbox, host, rest, ⟨by rw [hsplit], hat, hdot⟩, ?_, ?_⟩
  · rintro rfl
    exact hfirst rfl
  · -- The first dot is not the last character, for a dot is not.
    rintro rfl
    have hhost := congrArg List.dropLast hsplit
    rw [List.dropLast_append_of_ne_nil (by simp), List.dropLast_concat,
      List.dropLast_cons_of_ne_nil hback] at hhost
    exact hdot (hhost ▸ by simp)

/-- A mail address is refused for what stands at its first dot: the dot is next to the at sign, or
what is behind it is not all on one line. -/
theorem IsMailAddress.hasMailShape_iff (h : IsMailAddress t) : hasMailShape t ↔
    ¬ ∃ mailbox host rest, Divides t mailbox host rest ∧ (host = [] ∨ '\n' ∈ rest) := by
  obtain ⟨mailbox, host, rest, hdiv, hmailbox, hrest⟩ := h.exists_divides
  rw [Credentials.hasMailShape_iff]
  constructor
  · rintro ⟨mailbox', host', rest', hdiv', -, hhost', -, hline'⟩ ⟨_, _, _, hdiv'', hbad⟩
    obtain ⟨-, rfl, rfl⟩ := hdiv'.unique hdiv''
    exact hbad.elim hhost' hline'
  · intro hgood
    refine ⟨mailbox, host, rest, hdiv, hmailbox, fun hnil => ?_, hrest, fun hline => ?_⟩
    · exact hgood ⟨mailbox, host, rest, hdiv, .inl hnil⟩
    · exact hgood ⟨mailbox, host, rest, hdiv, .inr hline⟩

/-- What is accepted are the texts of 5 to 127 bytes in which the pattern is found. These are not
the mail addresses of that length: a text with a second at sign is accepted, if the pattern is found
in it, and a mail address is refused if a dot is next to its at sign, whatever other dots it has, or
if a line feed is behind the first dot after the at sign. For all other texts there is no
difference. -/
theorem isEmail_iff_isMailAddress_iff (t : Text) :
    (isEmail t ↔ isBetween 5 127 t ∧ mailPattern.FoundIn t) ∧
      ((isEmail t ↔ isBetween 5 127 t ∧ IsMailAddress t) ↔
        ¬ (isEmail t ∧ 2 ≤ t.count '@') ∧
        ¬ (isBetween 5 127 t ∧ IsMailAddress t ∧
          ∃ mailbox host rest, Divides t mailbox host rest ∧ (host = [] ∨ '\n' ∈ rest))) := by
  have hemail : isEmail t ↔ isBetween 5 127 t ∧ hasMailShape t := by
    rw [isEmail, Bool.and_eq_true]
  refine ⟨by rw [hemail, foundIn_mailPattern_iff, hasMailShape_iff], ?_⟩
  rw [hemail]
  constructor
  · refine fun hagree => ⟨fun ⟨haccepted, hc⟩ => ?_, fun ⟨hlength, hmail, hbad⟩ => ?_⟩
    · have := (hagree.mp haccepted).2.one_at
      omega
    · exact hmail.hasMailShape_iff.mp (hagree.mpr ⟨hlength, hmail⟩).2 hbad
  · rintro ⟨hmuch, hlittle⟩
    constructor
    · rintro ⟨hlength, hshape⟩
      refine ⟨hlength, isMailAddress_of_hasMailShape hshape ?_⟩
      obtain ⟨mailbox, host, rest, hdiv, -⟩ := hasMailShape_iff.mp hshape
      have hat : 0 < t.count '@' := List.count_pos_iff.mpr (by simp [hdiv.eq])
      have : ¬ 2 ≤ t.count '@' := fun hc => hmuch ⟨⟨hlength, hshape⟩, hc⟩
      omega
    · rintro ⟨hlength, hmail⟩
      exact ⟨hlength, hmail.hasMailShape_iff.mpr fun hbad => hlittle ⟨hlength, hmail, hbad⟩⟩

example : isEmail "a@b@c.d".toList ∧ ! isEmail "a@.b.c".toList ∧ ! isEmail "a@b.c\nd".toList := by
  decide

/-- A second at sign is not seen. -/
theorem not_forall_isEmail_iff_isMailAddress :
    ¬ ∀ t : Text, isEmail t ↔ isBetween 5 127 t ∧ IsMailAddress t := by
  intro h
  have hmail := (h "a@b@c.d".toList).mp (by decide)
  exact absurd hmail.2.one_at (by decide)

end WebHost.Credentials
