import Mathlib.Data.List.Nodup
import WebHost.Proofs.Accounts.Run

/-! Who an account is: its number and its name. Operations add accounts at the end and change no
number and no name, so that the first account with a number stays the first. -/
namespace WebHost

def Account.identity (u : Account) : Nat × Text := (u.id, u.username)

namespace Accounts

def identities (a : Accounts) : List (Nat × Text) := a.users.map Account.identity

@[simp] theorem length_identities (a : Accounts) : a.identities.length = a.users.length :=
  List.length_map ..

/-- What a change keeps of every account is kept of the list. -/
theorem map_changeFirst {α : Type} {f : Account → α} {change : Account → Account}
    (h : ∀ u, f (change u) = f u) (test : Account → Bool) (us : List Account) :
    (changeFirst test change us).map f = us.map f := by
  induction us with
  | nil => rfl
  | cons u us ih =>
    rw [changeFirst]
    split
    · rw [List.map_cons, List.map_cons, h]
    · rw [List.map_cons, List.map_cons, ih]

/-- Only a registration changes who the accounts are. -/
theorem identities_apply_eq {β : Type} (m : Moment) (a : Accounts) (o : Op β) :
    (o.apply m a).2.identities =
      match o with
      | .register username email password => (a.register m username email password).2.identities
      | _ => a.identities := by
  cases o with
  | authenticate username password =>
    rcases authenticate_cases a m username password with ⟨e, h⟩ | ⟨u, -, -, -, h⟩
    · simp [Op.apply, h]
    · rw [Op.apply, h]
      apply map_changeFirst
      intro u
      rfl
  | setRole id role | setActive id active =>
    apply map_changeFirst
    intro u
    rfl
  | openSession userId address => simp only [Op.apply, identities, users_openSession]
  | _ => rfl

/-- An operation adds nobody, or one account under the next number. -/
theorem identities_apply {β : Type} (m : Moment) (a : Accounts) (o : Op β) :
    (o.apply m a).2.identities = a.identities ∨
      ∃ name, a.users.length < userLimit ∧
        (o.apply m a).2.identities = a.identities ++ [(a.users.length + 1, name)] := by
  rw [identities_apply_eq]
  cases o with
  | register username email password =>
    rcases register_cases a m username email password with ⟨e, h⟩ | ⟨-, -, -, -, hroom, h⟩
    · exact .inl (by simp [h])
    · exact .inr ⟨username, hroom, by simp [h, identities, newAccount, Account.identity]⟩
  | _ => exact .inl rfl

theorem identities_beginning_apply {β : Type} (m : Moment) (a : Accounts) (o : Op β) :
    a.identities <+: (o.apply m a).2.identities := by
  rcases identities_apply m a o with h | ⟨name, -, h⟩
  · exact h ▸ List.prefix_refl _
  · exact h ▸ List.prefix_append _ _

theorem identity_userById? (a : Accounts) (id : Nat) :
    (a.userById? id).map Account.identity = a.identities.find? fun i => i.1 == id := by
  rw [userById?, identities, List.find?_map]
  rfl

theorem identity_userByName? (a : Accounts) (name : Text) :
    (a.userByName? name).map Account.identity = a.identities.find? fun i => i.2 == name := by
  rw [userByName?, identities, List.find?_map]
  rfl

theorem userById?_of_beginning {a b : Accounts} (h : a.identities <+: b.identities) {id : Nat}
    {u : Account} (hu : a.userById? id = some u) :
    ∃ v, b.userById? id = some v ∧ v.identity = u.identity := by
  have hv : (b.userById? id).map Account.identity = some u.identity := by
    rw [identity_userById?]
    exact List.IsPrefix.find?_eq_some h (by rw [← identity_userById?, hu]; rfl)
  simpa using hv

theorem userByName?_of_beginning {a b : Accounts} (h : a.identities <+: b.identities) {name : Text}
    {u : Account} (hu : a.userByName? name = some u) :
    ∃ v, b.userByName? name = some v ∧ v.identity = u.identity := by
  have hv : (b.userByName? name).map Account.identity = some u.identity := by
    rw [identity_userByName?]
    exact List.IsPrefix.find?_eq_some h (by rw [← identity_userByName?, hu]; rfl)
  simpa using hv

/-- The account named `name` is the first with its number. -/
def HasOwnNumber (a : Accounts) (name : Text) : Prop :=
  ∃ u, a.userByName? name = some u ∧ a.userById? u.id = some u

/-- The first that passes one test and the first that passes another are the same, if each passes
both. -/
theorem eq_of_find?_eq_some {α : Type} {p q : α → Bool} {l : List α} {x y : α}
    (hx : l.find? p = some x) (hy : l.find? q = some y) (hqx : q x) (hpy : p y) : x = y := by
  induction l with
  | nil => simp at hx
  | cons z l ih =>
    rw [List.find?_cons] at hx hy
    cases hp : p z <;> cases hq : q z <;> simp only [hp, hq, Option.some.injEq] at hx hy
    · exact ih hx hy
    · rw [hy, hpy] at hp
      exact absurd hp (by decide)
    · rw [hx, hqx] at hq
      exact absurd hq (by decide)
    · rw [← hx, ← hy]

/-- The first that is like `x` is `x`, where no two are alike. -/
theorem find?_of_nodup_map {α β : Type} [BEq β] [LawfulBEq β] {f : α → β} {l : List α} {x : α}
    (h : (l.map f).Nodup) (hx : x ∈ l) : l.find? (fun y => f y == f x) = some x := by
  cases hy : l.find? fun y => f y == f x with
  | none =>
    rw [List.find?_eq_none] at hy
    exact absurd (hy x hx) (by simp)
  | some y =>
    have hf : f y = f x := by simpa using List.find?_some hy
    rw [List.inj_on_of_nodup_map h (List.mem_of_find?_eq_some hy) hx hf]

theorem find?_eq_some_iff_of_nodup_map {α β : Type} [BEq β] [LawfulBEq β] {f : α → β} {l : List α}
    {k : β} {x : α} (h : (l.map f).Nodup) :
    l.find? (fun y => f y == k) = some x ↔ x ∈ l ∧ f x = k := by
  constructor
  · intro hx
    exact ⟨List.mem_of_find?_eq_some hx, by simpa using List.find?_some hx⟩
  · rintro ⟨hx, rfl⟩
    exact find?_of_nodup_map h hx

theorem exists_userById?_of_mem {a : Accounts} {u : Account} (hu : u ∈ a.users) :
    ∃ v, a.userById? u.id = some v := by
  cases hv : a.userById? u.id with
  | some v => exact ⟨v, rfl⟩
  | none =>
    rw [userById?, List.find?_eq_none] at hv
    exact absurd (hv u hu) (by simp)

section
variable {a b : Accounts} {name : Text} {u v : Account}

/-- If `v` is the first with the number of the account named `name`, then the two are the same
exactly if `v` has that name. -/
theorem hasOwnNumber_iff (hu : a.userByName? name = some u) (hv : a.userById? u.id = some v) :
    a.HasOwnNumber name ↔ v.username = name := by
  constructor
  · rintro ⟨u', hu', hid⟩
    obtain rfl : u = u' := by simpa [hu] using hu'
    obtain rfl : v = u := by simpa [hv] using hid
    simpa using List.find?_some hu
  · intro hname
    obtain rfl : u = v := eq_of_find?_eq_some hu hv (by simp) (by simpa using hname)
    exact ⟨u, hu, hv⟩

theorem userByName?_eq_some_iff_hasOwnNumber (hu : a.userByName? name = some u)
    (hv : a.userById? u.id = some v) : a.userByName? name = some v ↔ a.HasOwnNumber name := by
  constructor
  · intro h
    exact (hasOwnNumber_iff hu hv).mpr (by simpa using List.find?_some h)
  · rintro ⟨u', hu', hid⟩
    obtain rfl : u = u' := by simpa [hu] using hu'
    obtain rfl : v = u := by simpa [hv] using hid
    exact hu

/-- Whether an account has its own number does not change. -/
theorem hasOwnNumber_iff_of_beginning (h : a.identities <+: b.identities)
    (hu : a.userByName? name = some u) : b.HasOwnNumber name ↔ a.HasOwnNumber name := by
  obtain ⟨v, hv⟩ := exists_userById?_of_mem (List.mem_of_find?_eq_some hu)
  obtain ⟨u', hu', hui⟩ := userByName?_of_beginning h hu
  obtain ⟨v', hv', hvi⟩ := userById?_of_beginning h hv
  obtain ⟨hid, -⟩ := Prod.mk.injEq .. ▸ hui
  obtain ⟨-, hname⟩ := Prod.mk.injEq .. ▸ hvi
  rw [hasOwnNumber_iff hu hv, hasOwnNumber_iff hu' (hid ▸ hv'), hname]

end

/-- No two accounts share a number, and no number is one that a registration may give yet. -/
def SoundNumbers (ids : List Nat) : Prop :=
  ids.Nodup ∧ ∀ id ∈ ids, id ≤ ids.length ∨ userLimit < id

instance (ids : List Nat) : Decidable (SoundNumbers ids) := inferInstanceAs (Decidable (_ ∧ _))

theorem map_id_eq (a : Accounts) : a.users.map Account.id = a.identities.map Prod.fst := by
  rw [identities, List.map_map]
  rfl

theorem soundNumbers_apply {β : Type} (m : Moment) {a : Accounts} (o : Op β)
    (h : SoundNumbers (a.users.map Account.id)) :
    SoundNumbers ((o.apply m a).2.users.map Account.id) := by
  rw [map_id_eq] at h ⊢
  rcases identities_apply m a o with he | ⟨name, hroom, he⟩
  · rwa [he]
  · obtain ⟨hnodup, hsound⟩ := h
    have hlen : (a.identities.map Prod.fst).length = a.users.length := by simp
    rw [hlen] at hsound
    rw [he, List.map_append, List.map_singleton]
    constructor
    · refine hnodup.append (List.nodup_singleton _) ?_
      rw [List.disjoint_singleton]
      intro hmem
      rcases hsound _ hmem with hle | hgt
      · omega
      · exact absurd hgt (by omega)
    · intro id hid
      rw [List.length_append, hlen, List.length_singleton]
      rcases List.mem_append.mp hid with hid | hid
      · rcases hsound id hid with hle | hgt
        · exact .inl (by omega)
        · exact .inr hgt
      · exact .inl (by simp at hid; omega)

theorem hasOwnNumber_of_soundNumbers {a : Accounts} (h : SoundNumbers (a.users.map Account.id))
    {name : Text} {u : Account} (hu : a.userByName? name = some u) : a.HasOwnNumber name :=
  ⟨u, hu, find?_of_nodup_map h.1 (List.mem_of_find?_eq_some hu)⟩

end Accounts
end WebHost
