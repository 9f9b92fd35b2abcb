import WebHost.Accounts.UsersFile
import WebHost.Proofs.Disk.Cut
import WebHost.Proofs.Json.Document

/-! Accounts that are saved and loaded. The users file is a document whose items are read back as
the accounts, and a file that has been saved is found where it was saved. -/
namespace WebHost

/-- The numbers of the account have the size that the users file allows them. -/
def Account.IsStorable (u : Account) : Prop :=
  u.id < UInt32.size ∧ u.createdAt < Text.sizeBound ∧ u.lastLogin < Text.sizeBound

instance (u : Account) : Decidable u.IsStorable := inferInstanceAs (Decidable (_ ∧ _))

namespace UsersFile
open Json (Value Marks Apart Writes WritesMember)
open Disk (Change)

/-- The members of an account as they are read. -/
def values (u : Account) : List (Option Text × Value) :=
  [(some "id".toList, .number (some u.id)),
   (some "username".toList, .string (some u.username)),
   (some "email".toList, .string (some u.email)),
   (some "password_hash".toList, .string (some u.passwordHash)),
   (some "salt".toList, .string (some u.salt)),
   (some "created_at".toList, .number (some u.createdAt)),
   (some "last_login".toList, .number (some u.lastLogin)),
   (some "active".toList, .bool u.active),
   (some "role".toList, .string (some u.role.name))]

theorem writesMember_printMember {m : Text × Text} {v : Value} (h : Writes m.2 v) :
    WritesMember (printMember m) (some m.1, v) :=
  Json.writesMember_append (fun _ => rfl) (fun _ => rfl) m.1 h

theorem writes_printAccount (u : Account) : Writes (printAccount u) (.object (values u)) := by
  refine Json.writes_object (fun _ => rfl) (fun _ => rfl) (fun _ => rfl) ⟨',', by decide, _, rfl⟩
    ⟨'\n', by decide, _, rfl⟩ ?_
  have hnumber (key : Text) (n : Nat) := writesMember_printMember (m := (key, _)) (Json.writes_decimal n)
  have htext (key t : Text) := writesMember_printMember (m := (key, _)) (Json.writes_quote t)
  have hbool (key : Text) (b : Bool) := writesMember_printMember (m := (key, _)) (Json.writes_bool b)
  exact .cons (hnumber _ _) <| .cons (htext _ _) <| .cons (htext _ _) <| .cons (htext _ _) <|
    .cons (htext _ _) <| .cons (hnumber _ _) <| .cons (hnumber _ _) <| .cons (hbool _ _) <|
    .cons (htext _ _) .nil

/-- The document is the list of the accounts' objects. -/
theorem writes_print (us : List Account) :
    Writes (print us) (.array (us.map fun u => .object (values u))) := by
  unfold print
  split
  · next h =>
    obtain rfl := List.isEmpty_iff.mp h
    exact ⟨[.openBracket, .closeBracket], Json.Marks.spells fun _ => rfl, by simp, fun _ => rfl⟩
  · refine Json.writes_array (fun _ => rfl) (fun _ => rfl) (fun _ => rfl) ⟨',', by decide, _, rfl⟩
      ⟨'\n', by decide, _, rfl⟩ ?_
    rw [List.forall₂_map_left_iff, List.forall₂_map_right_iff, List.forall₂_same]
    exact fun u _ => writes_printAccount u

theorem natural?_number (bound n : Nat) :
    natural? bound (.number (some n)) = if n < bound then some n else none := by
  by_cases h : n < bound
  · simp [natural?, h]
  · simp [natural?, h, Nat.le_of_not_lt h]

theorem role?_name (r : Role) : role? (.string (some r.name)) = some r := by
  cases r <;> rfl

/-- An account is read back if its numbers fit. -/
theorem account?_values (u : Account) :
    account? (.object (values u)) = if u.IsStorable then some u else none := by
  have hread : account? (.object (values u)) =
      ofItems? (.number (some u.id)) (.string (some u.username)) (.string (some u.email))
        (.string (some u.passwordHash)) (.string (some u.salt)) (.number (some u.createdAt))
        (.number (some u.lastLogin)) (.bool u.active) (.string (some u.role.name)) := rfl
  rw [hread]
  by_cases hid : u.id < UInt32.size
  · by_cases hcreated : u.createdAt < Text.sizeBound
    · by_cases hlast : u.lastLogin < Text.sizeBound
      · simp [ofItems?, natural?_number, role?_name, text?, bool?, Account.IsStorable, hid, hcreated, hlast]
      · simp [ofItems?, natural?_number, text?, Account.IsStorable, hid, hcreated, hlast]
    · simp [ofItems?, natural?_number, text?, Account.IsStorable, hid, hcreated]
  · simp [ofItems?, natural?_number, Account.IsStorable, hid]

/-- The accounts are read back if all their numbers fit, and nothing else is read. -/
theorem accounts?_values (us : List Account) :
    accounts? (us.map fun u => .object (values u)) =
      if ∀ u ∈ us, u.IsStorable then some us else none := by
  have hread : (us.map fun u => Value.object (values u)).map account? =
      us.map fun u => if u.IsStorable then some u else none := by
    simp only [List.map_map, Function.comp_def, account?_values]
  rw [accounts?, hread]
  by_cases hall : ∀ u ∈ us, u.IsStorable
  · have hsome : (us.map fun u => if u.IsStorable then some u else none) = us.map some :=
      List.map_congr_left fun u hu => if_pos (hall u hu)
    simp only [hsome, if_pos hall, List.all_map, List.filterMap_map]
    simp
  · have hnone : (us.map fun u => if u.IsStorable then some u else none).all Option.isSome = false := by
      simpa using hall
    simp only [hnone, if_neg hall, Bool.false_eq_true, if_false]

/-- A file that has been printed is read back if all its numbers fit. -/
theorem parse_toBytes_accounts (us : List Account) :
    parse (toBytes us) = if ∀ u ∈ us, u.IsStorable then some us else none := by
  rw [parse, toBytes, (writes_print us).parse]
  exact accounts?_values us

theorem parse_nil : parse [] = none := by decide

theorem save_snd (d : Disk) (path : Text) (us : List Account) :
    (save d path us).2 = (Disk.applyAll (saving path us) d).2 := by
  unfold save
  split <;> simp [*]

/-- The changes that come before the temporary file is made. -/
def preparing (path : Text) : List Change :=
  match FilePath.parent? path with
  | some (c :: cs) => [.makeDirectories (c :: cs)]
  | _ => []

/-- A saving makes directories, and then writes the temporary file and moves it. -/
theorem savingParts_eq (path : Text) (parts : List Bytes) :
    savingParts path parts = preparing path ++ .create (temporary path) ::
      (parts.map (.append (temporary path)) ++ [.rename (temporary path) path]) := by
  rw [savingParts, List.append_assoc, List.cons_append]
  rfl

/-- A saving that succeeds has moved the whole document. -/
theorem save_eq_ok_iff {d d' : Disk} {path : Text} {us : List Account} :
    save d path us = (.ok (), d') ↔ ∃ d₁ place e,
      Disk.applyAll (preparing path) d = (.ok (), d₁) ∧
      d₁.openFile (temporary path) = .ok (place, e) ∧
      (d₁.put place (e.filled (toBytes us))).rename (temporary path) path = .ok d' := by
  have hsave : save d path us = (.ok (), d') ↔ Disk.applyAll (saving path us) d = (.ok (), d') := by
    unfold save
    split <;> simp_all
  rw [hsave, saving, savingParts_eq]
  constructor
  · intro hall
    obtain ⟨d₁, hprepared, hall⟩ := Disk.applyAll_append_eq_ok hall
    cases hopen : d₁.openFile (temporary path) with
    | error k =>
      obtain ⟨d₂, hcreate, -⟩ := Disk.applyAll_cons_eq_ok hall
      rw [Change.apply, Disk.settle_eq_ok_iff, Disk.create, hopen] at hcreate
      cases hcreate
    | ok r =>
      obtain ⟨place, e⟩ := r
      rw [Disk.applyAll_write hopen, List.flatten_singleton] at hall
      obtain ⟨d₂, hmove, hall⟩ := Disk.applyAll_cons_eq_ok hall
      obtain rfl : d₂ = d' := congrArg Prod.snd hall
      exact ⟨d₁, place, e, hprepared, hopen, Disk.settle_eq_ok_iff.mp hmove⟩
  · rintro ⟨d₁, place, e, hprepared, hopen, hrename⟩
    have hmove : (Change.rename (temporary path) path).apply
        (d₁.put place (e.filled (toBytes us))) = (.ok (), d') := Disk.settle_eq_ok_iff.mpr hrename
    rw [Disk.applyAll_append_of_ok hprepared, Disk.applyAll_write hopen, List.flatten_singleton,
      Disk.applyAll_cons_of_ok hmove, Disk.applyAll]

/-- A saved file is found at its path, unless a device has kept nothing of it. -/
theorem look_of_save {d d' : Disk} {path : Text} {us : List Account}
    (h : save d path us = (.ok (), d')) :
    ∃ e : Entry, e ≠ .directory ∧ d'.look path = .ok (e.filled (toBytes us)) := by
  obtain ⟨d₁, place, e, -, hopen, hrename⟩ := save_eq_ok_iff.mp h
  have he := (Disk.openFile_eq_ok hopen).1
  exact ⟨e, he, Disk.look_of_rename (Disk.filled_ne_directory he _)
    (Disk.look_put_of_openFile hopen _) hrename⟩

theorem load_of_missing {files : Files} {path : Text} (h : files path = .error .notFound)
    (a : Accounts) : load files path a = (.ok 0, a) := by
  simp only [load, h, ofEntry]

theorem parse_of_ofEntry_eq_some {r : Except FaultKind Entry} {us : List Account}
    (h : ofEntry r = .ok (some us)) :
    ∃ e content, r = .ok e ∧ e.content? = some content ∧ parse content = some us := by
  unfold ofEntry at h
  split at h
  · simp at h
  · simp at h
  · next e =>
    split at h
    · simp at h
    · next content hcontent =>
      split at h
      · simp at h
      · next vs hvs =>
        split at h
        · simp at h
        · obtain rfl : vs = us := by simpa using h
          exact ⟨e, content, rfl, hcontent, hvs⟩

/-- What a file describes is a list in its bytes; nothing can be read in a device. -/
theorem file_of_ofEntry_eq_some {r : Except FaultKind Entry} {us : List Account}
    (h : ofEntry r = .ok (some us)) :
    ∃ content, r = .ok (.file content) ∧ parse content = some us ∧
      us.length ≤ Accounts.userLimit := by
  obtain ⟨e, content, rfl, hcontent, hparse⟩ := parse_of_ofEntry_eq_some h
  have hn : us.length ≤ Accounts.userLimit := by
    simp only [ofEntry, hcontent, hparse] at h
    split at h
    · cases h
    · next hn => exact Nat.le_of_not_lt hn
  cases e with
  | directory => cases hcontent
  | file c => exact ⟨content, by rw [Option.some.inj hcontent], hparse, hn⟩
  | sink =>
    obtain rfl : [] = content := Option.some.inj hcontent
    rw [parse_nil] at hparse
    cases hparse

/-- Where a saving has written, loading takes over the saved accounts or changes nothing. -/
theorem load_of_filled {files : Files} {path : Text} {e : Entry} {us : List Account}
    (h : files path = .ok (e.filled (toBytes us))) (a : Accounts) :
    (load files path a).2 = a ∨ (load files path a).2 = { a with users := us } := by
  unfold load
  split
  · exact .inl rfl
  · exact .inl rfl
  · next vs hvs =>
    obtain ⟨e', content, he', hcontent, hparse⟩ := parse_of_ofEntry_eq_some hvs
    obtain rfl : e.filled (toBytes us) = e' := Except.ok.inj (h.symm.trans he')
    cases e with
    | directory | file c =>
      obtain rfl : toBytes us = content := Option.some.inj hcontent
      rw [parse_toBytes_accounts] at hparse
      split at hparse
      · obtain rfl := Option.some.inj hparse
        exact .inr rfl
      · simp at hparse
    | sink =>
      obtain rfl : [] = content := Option.some.inj hcontent
      simp [parse_nil] at hparse

/-- Loading undoes saving: the same accounts in the same order, whoever loads them, and no change to
the sessions. A device that keeps nothing must not be in the place of the file. -/
theorem load_save {d d' : Disk} {path : Text} {us : List Account} (hu : ∀ u ∈ us, u.IsStorable)
    (hn : us.length ≤ Accounts.userLimit) (h : save d path us = (.ok (), d'))
    (hd : d'.look path ≠ .ok .sink) (a : Accounts) :
    load d'.look path a = (.ok us.length, { a with users := us }) := by
  obtain ⟨e, he, hlook⟩ := look_of_save h
  have hcontent : (e.filled (toBytes us)).content? = some (toBytes us) := by
    cases e with
    | directory => exact absurd rfl he
    | file c => rfl
    | sink => exact absurd hlook hd
  simp only [load, ofEntry, hlook, hcontent, parse_toBytes_accounts, if_pos hu,
    if_neg (Nat.not_lt.mpr hn)]

/-- Texts with quotes, controls and characters of four bytes, the largest numbers, and a directory
that is made on the way. -/
theorem load_save_of_odd_texts :
    let us : List Account :=
      [⟨1, "\"\\/".toList, "\n\x00\x7f@é".toList, [], "𝄞\uFFFD".toList, 0, 0, false, .admin⟩,
        ⟨4294967295, [], [], ['a'], [], 18446744073709551615, 18446744073709551615, true, .user⟩]
    let path := "data/users.json".toList
    let d' := (save {} path us).2
    (∀ u ∈ us, u.IsStorable) ∧ us.length ≤ Accounts.userLimit ∧ save {} path us = (.ok (), d') ∧
      d'.look path ≠ .ok .sink ∧ ∀ a, load d'.look path a = (.ok 2, { a with users := us }) := by
  intro us path d'
  have hu : ∀ u ∈ us, u.IsStorable := by decide
  have hn : us.length ≤ Accounts.userLimit := by decide
  have hok : (save {} path us).1 = .ok () := by decide +kernel
  have hsave : save {} path us = (.ok (), d') := by
    rw [← hok]
  have hd : d'.look path ≠ .ok .sink := by decide +kernel
  exact ⟨hu, hn, hsave, hd, fun a => load_save hu hn hsave hd a⟩

end UsersFile
end WebHost
