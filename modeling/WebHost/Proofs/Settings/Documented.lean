import WebHost.Settings.CommandLine
import WebHost.Proofs.Text.Numeral

/-! The settings as they are documented: under which names each is given, what it is when it is not
given, and which texts stand for its values. Putting a text into the settings sets the one field to
the value that the text stands for. -/
namespace WebHost.Settings
open Text (IsNumeral)

inductive Value
  | text (t : Text)
  | port (n : UInt16)
  | limit (n : UInt64)
  deriving DecidableEq, Repr

namespace Value

/-- A text stands for itself. A numeral stands for its number, and may have a plus sign in front;
zero as a port may have a minus sign. -/
inductive Meant : Text → Value → Prop
  | text (t : Text) : Meant t (.text t)
  | port {t : Text} {n : UInt16} (h : IsNumeral t n.toNat) : Meant t (.port n)
  | plusPort {t : Text} {n : UInt16} (h : IsNumeral t n.toNat) : Meant ('+' :: t) (.port n)
  | minusPort {t : Text} (h : IsNumeral t 0) : Meant ('-' :: t) (.port 0)
  | limit {t : Text} {n : UInt64} (h : IsNumeral t n.toNat) : Meant t (.limit n)
  | plusLimit {t : Text} {n : UInt64} (h : IsNumeral t n.toNat) : Meant ('+' :: t) (.limit n)

def print : Value → Text
  | .text t => t
  | .port n => Text.decimal n.toNat
  | .limit n => Text.decimal n.toNat

end Value

/-- What is documented of a setting. -/
structure Documented where
  /-- The name of its option, which is written behind two dashes. -/
  option : Text
  /-- The name of its environment variable. -/
  environment : Text
  /-- The default, as it would be written. -/
  fallback : Text
  value : Settings → Value

def Field.documented : Field → Documented
  | .host => ⟨"host".toList, "HTTP_HOST".toList, "0.0.0.0".toList, fun s => .text s.host⟩
  | .port => ⟨"port".toList, "HTTP_PORT".toList, "5000".toList, fun s => .port s.port⟩
  | .staticLead =>
    ⟨"static-prefix".toList, "STATIC_PREFIX".toList, "/static".toList, fun s => .text s.staticLead⟩
  | .staticRoot =>
    ⟨"static-dir".toList, "STATIC_DIR".toList, "static".toList, fun s => .text s.staticRoot⟩
  | .pages =>
    ⟨"templates-dir".toList, "TEMPLATES_DIR".toList, "templates".toList, fun s => .text s.pages⟩
  | .usersFile =>
    ⟨"users-file".toList, "USERS_FILE".toList, "data/users.json".toList, fun s => .text s.usersFile⟩
  | .requestLimit =>
    ⟨"max-request-bytes".toList, "MAX_REQUEST_BYTES".toList, "65536".toList,
      fun s => .limit s.requestLimit⟩
  | .fileLimit =>
    ⟨"max-file-bytes".toList, "MAX_FILE_BYTES".toList, "65536".toList, fun s => .limit s.fileLimit⟩
  | .headerLimit =>
    ⟨"max-headers".toList, "MAX_HEADERS".toList, "50".toList, fun s => .limit s.headerLimit⟩
  | .patience =>
    ⟨"read-timeout-ms".toList, "READ_TIMEOUT_MS".toList, "5000".toList, fun s => .limit s.patience⟩
  | .connectionLimit =>
    ⟨"max-connections".toList, "MAX_CONNECTIONS".toList, "0".toList,
      fun s => .limit s.connectionLimit⟩
  | .log => ⟨"log-file".toList, "LOG_FILE".toList, "server.log".toList, fun s => .text s.log⟩

namespace Field

def value (f : Field) (s : Settings) : Value := f.documented.value s

theorem optionName_eq (f : Field) : f.optionName = f.documented.option := by cases f <;> rfl

theorem variableName_eq (f : Field) : f.variableName = f.documented.environment := by
  cases f <;> rfl

theorem mem_all (f : Field) : f ∈ all := by cases f <;> decide

theorem nodup_all : all.Nodup := by decide

/-- An option is found by its name. -/
theorem ofOption?_option (f : Field) : ofOption? f.documented.option = some f := by
  cases f <;> decide

end Field

section Meaning
variable {s s' : Settings} {f : Field} {t : Text}

theorem not_isNumeral_minus {digits : Text} {n : Nat} : ¬ IsNumeral ('-' :: digits) n := fun h =>
  absurd (h.isDigit (List.mem_cons_self ..)) (by decide)

theorem meant_text_iff {u : Text} : Value.Meant t (.text u) ↔ t = u :=
  ⟨fun h => by cases h; rfl, fun h => h ▸ .text t⟩

theorem port?_eq_some_iff {n : UInt16} : Text.port? t = some n ↔ Value.Meant t (.port n) := by
  have hbound : n.toNat < UInt16.size := n.toNat_lt_size
  constructor
  · intro h
    unfold Text.port? at h
    split at h
    · next digits =>
      obtain ⟨m, hm, h⟩ := Option.bind_eq_some_iff.mp h
      obtain ⟨rfl, rfl⟩ : m = 0 ∧ 0 = n := by simpa using h
      exact .minusPort (Text.decimalValue?_eq_some_iff.mp hm)
    · obtain ⟨m, hm, rfl⟩ := Option.map_eq_some_iff.mp h
      obtain ⟨hlt, hread⟩ := Text.boundedValue?_eq_some_iff.mp hm
      have hto : (UInt16.ofNat m).toNat = m := UInt16.toNat_ofNat_of_lt' hlt
      rcases hread with hread | ⟨digits, rfl, hread⟩
      · exact .port (hto.symm ▸ hread)
      · exact .plusPort (hto.symm ▸ hread)
  · intro h
    unfold Text.port?
    split
    · next digits =>
      cases h with
      | port h => exact absurd h not_isNumeral_minus
      | minusPort h => rw [Text.decimalValue?_eq_some_iff.mpr h]; rfl
    · next hminus =>
      have hread : Text.boundedValue? UInt16.size t = some n.toNat := by
        rw [Text.boundedValue?_eq_some_iff]
        cases h with
        | port h => exact ⟨hbound, .inl h⟩
        | plusPort h => exact ⟨hbound, .inr ⟨_, rfl, h⟩⟩
        | minusPort h => exact absurd rfl (hminus _)
      rw [hread, Option.map_some, UInt16.ofNat_toNat]

theorem limit?_eq_some_iff {n : UInt64} : limit? t = some n ↔ Value.Meant t (.limit n) := by
  have hbound : n.toNat < Text.sizeBound := n.toNat_lt_size
  rw [limit?, Option.map_eq_some_iff]
  constructor
  · rintro ⟨m, hm, rfl⟩
    obtain ⟨hlt, hread⟩ := Text.size?_eq_some_iff.mp hm
    have hto : (UInt64.ofNat m).toNat = m := UInt64.toNat_ofNat_of_lt' hlt
    rcases hread with hread | ⟨digits, rfl, hread⟩
    · exact .limit (hto.symm ▸ hread)
    · exact .plusLimit (hto.symm ▸ hread)
  · intro h
    refine ⟨n.toNat, Text.size?_eq_some_iff.mpr ?_, UInt64.ofNat_toNat⟩
    cases h with
    | limit h => exact ⟨hbound, .inl h⟩
    | plusLimit h => exact ⟨hbound, .inr ⟨_, rfl, h⟩⟩

/-- A text has one meaning among the values of one sort. -/
theorem Value.Meant.unique {v w : Value} (h : Meant t v) (h' : Meant t w)
    (hsort : v.ctorIdx = w.ctorIdx) : v = w := by
  cases v with
  | text u =>
    cases w with
    | text u' => rw [← meant_text_iff.mp h, ← meant_text_iff.mp h']
    | _ => cases hsort
  | port n =>
    cases w with
    | port n' =>
      rw [Option.some.inj ((port?_eq_some_iff.mpr h).symm.trans (port?_eq_some_iff.mpr h'))]
    | _ => cases hsort
  | limit n =>
    cases w with
    | limit n' =>
      rw [Option.some.inj ((limit?_eq_some_iff.mpr h).symm.trans (limit?_eq_some_iff.mpr h'))]
    | _ => cases hsort

theorem Value.meant_print (v : Value) : Meant v.print v := by
  cases v with
  | text t => exact .text t
  | port n => exact .port (Text.isNumeral_decimal n.toNat)
  | limit n => exact .limit (Text.isNumeral_decimal n.toNat)

theorem value_eq_of_meant (h : Value.Meant t (f.value s)) (h' : Value.Meant t (f.value s')) :
    f.value s = f.value s' :=
  h.unique h' (by cases f <;> rfl)

/-- Settings with the same values are the same. -/
theorem eq_of_value_eq (h : ∀ f : Field, f.value s = f.value s') : s = s' := by
  obtain ⟨⟩ := s
  obtain ⟨⟩ := s'
  rw [Settings.mk.injEq]
  exact ⟨Value.text.inj (h .host), Value.port.inj (h .port), Value.text.inj (h .staticLead),
    Value.text.inj (h .staticRoot), Value.text.inj (h .pages), Value.text.inj (h .usersFile),
    Value.limit.inj (h .requestLimit), Value.limit.inj (h .fileLimit),
    Value.limit.inj (h .headerLimit), Value.limit.inj (h .patience),
    Value.limit.inj (h .connectionLimit), Value.text.inj (h .log)⟩

/-- The default is the value that the documented one stands for. -/
theorem meant_fallback (f : Field) : Value.Meant f.documented.fallback (f.value {}) := by
  cases f
  case port => exact Value.meant_print (.port 5000)
  case requestLimit => exact Value.meant_print (.limit 65536)
  case fileLimit => exact Value.meant_print (.limit 65536)
  case headerLimit => exact Value.meant_print (.limit 50)
  case patience => exact Value.meant_print (.limit 5000)
  case connectionLimit => exact Value.meant_print (.limit 0)
  all_goals exact .text _

theorem value_of_put? (h : s.put? f t = some s') :
    Value.Meant t (f.value s') ∧ ∀ g, g ≠ f → g.value s' = g.value s := by
  cases f <;> simp only [put?, Option.map_eq_some_iff, Option.some.injEq] at h
  case port =>
    obtain ⟨n, hn, rfl⟩ := h
    exact ⟨port?_eq_some_iff.mp hn, fun g hg => by cases g <;> first | rfl | exact absurd rfl hg⟩
  case requestLimit | fileLimit | headerLimit | patience | connectionLimit =>
    obtain ⟨n, hn, rfl⟩ := h
    exact ⟨limit?_eq_some_iff.mp hn, fun g hg => by cases g <;> first | rfl | exact absurd rfl hg⟩
  all_goals
    subst h
    exact ⟨.text t, fun g hg => by cases g <;> first | rfl | exact absurd rfl hg⟩

theorem exists_put? (h : Value.Meant t (f.value s')) (s : Settings) :
    ∃ s'', s.put? f t = some s'' := by
  cases f
  case port => exact ⟨_, by rw [put?, port?_eq_some_iff.mpr h, Option.map_some]⟩
  case requestLimit | fileLimit | headerLimit | patience | connectionLimit =>
    exact ⟨_, by rw [put?, limit?_eq_some_iff.mpr h, Option.map_some]⟩
  all_goals exact ⟨_, rfl⟩

end Meaning
end WebHost.Settings
