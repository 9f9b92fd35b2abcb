import Mathlib.Logic.Function.Basic
import WebHost.Proofs.Site.Registrations

/-! Any number of clients at one site. Each follows an action of its own, which may be the answering
of a request whose handler adds routes and has other requests answered, and their operations come in
any order. The route table only grows: it takes the additions as they come, and whoever answers for
a method and a path answers for them ever after. -/
namespace WebHost
open Http

namespace Action
variable {Op : Type → Type} {α : Type}

/-- An operation that has been done, with its answer. -/
structure Deed (Op : Type → Type) where
  {Answer : Type}
  op : Op Answer
  answer : Answer

/-- These are the next operations of an action if they are answered so, and the second action is what
then remains. -/
inductive Leads : Action Op α → List (Deed Op) → Action Op α → Prop
  | nil (p : Action Op α) : Leads p [] p
  | cons {β : Type} {o : Op β} {b : β} {next : β → Action Op α} {ds : List (Deed Op)}
      {p : Action Op α} (tail : Leads (next b) ds p) : Leads (.step o next) (⟨o, b⟩ :: ds) p

theorem Leads.trans {p q r : Action Op α} {ds ds' : List (Deed Op)} (h : Leads p ds q)
    (h' : Leads q ds' r) : Leads p (ds ++ ds') r := by
  induction h with
  | nil p => exact h'
  | cons _ ih => exact .cons (ih h')

theorem leads_done_iff {a : α} {ds : List (Deed Op)} {p : Action Op α} :
    Leads (.done a) ds p ↔ ds = [] ∧ p = .done a := by
  constructor
  · intro h
    cases h
    exact ⟨rfl, rfl⟩
  · rintro ⟨rfl, rfl⟩
    exact .nil _

theorem leads_step_iff {β : Type} {o : Op β} {next : β → Action Op α} {ds : List (Deed Op)}
    {p : Action Op α} :
    Leads (.step o next) ds p ↔
      ds = [] ∧ p = .step o next ∨ ∃ b ds', ds = ⟨o, b⟩ :: ds' ∧ Leads (next b) ds' p := by
  constructor
  · intro h
    cases h with
    | nil => exact .inl ⟨rfl, rfl⟩
    | cons tail => exact .inr ⟨_, _, rfl, tail⟩
  · rintro (⟨rfl, rfl⟩ | ⟨b, ds', rfl, tail⟩)
    · exact .nil _
    · exact .cons tail

end Action

/-- The whole is made of the parts, each in its own order. -/
inductive Interleaves {ι α : Type} [DecidableEq ι] : (ι → List α) → List α → Prop
  | nil : Interleaves (fun _ => []) []
  | cons {parts whole} (i : ι) (x : α) (tail : Interleaves parts whole) :
      Interleaves (Function.update parts i (x :: parts i)) (x :: whole)

/-- What is done, by whom. -/
abbrev Site.Event (ι : Type) : Type 1 := ι × Action.Deed Site.Op

namespace Site
variable {ι : Type} [DecidableEq ι] {α : ι → Type}

/-- What one client does, in order. -/
def share (i : ι) (es : List (Event ι)) : List (Action.Deed Op) :=
  (es.filter (·.1 = i)).map Prod.snd

@[simp] theorem share_nil (i : ι) : share i [] = [] := rfl

theorem share_cons (i : ι) (e : Event ι) (es : List (Event ι)) :
    share i (e :: es) = if e.1 = i then e.2 :: share i es else share i es := by
  by_cases h : e.1 = i <;> simp [share, h]

theorem mem_share {i : ι} {d : Action.Deed Op} {es : List (Event ι)} :
    d ∈ share i es ↔ (i, d) ∈ es := by
  simp [share]

/-- Where a client's share has a deed, the whole has it. -/
theorem split_of_share {i : ι} {es : List (Event ι)} {ds ds' : List (Action.Deed Op)}
    {d : Action.Deed Op} (h : share i es = ds ++ d :: ds') :
    ∃ before after, es = before ++ (i, d) :: after ∧ share i before = ds ∧ share i after = ds' := by
  induction es generalizing ds with
  | nil => simp at h
  | cons e es ih =>
    rw [share_cons] at h
    split at h
    · next hi =>
      obtain ⟨j, c⟩ := e
      obtain rfl : j = i := hi
      cases ds with
      | nil =>
        obtain ⟨rfl, rfl⟩ := List.cons.inj h
        exact ⟨[], es, rfl, rfl, rfl⟩
      | cons c' ds =>
        obtain ⟨rfl, htail⟩ := List.cons.inj h
        obtain ⟨before, after, rfl, rfl, rfl⟩ := ih htail
        exact ⟨(j, c) :: before, after, rfl, by simp [share_cons], rfl⟩
    · next hi =>
      obtain ⟨before, after, rfl, rfl, rfl⟩ := ih h
      exact ⟨e :: before, after, rfl, by simp [share_cons, hi], rfl⟩

theorem interleaves_share {β : Type} (f : Action.Deed Op → Option β) (es : List (Event ι)) :
    Interleaves (fun i => (share i es).filterMap f) (es.filterMap fun e => f e.2) := by
  induction es with
  | nil => exact .nil
  | cons e es ih =>
    cases hf : f e.2 with
    | none =>
      have hparts : (fun i => (share i (e :: es)).filterMap f) = fun i => (share i es).filterMap f := by
        funext i
        rw [share_cons]
        split <;> simp [hf]
      rw [hparts]
      simpa only [List.filterMap_cons, hf] using ih
    | some b =>
      have hparts : (fun i => (share i (e :: es)).filterMap f) =
          Function.update (fun i => (share i es).filterMap f) e.1 (b :: (share e.1 es).filterMap f) := by
        funext i
        rw [share_cons, Function.update_apply]
        by_cases hi : e.1 = i
        · subst hi
          simp [hf]
        · simp [hi, Ne.symm hi]
      rw [hparts]
      simpa only [List.filterMap_cons, hf] using .cons e.1 b ih

end Site

namespace Routes

/-- What an operation has added, if it has been answered so. -/
def Op.added? {β : Type} : Op β → β → Option Registration
  | .addRoute r, .ok () => some (.exact r)
  | .addStatic s, .ok () => some (.static s)
  | _, _ => none

theorem Op.apply_eq {β : Type} (o : Op β) (t : Routes) :
    (o.apply t).2 = (o.added? (o.apply t).1).elim t t.register := by
  cases o <;> rfl

theorem Op.added?_of_refusal? {β : Type} {o : Op β} {answer : β} (h : o.refusal? = some answer) :
    o.added? answer = none := by
  cases o with
  | addRoute r =>
    obtain rfl := Option.some.inj h
    rfl
  | addStatic s =>
    obtain rfl := Option.some.inj h
    rfl
  | resolve method path => cases h

theorem resolve_eq_handler_iff {t : Routes} {method path : Text} {h : Handler} :
    t.resolve method path = .handler h ↔
      (t.exact.find? fun r => r.method == method && r.path == path).map Route.handler = some h := by
  rw [resolve]
  cases t.exact.find? fun r => r.method == method && r.path == path with
  | some r => simp
  | none => cases t.static.findSome? fun s => s.file? path <;> simp

/-- A handler that answers goes on answering when entries are added behind. -/
theorem resolve_of_exact_prefix {t t' : Routes} (hpre : t.exact <+: t'.exact) {method path : Text}
    {h : Handler} (ht : t.resolve method path = .handler h) :
    t'.resolve method path = .handler h := by
  obtain ⟨added, hadded⟩ := hpre
  rw [resolve_eq_handler_iff, Option.map_eq_some_iff] at ht
  obtain ⟨r, hr, hh⟩ := ht
  rw [resolve_eq_handler_iff, ← hadded, List.find?_append, hr, Option.some_or, Option.map_some, hh]

end Routes

namespace Action.Deed

/-- What has been added to the route table. -/
def added? : Deed Site.Op → Option Registration
  | ⟨.inl _, _⟩ => none
  | ⟨.inr o, answer⟩ => o.added? answer

def route? (d : Deed Site.Op) : Option Route := d.added?.bind Registration.route?

def static? (d : Deed Site.Op) : Option StaticRoute := d.added?.bind Registration.static?

/-- The table was looked at for a method and a path, and gave this. -/
def resolved (method path : Text) (t : Target) : Deed Site.Op := ⟨.inr (.resolve method path), t⟩

end Action.Deed

/-- A site and its clients, each with what it still has to do. -/
structure Crowd {ι : Type} (α : ι → Type) where
  site : Site
  rest : (i : ι) → Action Site.Op (α i)

namespace Crowd
open WebHost.Action Site
variable {ι : Type} [DecidableEq ι] {α : ι → Type} {p q r : Crowd α} {es fs : List (Event ι)}

/-- A client has its next operation done. An addition may be refused where memory is short. -/
inductive Step (p : Crowd α) : Event ι → Crowd α → Prop
  | perform {i : ι} {β : Type} {o : Site.Op β} {next : β → Action Site.Op (α i)} (m : Moment)
      (turn : p.rest i = .step o next) :
      Step p (i, ⟨o, (applyAt m o p.site).1⟩)
        ⟨(applyAt m o p.site).2, Function.update p.rest i (next (applyAt m o p.site).1)⟩
  | refuse {i : ι} {β : Type} {o : Routes.Op β} {next : β → Action Site.Op (α i)} {answer : β}
      (turn : p.rest i = .step (.inr o) next) (short : o.refusal? = some answer) :
      Step p (i, ⟨.inr o, answer⟩) ⟨p.site, Function.update p.rest i (next answer)⟩

/-- The clients take turns in any way. -/
inductive Run : Crowd α → List (Event ι) → Crowd α → Prop
  | nil (p : Crowd α) : Run p [] p
  | cons {p q r : Crowd α} {e : Event ι} {es : List (Event ι)} (head : Step p e q)
      (tail : Run q es r) : Run p (e :: es) r

theorem Step.routes_eq {e : Event ι} (h : Step p e q) :
    q.site.routes = e.2.added?.elim p.site.routes p.site.routes.register := by
  cases h with
  | @perform i β o next m turn =>
    cases o with
    | inl o => rfl
    | inr o => exact o.apply_eq p.site.routes
  | @refuse i β o next answer turn short =>
    rw [Deed.added?, Routes.Op.added?_of_refusal? short]
    rfl

theorem Step.leads {e : Event ι} (h : Step p e q) (i : ι) :
    Leads (p.rest i) (share i [e]) (q.rest i) := by
  have hstep {j : ι} {β : Type} {o : Site.Op β} {next : β → Action Site.Op (α j)} {b : β}
      (turn : p.rest j = .step o next) :
      Leads (p.rest i) (share i [(j, ⟨o, b⟩)]) (Function.update p.rest j (next b) i) := by
    rw [share_cons, share_nil]
    by_cases hj : j = i
    · subst hj
      rw [turn, if_pos rfl, Function.update_self]
      exact .cons (.nil _)
    · rw [if_neg hj, Function.update_of_ne (Ne.symm hj)]
      exact .nil _
  cases h with
  | perform m turn => exact hstep turn
  | refuse turn short => exact hstep turn

/-- A look at the table shows it as it is. -/
theorem Step.resolved {i : ι} {method path : Text} {t : Target}
    (h : Step p (i, .resolved method path t) q) : t = p.site.routes.resolve method path := by
  cases h with
  | perform m turn => rfl
  | refuse turn short => cases short

theorem Run.leads (h : Run p es q) (i : ι) : Leads (p.rest i) (share i es) (q.rest i) := by
  induction h with
  | nil p => exact .nil _
  | @cons p q r e es head tail ih =>
    have hshare : share i (e :: es) = share i [e] ++ share i es := by
      rw [share_cons, share_cons, share_nil]
      split <;> rfl
    rw [hshare]
    exact (head.leads i).trans ih

theorem Run.routes_eq (h : Run p es q) :
    q.site.routes = (es.filterMap fun e => e.2.added?).foldl Routes.register p.site.routes := by
  induction h with
  | nil p => rfl
  | @cons p q r e es head tail ih =>
    rw [ih, head.routes_eq, List.filterMap_cons]
    cases e.2.added? <;> rfl

theorem Run.exact_eq (h : Run p es q) :
    q.site.routes.exact = p.site.routes.exact ++ es.filterMap fun e => e.2.route? := by
  rw [h.routes_eq, Routes.foldl_register]
  exact congrArg _ List.filterMap_filterMap

theorem Run.static_eq (h : Run p es q) :
    q.site.routes.static = p.site.routes.static ++ es.filterMap fun e => e.2.static? := by
  rw [h.routes_eq, Routes.foldl_register]
  exact congrArg _ List.filterMap_filterMap

theorem Run.resolve_eq (h : Run p es q) {method path : Text} {handler : Handler}
    (hp : p.site.routes.resolve method path = .handler handler) :
    q.site.routes.resolve method path = .handler handler :=
  Routes.resolve_of_exact_prefix (h.exact_eq ▸ List.prefix_append ..) hp

/-- What an operation on the accounts has answered and done. -/
theorem Step.applied {i : ι} {β : Type} {o : Accounts.Op β} {b : β}
    (h : Step p (i, ⟨.inl o, b⟩) q) :
    ∃ m, b = (o.apply m p.site.accounts).1 ∧ q.site.accounts = (o.apply m p.site.accounts).2 := by
  cases h with
  | perform m turn => exact ⟨m, rfl, rfl⟩

theorem Step.accounts_eq {i : ι} {β : Type} {o : Routes.Op β} {b : β}
    (h : Step p (i, ⟨.inr o, b⟩) q) : q.site.accounts = p.site.accounts := by
  cases h with
  | perform m turn => rfl
  | refuse turn short => rfl

theorem run_append_iff : Run p (es ++ fs) r ↔ ∃ q, Run p es q ∧ Run q fs r := by
  constructor
  · intro h
    induction es generalizing p with
    | nil => exact ⟨p, .nil p, h⟩
    | cons e es ih =>
      cases h with
      | cons head tail =>
        obtain ⟨q, hq, hr⟩ := ih tail
        exact ⟨q, .cons head hq, hr⟩
  · rintro ⟨q, hq, hr⟩
    induction hq with
    | nil p => exact hr
    | cons head _ ih => exact .cons head (ih hr)

theorem run_cons_iff {e : Event ι} : Run p (e :: es) r ↔ ∃ q, Step p e q ∧ Run q es r := by
  constructor
  · intro h
    cases h with
    | cons head tail => exact ⟨_, head, tail⟩
  · rintro ⟨q, head, tail⟩
    exact .cons head tail

theorem Run.exists_of_mem (h : Run p es q) {e : Event ι} (he : e ∈ es) :
    ∃ p' q' before after, Run p before p' ∧ Step p' e q' ∧ Run q' after q := by
  obtain ⟨before, after, rfl⟩ := List.append_of_mem he
  obtain ⟨p', hbefore, htail⟩ := run_append_iff.mp h
  obtain ⟨q', hstep, hafter⟩ := run_cons_iff.mp htail
  exact ⟨p', q', before, after, hbefore, hstep, hafter⟩

/-- Whatever turns the clients take, each follows its own action, and each list of the table is
what it was with the additions of the clients behind, each client's in its own order and every one
once. All of it stays at the beginning of every later table, and a handler that has answered for a
method and a path, or would, does so whenever they are looked up. -/
theorem routes_only_grow (hes : Run p es q) (hfs : Run q fs r) :
    (∀ i, Leads (p.rest i) (share i es) (q.rest i)) ∧
      (∃ exact static,
        q.site.routes = ⟨p.site.routes.exact ++ exact, p.site.routes.static ++ static⟩ ∧
          Interleaves (fun i => (share i es).filterMap Deed.route?) exact ∧
          Interleaves (fun i => (share i es).filterMap Deed.static?) static ∧
          exact.length = es.countP (fun e => e.2.route?.isSome) ∧
          static.length = es.countP fun e => e.2.static?.isSome) ∧
      (q.site.routes.exact <+: r.site.routes.exact ∧ q.site.routes.static <+: r.site.routes.static) ∧
      ∀ method path handler,
        (q.site.routes.resolve method path = .handler handler ∨
          ∃ i, (i, .resolved method path (.handler handler)) ∈ es) →
        r.site.routes.resolve method path = .handler handler ∧
          ∀ i t, (i, .resolved method path t) ∈ fs → t = .handler handler := by
  refine ⟨hes.leads, ⟨_, _, ?_, interleaves_share Deed.route? es, interleaves_share Deed.static? es,
    ?_, ?_⟩, ⟨hfs.exact_eq ▸ List.prefix_append .., hfs.static_eq ▸ List.prefix_append ..⟩, ?_⟩
  · rw [← hes.exact_eq, ← hes.static_eq]
  · rw [List.length_filterMap_eq_countP]
  · rw [List.length_filterMap_eq_countP]
  · intro method path handler hanswers
    have hq : q.site.routes.resolve method path = .handler handler := by
      rcases hanswers with hq | ⟨i, hi⟩
      · exact hq
      · obtain ⟨p', q', before, after, -, hstep, hafter⟩ := hes.exists_of_mem hi
        refine hafter.resolve_eq ?_
        rw [hstep.routes_eq]
        exact hstep.resolved.symm
    refine ⟨hfs.resolve_eq hq, fun i t hi => ?_⟩
    obtain ⟨p', q', before, after, hbefore, hstep, -⟩ := hfs.exists_of_mem hi
    rw [hstep.resolved, hbefore.resolve_eq hq]

/-- A client's request adds a route through its handler, and another client's addition comes between
the look at the table and that. -/
theorem routes_only_grow_between_look_and_addition :
    let adding : Route :=
      ⟨"POST".toList, "/add".toList, .script [.addRoute "GET".toList "/late".toList default]⟩
    let late : Route := ⟨"GET".toList, "/late".toList, default⟩
    let other : Route := ⟨"GET".toList, "/other".toList, default⟩
    let p : Crowd fun _ : Bool => Response :=
      { site := { routes := { exact := [adding] } }
        rest := fun
          | true => dispatch {} 2 ⟨"POST".toList, "/add".toList, [], [], []⟩
          | false => do
            let _ ← Action.perform (.inr (.addRoute other))
            dispatch {} 1 ⟨"POST".toList, "/add".toList, [], [], []⟩ }
    let es : List (Event Bool) :=
      [(true, .resolved adding.method adding.path (.handler adding.handler)),
        (false, ⟨.inr (.addRoute other), .ok ()⟩), (true, ⟨.inr (.addRoute late), .ok ()⟩)]
    let fs : List (Event Bool) :=
      [(false, .resolved adding.method adding.path (.handler adding.handler))]
    ∃ q r, Run p es q ∧ Run q fs r ∧ q.site.routes.exact = [adding, other, late] ∧
      q.site.routes.exact <+: r.site.routes.exact ∧
      r.site.routes.resolve adding.method adding.path = .handler adding.handler := by
  intro adding late other p es fs
  let m : Moment := ⟨0, [], []⟩
  obtain ⟨q, hq, hrest⟩ : ∃ q, Run p es q ∧
      q.rest false = dispatch {} 1 ⟨"POST".toList, "/add".toList, [], [], []⟩ :=
    ⟨_, .cons (.perform m rfl) (.cons (.perform m rfl) (.cons (.perform m rfl) (.nil _))), rfl⟩
  have hexact : q.site.routes.exact = [adding, other, late] := hq.exact_eq
  have hanswer : q.site.routes.resolve adding.method adding.path = .handler adding.handler := by
    rw [Routes.resolve, hexact]
    rfl
  obtain ⟨r, hr⟩ : ∃ r, Run q fs r := by
    have hstep : ∃ r, Step q (false, .resolved adding.method adding.path
        (q.site.routes.resolve adding.method adding.path)) r := ⟨_, .perform m hrest⟩
    rw [hanswer] at hstep
    obtain ⟨r, hstep⟩ := hstep
    exact ⟨r, .cons hstep (.nil r)⟩
  obtain ⟨-, -, ⟨hpre, -⟩, hlater⟩ := routes_only_grow hq hr
  exact ⟨q, r, hq, hr, hexact, hpre, (hlater _ _ _ (.inl hanswer)).1⟩

end Crowd
end WebHost
