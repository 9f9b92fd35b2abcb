/-! Actions: programs over operations, each of which runs undivided. Operations of other actions
may come between two operations of one. -/
namespace WebHost

inductive Action (Op : Type → Type) (α : Type) : Type 1
  | done (a : α)
  | step {β : Type} (o : Op β) (next : β → Action Op α)

namespace Action
variable {Op Op' : Type → Type} {α β γ σ : Type}

def bind : Action Op α → (α → Action Op γ) → Action Op γ
  | .done a, f => f a
  | .step o next, f => .step o fun b => (next b).bind f

instance : Monad (Action Op) where
  pure := .done
  bind := bind

/-- The action of one operation. -/
def perform (o : Op β) : Action Op β := .step o .done

/-- The same action over a wider family of operations. -/
def lift (wider : {β : Type} → Op β → Op' β) : Action Op α → Action Op' α
  | .done a => .done a
  | .step o next => .step (wider o) fun b => (next b).lift wider

/-- A run in which nothing comes between. -/
def run (apply : {β : Type} → Op β → σ → β × σ) : Action Op α → σ → α × σ
  | .done a, s => (a, s)
  | .step o next, s => (next (apply o s).1).run apply (apply o s).2

/-- An action carried out in another monad, operation by operation. -/
def carryOut {m : Type → Type} [Monad m] (perform : {β : Type} → Op β → m β) : Action Op α → m α
  | .done a => pure a
  | .step o next => do (next (← perform o)).carryOut perform

@[simp] theorem run_pure (apply : {β : Type} → Op β → σ → β × σ) (a : α) (s : σ) :
    (pure a : Action Op α).run apply s = (a, s) := rfl

@[simp] theorem run_perform (apply : {β : Type} → Op β → σ → β × σ) (o : Op β) (s : σ) :
    (perform o).run apply s = apply o s := rfl

@[simp] theorem run_bind (apply : {β : Type} → Op β → σ → β × σ) (p : Action Op α)
    (f : α → Action Op γ) (s : σ) :
    (p >>= f).run apply s = (f (p.run apply s).1).run apply (p.run apply s).2 := by
  induction p generalizing s with
  | done a => rfl
  | step o next ih => exact ih _ _

theorem bind_assoc (p : Action Op α) (f : α → Action Op β) (g : β → Action Op γ) :
    (p.bind f).bind g = p.bind fun a => (f a).bind g := by
  induction p with
  | done a => rfl
  | step o next ih => exact congrArg _ (funext ih)

theorem bind_done (p : Action Op α) : p.bind .done = p := by
  induction p with
  | done a => rfl
  | step o next ih => exact congrArg _ (funext ih)

instance : LawfulMonad (Action Op) :=
  .mk' (Action Op) bind_done (fun _ _ => rfl) bind_assoc

end Action
end WebHost
