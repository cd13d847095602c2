import Mathlib.Algebra.Group.Int.Defs
import Mathlib.Algebra.Group.Nat.Defs
import Mathlib.Logic.Function.Basic
import Mathlib.Tactic.Common

/-! Programs of one thread as trees of atomic actions on a shared state.
Control flow is Lean's own; only the actions touch the state. -/
namespace ExtMem.Threads

/-- What one thread acts on: the state all threads share and the thread's own. -/
structure Ctx (S L : Type) where
  sh : S
  loc : L

/-- What one atomic action does. A waiting action is not enabled in this state;
an aborting one ends the whole process with a reason. -/
inductive Outcome (ε σ β : Type) where
  | ok : β → σ → Outcome ε σ β
  | wait : Outcome ε σ β
  | abort : ε → Outcome ε σ β

/-- A program: a result, an atomic action, an answer of the environment, or a loop.
The loop body answers with the next loop state or with the value that leaves the loop. -/
inductive Prog (ε σ : Type) : Type → Type 1 where
  | ret {α : Type} : α → Prog ε σ α
  | act {α β : Type} : (σ → Outcome ε σ β) → (β → Prog ε σ α) → Prog ε σ α
  | ask {α : Type} : (Nat → Prog ε σ α) → Prog ε σ α
  | iter {α β ι : Type} : (ι → Prog ε σ (ι ⊕ β)) → ι → (β → Prog ε σ α) → Prog ε σ α

namespace Prog
variable {ε σ α β γ ι : Type}

def bind {α β : Type} : Prog ε σ α → (α → Prog ε σ β) → Prog ε σ β
  | .ret a, g => g a
  | .act f k, g => .act f fun b => (k b).bind g
  | .ask k, g => .ask fun n => (k n).bind g
  | .iter body i k, g => .iter body i fun b => (k b).bind g

instance : Monad (Prog ε σ) where
  pure := .ret
  bind := bind

theorem pure_def (a : α) : (pure a : Prog ε σ α) = .ret a := rfl

theorem bind_def (p : Prog ε σ α) (g : α → Prog ε σ β) : p >>= g = p.bind g := rfl

@[simp] theorem ret_bind (a : α) (g : α → Prog ε σ β) : (Prog.ret a).bind g = g a := rfl

@[simp] theorem act_bind (f : σ → Outcome ε σ γ) (k : γ → Prog ε σ α) (g : α → Prog ε σ β) :
    (Prog.act f k).bind g = .act f fun b => (k b).bind g := rfl

@[simp] theorem ask_bind (k : Nat → Prog ε σ α) (g : α → Prog ε σ β) :
    (Prog.ask k).bind g = .ask fun n => (k n).bind g := rfl

@[simp] theorem iter_bind (body : ι → Prog ε σ (ι ⊕ γ)) (i : ι) (k : γ → Prog ε σ α)
    (g : α → Prog ε σ β) : (Prog.iter body i k).bind g = .iter body i fun b => (k b).bind g := rfl

theorem bind_ret (p : Prog ε σ α) : p.bind .ret = p := by
  induction p with
  | ret a => rfl
  | act f k ih => simp only [act_bind, ih]
  | ask k ih => simp only [ask_bind, ih]
  | iter body i k _ ih => simp only [iter_bind, ih]

theorem bind_bind (p : Prog ε σ α) (g : α → Prog ε σ β) (h : β → Prog ε σ γ) :
    (p.bind g).bind h = p.bind fun a => (g a).bind h := by
  induction p with
  | ret a => rfl
  | act f k ih => simp only [act_bind, ih]
  | ask k ih => simp only [ask_bind, ih]
  | iter body i k _ ih => simp only [iter_bind, ih]

instance : LawfulMonad (Prog ε σ) :=
  LawfulMonad.mk' _ (fun p => bind_ret p) (fun _ _ => rfl) (fun p g h => bind_bind p g h)

/-- One pass of a loop followed by the next pass or by what comes after the loop. -/
def again (body : ι → Prog ε σ (ι ⊕ β)) (k : β → Prog ε σ α) : ι ⊕ β → Prog ε σ α
  | .inl i => .iter body i k
  | .inr b => k b

/-! The actions a translated program is written with. -/

def atomic (f : σ → Outcome ε σ α) : Prog ε σ α := .act f .ret

/-- Read a value of the state in one action. -/
def read (g : σ → α) : Prog ε σ α := atomic fun s => .ok (g s) s

/-- Change the state in one action. -/
def modify (f : σ → σ) : Prog ε σ Unit := atomic fun s => .ok () (f s)

/-- Evaluate a condition on the state; a false one aborts the process. -/
def assert (c : σ → Bool) (e : ε) : Prog ε σ Unit :=
  atomic fun s => if c s then .ok () s else .abort e

/-- A busy wait: enabled when the condition it waits for is true. -/
def await (c : σ → Bool) : Prog ε σ Unit := atomic fun s => if c s then .ok () s else .wait

def fail (e : ε) : Prog ε σ α := .act (fun _ => (.abort e : Outcome ε σ Empty)) Empty.elim

/-- A condition on values already read; a false one aborts the process. -/
def check (c : Bool) (e : ε) : Prog ε σ Unit := if c then pure () else fail e

/-- A number the environment chooses freely. -/
def answer : Prog ε σ Nat := .ask .ret

/-- Repeat the body from a loop state until it leaves with a value. -/
def loop (body : ι → Prog ε σ (ι ⊕ α)) (i : ι) : Prog ε σ α := .iter body i .ret

/-- Run a program for each element of an array in turn. -/
def each (f : α → Prog ε σ Unit) : List α → Prog ε σ Unit
  | [] => pure ()
  | a :: l => do f a; each f l

/-- Run a program for each element of an array in turn and keep the results in order. -/
def collect (f : α → Prog ε σ β) : List α → Prog ε σ (List β)
  | [] => pure []
  | a :: l => do
    let b ← f a
    let bs ← collect f l
    pure (b :: bs)

end Prog
end ExtMem.Threads
