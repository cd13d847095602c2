import ExtMem.Threads.Pool

/-! Runs of whole operations one after the other, labelled with what was called and what came of
it, and their simulation by an abstract machine. -/
namespace ExtMem.Threads
variable {ε S L T κ A : Type} [DecidableEq T]

/-- A machine that takes labelled steps from one abstract state to another. -/
inductive Steps (abs : κ → A → A → Prop) (a₀ : A) : List κ → A → Prop where
  | nil : Steps abs a₀ [] a₀
  | snoc {l : List κ} {x : κ} {a a' : A} :
    Steps abs a₀ l a → abs x a a' → Steps abs a₀ (l ++ [x]) a'

namespace Conf

/-- Calls of some threads, each of which runs to its end before the next one starts. -/
inductive Rounds (does : κ → Ctx S L → Ctx S L → Prop) (rule : κ → S → Prop) (c₀ : Conf ε S L T) :
    List (T × κ) → Conf ε S L T → Prop where
  | nil : Rounds does rule c₀ [] c₀
  | snoc {l : List (T × κ)} {c : Conf ε S L T} {t : T} {x : κ} {e : Ctx S L} :
    Rounds does rule c₀ l c → rule x c.sh →
      does x ⟨c.sh, c.loc t⟩ e →
        Rounds does rule c₀ (l ++ [(t, x)]) ⟨e.sh, Function.update c.loc t e.loc, c.thr⟩

variable {does : κ → Ctx S L → Ctx S L → Prop} {rule : κ → S → Prop}
  {ops : Prog ε (Ctx S L) Unit → Prop}
  {c₀ c : Conf ε S L T} {l : List (T × κ)}

theorem Rounds.thr (h : Rounds does rule c₀ l c) : c.thr = c₀.thr := by
  induction h with
  | nil => rfl
  | snoc _ _ _ ih => exact ih

/-- Calls that are operations make up a run of the threads. -/
theorem Rounds.reach (h : Rounds does rule c₀ l c) (hq : c₀.Quiet)
    (hops : ∀ x e e', does x e e' → ∃ p, ops p ∧ Prog.Runs p e () e') : Reach ops serial c₀ c := by
  induction h with
  | nil => exact .init
  | snoc hl _ hd ih =>
    obtain ⟨p, hp, hr⟩ := hops _ _ _ hd
    refine ih.runs (fun t => ?_) hp hr
    rw [hl.thr]
    exact hq t

/-- A relation that every call keeps, the abstract machine taking the same step, is kept over a
run. -/
theorem Rounds.simulated {abs : κ → A → A → Prop} {a₀ : A} (rel : Conf ε S L T → A → Prop)
    (h : Rounds does rule c₀ l c) (start : rel c₀ a₀)
    (step : ∀ l c t x e a, Rounds does rule c₀ l c → rel c a → rule x c.sh → does x ⟨c.sh,
      c.loc t⟩ e → ∃ a', abs x a a' ∧ rel ⟨e.sh, Function.update c.loc t e.loc, c.thr⟩ a') :
    ∃ a, Steps abs a₀ (l.map (·.2)) a ∧ rel c a := by
  induction h with
  | nil => exact ⟨a₀, .nil, start⟩
  | @snoc l c t x e hl hrule hd ih =>
    obtain ⟨a, hs, hrel⟩ := ih
    obtain ⟨a', hx, hrel'⟩ := step l c t x e a hl hrel hrule hd
    refine ⟨a', ?_, hrel'⟩
    rw [List.map_append]
    exact hs.snoc hx

end Conf
end ExtMem.Threads
