import ExtMem.Threads.Program

/-! A program run alone: its completed runs, a bounded evaluator for them, and
the rules by which a postcondition is proved of every completed run. -/
namespace ExtMem.Threads
namespace Prog
variable {ε σ α β γ ι : Type}

/-- The completed runs of a program that nothing interrupts. A run that waits
forever, aborts or loops forever has no entry here. -/
inductive Runs {ε σ : Type} : {α : Type} → Prog ε σ α → σ → α → σ → Prop where
  | ret {α : Type} (a : α) (s : σ) : Runs (.ret a) s a s
  | act {α β : Type} {f : σ → Outcome ε σ β} {k : β → Prog ε σ α} {s s₁ s₂ : σ} {b : β} {a : α} :
      f s = .ok b s₁ → Runs (k b) s₁ a s₂ → Runs (.act f k) s a s₂
  | ask {α : Type} {k : Nat → Prog ε σ α} {s s₁ : σ} {a : α} (n : Nat) :
      Runs (k n) s a s₁ → Runs (.ask k) s a s₁
  | next {α β ι : Type} {body : ι → Prog ε σ (ι ⊕ β)} {i j : ι} {k : β → Prog ε σ α}
      {s s₁ s₂ : σ} {a : α} :
      Runs (body i) s (.inl j) s₁ → Runs (.iter body j k) s₁ a s₂ → Runs (.iter body i k) s a s₂
  | done {α β ι : Type} {body : ι → Prog ε σ (ι ⊕ β)} {i : ι} {b : β} {k : β → Prog ε σ α}
      {s s₁ s₂ : σ} {a : α} :
      Runs (body i) s (.inr b) s₁ → Runs (k b) s₁ a s₂ → Runs (.iter body i k) s a s₂

theorem Runs.bind {p : Prog ε σ α} {g : α → Prog ε σ β} {s s₁ s₂ : σ} {a : α} {b : β}
    (hp : Runs p s a s₁) (hg : Runs (g a) s₁ b s₂) : Runs (p.bind g) s b s₂ := by
  induction hp with
  | ret a s => exact hg
  | act he _ ih => exact .act he (ih hg)
  | ask n _ ih => exact .ask n (ih hg)
  | next hb _ _ ih => exact .next hb (ih hg)
  | done hb _ _ ih => exact .done hb (ih hg)

/-- A run of a sequence splits at the point where the first part returns. -/
theorem Runs.bind_inv {p : Prog ε σ α} {g : α → Prog ε σ β} {s s₂ : σ} {b : β}
    (h : Runs (p.bind g) s b s₂) : ∃ a s₁, Runs p s a s₁ ∧ Runs (g a) s₁ b s₂ := by
  generalize hq : p.bind g = q at h
  induction h generalizing α p with
  | ret b s =>
    cases p with
    | ret a =>
      rw [ret_bind] at hq
      exact ⟨a, s, .ret a s, by rw [hq]; exact .ret b s⟩
    | _ => cases hq
  | act he hr ih =>
    cases p with
    | ret a => exact ⟨a, _, .ret a _, by rw [show g a = _ from hq]; exact .act he hr⟩
    | act f k =>
      cases hq
      obtain ⟨a, s₁, h₁, h₂⟩ := ih rfl
      exact ⟨a, s₁, .act he h₁, h₂⟩
    | _ => cases hq
  | ask n hr ih =>
    cases p with
    | ret a => exact ⟨a, _, .ret a _, by rw [show g a = _ from hq]; exact .ask n hr⟩
    | ask k =>
      cases hq
      obtain ⟨a, s₁, h₁, h₂⟩ := ih rfl
      exact ⟨a, s₁, .ask n h₁, h₂⟩
    | _ => cases hq
  | next hb hr _ ih =>
    cases p with
    | ret a => exact ⟨a, _, .ret a _, by rw [show g a = _ from hq]; exact .next hb hr⟩
    | iter body i k =>
      cases hq
      obtain ⟨a, s₁, h₁, h₂⟩ := ih (iter_bind _ _ k g)
      exact ⟨a, s₁, .next hb h₁, h₂⟩
    | _ => cases hq
  | done hb hr _ ih =>
    cases p with
    | ret a => exact ⟨a, _, .ret a _, by rw [show g a = _ from hq]; exact .done hb hr⟩
    | iter body i k =>
      cases hq
      obtain ⟨a, s₁, h₁, h₂⟩ := ih rfl
      exact ⟨a, s₁, .done hb h₁, h₂⟩
    | _ => cases hq

/-- Evaluate with a bound on the number of nodes and a list of environment answers;
answers beyond the list are zero. -/
def exec : Nat → List Nat → Prog ε σ α → σ → Option (α × σ)
  | 0, _, _, _ => none
  | _ + 1, _, .ret a, s => some (a, s)
  | n + 1, answers, .act f k, s =>
    match f s with
    | .ok b s' => exec n answers (k b) s'
    | _ => none
  | n + 1, answers, .ask k, s => exec n answers.tail (k (answers.headD 0)) s
  | n + 1, answers, .iter body i k, s => exec n answers ((body i).bind (again body k)) s

/-- The evaluator only reports completed runs. -/
theorem exec_runs {n : Nat} {answers : List Nat} {p : Prog ε σ α} {s s' : σ} {a : α}
    (h : exec n answers p s = some (a, s')) : Runs p s a s' := by
  induction n generalizing answers p s with
  | zero => cases h
  | succ n ih =>
    cases p with
    | ret b =>
      simp only [exec, Option.some.injEq, Prod.mk.injEq] at h
      obtain ⟨rfl, rfl⟩ := h
      exact .ret _ _
    | act f k =>
      simp only [exec] at h
      split at h
      · next he => exact .act he (ih h)
      · cases h
    | ask k => exact .ask _ (ih h)
    | iter body i k =>
      obtain ⟨r, s₁, hb, hk⟩ := (ih h).bind_inv
      cases r with
      | inl j => exact .next hb hk
      | inr b => exact .done hb hk

/-- The runs of a program alone that end in an abort, with the state at that point. -/
inductive Aborts {ε σ : Type} : {α : Type} → Prog ε σ α → σ → ε → σ → Prop where
  | here {α β : Type} {f : σ → Outcome ε σ β} {k : β → Prog ε σ α} {s : σ} {why : ε} :
      f s = .abort why → Aborts (.act f k) s why s
  | act {α β : Type} {f : σ → Outcome ε σ β} {k : β → Prog ε σ α} {s s₁ s₂ : σ} {b : β} {why : ε} :
      f s = .ok b s₁ → Aborts (k b) s₁ why s₂ → Aborts (.act f k) s why s₂
  | ask {α : Type} {k : Nat → Prog ε σ α} {s s₁ : σ} {why : ε} (n : Nat) :
      Aborts (k n) s why s₁ → Aborts (.ask k) s why s₁
  | inside {α β ι : Type} {body : ι → Prog ε σ (ι ⊕ β)} {i : ι} {k : β → Prog ε σ α} {s s₁ : σ}
    {why : ε} :
      Aborts (body i) s why s₁ → Aborts (.iter body i k) s why s₁
  | next {α β ι : Type} {body : ι → Prog ε σ (ι ⊕ β)} {i j : ι} {k : β → Prog ε σ α}
      {s s₁ s₂ : σ} {why : ε} :
      Runs (body i) s (.inl j) s₁ → Aborts (.iter body j k) s₁ why s₂ →
        Aborts (.iter body i k) s why s₂
  | done {α β ι : Type} {body : ι → Prog ε σ (ι ⊕ β)} {i : ι} {b : β} {k : β → Prog ε σ α}
      {s s₁ s₂ : σ} {why : ε} :
      Runs (body i) s (.inr b) s₁ → Aborts (k b) s₁ why s₂ → Aborts (.iter body i k) s why s₂

theorem Aborts.bind_left {p : Prog ε σ α} {g : α → Prog ε σ β} {s s₁ : σ} {why : ε}
    (hp : Aborts p s why s₁) : Aborts (p.bind g) s why s₁ := by
  induction hp with
  | here he => exact .here he
  | act he _ ih => exact .act he ih
  | ask n _ ih => exact .ask n ih
  | inside hb _ => exact .inside hb
  | next hb _ ih => exact .next hb ih
  | done hb _ ih => exact .done hb ih

theorem Runs.bind_aborts {p : Prog ε σ α} {g : α → Prog ε σ β} {s s₁ s₂ : σ} {a : α} {why : ε}
    (hp : Runs p s a s₁) (hg : Aborts (g a) s₁ why s₂) : Aborts (p.bind g) s why s₂ := by
  induction hp with
  | ret a s => exact hg
  | act he _ ih => exact .act he (ih hg)
  | ask n _ ih => exact .ask n (ih hg)
  | next hb _ _ ih => exact .next hb (ih hg)
  | done hb _ _ ih => exact .done hb (ih hg)

/-- A sequence aborts in its first part or after it. -/
theorem Aborts.bind_inv {p : Prog ε σ α} {g : α → Prog ε σ β} {s s₂ : σ} {why : ε}
    (h : Aborts (p.bind g) s why s₂) :
    Aborts p s why s₂ ∨ ∃ a s₁, Runs p s a s₁ ∧ Aborts (g a) s₁ why s₂ := by
  generalize hq : p.bind g = q at h
  induction h generalizing α p with
  | here he =>
    cases p with
    | ret a => exact .inr ⟨a, _, .ret a _, by rw [show g a = _ from hq]; exact .here he⟩
    | act f k => cases hq; exact .inl (.here he)
    | _ => cases hq
  | act he hr ih =>
    cases p with
    | ret a => exact .inr ⟨a, _, .ret a _, by rw [show g a = _ from hq]; exact .act he hr⟩
    | act f k =>
      cases hq
      rcases ih rfl with h | ⟨a, s₁, h₁, h₂⟩
      · exact .inl (.act he h)
      · exact .inr ⟨a, s₁, .act he h₁, h₂⟩
    | _ => cases hq
  | ask n hr ih =>
    cases p with
    | ret a => exact .inr ⟨a, _, .ret a _, by rw [show g a = _ from hq]; exact .ask n hr⟩
    | ask k =>
      cases hq
      rcases ih rfl with h | ⟨a, s₁, h₁, h₂⟩
      · exact .inl (.ask n h)
      · exact .inr ⟨a, s₁, .ask n h₁, h₂⟩
    | _ => cases hq
  | inside hb _ =>
    cases p with
    | ret a => exact .inr ⟨a, _, .ret a _, by rw [show g a = _ from hq]; exact .inside hb⟩
    | iter body i k => cases hq; exact .inl (.inside hb)
    | _ => cases hq
  | next hb hr ih =>
    cases p with
    | ret a => exact .inr ⟨a, _, .ret a _, by rw [show g a = _ from hq]; exact .next hb hr⟩
    | iter body i k =>
      cases hq
      rcases ih (iter_bind _ _ k g) with h | ⟨a, s₁, h₁, h₂⟩
      · exact .inl (.next hb h)
      · exact .inr ⟨a, s₁, .next hb h₁, h₂⟩
    | _ => cases hq
  | done hb hr ih =>
    cases p with
    | ret a => exact .inr ⟨a, _, .ret a _, by rw [show g a = _ from hq]; exact .done hb hr⟩
    | iter body i k =>
      cases hq
      rcases ih rfl with h | ⟨a, s₁, h₁, h₂⟩
      · exact .inl (.done hb h)
      · exact .inr ⟨a, s₁, .done hb h₁, h₂⟩
    | _ => cases hq

/-- Evaluate to the abort, with the same bound and answers as `exec`. -/
def execAbort : Nat → List Nat → Prog ε σ α → σ → Option (ε × σ)
  | 0, _, _, _ => none
  | _ + 1, _, .ret _, _ => none
  | n + 1, answers, .act f k, s =>
    match f s with
    | .ok b s' => execAbort n answers (k b) s'
    | .wait => none
    | .abort why => some (why, s)
  | n + 1, answers, .ask k, s => execAbort n answers.tail (k (answers.headD 0)) s
  | n + 1, answers, .iter body i k, s => execAbort n answers ((body i).bind (again body k)) s

theorem execAbort_aborts {n : Nat} {answers : List Nat} {p : Prog ε σ α} {s s' : σ} {why : ε}
    (h : execAbort n answers p s = some (why, s')) : Aborts p s why s' := by
  induction n generalizing answers p s with
  | zero => cases h
  | succ n ih =>
    cases p with
    | ret b => cases h
    | act f k =>
      simp only [execAbort] at h
      split at h
      · next he => exact .act he (ih h)
      · cases h
      · next he =>
        simp only [Option.some.injEq, Prod.mk.injEq] at h
        obtain ⟨rfl, rfl⟩ := h
        exact .here he
    | ask k => exact .ask _ (ih h)
    | iter body i k =>
      rcases (ih h).bind_inv with hb | ⟨r, s₁, hb, hk⟩
      · exact .inside hb
      · cases r with
        | inl j => exact .next hb hk
        | inr b => exact .done hb hk

/-- Every completed run of the program from this state ends in the postcondition. -/
def After (p : Prog ε σ α) (s : σ) (Q : α → σ → Prop) : Prop :=
  ∀ a s', Runs p s a s' → Q a s'

theorem After.mono {p : Prog ε σ α} {s : σ} {Q R : α → σ → Prop} (h : After p s Q)
    (hi : ∀ a s', Q a s' → R a s') : After p s R :=
  fun a s' hr => hi a s' (h a s' hr)

theorem After.and {p : Prog ε σ α} {s : σ} {Q R : α → σ → Prop} (hq : After p s Q)
    (hr : After p s R) : After p s fun a s' => Q a s' ∧ R a s' :=
  fun a s' h => ⟨hq a s' h, hr a s' h⟩

@[simp] theorem after_ret (a : α) (s : σ) (Q : α → σ → Prop) :
    After (.ret a : Prog ε σ α) s Q ↔ Q a s :=
  ⟨fun h => h a s (.ret a s), fun h _ _ hr => by cases hr; exact h⟩

@[simp] theorem after_pure (a : α) (s : σ) (Q : α → σ → Prop) :
    After (pure a : Prog ε σ α) s Q ↔ Q a s := after_ret a s Q

theorem after_bind' (p : Prog ε σ α) (g : α → Prog ε σ β) (s : σ) (Q : β → σ → Prop) :
    After (p.bind g) s Q ↔ After p s fun a s' => After (g a) s' Q := by
  constructor
  · intro h a s₁ hp b s₂ hg
    exact h b s₂ (hp.bind hg)
  · intro h b s₂ hr
    obtain ⟨a, s₁, hp, hg⟩ := hr.bind_inv
    exact h a s₁ hp b s₂ hg

@[simp] theorem after_bind (p : Prog ε σ α) (g : α → Prog ε σ β) (s : σ) (Q : β → σ → Prop) :
    After (p >>= g) s Q ↔ After p s fun a s' => After (g a) s' Q := after_bind' p g s Q

@[simp] theorem after_map (p : Prog ε σ α) (g : α → β) (s : σ) (Q : β → σ → Prop) :
    After (g <$> p) s Q ↔ After p s fun a s' => Q (g a) s' := by
  rw [← bind_pure_comp, after_bind]
  simp only [after_pure]

@[simp] theorem after_atomic (f : σ → Outcome ε σ α) (s : σ) (Q : α → σ → Prop) :
    After (atomic f) s Q ↔ ∀ a s', f s = .ok a s' → Q a s' := by
  constructor
  · intro h a s' he
    exact h a s' (.act he (.ret a s'))
  · intro h a s' hr
    cases hr with
    | act he hk => cases hk; exact h _ _ he

@[simp] theorem after_read (g : σ → α) (s : σ) (Q : α → σ → Prop) :
    After (read g : Prog ε σ α) s Q ↔ Q (g s) s := by
  simp [read]

@[simp] theorem after_modify (f : σ → σ) (s : σ) (Q : Unit → σ → Prop) :
    After (modify f : Prog ε σ Unit) s Q ↔ Q () (f s) := by
  simp only [modify, after_atomic, Outcome.ok.injEq]
  exact ⟨fun h => h () _ ⟨trivial, rfl⟩, fun h _ _ he => he.2 ▸ h⟩

private theorem unit_forall {p : Unit → Prop} : (∀ a, p a) ↔ p () := ⟨fun h => h (), fun h _ => h⟩

@[simp] theorem after_assert (c : σ → Bool) (e : ε) (s : σ) (Q : Unit → σ → Prop) :
    After (assert c e) s Q ↔ (c s = true → Q () s) := by
  cases h : c s <;> simp [assert, h, unit_forall]

@[simp] theorem after_await (c : σ → Bool) (s : σ) (Q : Unit → σ → Prop) :
    After (await c : Prog ε σ Unit) s Q ↔ (c s = true → Q () s) := by
  cases h : c s <;> simp [await, h, unit_forall]

@[simp] theorem after_fail (e : ε) (s : σ) (Q : α → σ → Prop) :
    After (fail e : Prog ε σ α) s Q ↔ True := by
  refine iff_true_intro fun a s' hr => ?_
  cases hr with
  | act he _ => cases he

@[simp] theorem after_answer (s : σ) (Q : Nat → σ → Prop) :
    After (answer : Prog ε σ Nat) s Q ↔ ∀ n, Q n s := by
  constructor
  · intro h n
    exact h n s (.ask n (.ret n s))
  · intro h a s' hr
    cases hr with
    | ask n hk => cases hk; exact h _

theorem after_ite {c : Prop} [Decidable c] (p q : Prog ε σ α) (s : σ) (Q : α → σ → Prop) :
    After (if c then p else q) s Q ↔ (c → After p s Q) ∧ (¬ c → After q s Q) := by
  split <;> simp_all

/-- A loop invariant: one pass of the body keeps it or leaves with the postcondition. -/
theorem after_loop {body : ι → Prog ε σ (ι ⊕ α)} {Q : α → σ → Prop} (I : ι → σ → Prop)
    (step : ∀ i s, I i s → After (body i) s fun r s' => r.elim (fun j => I j s') fun a => Q a s')
    {i : ι} {s : σ} (start : I i s) : After (loop body i) s Q := by
  intro a s' hr
  rw [loop] at hr
  generalize hq : Prog.iter body i .ret = q at hr
  induction hr generalizing i with
  | next hb _ _ ih =>
    cases hq
    exact ih step (step _ _ start _ _ hb) rfl
  | done hb hk _ _ =>
    cases hq
    cases hk
    exact step _ _ start _ _ hb
  | _ => cases hq

/-- Over an array, what holds of the elements left is passed on. -/
theorem after_each {f : α → Prog ε σ Unit} (J : List α → σ → Prop) {xs : List α} {s : σ}
    (start : J xs s) (pass : ∀ x xs s, J (x :: xs) s → After (f x) s fun _ => J xs) :
    After (each f xs) s fun _ => J [] := by
  induction xs generalizing s with
  | nil => exact (after_pure _ _ _).mpr start
  | cons x xs ih => exact (after_bind _ _ _ _).mpr ((pass x xs s start).mono fun _ s h => ih h)

theorem after_collect {f : α → Prog ε σ β} (J : List α → List β → σ → Prop)
    {xs : List α} {s : σ} (start : J xs [] s)
    (pass : ∀ x xs ys s, J (x :: xs) ys s → After (f x) s fun y => J xs (ys ++ [y])) :
    After (collect f xs) s fun ys => J [] ys := by
  suffices h :
    ∀ ys s, J xs ys s → After (collect f xs) s fun zs => J [] (ys ++ zs) from h [] s start
  clear start
  induction xs with
  | nil =>
    intro ys s h
    refine (after_pure _ _ _).mpr ?_
    rwa [List.append_nil]
  | cons x xs ih =>
    intro ys s h
    refine (after_bind _ _ _ _).mpr
      ((pass x xs ys s h).mono fun y s hy => (after_bind _ _ _ _).mpr ?_)
    refine (ih (ys ++ [y]) s hy).mono fun zs s hz => (after_pure _ _ _).mpr ?_
    rwa [List.append_assoc] at hz

end Prog
end ExtMem.Threads
