import Mathlib.Logic.Relation
import ExtMem.Threads.Solo

/-! A program run alone that must come to an end: its single steps, what it is that none of
them goes on for ever, and the rules by which a program is shown to return with a postcondition. -/
namespace ExtMem.Threads
namespace Prog
variable {ε σ α β γ ι : Type}

/-- One step of a program run alone. A wait that nothing can end is a step to itself. -/
inductive Next {ε σ : Type} : {α : Type} → Prog ε σ α × σ → Prog ε σ α × σ → Prop where
  | act {α β : Type} {f : σ → Outcome ε σ β} {k : β → Prog ε σ α} {s s₁ : σ} {b : β} :
      f s = .ok b s₁ → Next (.act f k, s) (k b, s₁)
  | wait {α β : Type} {f : σ → Outcome ε σ β} {k : β → Prog ε σ α} {s : σ} :
      f s = .wait → Next (.act f k, s) (.act f k, s)
  | ask {α : Type} {k : Nat → Prog ε σ α} {s : σ} (n : Nat) : Next (.ask k, s) (k n, s)
  | iter {α β ι : Type} {body : ι → Prog ε σ (ι ⊕ β)} {i : ι} {k : β → Prog ε σ α} {s : σ} :
      Next (.iter body i k, s) ((body i).bind (again body k), s)

/-- Run alone from this state, the program takes finitely many steps, whatever the environment
answers: it returns or aborts. -/
def Ends (p : Prog ε σ α) (s : σ) : Prop := Acc (fun y x => Next x y) (p, s)

/-- Run alone from this state, the program returns with the postcondition, whatever the
environment answers. -/
inductive Total {ε σ : Type} : {α : Type} → Prog ε σ α → σ → (α → σ → Prop) → Prop where
  | ret {α : Type} {a : α} {s : σ} {Q : α → σ → Prop} : Q a s → Total (.ret a) s Q
  | act {α β : Type} {f : σ → Outcome ε σ β} {k : β → Prog ε σ α} {s s₁ : σ} {b : β}
    {Q : α → σ → Prop} :
      f s = .ok b s₁ → Total (k b) s₁ Q → Total (.act f k) s Q
  | ask {α : Type} {k : Nat → Prog ε σ α} {s : σ} {Q : α → σ → Prop} :
      (∀ n, Total (k n) s Q) → Total (.ask k) s Q
  | iter {α β ι : Type} {body : ι → Prog ε σ (ι ⊕ β)} {i : ι} {k : β → Prog ε σ α} {s : σ}
    {Q : α → σ → Prop} :
      Total ((body i).bind (again body k)) s Q → Total (.iter body i k) s Q

theorem Total.mono {p : Prog ε σ α} {s : σ} {Q R : α → σ → Prop} (h : Total p s Q)
    (hi : ∀ a s, Q a s → R a s) : Total p s R := by
  induction h with
  | ret hq => exact .ret (hi _ _ hq)
  | act he _ ih => exact .act he (ih hi)
  | ask _ ih => exact .ask fun n => ih n hi
  | iter _ ih => exact .iter (ih hi)

theorem again_bind (body : ι → Prog ε σ (ι ⊕ γ)) (k : γ → Prog ε σ α) (g : α → Prog ε σ β) :
    (fun r => (again body k r).bind g) = again body fun b => (k b).bind g := by
  funext r
  cases r <;> rfl

theorem Total.bind' {p : Prog ε σ α} {g : α → Prog ε σ β} {s : σ} {Q : α → σ → Prop}
    {R : β → σ → Prop} (h : Total p s Q) (hg : ∀ a s, Q a s → Total (g a) s R) :
    Total (p.bind g) s R := by
  induction h with
  | ret hq => exact hg _ _ hq
  | act he _ ih => exact .act he (ih hg)
  | ask _ ih => exact .ask fun n => ih n hg
  | iter _ ih =>
    have hb := ih hg
    rw [bind_bind, again_bind] at hb
    exact .iter hb

theorem Total.bind {p : Prog ε σ α} {g : α → Prog ε σ β} {s : σ}
    {Q : α → σ → Prop} {R : β → σ → Prop} (h : Total p s Q)
    (hg : ∀ a s, Q a s → Total (g a) s R) : Total (p >>= g) s R := h.bind' hg

/-- What a program that returns leads to, its completed runs lead to. -/
theorem Total.after {p : Prog ε σ α} {s : σ} {Q : α → σ → Prop} (h : Total p s Q) :
    After p s Q := by
  induction h with
  | ret hq => exact (after_ret _ _ _).mpr hq
  | act he _ ih =>
    intro a s' hr
    cases hr with
    | act he' hr =>
      rw [he] at he'
      cases he'
      exact ih a s' hr
  | ask _ ih =>
    intro a s' hr
    cases hr with
    | ask n hr => exact ih n a s' hr
  | iter _ ih =>
    intro a s' hr
    cases hr with
    | next hb hk => exact ih a s' (hb.bind hk)
    | done hb hk => exact ih a s' (hb.bind hk)

/-- A program that returns and whose completed runs lead to a postcondition returns with it. -/
theorem Total.strengthen {p : Prog ε σ α} {s : σ} {Q R : α → σ → Prop} (h : Total p s Q)
    (ha : After p s R) : Total p s R := by
  induction h with
  | ret _ => exact .ret ((after_ret _ _ _).mp ha)
  | act he _ ih => exact .act he (ih fun a s' hr => ha a s' (.act he hr))
  | ask _ ih => exact .ask fun n => ih n fun a s' hr => ha a s' (.ask n hr)
  | iter _ ih =>
    refine .iter (ih fun a s' hr => ?_)
    obtain ⟨r, s₁, hb, hk⟩ := hr.bind_inv
    cases r with
    | inl j => exact ha a s' (.next hb hk)
    | inr b => exact ha a s' (.done hb hk)

/-- A program that returns does not abort. -/
theorem Total.not_aborts {p : Prog ε σ α} {s : σ} {Q : α → σ → Prop} (h : Total p s Q) (why : ε)
    (s' : σ) : ¬ Aborts p s why s' := by
  induction h with
  | ret _ => intro ha; cases ha
  | act he _ ih =>
    intro ha
    cases ha with
    | here he' =>
      rw [he] at he'
      cases he'
    | act he' ha =>
      rw [he] at he'
      cases he'
      exact ih ha
  | ask _ ih =>
    intro ha
    cases ha with
    | ask n ha => exact ih n ha
  | iter _ ih =>
    intro ha
    cases ha with
    | inside ha => exact ih ha.bind_left
    | next hb ha => exact ih (hb.bind_aborts ha)
    | done hb ha => exact ih (hb.bind_aborts ha)

/-- A program that returns has a run. -/
theorem Total.runs {p : Prog ε σ α} {s : σ} {Q : α → σ → Prop} (h : Total p s Q) :
    ∃ a s', Runs p s a s' ∧ Q a s' := by
  induction h with
  | ret hq => exact ⟨_, _, .ret _ _, hq⟩
  | act he _ ih =>
    obtain ⟨a, s', hr, hq⟩ := ih
    exact ⟨a, s', .act he hr, hq⟩
  | ask _ ih =>
    obtain ⟨a, s', hr, hq⟩ := ih 0
    exact ⟨a, s', .ask 0 hr, hq⟩
  | iter _ ih =>
    obtain ⟨a, s', hr, hq⟩ := ih
    obtain ⟨r, s₁, hb, hk⟩ := hr.bind_inv
    cases r with
    | inl j => exact ⟨a, s', .next hb hk, hq⟩
    | inr b => exact ⟨a, s', .done hb hk, hq⟩

/-- A loop returns if each of its passes does and a measure falls with every pass that goes on. -/
theorem total_loop {body : ι → Prog ε σ (ι ⊕ α)} {Q : α → σ → Prop} (I : ι → σ → Prop) (μ : ι → Nat)
    (pass : ∀ i s, I i s → Total (body i) s fun r s' =>
      (∃ j, r = .inl j ∧ I j s' ∧ μ j < μ i) ∨ ∃ a, r = .inr a ∧ Q a s') {i : ι} {s : σ}
    (start : I i s) : Total (loop body i) s Q := by
  induction hm : μ i using Nat.strongRecOn generalizing i s with
  | ind m ih =>
    refine .iter ((pass i s start).bind' fun r s' hr => ?_)
    rcases hr with ⟨j, rfl, hj, hlt⟩ | ⟨a, rfl, ha⟩
    · exact ih (μ j) (hm ▸ hlt) hj rfl
    · exact .ret ha

/-- The values and states that a loop run alone goes on with after some of its passes. -/
inductive Passes {ε σ α ι : Type} (body : ι → Prog ε σ (ι ⊕ α)) (i : ι) (s : σ) : ι → σ → Prop where
  | start : Passes body i s i s
  | next {j j' : ι} {s₁ s₂ : σ} : Passes body i s j s₁ → Runs (body j) s₁ (.inl j') s₂ →
    Passes body i s j' s₂

/-- What each pass that goes on keeps holds after any number of them. -/
theorem Passes.kept {body : ι → Prog ε σ (ι ⊕ α)} {i j : ι} {s s' : σ} {I : ι → σ → Prop}
    (h : Passes body i s j s') (pass : ∀ i s j s', I i s → Runs (body i) s (.inl j) s' → I j s')
    (start : I i s) : I j s' := by
  induction h with
  | start => exact start
  | next _ hr ih => exact pass _ _ _ _ ih hr

/-- What a program that returns does after a run of its first part returns as well. -/
theorem Total.rest {p : Prog ε σ α} {g : α → Prog ε σ β} {s s' : σ} {a : α} {Q : β → σ → Prop}
    (h : Total (p.bind g) s Q) (hr : Runs p s a s') : Total (g a) s' Q := by
  induction hr with
  | ret => exact h
  | act he _ ih =>
    cases h with
    | act he' h =>
      rw [he] at he'
      cases he'
      exact ih h
  | ask n _ ih =>
    cases h with
    | ask h => exact ih (h n)
  | next _ _ ih₁ ih₂ =>
    cases h with
    | iter h => exact ih₂ (ih₁ h)
  | done _ _ ih₁ ih₂ =>
    cases h with
    | iter h => exact ih₂ (ih₁ h)

/-- A loop that returns still returns after a run of one pass. -/
theorem Total.pass {body : ι → Prog ε σ (ι ⊕ β)} {i j : ι} {k : β → Prog ε σ α} {s s' : σ}
    {Q : α → σ → Prop} (h : Total (.iter body i k) s Q) (hr : Runs (body i) s (.inl j) s') :
    Total (.iter body j k) s' Q := by
  cases h with
  | iter h => exact h.rest hr

/-- A loop aborts if so many of its passes may follow each other and then one aborts. -/
theorem aborts_loop {body : ι → Prog ε σ (ι ⊕ α)} {why : ε} (J : Nat → ι → σ → Prop) (n : Nat)
    (pass : ∀ m i s, m < n → J m i s → ∃ j s', Runs (body i) s (.inl j) s' ∧ J (m + 1) j s')
    (stuck : ∀ i s, J n i s → ∃ s', Aborts (body i) s why s') {i : ι} {s : σ} (start : J 0 i s) :
    ∃ s', Aborts (loop body i) s why s' := by
  have hrest : ∀ k m i s, m + k = n → J m i s → ∃ s', Aborts (loop body i) s why s' := by
    intro k
    induction k with
    | zero =>
      rintro m i s rfl h
      obtain ⟨s', ha⟩ := stuck i s h
      exact ⟨s', .inside ha⟩
    | succ k ih =>
      intro m i s hm h
      obtain ⟨j, s₁, hr, hj⟩ := pass m i s (by omega) h
      obtain ⟨s', ha⟩ := ih (m + 1) j s₁ (by omega) hj
      exact ⟨s', .next hr ha⟩
  exact hrest n 0 i s (Nat.zero_add n) start

/-- A loop has a run if each of its passes has one that makes a measure fall or leaves the loop. -/
theorem runs_loop {body : ι → Prog ε σ (ι ⊕ α)} {Q : α → σ → Prop} (I : ι → σ → Prop) (μ : ι → Nat)
    (pass : ∀ i s, I i s → ∃ r s', Runs (body i) s r s' ∧
      ((∃ j, r = .inl j ∧ I j s' ∧ μ j < μ i) ∨ ∃ a, r = .inr a ∧ Q a s')) {i : ι} {s : σ}
    (start : I i s) : ∃ a s', Runs (loop body i) s a s' ∧ Q a s' := by
  induction hm : μ i using Nat.strongRecOn generalizing i s with
  | ind m ih =>
    obtain ⟨r, s₁, hr, hj⟩ := pass i s start
    rcases hj with ⟨j, rfl, hj, hlt⟩ | ⟨a, rfl, ha⟩
    · obtain ⟨a, s', hr', ha⟩ := ih (μ j) (hm ▸ hlt) hj rfl
      exact ⟨a, s', .next hr hr', ha⟩
    · exact ⟨a, s₁, .done hr (.ret _ _), ha⟩

/-! The end of a program. -/

theorem ends_ret (a : α) (s : σ) : Ends (.ret a : Prog ε σ α) s := .intro _ fun y hy => by cases hy

/-- A program ends if its first part returns and the rest ends. -/
theorem Total.ends {p : Prog ε σ α} {g : α → Prog ε σ β} {s : σ} {Q : α → σ → Prop}
    (h : Total p s Q) (hg : ∀ a s, Q a s → Ends (g a) s) : Ends (p.bind g) s := by
  induction h with
  | ret hq => exact hg _ _ hq
  | act he _ ih =>
    refine .intro _ fun y hy => ?_
    cases hy with
    | act he' =>
      rw [he] at he'
      cases he'
      exact ih hg
    | wait he' =>
      rw [he] at he'
      cases he'
  | ask _ ih =>
    refine .intro _ fun y hy => ?_
    cases hy with
    | ask n => exact ih n hg
  | iter _ ih =>
    refine .intro _ fun y hy => ?_
    cases hy with
    | iter =>
      have hb := ih hg
      rwa [bind_bind, again_bind] at hb

/-- A first part that returns is a path to the rest. -/
theorem Total.path {p : Prog ε σ α} {s : σ} {Q : α → σ → Prop} (h : Total p s Q)
    (g : α → Prog ε σ β) : ∃ a s', Q a s' ∧ Relation.ReflTransGen Next (p.bind g, s) (g a, s') := by
  induction h with
  | ret hq => exact ⟨_, _, hq, .refl⟩
  | act he _ ih =>
    obtain ⟨a, s', hq, hp⟩ := ih
    exact ⟨a, s', hq, .head (.act he) hp⟩
  | ask _ ih =>
    obtain ⟨a, s', hq, hp⟩ := ih 0
    exact ⟨a, s', hq, .head (.ask 0) hp⟩
  | iter _ ih =>
    obtain ⟨a, s', hq, hp⟩ := ih
    rw [bind_bind, again_bind] at hp
    exact ⟨a, s', hq, .head .iter hp⟩

theorem Total.ends_self {p : Prog ε σ α} {s : σ} {Q : α → σ → Prop} (h : Total p s Q) :
    Ends p s := by
  have hb := h.ends (g := .ret) fun a s _ => ends_ret a s
  rwa [bind_ret] at hb

private theorem ends_of_path {x y : Prog ε σ α × σ} (h : Relation.ReflTransGen Next x y)
    (ha : Ends x.1 x.2) : Ends y.1 y.2 := by
  induction h with
  | refl => exact ha
  | tail _ hxy ih => exact ih.inv hxy

/-- Where the first part returns, the rest ends if the whole does. -/
theorem Ends.rest {p : Prog ε σ α} {g : α → Prog ε σ β} {s : σ} {Q : α → σ → Prop}
    (h : Ends (p.bind g) s) (hp : Total p s Q) : ∃ a s', Q a s' ∧ Ends (g a) s' := by
  obtain ⟨a, s', hq, hpath⟩ := hp.path g
  exact ⟨a, s', hq, ends_of_path hpath h⟩

/-- A pass that goes on leads to a loop that ends if the whole loop does. -/
theorem Ends.pass {body : ι → Prog ε σ (ι ⊕ α)} {i : ι} {s : σ} {I : ι → σ → Prop}
    (h : Ends (loop body i) s) (hp : Total (body i) s fun r s' => ∃ j, r = .inl j ∧ I j s') :
    ∃ j s', I j s' ∧ Ends (loop body j) s' := by
  obtain ⟨r, s', ⟨j, rfl, hj⟩, he⟩ := Ends.rest (h.inv .iter) hp
  exact ⟨j, s', hj, he⟩

/-- From a set of programs with their states that each leads back into the set, none ends. -/
theorem not_ends {I : Prog ε σ α × σ → Prop} (hI : ∀ x, I x → ∃ y, Relation.TransGen Next x y ∧ I y)
    {p : Prog ε σ α} {s : σ} (h : I (p, s)) : ¬ Ends p s := by
  intro ha
  have hacc : Acc (Relation.TransGen fun y x => Next x y) (p, s) := ha.transGen
  revert h
  generalize (p, s) = x at hacc
  induction hacc with
  | intro x _ ih =>
    intro hx
    obtain ⟨y, hxy, hy⟩ := hI x hx
    exact ih y (Relation.transGen_swap.mp hxy) hy

/-- A wait that nothing can end does not end. -/
theorem not_ends_wait {f : σ → Outcome ε σ β} {k : β → Prog ε σ α} {s : σ} (h : f s = .wait) :
    ¬ Ends (.act f k) s :=
  not_ends (I := fun x => x = (.act f k, s))
    (fun x hx => ⟨x, by rw [hx]; exact .single (.wait h), hx⟩) rfl

/-- A program that ends ends in its first part. -/
theorem Ends.left {p : Prog ε σ α} {g : α → Prog ε σ β} {s : σ} (h : Ends (p.bind g) s) :
    Ends p s := by
  unfold Ends at h
  generalize hx : (p.bind g, s) = x at h
  induction h generalizing p s with
  | intro x _ ih =>
    subst hx
    refine .intro _ fun y hy => ?_
    cases hy with
    | act he => exact ih _ (.act he) rfl
    | wait he => exact ih _ (.wait he) rfl
    | ask n => exact ih _ (.ask n) rfl
    | iter => exact ih _ .iter (by rw [bind_bind, again_bind])

/-- A walk over a list returns if every visit does. -/
theorem total_each {f : α → Prog ε σ Unit} (J : List α → σ → Prop) {xs : List α} {s : σ}
    (start : J xs s) (pass : ∀ x xs s, J (x :: xs) s → Total (f x) s fun _ => J xs) :
    Total (each f xs) s fun _ => J [] := by
  induction xs generalizing s with
  | nil => exact .ret start
  | cons x xs ih => exact (pass x xs s start).bind fun _ s h => ih h

theorem total_collect {f : α → Prog ε σ β} (J : List α → List β → σ → Prop)
    {xs : List α} {s : σ} (start : J xs [] s)
    (pass : ∀ x xs ys s, J (x :: xs) ys s → Total (f x) s fun y => J xs (ys ++ [y])) :
    Total (collect f xs) s fun ys => J [] ys := by
  suffices h :
    ∀ ys s, J xs ys s → Total (collect f xs) s fun zs => J [] (ys ++ zs) from h [] s start
  clear start
  induction xs with
  | nil =>
    intro ys s h
    refine .ret ?_
    rw [List.append_nil]
    exact h
  | cons x xs ih =>
    intro ys s h
    refine (pass x xs ys s h).bind fun y s h => (ih (ys ++ [y]) s h).bind fun zs s h => .ret ?_
    rwa [List.append_assoc] at h

/-- A loop whose passes all return and never leave it does not end. -/
theorem not_ends_loop {body : ι → Prog ε σ (ι ⊕ α)} (I : ι → σ → Prop)
    (pass : ∀ i s, I i s → Total (body i) s fun r s' => ∃ j, r = .inl j ∧ I j s') {i : ι} {s : σ}
    (start : I i s) : ¬ Ends (loop body i) s := by
  refine not_ends (I := fun x => ∃ i, x.1 = .iter body i .ret ∧ I i x.2) ?_ ⟨i, rfl, start⟩
  rintro ⟨p, s⟩ ⟨i, hp, hi⟩
  dsimp only at hp hi
  subst hp
  obtain ⟨r, s', ⟨j, rfl, hj⟩, hpath⟩ := (pass i s hi).path (again body .ret)
  exact ⟨(.iter body j .ret, s'), .head' .iter hpath, j, rfl, hj⟩

end Prog
end ExtMem.Threads
