import ExtMem.Threads.Throughout

/-! Programs that abort only where they are allowed to, as long as their steps keep to a rule. -/
namespace ExtMem.Threads
namespace Prog
variable {ε σ α β ι : Type} {R : σ → σ → Prop} {B : ε → σ → Prop}

/-- Run alone, with steps that all keep to the rule, the program aborts only for reasons and in
states that the bound allows, and it ends in the postcondition if it ends. -/
def Excused {ε σ : Type} (R : σ → σ → Prop) (B : ε → σ → Prop) :
    {α : Type} → Prog ε σ α → σ → (α → σ → Prop) → Prop
  | _, .ret a, s, Q => Q a s
  | _, @Prog.act _ _ _ β f k, s, Q => (∀ why, f s = .abort why → B why s) ∧
      ∀ (b : β) s', f s = .ok b s' → R s s' → Excused R B (k b) s' Q
  | _, .ask k, s, Q => ∀ n, Excused R B (k n) s Q
  | _, @Prog.iter _ _ _ _ ι body i k, s, Q => ∃ J : ι → σ → Prop, J i s ∧ ∀ j s, J j s →
      Excused R B (body j) s fun r s => r.elim (fun j => J j s) fun b => Excused R B (k b) s Q

theorem Excused.mono {p : Prog ε σ α} {s : σ} {Q Q' : α → σ → Prop} (h : Excused R B p s Q)
    (hi : ∀ a s, Q a s → Q' a s) : Excused R B p s Q' := by
  induction p generalizing s with
  | ret a => exact hi a s h
  | act f k ih => exact ⟨h.1, fun b s' he hR => ih b (h.2 b s' he hR) hi⟩
  | ask k ih => exact fun n => ih n (h n) hi
  | iter body i k ihb ihk =>
    obtain ⟨J, hJ, hstep⟩ := h
    refine ⟨J, hJ, fun j s hj => ihb j (hstep j s hj) fun r s hr => ?_⟩
    cases r with
    | inl j => exact hr
    | inr b => exact ihk b hr hi

theorem Excused.bind' {p : Prog ε σ α} {g : α → Prog ε σ β} {s : σ} {Q : β → σ → Prop}
    (h : Excused R B p s fun a s => Excused R B (g a) s Q) : Excused R B (p.bind g) s Q := by
  induction p generalizing s with
  | ret a => exact h
  | act f k ih => exact ⟨h.1, fun b s' he hR => ih b (h.2 b s' he hR)⟩
  | ask k ih => exact fun n => ih n (h n)
  | iter body i k ihb ihk =>
    obtain ⟨J, hJ, hstep⟩ := h
    refine ⟨J, hJ, fun j s hj => (hstep j s hj).mono fun r s hr => ?_⟩
    cases r with
    | inl j => exact hr
    | inr b => exact ihk b hr

theorem Excused.bind {p : Prog ε σ α} {g : α → Prog ε σ β} {s : σ} {Q : β → σ → Prop}
    (h : Excused R B p s fun a s => Excused R B (g a) s Q) : Excused R B (p >>= g) s Q := h.bind'

theorem excused_atomic {f : σ → Outcome ε σ α} {s : σ} {Q : α → σ → Prop}
    (ha : ∀ why, f s = .abort why → B why s)
    (h : ∀ a s', f s = .ok a s' → R s s' → Q a s') : Excused R B (atomic f) s Q := ⟨ha, h⟩

theorem excused_ite {c : Prop} [Decidable c] {p q : Prog ε σ α} {s : σ} {Q : α → σ → Prop}
    (hp : c → Excused R B p s Q) (hq : ¬ c → Excused R B q s Q) :
    Excused R B (if c then p else q) s Q := by
  by_cases hc : c
  · rw [if_pos hc]
    exact hp hc
  · rw [if_neg hc]
    exact hq hc

theorem excused_loop {body : ι → Prog ε σ (ι ⊕ α)} {Q : α → σ → Prop}
    (J : ι → σ → Prop) {i : ι} {s : σ} (start : J i s)
    (pass : ∀ i s, J i s → Excused R B (body i) s fun r s =>
      r.elim (fun j => J j s) fun a => Q a s) : Excused R B (loop body i) s Q := ⟨J, start, pass⟩

theorem excused_collect {f : α → Prog ε σ β} {Q : List β → σ → Prop}
    (J : List α → List β → σ → Prop) {xs : List α} {s : σ} (start : J xs [] s)
    (pass : ∀ x xs ys s, J (x :: xs) ys s → Excused R B (f x) s fun y => J xs (ys ++ [y]))
    (done : ∀ ys s, J [] ys s → Q ys s) : Excused R B (collect f xs) s Q := by
  suffices h :
    ∀ ys s, J xs ys s → Excused R B (collect f xs) s fun zs => Q (ys ++ zs) from h [] s start
  clear start
  induction xs with
  | nil =>
    intro ys s h
    rw [← List.append_nil ys] at h
    exact done _ s h
  | cons x xs ih =>
    intro ys s h
    refine Excused.bind ((pass x xs ys s h).mono fun y s hy => Excused.bind ?_)
    refine (ih (ys ++ [y]) s hy).mono fun zs s hz => ?_
    rwa [List.append_assoc] at hz

theorem excused_each {f : α → Prog ε σ Unit} {Q : Unit → σ → Prop}
    (J : List α → σ → Prop) {xs : List α} {s : σ} (start : J xs s)
    (pass : ∀ x xs s, J (x :: xs) s → Excused R B (f x) s fun _ => J xs)
    (done : ∀ s, J [] s → Q () s) : Excused R B (each f xs) s Q := by
  induction xs generalizing s with
  | nil => exact done s start
  | cons x xs ih => exact Excused.bind ((pass x xs s start).mono fun _ s hs => ih hs)

/-- The next pass of a loop is a part of it. -/
theorem Excused.next {body : ι → Prog ε σ (ι ⊕ β)} {i : ι} {k : β → Prog ε σ α} {s : σ}
    {Q : α → σ → Prop} (h : Excused R B (.iter body i k) s Q) :
    Excused R B ((body i).bind (again body k)) s Q := by
  obtain ⟨J, hJ, hstep⟩ := h
  refine Excused.bind' ((hstep i s hJ).mono fun r s hr => ?_)
  cases r with
  | inl j => exact ⟨J, hr, hstep⟩
  | inr b => exact hr

/-- What completed runs lead to may be added. -/
theorem Excused.strengthen {p : Prog ε σ α} {s : σ} {Q Q' : α → σ → Prop} (h : Excused R B p s Q)
    (ha : After p s Q') : Excused R B p s fun a s => Q a s ∧ Q' a s := by
  induction p generalizing s with
  | ret a => exact ⟨h, (after_ret _ _ _).mp ha⟩
  | act f k ih =>
    exact ⟨h.1, fun b s' he hR => ih b (h.2 b s' he hR) fun a s₁ hr => ha a s₁ (.act he hr)⟩
  | ask k ih => exact fun n => ih n (h n) fun a s₁ hr => ha a s₁ (.ask n hr)
  | iter body i k ihb ihk =>
    obtain ⟨J, hJ, hstep⟩ := h
    refine ⟨fun j s => J j s ∧ After (.iter body j k) s Q', ⟨hJ, ha⟩, fun j s ⟨hj, haj⟩ => ?_⟩
    -- a pass that goes on leaves the rest of the loop, one that does not what comes after it
    have hpass : After (body j) s fun r s' =>
        r.elim (fun j => After (.iter body j k) s' Q') fun b => After (k b) s' Q' := by
      intro r s' hr
      cases r with
      | inl j' => exact fun a s₁ hr' => haj a s₁ (.next hr hr')
      | inr b => exact fun a s₁ hr' => haj a s₁ (.done hr hr')
    refine (ihb j (hstep j s hj) hpass).mono fun r s' ⟨hr, har⟩ => ?_
    cases r with
    | inl j' => exact ⟨hr, har⟩
    | inr b => exact ihk b hr har

/-- Without a rule, a run that ends is in the postcondition, and one that aborts was allowed to. -/
theorem Excused.after {p : Prog ε σ α} {s : σ} {Q : α → σ → Prop} (h : Excused R B p s Q)
    (hR : ∀ s s', R s s') : After p s Q := by
  intro a s' hr
  induction hr with
  | ret a s => exact h
  | act he _ ih => exact ih (h.2 _ _ he (hR _ _))
  | ask n _ ih => exact ih (h n)
  | next _ _ ihb ihk =>
    obtain ⟨J, hJ, hstep⟩ := h
    exact ihk ⟨J, ihb (hstep _ _ hJ), hstep⟩
  | done _ _ ihb ihk =>
    obtain ⟨J, hJ, hstep⟩ := h
    exact ihk (ihb (hstep _ _ hJ))

theorem Excused.aborts {p : Prog ε σ α} {s s' : σ} {why : ε} {Q : α → σ → Prop}
    (h : Excused R B p s Q) (hR : ∀ s s', R s s') (ha : Aborts p s why s') : B why s' := by
  induction ha with
  | here he => exact h.1 _ he
  | act he _ ih => exact ih (h.2 _ _ he (hR _ _))
  | ask n _ ih => exact ih (h n)
  | inside _ ih =>
    obtain ⟨J, hJ, hstep⟩ := h
    exact ih (hstep _ _ hJ)
  | next hr _ ih =>
    obtain ⟨J, hJ, hstep⟩ := h
    exact ih ⟨J, (hstep _ _ hJ).after hR _ _ hr, hstep⟩
  | done hr _ ih =>
    obtain ⟨J, hJ, hstep⟩ := h
    exact ih ((hstep _ _ hJ).after hR _ _ hr)

/-- A program none of whose actions aborts against the bound. -/
theorem Always.excused {P : (β : Type) → (σ → Outcome ε σ β) → Prop} {p : Prog ε σ α}
    (h : Always P p) (hP : ∀ β f, P β f → ∀ s why, f s = .abort why → B why s) (s : σ) :
    Excused R B p s fun _ _ => True := by
  induction p generalizing s with
  | ret a => trivial
  | act f k ih => exact ⟨hP _ _ h.1 s, fun b s' _ _ => ih b (h.2 b) s'⟩
  | ask k ih => exact fun n => ih n (h n) s
  | iter body i k ihb ihk =>
    refine ⟨fun _ _ => True, trivial, fun j s _ => (ihb j (h.1 j) s).mono fun r s _ => ?_⟩
    cases r with
    | inl j => trivial
    | inr b => exact ihk b (h.2 b) s

end Prog

namespace Conf
variable {ε S L T : Type} [DecidableEq T] {R : S → S → Prop} {B : ε → S → Prop} {K : S → Prop}

/-- In such runs the others are quiet while a thread has something to do. -/
theorem Reach.othersQuiet {ops : Prog ε (Ctx S L) Unit → Prop} {c₀ c : Conf ε S L T} (h₀ : c₀.Quiet)
    (h : Reach ops (serialBy R) c₀ c) {t : T} (ht : c.thr t ≠ .ret ()) : c.OthersQuiet t := by
  cases h with
  | init => exact absurd (h₀ t) ht
  | @step u c _ _ hst hr =>
    have hstays (v : T) (hv : v ≠ u) : c.thr v = .ret () := hr.1 v hv
    have htu : t = u := by
      by_contra hne
      refine ht ?_
      cases hst with
      | _ => simp [hne, hstays t hne]
    subst htu
    intro v hv
    cases hst with
    | _ => simp [hv, hstays v hv]

/-- In runs of one operation at a time whose steps keep to the rule a thread aborts only where it is
allowed to, if every operation does and keeps what holds between them. -/
theorem Reach.excused {ops : Prog ε (Ctx S L) Unit → Prop} {c₀ c : Conf ε S L T}
    (hops : ∀ p, ops p → ∀ e, K e.sh → Prog.Excused (fun e e' : Ctx S L => R e.sh e'.sh)
      (fun why e => B why e.sh) p e fun _ e => K e.sh) (h₀ : c₀.Quiet) (hK : K c₀.sh)
    (h : Reach ops (serialBy R) c₀ c) {t : T} {why : ε} (ha : c.CanAbort t why) : B why c.sh := by
  suffices hP : ∀ t, c.OthersQuiet t → Prog.Excused (fun e e' : Ctx S L => R e.sh e'.sh)
    (fun why e => B why e.sh) (c.thr t) ⟨c.sh, c.loc t⟩ fun _ e => K e.sh by
    obtain ⟨β, f, k, hp, hf⟩ := ha
    have hown := hP t (h.othersQuiet h₀ (by rw [hp]; exact fun hc => by cases hc))
    rw [hp] at hown
    exact hown.1 why hf
  clear ha
  induction h with
  | init =>
    intro t _
    rw [h₀ t]
    exact hK
  | @step t c c' _ hst hr ih =>
    have hown := ih t hr.1
    have hnext : Prog.Excused (fun e e' : Ctx S L => R e.sh e'.sh)
        (fun why e => B why e.sh) (c'.thr t) ⟨c'.sh, c'.loc t⟩ fun _ e => K e.sh := by
      cases hst with
      | act hp hf =>
        rw [hp] at hown
        simp only [Function.update_self]
        exact hown.2 _ _ hf hr.2
      | ask n hp =>
        rw [hp] at hown
        simp only [Function.update_self]
        exact hown n
      | iter hp =>
        rw [hp] at hown
        simp only [Function.update_self]
        exact hown.next
      | start hp hop =>
        rw [hp] at hown
        simp only [Function.update_self]
        exact hops _ hop _ hown
    intro u hu
    by_cases hut : u = t
    · rw [hut]
      exact hnext
    · have hquiet : c'.thr t = .ret () := hu t (Ne.symm hut)
      have hK' := hnext
      rw [hquiet] at hK'
      have huq : c'.thr u = .ret () := by
        cases hst with
        | _ => simp [hut, hr.1 u hut]
      rw [huq]
      exact hK'

end Conf
end ExtMem.Threads
