import ExtMem.Threads.Pool
import ExtMem.Threads.Always

/-! Programs that keep an invariant at every step, also in runs that do not end, as long as
their steps keep to a rule; and the pools in which one operation ends before the next starts. -/
namespace ExtMem.Threads
namespace Prog
variable {ε σ α β ι : Type} {R : σ → σ → Prop} {I : σ → Prop}

/-- Run alone, with steps that all keep to the rule, the program keeps the invariant at every
step and ends in the postcondition if it ends. -/
def Throughout {ε σ : Type} (R : σ → σ → Prop) (I : σ → Prop) :
    {α : Type} → Prog ε σ α → σ → (α → σ → Prop) → Prop
  | _, .ret a, s, Q => Q a s
  | _, @Prog.act _ _ _ β f k, s, Q =>
    ∀ (b : β) s', f s = .ok b s' → R s s' → I s' ∧ Throughout R I (k b) s' Q
  | _, .ask k, s, Q => ∀ n, Throughout R I (k n) s Q
  | _, @Prog.iter _ _ _ _ ι body i k, s, Q => ∃ J : ι → σ → Prop, J i s ∧ ∀ j s, J j s →
      Throughout R I (body j) s fun r s => r.elim (fun j => J j s) fun b => Throughout R I (k b) s Q

theorem Throughout.mono {p : Prog ε σ α} {s : σ} {Q Q' : α → σ → Prop} (h : Throughout R I p s Q)
    (hi : ∀ a s, Q a s → Q' a s) : Throughout R I p s Q' := by
  induction p generalizing s with
  | ret a => exact hi a s h
  | act f k ih =>
    intro b s' he hR
    obtain ⟨hI, hk⟩ := h b s' he hR
    exact ⟨hI, ih b hk hi⟩
  | ask k ih => exact fun n => ih n (h n) hi
  | iter body i k ihb ihk =>
    obtain ⟨J, hJ, hstep⟩ := h
    refine ⟨J, hJ, fun j s hj => ihb j (hstep j s hj) fun r s hr => ?_⟩
    cases r with
    | inl j => exact hr
    | inr b => exact ihk b hr hi

theorem Throughout.bind' {p : Prog ε σ α} {g : α → Prog ε σ β} {s : σ} {Q : β → σ → Prop}
    (h : Throughout R I p s fun a s => Throughout R I (g a) s Q) :
    Throughout R I (p.bind g) s Q := by
  induction p generalizing s with
  | ret a => exact h
  | act f k ih =>
    intro b s' he hR
    obtain ⟨hI, hk⟩ := h b s' he hR
    exact ⟨hI, ih b hk⟩
  | ask k ih => exact fun n => ih n (h n)
  | iter body i k ihb ihk =>
    obtain ⟨J, hJ, hstep⟩ := h
    refine ⟨J, hJ, fun j s hj => (hstep j s hj).mono fun r s hr => ?_⟩
    cases r with
    | inl j => exact hr
    | inr b => exact ihk b hr

theorem Throughout.bind {p : Prog ε σ α} {g : α → Prog ε σ β} {s : σ} {Q : β → σ → Prop}
    (h : Throughout R I p s fun a s => Throughout R I (g a) s Q) : Throughout R I (p >>= g) s Q :=
  h.bind'

theorem throughout_atomic {f : σ → Outcome ε σ α} {s : σ} {Q : α → σ → Prop}
    (h : ∀ a s', f s = .ok a s' → R s s' → I s' ∧ Q a s') : Throughout R I (atomic f) s Q := h

theorem throughout_loop {body : ι → Prog ε σ (ι ⊕ α)} {Q : α → σ → Prop} (J : ι → σ → Prop)
    (step : ∀ i s, J i s → Throughout R I (body i) s fun r s =>
      r.elim (fun j => J j s) fun a => Q a s) {i : ι} {s : σ}
    (start : J i s) : Throughout R I (loop body i) s Q := ⟨J, start, step⟩

/-- The next pass of a loop is a part of it. -/
theorem Throughout.next {body : ι → Prog ε σ (ι ⊕ β)} {i : ι} {k : β → Prog ε σ α} {s : σ}
    {Q : α → σ → Prop} (h : Throughout R I (.iter body i k) s Q) :
    Throughout R I ((body i).bind (again body k)) s Q := by
  obtain ⟨J, hJ, hstep⟩ := h
  refine Throughout.bind' ((hstep i s hJ).mono fun r s hr => ?_)
  cases r with
  | inl j => exact ⟨J, hr, hstep⟩
  | inr b => exact hr

/-- If no action breaks the rule, the completed runs end in the postcondition. -/
theorem Throughout.after {p : Prog ε σ α} {s : σ} {Q : α → σ → Prop} (h : Throughout R I p s Q)
    (hR : Always (fun _ f => ∀ s b s', f s = .ok b s' → R s s') p) : After p s Q := by
  intro a s' hr
  induction hr with
  | ret a s => exact h
  | act he _ ih => exact ih (h _ _ he (hR.1 _ _ _ he)).2 (hR.2 _)
  | ask n _ ih => exact ih (h n) (hR n)
  | next _ _ ihb ih =>
    obtain ⟨J, hJ, hstep⟩ := h
    exact ih ⟨J, ihb (hstep _ _ hJ) (hR.1 _), hstep⟩ hR
  | done _ _ ihb ih =>
    obtain ⟨J, hJ, hstep⟩ := h
    exact ih (ihb (hstep _ _ hJ) (hR.1 _)) (hR.2 _)

/-- The program keeps a property of the state, and the invariant while it runs. -/
def Tends (R : σ → σ → Prop) (I K : σ → Prop) (p : Prog ε σ α) : Prop :=
  ∀ s, K s → Throughout R I p s fun _ => K

variable {K : σ → Prop}

theorem Tends.bind {p : Prog ε σ α} {g : α → Prog ε σ β} (hp : Tends R I K p)
    (hg : ∀ a, Tends R I K (g a)) : Tends R I K (p >>= g) :=
  fun s hs => ((hp s hs).mono fun a s hs => hg a s hs).bind

theorem tends_pure (a : α) : Tends R I K (pure a : Prog ε σ α) := fun _ hs => hs

theorem Tends.ite {c : Prop} [Decidable c] {p q : Prog ε σ α} (hp : Tends R I K p)
    (hq : Tends R I K q) : Tends R I K (if c then p else q) := by
  split
  · exact hp
  · exact hq

theorem tends_loop {body : ι → Prog ε σ (ι ⊕ α)} {i : ι} (h : ∀ j, Tends R I K (body j)) :
    Tends R I K (loop body i) := by
  refine fun s hs =>
    throughout_loop (fun _ => K) (fun j s hs => (h j s hs).mono fun r s hs => ?_) hs
  cases r <;> exact hs

theorem tends_each {f : α → Prog ε σ Unit} {xs : List α} (h : ∀ x, Tends R I K (f x)) :
    Tends R I K (each f xs) := by
  induction xs with
  | nil => exact tends_pure ()
  | cons x xs ih => exact (h x).bind fun _ => ih

theorem tends_collect {f : α → Prog ε σ β} {xs : List α} (h : ∀ x, Tends R I K (f x)) :
    Tends R I K (collect f xs) := by
  induction xs with
  | nil => exact tends_pure []
  | cons x xs ih => exact (h x).bind fun _ => ih.bind fun _ => tends_pure _

/-- A program tends what each of its actions keeps. -/
theorem Always.tends {P : (β : Type) → (σ → Outcome ε σ β) → Prop} {p : Prog ε σ α} (h : Always P p)
    (hI : ∀ s, K s → I s) (hP : ∀ β f, P β f → ∀ s b s', K s → f s = .ok b s' → K s') :
    Tends R I K p := by
  induction p with
  | ret a => exact fun s hs => hs
  | act f k ih =>
    intro s hs b s' he _
    have hs' := hP _ _ h.1 s b s' hs he
    exact ⟨hI s' hs', ih b (h.2 b) s' hs'⟩
  | ask k ih => exact fun s hs n => ih n (h n) s hs
  | iter body i k ihb ihk =>
    refine fun s hs => ⟨fun _ => K, hs, fun j s hs => (ihb j (h.1 j) s hs).mono fun r s hs => ?_⟩
    cases r with
    | inl j => exact hs
    | inr b => exact ihk b (h.2 b) s hs

end Prog

namespace Conf
variable {ε S L T : Type} [DecidableEq T] {R : S → S → Prop} {I K : S → Prop}

/-- The rule of runs in which one operation ends before the next one starts and every step keeps
to a rule about the shared state before and after it. -/
def serialBy (R : S → S → Prop) (t : T) (c : Conf ε S L T) (s : S) : Prop :=
  c.OthersQuiet t ∧ R c.sh s

/-- In such runs the invariant holds at every step if every operation tends what holds between
them. -/
theorem Reach.throughout {ops : Prog ε (Ctx S L) Unit → Prop} {c₀ c : Conf ε S L T}
    (hI : ∀ s, K s → I s) (hops : ∀ p, ops p →
      Prog.Tends (fun e e' : Ctx S L => R e.sh e'.sh) (fun e => I e.sh) (fun e => K e.sh) p)
    (h₀ : c₀.Quiet) (hK : K c₀.sh) (h : Reach ops (serialBy R) c₀ c) : I c.sh := by
  suffices hP : I c.sh ∧ ∀ t, c.OthersQuiet t → Prog.Throughout (fun e e' : Ctx S L => R e.sh e'.sh)
    (fun e => I e.sh) (c.thr t) ⟨c.sh, c.loc t⟩ fun _ e => K e.sh from hP.1
  induction h with
  | init =>
    refine ⟨hI _ hK, fun t _ => ?_⟩
    rw [h₀ t]
    exact hK
  | @step t c c' _ hst hr ih =>
    obtain ⟨hIc, hrest⟩ := ih
    have hown := hrest t hr.1
    have hnext : I c'.sh ∧ Prog.Throughout (fun e e' : Ctx S L => R e.sh e'.sh)
        (fun e => I e.sh) (c'.thr t) ⟨c'.sh, c'.loc t⟩ fun _ e => K e.sh := by
      cases hst with
      | act hp hf =>
        rw [hp] at hown
        simp only [Function.update_self]
        exact hown _ _ hf hr.2
      | ask n hp =>
        rw [hp] at hown
        simp only [Function.update_self]
        exact ⟨hIc, hown n⟩
      | iter hp =>
        rw [hp] at hown
        simp only [Function.update_self]
        exact ⟨hIc, hown.next⟩
      | start hp hop =>
        rw [hp] at hown
        simp only [Function.update_self]
        exact ⟨hIc, hops _ hop _ hown⟩
    refine ⟨hnext.1, fun u hu => ?_⟩
    by_cases hut : u = t
    · rw [hut]
      exact hnext.2
    · have hquiet : c'.thr t = .ret () := hu t (Ne.symm hut)
      have hK' := hnext.2
      rw [hquiet] at hK'
      have huq : c'.thr u = .ret () := by
        cases hst with
        | _ => simp [hut, hr.1 u hut]
      rw [huq]
      exact hK'

end Conf
end ExtMem.Threads
