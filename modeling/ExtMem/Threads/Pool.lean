import ExtMem.Threads.Solo

/-! Any number of threads on one shared state. A step is one atomic action of one
thread; a thread that has finished may start any of the given operations. -/
namespace ExtMem.Threads
variable {ε S L T : Type} [DecidableEq T]

/-- The shared state, each thread's own state and what each has still to do. -/
structure Conf (ε S L T : Type) where
  sh : S
  loc : T → L
  thr : T → Prog ε (Ctx S L) Unit

namespace Conf

/-- One step of one thread. -/
inductive Step (ops : Prog ε (Ctx S L) Unit → Prop)
    (t : T) : Conf ε S L T → Conf ε S L T → Prop where
  | act {c : Conf ε S L T} {β : Type} {f : Ctx S L → Outcome ε (Ctx S L) β}
      {k : β → Prog ε (Ctx S L) Unit} {b : β} {e : Ctx S L} :
      c.thr t = .act f k → f ⟨c.sh, c.loc t⟩ = .ok b e →
      Step ops t c ⟨e.sh, Function.update c.loc t e.loc, Function.update c.thr t (k b)⟩
  | ask {c : Conf ε S L T} {k : Nat → Prog ε (Ctx S L) Unit} (n : Nat) :
      c.thr t = .ask k → Step ops t c { c with thr := Function.update c.thr t (k n) }
  | iter {c : Conf ε S L T} {ι β : Type} {body : ι → Prog ε (Ctx S L) (ι ⊕ β)} {i : ι}
      {k : β → Prog ε (Ctx S L) Unit} :
      c.thr t = .iter body i k →
      Step ops t c { c with thr := Function.update c.thr t ((body i).bind (Prog.again body k)) }
  | start {c : Conf ε S L T} {p : Prog ε (Ctx S L) Unit} :
      c.thr t = .ret () → ops p → Step ops t c { c with thr := Function.update c.thr t p }

/-- The configurations that steps lead to, each of which keeps to a rule about the thread,
the configuration before it and the shared state after it. -/
inductive Reach (ops : Prog ε (Ctx S L) Unit → Prop) (rule : T → Conf ε S L T → S → Prop)
    (init : Conf ε S L T) : Conf ε S L T → Prop where
  | init : Reach ops rule init init
  | step {t : T} {c c' : Conf ε S L T} :
      Reach ops rule init c → Step ops t c c' → rule t c c'.sh → Reach ops rule init c'

/-- The threads other than this one have nothing left to do. -/
def OthersQuiet (c : Conf ε S L T) (t : T) : Prop := ∀ u, u ≠ t → c.thr u = .ret ()

/-- The next action of a thread ends the process. -/
def CanAbort (c : Conf ε S L T) (t : T) (why : ε) : Prop :=
  ∃ (β : Type) (f : Ctx S L → Outcome ε (Ctx S L) β) (k : β → Prog ε (Ctx S L) Unit),
    c.thr t = .act f k ∧ f ⟨c.sh, c.loc t⟩ = .abort why

/-- No thread has anything left to do. -/
def Quiet (c : Conf ε S L T) : Prop := ∀ t, c.thr t = .ret ()

theorem Reach.mono {ops : Prog ε (Ctx S L) Unit → Prop} {rule rule' : T → Conf ε S L T → S → Prop}
    {c₀ c : Conf ε S L T} (h : Reach ops rule c₀ c) (hi : ∀ t c s, rule t c s → rule' t c s) :
    Reach ops rule' c₀ c := by
  induction h with
  | init => exact .init
  | step _ hst hr ih => exact .step ih hst (hi _ _ _ hr)

theorem Reach.more {ops ops' : Prog ε (Ctx S L) Unit → Prop} {rule : T → Conf ε S L T → S → Prop}
    {c₀ c : Conf ε S L T} (h : Reach ops rule c₀ c) (hi : ∀ p, ops p → ops' p) :
    Reach ops' rule c₀ c := by
  induction h with
  | init => exact .init
  | step _ hst hr ih =>
    refine .step ih ?_ hr
    cases hst with
    | act hp hf => exact .act hp hf
    | ask n hp => exact .ask n hp
    | iter hp => exact .iter hp
    | start hp hop => exact .start hp (hi _ hop)

/-! What a program does alone it also does in a pool. -/

/-- The rule of runs in which one operation ends before the next one starts. -/
def serial (t : T) (c : Conf ε S L T) (_ : S) : Prop := c.OthersQuiet t

private theorem othersQuiet_update {c : Conf ε S L T} {t : T} (h : c.OthersQuiet t) (sh : S)
    (loc : T → L) (p : Prog ε (Ctx S L) Unit) :
    OthersQuiet ⟨sh, loc, Function.update c.thr t p⟩ t := by
  intro u hu
  simpa [hu] using h u hu

/-- What a first part of an operation does alone, its thread does while the others are quiet. -/
theorem Reach.first {ops : Prog ε (Ctx S L) Unit → Prop} {c₀ : Conf ε S L T} {t : T} {α : Type}
    {p : Prog ε (Ctx S L) α} {e e' : Ctx S L} {a : α} (hr : Prog.Runs p e a e') :
    ∀ {c : Conf ε S L T} {k : α → Prog ε (Ctx S L) Unit}, Reach ops serial c₀ c → c.OthersQuiet t →
      c.sh = e.sh → c.loc t = e.loc → c.thr t = p.bind k → Reach ops serial c₀ ⟨e'.sh,
        Function.update c.loc t e'.loc, Function.update c.thr t (k a)⟩ := by
  induction hr with
  | ret a e =>
    intro c k hc hq hs hl ht
    obtain ⟨sh, loc, thr⟩ := c
    have hl' : Function.update loc t e.loc = loc := by rw [← hl]; exact Function.update_eq_self _ _
    have ht' : Function.update thr t (k a) = thr := by
      rw [show k a = thr t from ht.symm]
      exact Function.update_eq_self _ _
    rw [hl', ht', ← hs]
    exact hc
  | @act α β f k' e e₁ e₂ b a hf _ ih =>
    intro c k hc hq hs hl ht
    have hf' : f ⟨c.sh, c.loc t⟩ = .ok b e₁ := by rw [hs, hl]; exact hf
    have h₁ := Reach.step (t := t) hc (Step.act ht hf') hq
    simpa using ih h₁ (othersQuiet_update hq _ _ _) rfl (by simp) (by simp)
  | ask n _ ih =>
    intro c k hc hq hs hl ht
    have h₁ := Reach.step (t := t) hc (Step.ask n ht) hq
    simpa using ih h₁ (othersQuiet_update hq _ _ _) hs hl (by simp)
  | @next α β ι body i j k' e e₁ e₂ a _ _ ihb ihk =>
    intro c k hc hq hs hl ht
    have h₁ := Reach.step (t := t) hc (Step.iter ht) hq
    have h₂ := ihb h₁ (othersQuiet_update hq _ _ _) hs hl (by simp; rfl)
    simpa using ihk (k := k) h₂ (by intro u hu; simpa [hu] using hq u hu) rfl (by simp)
      (by simp; rfl)
  | @done α β ι body i b k' e e₁ e₂ a _ _ ihb ihk =>
    intro c k hc hq hs hl ht
    have h₁ := Reach.step (t := t) hc (Step.iter ht) hq
    have h₂ := ihb h₁ (othersQuiet_update hq _ _ _) hs hl (by simp; rfl)
    simpa using ihk (k := k) h₂ (by intro u hu; simpa [hu] using hq u hu) rfl (by simp)
      (by simp; rfl)

private theorem canAbort_prefix {ops : Prog ε (Ctx S L) Unit → Prop} {c₀ : Conf ε S L T} {t : T}
    {α : Type} {p : Prog ε (Ctx S L) α} {e e' : Ctx S L} {why : ε} (hr : Prog.Aborts p e why e') :
    ∀ {c : Conf ε S L T} {k : α → Prog ε (Ctx S L) Unit}, Reach ops serial c₀ c → c.OthersQuiet t →
      c.sh = e.sh → c.loc t = e.loc → c.thr t = p.bind k →
      ∃ c', Reach ops serial c₀ c' ∧ c'.CanAbort t why ∧ c'.sh = e'.sh ∧ c'.OthersQuiet t := by
  induction hr with
  | @here α β f k' e why hf =>
    intro c k hc hq hs hl ht
    refine ⟨c, hc, ⟨β, f, _, ht, ?_⟩, hs, hq⟩
    rw [hs, hl]
    exact hf
  | @act α β f k' e e₁ e₂ b a hf _ ih =>
    intro c k hc hq hs hl ht
    have hf' : f ⟨c.sh, c.loc t⟩ = .ok b e₁ := by rw [hs, hl]; exact hf
    have h₁ := Reach.step (t := t) hc (Step.act ht hf') hq
    exact ih (k := k) h₁ (othersQuiet_update hq _ _ _) rfl (by simp) (by simp)
  | ask n _ ih =>
    intro c k hc hq hs hl ht
    have h₁ := Reach.step (t := t) hc (Step.ask n ht) hq
    exact ih (k := k) h₁ (othersQuiet_update hq _ _ _) hs hl (by simp)
  | @inside α β ι body i k' e e₁ why _ ih =>
    intro c k hc hq hs hl ht
    have h₁ := Reach.step (t := t) hc (Step.iter ht) hq
    exact ih (k := Prog.again body fun b => (k' b).bind k) h₁ (othersQuiet_update hq _ _ _) hs hl
      (by simp)
  | next hb _ ih =>
    intro c k hc hq hs hl ht
    have h₁ := Reach.step (t := t) hc (Step.iter ht) hq
    have h₂ := Reach.first hb h₁ (othersQuiet_update hq _ _ _) hs hl (by simp; rfl)
    exact ih (k := k) h₂ (by intro u hu; simpa [hu] using hq u hu) rfl (by simp) (by simp; rfl)
  | done hb _ ih =>
    intro c k hc hq hs hl ht
    have h₁ := Reach.step (t := t) hc (Step.iter ht) hq
    have h₂ := Reach.first hb h₁ (othersQuiet_update hq _ _ _) hs hl (by simp; rfl)
    exact ih (k := k) h₂ (by intro u hu; simpa [hu] using hq u hu) rfl (by simp) (by simp; rfl)

/-- A thread may run an operation to its end while the others have nothing to do. -/
theorem Reach.runs {ops : Prog ε (Ctx S L) Unit → Prop} {c₀ c : Conf ε S L T} {t : T}
    {p : Prog ε (Ctx S L) Unit} {e : Ctx S L} (hc : Reach ops serial c₀ c) (hq : c.Quiet)
    (hp : ops p) (hr : Prog.Runs p ⟨c.sh, c.loc t⟩ () e) :
    Reach ops serial c₀ ⟨e.sh, Function.update c.loc t e.loc, c.thr⟩ := by
  have h₁ := Reach.step (t := t) hc (Step.start (hq t) hp) fun u _ => hq u
  have h₂ := Reach.first (k := .ret) hr h₁ (fun u hu => by simpa [hu] using hq u) rfl rfl
    (by simp [Prog.bind_ret])
  have ht : Function.update c.thr t (.ret ()) = c.thr := by
    rw [← hq t]
    exact Function.update_eq_self _ _
  simpa [ht] using h₂

/-- An operation that aborts alone leads to a configuration in which its thread can abort. -/
theorem Reach.aborts {ops : Prog ε (Ctx S L) Unit → Prop} {c₀ c : Conf ε S L T} {t : T}
    {p : Prog ε (Ctx S L) Unit} {e : Ctx S L} {why : ε} (hc : Reach ops serial c₀ c) (hq : c.Quiet)
    (hp : ops p) (hr : Prog.Aborts p ⟨c.sh, c.loc t⟩ why e) :
    ∃ c', Reach ops serial c₀ c' ∧ c'.CanAbort t why ∧ c'.sh = e.sh ∧ c'.OthersQuiet t := by
  have h₁ := Reach.step (t := t) hc (Step.start (hq t) hp) fun u _ => hq u
  exact canAbort_prefix (k := .ret) hr h₁ (fun u hu => by simpa [hu] using hq u) rfl rfl
    (by simp [Prog.bind_ret])

/-- Where one operation ends before the next one starts, what every operation keeps of the
shared state holds whenever no operation is under way. -/
theorem Reach.kept {ops : Prog ε (Ctx S L) Unit → Prop} {c₀ c : Conf ε S L T} {I : S → Prop}
    (hops : ∀ p, ops p → ∀ e : Ctx S L, I e.sh → Prog.After p e fun _ e' => I e'.sh) (h₀ : c₀.Quiet)
    (hI : I c₀.sh) (h : Reach ops serial c₀ c) (t : T) (hq : c.Quiet) : I c.sh := by
  suffices hP : ∀ t, c.OthersQuiet t → Prog.After (c.thr t) ⟨c.sh, c.loc t⟩ fun _ e => I e.sh by
    have ht := hP t fun u _ => hq u
    rw [hq t] at ht
    exact (Prog.after_ret _ _ _).mp ht
  clear hq t
  induction h with
  | init =>
    intro t _
    rw [h₀ t]
    exact (Prog.after_ret _ _ _).mpr hI
  | @step t c c' _ hst hr ih =>
    have hown := ih t hr
    have hnext : Prog.After (c'.thr t) ⟨c'.sh, c'.loc t⟩ fun _ e => I e.sh := by
      cases hst with
      | act hp hf =>
        rw [hp] at hown
        simp only [Function.update_self]
        exact fun a e' hr => hown a e' (.act hf hr)
      | ask m hp =>
        rw [hp] at hown
        simp only [Function.update_self]
        exact fun a e' hr => hown a e' (.ask m hr)
      | iter hp =>
        rw [hp] at hown
        simp only [Function.update_self]
        intro a e' hr
        obtain ⟨r, e₁, hb, hk⟩ := hr.bind_inv
        cases r with
        | inl j => exact hown a e' (.next hb hk)
        | inr b => exact hown a e' (.done hb hk)
      | start hp hop =>
        rw [hp] at hown
        simp only [Function.update_self]
        exact hops _ hop _ ((Prog.after_ret _ _ _).mp hown)
    intro u hu
    by_cases hut : u = t
    · rw [hut]
      exact hnext
    · have hquiet : c'.thr t = .ret () := hu t (Ne.symm hut)
      rw [hquiet] at hnext
      have huq : c'.thr u = .ret () := by
        cases hst with
        | _ => simp [hut, hr u hut]
      rw [huq]
      exact (Prog.after_ret _ _ _).mpr ((Prog.after_ret _ _ _).mp hnext)

end Conf
end ExtMem.Threads
