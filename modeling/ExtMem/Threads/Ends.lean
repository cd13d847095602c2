import ExtMem.Threads.Total

/-! Rules by which a program run alone is shown to take finitely many steps, whether it
returns or aborts. -/
namespace ExtMem.Threads
namespace Prog
variable {ε σ α β ι : Type}

/-- No loop and no action that may wait. -/
def Straight {ε σ : Type} : {α : Type} → Prog ε σ α → Prop
  | _, .ret _ => True
  | _, .act f k => (∀ s, f s ≠ .wait) ∧ ∀ b, Straight (k b)
  | _, .ask k => ∀ n, Straight (k n)
  | _, .iter _ _ _ => False

theorem Straight.bind' {p : Prog ε σ α} {g : α → Prog ε σ β} (hp : Straight p)
    (hg : ∀ a, Straight (g a)) : Straight (p.bind g) := by
  induction p with
  | ret a => exact hg a
  | act f k ih => exact ⟨hp.1, fun b => ih b (hp.2 b) hg⟩
  | ask k ih => exact fun n => ih n (hp n) hg
  | iter body i k _ ih => exact hp.elim

theorem straight_bind {p : Prog ε σ α} {g : α → Prog ε σ β} (hp : Straight p)
    (hg : ∀ a, Straight (g a)) : Straight (p >>= g) := hp.bind' hg

@[simp] theorem straight_pure (a : α) : Straight (pure a : Prog ε σ α) := trivial

theorem straight_atomic {f : σ → Outcome ε σ α} (h : ∀ s, f s ≠ .wait) : Straight (atomic f) :=
  ⟨h, fun _ => trivial⟩

@[simp] theorem straight_read (g : σ → α) : Straight (read g : Prog ε σ α) :=
  straight_atomic fun s => by
  simp

@[simp] theorem straight_modify (f : σ → σ) : Straight (modify f : Prog ε σ Unit) :=
  straight_atomic fun s => by
  simp

@[simp] theorem straight_answer : Straight (answer : Prog ε σ Nat) := fun _ => trivial

@[simp] theorem straight_fail (e : ε) : Straight (fail e : Prog ε σ α) :=
  ⟨fun _ => by simp, fun b => b.elim⟩

@[simp] theorem straight_assert (c : σ → Bool) (e : ε) : Straight (assert c e) :=
  straight_atomic fun s => by split <;> simp

@[simp] theorem straight_check (c : Bool) (e : ε) : Straight (check c e : Prog ε σ Unit) := by
  unfold check
  split <;> simp

theorem straight_ite {c : Prop} [Decidable c] {p q : Prog ε σ α} (hp : Straight p)
    (hq : Straight q) : Straight (if c then p else q) := by
  split
  · exact hp
  · exact hq

theorem Straight.ends {p : Prog ε σ α} (h : Straight p) (s : σ) : Ends p s := by
  induction p generalizing s with
  | ret a => exact ends_ret a s
  | act f k ih =>
    refine .intro _ fun y hy => ?_
    cases hy with
    | act he => exact ih _ (h.2 _) _
    | wait he => exact absurd he (h.1 s)
  | ask k ih =>
    refine .intro _ fun y hy => ?_
    cases hy with
    | ask n => exact ih n (h n) s
  | iter body i k _ ih => exact h.elim

/-- A program ends if its first part does and, wherever that returns, the rest does. -/
theorem Ends.bind {p : Prog ε σ α} {g : α → Prog ε σ β} {s : σ} (h : Ends p s)
    (hg : ∀ a s', Runs p s a s' → Ends (g a) s') : Ends (p.bind g) s := by
  unfold Ends at h
  generalize hx : (p, s) = x at h
  induction h generalizing p s with
  | intro x _ ih =>
    subst hx
    cases p with
    | ret a => exact hg a s (.ret a s)
    | act f k =>
      refine .intro _ fun y hy => ?_
      cases hy with
      | act he => exact ih _ (.act he) (fun a s' hr => hg a s' (.act he hr)) rfl
      | wait he => exact ih _ (.wait he) hg rfl
    | ask k =>
      refine .intro _ fun y hy => ?_
      cases hy with
      | ask n => exact ih _ (.ask n) (fun a s' hr => hg a s' (.ask n hr)) rfl
    | iter body i k =>
      refine .intro _ fun y hy => ?_
      cases hy with
      | iter =>
        have hb := ih _ .iter (fun a s' hr => hg a s' ?_) rfl
        · rwa [bind_bind, again_bind] at hb
        · obtain ⟨r, s₁, h₁, h₂⟩ := hr.bind_inv
          cases r with
          | inl j => exact .next h₁ h₂
          | inr b => exact .done h₁ h₂

/-- A loop ends if each pass ends and leaves it or makes a measure smaller. -/
theorem ends_loop {body : ι → Prog ε σ (ι ⊕ α)} (I : ι → σ → Prop)
    (μ : ι → Nat) (pass : ∀ i s, I i s → Ends (body i) s)
    (step : ∀ i s, I i s → After (body i) s fun r s' =>
      r.elim (fun j => I j s' ∧ μ j < μ i) fun _ => True) {i : ι} {s : σ} (start : I i s) :
    Ends (loop body i) s := by
  induction hm : μ i using Nat.strongRecOn generalizing i s with
  | ind m ih =>
    refine .intro _ fun y hy => ?_
    cases hy with
    | iter =>
      refine (pass i s start).bind fun r s' hr => ?_
      have hstep := step i s start r s' hr
      cases r with
      | inl j => exact ih (μ j) (hm ▸ hstep.2) hstep.1 rfl
      | inr a => exact ends_ret a s'

end Prog
end ExtMem.Threads
