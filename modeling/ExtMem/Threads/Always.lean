import ExtMem.Threads.Views

/-! Properties that every action of a program has, whatever the actions answer, and
what follows for its runs and for its safety. -/
namespace ExtMem.Threads
namespace Prog
variable {ε σ α β ι : Type}

/-- Every action that occurs in the program has the property. -/
def Always {ε σ : Type} (P : (β : Type) → (σ → Outcome ε σ β) → Prop) :
    {α : Type} → Prog ε σ α → Prop
  | _, .ret _ => True
  | _, @Prog.act _ _ _ β f k => P β f ∧ ∀ b, Always P (k b)
  | _, .ask k => ∀ n, Always P (k n)
  | _, .iter body _ k => (∀ j, Always P (body j)) ∧ ∀ b, Always P (k b)

variable {P : (β : Type) → (σ → Outcome ε σ β) → Prop}

theorem Always.bind' {p : Prog ε σ α} {g : α → Prog ε σ β} (hp : Always P p)
    (hg : ∀ a, Always P (g a)) : Always P (p.bind g) := by
  induction p with
  | ret a => exact hg a
  | act f k ih => exact ⟨hp.1, fun b => ih b (hp.2 b) hg⟩
  | ask k ih => exact fun n => ih n (hp n) hg
  | iter body i k _ ih => exact ⟨hp.1, fun b => ih b (hp.2 b) hg⟩

@[simp] theorem always_bind {p : Prog ε σ α} {g : α → Prog ε σ β} (hp : Always P p)
    (hg : ∀ a, Always P (g a)) : Always P (p >>= g) := hp.bind' hg

@[simp] theorem always_map {p : Prog ε σ α} (g : α → β) (hp : Always P p) : Always P (g <$> p) :=
  hp.bind' fun _ => trivial

@[simp] theorem always_pure (a : α) : Always P (pure a : Prog ε σ α) := trivial

@[simp] theorem always_answer : Always P (answer : Prog ε σ Nat) := fun _ => trivial

theorem always_atomic {f : σ → Outcome ε σ α} (h : P α f) : Always P (atomic f) :=
  ⟨h, fun _ => trivial⟩

@[simp] theorem always_ite {c : Prop} [Decidable c] {p q : Prog ε σ α} (hp : Always P p)
    (hq : Always P q) : Always P (if c then p else q) := by
  split
  · exact hp
  · exact hq

@[simp] theorem always_loop {body : ι → Prog ε σ (ι ⊕ α)} {i : ι} (h : ∀ j, Always P (body j)) :
    Always P (loop body i) := ⟨h, fun _ => trivial⟩

theorem always_each {f : α → Prog ε σ Unit} {xs : List α} (h : ∀ x, Always P (f x)) :
    Always P (each f xs) := by
  induction xs with
  | nil => trivial
  | cons x xs ih => exact always_bind (h x) fun _ => ih

theorem always_collect {f : α → Prog ε σ β} {xs : List α} (h : ∀ x, Always P (f x)) :
    Always P (collect f xs) := by
  induction xs with
  | nil => trivial
  | cons x xs ih => exact always_bind (h x) fun _ => always_bind ih fun _ => trivial

theorem Always.mono {P' : (β : Type) → (σ → Outcome ε σ β) → Prop} {p : Prog ε σ α} (h : Always P p)
    (hi : ∀ β f, P β f → P' β f) : Always P' p := by
  induction p with
  | ret a => trivial
  | act f k ih => exact ⟨hi _ _ h.1, fun b => ih b (h.2 b)⟩
  | ask k ih => exact fun n => ih n (h n)
  | iter body i k ihb ihk => exact ⟨fun j => ihb j (h.1 j), fun b => ihk b (h.2 b)⟩

/-- What every action of a program keeps, its completed runs keep. -/
theorem Always.runs {p : Prog ε σ α} (h : Always P p) {I : σ → Prop}
    (hP : ∀ β f, P β f → ∀ s b s', I s → f s = .ok b s' → I s') {s s' : σ} {a : α}
    (hr : Runs p s a s') (hs : I s) : I s' := by
  induction hr with
  | ret a s => exact hs
  | act he _ ih => exact ih (h.2 _) (hP _ _ h.1 _ _ _ hs he)
  | ask n _ ih => exact ih (h n) hs
  | next _ _ ihb ih => exact ih h (ihb (h.1 _) hs)
  | done _ _ ihb ih => exact ih (h.2 _) (ihb (h.1 _) hs)

/-! Actions that relate the state they leave to the state they find. -/

/-- An action that takes a state to a related one if it succeeds, and that aborts for such a
reason if it aborts. -/
def Relates (R : σ → σ → Prop) (A : ε → Prop) (β : Type) (f : σ → Outcome ε σ β) : Prop :=
  ∀ s, match f s with
    | .ok _ s' => R s s'
    | .wait => True
    | .abort why => A why

section
variable {R R' : σ → σ → Prop} {A A' : ε → Prop} {f : σ → Outcome ε σ β} {p : Prog ε σ α} {s s' : σ}

theorem relates_intro (hok : ∀ s b s', f s = .ok b s' → R s s')
    (habort : ∀ s why, f s = .abort why → A why) : Relates R A β f := by
  intro s
  cases hf : f s with
  | ok b s' => exact hok s b s' hf
  | wait => trivial
  | abort why => exact habort s why hf

theorem Relates.ok {b : β} (h : Relates R A β f) (hf : f s = .ok b s') : R s s' := by
  have hs := h s
  rw [hf] at hs
  exact hs

theorem Relates.abort {why : ε} (h : Relates R A β f) (hf : f s = .abort why) : A why := by
  have hs := h s
  rw [hf] at hs
  exact hs

theorem Relates.mono (h : Relates R A β f) (hR : ∀ s s', R s s' → R' s s')
    (hA : ∀ why, A why → A' why) : Relates R' A' β f :=
  relates_intro (fun s _ s' hf => hR s s' (h.ok hf)) fun _ why hf => hA why (h.abort hf)

/-- What all actions of a program keep to, its runs keep to. -/
theorem after_relates (h : Always (Relates R A) p) (hrefl : ∀ s, R s s)
    (htrans : ∀ {s₁ s₂ s₃}, R s₁ s₂ → R s₂ s₃ → R s₁ s₃) : After p s fun _ s' => R s s' :=
  fun _ _ hr => h.runs (I := fun s' => R s s')
    (fun _ _ hf _ _ _ hs he => htrans hs (hf.ok he)) hr (hrefl s)

end

end Prog

namespace Outline
variable {ε S L T α : Type} [DecidableEq T] {Λ : Outline ε S L T} {t : T}

/-- A program is safe if each of its actions keeps what its thread knows. -/
theorem safe_of_always {P : (β : Type) → (Ctx S L → Outcome ε (Ctx S L) β) → Prop}
    {J : L → Λ.γ → Prop} (hP : ∀ β f, P β f → ∀ l g, J l g → Λ.Action t f (fun _ => J) l g)
    {p : Prog ε (Ctx S L) α} (h : Prog.Always P p) {l : L} {g : Λ.γ} (hJ : J l g) :
    Λ.Safe t p (fun _ => J) l g := by
  induction p generalizing l g with
  | ret a => exact hJ
  | act f k ih => exact (hP _ f h.1 l g hJ).mono fun b l g hj => ih b (h.2 b) hj
  | ask k ih => exact fun n => ih n (h n) hJ
  | iter body i k ihb ihk =>
    refine ⟨fun _ => J, hJ, fun j l g hj => (ihb j (h.1 j) hj).mono fun r l g hr => ?_⟩
    cases r with
    | inl j => exact hr
    | inr b => exact ihk b (h.2 b) hr

end Outline
end ExtMem.Threads
