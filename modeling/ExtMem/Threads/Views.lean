import ExtMem.Threads.Pool
import ExtMem.Threads.Solo

/-! A program logic for threads. A ghost state accompanies the shared state; each thread
has a view of it that no other thread changes, and one global invariant ties the shared
state, the threads' own states and the ghost state together. What a thread knows at a
point of its program speaks only of its own state and its view. -/
namespace ExtMem.Threads

/-- The ghost state of a proof with the views of it, the invariant, the rule that steps are
assumed to keep and the aborts that must not happen. -/
structure Outline (ε S L T : Type) where
  Γ : Type
  γ : Type
  view : Γ → T → γ
  inv : S → (T → L) → Γ → Prop
  rule : T → S → (T → L) → Γ → S → Prop
  bad : ε → Prop

variable {ε S L T : Type} [DecidableEq T] {α β ι : Type}

namespace Outline

/-- What one action of a thread must guarantee, given what is to hold when it is done. -/
def Action (Λ : Outline ε S L T) (t : T) (f : Ctx S L → Outcome ε (Ctx S L) β)
    (Q : β → L → Λ.γ → Prop) (l : L) (g : Λ.γ) : Prop :=
  ∀ s ls G, Λ.inv s ls G → ls t = l → Λ.view G t = g →
    match f ⟨s, l⟩ with
    | .ok b e => Λ.rule t s ls G e.sh → ∃ G', Λ.inv e.sh (Function.update ls t e.loc) G' ∧
        (∀ u, u ≠ t → Λ.view G' u = Λ.view G u) ∧ Q b e.loc (Λ.view G' t)
    | .wait => True
    | .abort why => ¬ Λ.bad why

/-- From these own state and view the program keeps the invariant at every step, causes no
bad abort, and ends in the postcondition if it ends. -/
def Safe (Λ : Outline ε S L T) (t : T) {α : Type} (p : Prog ε (Ctx S L) α)
    (Q : α → L → Λ.γ → Prop) (l : L) (g : Λ.γ) : Prop :=
  match p with
  | .ret a => Q a l g
  | .act f k => Λ.Action t f (fun b l g => Safe Λ t (k b) Q l g) l g
  | .ask k => ∀ n, Safe Λ t (k n) Q l g
  | @Prog.iter _ _ _ _ ι body i k => ∃ J : ι → L → Λ.γ → Prop, J i l g ∧ ∀ j l g, J j l g →
      Safe Λ t (body j) (fun r l g => r.elim (fun j => J j l g) fun b => Safe Λ t (k b) Q l g) l g

variable {Λ : Outline ε S L T} {t : T}

theorem Action.mono {f : Ctx S L → Outcome ε (Ctx S L) β} {Q R : β → L → Λ.γ → Prop} {l : L}
    {g : Λ.γ} (h : Λ.Action t f Q l g) (hi : ∀ b l g, Q b l g → R b l g) : Λ.Action t f R l g := by
  intro s ls G hinv hl hg
  have hs := h s ls G hinv hl hg
  cases hf : f ⟨s, l⟩ with
  | ok b e =>
    rw [hf] at hs
    intro hr
    obtain ⟨G', hinv', hother, hq⟩ := hs hr
    exact ⟨G', hinv', hother, hi _ _ _ hq⟩
  | wait => trivial
  | abort why =>
    rw [hf] at hs
    exact hs

theorem Safe.mono {p : Prog ε (Ctx S L) α} {Q R : α → L → Λ.γ → Prop} {l : L} {g : Λ.γ}
    (h : Λ.Safe t p Q l g) (hi : ∀ a l g, Q a l g → R a l g) : Λ.Safe t p R l g := by
  induction p generalizing l g with
  | ret a => exact hi _ _ _ h
  | act f k ih => exact Action.mono h fun b l g hb => ih b hb hi
  | ask k ih => exact fun n => ih n (h n) hi
  | iter body i k ihb ihk =>
    obtain ⟨J, hi₀, hJ⟩ := h
    refine ⟨J, hi₀, fun j l g hj => ihb j (hJ j l g hj) fun r l g hr => ?_⟩
    cases r with
    | inl j => exact hr
    | inr b => exact ihk b hr hi

/-- A sequence is safe if its first part is safe and leads to where the second part is. -/
theorem Safe.bind {p : Prog ε (Ctx S L) α} {q : α → Prog ε (Ctx S L) β} {Q : α → L → Λ.γ → Prop}
    {R : β → L → Λ.γ → Prop} {l : L} {g : Λ.γ} (h : Λ.Safe t p Q l g)
    (hq : ∀ a l g, Q a l g → Λ.Safe t (q a) R l g) : Λ.Safe t (p.bind q) R l g := by
  induction p generalizing l g with
  | ret a => exact hq _ _ _ h
  | act f k ih => exact Action.mono h fun b l g hb => ih b hb hq
  | ask k ih => exact fun n => ih n (h n) hq
  | iter body i k ihb ihk =>
    obtain ⟨J, hi₀, hJ⟩ := h
    refine ⟨J, hi₀, fun j l g hj => (hJ j l g hj).mono fun r l g hr => ?_⟩
    cases r with
    | inl j => exact hr
    | inr b => exact ihk b hr hq

theorem safe_bind {p : Prog ε (Ctx S L) α} {q : α → Prog ε (Ctx S L) β} {R : β → L → Λ.γ → Prop}
    {l : L} {g : Λ.γ} (h : Λ.Safe t p (fun a l g => Λ.Safe t (q a) R l g) l g) :
    Λ.Safe t (p >>= q) R l g := h.bind fun _ _ _ ha => ha

@[simp] theorem safe_pure (a : α) (Q : α → L → Λ.γ → Prop) (l : L) (g : Λ.γ) :
    Λ.Safe t (pure a : Prog ε (Ctx S L) α) Q l g ↔ Q a l g := Iff.rfl

theorem safe_atomic {f : Ctx S L → Outcome ε (Ctx S L) α} {Q : α → L → Λ.γ → Prop} {l : L}
    {g : Λ.γ} : Λ.Safe t (Prog.atomic f) Q l g ↔ Λ.Action t f Q l g := Iff.rfl

theorem safe_answer {Q : Nat → L → Λ.γ → Prop} {l : L} {g : Λ.γ} (h : ∀ n, Q n l g) :
    Λ.Safe t (Prog.answer : Prog ε (Ctx S L) Nat) Q l g := h

theorem safe_fail {e : ε} {Q : α → L → Λ.γ → Prop} {l : L} {g : Λ.γ} (h : ¬ Λ.bad e) :
    Λ.Safe t (Prog.fail e : Prog ε (Ctx S L) α) Q l g := fun _ _ _ _ _ _ => h

theorem safe_check {c : Bool} {e : ε} {Q : Unit → L → Λ.γ → Prop} {l : L} {g : Λ.γ}
    (hc : c = true ∨ ¬ Λ.bad e) (h : c = true → Q () l g) :
    Λ.Safe t (Prog.check c e : Prog ε (Ctx S L) Unit) Q l g := by
  cases c with
  | true => exact h rfl
  | false => exact safe_fail (hc.resolve_left Bool.false_ne_true)

theorem safe_ite {c : Prop} [Decidable c] {p q : Prog ε (Ctx S L) α} {Q : α → L → Λ.γ → Prop}
    {l : L} {g : Λ.γ} (hp : c → Λ.Safe t p Q l g) (hq : ¬ c → Λ.Safe t q Q l g) :
    Λ.Safe t (if c then p else q) Q l g := by
  by_cases hc : c
  · rw [if_pos hc]
    exact hp hc
  · rw [if_neg hc]
    exact hq hc

/-- A loop is safe if one pass of its body keeps what its loop state tells. -/
theorem safe_loop {body : ι → Prog ε (Ctx S L) (ι ⊕ α)} {Q : α → L → Λ.γ → Prop}
    (J : ι → L → Λ.γ → Prop) {i : ι} {l : L} {g : Λ.γ} (start : J i l g)
    (pass : ∀ i l g, J i l g →
      Λ.Safe t (body i) (fun r l g => r.elim (fun j => J j l g) fun a => Q a l g) l g) :
    Λ.Safe t (Prog.loop body i) Q l g := ⟨J, start, pass⟩

/-- Over an array, what holds of the elements done and the elements left is passed on. -/
theorem safe_each {f : α → Prog ε (Ctx S L) Unit} {Q : Unit → L → Λ.γ → Prop}
    (J : List α → L → Λ.γ → Prop) {xs : List α} {l : L} {g : Λ.γ} (start : J xs l g)
    (pass : ∀ x xs l g, J (x :: xs) l g → Λ.Safe t (f x) (fun _ => J xs) l g)
    (done : ∀ l g, J [] l g → Q () l g) : Λ.Safe t (Prog.each f xs) Q l g := by
  induction xs generalizing l g with
  | nil => exact done l g start
  | cons x xs ih => exact safe_bind ((pass x xs l g start).mono fun _ l g h => ih h)

theorem safe_collect {f : α → Prog ε (Ctx S L) β} {Q : List β → L → Λ.γ → Prop}
    (J : List α → List β → L → Λ.γ → Prop) {xs : List α} {l : L} {g : Λ.γ} (start : J xs [] l g)
    (pass : ∀ x xs ys l g, J (x :: xs) ys l g → Λ.Safe t (f x) (fun y => J xs (ys ++ [y])) l g)
    (done : ∀ ys l g, J [] ys l g → Q ys l g) : Λ.Safe t (Prog.collect f xs) Q l g := by
  suffices h : ∀ ys l g, J xs ys l g →
      Λ.Safe t (Prog.collect f xs) (fun zs => Q (ys ++ zs)) l g by
    simpa using h [] l g start
  clear start
  induction xs with
  | nil =>
    intro ys l g h
    simpa [Prog.collect] using done ys l g h
  | cons x xs ih =>
    intro ys l g h
    refine safe_bind ((pass x xs ys l g h).mono fun y l g hy => safe_bind ?_)
    exact (ih (ys ++ [y]) l g hy).mono fun zs l g hz => by simpa using hz

/-! What safety means for the threads together. -/

/-- In every configuration that is reached the invariant holds and each thread is safe. -/
theorem reach_safe {ops : Prog ε (Ctx S L) Unit → Prop} {rule : T → Conf ε S L T → S → Prop}
    {idle : L → Λ.γ → Prop} {c₀ c : Conf ε S L T}
    (hrule : ∀ t c G s', rule t c s' → (∀ u, c.thr u = .ret () → idle (c.loc u) (Λ.view G u)) →
      Λ.rule t c.sh c.loc G s')
    (hops : ∀ t p, ops p → ∀ l g, idle l g → Λ.Safe t p (fun _ => idle) l g)
    (hinit : ∃ G, Λ.inv c₀.sh c₀.loc G ∧
      ∀ t, Λ.Safe t (c₀.thr t) (fun _ => idle) (c₀.loc t) (Λ.view G t))
    (h : Conf.Reach ops rule c₀ c) :
    ∃ G, Λ.inv c.sh c.loc G ∧ ∀ t, Λ.Safe t (c.thr t) (fun _ => idle) (c.loc t) (Λ.view G t) := by
  induction h with
  | init => exact hinit
  | @step t c c' _ hst hr ih =>
    obtain ⟨G, hinv, hsafe⟩ := ih
    cases hst with
    | @act β f k b e hp hf =>
      have ht := hsafe t
      rw [hp] at ht
      have hs := ht c.sh c.loc G hinv rfl rfl
      rw [hf] at hs
      obtain ⟨G', hinv', hother, hnext⟩ := hs (hrule _ _ _ _ hr fun u hu => by
        have hsu := hsafe u
        rwa [hu] at hsu)
      refine ⟨G', hinv', fun u => ?_⟩
      by_cases hu : u = t
      · subst hu
        simpa using hnext
      · simpa [hu, hother u hu] using hsafe u
    | @ask k n hp =>
      refine ⟨G, hinv, fun u => ?_⟩
      by_cases hu : u = t
      · subst hu
        have ht := hsafe u
        rw [hp] at ht
        simpa using ht n
      · simpa [hu] using hsafe u
    | @iter ι β body i k hp =>
      refine ⟨G, hinv, fun u => ?_⟩
      by_cases hu : u = t
      · subst hu
        have ht := hsafe u
        rw [hp] at ht
        obtain ⟨J, hi, hJ⟩ := ht
        simp only [Function.update_self]
        refine (hJ i _ _ hi).bind fun r l g hr => ?_
        cases r with
        | inl j => exact ⟨J, hr, hJ⟩
        | inr b => exact hr
      · simpa [hu] using hsafe u
    | @start p hp hop =>
      refine ⟨G, hinv, fun u => ?_⟩
      by_cases hu : u = t
      · subst hu
        have ht := hsafe u
        rw [hp] at ht
        simpa using hops u p hop _ _ ht
      · simpa [hu] using hsafe u

/-- A safe thread does not abort for a bad reason. -/
theorem not_bad_of_canAbort {idle : L → Λ.γ → Prop} {c : Conf ε S L T} {G : Λ.Γ} {why : ε}
    (hinv : Λ.inv c.sh c.loc G) (hs : Λ.Safe t (c.thr t) (fun _ => idle) (c.loc t) (Λ.view G t))
    (h : c.CanAbort t why) : ¬ Λ.bad why := by
  obtain ⟨β, f, k, hp, hf⟩ := h
  rw [hp] at hs
  have ht := hs c.sh c.loc G hinv rfl rfl
  rwa [hf] at ht

end Outline
end ExtMem.Threads
