import ExtMem.Threads.Pool
import ExtMem.Threads.Always

/-! A program of one thread among others: between two of its actions the shared state may become
anything. What such a run does to the thread's own state. -/
namespace ExtMem.Threads
namespace Prog
variable {ε S L α β ι : Type}

/-- The completed runs of a program whose thread others may interrupt, by what it does to the
thread's own state. -/
inductive Amid {ε S L : Type} : {α : Type} → Prog ε (Ctx S L) α → L → α → L → Prop where
  | ret {α : Type} (a : α) (l : L) : Amid (.ret a) l a l
  | act {α β : Type} {f : Ctx S L → Outcome ε (Ctx S L) β} {k : β → Prog ε (Ctx S L) α} {l l' : L}
    {e : Ctx S L}
      {b : β} {a : α} (s : S) : f ⟨s, l⟩ = .ok b e → Amid (k b) e.loc a l' → Amid (.act f k) l a l'
  | ask {α : Type} {k : Nat → Prog ε (Ctx S L) α} {l l' : L} {a : α} (n : Nat) :
    Amid (k n) l a l' → Amid (.ask k) l a l'
  | next {α β ι : Type} {body : ι → Prog ε (Ctx S L) (ι ⊕ β)} {i j : ι} {k : β → Prog ε (Ctx S L) α}
    {l l₁ l' : L} {a : α} :
      Amid (body i) l (.inl j) l₁ → Amid (.iter body j k) l₁ a l' → Amid (.iter body i k) l a l'
  | done {α β ι : Type} {body : ι → Prog ε (Ctx S L) (ι ⊕ β)} {i : ι} {b : β}
    {k : β → Prog ε (Ctx S L) α} {l l₁ l' : L}
      {a : α} : Amid (body i) l (.inr b) l₁ → Amid (k b) l₁ a l' → Amid (.iter body i k) l a l'

/-- A run of a sequence splits at the point where the first part returns. -/
theorem Amid.bind_inv {p : Prog ε (Ctx S L) α} {g : α → Prog ε (Ctx S L) β} {l l' : L} {b : β}
    (h : Amid (p.bind g) l b l') : ∃ a l₁, Amid p l a l₁ ∧ Amid (g a) l₁ b l' := by
  generalize hq : p.bind g = q at h
  induction h generalizing α p with
  | ret b l =>
    cases p with
    | ret a =>
      rw [ret_bind] at hq
      exact ⟨a, l, .ret a l, by rw [hq]; exact .ret b l⟩
    | _ => cases hq
  | act s he hr ih =>
    cases p with
    | ret a => exact ⟨a, _, .ret a _, by rw [show g a = _ from hq]; exact .act s he hr⟩
    | act f k =>
      cases hq
      obtain ⟨a, l₁, h₁, h₂⟩ := ih rfl
      exact ⟨a, l₁, .act s he h₁, h₂⟩
    | _ => cases hq
  | ask n hr ih =>
    cases p with
    | ret a => exact ⟨a, _, .ret a _, by rw [show g a = _ from hq]; exact .ask n hr⟩
    | ask k =>
      cases hq
      obtain ⟨a, l₁, h₁, h₂⟩ := ih rfl
      exact ⟨a, l₁, .ask n h₁, h₂⟩
    | _ => cases hq
  | next hb hr _ ih =>
    cases p with
    | ret a => exact ⟨a, _, .ret a _, by rw [show g a = _ from hq]; exact .next hb hr⟩
    | iter body i k =>
      cases hq
      obtain ⟨a, l₁, h₁, h₂⟩ := ih (iter_bind _ _ k g)
      exact ⟨a, l₁, .next hb h₁, h₂⟩
    | _ => cases hq
  | done hb hr _ ih =>
    cases p with
    | ret a => exact ⟨a, _, .ret a _, by rw [show g a = _ from hq]; exact .done hb hr⟩
    | iter body i k =>
      cases hq
      obtain ⟨a, l₁, h₁, h₂⟩ := ih rfl
      exact ⟨a, l₁, .done hb h₁, h₂⟩
    | _ => cases hq

/-- A run alone is a run among others that do nothing. -/
theorem Runs.amid {p : Prog ε (Ctx S L) α} {e e' : Ctx S L} {a : α} (h : Runs p e a e') :
    Amid p e.loc a e'.loc := by
  induction h with
  | ret a e => exact .ret a e.loc
  | @act α β f k e e₁ e₂ b a he _ ih => exact .act e.sh he ih
  | ask n _ ih => exact .ask n ih
  | next _ _ ihb ih => exact .next ihb ih
  | done _ _ ihb ih => exact .done ihb ih

variable {P : (β : Type) → (Ctx S L → Outcome ε (Ctx S L) β) → Prop}

/-- What every action keeps of the thread's own state, the run keeps. -/
theorem Always.amid {p : Prog ε (Ctx S L) α} (h : Always P p) {I : L → Prop}
    (hP : ∀ β f, P β f → ∀ e b e', I e.loc → f e = .ok b e' → I e'.loc) {l l' : L} {a : α}
    (hr : Amid p l a l') (hl : I l) : I l' := by
  induction hr with
  | ret a l => exact hl
  | act s he _ ih => exact ih (h.2 _) (hP _ _ h.1 _ _ _ hl he)
  | ask n _ ih => exact ih (h n) hl
  | next _ _ ihb ih => exact ih h (ihb (h.1 _) hl)
  | done _ _ ihb ih => exact ih (h.2 _) (ihb (h.1 _) hl)

end Prog

namespace Conf
variable {ε S L T : Type} [DecidableEq T]

/-- Whatever a thread still does in a pool, it does among others: a step of its own is the next
part of such a run, and steps of others do not touch it. -/
theorem Step.amid {ops : Prog ε (Ctx S L) Unit → Prop} {t u : T} {c c' : Conf ε S L T} {l : L}
    (h : Step ops u c c') (hbusy : u = t → c.thr t ≠ .ret ())
    (hr : Prog.Amid (c'.thr t) (c'.loc t) () l) : Prog.Amid (c.thr t) (c.loc t) () l := by
  by_cases hut : u = t
  · subst hut
    cases h with
    | act hp hf =>
      rw [hp]
      simp only [Function.update_self] at hr
      exact .act _ hf hr
    | ask n hp =>
      rw [hp]
      simp only [Function.update_self] at hr
      exact .ask n hr
    | iter hp =>
      rw [hp]
      simp only [Function.update_self] at hr
      obtain ⟨r, l₁, hb, hk⟩ := hr.bind_inv
      cases r with
      | inl j => exact .next hb hk
      | inr b => exact .done hb hk
    | start hp _ => exact absurd hp (hbusy rfl)
  · have hne : t ≠ u := Ne.symm hut
    cases h with
    | act => simpa [Function.update_of_ne hne] using hr
    | ask => simpa [Function.update_of_ne hne] using hr
    | iter => simpa [Function.update_of_ne hne] using hr
    | start => simpa [Function.update_of_ne hne] using hr

/-- Steps of a pool during which the thread starts no operation. -/
inductive Working (ops : Prog ε (Ctx S L) Unit → Prop)
    (t : T) : Conf ε S L T → Conf ε S L T → Prop where
  | refl (c : Conf ε S L T) : Working ops t c c
  | step {u : T} {c c₁ c' : Conf ε S L T} :
      Step ops u c c₁ → (u = t → c.thr t ≠ .ret ()) → Working ops t c₁ c' → Working ops t c c'

/-- What a thread does in a pool until it is done is a run among others. -/
theorem Working.amid {ops : Prog ε (Ctx S L) Unit → Prop} {t : T} {c c' : Conf ε S L T}
    (h : Working ops t c c') (hdone : c'.thr t = .ret ()) :
    Prog.Amid (c.thr t) (c.loc t) () (c'.loc t) := by
  induction h with
  | refl c =>
    rw [hdone]
    exact .ret () _
  | step hst hbusy _ ih => exact hst.amid hbusy (ih hdone)

end Conf
end ExtMem.Threads
