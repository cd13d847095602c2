import ExtMem.Threads.Throughout

/-! Runs found by evaluation: a schedule tells the threads in turn what to start and how many steps
to take, and every step is checked. -/
namespace ExtMem.Threads
namespace Prog
variable {ε σ α : Type}

/-- Some steps of a program run alone, each of them checked. A program that has ended stays as it
is. -/
def advance (check : σ → σ → Bool) : Nat → List Nat → Prog ε σ α → σ → Option (Prog ε σ α × σ)
  | 0, _, p, s => some (p, s)
  | _ + 1, _, .ret a, s => some (.ret a, s)
  | n + 1, answers, .act f k, s =>
    match f s with
    | .ok b s' => if check s s' then advance check n answers (k b) s' else none
    | .wait => none
    | .abort _ => none
  | n + 1, answers, .ask k, s => advance check n answers.tail (k (answers.headD 0)) s
  | n + 1, answers, .iter body i k, s => advance check n answers ((body i).bind (again body k)) s

/-- Why the next action of the program aborts, if it does. -/
def abortOf : Prog ε σ α → σ → Option ε
  | .act f _, s =>
    match f s with
    | .abort why => some why
    | _ => none
  | _, _ => none

end Prog

namespace Conf
variable {ε S L T : Type} {ops : Prog ε (Ctx S L) Unit → Prop} {check : Ctx S L → Ctx S L → Bool}
  {rule : T → Conf ε S L T → S → Prop} {R : S → S → Prop} {c₀ c c' : Conf ε S L T} {t : T}

/-- A turn of a thread: the operation it starts, if any, how many steps it takes and what it is
told. -/
structure Turn (ε S L T : Type) where
  thread : T
  starts : Option (Prog ε (Ctx S L) Unit)
  steps : Nat
  answers : List Nat

/-- What the thread of a turn is to go on with. -/
def Turn.prog (x : Turn ε S L T) (c : Conf ε S L T) : Option (Prog ε (Ctx S L) Unit) :=
  match x.starts, c.thr x.thread with
  | none, p => some p
  | some p, .ret _ => some p
  | some _, _ => none

/-- The rule allows the thread every checked step, the others being where they are. -/
def Allows (check : Ctx S L → Ctx S L → Bool) (rule : T → Conf ε S L T → S → Prop) (t : T)
    (c : Conf ε S L T) : Prop :=
  ∀ d : Conf ε S L T, (∀ u, u ≠ t → d.thr u = c.thr u) → ∀ s,
    s = d.sh ∨ (∃ e, check ⟨d.sh, d.loc t⟩ e = true ∧ e.sh = s) → rule t d s

theorem Allows.congr (h : Allows check rule t c) (hc : ∀ u, u ≠ t → c'.thr u = c.thr u) :
    Allows check rule t c' :=
  fun d hd => h d fun u hu => (hd u hu).trans (hc u hu)

variable [DecidableEq T]

/-- The configuration after a turn. -/
def turn (check : Ctx S L → Ctx S L → Bool) (c : Conf ε S L T)
    (x : Turn ε S L T) : Option (Conf ε S L T) :=
  (x.prog c).bind fun p => (p.advance check x.steps x.answers ⟨c.sh, c.loc x.thread⟩).map fun r =>
    ⟨r.2.sh, Function.update c.loc x.thread r.2.loc, Function.update c.thr x.thread r.1⟩

/-- The configuration after some turns. -/
def play (check : Ctx S L → Ctx S L → Bool) (c : Conf ε S L T) :
    List (Turn ε S L T) → Option (Conf ε S L T)
  | [] => some c
  | x :: xs => (c.turn check x).bind fun c' => c'.play check xs

theorem Allows.update (h : Allows check rule t c) (s : S) (loc : T → L)
    (p : Prog ε (Ctx S L) Unit) : Allows check rule t ⟨s, loc, Function.update c.thr t p⟩ :=
  h.congr fun _ hu => Function.update_of_ne hu _ _

/-- Checked steps of one thread are steps of the pool. -/
theorem Reach.advance {n : Nat} {answers : List Nat} {p p' : Prog ε (Ctx S L) Unit} {e : Ctx S L}
    (hrule : Allows check rule t c) (h : Reach ops rule c₀ c) (hp : c.thr t = p)
    (ha : p.advance check n answers ⟨c.sh, c.loc t⟩ = some (p', e)) :
    Reach ops rule c₀ ⟨e.sh, Function.update c.loc t e.loc, Function.update c.thr t p'⟩ := by
  induction n generalizing c answers p with
  | zero =>
    obtain ⟨rfl, rfl⟩ := Prod.mk.inj (Option.some.inj ha)
    subst hp
    simpa using h
  | succ n ih =>
    cases p with
    | ret a =>
      obtain ⟨rfl, rfl⟩ := Prod.mk.inj (Option.some.inj ha)
      rw [← hp]
      simpa using h
    | act f k =>
      simp only [Prog.advance] at ha
      split at ha
      · next b e₁ hf =>
        split at ha
        · next hc =>
          have h₁ := Reach.step h (Step.act hp hf) (hrule c (fun _ _ => rfl) _ (.inr ⟨e₁, hc, rfl⟩))
          simpa using ih (hrule.update _ _ _) h₁ (Function.update_self _ _ _) (by simpa using ha)
        · cases ha
      · cases ha
      · cases ha
    | ask k =>
      have h₁ :=
        Reach.step h (Step.ask (answers.headD 0) hp) (hrule c (fun _ _ => rfl) _ (.inl rfl))
      simpa using ih (hrule.update _ _ _) h₁ (Function.update_self _ _ _) ha
    | iter body i k =>
      have h₁ := Reach.step h (Step.iter hp) (hrule c (fun _ _ => rfl) _ (.inl rfl))
      simpa using ih (hrule.update _ _ _) h₁ (Function.update_self _ _ _) ha

/-- A turn is a part of a run. -/
theorem Reach.turn {x : Turn ε S L T} (hops : ∀ p, x.starts = some p → ops p)
    (hrule : Allows check rule x.thread c) (h : Reach ops rule c₀ c)
    (hx : c.turn check x = some c') : Reach ops rule c₀ c' := by
  obtain ⟨p, hp, hx⟩ := Option.bind_eq_some_iff.mp hx
  obtain ⟨⟨p', e⟩, ha, rfl⟩ := Option.map_eq_some_iff.mp hx
  unfold Turn.prog at hp
  split at hp
  · cases hp
    exact h.advance hrule rfl ha
  · next q _ hs ht =>
    cases hp
    have h₁ := Reach.step h (Step.start ht (hops p hs)) (hrule c (fun _ _ => rfl) _ (.inl rfl))
    simpa using Reach.advance (hrule.update _ _ _) h₁ (Function.update_self _ _ _) ha
  · cases hp

/-- Turns of any threads are a run if the rule always allows what is checked. -/
theorem Reach.play {xs : List (Turn ε S L T)} (hops : ∀ x ∈ xs, ∀ p, x.starts = some p → ops p)
    (hrule : ∀ t c, Allows check rule t c) (h : Reach ops rule c₀ c)
    (hx : c.play check xs = some c') : Reach ops rule c₀ c' := by
  induction xs generalizing c with
  | nil =>
    cases hx
    exact h
  | cons x xs ih =>
    obtain ⟨c₁, h₁, hx⟩ := Option.bind_eq_some_iff.mp hx
    refine ih (fun y hy => hops y (List.mem_cons_of_mem _ hy)) ?_ hx
    exact h.turn (hops x List.mem_cons_self) (hrule _ _) h₁

/-- The turns of one thread, the others quiet, are a run whose steps keep to the rule that is
checked. -/
theorem Reach.playAlone {xs : List (Turn ε S L T)}
    (hcheck : ∀ e e', check e e' = true → R e.sh e'.sh) (hR : ∀ s, R s s)
    (hops : ∀ x ∈ xs, x.thread = t ∧ ∀ p, x.starts = some p → ops p)
    (h : Reach ops (serialBy R) c₀ c) (hq : c.OthersQuiet t) (hx : c.play check xs = some c') :
    Reach ops (serialBy R) c₀ c' := by
  induction xs generalizing c with
  | nil =>
    cases hx
    exact h
  | cons x xs ih =>
    obtain ⟨c₁, h₁, hx⟩ := Option.bind_eq_some_iff.mp hx
    obtain ⟨ht, hp⟩ := hops x List.mem_cons_self
    refine ih (fun y hy => hops y (List.mem_cons_of_mem _ hy)) ?_ (fun u hu => ?_) hx
    · refine h.turn hp (fun d hd s hs => ⟨fun u hu => ?_, ?_⟩) h₁
      · rw [hd u hu]
        exact hq u (ht ▸ hu)
      · rcases hs with rfl | ⟨e, hc, rfl⟩
        · exact hR _
        · exact hcheck _ _ hc
    · obtain ⟨p, -, h₁⟩ := Option.bind_eq_some_iff.mp h₁
      obtain ⟨r, -, rfl⟩ := Option.map_eq_some_iff.mp h₁
      show Function.update c.thr x.thread r.1 u = _
      rw [Function.update_of_ne (ht ▸ hu)]
      exact hq u hu

end Conf
end ExtMem.Threads
