import ExtMem.Serial.Skeleton
import ExtMem.Threads.Throughout

/-! How often the inactive scan has found a page accessed, in a trace, against the counter in the
descriptor of the page. -/
namespace ExtMem
open Threads Threads.Prog

/-- The inactive scan has just taken the page off its list. -/
def justTaken (d : PageId) : List (Tid × Event) → Bool
  | (_, .dequeued .inactiveList x) :: _ => x == d
  | _ => false

/-- The bits of a mapping have just been read. -/
def justRead : List (Tid × Event) → Bool
  | (_, .flagsRead _ _ _) :: _ => true
  | _ => false

/-- How often, in a trace, newest event first, the inactive scan has found the page accessed since
anything but this scan put it on the inactive list: a first fault, a swap-in or a demotion. -/
def seen (d : PageId) : List (Tid × Event) → Nat
  | [] => 0
  | (_, ev) :: evs =>
    match ev with
    | .flagsRead _ true _ => if justTaken d evs then seen d evs + 1 else seen d evs
    | .enqueued .inactiveList x => if x = d ∧ justRead evs = false then 0 else seen d evs
    | _ => seen d evs

/-- A page that goes to the active list after these events has been found accessed twice. -/
def Event.earned (evs : List (Tid × Event)) : Event → Bool
  | .enqueued .activeList d => 2 ≤ seen d evs
  | _ => true

/-- In a trace, newest event first, each page that went to the active list had been found accessed
twice by then. -/
def Promotions : List (Tid × Event) → Prop
  | [] => True
  | (_, ev) :: evs => ev.earned evs = true ∧ Promotions evs

instance decidablePromotions : (evs : List (Tid × Event)) → Decidable (Promotions evs)
  | [] => isTrue trivial
  | (_, ev) :: evs => @instDecidableAnd (ev.earned evs = true) _ _ (decidablePromotions evs)

/-- The counter of a page is zero, or the page is on the inactive list and was found accessed. -/
def CountFits (s : Shared) (d : PageId) : Prop :=
  (s.page d).naccesses = 0 ∨ (s.page d).naccesses = 1 ∧ s.list d = some .inactiveList ∧
    1 ≤ seen d s.log

/-- All counters fit the trace but that of a page which is under way. -/
structure CountedBut (x : Option PageId) (s : Shared) : Prop where
  fits : ∀ d, x ≠ some d → CountFits s d
  promotions : Promotions s.log

/-- All counters fit the trace. -/
abbrev Counted (s : Shared) : Prop := CountedBut none s

/-- The rule by which no page is unmapped whose counter is not zero. -/
def ForgetsUncounted (s s' : Shared) : Prop :=
  ∀ t d, s'.log = (t, .forgotten d) :: s.log → (s.page d).naccesses = 0

variable {x : Option PageId} {s s' : Shared} {d y : PageId} {t : Tid} {v : Event} {l : FifoList}

theorem seen_of_still (h : v.still = true) (d : PageId) (evs : List (Tid × Event)) :
    seen d evs ≤ seen d ((t, v) :: evs) := by
  cases v with
  | enqueued q y => cases h
  | flagsRead a acc dirty =>
    cases acc with
    | true =>
      show seen d evs ≤ if justTaken d evs then seen d evs + 1 else seen d evs
      split <;> omega
    | false => exact Nat.le_refl _
  | _ => exact Nat.le_refl _

theorem promotions_of_still (h : v.still = true) {evs : List (Tid × Event)} (hp : Promotions evs) :
    Promotions ((t, v) :: evs) := by
  refine ⟨?_, hp⟩
  cases v with
  | enqueued q y => cases h
  | _ => rfl

theorem seen_enqueued (h : y ≠ d ∨ l ≠ .inactiveList) (evs : List (Tid × Event)) :
    seen d ((t, .enqueued l y) :: evs) = seen d evs := by
  cases l with
  | inactiveList =>
    rcases h with h | h
    · exact if_neg fun hc => h hc.1
    · contradiction
  | _ => rfl

theorem promotions_enqueued (h : l ≠ .activeList) {evs : List (Tid × Event)} (hp : Promotions evs) :
    Promotions ((t, .enqueued l d) :: evs) := by
  refine ⟨?_, hp⟩
  cases l with
  | activeList => contradiction
  | _ => rfl

namespace CountedBut

theorem of_eq (h : CountedBut x s) (hn : ∀ d, (s'.page d).naccesses = (s.page d).naccesses)
    (hf : s'.fifos = s.fifos) (hl : s'.log = s.log) : CountedBut x s' := by
  refine ⟨fun d hd => ?_, by rw [hl]; exact h.promotions⟩
  unfold CountFits Shared.list
  rw [hn, hf, hl]
  exact h.fits d hd

theorem of_record (h : CountedBut x s) (hv : v.still = true)
    (hn : ∀ d, (s'.page d).naccesses = (s.page d).naccesses) (hf : s'.fifos = s.fifos)
    (hl : s'.log = (t, v) :: s.log) : CountedBut x s' := by
  refine ⟨fun d hd => ?_, by rw [hl]; exact promotions_of_still hv h.promotions⟩
  unfold CountFits Shared.list
  rw [hn, hf, hl]
  exact (h.fits d hd).imp_right fun ⟨h₁, h₂, h₃⟩ => ⟨h₁, h₂, h₃.trans (seen_of_still hv d _)⟩

/-- A page whose counter is known fits again. -/
theorem settle (h : CountedBut (some d) s) (hd : CountFits s d) : Counted s := by
  refine ⟨fun y _ => ?_, h.promotions⟩
  by_cases hy : y = d
  · rw [hy]
    exact hd
  · exact h.fits y fun hc => hy (Option.some.inj hc).symm

theorem except (h : Counted s) (d : PageId) : CountedBut (some d) s :=
  ⟨fun y _ => h.fits y (by simp), h.promotions⟩

/-- A page that is not on the inactive list has no count. -/
theorem zero (h : CountedBut x s) (hd : x ≠ some d) (hl : s.list d ≠ some .inactiveList) :
    (s.page d).naccesses = 0 :=
  (h.fits d hd).resolve_right fun hc => hl hc.2.1

theorem setPage {e : Env} (h : CountedBut x e.sh) {f : UserPage → UserPage}
    (hf : x ≠ some d → ∀ p, (f p).naccesses = p.naccesses) : CountedBut x (e.setPage d f).sh := by
  refine ⟨fun y hy => ?_, h.promotions⟩
  have hfit := h.fits y hy
  unfold CountFits at hfit ⊢
  by_cases hyd : y = d
  · subst hyd
    simpa [Threads.Ctx.setPage, Shared.setPage, Shared.list, hf hy] using hfit
  · simpa [Threads.Ctx.setPage, Shared.setPage, Shared.list, Function.update_of_ne hyd] using hfit

/-- A page that is on no list goes to a list other than the active one. -/
theorem enqueue {e : Env} (h : Counted e.sh) (hd : e.sh.list d = none) (hl : l ≠ .activeList) :
    Counted (e.enqueue l d).sh := by
  refine ⟨fun y _ => ?_, promotions_enqueued hl h.promotions⟩
  by_cases hy : y = d
  · rw [hy]
    exact .inl (h.zero (by simp) (by rw [hd]; simp))
  · have htag : (e.enqueue l d).sh.list y = e.sh.list y := by
      show (e.sh.fifos.enqueue l d).tag y = e.sh.fifos.tag y
      rw [Queues.tag_enqueue hd, if_neg hy]
    have hseen : seen y (e.enqueue l d).sh.log = seen y e.sh.log :=
      seen_enqueued (.inl (Ne.symm hy)) _
    unfold CountFits
    rw [htag, hseen]
    exact h.fits y (by simp)

/-- Wherever a page goes off a list, only it may not fit. -/
theorem unlink (h : CountedBut x s) (hx : x = none ∨ x = some d) (hv : v.still = true)
    (hp : s'.page = s.page) (hf : s'.fifos = s.fifos.unlink d) (hl : s'.log = (t, v) :: s.log) :
    CountedBut (some d) s' := by
  refine ⟨fun y hy => ?_, by rw [hl]; exact promotions_of_still hv h.promotions⟩
  have hyd : y ≠ d := fun hc => hy (by rw [hc])
  have hfit := h.fits y (by rcases hx with rfl | rfl <;> simp [Ne.symm hyd])
  unfold CountFits Shared.list at hfit ⊢
  rw [hp, hf, hl, Queues.tag_unlink, if_neg hyd]
  exact hfit.imp_right fun ⟨h₁, h₂, h₃⟩ => ⟨h₁, h₂, h₃.trans (seen_of_still hv y _)⟩

/-- A page goes off a list other than the inactive one. -/
theorem leave (h : Counted s) (hd : s.list d ≠ some .inactiveList) (hv : v.still = true)
    (hp : s'.page = s.page) (hf : s'.fifos = s.fifos.unlink d) (hl : s'.log = (t, v) :: s.log) :
    Counted s' := by
  refine (h.unlink (.inl rfl) hv hp hf hl).settle (.inl ?_)
  rw [hp]
  exact h.zero (by simp) hd

end CountedBut

/-- Run alone, the program leaves all counters fitting the trace, and promotes no page too soon,
as long as it unmaps no page that has a count. -/
def Tended {α : Type} (p : Paging α) : Prop :=
  Tends (fun e e' : Env => ForgetsUncounted e.sh e'.sh) (fun e => Promotions e.sh.log)
    (fun e => Counted e.sh) p

namespace Tended
variable {α β : Type}

theorem bind {p : Paging α} {g : α → Paging β} (hp : Tended p)
    (hg : ∀ a, Tended (g a)) : Tended (p >>= g) := Tends.bind hp hg

theorem ite {c : Prop} [Decidable c] {p q : Paging α} (hp : Tended p) (hq : Tended q) :
    Tended (if c then p else q) :=
  Tends.ite hp hq

end Tended

variable {α β ι : Type}

@[simp] theorem tended_bind {p : Paging α} {g : α → Paging β} (hp : Tended p)
    (hg : ∀ a, Tended (g a)) : Tended (p >>= g) :=
  hp.bind hg

@[simp] theorem tended_pure (a : α) : Tended (pure a : Paging α) := tends_pure a

@[simp] theorem tended_map (g : α → β) {p : Paging α} (hp : Tended p) : Tended (g <$> p) := by
  rw [← bind_pure_comp]
  exact hp.bind fun _ => tended_pure _

@[simp] theorem tended_answer : Tended (Prog.answer : Paging Nat) := fun _ h _ => h

@[simp] theorem tended_ite {c : Prop} [Decidable c] {p q : Paging α} (hp : Tended p)
    (hq : Tended q) : Tended (if c then p else q) := hp.ite hq

theorem tended_loop {body : ι → Paging (ι ⊕ α)} {i : ι}
    (h : ∀ j, Tended (body j)) : Tended (Prog.loop body i) := tends_loop h

theorem tended_each {f : α → Paging Unit} {xs : List α}
    (h : ∀ x, Tended (f x)) : Tended (Prog.each f xs) := tends_each h

theorem tended_collect {f : α → Paging β} {xs : List α}
    (h : ∀ x, Tended (f x)) : Tended (Prog.collect f xs) := tends_collect h

/-- An action that keeps the counters fitting. -/
theorem tended_atomic {f : Env → Outcome Abort Env α}
    (h : ∀ e b e', Counted e.sh → f e = .ok b e' → Counted e'.sh) : Tended (Prog.atomic f) :=
  fun e he => throughout_atomic fun b e' hf _ => ⟨(h e b e' he hf).promotions, h e b e' he hf⟩

theorem tended_modify {f : Env → Env} (h : ∀ e, Counted e.sh → Counted (f e).sh) :
    Tended (Prog.modify f : Paging Unit) := by
  refine tended_atomic fun e b e' hc he => ?_
  cases he
  exact h e hc

private theorem counted_of_stills {evs : List (Tid × Event)} (h : ∀ x ∈ evs, x.2.still = true)
    (log : List (Tid × Event)) :
    (Promotions log → Promotions (evs ++ log)) ∧ ∀ d, seen d log ≤ seen d (evs ++ log) := by
  induction evs with
  | nil => exact ⟨id, fun _ => Nat.le_refl _⟩
  | cons x evs ih =>
    obtain ⟨hx, hevs⟩ := List.forall_mem_cons.mp h
    exact ⟨fun hp => promotions_of_still hx ((ih hevs).1 hp),
      fun d => ((ih hevs).2 d).trans (seen_of_still hx d _)⟩

theorem CountedBut.of_still {e e' : Env} (h : CountedBut x e.sh) (hs : StillStep e e') :
    CountedBut x e'.sh := by
  obtain ⟨evs, hl, hevs⟩ := hs.log
  have hpage : e'.sh.page = e.sh.page := congrArg Skeleton.page hs.skeleton
  have hfifos : e'.sh.fifos = e.sh.fifos := congrArg Skeleton.fifos hs.skeleton
  refine ⟨fun d hd => ?_, by rw [hl]; exact (counted_of_stills hevs _).1 h.promotions⟩
  unfold CountFits Shared.list
  rw [hpage, hfifos, hl]
  exact (h.fits d hd).imp_right fun ⟨h₁, h₂, h₃⟩ =>
    ⟨h₁, h₂, h₃.trans ((counted_of_stills hevs _).2 d)⟩

/-- A step that keeps the counters fitting. -/
def KeepsCounted (e e' : Env) : Prop := Counted e.sh → Counted e'.sh

theorem keeps_of_still {p : Paging α} (h : Always Still p) : Always (Within KeepsCounted) p :=
  within_mono h fun _ _ hs hc => hc.of_still hs

/-- Where every action keeps the counters fitting, the program does. -/
@[simp] theorem tended_of_keeps {p : Paging α} (h : Always (Within KeepsCounted) p) : Tended p :=
  h.tends (fun _ hc => hc.promotions) fun _ _ hf _ _ _ hc he => hf.ok he hc

/-- Code that leaves the descriptors and the lists alone keeps the counters fitting. -/
@[simp] theorem tended_of_still {p : Paging α} (h : Always Still p) : Tended p :=
  tended_of_keeps (keeps_of_still h)

@[simp] theorem tended_of_looks {p : Paging α} (h : Always Looks p) : Tended p :=
  tended_of_still (h.within .refl)

theorem CountedBut.record {e : Env} (h : CountedBut x e.sh) (hv : v.still = true) :
    CountedBut x (e.record v).sh :=
  h.of_record hv (fun _ => rfl) rfl rfl

theorem Counted.dequeue {e : Env} {xs : List PageId} (h : Counted e.sh) (hl : l ≠ .inactiveList)
    (hs : e.sh.fifos.seq l = d :: xs) : Counted (e.dequeue l d).sh := by
  refine CountedBut.leave (d := d) (t := e.loc.tid) (v := .dequeued l d) h ?_ rfl rfl rfl rfl
  rw [Shared.list, e.sh.fifos.tag_of_head hs]
  simpa using hl

theorem Counted.remove {e : Env} (h : Counted e.sh) (hd : e.sh.list d = some l)
    (hl : l ≠ .inactiveList) : Counted (e.remove l d).sh := by
  refine CountedBut.leave (d := d) (t := e.loc.tid) (v := .removed l d) h ?_ rfl rfl rfl rfl
  rw [hd]
  simpa using hl

/-! Pages go to the active list in one place only, where the inactive scan puts them, and leave the
inactive list only where the scans examine them and where they are unmapped. -/

@[simp] theorem linking_counted : Linking KeepsCounted where
  refl _ := id
  trans h₁ h₂ h := h₂ (h₁ h)
  enqueue _ _ _ hd hl h := h.enqueue hd hl
  dequeue _ _ _ _ hs hl h := Counted.dequeue h hl hs
  remove _ _ _ hd hl h := Counted.remove h hd hl
  auxiliary _ _ _ _ := id
  record _ _ _ _ hv h := h.record hv

@[simp] theorem claiming_counted : Claiming KeepsCounted where
  toLinking := linking_counted
  flag _ _ _ _ _ hn h := h.setPage fun _ => hn
  setPte _ _ _ _ _ _ _ h := h.of_eq (fun _ => rfl) rfl rfl
  waits _ _ h := h.of_eq (fun _ => rfl) rfl rfl

@[simp] theorem relinking_counted : Relinking KeepsCounted where
  toLinking := linking_counted
  anyPage _ _ _ _ hn h := h.setPage fun _ => hn

@[simp] theorem vacating_counted : Vacating KeepsCounted where
  toClaiming := claiming_counted
  anyPage _ _ _ _ hn h := h.setPage fun _ => hn
  traced _ _ _ _ _ hv h := h.record hv
  counts _ _ _ _ h := h.of_eq (fun _ => rfl) rfl rfl
  drop e va h := h.of_record (t := e.loc.tid) (v := .unmapped va) rfl (fun _ => rfl) rfl rfl
  initWrites := keeps_of_still (by simp)
  prepWrite _ _ := keeps_of_still (by simp)
  submitWrites := keeps_of_still (by simp)
  waitWrite := keeps_of_still (by simp)
  decided _ _ _ h := h.record rfl

/-! The other actions. -/

theorem tended_setShared {f : Shared → Shared} (hp : ∀ s, (f s).page = s.page)
    (hf : ∀ s, (f s).fifos = s.fifos) (hl : ∀ s, (f s).log = s.log) : Tended (setShared f) :=
  tended_modify fun e h =>
    h.of_eq (fun d => by rw [show (f e.sh).page = e.sh.page from hp e.sh]) (hf e.sh) (hl e.sh)

@[simp] theorem tended_setPage (d : PageId) {f : UserPage → UserPage}
    (h : ∀ p, (f p).naccesses = p.naccesses) : Tended (setPage d f) :=
  tended_modify fun _ he => he.setPage fun _ => h

theorem tended_startWork (d : PageId) {f : UserPage → UserPage}
    (h : ∀ p, (f p).naccesses = p.naccesses) :
    Tended (Prog.modify (fun e => (e.setPage d f).startWork d) : Paging Unit) :=
  tended_modify fun _ he => he.setPage fun _ => h

theorem tended_endWork (d : PageId) {f : UserPage → UserPage}
    (h : ∀ p, (f p).naccesses = p.naccesses) :
    Tended (Prog.modify (fun e => (e.setPage d f).endWork d) : Paging Unit) :=
  tended_modify fun _ he => he.setPage fun _ => h

@[simp] theorem tended_enqueueFifo {l : FifoList} (hl : l ≠ .activeList) (d : PageId) :
    Tended (enqueueFifo l d) :=
  tended_of_keeps (within_enqueueFifo linking_counted hl d)

@[simp] theorem tended_dequeueFifo {l : FifoList} (hl : l ≠ .inactiveList) :
    Tended (dequeueFifo l) :=
  tended_of_keeps (within_dequeueFifo linking_counted hl)

@[simp] theorem tended_upAsyncFinish (d : PageId) (f : Frame) :
    Tended (coreMigrateUpAsyncFinish d f) := by
  unfold coreMigrateUpAsyncFinish
  repeat refine tended_bind (by simp) fun _ => ?_
  simp

end ExtMem
