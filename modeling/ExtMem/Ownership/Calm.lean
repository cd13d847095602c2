import ExtMem.Ownership.Step

/-! The actions that do not matter for who owns what: they leave lists, addresses, frames, the hash,
the exchanges and the rings alone, and of a page's flags they set `in_dram` and `migrating` at
most. -/
namespace ExtMem
open Threads Threads.Prog Threads.Outline

variable {n : Nat} {frames : List Frame} {t : Tid} {l : Local} {g : Share} {α β : Type}

structure CalmStep (e e' : Env) : Prop where
  list : ∀ d, e'.sh.list d = e.sh.list d
  va : ∀ d, (e'.sh.page d).va = (e.sh.page d).va
  offset : ∀ d, (e'.sh.page d).virtualOffset = (e.sh.page d).virtualOffset
  swappedOut : ∀ d, (e'.sh.page d).swappedOut = (e.sh.page d).swappedOut
  inDram : ∀ d, (e.sh.page d).inDram = true → (e'.sh.page d).inDram = true
  migrating : ∀ d, (e.sh.page d).migrating = true → (e'.sh.page d).migrating = true
  pages : e'.sh.pages = e.sh.pages
  lock : e'.sh.allocatorLock = e.sh.allocatorLock
  exchange : e'.loc.exchange = e.loc.exchange
  ring : e'.loc.ring = e.loc.ring
  examining : e'.loc.examining = e.loc.examining

def Calm (β : Type) (f : Env → Outcome Abort Env β) : Prop :=
  ∀ e, match f e with
    | .ok _ e' => CalmStep e e'
    | .wait => True
    | .abort why => ¬ why.Guarded

/-- A change of a descriptor that does not matter. -/
structure CalmWrite (f : UserPage → UserPage) : Prop where
  va : ∀ p, (f p).va = p.va
  offset : ∀ p, (f p).virtualOffset = p.virtualOffset
  swappedOut : ∀ p, (f p).swappedOut = p.swappedOut
  inDram : ∀ p, p.inDram = true → (f p).inDram = true
  migrating : ∀ p, p.migrating = true → (f p).migrating = true

namespace CalmStep
variable {e e₁ e₂ : Env}

@[simp] theorem refl (e : Env) : CalmStep e e :=
  ⟨fun _ => rfl, fun _ => rfl, fun _ => rfl, fun _ => rfl, fun _ => id, fun _ => id, rfl, rfl, rfl,
    rfl, rfl⟩

theorem trans (h₁ : CalmStep e e₁) (h₂ : CalmStep e₁ e₂) : CalmStep e e₂ where
  list d := (h₂.list d).trans (h₁.list d)
  va d := (h₂.va d).trans (h₁.va d)
  offset d := (h₂.offset d).trans (h₁.offset d)
  swappedOut d := (h₂.swappedOut d).trans (h₁.swappedOut d)
  inDram d h := h₂.inDram d (h₁.inDram d h)
  migrating d h := h₂.migrating d (h₁.migrating d h)
  pages := h₂.pages.trans h₁.pages
  lock := h₂.lock.trans h₁.lock
  exchange := h₂.exchange.trans h₁.exchange
  ring := h₂.ring.trans h₁.ring
  examining := h₂.examining.trans h₁.examining

/-- A step that leaves the descriptors alone. -/
theorem of_eq (hf : e₁.sh.fifos = e.sh.fifos) (hd : e₁.sh.page = e.sh.page)
    (hp : e₁.sh.pages = e.sh.pages) (hl : e₁.sh.allocatorLock = e.sh.allocatorLock)
    (hx : e₁.loc.exchange = e.loc.exchange) (hr : e₁.loc.ring = e.loc.ring)
    (hm : e₁.loc.examining = e.loc.examining) : CalmStep e e₁ where
  list d := congrArg (·.tag d) hf
  va d := by rw [hd]
  offset d := by rw [hd]
  swappedOut d := by rw [hd]
  inDram d := by rw [hd]; exact id
  migrating d := by rw [hd]; exact id
  pages := hp
  lock := hl
  exchange := hx
  ring := hr
  examining := hm

theorem setPage (e : Env) (d : PageId) {F : UserPage → UserPage} (h : CalmWrite F) :
    CalmStep e (e.setPage d F) := by
  have hpage (c : PageId) :
      (e.setPage d F).sh.page c = if c = d then F (e.sh.page d) else e.sh.page c := by
    by_cases hc : c = d
    · subst hc
      simp [Threads.Ctx.setPage, Shared.setPage]
    · simp [Threads.Ctx.setPage, Shared.setPage, hc]
  refine ⟨fun _ => rfl, fun c => ?_, fun c => ?_, fun c => ?_, fun c hc => ?_, fun c hc => ?_, rfl,
    rfl, rfl, rfl, rfl⟩
  all_goals
    rw [hpage]
    by_cases hcd : c = d
    · subst hcd
      simp [h.va, h.offset, h.swappedOut, h.inDram, h.migrating, *]
    · simp [*]

@[simp] theorem record (e : Env) (ev : Event) : CalmStep e (e.record ev) :=
  of_eq rfl rfl rfl rfl rfl rfl rfl

@[simp] theorem startWork (e : Env) (d : PageId) : CalmStep e (e.startWork d) :=
  of_eq rfl rfl rfl rfl rfl rfl rfl

@[simp] theorem endWork (e : Env) (d : PageId) : CalmStep e (e.endWork d) :=
  of_eq rfl rfl rfl rfl rfl rfl rfl

theorem setPte (e : Env) (va : Nat) (p : Option Pte) :
    CalmStep e { e with sh := e.sh.setPte va p } :=
  of_eq rfl rfl rfl rfl rfl rfl rfl

/-- The invariant does not notice it. -/
theorem owned {s : Shared} {ls : Tid → Local} {G : Ledger} {e' : Env} (h : CalmStep ⟨s, ls t⟩ e')
    (hi : Owned n frames s ls G) :
    Owned n frames e'.sh (Function.update ls t e'.loc) G := by
  have hframe (d : PageId) : (entryOf e'.sh G d).frame = (entryOf s G d).frame := by
    unfold entryOf Entry.frame
    cases G.held d with
    | none => exact h.offset d
    | some u => rfl
  have hpages : e'.sh.pages = s.pages := h.pages
  have hva (d : PageId) : (e'.sh.page d).va = (s.page d).va := h.va d
  have hlist (d : PageId) : e'.sh.list d = s.list d := h.list d
  have hout (d : PageId) : (e'.sh.page d).swappedOut = (s.page d).swappedOut := h.swappedOut d
  refine ⟨fun d hd => ?_, fun d hd => ?_, fun d f hd hf he => ?_, fun d hd => ?_, fun a d ha => ?_,
    fun d hd => ?_, ?_, fun u P hP => ?_, fun u d a hm => ?_, fun u => ?_⟩
  · have hg := hi.good d hd
    refine ⟨?_, fun hx => ?_, fun hb => ?_, fun u hu => ?_, fun u x hx hc => ?_,
      fun u o hb hq => ?_⟩
    · have hp := hg.place
      dsimp only [entryOf, UserPage.marks] at hp ⊢
      rw [hlist, hva, show (e'.sh.page d).virtualOffset = (s.page d).virtualOffset from h.offset d]
      exact hp
    · exact h.inDram d (hg.inDram
        (by rwa [show (entryOf e'.sh G d).list = (entryOf s G d).list from hlist d] at hx))
    · obtain ⟨h₁, h₂, h₃⟩ := hg.flags hb
      exact ⟨h.migrating d h₁, (hout d).trans h₂, fun hz => h₃ ((hva d).symm.trans hz)⟩
    · exact fun hz => hg.late u hu ((hva d).symm.trans hz)
    · obtain ⟨h₁, h₂⟩ := hg.clear u x hx hc
      exact ⟨(hout d).trans h₁, h₂⟩
    · exact (h.offset d).trans (hg.claim u o hb (by rwa [show (entryOf e'.sh G d).list =
        (entryOf s G d).list from hlist d] at hq))
  · rw [hlist, hva, hout]
    exact hi.outside d hd
  · rw [hframe, hframe] at he
    exact hi.inj d f hd hf he
  · rw [hframe]
    exact hi.mem d hd
  · rw [hpages, hva]
    exact hi.hash a d ha
  · rw [hpages] at hd
    exact hi.zero d hd
  · rw [h.lock]
    exact hi.lock
  · rw [hpages]
    exact hi.pages u P hP
  · rw [hva]
    apply hi.look u d a
    by_cases hu : u = t
    · subst hu
      rwa [Function.update_self, h.examining] at hm
    · rwa [Function.update_of_ne hu] at hm
  · by_cases hu : u = t
    · subst hu
      rw [Function.update_self]
      exact (hi.locals u).congr h.exchange h.ring fun _ _ => Iff.rfl
    · rw [Function.update_of_ne hu]
      exact hi.locals u

end CalmStep

/-- What a thread's own variables have in common before and after calm steps. -/
structure Kept (l l' : Local) : Prop where
  ring : l'.ring = l.ring
  examining : l'.examining = l.examining

theorem Kept.refl (l : Local) : Kept l l := ⟨rfl, rfl⟩

theorem Kept.trans {l l₁ l₂ : Local} (h₁ : Kept l l₁) (h₂ : Kept l₁ l₂) : Kept l l₂ :=
  ⟨h₂.ring.trans h₁.ring, h₂.examining.trans h₁.examining⟩

theorem safe_calm {p : Paging α} {Q : α → Local → Share → Prop} (h : Always Calm p)
    (hq : ∀ a l', Kept l l' → Q a l' g) : (owning n frames).Safe t p Q l g := by
  let J (l' : Local) (g' : Share) : Prop := Kept l l' ∧ g' = g
  have hpass (β : Type) (f : Env → Outcome Abort Env β) (hf : Calm β f) (l' : Local) (g' : Share)
      (hj : J l' g') : (owning n frames).Action t f (fun _ => J) l' g' := by
    intro s ls G hi hl hg
    have hc := hf ⟨s, l'⟩
    cases he : f ⟨s, l'⟩ with
    | wait => trivial
    | abort why =>
      rw [he] at hc
      exact hc
    | ok b e =>
      rw [he] at hc
      subst hl
      intro _
      exact ⟨G, hc.owned hi, fun _ _ => rfl, hj.1.trans ⟨hc.ring, hc.examining⟩, hg.trans hj.2⟩
  have hs : (owning n frames).Safe t p (fun _ => J) l g := safe_of_always hpass h ⟨Kept.refl l, rfl⟩
  refine hs.mono fun a l' g' hj => ?_
  rw [hj.2]
  exact hq a l' hj.1

theorem safe_skip {p : Paging α} {q : α → Paging β} {R : β → Local → Share → Prop}
    (h : Always Calm p) (hq : ∀ a l', Kept l l' → (owning n frames).Safe t (q a) R l' g) :
    (owning n frames).Safe t (p >>= q) R l g :=
  safe_bind (safe_calm h hq)

/-! The basic actions. -/

@[simp] theorem calm_read (g : Env → α) : Always Calm (Prog.read g : Paging α) :=
  always_atomic CalmStep.refl

theorem calm_modify {f : Env → Env}
    (h : ∀ e, CalmStep e (f e)) : Always Calm (Prog.modify f : Paging Unit) := always_atomic h

theorem calm_assert {c : Env → Bool} {why : Abort} (h : ¬ why.Guarded) :
    Always Calm (Prog.assert c why : Paging Unit) := by
  apply always_atomic
  intro e
  by_cases hc : c e = true
  · simp [hc]
  · simpa [hc] using h

theorem calm_fail {why : Abort} (h : ¬ why.Guarded) : Always Calm (Prog.fail why : Paging α) :=
  ⟨fun _ => h, fun b => b.elim⟩

theorem calm_check {c : Bool} {why : Abort} (h : ¬ why.Guarded) :
    Always Calm (Prog.check c why : Paging Unit) := by
  unfold Prog.check
  exact always_ite trivial (calm_fail h)

@[simp] theorem calm_addInt (a b : Int) : Always Calm (addInt a b) :=
  always_bind (calm_check nofun) fun _ => trivial

@[simp] theorem calm_field (d : PageId) (f : UserPage → α) : Always Calm (field d f) := calm_read _

theorem calm_setPage (d : PageId) {f : UserPage → UserPage} (h : CalmWrite f) :
    Always Calm (setPage d f) :=
  calm_modify fun e => CalmStep.setPage e d h

theorem calm_assertPage (d : PageId) (c : UserPage → Bool) {why : Abort} (h : ¬ why.Guarded) :
    Always Calm (assertPage d c why) := calm_assert h

theorem calm_assertList (d : PageId) (c : Option FifoList → Bool) {why : Abort}
    (h : ¬ why.Guarded) : Always Calm (assertList d c why) := calm_assert h

@[simp] theorem calm_setStats (f : Stats → Stats) : Always Calm (setStats f) :=
  calm_modify fun _ => CalmStep.of_eq rfl rfl rfl rfl rfl rfl rfl

@[simp] theorem calm_traceEvent (ev : Event) : Always Calm (traceEvent ev) :=
  calm_modify fun e => CalmStep.record e ev

@[simp] theorem calm_numentries (q : FifoList) : Always Calm (numentries q) := calm_read _

/-- A change of shared variables other than the lists, the descriptors, the hash and the lock. -/
theorem calm_setShared {f : Shared → Shared} (hf : ∀ s, (f s).fifos = s.fifos)
    (hd : ∀ s, (f s).page = s.page) (hp : ∀ s, (f s).pages = s.pages)
    (hl : ∀ s, (f s).allocatorLock = s.allocatorLock) : Always Calm (setShared f) :=
  calm_modify fun e => CalmStep.of_eq (hf e.sh) (hd e.sh) (hp e.sh) (hl e.sh) rfl rfl rfl

theorem calm_setLocal {f : Local → Local} (hx : ∀ l, (f l).exchange = l.exchange)
    (hr : ∀ l, (f l).ring = l.ring) (hm : ∀ l, (f l).examining = l.examining) :
    Always Calm (setLocal f) :=
  calm_modify fun e => CalmStep.of_eq rfl rfl rfl rfl (hx e.loc) (hr e.loc) (hm e.loc)

@[simp] theorem calm_setInternalCall (b : Bool) : Always Calm (setInternalCall b) :=
  calm_setLocal (fun _ => rfl) (fun _ => rfl) fun _ => rfl

theorem calm_setShrinkageRunning (b : Bool) :
    Always Calm (setShared fun s => { s with shrinkageRunning := b }) :=
  calm_setShared (fun _ => rfl) (fun _ => rfl) (fun _ => rfl) fun _ => rfl

theorem calm_setKswapdRunning (b : Bool) :
    Always Calm (setShared fun s => { s with kswapdRunning := b }) :=
  calm_setShared (fun _ => rfl) (fun _ => rfl) (fun _ => rfl) fun _ => rfl

/-- Marking a page as migrating does not matter. -/
@[simp] theorem calm_setMigrating (d : PageId) :
    Always Calm (setPage d fun p => { p with migrating := true }) :=
  calm_setPage d ⟨fun _ => rfl, fun _ => rfl, fun _ => rfl, fun _ => id, fun _ _ => rfl⟩

@[simp] theorem calm_setInDram (d : PageId) :
    Always Calm (setPage d fun p => { p with inDram := true }) :=
  calm_setPage d ⟨fun _ => rfl, fun _ => rfl, fun _ => rfl, fun _ _ => rfl, fun _ => id⟩

@[simp] theorem calm_setNaccesses (d : PageId) (k : UserPage → Nat) :
    Always Calm (setPage d fun p => { p with naccesses := k p }) :=
  calm_setPage d ⟨fun _ => rfl, fun _ => rfl, fun _ => rfl, fun _ => id, fun _ => id⟩

/-! The kernel. -/

@[simp] theorem calm_ptGetBits (d : PageId) : Always Calm (ptGetBits d) := by
  refine always_bind (by simp) fun va => always_bind (calm_check nofun) fun _ => ?_
  refine always_bind (by simp) fun a => always_bind (by simp) fun b => always_atomic fun e => ?_
  cases hp : e.sh.pte va with
  | none => exact CalmStep.record e _
  | some p => exact (CalmStep.setPte e va _).trans (CalmStep.record _ _)

@[simp] theorem calm_ptClearAccessedFlag (d : PageId) : Always Calm (ptClearAccessedFlag d) := by
  refine always_bind (by simp) fun va => always_bind (calm_check nofun) fun _ => ?_
  exact calm_setShared (fun _ => rfl) (fun _ => rfl) (fun _ => rfl) fun _ => rfl

@[simp] theorem calm_extmemWpPage (d : PageId) (b : Bool) : Always Calm (extmemWpPage d b) := by
  refine always_bind (by simp) fun va =>
    always_bind (calm_check nofun) fun _ => always_bind (calm_check nofun) fun _ => ?_
  refine always_bind (always_atomic fun e => ?_) fun _ => calm_check nofun
  by_cases hv : e.sh.vma va = .uffd
  · rw [if_pos hv]
    exact (CalmStep.setPte e va _).trans (CalmStep.record _ _)
  · rw [if_neg hv]
    exact CalmStep.refl e

@[simp] theorem calm_copyIn (d : PageId) (src : Buffer) : Always Calm (copyIn d src) := by
  refine always_bind (by simp) fun va =>
    always_bind (always_atomic fun e => ?_) fun _ => calm_check nofun
  cases hb : e.bufferBytes src with
  | none => exact CalmStep.refl e
  | some bytes =>
    by_cases hv : e.sh.vma va = .uffd ∧ (e.sh.pte va).isNone = true
    · simp only [hv, and_self, if_true]
      exact (CalmStep.setPte e va _).trans (CalmStep.record _ _)
    · simp only [hv, if_false]
      exact CalmStep.refl e

@[simp] theorem calm_dropMapping (va : Nat) : Always Calm (dropMapping va) := by
  refine always_bind (always_atomic fun e => ?_) fun _ => calm_check nofun
  by_cases hv : e.sh.vma va = .none
  · rw [if_pos hv]
    exact CalmStep.refl e
  · rw [if_neg hv]
    exact (CalmStep.setPte e va _).trans (CalmStep.record _ _)

@[simp] theorem calm_allocateBuffer : Always Calm allocateBuffer :=
  always_bind (by simp) fun _ =>
    always_ite trivial (calm_setLocal (fun _ => rfl) (fun _ => rfl) fun _ => rfl)

@[simp] theorem calm_allocatePrefetchBuffer : Always Calm allocatePrefetchBuffer :=
  always_bind (by simp) fun _ =>
    always_ite trivial (calm_setLocal (fun _ => rfl) (fun _ => rfl) fun _ => rfl)

@[simp] theorem calm_protectVictim (d : PageId) : Always Calm (protectVictim d) := by
  refine always_bind (by simp) fun _ =>
    always_bind (by simp) fun _ => always_bind (by simp) fun _ => ?_
  exact always_bind (by simp) fun _ => trivial

@[simp] theorem calm_dropReserve (d f : PageId) : Always Calm (dropReserve d f) :=
  always_bind (calm_setPage f ⟨fun _ => rfl, fun _ => rfl, fun _ => rfl, fun _ => id, fun _ => id⟩)
    fun _ => calm_setPage d ⟨fun _ => rfl, fun _ => rfl, fun _ => rfl, fun _ => id, fun _ => id⟩

@[simp] theorem calm_waitMigratingThen (d : PageId) {aux : Env → Env}
    (h : ∀ e, CalmStep e (aux e)) : Always Calm (waitMigratingThen d aux) := by
  apply always_atomic
  intro e
  by_cases hm : (e.sh.page d).migrating = true
  · simp [hm]
  · simp only [hm]
    exact h e

@[simp] theorem calm_waitMigrating (d : PageId) : Always Calm (waitMigrating d) :=
  calm_waitMigratingThen d CalmStep.refl

@[simp] theorem calm_handleWpFault (d : PageId) : Always Calm (handleWpFault d) :=
  always_bind (by simp) fun _ => by simp

theorem calm_loadByte (a : Nat) : Calm (Option UInt8) (loadByte a) := by
  intro e
  unfold loadByte
  cases e.sh.vma (pageBoundry a) with
  | none => exact nofun
  | plain => exact nofun
  | uffd =>
    cases e.sh.pte (pageBoundry a) with
    | none => exact CalmStep.refl e
    | some p => exact CalmStep.setPte e _ _

theorem calm_storeByte (a : Nat) (b : UInt8) : Calm (Option Unit) (storeByte a b) := by
  intro e
  unfold storeByte
  cases e.sh.vma (pageBoundry a) with
  | none => exact nofun
  | plain => exact nofun
  | uffd =>
    cases e.sh.pte (pageBoundry a) with
    | none => exact CalmStep.refl e
    | some p =>
      dsimp only
      by_cases hw : p.wp = true
      · rw [if_pos hw]
        exact CalmStep.refl e
      · rw [if_neg hw]
        exact (CalmStep.setPte e _ _).trans (CalmStep.record _ _)

end ExtMem
