import ExtMem.Operations
import ExtMem.Walks

/-! The part of the shared state that the pager keeps for itself: descriptors, lists, the
page hash and which addresses are registered. What single actions do to it in a run alone. -/
namespace ExtMem
open Threads Threads.Prog

@[ext] structure Skeleton where
  page : PageId → UserPage
  fifos : Queues FifoList PageId
  pages : Nat → Option PageId
  vma : Nat → Vma
  lock : Bool
  shrinking : Bool
  /-- The sizes of DRAM and disk. -/
  sizes : Nat × Nat

def Shared.skeleton (s : Shared) : Skeleton := 
  ⟨s.page, s.fifos, s.pages, s.vma, s.allocatorLock, s.shrinkageRunning, (s.dramsize, s.disksize)⟩

namespace Skeleton

def write (k : Skeleton) (d : PageId) (f : UserPage → UserPage) : Skeleton :=
  { k with page := Function.update k.page d (f (k.page d)) }

def link (k : Skeleton) (l : FifoList) (d : PageId) : Skeleton :=
  { k with fifos := k.fifos.enqueue l d }

def unlink (k : Skeleton) (d : PageId) : Skeleton := { k with fifos := k.fifos.unlink d }

def list (k : Skeleton) (d : PageId) : Option FifoList := k.fifos.tag d

variable (k : Skeleton) (d x : PageId) (f : UserPage → UserPage) (l : FifoList)

@[simp] theorem page_write_self : (k.write d f).page d = f (k.page d) := by simp [write]

theorem write_write (g : UserPage → UserPage) :
    (k.write d f).write d g = k.write d fun p => g (f p) := by
  simp [write]

theorem page_write_of_ne {d x : PageId} (h : x ≠ d) : (k.write d f).page x = k.page x := by
  simp [write, h]

@[simp] theorem page_link : (k.link l d).page = k.page := rfl

@[simp] theorem page_unlink : (k.unlink d).page = k.page := rfl

@[simp] theorem list_write : (k.write d f).list x = k.list x := rfl

@[simp] theorem fifos_write : (k.write d f).fifos = k.fifos := rfl

@[simp] theorem pages_write : (k.write d f).pages = k.pages := rfl

@[simp] theorem pages_link : (k.link l d).pages = k.pages := rfl

@[simp] theorem pages_unlink : (k.unlink d).pages = k.pages := rfl

@[simp] theorem vma_write : (k.write d f).vma = k.vma := rfl

@[simp] theorem vma_link : (k.link l d).vma = k.vma := rfl

@[simp] theorem vma_unlink : (k.unlink d).vma = k.vma := rfl

@[simp] theorem lock_write : (k.write d f).lock = k.lock := rfl

@[simp] theorem lock_link : (k.link l d).lock = k.lock := rfl

@[simp] theorem lock_unlink : (k.unlink d).lock = k.lock := rfl

@[simp] theorem shrinking_write : (k.write d f).shrinking = k.shrinking := rfl

@[simp] theorem shrinking_link : (k.link l d).shrinking = k.shrinking := rfl

@[simp] theorem shrinking_unlink : (k.unlink d).shrinking = k.shrinking := rfl

@[simp] theorem list_unlink : (k.unlink d).list x = if x = d then none else k.list x :=
  Queues.tag_unlink k.fifos d x

theorem list_link {k : Skeleton} {d : PageId} (h : k.list d = none) (l : FifoList) (x : PageId) :
    (k.link l d).list x = if x = d then some l else k.list x := Queues.tag_enqueue h l x

end Skeleton

/-! Actions that leave it alone. -/

/-- A step that leaves it alone and records only events that fit this. -/
structure StillStep (e e' : Env) : Prop where
  skeleton : e'.sh.skeleton = e.sh.skeleton
  log : ∃ evs : List (Tid × Event), e'.sh.log = evs ++ e.sh.log ∧ ∀ x ∈ evs, x.2.still = true

abbrev Still : (β : Type) → (Env → Outcome Abort Env β) → Prop := Within StillStep

namespace StillStep
variable {e e₁ e' : Env}

theorem of_eq (hk : e'.sh.skeleton = e.sh.skeleton) (hl : e'.sh.log = e.sh.log) : StillStep e e' :=
  ⟨hk, [], hl, by simp⟩

theorem of_record {t : Tid} {ev : Event} (hk : e'.sh.skeleton = e.sh.skeleton)
    (hl : e'.sh.log = (t, ev) :: e.sh.log) (hs : ev.still = true) : StillStep e e' :=
  ⟨hk, [(t, ev)], hl, by simpa using hs⟩

@[simp] theorem refl (e : Env) : StillStep e e := of_eq rfl rfl

theorem trans (h₁ : StillStep e e₁) (h₂ : StillStep e₁ e') : StillStep e e' := by
  obtain ⟨evs₁, hl₁, hs₁⟩ := h₁.log
  obtain ⟨evs₂, hl₂, hs₂⟩ := h₂.log
  refine ⟨h₂.skeleton.trans h₁.skeleton, evs₂ ++ evs₁, by rw [hl₂, hl₁, List.append_assoc], ?_⟩
  intro x hx
  rcases List.mem_append.mp hx with hx | hx
  · exact hs₂ x hx
  · exact hs₁ x hx

end StillStep

variable {α β : Type} {e : Env} {k : Skeleton} {Q : β → Env → Prop}

theorem after_still {p : Paging α} {q : α → Paging β} (hk : e.sh.skeleton = k) (h : Always Still p)
    (hq : ∀ a e, e.sh.skeleton = k → After (q a) e Q) : After (p >>= q) e Q := by
  rw [after_bind]
  refine fun a e' hr => hq a e' ?_
  exact h.runs (I := fun e => e.sh.skeleton = k)
    (fun _ _ hf _ _ _ hs he => (hf.ok he).skeleton.trans hs) hr hk

theorem after_still_last {p : Paging α} (hk : e.sh.skeleton = k) (h : Always Still p) :
    After p e fun _ e' => e'.sh.skeleton = k :=
  fun _ _ hr => h.runs (I := fun e => e.sh.skeleton = k)
    (fun _ _ hf _ _ _ hs he => (hf.ok he).skeleton.trans hs) hr hk

theorem after_then {p : Paging α} {q : α → Paging β} {R : α → Env → Prop} (h : After p e R)
    (hq : ∀ a e, R a e → After (q a) e Q) : After (p >>= q) e Q :=
  (after_bind p q e Q).mpr (h.mono hq)

@[simp] theorem still_setStats (f : Stats → Stats) : Always Still (setStats f) :=
  within_modify fun _ => .of_eq rfl rfl

@[simp] theorem still_setLocal (f : Local → Local) : Always Still (setLocal f) :=
  within_modify fun _ => .of_eq rfl rfl

@[simp] theorem still_setInternalCall (b : Bool) : Always Still (setInternalCall b) :=
  still_setLocal _

@[simp] theorem still_traceEvent {ev : Event} (h : ∀ l d, ev ≠ .enqueued l d) :
    Always Still (traceEvent ev) := by
  refine within_modify fun _ => .of_record rfl rfl ?_
  cases ev with
  | enqueued l d => exact absurd rfl (h l d)
  | _ => rfl

@[simp] theorem still_ptGetBits (d : PageId) : Always Still (ptGetBits d) :=
  within_ptGetBits d .refl (fun _ _ _ _ => .of_record rfl rfl rfl) fun _ _ _ _ _ _ _ =>
    .of_record rfl rfl rfl

@[simp] theorem still_ptClearAccessedFlag (d : PageId) : Always Still (ptClearAccessedFlag d) :=
  always_bind (by simp) fun _ =>
    always_bind (by simp) fun _ => within_modify fun _ => .of_eq rfl rfl

@[simp] theorem still_extmemWpPage (d : PageId) (b : Bool) : Always Still (extmemWpPage d b) :=
  within_extmemWpPage d b .refl fun _ _ => .of_record rfl rfl rfl

@[simp] theorem still_dropMapping (va : Nat) : Always Still (dropMapping va) :=
  within_dropMapping va .refl fun _ => .of_record rfl rfl rfl

@[simp] theorem still_copyIn (d : PageId) (b : Buffer) : Always Still (copyIn d b) :=
  within_copyIn d b .refl fun _ _ _ => .of_record rfl rfl rfl

@[simp] theorem still_protectVictim (d : PageId) : Always Still (protectVictim d) :=
  always_bind (by simp) fun _ => always_bind (by simp) fun _ => always_bind (by simp) fun _ =>
    always_bind (by simp) fun _ => trivial

@[simp] theorem transferring_still : Transferring StillStep where
  refl := .refl
  trans := .trans
  submitted _ _ := .of_record rfl rfl rfl
  completed _ _ _ := .of_record rfl rfl rfl
  transfer e sqe res := by
    unfold Threads.Ctx.transfer
    split
    · split <;> exact .of_eq rfl rfl
    · unfold Threads.Ctx.setBuffer
      split <;> exact .of_eq rfl rfl
  setRing _ _ _ _ := .of_eq rfl rfl
  space _ _ := .of_eq rfl rfl
  slots _ _ := .of_eq rfl rfl

@[simp] theorem still_prepareSlot (x : Slot) : Always Still (prepareSlot x) :=
  always_bind (by simp) fun _ => always_ite (always_bind (by simp) fun _ => always_bind (by simp)
    fun _ => always_bind (by simp) fun _ => always_bind (by simp) fun _ => trivial) trivial

@[simp] theorem still_unmapSlot (x : Slot) : Always Still (unmapSlot x) :=
  always_bind (by simp) fun _ => always_bind (by simp) fun _ => still_dropMapping _

@[simp] theorem still_lookUp (va : Nat) : Always Still (lookUp va) :=
  within_lookUp va .refl fun _ _ => .of_eq rfl rfl

@[simp] theorem still_lookAway (d : PageId) : Always Still (lookAway d) :=
  within_modify fun _ => .of_eq rfl rfl

@[simp] theorem still_waitMigrating (d : PageId) : Always Still (waitMigrating d) :=
  within_waitMigratingThen d .refl

@[simp] theorem still_handleWpFault (d : PageId) : Always Still (handleWpFault d) :=
  always_bind (by simp) fun _ => still_waitMigrating d

/-! Actions that read or change it. -/

theorem after_field {d : PageId} {f : UserPage → α} {q : α → Paging β} (hk : e.sh.skeleton = k)
    (hq : After (q (f (k.page d))) e Q) : After (field d f >>= q) e Q := by
  subst hk
  rw [after_bind]
  exact (after_read _ _ _).mpr hq

theorem after_setPage {d : PageId} {f : UserPage → UserPage} {q : Unit → Paging β}
    (hk : e.sh.skeleton = k) (hq : ∀ e, e.sh.skeleton = k.write d f → After (q ()) e Q) :
    After (setPage d f >>= q) e Q := by
  subst hk
  rw [after_bind]
  exact (after_modify _ _ _).mpr (hq _ rfl)

/-- A change of one descriptor together with auxiliary updates. -/
theorem after_modifyPage {d : PageId} {f : UserPage → UserPage} {g : Env → Env}
    {q : Unit → Paging β} (hk : e.sh.skeleton = k)
    (hg : ∀ e, (g e).sh.skeleton = e.sh.skeleton.write d f)
    (hq : ∀ e, e.sh.skeleton = k.write d f → After (q ()) e Q) :
    After (Prog.modify g >>= q) e Q := by
  subst hk
  rw [after_bind]
  exact (after_modify _ _ _).mpr (hq _ (hg e))

theorem after_assertPage {d : PageId} {c : UserPage → Bool} {why : Abort} {q : Unit → Paging β}
    (hk : e.sh.skeleton = k) (hq : c (k.page d) = true → After (q ()) e Q) :
    After (assertPage d c why >>= q) e Q := by
  subst hk
  rw [after_bind]
  exact (after_assert _ _ _ _).mpr hq

theorem after_assertList {d : PageId} {c : Option FifoList → Bool} {why : Abort}
    {q : Unit → Paging β} (hk : e.sh.skeleton = k) (hq : c (k.list d) = true → After (q ()) e Q) :
    After (assertList d c why >>= q) e Q := by
  subst hk
  rw [after_bind]
  exact (after_assert _ _ _ _).mpr hq

theorem after_check {c : Bool} {why : Abort} {q : Unit → Paging β}
    (hq : c = true → After (q ()) e Q) : After (Prog.check c why >>= q) e Q := by
  rw [after_bind]
  unfold Prog.check
  cases c with
  | true => exact (after_pure _ _ _).mpr (hq rfl)
  | false => exact (after_fail _ _ _).mpr trivial

theorem after_addInt {a b : Int} {q : Int → Paging β}
    (hq : a + b < 2 ^ 31 → After (q (a + b)) e Q) : After (addInt a b >>= q) e Q := by
  unfold addInt
  rw [bind_assoc]
  refine after_check fun h => ?_
  rw [Bool.and_eq_true, decide_eq_true_eq, decide_eq_true_eq] at h
  exact hq h.2

theorem after_enqueueThen {l : FifoList} {d : PageId} {aux : Env → Env} {q : Unit → Paging β}
    (hk : e.sh.skeleton = k) (haux : ∀ e, (aux e).sh.skeleton = e.sh.skeleton)
    (hq : k.list d = none → ∀ e, e.sh.skeleton = k.link l d → After (q ()) e Q) :
    After (enqueueFifoThen l d aux >>= q) e Q := by
  subst hk
  rw [after_bind]
  refine (after_atomic _ _ _).mpr fun a e' he => ?_
  split at he
  · next hn =>
    cases he
    exact hq (Option.isNone_iff_eq_none.mp hn) _ ((haux _).trans rfl)
  · cases he

theorem after_enqueue {l : FifoList} {d : PageId} {q : Unit → Paging β} (hk : e.sh.skeleton = k)
    (hq : k.list d = none → ∀ e, e.sh.skeleton = k.link l d → After (q ()) e Q) :
    After (enqueueFifo l d >>= q) e Q := after_enqueueThen hk (fun _ => rfl) hq

theorem after_dequeueThen {l : FifoList} {aux : PageId → Env → Env} {q : Option PageId → Paging β}
    (hk : e.sh.skeleton = k) (haux : ∀ d e, (aux d e).sh.skeleton = e.sh.skeleton)
    (hnone : k.fifos.seq l = [] → After (q none) e Q)
    (hsome : ∀ d xs, k.fifos.seq l = d :: xs → ∀ e, e.sh.skeleton = k.unlink d →
      After (q (some d)) e Q) : After (dequeueFifoThen l aux >>= q) e Q := by
  subst hk
  rw [after_bind]
  refine (after_atomic _ _ _).mpr fun a e' he => ?_
  split at he
  · next hn =>
    cases he
    exact hnone hn
  · next d xs hn =>
    cases he
    exact hsome d xs hn _ ((haux _ _).trans rfl)

theorem after_dequeue {l : FifoList} {q : Option PageId → Paging β} (hk : e.sh.skeleton = k)
    (hnone : k.fifos.seq l = [] → After (q none) e Q)
    (hsome : ∀ d xs, k.fifos.seq l = d :: xs →
      ∀ e, e.sh.skeleton = k.unlink d → After (q (some d)) e Q) : After (dequeueFifo l >>= q) e Q :=
  after_dequeueThen hk (fun _ _ => rfl) hnone hsome

theorem after_tryremoveThen {l : FifoList} {d : PageId} {aux : Env → Env} {q : Bool → Paging β}
    (hk : e.sh.skeleton = k) (haux : ∀ e, (aux e).sh.skeleton = e.sh.skeleton)
    (hyes : k.list d = some l → ∀ e, e.sh.skeleton = k.unlink d → After (q true) e Q)
    (hno : k.list d ≠ some l → After (q false) e Q) :
    After (pageListTryremovePageThen (some l) d aux >>= q) e Q := by
  subst hk
  rw [after_bind]
  refine (after_atomic _ _ _).mpr fun a e' he => ?_
  dsimp only at he
  split at he
  · next hl =>
    cases he
    exact hyes hl _ ((haux _).trans rfl)
  · next hl =>
    cases he
    exact hno hl

end ExtMem
