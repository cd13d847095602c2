import ExtMem.Walks

/-! The part of the pager that makes no transfer and leaves the page hash, the mappings
and the disk alone: what all its actions have in common. -/
namespace ExtMem
open Threads Threads.Prog

theorem newEvents_of_append {s s' : Shared} {evs : List (Tid × Event)} (h : s'.log = evs ++ s.log) :
    newEvents s s' = evs := by
  simp [newEvents, h]

structure PlainStep (e e' : Env) : Prop where
  ring : e'.loc.ring = e.loc.ring
  tid : e'.loc.tid = e.loc.tid
  pages : e'.sh.pages = e.sh.pages
  vma : e'.sh.vma = e.sh.vma
  disk : e'.sh.disk = e.sh.disk
  log : ∃ evs : List Event, e'.sh.log = evs.map (Prod.mk e.loc.tid) ++ e.sh.log ∧
    ∀ ev ∈ evs, ev.plain = true

/-- What an action of that part does. -/
abbrev Plain : (β : Type) → (Env → Outcome Abort Env β) → Prop := Within PlainStep False

namespace PlainStep
variable {e e₁ e₂ : Env}

@[simp] theorem refl (e : Env) : PlainStep e e := ⟨rfl, rfl, rfl, rfl, rfl, [], rfl, by simp⟩

theorem trans (h₁ : PlainStep e e₁) (h₂ : PlainStep e₁ e₂) : PlainStep e e₂ := by
  obtain ⟨evs₁, hl₁, hp₁⟩ := h₁.log
  obtain ⟨evs₂, hl₂, hp₂⟩ := h₂.log
  refine ⟨h₂.ring.trans h₁.ring, h₂.tid.trans h₁.tid, h₂.pages.trans h₁.pages, h₂.vma.trans h₁.vma,
    h₂.disk.trans h₁.disk, evs₂ ++ evs₁, ?_, ?_⟩
  · rw [hl₂, hl₁, h₁.tid]
    simp
  · intro ev hev
    rcases List.mem_append.mp hev with h | h
    · exact hp₂ ev h
    · exact hp₁ ev h

/-- A step that adds no event and changes none of the fields. -/
theorem of_eq (hr : e₁.loc.ring = e.loc.ring) (ht : e₁.loc.tid = e.loc.tid)
    (hp : e₁.sh.pages = e.sh.pages) (hv : e₁.sh.vma = e.sh.vma) (hd : e₁.sh.disk = e.sh.disk)
    (hl : e₁.sh.log = e.sh.log) : PlainStep e e₁ :=
  ⟨hr, ht, hp, hv, hd, [], hl, by simp⟩

/-- A step that records one event. -/
theorem of_record (ev : Event) (hr : e₁.loc.ring = e.loc.ring) (ht : e₁.loc.tid = e.loc.tid)
    (hp : e₁.sh.pages = e.sh.pages) (hv : e₁.sh.vma = e.sh.vma) (hd : e₁.sh.disk = e.sh.disk)
    (hl : e₁.sh.log = (e.loc.tid, ev) :: e.sh.log) (hev : ev.plain = true) : PlainStep e e₁ :=
  ⟨hr, ht, hp, hv, hd, [ev], hl, by simpa using hev⟩

@[simp] theorem setPage (e : Env) (d : PageId) (f : UserPage → UserPage) :
    PlainStep e (e.setPage d f) :=
  of_eq rfl rfl rfl rfl rfl rfl

@[simp] theorem enqueue (e : Env) (q : FifoList) (d : PageId) : PlainStep e (e.enqueue q d) :=
  of_record (.enqueued q d) rfl rfl rfl rfl rfl rfl rfl

@[simp] theorem dequeue (e : Env) (q : FifoList) (d : PageId) : PlainStep e (e.dequeue q d) :=
  of_record (.dequeued q d) rfl rfl rfl rfl rfl rfl rfl

@[simp] theorem remove (e : Env) (q : FifoList) (d : PageId) : PlainStep e (e.remove q d) :=
  of_record (.removed q d) rfl rfl rfl rfl rfl rfl rfl

@[simp] theorem joinExchange (e : Env) (d : PageId) : PlainStep e (e.joinExchange d) :=
  of_eq rfl rfl rfl rfl rfl rfl

@[simp] theorem startWork (e : Env) (d : PageId) : PlainStep e (e.startWork d) :=
  of_eq rfl rfl rfl rfl rfl rfl

@[simp] theorem endWork (e : Env) (d : PageId) : PlainStep e (e.endWork d) :=
  of_eq rfl rfl rfl rfl rfl rfl

theorem record (e : Env) {ev : Event} (h : ev.plain = true) : PlainStep e (e.record ev) :=
  of_record _ rfl rfl rfl rfl rfl rfl h

end PlainStep

/-! The walks through the pager at this relation. -/

@[simp] theorem linking_plain : Linking PlainStep where
  refl := .refl
  trans := .trans
  enqueue e l d _ _ := .enqueue e l d
  dequeue e l d _ _ _ := .dequeue e l d
  remove e l d _ _ := .remove e l d
  auxiliary _ _ _ _ := .of_eq rfl rfl rfl rfl rfl rfl
  record e _ h _ _ := .record e h

@[simp] theorem claiming_plain : Claiming PlainStep where
  toLinking := linking_plain
  flag e d f _ _ _ := .setPage e d f
  setPte _ _ _ _ _ _ _ := .of_eq rfl rfl rfl rfl rfl rfl
  waits _ _ := .of_eq rfl rfl rfl rfl rfl rfl

@[simp] theorem scanning_plain : Scanning PlainStep where
  toClaiming := claiming_plain
  enqueueAny := .enqueue
  dequeueAny := .dequeue
  setPage e d f _ _ := .setPage e d f
  running _ _ _ := .of_eq rfl rfl rfl rfl rfl rfl

@[simp] theorem relinking_plain : Relinking PlainStep where
  toLinking := linking_plain
  anyPage e d f _ _ := .setPage e d f

@[simp] theorem forgetting_plain : Forgetting PlainStep where
  toLinking := linking_plain
  removeAny := .remove
  write e d f _ := .setPage e d f

@[simp] theorem plain_of_looks {α : Type} {p : Paging α} (h : Always Looks p) : Always Plain p :=
  h.within .refl

/-! The other actions. -/

theorem plain_modify {f : Env → Env} (h : ∀ e, PlainStep e (f e)) :
    Always Plain (Prog.modify f : Paging Unit) := within_modify h

@[simp] theorem plain_setPage (d : PageId) (f : UserPage → UserPage) : Always Plain (setPage d f) :=
  plain_modify fun e => PlainStep.setPage e d f

@[simp] theorem plain_setStats (f : Stats → Stats) : Always Plain (setStats f) :=
  plain_modify fun _ => PlainStep.of_eq rfl rfl rfl rfl rfl rfl

/-- A change of shared variables other than the hash, the mappings, the disk and the log. -/
theorem plain_setShared {f : Shared → Shared} (hp : ∀ s, (f s).pages = s.pages)
    (hv : ∀ s, (f s).vma = s.vma) (hd : ∀ s, (f s).disk = s.disk) (hl : ∀ s, (f s).log = s.log) :
    Always Plain (setShared f) :=
  plain_modify fun e => PlainStep.of_eq rfl rfl (hp e.sh) (hv e.sh) (hd e.sh) (hl e.sh)

theorem plain_setLocal {f : Local → Local} (hr : ∀ l, (f l).ring = l.ring)
    (ht : ∀ l, (f l).tid = l.tid) : Always Plain (setLocal f) :=
  plain_modify fun e => PlainStep.of_eq (hr e.loc) (ht e.loc) rfl rfl rfl rfl

@[simp] theorem plain_setInternalCall (b : Bool) : Always Plain (setInternalCall b) :=
  plain_setLocal (fun _ => rfl) fun _ => rfl

@[simp] theorem plain_dropMapping (va : Nat) : Always Plain (dropMapping va) :=
  within_dropMapping va .refl fun _ => .of_record (.unmapped va) rfl rfl rfl rfl rfl rfl rfl

@[simp] theorem plain_moveSlot (x : Slot) : Always Plain (moveSlot x) := by
  refine always_bind (by simp) fun _ => always_bind (by simp) fun _ => ?_
  simp

@[simp] theorem plain_allocateBuffer : Always Plain allocateBuffer :=
  always_bind (by simp) fun _ => always_ite trivial (plain_setLocal (fun _ => rfl) fun _ => rfl)

@[simp] theorem plain_allocatePrefetchBuffer : Always Plain allocatePrefetchBuffer :=
  always_bind (by simp) fun _ => always_ite trivial (plain_setLocal (fun _ => rfl) fun _ => rfl)

@[simp] theorem plain_lrudiskPutPageFree (d : PageId) : Always Plain (lrudiskPutPageFree d) :=
  always_bind (by simp) fun _ => always_bind (by simp) fun _ => by simp

@[simp] theorem plain_lockAllocator : Always Plain lockAllocator :=
  within_lockAllocator fun _ => .of_eq rfl rfl rfl rfl rfl rfl

@[simp] theorem plain_unlockAllocator : Always Plain unlockAllocator :=
  plain_setShared (fun _ => rfl) (fun _ => rfl) (fun _ => rfl) fun _ => rfl

@[simp] theorem plain_waitMigratingThen (d : PageId) {aux : Env → Env}
    (h : ∀ e, PlainStep e (aux e)) : Always Plain (waitMigratingThen d aux) :=
  within_waitMigratingThen d h

@[simp] theorem plain_waitMigrating (d : PageId) : Always Plain (waitMigrating d) :=
  plain_waitMigratingThen d PlainStep.refl

@[simp] theorem plain_handleWpFault (d : PageId) : Always Plain (handleWpFault d) :=
  always_bind (by simp) fun _ => by simp

theorem plain_loadByte (a : Nat) : Plain (Option UInt8) (loadByte a) :=
  within_loadByte a .refl fun _ _ _ => .of_eq rfl rfl rfl rfl rfl rfl

theorem plain_storeByte (a : Nat) (b : UInt8) : Plain (Option Unit) (storeByte a b) :=
  within_storeByte a b .refl fun _ _ _ => .of_record (.stored a b) rfl rfl rfl rfl rfl rfl rfl

end ExtMem
