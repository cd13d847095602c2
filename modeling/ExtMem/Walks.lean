import ExtMem.Actions

/-! The transfers, the scans, the evictions and the claims of a prefetch, each walked through once
for every relation that the basic actions keep to. -/
namespace ExtMem
open Threads Threads.Prog

/-- A page is copied into place. -/
def Event.brings : Event → Bool
  | .copied _ _ => true
  | _ => false

/-- A page is unmapped to be evicted. -/
def Event.drops : Event → Bool
  | .unmapped _ => true
  | _ => false

/-- The dirty flag of a victim was looked at. -/
def Event.decides : Event → Bool
  | .decided _ _ => true
  | _ => false

theorem Event.brings_of_plain {ev : Event} (h : ev.plain = true) : ev.brings = false := by
  cases ev <;> first | rfl | cases h

/-- The event puts no page on a list. -/
def Event.still : Event → Bool
  | .enqueued _ _ => false
  | _ => true

/-- The counters of mappings and of tracked pages. -/
def Stats.held (t : Stats) : Nat × Nat × Nat × Nat :=
  (t.memMmaped, t.memAllocated, t.pagesAllocated, t.pagesFreed)

/-- Where the bytes of a descriptor's page are. -/
def UserPage.whereabouts (p : UserPage) : Frame × Bool × Option PageId :=
  (p.virtualOffset, p.swappedOut, p.reserve)

/-- A relation that the requests of a thread and the bytes that they move keep to. -/
structure Transferring (R : Env → Env → Prop) : Prop where
  refl : ∀ e, R e e
  trans : ∀ {e e₁ e₂}, R e e₁ → R e₁ e₂ → R e e₂
  submitted : ∀ e sqe, R e (e.record (.submitted sqe))
  completed : ∀ e sqe res, R e (e.record (.completed sqe res))
  transfer : ∀ e sqe res, R e (e.transfer sqe res)
  setRing : ∀ e r f, (∀ q : Ring, q.init = true → (f q).init = true) →
    R e { e with loc := e.loc.setRing r f }
  space : ∀ e bytes,
    R e { e with loc := { e.loc with bufferSpace := bytes, bufferAllocated := true } }
  slots : ∀ e bytes,
    R e { e with loc := { e.loc with prefetchBuffer := bytes, prefetchBufferAllocated := true } }

/-- A relation that the list operations keep to where no page in use is examined or promoted. -/
structure Linking (R : Env → Env → Prop) : Prop where
  refl : ∀ e, R e e
  trans : ∀ {e e₁ e₂}, R e e₁ → R e₁ e₂ → R e e₂
  enqueue : ∀ e l d, e.sh.list d = none → l ≠ .activeList → R e (e.enqueue l d)
  dequeue : ∀ e l d xs, e.sh.fifos.seq l = d :: xs → l ≠ .inactiveList → R e (e.dequeue l d)
  remove : ∀ e l d, e.sh.list d = some l → l ≠ .inactiveList → R e (e.remove l d)
  auxiliary : ∀ e exchange working examining,
    R e { e with loc := { e.loc with
      exchange := exchange, working := working, examining := examining } }
  record : ∀ e ev, ev.plain = true → ev.drops = false → ev.still = true → R e (e.record ev)

/-- A relation that the actions that claim a page and decide about it keep to. -/
structure Claiming (R : Env → Env → Prop) : Prop extends Linking R where
  flag : ∀ e d f, (∀ p, (f p).va = p.va) → (∀ p, (f p).whereabouts = p.whereabouts) →
    (∀ p, (f p).naccesses = p.naccesses) → R e (e.setPage d f)
  setPte : ∀ e va p q, e.sh.pte va = some p → p.bytes = q.bytes →
    (q.dirty = false → p.dirty = false) → R e { e with sh := e.sh.setPte va (some q) }
  waits : ∀ e n,
    R e { e with sh := { e.sh with stats := { e.sh.stats with migrationWaits := n } } }

/-- A relation that the actions of a scan keep to. -/
structure Scanning (R : Env → Env → Prop) : Prop extends Claiming R where
  enqueueAny : ∀ e l d, R e (e.enqueue l d)
  dequeueAny : ∀ e l d, R e (e.dequeue l d)
  setPage : ∀ e d f, (∀ p, (f p).va = p.va) → (∀ p, (f p).whereabouts = p.whereabouts) →
    R e (e.setPage d f)
  running : ∀ e shrinkage kswapd,
    R e { e with sh := { e.sh with shrinkageRunning := shrinkage, kswapdRunning := kswapd } }

/-- A relation that the exchange of a victim and its disk descriptor keeps to. -/
structure Relinking (R : Env → Env → Prop) : Prop extends Linking R where
  anyPage : ∀ e d f, (∀ p, (f p).va = p.va) → (∀ p, (f p).naccesses = p.naccesses) →
    R e (e.setPage d f)

/-- A relation that the descriptors of pages that are forgotten keep to. -/
structure Forgetting (R : Env → Env → Prop) : Prop extends Linking R where
  removeAny : ∀ e l d, R e (e.remove l d)
  write : ∀ e d f, (∀ p, (f p).pt = p.pt) → R e (e.setPage d f)

/-- A relation that the walk of munmap keeps to. -/
structure Releasing (R : Env → Env → Prop) : Prop extends Forgetting R where
  forget : ∀ e pages stats, R e { e with sh := { e.sh with pages := pages, stats := stats } }

/-- A relation that the migration of a victim keeps to. -/
structure Dropping (R : Env → Env → Prop) : Prop extends Claiming R, Relinking R where
  traced : ∀ e ev, ev.brings = false → ev.drops = false → ev.decides = false → ev.still = true →
    R e (e.record ev)
  counts : ∀ e (f : Stats → Stats), (∀ t, (f t).held = t.held) →
    (∀ t, (f t).migrationsUp = t.migrationsUp) →
    R e { e with sh := { e.sh with stats := f e.sh.stats } }
  drop : ∀ e va, R e ({ e with sh := e.sh.setPte va none }.record (.unmapped va))
  initWrites : Always (Within R) (initOnce .ioRing)
  prepWrite : ∀ sqe, sqe.isWrite = true → Always (Within R) (ioUringPrep .ioRing sqe)
  submitWrites : Always (Within R) (ioUringSubmit .ioRing)
  waitWrite : Always (Within R) (ioUringWaitCqe .ioRing)

/-- A relation that all actions of an eviction keep to. -/
structure Vacating (R : Env → Env → Prop) : Prop extends Dropping R where
  decided : ∀ e d b, R e (e.record (.decided d b))

/-- A page that was found accessed stays on a list of pages in use. -/
def keepAccessed (page : PageId) : Paging Bool := do
  setPage page fun p => { p with naccesses := add64 p.naccesses 1 }
  ptClearAccessedFlag page
  let naccesses ← field page (·.naccesses)
  if naccesses > 1 then do
    setPage page fun p => { p with naccesses := 0 }
    enqueueFifo .activeList page
  else enqueueFifo .inactiveList page
  pure false

variable {R : Env → Env → Prop} {any : Prop} {α : Type}

section Transferring
variable (h : Transferring R)
include h

theorem Transferring.looks {p : Paging α} (hp : Always Looks p) : Always (Within R) p :=
  hp.within h.refl

@[simp] theorem within_initOnce (r : RingName) : Always (Within R) (initOnce r) := by
  refine always_bind (h.looks (by simp)) fun init => always_ite trivial ?_
  rw [threadInit_eq]
  exact within_modify fun e => h.setRing e r _ fun _ _ => rfl

@[simp] theorem within_prep (r : RingName) (sqe : Sqe) : Always (Within R) (ioUringPrep r sqe) := by
  refine always_atomic (within_of_ok fun e b e' he => ?_)
  split at he
  · cases he
    exact h.setRing e r _ fun _ hq => hq
  · cases he

private theorem all_submitted (l : List Sqe) (e : Env) :
    R e (l.foldl (fun e sqe => Threads.Ctx.record e (.submitted sqe)) e) := by
  induction l generalizing e with
  | nil => exact h.refl e
  | cons sqe l ih => exact h.trans (h.submitted e sqe) (ih _)

@[simp] theorem within_submit (r : RingName) : Always (Within R) (ioUringSubmit r) := by
  refine always_atomic (within_of_ok fun e b e' he => ?_)
  dsimp only at he
  split at he
  · cases he
    exact h.trans (h.setRing e r _ (by exact fun _ hq => hq)) (all_submitted h _ _)
  · cases he

@[simp] theorem within_wait (r : RingName) : Always (Within R) (ioUringWaitCqe r) := by
  refine always_bind (by simp) fun pick =>
    always_bind (by simp) fun code => always_atomic (within_of_ok fun e b e' he => ?_)
  dsimp only at he
  split at he
  · split at he
    · cases he
    · cases he
      exact h.trans (h.trans (h.setRing e r _ (by exact fun _ hq => hq)) (h.transfer _ _ _))
        (h.completed _ _ _)
  · cases he

@[simp] theorem within_ioringWriteStore (offset : Nat) (buffer : Buffer) (size : Nat) :
    Always (Within R) (ioringWriteStore offset buffer size) :=
  always_bind (within_initOnce h _) fun _ => always_bind (within_prep h _ _) fun _ =>
    always_bind (within_submit h _) fun _ => within_wait h _

@[simp] theorem within_ioringReadStore (offset : Nat) (buffer : Buffer) (size : Nat) :
    Always (Within R) (ioringReadStore offset buffer size) :=
  always_bind (within_initOnce h _) fun _ => always_bind (within_prep h _ _) fun _ =>
    always_bind (within_submit h _) fun _ => within_wait h _

@[simp] theorem within_ioringPrepareWrite (offset : Nat) (buffer : Buffer) (size : Nat) :
    Always (Within R) (ioringPrepareWrite offset buffer size) :=
  always_bind (within_initOnce h _) fun _ => within_prep h _ _

@[simp] theorem within_ioringPrepareRead (offset : Nat) (buffer : Buffer) (size : Nat) :
    Always (Within R) (ioringPrepareRead offset buffer size) :=
  always_bind (within_initOnce h _) fun _ => within_prep h _ _

@[simp] theorem within_ioringStartRead (offset : Nat) (buffer : Buffer) (size : Nat) :
    Always (Within R) (ioringStartRead offset buffer size) :=
  always_bind (within_initOnce h _) fun _ => always_bind (within_prep h _ _) fun _ =>
    within_submit h _

@[simp] theorem within_ioringSubmitAllReads : Always (Within R) ioringSubmitAllReads :=
  within_submit h _

@[simp] theorem within_ioringSubmitAllWrites : Always (Within R) ioringSubmitAllWrites :=
  within_submit h _

@[simp] theorem within_ioringFinishWrite : Always (Within R) ioringFinishWrite := within_wait h _

@[simp] theorem within_ioringFinishRead : Always (Within R) ioringFinishRead :=
  always_bind (h.looks (by simp)) fun _ => within_wait h _

@[simp] theorem within_allocateBuffer : Always (Within R) allocateBuffer :=
  always_bind (h.looks (by simp)) fun _ => always_ite trivial (within_modify fun e => h.space e _)

@[simp] theorem within_allocatePrefetchBuffer : Always (Within R) allocatePrefetchBuffer :=
  always_bind (h.looks (by simp)) fun _ => always_ite trivial (within_modify fun e => h.slots e _)

@[simp] theorem within_coreMigrateUpAsyncStart (d : PageId) :
    Always (Within R) (coreMigrateUpAsyncStart d) := by
  refine always_bind (h.looks (by simp)) fun _ => always_bind (within_allocateBuffer h) fun _ =>
    always_bind (h.looks (by simp)) fun _ => ?_
  exact always_bind (h.looks (by simp)) fun _ => always_bind (h.looks (by simp)) fun _ =>
    within_ioringStartRead h _ _ _

@[simp] theorem within_prefetchSubmit (x : PageId × Nat) : Always (Within R) (prefetchSubmit x) :=
  always_bind (h.looks (by simp)) fun _ => within_ioringPrepareRead h _ _ _

end Transferring

section Linking
variable (h : Linking R)
include h

theorem Linking.looks {p : Paging α} (hp : Always Looks p) : Always (Within R any) p :=
  hp.within h.refl

@[simp] theorem within_enqueueAux {l : FifoList} (hl : l ≠ .activeList) (d : PageId)
    {aux : Env → Env} (ha : ∀ e, R e (aux e)) : Always (Within R any) (enqueueFifoThen l d aux) :=
  within_enqueueThen l d fun e hd => h.trans (h.enqueue e l d hd hl) (ha _)

@[simp] theorem within_enqueueFifo {l : FifoList} (hl : l ≠ .activeList) (d : PageId) :
    Always (Within R any) (enqueueFifo l d) := within_enqueueAux h hl d h.refl

theorem within_dequeueAux {l : FifoList} (hl : l ≠ .inactiveList) {aux : PageId → Env → Env}
    (ha : ∀ d e, R e (aux d e)) : Always (Within R any) (dequeueFifoThen l aux) :=
  within_dequeueThen l h.refl fun e d xs hs => h.trans (h.dequeue e l d xs hs hl) (ha d _)

@[simp] theorem within_dequeueFifo {l : FifoList} (hl : l ≠ .inactiveList) :
    Always (Within R any) (dequeueFifo l) := within_dequeueAux h hl fun _ => h.refl

theorem within_tryremoveAux {l : Option FifoList} (hl : l ≠ some .inactiveList) (d : PageId)
    {aux : Env → Env} (ha : ∀ e, R e (aux e)) :
    Always (Within R any) (pageListTryremovePageThen l d aux) :=
  within_tryremoveThen l d h.refl fun e q hq hd =>
    h.trans (h.remove e q d hd fun hc => hl (by rw [hq, hc])) (ha _)

@[simp] theorem within_takeReserve (d : PageId) : Always (Within R any) (takeReserve d) := by
  refine always_bind (h.looks (by simp)) fun reserve => ?_
  cases reserve with
  | none => exact h.looks (looks_fail rfl)
  | some r =>
    refine always_bind (h.looks (by simp)) fun _ => always_bind (h.looks (by simp)) fun _ => ?_
    exact always_bind (within_tryremoveAux h (by decide) r fun e => h.auxiliary e _ _ _) fun _ =>
      h.looks (by simp)

@[simp] theorem within_takeDiskFree : Always (Within R) takeDiskFree := by
  refine always_bind (within_dequeueAux h (by decide) fun _ e => h.auxiliary e _ _ _)
    fun diskpage => ?_
  cases diskpage with
  | none => exact within_fail _ (.inr trivial)
  | some r => exact h.looks (by simp)

@[simp] theorem within_findDiskpage (x : PageId × Frame × Bool) :
    Always (Within R) (findDiskpage x) :=
  always_bind (h.looks (by simp)) fun _ => always_ite
    (always_bind (within_takeReserve h _) fun _ => trivial)
    (always_bind (within_takeDiskFree h) fun _ => trivial)

theorem within_takeVictim {l : FifoList} (hl : l ≠ .inactiveList) :
    Always (Within R any) (dequeueFifoThen l takeVictim) :=
  within_dequeueAux h hl fun _ e => h.auxiliary e _ _ _

private theorem taken_victims {l : FifoList} (hl : l ≠ .inactiveList) (n : Nat) (e : Env) :
    R e (Threads.Ctx.dequeueVector l takeVictim n e).1 := by
  induction n generalizing e with
  | zero => exact h.refl e
  | succ n ih =>
    unfold Threads.Ctx.dequeueVector
    split
    · exact h.refl e
    · next hs => exact h.trans (h.trans (h.dequeue e l _ _ hs hl) (h.auxiliary _ _ _ _)) (ih _)

@[simp] theorem within_takeVictims {l : FifoList} (hl : l ≠ .inactiveList) (n : Nat) :
    Always (Within R any) (dequeueFifoVectorThen l n takeVictim) :=
  always_atomic fun e => taken_victims h hl n e

@[simp] theorem within_lookUpPage (va : Nat) : Always (Within R any) (lookUp va) :=
  within_lookUp va h.refl fun e _ => h.auxiliary e _ _ _

@[simp] theorem within_lookAway (d : PageId) : Always (Within R any) (lookAway d) :=
  within_modify fun e => h.auxiliary e _ _ _

@[simp] theorem within_lrudiskTrackPage (d : PageId) :
    Always (Within R any) (lrudiskTrackPage d) :=
  always_bind (h.looks (by simp)) fun _ =>
    within_enqueueAux h (by decide) d fun e => h.record e _ rfl rfl rfl

@[simp] theorem within_detach (d : PageId) {onList onRemoved : Abort}
    (hl : onList.plain = true) (hr : onRemoved.plain = true) :
    Always (Within R any) (detach d onList onRemoved) := by
  exact always_bind (h.looks (looks_assertList _ _ hl)) fun _ =>
    always_bind (within_tryremoveAux h (by decide) d fun e => h.auxiliary e _ _ _) fun _ =>
    h.looks (looks_check hr)

/-- The scan is the policy's, which may scan as it likes while it keeps to the relation. -/
theorem within_fetchFreeScanBy {reclaim : Int → Nat → Paging Int}
    (hr : ∀ n priority, Always (Within R any) (reclaim n priority)) (priority : Nat) :
    Always (Within R any) (fetchFreeScanBy reclaim priority) := by
  refine always_bind (h.looks (by simp)) fun running =>
    always_ite trivial (always_bind (h.looks (by simp)) fun active => ?_)
  refine always_bind (h.looks (by simp)) fun inactive =>
    always_bind (h.looks (by simp)) fun dramsize => ?_
  exact always_ite (always_bind (hr _ _) fun _ => trivial) trivial

end Linking

section Claiming
variable (h : Claiming R)
include h

/-- An entry of the page table that may be absent, with the same bytes and as dirty as before. -/
theorem Claiming.mapPte (e : Env) (va : Nat) {f : Pte → Pte} (hb : ∀ p, (f p).bytes = p.bytes)
    (hd : ∀ p, (f p).dirty = p.dirty) :
    R e { e with sh := e.sh.setPte va ((e.sh.pte va).map f) } := by
  cases hp : e.sh.pte va with
  | none =>
    have hsame : e.sh.setPte va none = e.sh := by
      unfold Shared.setPte
      rw [← hp, Function.update_eq_self]
    rw [Option.map_none, hsame]
    exact h.refl e
  | some p => exact h.setPte e va p (f p) hp (hb p).symm fun hq => by rwa [hd] at hq

@[simp] theorem within_flag (d : PageId) {f : UserPage → UserPage} (hv : ∀ p, (f p).va = p.va)
    (hw : ∀ p, (f p).whereabouts = p.whereabouts) (hn : ∀ p, (f p).naccesses = p.naccesses) :
    Always (Within R any) (setPage d f) :=
  within_modify fun e => h.flag e d f hv hw hn

@[simp] theorem within_readBits (d : PageId) : Always (Within R any) (ptGetBits d) := by
  refine within_ptGetBits d h.refl (fun e va a b => h.record e _ rfl rfl rfl)
    fun e va p a b hp hd => ?_
  exact h.trans (h.setPte e va p { p with accessed := a, dirty := b } hp rfl hd)
    (h.record _ _ rfl rfl rfl)

@[simp] theorem within_ptClearAccessedFlag (d : PageId) :
    Always (Within R any) (ptClearAccessedFlag d) :=
  always_bind (h.looks (by simp)) fun va => always_bind (h.looks (by simp)) fun _ =>
    within_modify fun e => h.mapPte e va (fun _ => rfl) fun _ => rfl

@[simp] theorem within_protect (d : PageId) (b : Bool) : Always (Within R any) (extmemWpPage d b) :=
  within_extmemWpPage d b h.refl fun e va =>
    h.trans (h.mapPte e va (f := fun p => { p with wp := b }) (fun _ => rfl) fun _ => rfl)
      (h.record _ _ rfl rfl rfl)

@[simp] theorem within_claim (d : PageId) (old : Option Nat) :
    Always (Within R any) (claimSwapin d old) := by
  refine within_claimSwapin d old h.refl h.waits fun e => ?_
  have hset : R e (e.setPage d fun p => { p with migrating := true }) :=
    h.flag e d _ (fun _ => rfl) (fun _ => rfl) fun _ => rfl
  exact h.trans (h.trans hset (h.auxiliary _ _ _ _)) (h.record _ _ rfl rfl rfl)

@[simp] theorem within_prefetchNext (va : Nat) : Always (Within R any) (prefetchNext va) := by
  refine always_bind (within_lookUpPage h.toLinking va) fun page => ?_
  cases page with
  | none => trivial
  | some d =>
    refine always_bind (h.looks (by simp)) fun _ => always_bind (h.looks (by simp)) fun old =>
      always_bind (within_claim h d _) fun claim =>
      always_bind (within_lookAway h.toLinking d) fun _ => ?_
    refine always_ite (always_bind (h.looks (by simp)) fun _ => ?_) trivial
    exact always_bind (within_detach h.toLinking d rfl rfl) fun _ => trivial

@[simp] theorem within_prefetchList (left va : Nat) :
    Always (Within R any) (prefetchList left va) := by
  induction left generalizing va with
  | zero => trivial
  | succ left ih =>
    refine always_bind (within_prefetchNext h _) fun page => ?_
    cases page with
    | none => trivial
    | some d => exact always_bind (ih _) fun _ => trivial

theorem within_protectVictim (hdec : ∀ e d b, R e (e.record (.decided d b))) (d : PageId) :
    Always (Within R any) (protectVictim d) :=
  always_bind (within_protect h d _) fun _ => always_bind (within_readBits h d) fun flags =>
    always_bind (h.looks (by simp)) fun hasReserve =>
    always_bind (within_modify fun e => hdec e d _) fun _ => trivial

theorem within_prepareVictim (hdec : ∀ e d b, R e (e.record (.decided d b))) (d : PageId) :
    Always (Within R any) (prepareVictim d) :=
  always_bind (within_flag h d (fun _ => rfl) (fun _ => rfl) fun _ => rfl) fun _ =>
    always_bind (h.looks (by simp)) fun _ =>
    always_bind (within_protectVictim h hdec d) fun _ => trivial

theorem within_prepareSlot (hwriting : ∀ e d sqe, R e (e.record (.writing d sqe)))
    (hinit : Always (Within R any) (initOnce .ioRing))
    (hprep : ∀ sqe, sqe.isWrite = true → Always (Within R any) (ioUringPrep .ioRing sqe))
    (x : Slot) :
    Always (Within R any) (prepareSlot x) := by
  refine always_bind (h.looks (by simp)) fun _ => always_ite ?_ trivial
  refine always_bind (h.looks (by simp)) fun offset => always_bind (h.looks (by simp)) fun va =>
    always_bind (within_modify fun e => hwriting e _ _) fun _ => ?_
  exact always_bind (always_bind hinit fun _ => hprep _ rfl) fun _ => trivial

end Claiming

section Scanning
variable (h : Scanning R)
include h

theorem within_setCount (d : PageId) (k : UserPage → Nat) :
    Always (Within R any) (setPage d fun p => { p with naccesses := k p }) :=
  within_modify fun e => h.setPage e d _ (fun _ => rfl) fun _ => rfl

theorem within_enqueueAny (l : FifoList) (d : PageId) : Always (Within R any) (enqueueFifo l d) :=
  within_enqueueThen l d fun e _ => h.enqueueAny e l d

theorem within_dequeueAny (l : FifoList) : Always (Within R any) (dequeueFifo l) :=
  within_dequeueThen l h.refl fun e d _ _ => h.dequeueAny e l d

theorem within_keepAccessed (d : PageId) : Always (Within R any) (keepAccessed d) := by
  refine always_bind (within_setCount h d _) fun _ =>
    always_bind (within_ptClearAccessedFlag h.toClaiming d) fun _ =>
    always_bind (h.looks (by simp)) fun naccesses => always_ite ?_ ?_
  · exact always_bind (within_setCount h d _) fun _ =>
      always_bind (within_enqueueAny h _ d) fun _ => trivial
  · exact always_bind (within_enqueueAny h _ d) fun _ => trivial

@[simp] theorem within_scanInactivePage (d : PageId) :
    Always (Within R any) (scanInactivePage d) := by
  refine always_bind (within_readBits h.toClaiming d) fun bits =>
    always_ite (within_keepAccessed h d) ?_
  exact always_bind (within_setCount h d _) fun _ =>
    always_bind (within_enqueueAny h _ d) fun _ => trivial

theorem within_shrinking (b : Bool) :
    Always (Within R any) (setShared fun s => { s with shrinkageRunning := b }) :=
  within_modify fun e => h.running e b e.sh.kswapdRunning

@[simp] theorem within_shrinkActiveList (n : Nat) : Always (Within R any) (shrinkActiveList n) := by
  refine always_ite trivial (always_bind (within_shrinking h true) fun _ =>
    always_bind (h.looks (by simp)) fun len => ?_)
  refine always_bind (always_loop fun x => always_bind (h.looks (by simp)) fun len' => ?_) fun _ =>
    always_bind (within_shrinking h false) fun _ => trivial
  refine always_ite (always_bind (within_dequeueAny h _) fun page => ?_) trivial
  cases page with
  | none => trivial
  | some page =>
    exact always_bind (within_setCount h page _) fun _ =>
      always_bind (within_enqueueAny h _ page) fun _ => trivial

@[simp] theorem within_shrinkInactiveList (n : Nat) :
    Always (Within R any) (shrinkInactiveList n) := by
  refine always_bind (h.looks (by simp)) fun len =>
    always_bind (within_shrinking h true) fun _ => ?_
  refine always_bind (always_loop fun x => always_bind (h.looks (by simp)) fun len' => ?_) fun _ =>
    always_bind (within_shrinking h false) fun _ => trivial
  refine always_ite (always_bind (within_dequeueAny h _) fun page => ?_) trivial
  cases page with
  | none => trivial
  | some page => exact always_bind (within_scanInactivePage h page) fun _ => trivial

@[simp] theorem within_directAllocate (n : Int) (priority : Nat) :
    Always (Within R any) (directAllocatePageAsynch n priority) := by
  unfold directAllocatePageAsynch
  refine always_bind (h.looks (by simp)) fun active =>
    always_bind (h.looks (by simp)) fun inactive => ?_
  generalize int32 _ = a, int32 _ = b
  refine always_loop fun x =>
    always_ite (always_bind (within_shrinkInactiveList h _) fun ret => ?_) trivial
  refine always_bind (h.looks (by simp)) fun reclaimed =>
    always_bind (h.looks (by simp)) fun scanned => ?_
  exact always_ite (always_bind (within_shrinkActiveList h _) fun _ =>
    always_bind (h.looks (by simp)) fun _ => trivial) trivial

@[simp] theorem within_lrudiskSynchkswapd : Always (Within R any) lrudiskSynchkswapd := by
  have hflag (b : Bool) :
      Always (Within R any) (setShared fun s => { s with kswapdRunning := b }) :=
    within_modify fun e => h.running e e.sh.shrinkageRunning b
  refine always_bind (hflag true) fun _ => always_bind (h.looks (by simp)) fun active =>
    always_bind (h.looks (by simp)) fun inactive => always_bind (h.looks (by simp)) fun size => ?_
  generalize int32 _ = m
  exact always_ite (hflag false) (always_bind (within_directAllocate h m 12) fun _ => hflag false)

@[simp] theorem within_fetchFreeScan (priority : Nat) :
    Always (Within R any) (fetchFreeScan priority) :=
  within_fetchFreeScanBy h.toLinking (within_directAllocate h) priority

end Scanning

section Relinking
variable (h : Relinking R)
include h

@[simp] theorem within_setPage (d : PageId) {f : UserPage → UserPage}
    (hv : ∀ p, (f p).va = p.va) (hn : ∀ p, (f p).naccesses = p.naccesses) :
    Always (Within R any) (setPage d f) :=
  within_modify fun e => h.anyPage e d f hv hn

theorem within_giveFrame (d : PageId) (f : Frame) {aux : Env → Env} (ha : ∀ e, R e (aux e)) :
    Always (Within R any) (giveFrame d f aux) :=
  within_modify fun e =>
    h.trans (h.anyPage e d _ (by exact fun _ => rfl) (by exact fun _ => rfl)) (ha _)

private theorem within_settled (d : PageId) {f : UserPage → UserPage} (hv : ∀ p, (f p).va = p.va)
    (hn : ∀ p, (f p).naccesses = p.naccesses) :
    Always (Within R any) (Prog.modify fun e : Env => (e.setPage d f).endWork d : Paging Unit) :=
  within_modify fun e => h.trans (h.anyPage e d f hv hn) (h.auxiliary _ _ _ _)

@[simp] theorem within_dropReserve (d r : PageId) : Always (Within R any) (dropReserve d r) :=
  always_bind (within_setPage h r (fun _ => rfl) fun _ => rfl) fun _ =>
    within_setPage h d (fun _ => rfl) fun _ => rfl

@[simp] theorem within_releaseVictim (d : PageId) : Always (Within R any) (releaseVictim d) :=
  always_bind (h.looks (by simp)) fun _ => always_bind (h.looks (by simp)) fun _ =>
    always_bind (within_setPage h d (fun _ => rfl) fun _ => rfl) fun _ =>
    within_settled h d (fun _ => rfl) fun _ => rfl

private theorem within_enqueueSettling {l : FifoList} (hl : l ≠ .activeList) (d x y : PageId) :
    Always (Within R any) (enqueueFifoThen l d (·.settleExchange x y)) :=
  within_enqueueAux h.toLinking hl d fun e => h.auxiliary e _ _ _

private theorem within_enqueueLeaving {l : FifoList} (hl : l ≠ .activeList) (d x : PageId) :
    Always (Within R any) (enqueueFifoThen l d (·.leaveExchange x)) :=
  within_enqueueAux h.toLinking hl d fun e => h.auxiliary e _ _ _

/-- The victim and its reserve change places. -/
theorem within_swapReserve (d r : PageId) (f : Frame) : Always (Within R any) (do
    giveFrame r f id
    dropReserve d r
    enqueueFifoThen .dramFreeList r (·.settleExchange r d)
    enqueueFifoThen .diskActiveList d (·.leaveExchange d)
    releaseVictim d) := by
  refine always_bind (within_giveFrame h r f h.refl) fun _ =>
    always_bind (within_dropReserve h d r) fun _ => ?_
  exact always_bind (within_enqueueSettling h (by decide) r r d) fun _ =>
    always_bind (within_enqueueLeaving h (by decide) d d) fun _ => within_releaseVictim h d

/-- The victim and a free disk frame change places. -/
theorem within_swapFree (d r : PageId) (f : Frame) : Always (Within R any) (do
    enqueueFifoThen .diskActiveList d (·.settleExchange d r)
    giveFrame r f id
    enqueueFifoThen .dramFreeList r (·.leaveExchange r)
    releaseVictim d) := by
  refine always_bind (within_enqueueSettling h (by decide) d d r) fun _ =>
    always_bind (within_giveFrame h r f h.refl) fun _ => ?_
  exact always_bind (within_enqueueLeaving h (by decide) r r) fun _ => within_releaseVictim h d

/-- As `within_swapReserve`, for a victim of `fetch_free_asynch`, which keeps the frame. -/
theorem within_keepReserve (d r : PageId) (f : Frame) : Always (Within R any) (do
    giveFrame r f id
    dropReserve d r
    enqueueFifoThen .diskActiveList d fun e => (e.settleExchange d r).leaveExchange r
    releaseVictim d
    pure r) := by
  refine always_bind (within_giveFrame h r f h.refl) fun _ =>
    always_bind (within_dropReserve h d r) fun _ => ?_
  refine always_bind (within_enqueueAux h.toLinking (by decide) d fun e => ?_) fun _ =>
    always_bind (within_releaseVictim h d) fun _ => trivial
  exact h.auxiliary e _ _ _

theorem within_keepFree (d r : PageId) (f : Frame) : Always (Within R any) (do
    assertPage d (·.swappedOut) .victimSwappedOut
    enqueueFifoThen .diskActiveList d (·.settleExchange d r)
    giveFrame r f (·.leaveExchange r)
    Prog.modify fun e => (e.setPage d fun p => { p with migrating := false }).endWork d
    pure r) := by
  refine always_bind (h.looks (by simp)) fun _ =>
    always_bind (within_enqueueSettling h (by decide) d d r) fun _ => ?_
  refine always_bind (within_giveFrame h r f fun e => h.auxiliary e _ _ _) fun _ => ?_
  exact always_bind (within_settled h d (fun _ => rfl) fun _ => rfl) fun _ => trivial

@[simp] theorem within_takeDiskFrame (d : PageId) (f : Frame) :
    Always (Within R any) (takeDiskFrame d f) := within_setPage h d (fun _ => rfl) fun _ => rfl

@[simp] theorem within_frameOf (d : PageId) : Always (Within R any) (frameOf d) :=
  always_bind (within_modify fun e => h.auxiliary e _ _ _) fun _ => h.looks (by simp)

@[simp] theorem within_publishSwapin (d r : PageId) :
    Always (Within R any) (publishSwapin d r) := by
  refine always_bind (within_setPage h r (fun _ => rfl) fun _ => rfl) fun _ =>
    always_bind (within_setPage h d (fun _ => rfl) fun _ => rfl) fun _ =>
    always_bind (within_setPage h r (fun _ => rfl) fun _ => rfl) fun _ => ?_
  exact always_bind (within_enqueueSettling h (by decide) r r d) fun _ =>
    within_enqueueLeaving h (by decide) d d

@[simp] theorem within_lrudiskAckSwapin (d r : PageId) :
    Always (Within R any) (lrudiskAckSwapin d r) := by
  refine always_bind (within_modify fun e => h.auxiliary e _ _ _) fun _ =>
    always_bind (h.looks (by simp)) fun _ => always_bind (h.looks (by simp)) fun _ => ?_
  refine always_bind (h.looks (by simp)) fun _ => always_bind (h.looks (by simp)) fun _ =>
    always_bind (h.looks (by simp)) fun _ => ?_
  refine always_bind (h.looks (by simp)) fun _ => always_bind (h.looks (by simp)) fun _ =>
    always_bind (within_takeDiskFrame h r _) fun _ => ?_
  exact always_bind (within_setPage h d (fun _ => rfl) fun _ => rfl) fun _ =>
    within_publishSwapin h d r

@[simp] theorem within_finishSwapin (d : PageId) : Always (Within R any) (finishSwapin d) :=
  within_settled h d (fun _ => rfl) fun _ => rfl

theorem within_finishSlot (x : Slot) : Always (Within R any) (finishSlot x) :=
  always_bind (h.looks (by simp)) fun _ => always_ite (within_swapReserve h _ _ _)
    (always_bind (h.looks (by simp)) fun _ => within_swapFree h _ _ _)

private theorem swapped_out (d : PageId) : Within R any Unit (markSwappedOut d) := by
  intro e
  unfold markSwappedOut
  by_cases hs : (e.sh.page d).swappedOut = true
  · rw [if_pos hs]
    exact .inl rfl
  · rw [if_neg hs]
    by_cases hm : (e.sh.page d).migrating = true
    · rw [if_pos hm]
      exact h.anyPage e d _ (fun _ => rfl) fun _ => rfl
    · rw [if_neg hm]
      exact .inl rfl

private theorem all_swapped_out (batch : List Slot) :
    Within R any Unit (markAllSwappedOut batch) := by
  induction batch with
  | nil => exact h.refl
  | cons x batch ih =>
    intro e
    have hx : Within R any Unit (markSwappedOut x.victim) := swapped_out h x.victim
    unfold markAllSwappedOut
    cases hm : markSwappedOut x.victim e with
    | ok b e₁ =>
      dsimp only
      cases ha : markAllSwappedOut batch e₁ with
      | ok b' e₂ => exact h.trans (hx.ok hm) (ih.ok ha)
      | wait => trivial
      | abort why => exact ih.abort ha
    | wait => trivial
    | abort why => exact hx.abort hm

theorem within_markSwappedOut (d : PageId) :
    Always (Within R any) (Prog.atomic (markSwappedOut d)) :=
  always_atomic (swapped_out h d)

theorem within_markAll (batch : List Slot) :
    Always (Within R any) (Prog.atomic (markAllSwappedOut batch)) :=
  always_atomic (all_swapped_out h batch)

end Relinking

section Forgetting
variable (h : Forgetting R)
include h

theorem within_write (d : PageId) {f : UserPage → UserPage} (hf : ∀ p, (f p).pt = p.pt) :
    Always (Within R any) (setPage d f) :=
  within_modify fun e => h.write e d f hf

private theorem within_tryremove (l : Option FifoList) (d : PageId) :
    Always (Within R any) (pageListTryremovePage l d) :=
  within_tryremoveThen l d h.refl fun e q _ _ => h.removeAny e q d

theorem within_removeFromAnyList (d : PageId) : Always (Within R any) (removeFromAnyList d) :=
  always_loop fun _ => always_bind (h.looks (by simp)) fun l =>
    always_bind (within_tryremove h l d) fun _ => trivial

theorem within_freeReserve (d : PageId) : Always (Within R any) (freeReserve d) := by
  refine always_bind (h.looks (by simp)) fun reserve => ?_
  cases reserve with
  | none => exact h.looks (looks_fail rfl)
  | some r =>
    refine always_bind (h.looks (by simp)) fun _ =>
      always_bind (always_loop fun _ => ?_) fun _ => ?_
    · exact always_bind (h.looks (by simp)) fun l => always_bind (h.looks (by simp)) fun _ =>
        always_bind (within_tryremove h l r) fun _ => trivial
    · exact always_bind (within_write h r fun _ => rfl) fun _ =>
        always_bind (within_enqueueFifo h.toLinking (by decide) r) fun _ =>
        within_write h d fun _ => rfl

@[simp] theorem within_lrudiskRemovePage (d : PageId) :
    Always (Within R any) (lrudiskRemovePage d) := by
  have hend : Always (Within R any) (Prog.modify fun e : Env => ((e.setPage d fun p =>
      { p with migrating := false }).endWork d).record (.released d) : Paging Unit) :=
    within_modify fun e => h.trans (h.trans (h.write e d _ (by exact fun _ => rfl))
      (h.auxiliary _ _ _ _)) (h.record _ _ rfl rfl rfl)
  refine always_bind (within_write h d fun _ => rfl) fun _ =>
    always_bind (within_removeFromAnyList h d) fun _ =>
    always_bind (within_modify fun e => ?_) fun _ =>
    always_bind (h.looks (by simp)) fun inDram => always_ite ?_ ?_
  · exact h.trans (h.write e d _ (by exact fun _ => rfl)) (h.record _ _ rfl rfl rfl)
  · have hfree := always_bind
      (within_enqueueFifo h.toLinking (l := .dramFreeList) (by decide) d) fun _ => hend
    exact always_bind (h.looks (by simp)) fun hasReserve =>
      always_ite (always_bind (within_freeReserve h d) fun _ => hfree) hfree
  · refine always_bind (h.looks (by simp)) fun swappedOut =>
      always_ite ?_ (always_bind (h.looks (looks_fail rfl)) fun _ => hend)
    exact always_bind (within_write h d fun _ => rfl) fun _ =>
      always_bind (within_enqueueFifo h.toLinking (by decide) d) fun _ => hend

@[simp] theorem within_claimUnmap (d : PageId) : Always (Within R any) (claimUnmap d) := by
  have htake (e : Env) : R e (takeUnmap d e) :=
    h.trans (h.trans (h.write e d _ (by exact fun _ => rfl)) (h.auxiliary _ _ _ _))
      (h.record _ _ rfl rfl rfl)
  refine always_bind (always_atomic fun e => ?_) fun busy => always_ite ?_ trivial
  · by_cases hm : (e.sh.page d).migrating = true
    · simp only [hm, if_true]
      exact h.refl e
    · simp only [hm]
      exact htake e
  · exact always_bind (within_waitMigratingThen d h.refl) fun _ => within_modify htake

end Forgetting

theorem within_unmapWalk (h : Releasing R) (addr length : Nat) :
    Always (Within R any) (unmapWalk addr length) := by
  have hstats (f : Stats → Stats) : Always (Within R any) (setStats f) :=
    within_modify fun e => h.forget e e.sh.pages (f e.sh.stats)
  refine always_loop fun va => always_ite (always_bind ?_ fun _ => trivial) trivial
  refine always_bind (h.looks (by simp)) fun page => ?_
  cases page with
  | none => trivial
  | some d =>
    refine always_bind (within_claimUnmap h.toForgetting d) fun _ =>
      always_bind (within_modify fun e => h.forget e _ e.sh.stats) fun _ => ?_
    refine always_bind (within_lrudiskRemovePage h.toForgetting d) fun _ =>
      always_bind (h.looks (by simp)) fun _ => ?_
    exact always_bind (hstats _) fun _ => always_bind (hstats _) fun _ =>
      always_bind (hstats _) fun _ => trivial

section Dropping
variable (h : Dropping R)
include h

theorem within_counts {f : Stats → Stats} (hh : ∀ t, (f t).held = t.held)
    (hu : ∀ t, (f t).migrationsUp = t.migrationsUp) : Always (Within R) (setStats f) :=
  within_modify fun e => h.counts e f hh hu

@[simp] theorem within_unmap (va : Nat) : Always (Within R) (dropMapping va) :=
  within_dropMapping va h.refl fun e => h.drop e va

theorem within_writeStore (offset va size : Nat) :
    Always (Within R) (ioringWriteStore offset (.user va) size) :=
  always_bind h.initWrites fun _ => always_bind (h.prepWrite _ rfl) fun _ =>
    always_bind h.submitWrites fun _ => h.waitWrite

theorem within_downdisk (d : PageId) (f : Frame) (w : Bool) :
    Always (Within R) (extmemMigrateDowndisk d f w) := by
  have hend (va size : Nat) : Always (Within R) (do
      traceEvent (.dropping d)
      dropMapping va
      setStats fun t => { t with migrationsDown := add64 t.migrationsDown 1 }
      setPage d fun p => { p with virtualOffset := f }
      setPage d fun p => { p with inDram := false }
      setStats fun t => { t with bytesMigrated := add64 t.bytesMigrated size }
      Prog.atomic (markSwappedOut d)) := by
    refine always_bind (within_modify fun e => h.traced e _ rfl rfl rfl rfl) fun _ =>
      always_bind (within_unmap h va) fun _ => ?_
    refine always_bind (within_counts h (fun _ => rfl) fun _ => rfl) fun _ =>
      always_bind (within_setPage h.toRelinking d (fun _ => rfl) fun _ => rfl) fun _ => ?_
    refine always_bind (within_setPage h.toRelinking d (fun _ => rfl) fun _ => rfl) fun _ =>
      always_bind (within_counts h (fun _ => rfl) fun _ => rfl) fun _ => ?_
    exact always_atomic (swapped_out h.toRelinking d)
  refine always_bind (within_setPage h.toRelinking d (fun _ => rfl) fun _ => rfl) fun _ =>
    always_bind (h.looks (by simp)) fun _ => always_bind (h.looks (by simp)) fun size => ?_
  refine always_bind (h.looks (by simp)) fun _ => always_bind (h.looks (by simp)) fun _ =>
    always_bind (h.looks (by simp)) fun _ => always_bind (h.looks (by simp)) fun va => ?_
  refine always_ite ?_ (hend va size)
  exact always_bind (within_modify fun e => h.traced e _ rfl rfl rfl rfl) fun _ =>
    always_bind (within_writeStore h _ va size) fun _ => hend va size

theorem within_migrateDown (d : PageId) (f : Frame) (p w : Bool) :
    Always (Within R) (lrudiskMigrateDown d f p w) :=
  always_bind (within_setPage h.toRelinking d (fun _ => rfl) fun _ => rfl) fun _ => always_ite
    (always_bind (within_protect h.toClaiming d _) fun _ => within_downdisk h d f w)
    (within_downdisk h d f w)

theorem within_unmapSlot (x : Slot) : Always (Within R) (unmapSlot x) :=
  always_bind (h.looks (by simp)) fun va =>
    always_bind (within_modify fun e => h.traced e _ rfl rfl rfl rfl) fun _ => within_unmap h va

theorem within_moveSlot (x : Slot) : Always (Within R) (moveSlot x) := by
  refine always_bind (within_counts h (fun _ => rfl) fun _ => rfl) fun _ =>
    always_bind (h.looks (by simp)) fun _ => ?_
  refine always_bind (within_setPage h.toRelinking _ (fun _ => rfl) fun _ => rfl) fun _ =>
    always_bind (within_setPage h.toRelinking _ (fun _ => rfl) fun _ => rfl) fun _ => ?_
  exact within_counts h (by simp [Stats.held]) (by simp)

theorem within_downdiskVector (batch : List Slot) :
    Always (Within R) (extmemMigrateDowndiskVector batch) := by
  refine always_bind (within_modify fun e => h.traced e _ rfl rfl rfl rfl) fun _ =>
    always_bind (always_collect (within_prepareSlot h.toClaiming
      (fun e _ _ => h.traced e _ rfl rfl rfl rfl) h.initWrites h.prepWrite))
    fun written => ?_
  refine always_bind h.submitWrites fun _ =>
    always_bind (always_each fun _ => h.waitWrite) fun _ => ?_
  exact always_bind (always_each (within_unmapSlot h)) fun _ =>
    always_bind (always_each (within_moveSlot h)) fun _ => within_markAll h.toRelinking batch

/-- The victim's frame is exchanged, as the scalar worker and the fault handler do it. -/
theorem within_exchange {β : Type} (d : PageId) (wp w : Bool) {A B : PageId → Frame → Paging β}
    (hA : ∀ r f, Always (Within R) (A r f)) (hB : ∀ r f, Always (Within R) (B r f)) :
    Always (Within R) (do
      let hasReserve ← field d (·.hasReserve)
      if hasReserve then do
        let diskpage ← takeReserve d
        let oldOffset ← field d (·.virtualOffset)
        let diskOffset ← field diskpage (·.virtualOffset)
        lrudiskMigrateDown d diskOffset false w
        A diskpage oldOffset
      else do
        let diskpage ← takeDiskFree
        let oldOffset ← field d (·.virtualOffset)
        let diskOffset ← field diskpage (·.virtualOffset)
        lrudiskMigrateDown d diskOffset wp w
        B diskpage oldOffset) := by
  refine always_bind (h.looks (by simp)) fun hasReserve => always_ite ?_ ?_
  · refine always_bind (within_takeReserve h.toLinking d) fun r =>
      always_bind (h.looks (by simp)) fun old => always_bind (h.looks (by simp)) fun disk => ?_
    exact always_bind (within_migrateDown h d _ _ _) fun _ => hA r old
  · refine always_bind (within_takeDiskFree h.toLinking) fun r =>
      always_bind (h.looks (by simp)) fun old => always_bind (h.looks (by simp)) fun disk => ?_
    exact always_bind (within_migrateDown h d _ _ _) fun _ => hB r old

end Dropping

section Vacating
variable (h : Vacating R)
include h

@[simp] theorem within_fetchFreeEvict (d : PageId) : Always (Within R) (fetchFreeEvict d) :=
  always_bind (within_setPage h.toRelinking d (fun _ => rfl) fun _ => rfl) fun _ =>
    always_bind (within_protectVictim h.toClaiming h.decided d) fun writeback =>
    within_exchange h.toDropping d true writeback (within_keepReserve h.toRelinking d)
      (within_keepFree h.toRelinking d)

theorem within_fetchFreeAsynchBy {reclaim : Int → Nat → Paging Int}
    (hr : ∀ n priority, Always (Within R) (reclaim n priority)) :
    Always (Within R) (fetchFreeAsynchBy reclaim) := by
  refine always_loop fun priority => always_ite
    (always_bind (within_dequeueFifo h.toLinking (by decide)) fun page => ?_)
    (h.looks (looks_fail rfl))
  cases page with
  | some page => trivial
  | none =>
    refine always_bind (within_fetchFreeScanBy h.toLinking hr _) fun priority =>
      always_bind (within_takeVictim h.toLinking (by decide)) fun page => ?_
    cases page with
    | none => trivial
    | some d => exact always_bind (within_fetchFreeEvict h d) fun _ => trivial

@[simp] theorem within_fetchFreeAsynch (hs : Scanning R) : Always (Within R) fetchFreeAsynch :=
  within_fetchFreeAsynchBy h (within_directAllocate hs)

theorem within_lrudiskPagefaultBy {reclaim : Int → Nat → Paging Int}
    (hr : ∀ n priority, Always (Within R) (reclaim n priority)) :
    Always (Within R) (lrudiskPagefaultBy reclaim) :=
  always_bind (within_fetchFreeAsynchBy h hr) fun page =>
    always_bind (within_setPage h.toRelinking page (fun _ => rfl) fun _ => rfl) fun _ => trivial

@[simp] theorem within_lrudiskPagefault (hs : Scanning R) : Always (Within R) lrudiskPagefault :=
  within_lrudiskPagefaultBy h (within_directAllocate hs)

@[simp] theorem within_lrudiskEvictionworker : Always (Within R) lrudiskEvictionworker := by
  refine always_bind (within_takeVictim h.toLinking (by decide)) fun victim => ?_
  cases victim with
  | none => trivial
  | some d =>
    exact always_bind (within_setPage h.toRelinking d (fun _ => rfl) fun _ => rfl) fun _ =>
      always_bind (within_protectVictim h.toClaiming h.decided d) fun writeback =>
      within_exchange h.toDropping d false writeback (within_swapReserve h.toRelinking d)
        (within_swapFree h.toRelinking d)

@[simp] theorem within_lrudiskEvictionworkerVector :
    Always (Within R) lrudiskEvictionworkerVector := by
  refine always_bind (within_takeVictims h.toLinking (by decide) _) fun victims =>
    always_ite trivial ?_
  refine always_bind (always_collect (within_prepareVictim h.toClaiming h.decided)) fun prepared =>
    always_bind (always_collect (within_findDiskpage h.toLinking)) fun batch => ?_
  exact always_bind (within_downdiskVector h.toDropping batch) fun _ =>
    always_each (within_finishSlot h.toRelinking)

end Vacating

end ExtMem
