import ExtMem.Sparing
import ExtMem.Serial.Calls

/-! The migration counters against the trace: what is counted at once, and the evictions and
swap-ins, which count each page that they move once it has been moved. -/
namespace ExtMem
open Threads Threads.Prog

/-- A page is brought in for a fault. -/
def Event.demand : Event → Bool
  | .copied _ .bufferSpace => true
  | _ => false

/-- A page is brought in by a prefetch. -/
def Event.ahead : Event → Bool
  | .copied _ (.prefetchSlot _) => true
  | _ => false

/-- The pages brought in for faults, the pages prefetched and the pages evicted in a trace. -/
def demands (log : List (Tid × Event)) : Nat := log.countP (·.2.demand)

def prefetches (log : List (Tid × Event)) : Nat := log.countP (·.2.ahead)

def evictions (log : List (Tid × Event)) : Nat := log.countP (·.2.drops)

/-- The counters agree with the trace, as uint64_t, but for some pages brought in, some evicted
and some bytes; the counters of mappings and tracked pages are these. -/
structure Tally (h : Nat × Nat × Nat × Nat) (u d b : Nat) (s : Shared) : Prop where
  held : s.stats.held = h
  up : (s.stats.migrationsUp + u) % 2 ^ 64 = demands s.log % 2 ^ 64
  down : (s.stats.migrationsDown + d) % 2 ^ 64 = evictions s.log % 2 ^ 64
  bytes :
    (s.stats.bytesMigrated + b) % 2 ^ 64 = pageSize * (demands s.log + evictions s.log) % 2 ^ 64
  small : s.stats.migrationsUp < 2 ^ 64 ∧ s.stats.migrationsDown < 2 ^ 64 ∧
    s.stats.bytesMigrated < 2 ^ 64

/-- A step that neither moves a page nor counts one. -/
structure Uncounted (e e' : Env) : Prop where
  held : e'.sh.stats.held = e.sh.stats.held
  up : e'.sh.stats.migrationsUp = e.sh.stats.migrationsUp
  down : e'.sh.stats.migrationsDown = e.sh.stats.migrationsDown
  bytes : e'.sh.stats.bytesMigrated = e.sh.stats.bytesMigrated
  demands : demands e'.sh.log = demands e.sh.log
  evictions : evictions e'.sh.log = evictions e.sh.log

abbrev Uncounting : (β : Type) → (Env → Outcome Abort Env β) → Prop := Within Uncounted

variable {h : Nat × Nat × Nat × Nat} {u d b : Nat} {e e' : Env} {s s' : Shared} {α β : Type}

namespace Uncounted

@[simp] theorem refl (e : Env) : Uncounted e e := ⟨rfl, rfl, rfl, rfl, rfl, rfl⟩

theorem trans {e₁ e₂ : Env} (h₁ : Uncounted e e₁) (h₂ : Uncounted e₁ e₂) : Uncounted e e₂ :=
  ⟨h₂.held.trans h₁.held, h₂.up.trans h₁.up, h₂.down.trans h₁.down, h₂.bytes.trans h₁.bytes,
    h₂.demands.trans h₁.demands, h₂.evictions.trans h₁.evictions⟩

theorem of_eq (hs : e'.sh.stats = e.sh.stats) (hl : e'.sh.log = e.sh.log) : Uncounted e e' :=
  ⟨by rw [hs], by rw [hs], by rw [hs], by rw [hs], by rw [hl], by rw [hl]⟩

theorem of_record (t : Tid) (ev : Event) (hs : e'.sh.stats = e.sh.stats)
    (hl : e'.sh.log = (t, ev) :: e.sh.log) (hd : ev.demand = false) (he : ev.drops = false) :
    Uncounted e e' := by
  refine ⟨by rw [hs], by rw [hs], by rw [hs], by rw [hs], ?_, ?_⟩
  · rw [hl, ExtMem.demands, List.countP_cons_of_neg (by simp [hd])]
    rfl
  · rw [hl, ExtMem.evictions, List.countP_cons_of_neg (by simp [he])]
    rfl

theorem of_spared (h : Spared false false e e') : Uncounted e e' := by
  obtain ⟨evs, hl, hev⟩ := h.log
  refine ⟨h.held, h.up rfl, h.down rfl, h.bytes rfl rfl, ?_, ?_⟩
  · rw [hl, ExtMem.demands, List.countP_append, List.countP_eq_zero.mpr, Nat.zero_add]
    · rfl
    · intro x hx
      obtain ⟨ev, hm, rfl⟩ := List.mem_map.mp hx
      cases ev with
      | copied va src => exact absurd ((hev _ hm).1 rfl) Bool.false_ne_true
      | _ => exact Bool.false_ne_true
  · rw [hl, ExtMem.evictions, List.countP_append, List.countP_eq_zero.mpr, Nat.zero_add]
    · rfl
    · intro x hx
      obtain ⟨ev, hm, rfl⟩ := List.mem_map.mp hx
      exact fun hc => Bool.false_ne_true ((hev _ hm).2 hc)

theorem tally (hu : Uncounted e e') (ht : Tally h u d b e.sh) : Tally h u d b e'.sh := by
  refine ⟨hu.held.trans ht.held, ?_, ?_, ?_, ?_⟩
  · rw [hu.up, hu.demands]
    exact ht.up
  · rw [hu.down, hu.evictions]
    exact ht.down
  · rw [hu.bytes, hu.demands, hu.evictions]
    exact ht.bytes
  · rw [hu.up, hu.down, hu.bytes]
    exact ht.small

end Uncounted

theorem uncounting_of_sparing {p : Paging α} (h : Always (Sparing false false) p) :
    Always Uncounting p :=
  within_mono h fun _ _ => .of_spared

theorem uncounting_setPage (x : PageId) (f : UserPage → UserPage) :
    Always Uncounting (setPage x f) :=
  within_modify fun _ => .of_eq rfl rfl

theorem uncounting_setLocal (f : Local → Local) : Always Uncounting (setLocal f) :=
  within_modify fun _ => .of_eq rfl rfl

theorem uncounting_setShared {f : Shared → Shared} (hs : ∀ s, (f s).stats = s.stats)
    (hl : ∀ s, (f s).log = s.log) : Always Uncounting (setShared f) :=
  within_modify fun e => .of_eq (hs e.sh) (hl e.sh)

/-- What counts nothing leaves the tally as it is. -/
theorem after_uncounting {p : Paging α} (hp : Always Uncounting p) (ht : Tally h u d b e.sh) :
    After p e fun _ e' => Tally h u d b e'.sh :=
  (after_within hp .refl .trans).mono fun _ _ hu => hu.tally ht

/-- A first part that counts nothing, with what else is known after it. -/
theorem after_tally {p : Paging α} {q : α → Paging β} {R : α → Env → Prop} {Q : β → Env → Prop}
    (hp : Always Uncounting p) (ht : Tally h u d b e.sh) (hR : After p e R)
    (hq : ∀ a e', R a e' → Tally h u d b e'.sh → After (q a) e' Q) : After (p >>= q) e Q :=
  after_then (hR.and (after_uncounting hp ht)) fun a e' hae => hq a e' hae.1 hae.2

/-- The same where nothing else is to be known. -/
theorem after_tally' {p : Paging α} {q : α → Paging β} {Q : β → Env → Prop}
    (hp : Always Uncounting p) (ht : Tally h u d b e.sh)
    (hq : ∀ a e', Tally h u d b e'.sh → After (q a) e' Q) : After (p >>= q) e Q :=
  after_then (after_uncounting hp ht) hq

/-! The counted steps. -/

theorem Tally.countUp (ht : Tally h (u + 1) d b e.sh) : Tally h u d b
    { e.sh with stats := { e.sh.stats with migrationsUp := add64 e.sh.stats.migrationsUp 1 } } := by
  refine ⟨ht.held, ?_, ht.down, ht.bytes, Nat.mod_lt _ (by decide), ht.small.2⟩
  have hup := ht.up
  show ((e.sh.stats.migrationsUp + 1) % 2 ^ 64 + u) % 2 ^ 64 = demands e.sh.log % 2 ^ 64
  omega

theorem Tally.countDown (ht : Tally h u (d + 1) b e.sh) : Tally h u d b
    { e.sh with stats := { e.sh.stats with migrationsDown := add64 e.sh.stats.migrationsDown 1 } } := by
  refine ⟨ht.held, ht.up, ?_, ht.bytes, ht.small.1, Nat.mod_lt _ (by decide), ht.small.2.2⟩
  have hdown := ht.down
  show ((e.sh.stats.migrationsDown + 1) % 2 ^ 64 + d) % 2 ^ 64 = evictions e.sh.log % 2 ^ 64
  omega

theorem Tally.countBytes {x : Nat} (ht : Tally h u d (b + x) e.sh) : Tally h u d b
    { e.sh with stats := { e.sh.stats with bytesMigrated := add64 e.sh.stats.bytesMigrated x } } := by
  refine ⟨ht.held, ht.up, ht.down, ?_, ht.small.1, ht.small.2.1, Nat.mod_lt _ (by decide)⟩
  have hbytes := ht.bytes
  show ((e.sh.stats.bytesMigrated + x) % 2 ^ 64 + b) % 2 ^ 64 =
    pageSize * (demands e.sh.log + evictions e.sh.log) % 2 ^ 64
  rw [← hbytes]
  omega

private theorem Tally.bringIn {t : Tid} {va : Nat} (ht : Tally h u d b s) (hs : s'.stats = s.stats)
    (hl : s'.log = (t, .copied va .bufferSpace) :: s.log) :
    Tally h (u + 1) d (b + pageSize) s' := by
  have hdem : demands s'.log = demands s.log + 1 := by
    rw [hl]
    exact List.countP_cons_of_pos rfl
  have hev : evictions s'.log = evictions s.log := by
    rw [hl]
    exact List.countP_cons_of_neg Bool.false_ne_true
  have hup := ht.up
  have hbytes := ht.bytes
  refine ⟨by rw [hs]; exact ht.held, ?_, by rw [hs, hev]; exact ht.down, ?_,
    by rw [hs]; exact ht.small⟩
  · rw [hs, hdem]
    omega
  · rw [hs, hdem, hev]
    simp only [show pageSize = 4096 from rfl] at hbytes ⊢
    omega

private theorem Tally.evict {t : Tid} {va : Nat} (ht : Tally h u d b s) (hs : s'.stats = s.stats)
    (hl : s'.log = (t, .unmapped va) :: s.log) : Tally h u (d + 1) (b + pageSize) s' := by
  have hdem : demands s'.log = demands s.log := by
    rw [hl]
    exact List.countP_cons_of_neg Bool.false_ne_true
  have hev : evictions s'.log = evictions s.log + 1 := by
    rw [hl]
    exact List.countP_cons_of_pos rfl
  have hdown := ht.down
  have hbytes := ht.bytes
  refine ⟨by rw [hs]; exact ht.held, by rw [hs, hdem]; exact ht.up, ?_, ?_,
    by rw [hs]; exact ht.small⟩
  · rw [hs, hev]
    omega
  · rw [hs, hdem, hev]
    simp only [show pageSize = 4096 from rfl] at hbytes ⊢
    omega

/-! Migrations. -/

variable {x : PageId} {f : Frame} {Q : Unit → Env → Prop}

theorem after_setStats {g : Stats → Stats} {q : Unit → Paging β} {Q : β → Env → Prop}
    (hq : ∀ e' : Env, e'.sh = { e.sh with stats := g e.sh.stats } → After (q ()) e' Q) :
    After (setStats g >>= q) e Q :=
  (after_bind _ _ _ _).mpr ((after_modify _ _ _).mpr (hq _ rfl))

theorem after_dropMapping {va : Nat} (ht : Tally h u d b e.sh) :
    After (dropMapping va) e fun _ e' => Tally h u (d + 1) (b + pageSize) e'.sh := by
  unfold dropMapping
  refine after_then (R := fun ok e' => ok = true → Tally h u (d + 1) (b + pageSize) e'.sh) ?_
    fun ok e' hok => ?_
  · refine (after_atomic _ _ _).mpr fun ok e' he => ?_
    split at he
    · cases he
      exact fun hc => absurd hc Bool.false_ne_true
    · cases he
      exact fun _ => ht.evict rfl rfl
  · rw [← bind_pure (Prog.check ok Abort.madviseFailed)]
    exact after_check fun hc => (after_pure _ _ _).mpr (hok hc)

theorem after_copyBuffer (ht : Tally h u d b e.sh) :
    After (copyIn x .bufferSpace) e fun _ e' => Tally h (u + 1) d (b + pageSize) e'.sh := by
  unfold copyIn
  refine after_tally' (uncounting_of_sparing (by simp)) ht fun va e ht => ?_
  refine after_then (R := fun ok e' => ok = true → Tally h (u + 1) d (b + pageSize) e'.sh) ?_
    fun ok e' hok => ?_
  · refine (after_atomic _ _ _).mpr fun ok e' he => ?_
    split at he
    · cases he
      exact fun hc => absurd hc Bool.false_ne_true
    · split at he
      · cases he
        exact fun _ => ht.bringIn rfl rfl
      · cases he
        exact fun hc => absurd hc Bool.false_ne_true
  · rw [← bind_pure (Prog.check ok Abort.copyFailed)]
    exact after_check fun hc => (after_pure _ _ _).mpr (hok hc)

/-- Pages that are not copied in from the thread's one-page buffer are not brought in for a
fault. -/
theorem uncounting_copyIn {src : Buffer} (hs : src ≠ .bufferSpace) :
    Always Uncounting (copyIn x src) := by
  refine within_copyIn x src .refl fun e va _ =>
    .of_record e.loc.tid (.copied va src) rfl rfl ?_ rfl
  cases src with
  | bufferSpace => contradiction
  | _ => rfl

/-- A page with its size counts as many bytes as it has. -/
theorem after_pagesizeOf {q : Nat → Paging β} {Q : β → Env → Prop} (hpt : (e.sh.page x).pt = .basep)
    (hq : After (q pageSize) e Q) : After (pagesizeOf x >>= q) e Q := by
  have hsize : ptToPagesize (e.sh.page x).pt = pageSize := congrArg ptToPagesize hpt
  rw [← hsize] at hq
  exact (after_bind _ _ _ _).mpr ((after_read _ _ _).mpr hq)

theorem after_downdisk {writeback : Bool}
    (hpt : (e.sh.page x).pt = .basep) (ht : Tally h u d b e.sh) :
    After (extmemMigrateDowndisk x f writeback) e fun _ e' => Tally h u d b e'.sh := by
  have hend (va : Nat) (e : Env) (ht : Tally h u d b e.sh) : After (do
      traceEvent (.dropping x)
      dropMapping va
      setStats fun t => { t with migrationsDown := add64 t.migrationsDown 1 }
      setPage x fun p => { p with virtualOffset := f }
      setPage x fun p => { p with inDram := false }
      setStats fun t => { t with bytesMigrated := add64 t.bytesMigrated pageSize }
      Prog.atomic (markSwappedOut x)) e fun _ e' => Tally h u d b e'.sh := by
    refine after_tally' (uncounting_of_sparing (sparing_traceEvent rfl rfl)) ht fun _ e ht => ?_
    refine after_then (after_dropMapping ht) fun _ e ht => after_setStats fun e₁ he => ?_
    have ht₁ : Tally h u d (b + pageSize) e₁.sh := he ▸ ht.countDown
    refine after_tally' (uncounting_setPage _ _) ht₁ fun _ e ht =>
      after_tally' (uncounting_setPage _ _) ht fun _ e ht => ?_
    refine after_setStats fun e₂ he => ?_
    have ht₂ : Tally h u d b e₂.sh := he ▸ ht.countBytes
    exact after_uncounting (uncounting_of_sparing (within_markSwappedOut relinking_spared x)) ht₂
  unfold extmemMigrateDowndisk
  refine after_tally (R := fun _ e => (e.sh.page x).pt = .basep) (uncounting_setPage _ _) ht ?_
    fun _ e hpt ht => ?_
  · refine (after_modify _ _ _).mpr ?_
    simpa [Threads.Ctx.setPage, Shared.setPage] using hpt
  refine after_tally (R := fun _ e => (e.sh.page x).pt = .basep) (uncounting_of_sparing (by simp))
    ht ((after_assert _ _ _ _).mpr fun _ => hpt) fun _ e hpt ht => after_pagesizeOf hpt ?_
  refine after_tally' (uncounting_of_sparing (by simp)) ht fun old e ht => ?_
  refine after_tally' (uncounting_of_sparing (by simp)) ht fun _ e ht => ?_
  refine after_tally' (uncounting_of_sparing (by simp)) ht fun _ e ht => ?_
  refine after_tally' (uncounting_of_sparing (by simp)) ht fun va e ht => ?_
  refine (after_ite _ _ _ _).mpr ⟨fun _ => ?_, fun _ => hend va e ht⟩
  refine after_tally' (uncounting_of_sparing (sparing_traceEvent rfl rfl)) ht fun _ e ht => ?_
  exact after_tally' (uncounting_of_sparing (by simp)) ht fun _ e ht => hend va e ht

theorem after_tallyDown {wp writeback : Bool}
    (hpt : (e.sh.page x).pt = .basep) (ht : Tally h u d b e.sh) :
    After (lrudiskMigrateDown x f wp writeback) e fun _ e' => Tally h u d b e'.sh := by
  unfold lrudiskMigrateDown
  refine after_tally (R := fun _ e => (e.sh.page x).pt = .basep) (uncounting_setPage _ _) ht ?_
    fun _ e hpt ht => ?_
  · refine (after_modify _ _ _).mpr ?_
    simpa [Threads.Ctx.setPage, Shared.setPage] using hpt
  refine (after_ite _ _ _ _).mpr ⟨fun _ => ?_, fun _ => after_downdisk hpt ht⟩
  refine after_tally (R := fun _ e' => e'.sh.skeleton = e.sh.skeleton)
    (uncounting_of_sparing (by simp)) ht (after_still_last rfl (by simp)) fun _ e' hk ht =>
    after_downdisk ?_ ht
  rw [show e'.sh.page = e.sh.page from congrArg Skeleton.page hk]
  exact hpt

theorem after_tallyUp (hpt : (e.sh.page x).pt = .basep) (ht : Tally h u d b e.sh) :
    After (coreMigrateUpAsyncFinish x f) e fun _ e' => Tally h u d b e'.sh := by
  unfold coreMigrateUpAsyncFinish
  refine after_tally (R := fun _ e => (e.sh.page x).pt = .basep) (uncounting_of_sparing (by simp))
    ht ((after_assert _ _ _ _).mpr fun _ => hpt) fun _ e hpt ht => ?_
  refine after_tally (R := fun _ e => (e.sh.page x).pt = .basep) (uncounting_of_sparing (by simp))
    ht ((after_assert _ _ _ _).mpr fun _ => hpt) fun _ e hpt ht => after_pagesizeOf hpt ?_
  refine after_tally' (uncounting_of_sparing (by simp)) ht fun old e ht => ?_
  refine after_tally' (uncounting_of_sparing (by simp)) ht fun _ e ht => ?_
  refine after_tally' (uncounting_of_sparing (by simp)) ht fun _ e ht => ?_
  refine after_tally' (uncounting_of_sparing (by simp)) ht fun _ e ht => ?_
  refine after_then (after_copyBuffer ht) fun _ e ht =>
    after_tally' (uncounting_of_sparing (by simp)) ht fun _ e ht => ?_
  refine after_setStats fun e₁ he => ?_
  have ht₁ : Tally h u d (b + pageSize) e₁.sh := he ▸ ht.countUp
  refine after_tally' (uncounting_setPage _ _) ht₁ fun _ e ht =>
    after_tally' (uncounting_setPage _ _) ht fun _ e ht => ?_
  exact (after_modify _ _ _).mpr ht.countBytes

/-! The vector worker. -/

private theorem after_unmapSlots (batch : List Slot) (ht : Tally h u d b e.sh) :
    After (Prog.each unmapSlot batch) e fun _ e' =>
      Tally h u (d + batch.length) (b + pageSize * batch.length) e'.sh := by
  induction batch generalizing d b e with
  | nil => exact (after_pure _ _ _).mpr ht
  | cons y batch ih =>
    refine after_then (R := fun _ e' => Tally h u (d + 1) (b + pageSize) e'.sh) ?_ fun _ e ht =>
      (ih ht).mono fun _ e' ht => ?_
    · unfold unmapSlot
      refine after_tally' (uncounting_of_sparing (by simp)) ht fun va e ht => ?_
      exact after_tally' (uncounting_of_sparing (sparing_traceEvent rfl rfl)) ht fun _ e ht =>
        after_dropMapping ht
    · rw [List.length_cons, Nat.mul_succ, Nat.add_comm batch.length,
        Nat.add_comm (pageSize * batch.length)]
      rwa [← Nat.add_assoc, ← Nat.add_assoc]

private theorem after_moveSlots (batch : List Slot)
    (ht : Tally h u (d + batch.length) (b + pageSize * batch.length) e.sh) :
    After (Prog.each moveSlot batch) e fun _ e' => Tally h u d b e'.sh := by
  induction batch generalizing e with
  | nil => exact (after_pure _ _ _).mpr ht
  | cons y batch ih =>
    refine after_then (R := fun _ e' =>
      Tally h u (d + batch.length) (b + pageSize * batch.length) e'.sh) ?_ fun _ e ht => ih ht
    rw [List.length_cons, Nat.mul_succ, ← Nat.add_assoc, ← Nat.add_assoc] at ht
    unfold moveSlot
    refine after_setStats fun e₁ he => ?_
    have ht₁ := he ▸ ht.countDown
    refine after_tally' (uncounting_of_sparing (by simp)) ht₁ fun f e ht => ?_
    refine after_tally' (uncounting_setPage _ _) ht fun _ e ht =>
      after_tally' (uncounting_setPage _ _) ht fun _ e ht => ?_
    exact (after_modify _ _ _).mpr ht.countBytes

theorem after_tallyVector (ht : Tally h u d b e.sh) :
    After lrudiskEvictionworkerVector e fun _ e' => Tally h u d b e'.sh := by
  have hbatch (batch : List Slot) (e : Env) (ht : Tally h u d b e.sh) :
      After (extmemMigrateDowndiskVector batch) e fun _ e' => Tally h u d b e'.sh := by
    unfold extmemMigrateDowndiskVector
    refine after_tally' (uncounting_of_sparing (sparing_traceEvent rfl rfl)) ht fun _ e ht => ?_
    refine after_tally' (uncounting_of_sparing (always_collect (within_prepareSlot claiming_spared
      (fun e _ _ => .record e rfl rfl) (within_initOnce transferring_spared _)
      fun sqe _ => within_prep transferring_spared _ sqe))) ht fun written e ht => ?_
    refine after_tally' (uncounting_of_sparing (within_submit transferring_spared _)) ht
      fun _ e ht => ?_
    refine after_tally' (always_each fun _ => uncounting_of_sparing
      (within_wait transferring_spared _)) ht
      fun _ e ht => ?_
    refine after_then (after_unmapSlots batch ht) fun _ e ht =>
      after_then (after_moveSlots batch ht) fun _ e ht => ?_
    exact after_uncounting (uncounting_of_sparing (within_markAll relinking_spared batch)) ht
  unfold lrudiskEvictionworkerVector
  refine after_tally' (uncounting_of_sparing (within_takeVictims linking_spared (by decide) _)) ht
    fun victims e ht => ?_
  refine (after_ite _ _ _ _).mpr ⟨fun _ => (after_pure _ _ _).mpr ht, fun _ => ?_⟩
  refine after_tally' (uncounting_of_sparing (always_collect
    (within_prepareVictim claiming_spared fun e _ _ => .record e rfl rfl))) ht
    fun prepared e ht => ?_
  refine after_tally' (uncounting_of_sparing (always_collect
    (within_findDiskpage linking_spared))) ht
    fun batch e ht => ?_
  exact after_then (hbatch batch e ht) fun _ e ht =>
    after_uncounting (uncounting_of_sparing (always_each (within_finishSlot relinking_spared))) ht

end ExtMem
