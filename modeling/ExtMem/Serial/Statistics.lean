import ExtMem.Serial.Live
import ExtMem.Serial.OutOfMemory

/-! The statistics over runs of one operation at a time. They are exact as long as a mapping
replaces what was live, munmap finds its pages tracked and no page is prefetched. -/
namespace ExtMem
open Threads Threads.Prog

variable {n : Nat} {frames : List Frame} {e e' : Env} {s s' : Shared} {dramsize disksize : Nat}

/-- The counters say what is mapped, what is tracked and how many pages have been moved. -/
structure StatsExact (s : Shared) : Prop where
  allocated : s.stats.memAllocated = pageSize * tracked s.pages
  pages : sub64 s.stats.pagesAllocated s.stats.pagesFreed = tracked s.pages
  mmaped : s.stats.memMmaped = pageSize * live s.vma
  up : s.stats.migrationsUp = demands s.log + prefetches s.log
  down : s.stats.migrationsDown = evictions s.log
  bytes : s.stats.bytesMigrated = pageSize * (s.stats.migrationsUp + s.stats.migrationsDown)

/-! Operations as data. -/

/-- What a thread can ask for. -/
inductive Call where
  | load (addr : Nat)
  | store (addr : Nat) (byte : UInt8)
  | prefetch (base : Nat)
  | kswapd
  | shrinkActive (nrPages : Nat)
  | shrinkInactive (nrPages : Nat)
  | evictionworker
  | evictionworkerVector
  | mmap (addr length : Nat) (flags : BitVec 32)
  | munmap (addr length : Nat)

namespace Call

def program : Call → Paging Unit
  | load addr => do let _ ← userLoad addr; pure ()
  | store addr byte => userStore addr byte
  | prefetch base => do let _ ← coreTryPrefetch base; pure ()
  | kswapd => lrudiskSynchkswapd
  | shrinkActive nrPages => do let _ ← shrinkActiveList nrPages; pure ()
  | shrinkInactive nrPages => do let _ ← shrinkInactiveList nrPages; pure ()
  | evictionworker => lrudiskEvictionworker
  | evictionworkerVector => lrudiskEvictionworkerVector
  | mmap addr length flags => do let _ ← mmapFilter addr length flags; pure ()
  | munmap addr length => do let _ ← munmapFilter addr length; pure ()

theorem operation (call : Call) : Operation call.program := by
  cases call with
  | load addr => exact .load addr
  | store addr byte => exact .store addr byte
  | prefetch base => exact .prefetch base
  | kswapd => exact .kswapd
  | shrinkActive nrPages => exact .shrinkActive nrPages
  | shrinkInactive nrPages => exact .shrinkInactive nrPages
  | evictionworker => exact .evictionworker
  | evictionworkerVector => exact .evictionworkerVector
  | mmap addr length flags => exact .mmap addr length flags
  | munmap addr length => exact .munmap addr length

/-- The operations are the programs of the calls. -/
theorem of_operation {p : Paging Unit} (h : Operation p) : ∃ call : Call, call.program = p := by
  cases h with
  | load addr => exact ⟨.load addr, rfl⟩
  | store addr byte => exact ⟨.store addr byte, rfl⟩
  | prefetch base => exact ⟨.prefetch base, rfl⟩
  | kswapd => exact ⟨.kswapd, rfl⟩
  | shrinkActive nrPages => exact ⟨.shrinkActive nrPages, rfl⟩
  | shrinkInactive nrPages => exact ⟨.shrinkInactive nrPages, rfl⟩
  | evictionworker => exact ⟨.evictionworker, rfl⟩
  | evictionworkerVector => exact ⟨.evictionworkerVector, rfl⟩
  | mmap addr length flags => exact ⟨.mmap addr length flags, rfl⟩
  | munmap addr length => exact ⟨.munmap addr length, rfl⟩

/-- The calls of mmap that the pager serves itself. -/
def Served (length : Nat) (flags : BitVec 32) (e : Env) : Prop :=
  hasFlag flags mapAnonymous = true ∧ hasFlag flags mapStack = false ∧ e.loc.internalCall = false ∧
    e.sh.isInit = true ∧ minMmapLength ≤ length

/-- A mapping is made where all that is live is replaced by it, and munmap is called where all
that is live in its range is tracked. -/
def Accounted (e : Env) : Call → Prop
  | mmap addr length flags => Served length flags e →
      ∀ a ∈ liveSet e.sh.vma, hasFlag flags mapFixed = true ∧
        inRange addr (pageRoundUp length) a = true
  | munmap addr length => e.loc.internalCall = false →
      ∀ a ∈ liveSet e.sh.vma, inRange addr (roundLength length) a = true → e.sh.pages a ≠ none
  | _ => True

end Call

/-- There are fewer descriptors than 2^40. -/
private theorem Launched.initTotal_lt (h : Launched dramsize disksize e) :
    initTotal dramsize disksize < 2 ^ 40 := by
  obtain ⟨h₁, h₂⟩ := h.fits
  unfold initTotal
  omega

/-! The state between operations. -/

/-- All counters are right, that of the mapped bytes for what is live below the end of the
address space. -/
structure Balanced (n : Nat) (frames : List Frame) (s : Shared) : Prop where
  audited : Audited n frames (pageSize * live s.vma) s
  bounded : ∀ a ∈ liveSet s.vma, a < taskSize

namespace Balanced

private theorem liveSet_subset (h : ∀ a ∈ liveSet s.vma, a < taskSize) :
    liveSet s.vma ⊆ pagesFrom 0 (taskSize / pageSize) := by
  intro a ha
  obtain ⟨hal, hlive⟩ := ha
  have hlt := h a ⟨hal, hlive⟩
  refine ⟨a / pageSize, ?_, ?_⟩
  · simp only [show pageSize = 4096 from rfl, show taskSize = 140737488351232 from rfl] at *
    omega
  · simp only [show pageSize = 4096 from rfl] at *
    omega

theorem finite (h : Balanced n frames s) : (liveSet s.vma).Finite :=
  (finite_pagesFrom _ _).subset (liveSet_subset h.bounded)

theorem fits (h : Balanced n frames s) : pageSize * live s.vma < 2 ^ 64 := by
  have hle := Set.ncard_le_ncard (liveSet_subset h.bounded) (finite_pagesFrom _ _)
  rw [ncard_pagesFrom] at hle
  unfold live
  simp only [show pageSize = 4096 from rfl, show taskSize = 140737488351232 from rfl] at *
  omega

theorem trackedSet_subset (h : Balanced n frames s) : trackedSet s.pages ⊆ liveSet s.vma := by
  intro a ha
  obtain ⟨d, hd⟩ := Option.ne_none_iff_exists'.mp ha.2
  exact ⟨h.audited.settled.aligned ha.1 hd, h.audited.settled.mapped a d ha.1 hd⟩

/-- What leaves the mappings alone and keeps the books right. -/
theorem of_vma (h : Balanced n frames s) (ha : Audited n frames (pageSize * live s.vma) s')
    (hv : s'.vma = s.vma) : Balanced n frames s' := by
  refine ⟨?_, ?_⟩
  · rw [hv]
    exact ha
  · rw [hv]
    exact h.bounded

theorem after_rested (h : Balanced n frames e.sh) {p : Paging Unit}
    (ht : After p e fun _ e' => Tally e.sh.stats.held 0 0 0 e'.sh)
    (hr : After p e fun _ => Rested n frames (fun _ => none) e.sh.skeleton) :
    After p e fun _ e' => Balanced n frames e'.sh := by
  have hl := hr.mono fun _ e' hr => Leads.of_rested (o := none) h.audited.settled hr
  exact ((h.audited.of_leads ht hl).and hl).mono fun _ e' ⟨ha, hl⟩ => h.of_vma ha hl.2.vma

/-- A mapping that replaces all that is live. -/
theorem after_mmapFilter {addr length : Nat} {flags : BitVec 32} (hn : n < 2 ^ 40)
    (h : Balanced n frames e.sh) (hc : (Call.mmap addr length flags).Accounted e) :
    After (mmapFilter addr length flags) e fun _ e' => Balanced n frames e'.sh := by
  have hend : After (extmemMmap addr length flags) e _ :=
    (after_extmemMmap rfl h.audited.settled).and (audited_extmemMmap hn h.audited)
  have hno : After (pure none : Paging (Option Nat)) e fun _ e' =>
      Balanced n frames e'.sh := (after_pure _ _ _).mpr h
  unfold mmapFilter
  refine (after_ite _ _ _ _).mpr
    ⟨fun _ => hno, fun h₁ => (after_ite _ _ _ _).mpr ⟨fun _ => hno, fun h₂ => ?_⟩⟩
  refine (after_bind _ _ _ _).mpr
    ((after_read _ _ _).mpr ((after_ite _ _ _ _).mpr ⟨fun _ => hno, fun h₃ => ?_⟩))
  refine (after_bind _ _ _ _).mpr
    ((after_read _ _ _).mpr ((after_ite _ _ _ _).mpr ⟨fun _ => hno, fun h₄ => ?_⟩))
  refine (after_ite _ _ _ _).mpr ⟨fun _ => hno, fun h₅ => ?_⟩
  have hc := hc ⟨Bool.eq_true_of_not_eq_false h₁, Bool.eq_false_of_not_eq_true h₂,
    Bool.eq_false_of_not_eq_true h₃, Bool.eq_true_of_not_eq_false h₄, Nat.le_of_not_lt h₅⟩
  refine after_then hend fun p e' ⟨⟨hm, _⟩, ha⟩ => (after_pure _ _ _).mpr ?_
  have hset : liveSet e'.sh.vma = pagesFrom p (pageRoundUp length / pageSize) := by
    rw [show e'.sh.vma = _ from hm.vma]
    refine live_remap (fun a ha => ?_) hm.placed.aligned (pageRoundUp_mod length)
    obtain ⟨hfix, hin⟩ := hc a ha
    rw [hm.placed.fixed hfix]
    exact hin
  refine ⟨?_, fun a ha => ?_⟩
  · have hlive : pageSize * live e'.sh.vma = pageRoundUp length := by
      unfold live
      rw [hset, ncard_pagesFrom]
      exact Nat.mul_div_cancel' (Nat.dvd_of_mod_eq_zero (pageRoundUp_mod length))
    rw [hlive]
    exact ha
  · rw [hset, mem_pagesFrom_iff hm.placed.aligned (pageRoundUp_mod length)] at ha
    have hin := ha.2
    simp only [inRange, Bool.and_eq_true, decide_eq_true_eq] at hin
    exact Nat.lt_of_lt_of_le hin.2 hm.placed.bounded

/-- The unmapping of a range in which all that is live is tracked. -/
theorem after_munmapFilter {addr length : Nat} (h : Balanced n frames e.sh)
    (hc : (Call.munmap addr length).Accounted e) :
    After (munmapFilter addr length) e fun _ e' => Balanced n frames e'.sh := by
  have hle : tracked e.sh.pages ≤ live e.sh.vma := Set.ncard_le_ncard h.trackedSet_subset h.finite
  have hend : After (extmemMunmap addr length) e _ :=
    audited_extmemMunmap (Nat.mul_le_mul_left pageSize hle) h.fits h.audited
  unfold munmapFilter
  refine (after_bind _ _ _ _).mpr
    ((after_read _ _ _).mpr ((after_ite _ _ _ _).mpr ⟨fun _ => ?_, fun hi => ?_⟩))
  · exact (after_pure _ _ _).mpr h
  have hc := hc (Bool.eq_false_of_not_eq_true hi)
  refine after_then hend fun _ e' ⟨hu, hless, ha⟩ => (after_pure _ _ _).mpr ?_
  have hsets := sets_unmapped hu h.audited.settled
  have hlive : liveSet e'.sh.vma = liveSet e.sh.vma \ unmapSet addr length := hsets.1
  have htracked : trackedSet e'.sh.pages = trackedSet e.sh.pages \ unmapSet addr length := hsets.2
  have hsame :
      liveSet e.sh.vma ∩ unmapSet addr length = trackedSet e.sh.pages ∩ unmapSet addr length := by
    ext a
    constructor
    · rintro ⟨ha, hr⟩
      obtain ⟨hin, hne⟩ := inRange_of_unmapSet hu hr
      exact ⟨⟨hne, hc a ha hin⟩, hr⟩
    · rintro ⟨ha, hr⟩
      exact ⟨h.trackedSet_subset ha, hr⟩
  refine ⟨?_, fun a ha => ?_⟩
  · have h₁ :=
      Set.ncard_inter_add_ncard_sdiff_eq_ncard (liveSet e.sh.vma) (unmapSet addr length) h.finite
    have h₂ := Set.ncard_inter_add_ncard_sdiff_eq_ncard (trackedSet e.sh.pages)
      (unmapSet addr length) (finite_trackedSet h.audited.settled)
    rw [← hlive, hsame] at h₁
    rw [← htracked] at h₂
    have heq : pageSize * live e.sh.vma - pageSize * (tracked e.sh.pages - tracked e'.sh.pages) =
        pageSize * live e'.sh.vma := by
      rw [← Nat.mul_sub]
      unfold live tracked
      congr 1
      omega
    rw [← heq]
    exact ha
  · rw [hlive] at ha
    exact h.bounded a ha.1

/-- An operation for which the counters have been made keeps them right. -/
theorem after_call (hn : n < 2 ^ 40) (h : Balanced n frames e.sh) {call : Call}
    (hc : call.Accounted e) : After call.program e fun _ e' => Balanced n frames e'.sh := by
  have hset := h.audited.settled
  have ht := h.audited.tally
  cases call with
  | load addr =>
    refine after_then
      ((audited_access hn (uncounting_loadByte addr) (still_loadByte addr) h.audited).and
      (after_access (still_loadByte addr) rfl hset)) fun _ e' ⟨ha, hl⟩ => (after_pure _ _ _).mpr ?_
    exact h.of_vma ha hl.2.vma
  | store addr byte =>
    refine ((audited_access hn (uncounting_storeByte addr byte) (still_storeByte addr byte)
      h.audited).and (after_access (still_storeByte addr byte) rfl hset)).mono fun _ e' ⟨ha, hl⟩ =>
      ?_
    exact h.of_vma ha hl.2.vma
  | prefetch base =>
    refine h.after_rested ?_ ?_
    · exact after_then (tally_coreTryPrefetch rfl hset.whole ht) fun _ e' ht =>
        (after_pure _ _ _).mpr ht
    · exact after_then (after_coreTryPrefetch rfl hset.whole) fun _ e' hr =>
        (after_pure _ _ _).mpr hr
  | kswapd =>
    exact h.after_rested (after_uncounting uncounting_lrudiskSynchkswapd ht)
      (after_lrudiskSynchkswapd rfl hset.whole)
  | shrinkActive nrPages =>
    have ht' : After (shrinkActiveList nrPages) e _ :=
      after_uncounting (uncounting_of_sparing (by simp)) ht
    exact h.after_rested (after_then ht' fun _ e' ht => (after_pure _ _ _).mpr ht)
      (after_then (rested_shrinkActiveList hset.whole) fun _ e' hr => (after_pure _ _ _).mpr hr)
  | shrinkInactive nrPages =>
    have ht' : After (shrinkInactiveList nrPages) e _ :=
      after_uncounting (uncounting_of_sparing (by simp)) ht
    exact h.after_rested (after_then ht' fun _ e' ht => (after_pure _ _ _).mpr ht)
      (after_then (rested_shrinkInactiveList hset.whole) fun _ e' hr => (after_pure _ _ _).mpr hr)
  | evictionworker =>
    exact h.after_rested (tally_lrudiskEvictionworker rfl hset.whole ht)
      (rested_lrudiskEvictionworker hset)
  | evictionworkerVector =>
    exact h.after_rested (after_tallyVector ht) (rested_lrudiskEvictionworkerVector hset)
  | mmap addr length flags =>
    exact after_then (h.after_mmapFilter hn hc) fun _ e' h => (after_pure _ _ _).mpr h
  | munmap addr length =>
    exact after_then (h.after_munmapFilter hc) fun _ e' h => (after_pure _ _ _).mpr h

/-- Between operations the counters are exact if nothing was prefetched and they cannot have
wrapped. -/
theorem exact (hn : n < 2 ^ 40) (h : Balanced n frames s) (hp : prefetches s.log = 0)
    (hfit : pageSize * (demands s.log + evictions s.log) < 2 ^ 64) : StatsExact s := by
  have htracked := tracked_le h.audited.settled
  rw [show s.skeleton.pages = s.pages from rfl] at htracked
  obtain ⟨-, hup, hdown, hbytes, hs₁, hs₂, hs₃⟩ := h.audited.tally
  have hps : pageSize = 4096 := rfl
  have hup' : s.stats.migrationsUp = demands s.log := by
    rw [hps] at hfit
    omega
  have hdown' : s.stats.migrationsDown = evictions s.log := by
    rw [hps] at hfit
    omega
  refine ⟨h.audited.allocated, ?_, h.audited.mmaped, ?_, hdown', ?_⟩
  · rw [h.audited.pages, sub64]
    omega
  · rw [hp, hup', Nat.add_zero]
  · rw [hup', hdown']
    rwa [Nat.add_zero, Nat.mod_eq_of_lt hs₃, Nat.mod_eq_of_lt hfit] at hbytes

end Balanced

/-! The start of a process. -/

theorem Founded.uncounted (h : Founded e e') : Uncounted e e' := by
  rcases h.log with hl | ⟨q, d, hl⟩
  · exact .of_eq h.stats hl
  · exact .of_record _ (.enqueued q d) h.stats hl rfl rfl

theorem uncounting_extmemInit : Always Uncounting extmemInit :=
  within_mono founding_extmemInit fun _ _ => Founded.uncounted

theorem Launched.liveSet (h : Launched dramsize disksize e) : liveSet e.sh.vma = ∅ := by
  have hk : e.sh.vma = (initSkeleton dramsize disksize).vma := (congrArg Skeleton.vma h.skeleton :)
  have hvma : e.sh.vma = fun _ => .none := by
    rw [hk]
    exact (Skeleton.fill_frame _ _ _ _ _).2.1.trans (Skeleton.fill_frame _ _ _ _ _).2.1
  refine Set.eq_empty_of_forall_notMem fun a ha => ?_
  have hlive := ha.2
  rw [hvma] at hlive
  cases hlive

/-- When the pager is initialised, all counters are zero and nothing is mapped. -/
theorem Launched.balanced (h : Launched dramsize disksize e) :
    Balanced (initTotal dramsize disksize) (initFrames dramsize disksize) e.sh := by
  obtain ⟨faulty, spurious, disk, hrun⟩ := h.init
  have hboot : Tally (0, 0, 0, 0) 0 0 0 (Shared.boot dramsize disksize faulty spurious disk) :=
    ⟨rfl, rfl, rfl, rfl, Nat.two_pow_pos 64, Nat.two_pow_pos 64, Nat.two_pow_pos 64⟩
  have ht : Tally (0, 0, 0, 0) 0 0 0 e.sh := after_uncounting uncounting_extmemInit hboot () e hrun
  have hheld := ht.held
  simp only [Stats.held, Prod.mk.injEq] at hheld
  have hpages : e.sh.pages = Function.update (fun _ => none) 0
      (some (initTotal dramsize disksize)) := (congrArg Skeleton.pages h.skeleton :)
  have htracked : tracked e.sh.pages = 0 := by
    have hset : trackedSet e.sh.pages = ∅ := by
      refine Set.eq_empty_of_forall_notMem fun a ha => ha.2 ?_
      rw [hpages, Function.update_of_ne ha.1]
    unfold tracked
    rw [hset, Set.ncard_empty]
  have hlive : live e.sh.vma = 0 := by
    unfold live
    rw [h.liveSet, Set.ncard_empty]
  refine ⟨⟨?_, ht.held.symm ▸ ht, ?_, ?_, ?_⟩, fun a ha => ?_⟩
  · rw [h.skeleton]
    exact settled_initSkeleton h.dram h.disk
  · rw [hheld.1, hlive, Nat.mul_zero]
  · rw [hheld.2.1, htracked, Nat.mul_zero]
  · rw [hheld.2.2.1, hheld.2.2.2, htracked]
    rfl
  · rw [h.liveSet] at ha
    exact ha.elim

/-- No page has been moved by then. -/
theorem Launched.unmoved (h : Launched dramsize disksize e) :
    demands e.sh.log = 0 ∧ prefetches e.sh.log = 0 ∧ evictions e.sh.log = 0 := by
  have hcounts : demands e.sh.log = 0 ∧ evictions e.sh.log = 0 := by
    obtain ⟨faulty, spurious, disk, hrun⟩ := h.init
    refine uncounting_extmemInit.runs (I := fun e => demands e.sh.log = 0 ∧ evictions e.sh.log = 0)
      (fun β f hf s b s' hs he => ?_) hrun ⟨rfl, rfl⟩
    rw [(hf.ok he).demands, (hf.ok he).evictions]
    exact hs
  refine ⟨hcounts.1, List.countP_eq_zero.mpr fun x hx => ?_, hcounts.2⟩
  have hplain := h.initial.log x hx
  obtain ⟨t, ev⟩ := x
  cases ev with
  | copied va src => cases hplain
  | _ => exact Bool.false_ne_true

/-! Runs. -/

/-- The states between the operations of a run in which one operation ends before the next one
starts. Each meets its condition, no page is copied in from a slot of the prefetch buffer and
less than 2^64 bytes are moved. -/
inductive Session (dramsize disksize : Nat) : System → Prop where
  | start {e : Env} : Launched dramsize disksize e → Session dramsize disksize (System.start e)
  | next {c : System} {t : Tid} {call : Call} {e : Env} : Session dramsize disksize c →
      Runs call.program ⟨c.sh, c.loc t⟩ () e → call.Accounted ⟨c.sh, c.loc t⟩ →
      prefetches e.sh.log = prefetches c.sh.log →
        pageSize * (demands e.sh.log + evictions e.sh.log) < 2 ^ 64 →
      Session dramsize disksize ⟨e.sh, Function.update c.loc t e.loc, c.thr⟩

namespace Session

/-- These are runs of the pager. -/
theorem paused {c : System} (h : Session dramsize disksize c) : Paused dramsize disksize c := by
  induction h with
  | @start e h => exact ⟨⟨e, h, .init⟩, fun _ => rfl⟩
  | @next c t call e _ hr _ _ _ ih =>
    obtain ⟨⟨e₀, he₀, hreach⟩, hquiet⟩ := ih
    exact ⟨⟨e₀, he₀, hreach.runs hquiet call.operation hr⟩, hquiet⟩

/-- Its sizes are those of a process that was launched. -/
theorem initTotal_lt {c : System} (h : Session dramsize disksize c) :
    initTotal dramsize disksize < 2 ^ 40 := by
  induction h with
  | start h => exact h.initTotal_lt
  | next _ _ _ _ _ ih => exact ih

theorem balanced {c : System} (h : Session dramsize disksize c) :
    Balanced (initTotal dramsize disksize) (initFrames dramsize disksize) c.sh := by
  induction h with
  | start h => exact h.balanced
  | @next c t call e h hr hc _ _ ih => exact ih.after_call h.initTotal_lt hc () e hr

theorem unprefetched {c : System} (h : Session dramsize disksize c) : prefetches c.sh.log = 0 := by
  induction h with
  | start h => exact h.unmoved.2.1
  | next _ _ _ hp _ ih => exact hp.trans ih

end Session

/-- The statistics are exact after every operation of such a run. -/
theorem session_exact {c : System} (h : Session dramsize disksize c) : StatsExact c.sh := by
  refine h.balanced.exact h.initTotal_lt h.unprefetched ?_
  cases h with
  | @start e h =>
    obtain ⟨hd, -, he⟩ := h.unmoved
    show pageSize * (demands e.sh.log + evictions e.sh.log) < 2 ^ 64
    rw [hd, he]
    exact Nat.two_pow_pos 64
  | next _ _ _ _ hfit => exact hfit

/-! A run that keeps the statistics exact, and one with a prefetch. -/

private theorem Session.follow (h : Session dramsize disksize (System.start e)) (bound : Nat)
    (call : Call) (hends : (exec bound [] call.program e).isSome = true) (hc : call.Accounted e)
    (hp : prefetches (e.after bound [] call.program).sh.log = prefetches e.sh.log)
    (hfit : pageSize * (demands (e.after bound [] call.program).sh.log +
      evictions (e.after bound [] call.program).sh.log) < 2 ^ 64) :
    Session dramsize disksize (System.start (e.after bound [] call.program)) := by
  have hloc : (System.start e).loc 0 = e.loc := by simp [System.start, System.idle]
  have henv : (⟨(System.start e).sh, (System.start e).loc 0⟩ : Env) = e := by
    rw [hloc]
    rfl
  have hrun : Runs call.program ⟨(System.start e).sh, (System.start e).loc 0⟩ ()
      (e.after bound [] call.program) := by
    rw [henv]
    exact runs_after hends
  have hnext := h.next (t := 0) hrun (by rw [henv]; exact hc) hp hfit
  have hup : Function.update (System.start e).loc 0 (e.after bound [] call.program).loc =
      Function.update Local.fresh 0 (e.after bound [] call.program).loc := by
    simp [System.start, System.idle]
  rw [hup] at hnext
  exact hnext

/-- The roomy machine when the program has mapped memory. -/
def mappedMachine : Env := roomyMachine.after 300 [] mapStep.2.2

def Threads.Ctx.loads (e : Env) (pages : List Nat) : Env :=
  pages.foldl (fun e i => e.after 3000 [] (loadStep i).2.2) e

/-- Loads that keep to the conditions. -/
private def Plainly : Env → List Nat → Prop
  | _, [] => True
  | e, i :: l => (exec 3000 [] (loadStep i).2.2 e).isSome = true ∧
      prefetches (e.loads [i]).sh.log = prefetches e.sh.log ∧
      pageSize * (demands (e.loads [i]).sh.log + evictions (e.loads [i]).sh.log) < 2 ^ 64 ∧
        Plainly (e.loads [i]) l

private theorem Session.loads (l : List Nat) {e : Env}
    (h : Session dramsize disksize (System.start e)) (hl : Plainly e l) :
    Session dramsize disksize (System.start (e.loads l)) := by
  induction l generalizing e with
  | nil => exact h
  | cons i l ih =>
    obtain ⟨hends, hp, hfit, hl⟩ := hl
    exact ih (h.follow 3000 (.load (smallBase + i * pageSize)) hends trivial hp hfit) hl

private theorem session_mappedMachine :
    Session (2 * pageSize) (8 * pageSize) (System.start mappedMachine) := by
  refine (Session.start launched_roomyMachine).follow 300 (.mmap smallBase minMmapLength _) ?_
    (fun _ a ha => ?_) ?_ ?_
  · decide +kernel
  · rw [launched_roomyMachine.liveSet] at ha
    exact ha.elim
  · decide +kernel
  · decide +kernel

/-- A page is evicted for a third one and comes back for a fault. -/
theorem session_exact_mappedMachine :
    StatsExact (System.start (mappedMachine.loads [0, 1, 2, 0])).sh := by
  refine session_exact (session_mappedMachine.loads [0, 1, 2, 0] ?_)
  refine ⟨?_, ?_, ?_, ?_, ?_, ?_, ?_, ?_, ?_, ?_, ?_, ?_, trivial⟩ <;> decide +kernel

/-- The third of three faults on consecutive pages brings in the fourth page as well, and
migrations_up does not count it. -/
theorem prefetched_uncounted : ∃ c, Paused (2 * pageSize) (8 * pageSize) c ∧ ¬ StatsExact c.sh := by
  have hends : roomyMachine.ends [mapStep, loadStep 0, loadStep 1, loadStep 2, loadStep 3,
      loadStep 0, loadStep 1, loadStep 2] = true := by decide +kernel
  have hreach : Conf.Reach Operation Conf.serial (System.start roomyMachine)
      (System.start (roomyMachine.story [mapStep, loadStep 0, loadStep 1, loadStep 2, loadStep 3,
      loadStep 0, loadStep 1, loadStep 2])) := by
    refine reach_story _ .init ?_ hends
    simp only [List.forall_mem_cons]
    exact ⟨operation_mapStep, operation_loadStep 0, operation_loadStep 1, operation_loadStep 2,
      operation_loadStep 3, operation_loadStep 0, operation_loadStep 1, operation_loadStep 2,
      by simp⟩
  refine ⟨_, ⟨⟨roomyMachine, launched_roomyMachine, hreach⟩, fun _ => rfl⟩, fun h => absurd h.up ?_⟩
  decide +kernel

end ExtMem
