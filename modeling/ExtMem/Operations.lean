import ExtMem.Plain
import ExtMem.Threads.Schedule

/-! What the threads of a process do: the operations they may start, the state before
the first of them, and a small machine on which runs can be computed. -/
namespace ExtMem
open Threads Threads.Prog

/-- The operations of application threads, of the background workers and of the program's
own calls, each with its result dropped. -/
inductive Operation : Paging Unit → Prop where
  | load (addr : Nat) : Operation (do let _ ← userLoad addr; pure ())
  | store (addr : Nat) (byte : UInt8) : Operation (userStore addr byte)
  | prefetch (base : Nat) : Operation (do let _ ← coreTryPrefetch base; pure ())
  | kswapd : Operation lrudiskSynchkswapd
  | shrinkActive (nrPages : Nat) : Operation (do let _ ← shrinkActiveList nrPages; pure ())
  | shrinkInactive (nrPages : Nat) : Operation (do let _ ← shrinkInactiveList nrPages; pure ())
  | evictionworker : Operation lrudiskEvictionworker
  | evictionworkerVector : Operation lrudiskEvictionworkerVector
  | mmap (addr length : Nat) (flags : BitVec 32) :
      Operation (do let _ ← mmapFilter addr length flags; pure ())
  | munmap (addr length : Nat) : Operation (do let _ ← munmapFilter addr length; pure ())

abbrev System := Conf Abort Shared Local Tid

/-- No thread has started an operation, no ring holds a request and nothing was traced but
what the initialisation does. -/
structure Initial (c : System) : Prop where
  quiet : c.Quiet
  tid : ∀ t, (c.loc t).tid = t
  rings : ∀ t r, ((c.loc t).ring r).sq = [] ∧ ((c.loc t).ring r).outstanding = []
  log : ∀ x ∈ c.sh.log, x.2.plain = true

/-- The rule that lets every step be taken. -/
def anyStep (_ : Tid) (_ : System) (_ : Shared) : Prop := True

/-! A small machine. -/

/-- The shared state at the start of a process, with a disk that holds anything, whose kernel may
set bits by itself or fail transfers. -/
def Shared.boot (dramsize disksize : Nat) (faulty spurious : Bool)
    (disk : Nat → Bytes) : Shared where
  dramsize := dramsize
  disksize := disksize
  isInit := false
  page _ := .zero
  nextPage := 0
  fifos := .empty
  pages _ := none
  allocatorLock := false
  shrinkageRunning := false
  kswapdRunning := false
  prevFaultGlobal1 := 0
  prevFaultGlobal2 := 0
  mainMmap := 0
  stats := ⟨0, 0, 0, 0, 0, 0, 0, 0, 0, 0⟩
  vma _ := .none
  pte _ := none
  disk := disk
  spurious := spurious
  faulty := faulty
  log := []

/-- The variables of a thread that has done nothing yet. -/
def Local.fresh (t : Tid) : Local where
  tid := t
  internalCall := false
  bufferAllocated := false
  bufferSpace _ := 0
  prefetchBufferAllocated := false
  prefetchBuffer _ := fun _ => 0
  prevFault1 := 0
  prevFault2 := 0
  ring _ := ⟨false, [], []⟩
  examining := []
  working := []
  exchange := []

/-- The configuration of threads that all are done. -/
def System.idle (s : Shared) (ls : Tid → Local) : System := ⟨s, ls, fun _ => .ret ()⟩

/-- The state that a bounded run of the first thread leads to; the state itself where the
bound is too small or the run does not end. -/
def Threads.Ctx.after (e : Env) (n : Nat) (answers : List Nat) (p : Paging Unit) : Env :=
  match exec n answers p e with
  | some (_, e') => e'
  | none => e

theorem runs_after {e : Env} {n : Nat} {answers : List Nat} {p : Paging Unit}
    (h : (exec n answers p e).isSome = true) : Runs p e () (e.after n answers p) := by
  obtain ⟨⟨u, e'⟩, he⟩ := Option.isSome_iff_exists.mp h
  rw [Threads.Ctx.after, he]
  exact exec_runs he

def blankDisk (_ : Nat) : Bytes := fun _ => 0

/-- A machine of some pages of DRAM and of a blank disk that the first thread has initialised. -/
def booted (dramsize disksize : Nat) (faulty : Bool) : Env :=
  Threads.Ctx.after ⟨.boot dramsize disksize faulty false blankDisk, .fresh 0⟩ 200 [] extmemInit

/-- The threads of that machine; all but the first are new. -/
def System.start (e : Env) : System := System.idle e.sh (Function.update Local.fresh 0 e.loc)

theorem initial_start {e : Env} (ht : e.loc.tid = 0)
    (hr : ∀ r, (e.loc.ring r).sq = [] ∧ (e.loc.ring r).outstanding = [])
    (hl : ∀ x ∈ e.sh.log, x.2.plain = true) : Initial (System.start e) := by
  refine ⟨fun _ => rfl, fun t => ?_, fun t r => ?_, hl⟩
  · by_cases h : t = 0
    · subst h
      exact ht
    · show (Function.update Local.fresh 0 e.loc t).tid = t
      rw [Function.update_of_ne h]
      rfl
  · by_cases h : t = 0
    · subst h
      exact hr r
    · show ((Function.update Local.fresh 0 e.loc t).ring r).sq = [] ∧ _
      simp only [System.start, System.idle, Function.update_of_ne h]
      exact ⟨rfl, rfl⟩

/-- Operations of the first thread, one after the other, each with its bound and its answers. -/
def Threads.Ctx.story : Env → List (Nat × List Nat × Paging Unit) → Env
  | e, [] => e
  | e, (n, answers, p) :: l => Threads.Ctx.story (e.after n answers p) l

/-- All operations of a story end within their bounds. -/
def Threads.Ctx.ends : Env → List (Nat × List Nat × Paging Unit) → Bool
  | _, [] => true
  | e, (n, answers, p) :: l =>
    (exec n answers p e).isSome && Threads.Ctx.ends (e.after n answers p) l

/-- What the first thread does alone on the small machine is a run of the system. -/
theorem reach_story {ops : Paging Unit → Prop} {c₀ : System}
    (l : List (Nat × List Nat × Paging Unit)) {e : Env}
    (h : Conf.Reach ops Conf.serial c₀ (System.start e)) (hops : ∀ x ∈ l, ops x.2.2)
    (hends : e.ends l = true) : Conf.Reach ops Conf.serial c₀ (System.start (e.story l)) := by
  induction l generalizing e with
  | nil => exact h
  | cons x l ih =>
    obtain ⟨n, answers, p⟩ := x
    rw [Threads.Ctx.ends, Bool.and_eq_true] at hends
    refine ih ?_ (fun y hy => hops y (List.mem_cons_of_mem _ hy)) hends.2
    have hloc : (System.start e).loc 0 = e.loc := by simp [System.start, System.idle]
    have hrun := runs_after hends.1
    have hstep := h.runs (t := (0 : Tid)) (fun _ => rfl) (hops _ List.mem_cons_self)
      (by rw [hloc]; exact hrun)
    have hup : Function.update (System.start e).loc 0 (e.after n answers p).loc =
        Function.update Local.fresh 0 (e.after n answers p).loc := by
      simp [System.start, System.idle]
    rw [hup] at hstep
    exact hstep

/-- An operation of a story as a turn of a thread, whose bound may end it in the middle. -/
def turnBy (t : Tid) (x : Nat × List Nat × Paging Unit) : Conf.Turn Abort Shared Local Tid :=
  ⟨t, some x.2.2, x.1, x.2.1⟩

/-- Some more steps of a thread. -/
def goOn (t : Tid) (n : Nat) : Conf.Turn Abort Shared Local Tid := ⟨t, none, n, []⟩

/-- A story whose steps are checked is a run that keeps to the rule. -/
theorem reach_turns {ops : Paging Unit → Prop} {R : Shared → Shared → Prop}
    {check : Env → Env → Bool} {e : Env} {c : System} {l : List (Nat × List Nat × Paging Unit)}
    (hcheck : ∀ e e', check e e' = true → R e.sh e'.sh) (hR : ∀ s, R s s)
    (hops : ∀ x ∈ l, ops x.2.2) (h : (System.start e).play check (l.map (turnBy 0)) = some c) :
    Conf.Reach ops (Conf.serialBy R) (System.start e) c := by
  refine Conf.Reach.playAlone (t := 0) hcheck hR (fun y hy => ?_) .init (fun _ _ => rfl) h
  obtain ⟨x, hx, rfl⟩ := List.mem_map.mp hy
  exact ⟨rfl, fun p hp => by cases hp; exact hops x hx⟩

/-- An abort of the first thread alone is reached by a run of the system. -/
theorem reach_abort {ops : Paging Unit → Prop} {c₀ : System}
    {e e' : Env} {p : Paging Unit} {why : Abort}
    (h : Conf.Reach ops Conf.serial c₀ (System.start e)) (hp : ops p) (ha : Aborts p e why e') :
    ∃ c, Conf.Reach ops Conf.serial c₀ c ∧ c.CanAbort 0 why ∧ c.sh = e'.sh := by
  have hloc : (System.start e).loc 0 = e.loc := by simp [System.start, System.idle]
  obtain ⟨c, hc, habort, hsh, -⟩ :=
    h.aborts (t := (0 : Tid)) (fun _ => rfl) hp (by rw [hloc]; exact ha)
  exact ⟨c, hc, habort, hsh⟩

/-! Two pages of DRAM and two of disk. -/

def smallMachine (faulty : Bool) : Env := booted (2 * pageSize) (2 * pageSize) faulty

/-- The first mapped page. -/
def smallBase : Nat := 16 * pageSize

/-- The program maps two gigabytes at a fixed place. -/
def mapStep : Nat × List Nat × Paging Unit :=
  (300, [], do
    let _ ← mmapFilter smallBase minMmapLength (mapAnonymous ||| mapFixed ||| mapPrivate)
    pure ())

/-- The program loads the first byte of the page with this number. -/
def loadStep (i : Nat) : Nat × List Nat × Paging Unit :=
  (3000, [], do let _ ← userLoad (smallBase + i * pageSize); pure ())

def storeStep (i : Nat) (byte : UInt8) : Nat × List Nat × Paging Unit :=
  (3000, [], userStore (smallBase + i * pageSize) byte)

/-- The program unmaps the page with this number. -/
def unmapStep (i : Nat) : Nat × List Nat × Paging Unit :=
  (3000, [], do let _ ← munmapFilter (smallBase + i * pageSize) pageSize; pure ())

/-- The inactive list is scanned for this many pages. -/
def shrinkStep (nrPages : Nat) : Nat × List Nat × Paging Unit :=
  (3000, [], do let _ ← shrinkInactiveList nrPages; pure ())

theorem operation_mapStep : Operation mapStep.2.2 := .mmap ..

theorem operation_loadStep (i : Nat) : Operation (loadStep i).2.2 := .load _

theorem operation_storeStep (i : Nat) (byte : UInt8) : Operation (storeStep i byte).2.2 := .store ..

theorem operation_unmapStep (i : Nat) : Operation (unmapStep i).2.2 := .munmap ..

theorem operation_shrinkStep (n : Nat) : Operation (shrinkStep n).2.2 := .shrinkInactive n

/-- A dirty page is evicted for a third one and comes back. -/
def evictingStory : List (Nat × List Nat × Paging Unit) :=
  [mapStep, storeStep 0 7, loadStep 1, loadStep 2, loadStep 0]

theorem operation_evictingStory : ∀ x ∈ evictingStory, Operation x.2.2 := by
  simp [evictingStory, operation_mapStep, operation_loadStep, operation_storeStep]

/-- The small machine then: the page is in memory and keeps a disk frame as its reserve, the second
one is swapped out. -/
def evictedMachine : Env := (smallMachine false).story evictingStory

/-- The small machine on a kernel that may set the bits of a page at any time. -/
def restlessMachine : Env :=
  Threads.Ctx.after ⟨.boot (2 * pageSize) (2 * pageSize) false true blankDisk, .fresh 0⟩ 200
    [] extmemInit

/-- Two pages are loaded from, which takes all of DRAM. -/
def fillingStory : List (Nat × List Nat × Paging Unit) := [mapStep, loadStep 0, loadStep 1]

def filledMachine : Env := (smallMachine false).story fillingStory

def crammedMachine : Env := restlessMachine.story fillingStory

theorem forall_ringName {p : RingName → Prop} (h₁ : p .ioRing) (h₂ : p .ioReadRing) (r : RingName) :
    p r := by
  cases r
  · exact h₁
  · exact h₂

theorem initial_smallMachine (faulty : Bool) : Initial (System.start (smallMachine faulty)) := by
  refine initial_start ?_ (forall_ringName ?_ ?_) ?_ <;> cases faulty <;> decide +kernel

end ExtMem
