import ExtMem.Serial.Conserved
import ExtMem.Serial.OutOfMemory
import ExtMem.Serial.Reclaim
import ExtMem.Threads.Ends

/-! Where the loop that fetches a free frame comes to its end. -/
namespace ExtMem
open Threads Threads.Prog

variable {d : PageId} {e : Env} {α β : Type}

@[simp] theorem straight_field (f : UserPage → α) : Straight (field d f) := straight_read _

@[simp] theorem straight_addInt (a b : Int) : Straight (addInt a b) :=
  straight_bind (by simp) fun _ => trivial

@[simp] theorem straight_setPage (f : UserPage → UserPage) : Straight (setPage d f) :=
  straight_modify _

@[simp] theorem straight_assertPage (c : UserPage → Bool) (why : Abort) :
    Straight (assertPage d c why) :=
  straight_assert _ _

@[simp] theorem straight_assertList (c : Option FifoList → Bool) (why : Abort) :
    Straight (assertList d c why) :=
  straight_assert _ _

@[simp] theorem straight_setShared (f : Shared → Shared) : Straight (setShared f) :=
  straight_modify _

@[simp] theorem straight_setLocal (f : Local → Local) : Straight (setLocal f) := straight_modify _

@[simp] theorem straight_setStats (f : Stats → Stats) : Straight (setStats f) := straight_modify _

@[simp] theorem straight_traceEvent (ev : Event) : Straight (traceEvent ev) := straight_modify _

@[simp] theorem straight_enqueueFifoThen (l : FifoList) (aux : Env → Env) :
    Straight (enqueueFifoThen l d aux) :=
  straight_atomic fun s => by split <;> simp

@[simp] theorem straight_enqueueFifo (l : FifoList) : Straight (enqueueFifo l d) :=
  straight_enqueueFifoThen l id

@[simp] theorem straight_dequeueFifoThen (l : FifoList) (aux : PageId → Env → Env) :
    Straight (dequeueFifoThen l aux) :=
  straight_atomic fun s => by split <;> simp

@[simp] theorem straight_tryremove (l : Option FifoList) (aux : Env → Env) :
    Straight (pageListTryremovePageThen l d aux) := by
  refine straight_atomic fun s => ?_
  split
  · simp
  · split <;> simp

@[simp] theorem straight_ptGetBits : Straight (ptGetBits d) := by
  refine straight_bind (by simp) fun va => straight_bind (by simp) fun _ =>
    straight_bind (by simp) fun a => straight_bind (by simp) fun b => straight_atomic fun s => ?_
  split <;> simp

@[simp] theorem straight_ptClearAccessedFlag : Straight (ptClearAccessedFlag d) :=
  straight_bind (by simp) fun _ => straight_bind (by simp) fun _ => by simp

@[simp] theorem straight_scanInactivePage : Straight (scanInactivePage d) := by
  refine straight_bind (by simp) fun bits => straight_ite ?_ ?_
  · refine straight_bind (by simp) fun _ =>
      straight_bind (by simp) fun _ => straight_bind (by simp) fun n => ?_
    refine straight_ite ?_ (straight_bind (by simp) fun _ => by simp)
    exact straight_bind (by simp) fun _ => straight_bind (by simp) fun _ => by simp
  · exact straight_bind (by simp) fun _ => straight_bind (by simp) fun _ => by simp

@[simp] theorem straight_extmemWpPage (b : Bool) : Straight (extmemWpPage d b) := by
  refine straight_bind (by simp) fun a => straight_bind (by simp) fun _ =>
    straight_bind (by simp) fun _ => straight_bind (straight_atomic fun s => ?_) fun _ => by
    simp
  split <;> simp

@[simp] theorem straight_protectVictim : Straight (protectVictim d) :=
  straight_bind (by simp) fun _ => straight_bind (by simp) fun _ => straight_bind (by simp) fun _ =>
    straight_bind (by simp) fun _ => by simp

@[simp] theorem straight_takeReserve : Straight (takeReserve d) := by
  refine straight_bind (by simp) fun r => ?_
  cases r with
  | none => simp
  | some r =>
    exact straight_bind (by simp) fun _ => straight_bind (by simp) fun _ =>
      straight_bind (by simp) fun _ => straight_bind (by simp) fun _ => by
      simp

@[simp] theorem straight_takeDiskFree : Straight takeDiskFree := by
  refine straight_bind (by simp) fun r => ?_
  cases r with
  | none => simp
  | some r => exact straight_bind (by simp) fun _ => by simp

@[simp] theorem straight_ioringWriteStore (offset : Nat) (b : Buffer) (size : Nat) :
    Straight (ioringWriteStore offset b size) := by
  refine straight_bind (straight_bind (by simp) fun _ => straight_ite (by simp) ?_) fun _ =>
    straight_bind (straight_atomic fun s => ?_) fun _ =>
    straight_bind (straight_atomic fun s => ?_) fun _ =>
    straight_bind (by simp) fun _ => straight_bind (by simp) fun _ => straight_atomic fun s => ?_
  · exact straight_modify _
  · split <;> simp
  · dsimp only
    split <;> simp
  · dsimp only
    split
    · split <;> simp
    · simp

private theorem straight_dropVictim (va pagesize : Nat) (f : Frame) : Straight (do
    traceEvent (.dropping d)
    dropMapping va
    setStats fun t => { t with migrationsDown := add64 t.migrationsDown 1 }
    setPage d fun p => { p with virtualOffset := f }
    setPage d fun p => { p with inDram := false }
    setStats fun t => { t with bytesMigrated := add64 t.bytesMigrated pagesize }
    Prog.atomic (markSwappedOut d)) := by
  refine straight_bind (by simp) fun _ =>
    straight_bind (straight_bind (straight_atomic fun s => ?_) fun _ => by simp) fun _ => ?_
  · split <;> simp
  · refine straight_bind (by simp) fun _ => straight_bind (by simp) fun _ =>
      straight_bind (by simp) fun _ => straight_bind (by simp) fun _ => straight_atomic fun s => ?_
    unfold markSwappedOut
    split
    · simp
    · split <;> simp

@[simp] theorem straight_extmemMigrateDowndisk (f : Frame) (writeback : Bool) :
    Straight (extmemMigrateDowndisk d f writeback) := by
  refine straight_bind (by simp) fun _ => straight_bind (by simp) fun _ =>
    straight_bind (straight_field _) fun _ => straight_bind (by simp) fun _ => straight_bind
    (by simp) fun _ => straight_bind (by simp) fun _ => straight_bind (by simp) fun va => ?_
  exact straight_ite (straight_bind (by simp) fun _ =>
    straight_bind (by simp) fun _ => straight_dropVictim _ _ _) (straight_dropVictim _ _ _)

@[simp] theorem straight_lrudiskMigrateDown (f : Frame) (wp writeback : Bool) :
    Straight (lrudiskMigrateDown d f wp writeback) :=
  straight_bind (by simp) fun _ => straight_ite (straight_bind (by simp) fun _ => by simp) (by simp)

@[simp] theorem straight_fetchFreeEvict : Straight (fetchFreeEvict d) := by
  refine straight_bind (by simp) fun _ =>
    straight_bind (by simp) fun _ => straight_bind (by simp) fun _ => straight_ite ?_ ?_
  · refine straight_bind (by simp) fun r => straight_bind (by simp) fun _ =>
      straight_bind (by simp) fun _ => straight_bind (by simp) fun _ =>
      straight_bind (straight_modify _) fun _ => straight_bind (straight_bind (by simp) fun _ =>
      by simp) fun _ => straight_bind (by simp) fun _ => ?_
    refine straight_bind ?_ fun _ => by simp
    exact straight_bind (by simp) fun _ =>
      straight_bind (by simp) fun _ => straight_bind (by simp) fun _ => by
      simp
  · exact straight_bind (by simp) fun r =>
      straight_bind (by simp) fun _ => straight_bind (by simp) fun _ =>
      straight_bind (by simp) fun _ => straight_bind (by simp) fun _ => straight_bind (by simp)
      fun _ => straight_bind (straight_modify _) fun _ => straight_bind (by simp) fun _ => by
      simp

/-! The scans end from any state. -/

private theorem ends_then {p : Paging α} {g : α → Paging β} (h : Ends p e)
    (hg : ∀ a s', Ends (g a) s') : Ends (p >>= g) e :=
  h.bind fun a s' _ => hg a s'

private theorem after_trivial {p : Paging α} : After p e fun _ _ => True := fun _ _ _ => trivial

theorem ends_shrinkInactiveList (nrPages : Nat) (e : Env) :
    Ends (shrinkInactiveList nrPages) e := by
  unfold shrinkInactiveList
  refine ends_then (straight_read _ |>.ends e) fun len s => ?_
  dsimp only
  generalize (if nrPages = 0 ∨ nrPages > len then len else nrPages) = nr
  refine ends_then (straight_setShared _ |>.ends s) fun _ s =>
    ends_then ?_ fun ret s => Straight.ends ?_ s
  · refine ends_loop (fun _ _ => True) (fun x => nr * 100 - x.2) (fun x s _ => ?_)
      (fun x s _ => ?_) trivial
    · refine ends_then (straight_read _ |>.ends s) fun len s => Straight.ends ?_ s
      refine straight_ite (straight_bind (straight_dequeueFifoThen _ _) fun o => ?_) trivial
      cases o with
      | none => trivial
      | some d => exact straight_bind (by simp) fun _ => trivial
    · unfold numentries
      rw [after_bind, after_read]
      split
      · next hc =>
        refine after_dequeueNext (List.length_pos_iff.mp hc.2.1) fun d xs hs =>
          (after_bind _ _ _ _).mpr ?_
        refine after_trivial.mono fun evicted e₂ _ => (after_pure _ _ _).mpr ⟨trivial, ?_⟩
        show nr * 100 - (x.2 + 1) < nr * 100 - x.2
        omega
      · exact (after_pure _ _ _).mpr trivial
  · exact straight_bind (by simp) fun _ => trivial

theorem ends_shrinkActiveList (nrPages : Nat) (e : Env) : Ends (shrinkActiveList nrPages) e := by
  unfold shrinkActiveList
  split
  · exact ends_ret _ _
  refine ends_then (straight_setShared _ |>.ends e) fun _ s =>
    ends_then (straight_read _ |>.ends s) fun len s => ?_
  dsimp only
  generalize (if nrPages > len then len else nrPages) = nr
  refine ends_then ?_ fun ret s => Straight.ends ?_ s
  · refine ends_loop (fun _ _ => True) (fun x => nr * 100 - x.2) (fun x s _ => ?_)
      (fun x s _ => ?_) trivial
    · refine ends_then (straight_read _ |>.ends s) fun len s => Straight.ends ?_ s
      refine straight_ite (straight_bind (straight_dequeueFifoThen _ _) fun o => ?_) trivial
      cases o with
      | none => trivial
      | some d => exact straight_bind (by simp) fun _ => straight_bind (by simp) fun _ => trivial
    · unfold numentries
      rw [after_bind, after_read]
      split
      · next hc =>
        refine after_dequeueNext (List.length_pos_iff.mp hc.2.1) fun d xs hs =>
          (after_bind _ _ _ _).mpr ?_
        refine after_trivial.mono fun _ e₂ _ =>
          (after_bind _ _ _ _).mpr (after_trivial.mono fun _ e₂ _ => ?_)
        refine (after_pure _ _ _).mpr ⟨trivial, ?_⟩
        show nr * 100 - (x.2 + 1) < nr * 100 - x.2
        omega
      · exact (after_pure _ _ _).mpr trivial
  · exact straight_bind (by simp) fun _ => trivial

theorem ends_directAllocatePageAsynch (nrPages : Int) (priority : Nat) (e : Env) :
    Ends (directAllocatePageAsynch nrPages priority) e := by
  unfold directAllocatePageAsynch
  refine ends_then (straight_read _ |>.ends e) fun _ s =>
    ends_then (straight_read _ |>.ends s) fun _ s => ?_
  dsimp only
  generalize int32 _ = a, int32 _ = b
  refine ends_loop (fun _ _ => True) (fun x : Int × Int × Int => (b - x.2.2).toNat)
    (fun x s _ => ?_) (fun x s _ => ?_) trivial
  · split
    · refine ends_then (ends_shrinkInactiveList _ s) fun _ s =>
        ends_then (straight_addInt _ _ |>.ends s) fun _ s =>
        ends_then (straight_addInt _ _ |>.ends s) fun _ s => ?_
      split
      · exact ends_then (ends_shrinkActiveList _ s) fun _ s =>
          ends_then (straight_addInt _ _ |>.ends s) fun _ s => ends_ret _ _
      · exact ends_ret _ _
    · exact ends_ret _ _
  · split
    · next hc =>
      refine (after_bind _ _ _ _).mpr
        (after_trivial.mono fun _ s _ => after_addInt fun _ => after_addInt fun _ => ?_)
      split
      · refine (after_bind _ _ _ _).mpr (after_trivial.mono fun _ s _ => after_addInt fun _ => ?_)
        exact (after_pure _ _ _).mpr ⟨trivial, scans_fall hc.1⟩
      · exact (after_pure _ _ _).mpr ⟨trivial, scans_fall hc.1⟩
    · exact (after_pure _ _ _).mpr trivial

theorem ends_fetchFreeScan (priority : Nat) (e : Env) : Ends (fetchFreeScan priority) e := by
  refine ends_then (straight_read _ |>.ends e) fun running s => ?_
  split
  · exact ends_ret _ _
  refine ends_then (straight_read _ |>.ends s) fun _ s => ends_then (straight_read _ |>.ends s)
    fun _ s => ends_then (straight_read _ |>.ends s) fun _ s => ?_
  split
  · exact ends_then (ends_directAllocatePageAsynch _ _ s) fun _ s => ends_ret _ _
  · exact ends_ret _ _

/-- No scan is said to run and more than half of memory is in use. -/
def Scannable (e : Env) : Prop :=
  e.sh.shrinkageRunning = false ∧ e.sh.used.length > e.sh.dramsize / (pageSize * 2)

/-- Where memory can be scanned, a scan that finds no page to evict leaves it so and lowers
the priority. -/
private theorem after_scannable {priority : Nat} (h : Scannable e) :
    After (fetchFreeScan priority) e fun p e' =>
        p = priority - 1 ∧ (e'.sh.fifos.seq .evictionList = [] → Scannable e') := by
  have hlong : (e.sh.fifos.seq .activeList).length + (e.sh.fifos.seq .inactiveList).length >
      e.sh.dramsize / (pageSize * 2) := by
    rw [← List.length_append]
    exact h.2
  unfold fetchFreeScan fetchFreeScanBy numentries
  rw [after_bind, after_read, if_neg (by simp [h.1]), after_bind, after_read, after_bind,
    after_read, after_bind, after_read, if_pos hlong]
  refine (after_bind _ _ _ _).mpr ((after_directReclaim (by decide) h.1).mono ?_)
  rintro ret e' ⟨added, hr, -, -, hflag⟩
  refine (after_pure _ _ _).mpr ⟨rfl, fun hnone => ⟨hflag, ?_⟩⟩
  have hadd : added = [] := by
    have hev := hr.evicted
    rw [hnone] at hev
    exact (List.append_eq_nil_iff.mp hev.symm).2
  have hlen := hr.length_used
  rw [hadd, List.length_nil, Nat.add_zero] at hlen
  rw [hlen, hr.dramsize]
  exact h.2

private theorem after_kept {priority : Nat} : After (fetchFreeScan priority) e fun _ e' =>
    e'.sh.fifos.seq .evictionList = [] → e.sh.fifos.seq .evictionList = [] := by
  unfold fetchFreeScan fetchFreeScanBy numentries
  rw [after_bind, after_read]
  split
  · exact (after_pure _ _ _).mpr id
  · next hrun =>
    rw [after_bind, after_read, after_bind, after_read, after_bind, after_read]
    split
    · refine (after_bind _ _ _ _).mpr
        ((after_directReclaim (by decide) (by simpa using hrun)).mono ?_)
      rintro ret e' ⟨added, hr, -⟩
      refine (after_pure _ _ _).mpr fun hnone => ?_
      rw [hr.evicted] at hnone
      exact (List.append_eq_nil_iff.mp hnone).1
    · exact (after_pure _ _ _).mpr id

private theorem ends_fetchFreePass (priority : Nat) (e : Env) :
    Ends (fetchFreePass priority) e := by
  unfold fetchFreePass
  split
  · refine ends_then (straight_dequeueFifoThen _ _ |>.ends e) fun o s => ?_
    cases o with
    | some d => exact ends_ret _ _
    | none =>
      refine ends_then (ends_fetchFreeScan _ s) fun p s =>
        ends_then (straight_dequeueFifoThen _ _ |>.ends s) fun o s => ?_
      cases o with
      | none => exact ends_ret _ _
      | some d => exact ends_then (straight_fetchFreeEvict.ends s) fun _ s => ends_ret _ _
  · exact (straight_fail _).ends e

/-- Alone, and whatever the flags read as, the loop of `fetch_free_asynch` is left after
finitely many passes if and only if a DRAM frame is free, a page waits on the eviction list,
or no scan is said to run and the pages in use are more than half of memory. -/
theorem fetch_ends_iff (e : Env) : Ends fetchFreeAsynch e ↔
    e.sh.fifos.seq .dramFreeList ≠ [] ∨ e.sh.fifos.seq .evictionList ≠ [] ∨ Scannable e := by
  constructor
  · intro h
    by_contra hc
    rw [not_or, not_or, not_not, not_not] at hc
    obtain ⟨hfree, hvictim, hscan⟩ := hc
    refine not_ends_of_idle hfree hvictim ?_ h
    by_cases hrun : e.sh.shrinkageRunning = true
    · exact .inl hrun
    · refine .inr fun hlong => hscan ⟨by simpa using hrun, ?_⟩
      rw [Shared.used, List.length_append]
      exact hlong
  · intro h
    rw [fetchFreeAsynch_eq]
    refine ends_loop (fun _ e => e.sh.fifos.seq .dramFreeList ≠ [] ∨ e.sh.fifos.seq .evictionList ≠
      [] ∨ Scannable e) id (fun p e _ => ends_fetchFreePass p e) (fun p e h => ?_) h
    unfold fetchFreePass
    split
    · next hp =>
      unfold dequeueFifo dequeueFifoThen
      rw [after_bind, after_atomic]
      intro o s ho
      split at ho
      · next hfree =>
        cases ho
        dsimp only
        have hloop := h.resolve_left (not_not.mpr hfree)
        rw [after_bind]
        have hscan : After (fetchFreeScan p) e fun p' e' =>
            e'.sh.fifos.seq .evictionList = [] → p' = p - 1 ∧ Scannable e' := by
          by_cases hs : Scannable e
          · exact (after_scannable hs).mono fun p' e' h' hnone => ⟨h'.1, h'.2 hnone⟩
          · exact after_kept.mono fun p' e' h' hnone => absurd (h' hnone) (hloop.resolve_right hs)
        refine hscan.mono fun p' e' h' => ?_
        rw [after_bind, after_atomic]
        intro o s ho
        split at ho
        · next hnone =>
          cases ho
          obtain ⟨rfl, hs⟩ := h' hnone
          exact (after_pure _ _ _).mpr ⟨.inr (.inr hs), by simp only [id]; omega⟩
        · cases ho
          exact (after_bind _ _ _ _).mpr
            (after_trivial.mono fun _ _ _ => (after_pure _ _ _).mpr trivial)
      · cases ho
        exact (after_pure _ _ _).mpr trivial
    · exact (after_fail _ _ _).mpr trivial

/-! A prefetch that waits for ever. -/

/-- `core_try_prefetch` up to the fetching of the frames. -/
def prefetchHead (baseBoundry : Nat) : Paging (List PageId) := do
  Prog.check (baseBoundry != 0) .prefetchBase
  let list ← prefetchList corePrefetchRate baseBoundry
  traceEvent (.prefetching list)
  allocatePrefetchBuffer
  Prog.each prefetchSubmit list.zipIdx
  ioringSubmitAllReads
  pure list

/-- The rest of it, from the frames on. -/
def prefetchTail (list freepages : List PageId) : Paging Nat := do
  Prog.each (fun _ => ioringFinishRead) list
  Prog.each prefetchFinish (list.zipIdx.zip freepages)
  pure list.length

theorem coreTryPrefetchBy_eq (pagefault : Paging PageId) (baseBoundry : Nat) :
    coreTryPrefetchBy pagefault baseBoundry = prefetchHead baseBoundry >>= fun list =>
      Prog.collect (fun _ => pagefault) list >>= prefetchTail list := by
  simp only [prefetchHead, bind_assoc, pure_bind]
  rfl

private theorem prefetch_eq (base : Nat) :
    (coreTryPrefetch base >>= fun _ => pure () : Paging Unit) = (prefetchHead base).bind fun list =>
      (Prog.collect (fun _ => lrudiskPagefault) list).bind fun pages =>
      (prefetchTail list pages).bind fun _ => .ret () := by
  rw [coreTryPrefetch, coreTryPrefetchBy_eq]
  simp only [bind_assoc]
  rfl

private theorem collect_cons (x : PageId) (l : List PageId) (g : List PageId → Paging Unit) :
    (Prog.collect (fun _ => lrudiskPagefault) (x :: l)).bind g = lrudiskPagefault.bind fun b =>
      (Prog.collect (fun _ => lrudiskPagefault) l).bind fun bs => g (b :: bs) := by
  simp only [Prog.collect, Prog.bind_def, Prog.pure_def, Prog.bind_bind, Prog.ret_bind]

private theorem pagefault_bind (g : PageId → Paging Unit) :
    lrudiskPagefault.bind g = fetchFreeAsynch.bind fun page =>
      (do setPage page fun p => { p with migrating := true }
          pure page : Paging PageId).bind g :=
  Prog.bind_bind _ _ _

/-- After a first fetch of a prefetch of two or more pages its thread is about to make the next. -/
private theorem reach_second_fetch {c₀ : System} {e₁ e₂ e₃ : Env} {base : Nat} {x y b : PageId}
    {l : List PageId} (hreach : Conf.Reach Operation Conf.serial c₀ (System.start e₁))
    (hhead : Runs (prefetchHead base) e₁ (x :: y :: l) e₂)
    (hfetch : Runs lrudiskPagefault e₂ b e₃) :
    ∃ c k, Conf.Reach Operation Conf.serial c₀ c ∧ c.OthersQuiet 0 ∧
      c.thr 0 = fetchFreeAsynch.bind k ∧ (⟨c.sh, c.loc 0⟩ : Env) = e₃ := by
  have hloc : (System.start e₁).loc 0 = e₁.loc := by
    simp [System.start, System.idle]
  have h₁ :=
    Conf.Reach.step (t := (0 : Tid)) hreach (.start rfl (Operation.prefetch base)) fun _ _ => rfl
  have h₂ := h₁.first hhead (fun u hu => by simp [System.start, System.idle, hu]) rfl hloc
    ((Function.update_self _ _ _).trans (prefetch_eq base))
  rw [collect_cons] at h₂
  have h₃ := h₂.first hfetch (fun u hu => by simp [System.start, System.idle, hu]) rfl (by simp)
    (show Function.update _ _ _ _ = _ from Function.update_self _ _ _)
  obtain ⟨k, hk⟩ : ∃ k, ((Prog.collect (fun _ => lrudiskPagefault) (y :: l)).bind fun bs =>
      (prefetchTail (x :: y :: l) (b :: bs)).bind fun _ => .ret ()) = fetchFreeAsynch.bind k :=
    ⟨_, (collect_cons _ _ _).trans (pagefault_bind _)⟩
  rw [hk] at h₃
  exact ⟨_, k, h₃, fun u hu => by simp [System.start, System.idle, hu], by simp, by simp⟩

/-- Five pages are loaded from on a machine with two pages of DRAM and eight of disk. -/
def crowdedStory : List (Nat × List Nat × Paging Unit) :=
  [mapStep, loadStep 0, loadStep 1, loadStep 2, loadStep 3, loadStep 4]

def crowdedMachine : Env := roomyMachine.story crowdedStory

/-- The machine when the prefetch has claimed three pages, and when it has fetched the first
frame. -/
def claimedMachine : Env :=
  ((exec 3000 [] (prefetchHead (smallBase - pageSize)) crowdedMachine).map (·.2)).getD
    crowdedMachine

def fetchedMachine : Env :=
  ((exec 3000 [] lrudiskPagefault claimedMachine).map (·.2)).getD claimedMachine

private theorem exec_getD {p : Paging α} {n : Nat} {e₀ : Env} {a : α}
    (h : (exec n [] p e).map (·.1) = some a) :
    Runs p e a (((exec n [] p e).map (·.2)).getD e₀) := by
  obtain ⟨⟨b, e'⟩, he, rfl⟩ := Option.map_eq_some_iff.mp h
  rw [he]
  exact exec_runs he

/-- While a prefetch holds one of two DRAM frames, its fetch of another one never ends. -/
theorem fetch_hangs :
    ∃ e₀ c k, Launched (2 * pageSize) (8 * pageSize) e₀ ∧
      Conf.Reach Operation Conf.serial (System.start e₀) c ∧ c.OthersQuiet 0 ∧
      c.thr 0 = fetchFreeAsynch.bind k ∧ ¬ Ends fetchFreeAsynch ⟨c.sh, c.loc 0⟩ := by
  have hops : ∀ x ∈ crowdedStory, Operation x.2.2 := by
    simp only [crowdedStory, List.forall_mem_cons]
    exact ⟨operation_mapStep, operation_loadStep 0, operation_loadStep 1, operation_loadStep 2,
      operation_loadStep 3, operation_loadStep 4, by simp⟩
  have hreach : Conf.Reach Operation Conf.serial (System.start roomyMachine)
      (System.start crowdedMachine) := reach_story crowdedStory .init hops (by decide +kernel)
  have hhead : Runs (prefetchHead (smallBase - pageSize)) crowdedMachine [0, 1, 2] claimedMachine :=
    exec_getD (by decide +kernel)
  have hfetch : Runs lrudiskPagefault claimedMachine 5 fetchedMachine :=
    exec_getD (by decide +kernel)
  obtain ⟨c, k, hc, hquiet, hthr, henv⟩ := reach_second_fetch hreach hhead hfetch
  have hfree : fetchedMachine.sh.fifos.seq .dramFreeList = [] := by decide +kernel
  have hvictim : fetchedMachine.sh.fifos.seq .evictionList = [] := by decide +kernel
  have hshort : ¬ (fetchedMachine.sh.fifos.seq .activeList).length +
      (fetchedMachine.sh.fifos.seq .inactiveList).length >
      fetchedMachine.sh.dramsize / (pageSize * 2) := by
    decide +kernel
  refine ⟨roomyMachine, c, k, launched_roomyMachine, hc, hquiet, hthr, ?_⟩
  rw [henv]
  exact not_ends_of_idle hfree hvictim (.inr hshort)

end ExtMem
