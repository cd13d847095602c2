import ExtMem.Migration

/-! The default policy, policies/disklinux.c: reclaim scans, eviction, frame
allocation and the policy's half of a swap-in. -/
namespace ExtMem
open Threads

/-- A value of C's `int`: 32 bits, signed. -/
def int32 (n : Int) : Int := n.bmod (2 ^ 32)

/-- The sum of two values of type `int`, where it is one. -/
def addInt (a b : Int) : Paging Int := do
  Prog.check (-2 ^ 31 ≤ a + b && a + b < 2 ^ 31) .intOverflow
  pure (a + b)

/-- An `int` converted to uint64_t. -/
def asUint64 (i : Int) : Nat := (i % 2 ^ 64).toNat

/-- A percentage of DRAM in pages; the product wraps as uint64_t does. -/
def watermark (percent dramsize : Nat) : Nat := mul64 percent dramsize / (pageSize * 100)

def shrinkActiveList (nrPages : Nat) : Paging Nat := do
  if nrPages = 0 then pure 0
  else do
    setShared fun s => { s with shrinkageRunning := true }
    let len ← numentries .activeList
    let nrPages := if nrPages > len then len else nrPages
    let ret ← Prog.loop (fun ((ret, tries) : Nat × Nat) => do
      let len ← numentries .activeList
      if ret < nrPages ∧ len > 0 ∧ tries < nrPages * 100 then do
        let page ← dequeueFifo .activeList
        match page with
        | some page => do
          setPage page fun p => { p with naccesses := 0 }
          enqueueFifo .inactiveList page
          pure (.inl (ret + 1, tries + 1))
        | none => pure (.inl (ret, tries))
      else pure (.inr ret)) (0, 0)
    setShared fun s => { s with shrinkageRunning := false }
    pure ret

/-- What the inactive scan does with one page: a page found accessed is kept, the
second time promoted; any other goes to the eviction list. Whether it went there. -/
def scanInactivePage (page : PageId) : Paging Bool := do
  let bits ← ptGetBits page
  if bits.accessed then do
    setPage page fun p => { p with naccesses := add64 p.naccesses 1 }
    ptClearAccessedFlag page
    let naccesses ← field page (·.naccesses)
    if naccesses > 1 then do
      setPage page fun p => { p with naccesses := 0 }
      enqueueFifo .activeList page
    else enqueueFifo .inactiveList page
    pure false
  else do
    setPage page fun p => { p with naccesses := 0 }
    enqueueFifo .evictionList page
    pure true

def shrinkInactiveList (nrPages : Nat) : Paging Nat := do
  let len ← numentries .inactiveList
  let nrPages := if nrPages = 0 ∨ nrPages > len then len else nrPages
  setShared fun s => { s with shrinkageRunning := true }
  let ret ← Prog.loop (fun ((ret, tries) : Nat × Nat) => do
    let len ← numentries .inactiveList
    if ret < nrPages ∧ len > 0 ∧ tries < nrPages * 100 then do
      let page ← dequeueFifo .inactiveList
      match page with
      | some page => do
        let evicted ← scanInactivePage page
        pure (.inl (if evicted then ret + 1 else ret, tries + 1))
      | none => pure (.inl (ret, tries))
    else pure (.inr ret)) (0, 0)
  setShared fun s => { s with shrinkageRunning := false }
  pure ret

/-- `direct_allocate_page_asynch`: put some pages on the eviction list. -/
def directAllocatePageAsynch (nrPages : Int) (priority : Nat) : Paging Int := do
  let active ← numentries .activeList
  let inactive ← numentries .inactiveList
  let toScanActive := int32 (active >>> priority : Nat)
  let toScanInactive := int32 (inactive >>> priority : Nat)
  Prog.loop (fun ((reclaimed, nrScannedActive, nrScannedInactive) : Int × Int × Int) => do
    if nrScannedInactive < toScanInactive ∧ reclaimed < nrPages then do
      let ret ← shrinkInactiveList swapClusterCount
      let reclaimed ← addInt reclaimed ret
      let nrScannedInactive ← addInt nrScannedInactive swapClusterCount
      if nrScannedActive < toScanActive then do
        let _ ← shrinkActiveList swapClusterCount
        let nrScannedActive ← addInt nrScannedActive swapClusterCount
        pure (.inl (reclaimed, nrScannedActive, nrScannedInactive))
      else pure (.inl (reclaimed, nrScannedActive, nrScannedInactive))
    else pure (.inr reclaimed)) (0, 0, 0)

/-- One pass of the loop of `lrudisk_synchkswapd`, woken up if it was asleep. -/
def lrudiskSynchkswapd : Paging Unit := do
  setShared fun s => { s with kswapdRunning := true }
  let active ← numentries .activeList
  let inactive ← numentries .inactiveList
  let dramsize ← Prog.read (·.sh.dramsize)
  let nrPages := int32 ((active + inactive : Nat) - (watermark lowWaterThreshold dramsize : Nat))
  if nrPages ≤ 0 then pure ()
  else do
    let _ ← directAllocatePageAsynch nrPages 12
    pure ()
  setShared fun s => { s with kswapdRunning := false }

/-! Eviction. The auxiliary variables follow a victim from the moment it leaves the
eviction list until its `migrating` flag is cleared. -/

def lrudiskMigrateDown (page : PageId) (offset : Frame) (needWp writeback : Bool) : Paging Unit := do
  setPage page fun p => { p with migrating := true }
  if needWp then extmemWpPage page true else pure ()
  extmemMigrateDowndisk page offset writeback

def takeVictim (d : PageId) (e : Env) : Env := (e.joinExchange d).startWork d

/-- Write-protect the victim and decide whether its bytes must be written. -/
def protectVictim (victim : PageId) : Paging Bool := do
  extmemWpPage victim true
  let flags ← ptGetBits victim
  let hasReserve ← field victim (·.hasReserve)
  traceEvent (.decided victim (flags.dirty || !hasReserve))
  pure (flags.dirty || !hasReserve)

/-- Take the descriptor that holds the victim's reserve off the reserve list. -/
def takeReserve (victim : PageId) : Paging PageId := do
  let reserve ← field victim (·.reserve)
  match reserve with
  | none => Prog.fail .victimReserve
  | some diskpage => do
    assertPage diskpage (·.reserve == some victim) .victimReserve
    assertList diskpage (· == some .diskReserveList) .victimReserveList
    let ret ← pageListTryremovePageThen (some .diskReserveList) diskpage (·.joinExchange diskpage)
    Prog.check ret .victimReserveRemoved
    pure diskpage

/-- Take the oldest free disk descriptor. -/
def takeDiskFree : Paging PageId := do
  let diskpage ← dequeueFifoThen .diskFreeList fun d e => e.joinExchange d
  match diskpage with
  | none => Prog.fail .noDiskPage
  | some diskpage => do
    assertPage diskpage (!·.present) .diskpagePresent
    pure diskpage

/-- The disk descriptor becomes the holder of the victim's DRAM frame. -/
def giveFrame (diskpage : PageId) (oldOffset : Frame) (aux : Env → Env) : Paging Unit :=
  Prog.modify fun e => aux (e.setPage diskpage fun p =>
    { p with virtualOffset := oldOffset, inDram := true, present := false })

/-- The reserve pairing ends on both sides. -/
def dropReserve (victim diskpage : PageId) : Paging Unit := do
  setPage diskpage fun p => { p with hasReserve := false, reserve := none }
  setPage victim fun p => { p with hasReserve := false, reserve := none }

/-- The victim is given up: `migrating` is cleared and then `swapped_out` set once more. -/
def releaseVictim (victim : PageId) : Paging Unit := do
  assertPage victim (·.migrating) .victimMigrating
  assertPage victim (·.swappedOut) .victimSwappedOut
  setPage victim fun p => { p with migrating := false }
  Prog.modify fun e => (e.setPage victim fun p => { p with swappedOut := true }).endWork victim

/-- One round of the scalar `lrudisk_evictionworker` that found a victim. -/
def lrudiskEvictionworker : Paging Unit := do
  let victim ← dequeueFifoThen .evictionList takeVictim
  match victim with
  | none => pure ()
  | some victim => do
    setPage victim fun p => { p with migrating := true }
    let writeback ← protectVictim victim
    let hasReserve ← field victim (·.hasReserve)
    if hasReserve then do
      let diskpage ← takeReserve victim
      let oldOffset ← field victim (·.virtualOffset)
      let diskOffset ← field diskpage (·.virtualOffset)
      lrudiskMigrateDown victim diskOffset false writeback
      giveFrame diskpage oldOffset id
      dropReserve victim diskpage
      enqueueFifoThen .dramFreeList diskpage (·.settleExchange diskpage victim)
      enqueueFifoThen .diskActiveList victim (·.leaveExchange victim)
      releaseVictim victim
    else do
      let diskpage ← takeDiskFree
      let oldOffset ← field victim (·.virtualOffset)
      let diskOffset ← field diskpage (·.virtualOffset)
      lrudiskMigrateDown victim diskOffset false writeback
      enqueueFifoThen .diskActiveList victim (·.settleExchange victim diskpage)
      giveFrame diskpage oldOffset id
      enqueueFifoThen .dramFreeList diskpage (·.leaveExchange diskpage)
      releaseVictim victim

/-- The first loop of the vector worker: mark, protect and read one victim. -/
def prepareVictim (victim : PageId) : Paging (PageId × Frame × Bool) := do
  setPage victim fun p => { p with migrating := true }
  let oldOffset ← field victim (·.virtualOffset)
  let writeback ← protectVictim victim
  pure (victim, oldOffset, writeback)

/-- The second loop: find the disk descriptor of one victim. -/
def findDiskpage (x : PageId × Frame × Bool) : Paging Slot := do
  let hasReserve ← field x.1 (·.hasReserve)
  let diskpage ← if hasReserve then takeReserve x.1 else takeDiskFree
  pure ⟨x.1, x.2.1, x.2.2, diskpage⟩

/-- The last loop: relink one victim and its disk descriptor. -/
def finishSlot (x : Slot) : Paging Unit := do
  let hasReserve ← field x.victim (·.hasReserve)
  if hasReserve then do
    giveFrame x.diskpage x.oldOffset id
    dropReserve x.victim x.diskpage
    enqueueFifoThen .dramFreeList x.diskpage (·.settleExchange x.diskpage x.victim)
    enqueueFifoThen .diskActiveList x.victim (·.leaveExchange x.victim)
    releaseVictim x.victim
  else do
    assertPage x.diskpage (!·.present) .diskpagePresent
    enqueueFifoThen .diskActiveList x.victim (·.settleExchange x.victim x.diskpage)
    giveFrame x.diskpage x.oldOffset id
    enqueueFifoThen .dramFreeList x.diskpage (·.leaveExchange x.diskpage)
    releaseVictim x.victim

/-- One batch of `lrudisk_evictionworker_vector`. -/
def lrudiskEvictionworkerVector : Paging Unit := do
  let victims ← dequeueFifoVectorThen .evictionList evictVectorSize takeVictim
  if victims.isEmpty then pure ()
  else do
    let prepared ← Prog.collect prepareVictim victims
    let batch ← Prog.collect findDiskpage prepared
    extmemMigrateDowndiskVector batch
    Prog.each finishSlot batch

/-- The eviction that `fetch_free_asynch` makes itself; the disk descriptor, now
holding the victim's DRAM frame, is the free page it returns. -/
def fetchFreeEvict (page : PageId) : Paging PageId := do
  setPage page fun p => { p with migrating := true }
  let writeback ← protectVictim page
  let hasReserve ← field page (·.hasReserve)
  if hasReserve then do
    let diskpage ← takeReserve page
    let oldOffset ← field page (·.virtualOffset)
    let diskOffset ← field diskpage (·.virtualOffset)
    lrudiskMigrateDown page diskOffset false writeback
    giveFrame diskpage oldOffset id
    dropReserve page diskpage
    enqueueFifoThen .diskActiveList page fun e =>
      (e.settleExchange page diskpage).leaveExchange diskpage
    releaseVictim page
    pure diskpage
  else do
    let diskpage ← takeDiskFree
    let oldOffset ← field page (·.virtualOffset)
    let diskOffset ← field diskpage (·.virtualOffset)
    lrudiskMigrateDown page diskOffset true writeback
    assertPage page (·.swappedOut) .victimSwappedOut
    enqueueFifoThen .diskActiveList page (·.settleExchange page diskpage)
    giveFrame diskpage oldOffset (·.leaveExchange diskpage)
    Prog.modify fun e => (e.setPage page fun p => { p with migrating := false }).endWork page
    pure diskpage

/-- Run a reclaim scan if no other is running and the lists are long enough; the
priority that is left. The policy's `direct_allocate_page_asynch` is a parameter. -/
def fetchFreeScanBy (reclaim : Int → Nat → Paging Int) (priority : Nat) : Paging Nat := do
  let running ← Prog.read (·.sh.shrinkageRunning)
  if running then pure priority
  else do
    let active ← numentries .activeList
    let inactive ← numentries .inactiveList
    let dramsize ← Prog.read (·.sh.dramsize)
    if active + inactive > dramsize / (pageSize * 2) then do
      let _ ← reclaim swapClusterCount priority
      pure (priority - 1)
    else pure priority

def fetchFreeScan (priority : Nat) : Paging Nat := fetchFreeScanBy directAllocatePageAsynch priority

@[simp] theorem fetchFreeScanBy_default (priority : Nat) :
    fetchFreeScanBy directAllocatePageAsynch priority = fetchFreeScan priority := rfl

/-- `fetch_free_asynch`: a listless descriptor that holds a DRAM frame. Waking kswapd
only starts another thread and has no effect here. -/
def fetchFreeAsynchBy (reclaim : Int → Nat → Paging Int) : Paging PageId :=
  Prog.loop (fun priority => do
    if priority > 0 then do
      let page ← dequeueFifo .dramFreeList
      match page with
      | some page => pure (.inr page)
      | none => do
        let priority ← fetchFreeScanBy reclaim priority
        let page ← dequeueFifoThen .evictionList takeVictim
        match page with
        | some page => do
          let diskpage ← fetchFreeEvict page
          pure (.inr diskpage)
        | none => pure (.inl priority)
    else Prog.fail .outOfMemory) 12

def fetchFreeAsynch : Paging PageId := fetchFreeAsynchBy directAllocatePageAsynch

def lrudiskPagefaultBy (reclaim : Int → Nat → Paging Int) : Paging PageId := do
  let page ← fetchFreeAsynchBy reclaim
  setPage page fun p => { p with migrating := true }
  pure page

def lrudiskPagefault : Paging PageId := lrudiskPagefaultBy directAllocatePageAsynch

def lrudiskTrackPage (page : PageId) : Paging Unit := do
  assertList page (·.isNone) .trackPageList
  enqueueFifoThen .inactiveList page fun e => e.record (.tracked page (e.sh.page page).va)

def lrudiskPutPageFree (page : PageId) : Paging Unit := do
  assertList page (·.isNone) .putPageFreeList
  assertPage page (·.va == 0) .putPageFreeVa
  enqueueFifo .dramFreeList page

/-! Swap-in. -/

/-- Take a swapped-out page off `disk_active_list`, asserting twice that it is there. -/
def detach (page : PageId) (onList onRemoved : Abort) : Paging Unit := do
  assertList page (· == some .diskActiveList) onList
  let ret ← pageListTryremovePageThen (some .diskActiveList) page (·.joinExchange page)
  Prog.check ret onRemoved

def lrudiskDetachPage (page : PageId) : Paging Unit := 
  detach page (.detachList page) (.detachRemoved page)

/-- The descriptor that gave its DRAM frame takes the disk frame. -/
def takeDiskFrame (freepage : PageId) (fileOffset : Frame) : Paging Unit :=
  setPage freepage fun p => { p with
    virtualOffset := fileOffset, inDram := false, swappedOut := true, migrating := false }

/-- Pair the page with the descriptor that keeps its disk copy, and publish both. -/
def publishSwapin (page freepage : PageId) : Paging Unit := do
  setPage freepage fun p => { p with reserve := some page }
  setPage page fun p => { p with reserve := some freepage, hasReserve := true }
  setPage freepage fun p => { p with hasReserve := true }
  enqueueFifoThen .diskReserveList freepage (·.settleExchange freepage page)
  enqueueFifoThen .inactiveList page (·.leaveExchange page)

/-- Assert that a fetched descriptor holds a DRAM frame and read its offset. -/
def frameOf (freepage : PageId) : Paging Frame := do
  Prog.modify (·.joinExchange freepage)
  assertPage freepage (·.inDram) .swapinFrame
  field freepage (·.virtualOffset)

def lrudiskSwapinExternal (page : PageId) : Paging Unit := do
  let fileOffset ← field page (·.virtualOffset)
  let freepage ← fetchFreeAsynch
  let offset ← frameOf freepage
  detach page (.swapinList page) (.swapinRemoved page)
  extmemMigrateUpdisk page offset
  takeDiskFrame freepage fileOffset
  publishSwapin page freepage

def lrudiskSwapinExternalAsync (page : PageId) : Paging Unit := do
  let fileOffset ← field page (·.virtualOffset)
  detach page (.swapinList page) (.swapinRemoved page)
  coreMigrateUpAsyncStart page
  let freepage ← fetchFreeAsynch
  let offset ← frameOf freepage
  coreMigrateUpAsyncFinish page offset
  takeDiskFrame freepage fileOffset
  publishSwapin page freepage

def lrudiskAckSwapin (page freepage : PageId) : Paging Unit := do
  Prog.modify (·.joinExchange freepage)
  let offset ← field freepage (·.virtualOffset)
  let fileOffset ← field page (·.virtualOffset)
  assertPage freepage (·.inDram) .ackSwapin
  assertList freepage (·.isNone) .ackSwapin
  assertPage page (·.swappedOut) .ackSwapin
  assertPage page (·.migrating) .ackSwapin
  assertList page (·.isNone) .ackSwapin
  takeDiskFrame freepage fileOffset
  setPage page fun p => { p with virtualOffset := offset }
  publishSwapin page freepage

/-! Unmapping. -/

/-- Retry until the page is on some list and is taken off it. -/
def removeFromAnyList (page : PageId) : Paging Unit :=
  Prog.loop (fun () => do
    let list ← readList page
    let ret ← pageListTryremovePage list page
    pure (if ret then .inr () else .inl ())) ()

/-- Free the disk copy that a resident page has. -/
def freeReserve (page : PageId) : Paging Unit := do
  let reserve ← field page (·.reserve)
  match reserve with
  | none => Prog.fail .removePageReserve
  | some reservePage => do
    assertPage reservePage (·.reserve == some page) .removePageReserve
    Prog.loop (fun () => do
      let list ← readList reservePage
      Prog.check (list == some .diskReserveList) .removePageReserveList
      let ret ← pageListTryremovePage list reservePage
      pure (if ret then .inr () else .inl ())) ()
    setPage reservePage fun p => { p with hasReserve := false, reserve := none, present := false }
    enqueueFifo .diskFreeList reservePage
    setPage page fun p => { p with hasReserve := false, reserve := none }

def lrudiskRemovePage (page : PageId) : Paging Unit := do
  setPage page fun p => { p with migrating := true }
  removeFromAnyList page
  Prog.modify fun e =>
    (e.setPage page fun p => { p with present := false, va := 0 }).record (.forgotten page)
  let inDram ← field page (·.inDram)
  if inDram then do
    let hasReserve ← field page (·.hasReserve)
    if hasReserve then freeReserve page else pure ()
    enqueueFifo .dramFreeList page
  else do
    let swappedOut ← field page (·.swappedOut)
    if swappedOut then do
      setPage page fun p => { p with reserve := none, hasReserve := false }
      enqueueFifo .diskFreeList page
    else Prog.fail .removePageConfiguration
  Prog.modify fun e =>
    ((e.setPage page fun p => { p with migrating := false }).endWork page).record (.released page)

/-! Initialisation. -/

/-- One of the two loops of `lrudisk_init`: make a descriptor for each page of a space. -/
def initList (queue : FifoList) (inDram : Bool) (size : Nat) : Paging Unit :=
  Prog.loop (fun (i : Int) => do
    if asUint64 i < size / pageSize then do
      let p ← Prog.read (·.sh.nextPage)
      setShared fun s => { s with nextPage := s.nextPage + 1 }
      setPage p fun _ => { UserPage.zero with
        virtualOffset := ⟨inDram, mul64 (asUint64 i) pageSize⟩, inDram := inDram,
        swappedOut := !inDram, pt := .basep }
      enqueueFifo queue p
      let next ← addInt i 1
      pure (.inl next)
    else pure (.inr ())) 0

def lrudiskInit : Paging Unit := do
  let dramsize ← Prog.read (·.sh.dramsize)
  initList .dramFreeList true dramsize
  let disksize ← Prog.read (·.sh.disksize)
  initList .diskFreeList false disksize

end ExtMem
