import ExtMem.Disklinux

/-! Faults, prefetching and the two intercepted system calls: the rest of core.c. -/
namespace ExtMem
open Threads

/-! The page hash. Each function holds `pages_lock` throughout and is one action. -/

def addPage (page : PageId) : Paging Unit :=
  Prog.atomic fun e =>
    let va := (e.sh.page page).va
    if (e.sh.pages va).isNone then
      .ok () { e with sh := { e.sh with pages := Function.update e.sh.pages va (some page) } }
    else .abort .addPageUnique

def removePage (page : PageId) : Paging Unit :=
  setShared fun s =>
    { s with pages := fun va => if s.pages va = some page then none else s.pages va }

def findPage (va : Nat) : Paging (Option PageId) := Prog.read (·.sh.pages va)

/-- `find_page` by a thread that goes on to examine the page it finds. -/
def lookUp (va : Nat) : Paging (Option PageId) :=
  Prog.atomic fun e =>
    match e.sh.pages va with
    | none => .ok none e
    | some d => .ok (some d) (e.startLook d va)

/-- The thread is done with a page it looked up. -/
def lookAway (page : PageId) : Paging Unit := Prog.modify (·.endLook page)

def lockAllocator : Paging Unit :=
  Prog.atomic fun e =>
    if e.sh.allocatorLock then .wait
      else .ok () { e with sh := { e.sh with allocatorLock := true } }

def unlockAllocator : Paging Unit := setShared fun s => { s with allocatorLock := false }

def setInternalCall (b : Bool) : Paging Unit := setLocal fun l => { l with internalCall := b }

/-- The busy wait for a page that another thread migrates, with an auxiliary update at
the moment it ends. -/
def waitMigratingThen (page : PageId) (aux : Env → Env) : Paging Unit :=
  Prog.atomic fun e => if (e.sh.page page).migrating then .wait else .ok () (aux e)

def waitMigrating (page : PageId) : Paging Unit := waitMigratingThen page id

def handleWpFault (page : PageId) : Paging Unit := do
  setStats fun t => { t with migrationWaits := add64 t.migrationWaits 1 }
  waitMigrating page

/-- What a thread finds when it looks at a page under `handler_lock`. -/
inductive Claim where
  | busy
  | handled
  | moved
  | mine
  deriving DecidableEq, Repr

/-- The critical section that decides who swaps a page in. The prefetcher also
compares the address with the one it looked the page up by. -/
def claimSwapin (page : PageId) (oldVa : Option Nat) : Paging Claim :=
  Prog.atomic fun e =>
    let p := e.sh.page page
    let waits (e : Env) : Env := { e with sh := { e.sh with stats := { e.sh.stats with
      migrationWaits := add64 e.sh.stats.migrationWaits 1 } } }
    if p.migrating then .ok .busy (waits e)
    else if p.swappedOut = false then .ok .handled (waits e)
    else if oldVa.any (· != p.va) then .ok .moved e
    else .ok .mine
      (((e.setPage page fun p => { p with migrating := true }).startWork page).record
        (.claimed page))

/-- The critical section that ends a swap-in. -/
def finishSwapin (page : PageId) : Paging Unit :=
  Prog.modify fun e =>
    (e.setPage page fun p => { p with swappedOut := false, migrating := false }).endWork page

/-! Prefetching. -/

/-- Look up the next page and claim and detach it if it is to be brought in. -/
def prefetchNext (pageBoundry : Nat) : Paging (Option PageId) := do
  let page ← lookUp pageBoundry
  match page with
  | none => pure none
  | some page => do
    assertPage page (·.va == pageBoundry) .prefetchVa
    let oldVa ← field page (·.va)
    let claim ← claimSwapin page (some oldVa)
    lookAway page
    if claim = .mine then do
      assertPage page (·.va != 0) .prefetchVa
      lrudiskDetachPage page
      pure (some page)
    else pure none

/-- The first loop: pages to prefetch, at most as many as are left of the rate. -/
def prefetchList : Nat → Nat → Paging (List PageId)
  | 0, _ => pure []
  | left + 1, pageBoundry => do
    let pageBoundry := add64 pageBoundry pageSize
    let page ← prefetchNext pageBoundry
    match page with
    | none => pure []
    | some page => do
      let rest ← prefetchList left pageBoundry
      pure (page :: rest)

def allocatePrefetchBuffer : Paging Unit := do
  let allocated ← Prog.read (·.loc.prefetchBufferAllocated)
  if allocated then pure ()
  else setLocal fun l => { l with prefetchBuffer := fun _ _ => 0, prefetchBufferAllocated := true }

def prefetchSubmit (x : PageId × Nat) : Paging Unit := do
  let diskAddrOffset ← field x.1 (·.virtualOffset)
  ioringPrepareRead diskAddrOffset.offset (.prefetchSlot x.2) pageSize

/-- Put one page that was read into place and publish it. `in_dram` is set after
the page is on the inactive list. -/
def prefetchFinish (x : (PageId × Nat) × PageId) : Paging Unit := do
  copyIn x.1.1 (.prefetchSlot x.1.2)
  lrudiskAckSwapin x.1.1 x.2
  setPage x.1.1 fun p => { p with inDram := true }
  finishSwapin x.1.1

/-- `core_try_prefetch` with the policy's `pagefault`. -/
def coreTryPrefetchBy (pagefault : Paging PageId) (baseBoundry : Nat) : Paging Nat := do
  Prog.check (baseBoundry != 0) .prefetchBase
  let list ← prefetchList corePrefetchRate baseBoundry
  traceEvent (.prefetching list)
  allocatePrefetchBuffer
  Prog.each prefetchSubmit list.zipIdx
  ioringSubmitAllReads
  let freepages ← Prog.collect (fun _ => pagefault) list
  Prog.each (fun _ => ioringFinishRead) list
  Prog.each prefetchFinish (list.zipIdx.zip freepages)
  pure list.length

def coreTryPrefetch (baseBoundry : Nat) : Paging Nat :=
  coreTryPrefetchBy lrudiskPagefault baseBoundry

/-! Faults. -/

/-- The fault is the third of three on consecutive pages. -/
def consecutive (pageBoundry prev1 prev2 : Nat) : Bool :=
  pageBoundry == add64 prev1 pageSize && pageBoundry == add64 prev2 (pageSize * 2)

/-- The stream test of `handle_missing_fault`. Its last argument is the local variable
`must_prefetch`, which every call starts with as false. -/
def wantPrefetch (pageBoundry prev1 prev2 : Nat) (mustPrefetch : Bool) : Bool :=
  consecutive pageBoundry prev1 prev2 ||
    (mustPrefetch && pageBoundry ≤ add64 prev1 (pageSize * corePrefetchRate) && prev1 < pageBoundry)

/-- The part of a major fault done by the thread that claimed the page. -/
def resolveMissingFault (page : PageId) (pageBoundry : Nat) : Paging Unit := do
  let l ← Prog.read (·.loc)
  let mustPrefetch := wantPrefetch pageBoundry l.prevFault1 l.prevFault2 false
  setLocal fun l => { l with prevFault2 := l.prevFault1, prevFault1 := pageBoundry }
  lrudiskSwapinExternalAsync page
  assertPage page (·.va == pageBoundry) .missingFaultVa
  assertPage page (·.va != 0) .missingFaultVa
  assertPage page (·.va % pageSize == 0) .missingFaultVa
  finishSwapin page
  setStats fun t => { t with majorFaultsHandled := add64 t.majorFaultsHandled 1 }
  if mustPrefetch then do
    let _ ← coreTryPrefetch pageBoundry
    pure ()
  else pure ()
  setInternalCall false

def handleMissingFault (page : PageId) : Paging Unit := do
  setInternalCall true
  let pageBoundry ← field page (·.va)
  let claim ← claimSwapin page none
  match claim with
  | .mine => resolveMissingFault page pageBoundry
  | _ => waitMigratingThen page (·.record (.resumed page))

/-- The fault lost the race for the address: its descriptor goes back. -/
def lostFirstFault (newpage page : PageId) : Paging Unit := do
  unlockAllocator
  lrudiskPutPageFree newpage
  waitMigrating page

/-- The fault won: the descriptor becomes the page of this address. -/
def wonFirstFault (page : PageId) (pageBoundry : Nat) : Paging Unit := do
  Prog.modify fun e => (e.setPage page fun p => { p with migrating := true }).startWork page
  setPage page fun p => { p with swappedOut := false }
  assertPage page (·.va == 0) .firstFaultVa
  setPage page fun p => { p with va := pageBoundry }
  assertPage page (·.va != 0) .firstFaultVa
  assertPage page (·.va % pageSize == 0) .firstFaultVa
  addPage page
  unlockAllocator
  setLocal fun l => { l with prevFault2 := l.prevFault1, prevFault1 := pageBoundry }
  setShared fun s =>
    { s with prevFaultGlobal2 := s.prevFaultGlobal1, prevFaultGlobal1 := pageBoundry }
  assertPage page (·.inDram) .firstFaultInDram
  copyIn page .pageCache
  Prog.modify fun e => (e.setPage page fun p => { p with migrating := false }).endWork page
  setPage page fun p => { p with swappedOut := false }
  lrudiskTrackPage page
  let pagesize ← pagesizeOf page
  setStats fun t => { t with memAllocated := add64 t.memAllocated pagesize }
  setStats fun t => { t with firstFaultsHandled := add64 t.firstFaultsHandled 1 }
  setStats fun t => { t with pagesAllocated := add64 t.pagesAllocated 1 }
  setInternalCall false

def handleFirstFault (pageBoundry : Nat) : Paging Unit := do
  setInternalCall true
  Prog.check (pageBoundry != 0) .firstFaultAddress
  let newpage ← lrudiskPagefault
  lockAllocator
  let page ← findPage pageBoundry
  match page with
  | some page => lostFirstFault newpage page
  | none => wonFirstFault newpage pageBoundry

/-- `uswap_sig_handler` on a SIGBUS at an address. -/
def uswapSigHandler (faultAddr : Nat) : Paging Unit := do
  setInternalCall true
  let page ← lookUp (pageBoundry faultAddr)
  match page with
  | none => handleFirstFault (pageBoundry faultAddr)
  | some page => do
    let swappedOut ← field page (·.swappedOut)
    if swappedOut then handleMissingFault page else handleWpFault page
    lookAway page
  setInternalCall false

/-! User accesses. A load of a page that is not mapped, or a store to one that is not
mapped or is protected, faults, and the access is retried after the handler. -/

/-- The place of an address in its page. -/
def pageOffset (addr : Nat) : Fin pageSize := ⟨addr % pageSize, Nat.mod_lt _ (by decide)⟩

def loadByte (addr : Nat) (e : Env) : Outcome Abort Env (Option UInt8) :=
  match e.sh.vma (pageBoundry addr), e.sh.pte (pageBoundry addr) with
  | .uffd, some p => .ok (some (p.bytes (pageOffset addr)))
      { e with sh := e.sh.setPte (pageBoundry addr) (some { p with accessed := true }) }
  | .uffd, none => .ok none e
  | _, _ => .abort .segv

def storeByte (addr : Nat) (byte : UInt8) (e : Env) : Outcome Abort Env (Option Unit) :=
  match e.sh.vma (pageBoundry addr), e.sh.pte (pageBoundry addr) with
  | .uffd, some p =>
    if p.wp then .ok none e
    else .ok (some ()) ({ e with sh := e.sh.setPte (pageBoundry addr) (some { p with
      accessed := true, dirty := true, bytes := Function.update p.bytes (pageOffset addr) byte }) }.record
        (.stored addr byte))
  | .uffd, none => .ok none e
  | _, _ => .abort .segv

/-- Retry an access, running the fault handler after each failed attempt. -/
def access {α : Type} (addr : Nat) (attempt : Env → Outcome Abort Env (Option α)) : Paging α :=
  Prog.loop (fun () => do
    let r ← Prog.atomic attempt
    match r with
    | some a => pure (.inr a)
    | none => do
      uswapSigHandler addr
      pure (.inl ())) ()

def userLoad (addr : Nat) : Paging UInt8 := access addr (loadByte addr)

def userStore (addr : Nat) (byte : UInt8) : Paging Unit := access addr (storeByte addr byte)

/-! The intercepted calls. -/

/-- PAGE_ROUND_UP on a 64-bit length. -/
def pageRoundUp (x : Nat) : Nat := add64 x (pageSize - 1) / pageSize * pageSize

/-- `extmem_mmap_populate`. -/
def extmemMmapPopulate (addr length : Nat) : Paging Unit := do
  Prog.check (addr != 0) .populateArguments
  Prog.check (length != 0) .populateArguments
  Prog.loop (fun pageBoundry => do
    if pageBoundry < add64 addr length then do
      handleFirstFault pageBoundry
      pure (.inl (add64 pageBoundry pageSize))
    else pure (.inr ())) addr

/-- The flags `extmem_mmap` passes on. -/
def mmapFlags (flags : BitVec 32) : BitVec 32 :=
  let flags := if hasFlag flags mapShared then (flags &&& ~~~mapShared) ||| mapPrivate else flags
  let flags := flags ||| mapNoreserve ||| mapAnonymous
  let flags := if hasFlag flags mapPopulate then flags &&& ~~~mapPopulate else flags
  if hasFlag flags mapHugetlb then flags &&& ~~~mapHugetlb else flags

def extmemMmap (addr length : Nat) (flags : BitVec 32) : Paging Nat := do
  setInternalCall true
  Prog.assert (·.sh.isInit) .mmapState
  Prog.check (length != 0) .mmapState
  let needPopulate := hasFlag flags mapPopulate
  let length := pageRoundUp length
  let p ← libcMmap addr length (mmapFlags flags)
  match p with
  | none => Prog.fail .mmapFailed
  | some p => do
    setShared fun s => { s with mainMmap := p }
    uffdioRegister p length
    if needPopulate then extmemMmapPopulate p length else pure ()
    setStats fun t => { t with memMmaped := length }
    setInternalCall false
    pure p

/-- The claim of a page by `extmem_munmap` under `handler_lock`; a page that is
migrating is waited for once, and claimed then whatever its flag. -/
def takeUnmap (page : PageId) (e : Env) : Env :=
  ((e.setPage page fun p => { p with migrating := true }).startWork page).record (.doomed page)

def claimUnmap (page : PageId) : Paging Unit := do
  let busy ← Prog.atomic fun e =>
    if (e.sh.page page).migrating then (.ok true e : Outcome Abort Env Bool)
    else .ok false (takeUnmap page e)
  if busy then do
    waitMigrating page
    Prog.modify (takeUnmap page)
  else pure ()

/-- One page of the walk of `extmem_munmap`: the address of the next one. -/
def unmapPage (pageBoundry : Nat) : Paging Nat := do
  let page ← findPage pageBoundry
  match page with
  | some page => do
    claimUnmap page
    removePage page
    lrudiskRemovePage page
    let pagesize ← pagesizeOf page
    setStats fun t => { t with memAllocated := sub64 t.memAllocated pagesize }
    setStats fun t => { t with memMmaped := sub64 t.memMmaped pagesize }
    setStats fun t => { t with pagesFreed := add64 t.pagesFreed 1 }
    pure (add64 pageBoundry pagesize)
  | none => pure (add64 pageBoundry pageSize)

/-- The loop of `extmem_munmap` over the pages of its range. -/
def unmapWalk (addr length : Nat) : Paging Unit :=
  Prog.loop (fun pageBoundry => do
    if pageBoundry < add64 addr length then do
      let next ← unmapPage pageBoundry
      pure (.inl next)
    else pure (.inr ())) addr

def extmemMunmap (addr length : Nat) : Paging Unit := do
  setInternalCall true
  lockAllocator
  unmapWalk addr length
  let done ← libcMunmap addr length
  Prog.check done .munmapFailed
  unlockAllocator
  setInternalCall false

/-! Initialisation. -/

/-- `extmem_init`, from the point where the configuration is read. The descriptor that
is added last stands for no page; it keeps the hash from becoming empty. -/
def extmemInit : Paging Unit := do
  setInternalCall true
  uswapInitIouring
  lrudiskInit
  setShared fun s => { s with isInit := true }
  let dummyPage ← Prog.read (·.sh.nextPage)
  setShared fun s => { s with nextPage := s.nextPage + 1 }
  setPage dummyPage fun _ => UserPage.zero
  addPage dummyPage
  setInternalCall false

end ExtMem
