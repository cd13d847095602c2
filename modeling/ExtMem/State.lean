import ExtMem.Threads.Program
import ExtMem.Queues

/-! The data of the pager: page descriptors, the policy's lists, the page hash,
the kernel's page table and disk as far as the pager sees them, and one thread's
own variables. -/
namespace ExtMem
open Threads

abbrev PageId := Nat
abbrev Tid := Nat

def pageSize : Nat := 4096

/-- The contents of one page, by offset in the page. -/
abbrev Bytes := Fin pageSize → UInt8

def hugepageSize : Nat := 2 * 1024 * 1024
def corePrefetchRate : Nat := 32
def lowWaterThreshold : Nat := 85
def evictVectorSize : Nat := 8
def swapClusterCount : Nat := 32
/-- Entries of an io_uring submission queue (QD). -/
def queueDepth : Nat := 128

/-- Unsigned 64-bit addition, subtraction and multiplication. -/
def add64 (a b : Nat) : Nat := (a + b) % 2 ^ 64
def sub64 (a b : Nat) : Nat := (a + (2 ^ 64 - b % 2 ^ 64)) % 2 ^ 64
def mul64 (a b : Nat) : Nat := a * b % 2 ^ 64

/-- The address with the bits of the page offset cleared. -/
def pageBoundry (a : Nat) : Nat := a / pageSize * pageSize

inductive Pagetype where
  | hugep
  | basep
  deriving DecidableEq, Repr

/-- A value of `virtual_offset`. The code stores the bare number; the tag records
which of the two spaces it was allotted from, and no code reads the tag. -/
structure Frame where
  dram : Bool
  offset : Nat
  deriving DecidableEq, Repr

/-- The policy's lists. -/
inductive FifoList where
  | activeList
  | inactiveList
  | diskActiveList
  | dramFreeList
  | diskFreeList
  | diskReserveList
  | evictionList
  deriving DecidableEq, Repr

/-- `struct user_page` without the links and the field `list`, which `Shared.fifos` holds. -/
@[ext] structure UserPage where
  va : Nat
  virtualOffset : Frame
  inDram : Bool
  swappedOut : Bool
  pt : Pagetype
  migrating : Bool
  hasReserve : Bool
  present : Bool
  naccesses : Nat
  reserve : Option PageId
  deriving DecidableEq, Repr

/-- A descriptor fresh from calloc. -/
def UserPage.zero : UserPage where
  va := 0
  virtualOffset := ⟨false, 0⟩
  inDram := false
  swappedOut := false
  pt := .hugep
  migrating := false
  hasReserve := false
  present := false
  naccesses := 0
  reserve := none

/-- What the kernel has at a page address: nothing, a mapping of its own, or a
mapping registered with userfaultfd. -/
inductive Vma where
  | none
  | plain
  | uffd
  deriving DecidableEq, Repr

/-- A present page table entry with the page it maps. -/
structure Pte where
  bytes : Bytes
  wp : Bool
  accessed : Bool
  dirty : Bool

/-- The memory a transfer or a copy goes from or to. -/
inductive Buffer where
  | pageCache
  | bufferSpace
  | prefetchSlot (i : Nat)
  | user (va : Nat)
  deriving DecidableEq, Repr

/-- A prepared or submitted request of an io_uring. -/
structure Sqe where
  isWrite : Bool
  offset : Nat
  buffer : Buffer
  size : Nat
  deriving DecidableEq, Repr

/-- What a tracer of list operations, system calls and the points at which a page
changes hands would record. -/
inductive Event where
  | enqueued (list : FifoList) (page : PageId)
  | dequeued (list : FifoList) (page : PageId)
  | removed (list : FifoList) (page : PageId)
  | wpSet (va : Nat) (protect : Bool)
  | copied (va : Nat) (source : Buffer)
  | unmapped (va : Nat)
  | flagsRead (va : Nat) (accessed dirty : Bool)
  | submitted (sqe : Sqe)
  | completed (sqe : Sqe) (res : Int)
  | stored (addr : Nat) (byte : UInt8)
  | mapped (start length : Nat)
  /-- A swap-in claims the page. -/
  | claimed (page : PageId)
  /-- `extmem_munmap` claims the page. -/
  | doomed (page : PageId)
  /-- `extmem_munmap` clears the page's address. -/
  | forgotten (page : PageId)
  /-- `extmem_munmap` clears `migrating` on the freed descriptor. -/
  | released (page : PageId)
  /-- A first fault puts the page of its address on the inactive list. -/
  | tracked (page : PageId) (va : Nat)
  /-- A major fault that another thread handles goes on. -/
  | resumed (page : PageId)
  /-- The kernel refuses to map or to unmap. -/
  | refused
  /-- An eviction has decided whether the victim is written back. -/
  | decided (page : PageId) (writeback : Bool)
  /-- The request that writes a victim back is prepared. -/
  | writing (page : PageId) (sqe : Sqe)
  /-- A victim is about to be unmapped. -/
  | dropping (page : PageId)
  /-- A batch goes to disk with the write-back decisions of its victims. -/
  | batch (writebacks : List Bool)
  /-- The pages that a prefetch has claimed are about to be read. -/
  | prefetching (found : List PageId)
  deriving DecidableEq, Repr

/-- The statistics, all uint64_t. -/
structure Stats where
  memMmaped : Nat
  memAllocated : Nat
  pagesAllocated : Nat
  pagesFreed : Nat
  firstFaultsHandled : Nat
  majorFaultsHandled : Nat
  migrationsUp : Nat
  migrationsDown : Nat
  bytesMigrated : Nat
  migrationWaits : Nat
  deriving DecidableEq, Repr

/-- Everything the threads share. `spurious` and `faulty` tell what the
environment may do: set accessed and dirty bits by itself, and fail transfers. -/
structure Shared where
  dramsize : Nat
  disksize : Nat
  isInit : Bool
  page : PageId → UserPage
  /-- Descriptors handed out by calloc so far. -/
  nextPage : Nat
  /-- The lists and, as the tag of a descriptor, its field `list`. -/
  fifos : Queues FifoList PageId
  pages : Nat → Option PageId
  allocatorLock : Bool
  shrinkageRunning : Bool
  kswapdRunning : Bool
  prevFaultGlobal1 : Nat
  prevFaultGlobal2 : Nat
  mainMmap : Nat
  stats : Stats
  vma : Nat → Vma
  pte : Nat → Option Pte
  disk : Nat → Bytes
  spurious : Bool
  faulty : Bool
  /-- Newest event first; read by no code. -/
  log : List (Tid × Event)

inductive RingName where
  | ioRing
  | ioReadRing
  deriving DecidableEq, Repr

/-- A thread's io_uring: prepared requests and those submitted but not yet seen. -/
structure Ring where
  init : Bool
  sq : List Sqe
  outstanding : List Sqe
  deriving DecidableEq, Repr

/-- The thread-local variables. The last three are auxiliary: the pages the thread has
looked up by an address, the pages it is at work on, and for the descriptors that are in
an eviction or a swap-in and do not have their final frames yet the frames they stand for.
No code reads them. -/
structure Local where
  tid : Tid
  internalCall : Bool
  bufferAllocated : Bool
  bufferSpace : Bytes
  prefetchBufferAllocated : Bool
  prefetchBuffer : Nat → Bytes
  prevFault1 : Nat
  prevFault2 : Nat
  ring : RingName → Ring
  examining : List (PageId × Nat)
  working : List PageId
  exchange : List (PageId × Frame)

abbrev Env := Threads.Ctx Shared Local

/-- The places at which the process ends, or at which a thread is stuck for good. -/
inductive Abort where
  /-- Linking an entry that is linked already would corrupt the lists. -/
  | enqueueLinked
  | mmapFailed
  | munmapFailed
  | copyFailed
  | writeprotectFailed
  | madviseFailed
  | segv
  | uninitialisedSubmit
  | uninitialisedWait
  | finishReadInit
  /-- A completion is waited for with no request outstanding. -/
  | emptyWait
  | getSqe
  | wpAddress
  | flagsAddress
  | unknownPagetype
  | addPageUnique
  | updiskInDram
  | updiskOffsets
  | updiskBuffer
  | updiskAddress
  | downdiskInDram
  | downdiskOffsets
  | downdiskSwappedOut
  | downdiskMigrating
  | swapinList (page : PageId)
  | swapinRemoved (page : PageId)
  | swapinFrame
  | ackSwapin
  | victimReserve
  | victimReserveList
  | victimReserveRemoved
  | diskpagePresent
  | noDiskPage
  | victimMigrating
  | victimSwappedOut
  | outOfMemory
  | trackPageList
  | putPageFreeList
  | putPageFreeVa
  | detachList (page : PageId)
  | detachRemoved (page : PageId)
  | removePageReserve
  | removePageReserveList
  | removePageConfiguration
  | firstFaultAddress
  | firstFaultVa
  | firstFaultInDram
  | missingFaultVa
  | prefetchBase
  | prefetchVa
  | mmapState
  | populateArguments
  /-- A signed addition has no value: C leaves open what follows. -/
  | intOverflow
  deriving DecidableEq, Repr

abbrev Paging := Prog Abort Env

namespace Shared

/-- Rewrite one descriptor. -/
def setPage (s : Shared) (d : PageId) (f : UserPage → UserPage) : Shared :=
  { s with page := Function.update s.page d (f (s.page d)) }

/-- The field `list` of a descriptor. -/
def list (s : Shared) (d : PageId) : Option FifoList := s.fifos.tag d

end Shared

/-- The events that a step adds to the log. -/
def newEvents (s s' : Shared) : List (Tid × Event) := s'.log.take (s'.log.length - s.log.length)

def Threads.Ctx.setPage (e : Env) (d : PageId) (f : UserPage → UserPage) : Env :=
  { e with sh := e.sh.setPage d f }

/-- Record an event under the thread that causes it. -/
def Threads.Ctx.record (e : Env) (ev : Event) : Env :=
  { e with sh := { e.sh with log := (e.loc.tid, ev) :: e.sh.log } }

/-! The auxiliary variables. -/

def Threads.Ctx.startLook (e : Env) (d : PageId) (va : Nat) : Env :=
  { e with loc := { e.loc with examining := (d, va) :: e.loc.examining } }

def Threads.Ctx.endLook (e : Env) (d : PageId) : Env :=
  { e with loc := { e.loc with examining := e.loc.examining.filter (·.1 != d) } }

def Threads.Ctx.startWork (e : Env) (d : PageId) : Env :=
  { e with loc := { e.loc with working := d :: e.loc.working } }

def Threads.Ctx.endWork (e : Env) (d : PageId) : Env :=
  { e with loc := { e.loc with working := e.loc.working.filter (· != d) } }

def Threads.Ctx.joinExchange (e : Env) (d : PageId) : Env :=
  { e with loc := { e.loc with
      exchange := (d, (e.sh.page d).virtualOffset) :: e.loc.exchange } }

/-- A descriptor leaves the exchange with its final frame; the other one stands for the
frame that it stood for. -/
def Threads.Ctx.settleExchange (e : Env) (d f : PageId) : Env :=
  { e with loc := { e.loc with exchange := (e.loc.exchange.filter (·.1 != d)).map fun x =>
      if x.1 = f then (f, (e.loc.exchange.lookup d).getD x.2) else x } }

def Threads.Ctx.leaveExchange (e : Env) (d : PageId) : Env :=
  { e with loc := { e.loc with exchange := e.loc.exchange.filter (·.1 != d) } }

/-- Read one field of a descriptor. -/
def field {α : Type} (d : PageId) (f : UserPage → α) : Paging α :=
  Prog.read fun e => f (e.sh.page d)

/-- Write fields of a descriptor. -/
def setPage (d : PageId) (f : UserPage → UserPage) : Paging Unit := Prog.modify (·.setPage d f)

/-- An assertion about one field of a descriptor. -/
def assertPage (d : PageId) (c : UserPage → Bool) (why : Abort) : Paging Unit :=
  Prog.assert (fun e => c (e.sh.page d)) why

def setShared (f : Shared → Shared) : Paging Unit := Prog.modify fun e => { e with sh := f e.sh }

def setLocal (f : Local → Local) : Paging Unit := Prog.modify fun e => { e with loc := f e.loc }

/-- Record an event in an action of its own. -/
def traceEvent (ev : Event) : Paging Unit := Prog.modify (·.record ev)

def setStats (f : Stats → Stats) : Paging Unit := setShared fun s => { s with stats := f s.stats }

/-- `pt_to_pagesize`. -/
def ptToPagesize : Pagetype → Nat
  | .hugep => hugepageSize
  | .basep => pageSize

end ExtMem
