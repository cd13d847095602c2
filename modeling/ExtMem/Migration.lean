import ExtMem.Fifo
import ExtMem.StorageIouring

/-! Moving one page or a batch between DRAM and disk: the migration functions of core.c. -/
namespace ExtMem
open Threads

def pagesizeOf (page : PageId) : Paging Nat := field page fun p => ptToPagesize p.pt

def extmemWpPage (page : PageId) (protect : Bool) : Paging Unit := do
  let addr ← field page (·.va)
  Prog.check (addr != 0) .wpAddress
  Prog.check (addr % pageSize == 0) .wpAddress
  let done ← uffdioWriteprotect addr protect
  Prog.check done .writeprotectFailed

/-- The copy of a swapped-in page into place, which must succeed. -/
def copyIn (page : PageId) (src : Buffer) : Paging Unit := do
  let va ← field page (·.va)
  let done ← uffdioCopy va src
  Prog.check done .copyFailed

/-- Allocate the thread's one-page buffer on first use. -/
def allocateBuffer : Paging Unit := do
  let allocated ← Prog.read (·.loc.bufferAllocated)
  if allocated then pure ()
  else setLocal fun l => { l with bufferSpace := fun _ => 0, bufferAllocated := true }

/-- The bounds asserted of an offset in a space of a given size. -/
def offsetFits (offset pagesize size : Nat) : Bool :=
  offset < size && add64 offset pagesize ≤ size

theorem offsetFits_of_le {offset pagesize size : Nat} (hp : 0 < pagesize)
    (h : offset + pagesize ≤ size) (hsize : size < 2 ^ 64) :
    offsetFits offset pagesize size = true := by
  unfold offsetFits add64
  rw [Bool.and_eq_true, decide_eq_true_eq, decide_eq_true_eq,
    Nat.mod_eq_of_lt (Nat.lt_of_le_of_lt h hsize)]
  exact ⟨Nat.lt_of_lt_of_le (Nat.lt_add_of_pos_right hp) h, h⟩

def extmemMigrateUpdisk (page : PageId) (dramOffset : Frame) : Paging Unit := do
  assertPage page (!·.inDram) .updiskInDram
  allocateBuffer
  let pagesize ← pagesizeOf page
  let diskAddrOffset ← field page (·.virtualOffset)
  Prog.assert (fun e => diskAddrOffset.offset < e.sh.disksize) .updiskOffsets
  Prog.assert (fun e => dramOffset.offset < e.sh.dramsize) .updiskOffsets
  ioringReadStore diskAddrOffset.offset .bufferSpace pagesize
  copyIn page .bufferSpace
  assertPage page (·.va % pageSize == 0) .updiskAddress
  setStats fun t => { t with migrationsUp := add64 t.migrationsUp 1 }
  setPage page fun p => { p with virtualOffset := dramOffset }
  setPage page fun p => { p with inDram := true }
  setStats fun t => { t with bytesMigrated := add64 t.bytesMigrated pagesize }

def coreMigrateUpAsyncStart (page : PageId) : Paging Unit := do
  assertPage page (!·.inDram) .updiskInDram
  allocateBuffer
  let pagesize ← pagesizeOf page
  let diskAddrOffset ← field page (·.virtualOffset)
  Prog.assert (fun e => offsetFits diskAddrOffset.offset pagesize e.sh.disksize) .updiskOffsets
  ioringStartRead diskAddrOffset.offset .bufferSpace pagesize

def coreMigrateUpAsyncFinish (page : PageId) (dramOffset : Frame) : Paging Unit := do
  assertPage page (!·.inDram) .updiskInDram
  Prog.assert (·.loc.bufferAllocated) .updiskBuffer
  let pagesize ← pagesizeOf page
  let diskAddrOffset ← field page (·.virtualOffset)
  Prog.assert (fun e => offsetFits diskAddrOffset.offset pagesize e.sh.disksize) .updiskOffsets
  Prog.assert (fun e => offsetFits dramOffset.offset pagesize e.sh.dramsize) .updiskOffsets
  ioringFinishRead
  copyIn page .bufferSpace
  assertPage page (·.va % pageSize == 0) .updiskAddress
  setStats fun t => { t with migrationsUp := add64 t.migrationsUp 1 }
  setPage page fun p => { p with virtualOffset := dramOffset }
  setPage page fun p => { p with inDram := true }
  setStats fun t => { t with bytesMigrated := add64 t.bytesMigrated pagesize }

/-- The end of an eviction under `handler_lock`: assert, set and assert again. -/
def markSwappedOut (page : PageId) (e : Env) : Outcome Abort Env Unit :=
  if (e.sh.page page).swappedOut then .abort .downdiskSwappedOut
  else if (e.sh.page page).migrating then
    .ok () (e.setPage page fun p => { p with swappedOut := true })
  else .abort .downdiskMigrating

def dropMapping (va : Nat) : Paging Unit := do
  let done ← madviseDontneed va
  Prog.check done .madviseFailed

def extmemMigrateDowndisk (page : PageId) (diskOffset : Frame) (writeback : Bool) : Paging Unit := do
  setPage page fun p => { p with migrating := true }
  assertPage page (·.inDram) .downdiskInDram
  let pagesize ← pagesizeOf page
  let oldAddrOffset ← field page (·.virtualOffset)
  Prog.assert (fun e => offsetFits oldAddrOffset.offset pagesize e.sh.dramsize) .downdiskOffsets
  Prog.assert (fun e => offsetFits diskOffset.offset pagesize e.sh.disksize) .downdiskOffsets
  let va ← field page (·.va)
  if writeback then do
    traceEvent (.writing page ⟨true, diskOffset.offset, .user va, pagesize⟩)
    ioringWriteStore diskOffset.offset (.user va) pagesize
  else pure ()
  traceEvent (.dropping page)
  dropMapping va
  setStats fun t => { t with migrationsDown := add64 t.migrationsDown 1 }
  setPage page fun p => { p with virtualOffset := diskOffset }
  setPage page fun p => { p with inDram := false }
  setStats fun t => { t with bytesMigrated := add64 t.bytesMigrated pagesize }
  Prog.atomic (markSwappedOut page)

/-- One position of the arrays `victim`, `old_offset`, `writeback` and `diskpage`. -/
structure Slot where
  victim : PageId
  oldOffset : Frame
  writeback : Bool
  diskpage : PageId
  deriving DecidableEq, Repr

/-- One critical section marks the whole batch, in order. -/
def markAllSwappedOut : List Slot → Env → Outcome Abort Env Unit
  | [], e => .ok () e
  | x :: l, e =>
    match markSwappedOut x.victim e with
    | .ok _ e' => markAllSwappedOut l e'
    | .wait => .wait
    | .abort why => .abort why

/-- Prepare the write of one victim if it needs one; whether it did. -/
def prepareSlot (x : Slot) : Paging Bool := do
  assertPage x.victim (·.inDram) .downdiskInDram
  if x.writeback then do
    let newAddr ← field x.diskpage (·.virtualOffset)
    let va ← field x.victim (·.va)
    traceEvent (.writing x.victim ⟨true, newAddr.offset, .user va, pageSize⟩)
    ioringPrepareWrite newAddr.offset (.user va) pageSize
    pure true
  else pure false

def unmapSlot (x : Slot) : Paging Unit := do
  let va ← field x.victim (·.va)
  traceEvent (.dropping x.victim)
  dropMapping va

def moveSlot (x : Slot) : Paging Unit := do
  setStats fun t => { t with migrationsDown := add64 t.migrationsDown 1 }
  let newOffset ← field x.diskpage (·.virtualOffset)
  setPage x.victim fun p => { p with virtualOffset := newOffset }
  setPage x.victim fun p => { p with inDram := false }
  setStats fun t => { t with bytesMigrated := add64 t.bytesMigrated pageSize }

def extmemMigrateDowndiskVector (batch : List Slot) : Paging Unit := do
  traceEvent (.batch (batch.map (·.writeback)))
  let written ← Prog.collect prepareSlot batch
  ioringSubmitAllWrites
  Prog.each (fun _ => ioringFinishWrite) (written.filter id)
  Prog.each unmapSlot batch
  Prog.each moveSlot batch
  Prog.atomic (markAllSwappedOut batch)

end ExtMem
