import ExtMem.State

/-! The lists of fifo.c. Each operation runs under its list's lock and is one action. -/
namespace ExtMem
open Threads

/-- The lists of pages that are in DRAM. -/
def FifoList.resident : FifoList → Bool
  | .activeList | .inactiveList | .evictionList => true
  | _ => false

/-- Append at the newest end and set the membership tag. -/
def Threads.Ctx.enqueue (e : Env) (queue : FifoList) (entry : PageId) : Env :=
  { e with sh := { e.sh with fifos := e.sh.fifos.enqueue queue entry } }.record
    (.enqueued queue entry)

/-- Unlink the oldest entry and clear its tag. -/
def Threads.Ctx.dequeue (e : Env) (queue : FifoList) (entry : PageId) : Env :=
  { e with sh := { e.sh with fifos := e.sh.fifos.unlink entry } }.record (.dequeued queue entry)

/-- Unlink an entry and clear its tag. -/
def Threads.Ctx.remove (e : Env) (queue : FifoList) (entry : PageId) : Env :=
  { e with sh := { e.sh with fifos := e.sh.fifos.unlink entry } }.record (.removed queue entry)

/-- Take up to a number of the oldest entries, one after the other, with an auxiliary
update for each. -/
def Threads.Ctx.dequeueVector (queue : FifoList) (aux : PageId → Env → Env) : Nat → Env →
    Env × List PageId
  | 0, e => (e, [])
  | n + 1, e =>
    match e.sh.fifos.seq queue with
    | [] => (e, [])
    | d :: _ =>
      let rest := Threads.Ctx.dequeueVector queue aux n (aux d (e.dequeue queue d))
      (rest.1, d :: rest.2)

/-- `enqueue_fifo`, with an auxiliary update at the same moment. -/
def enqueueFifoThen (queue : FifoList) (entry : PageId) (aux : Env → Env) : Paging Unit :=
  Prog.atomic fun e =>
    if (e.sh.list entry).isNone then .ok () (aux (e.enqueue queue entry))
    else .abort .enqueueLinked

def enqueueFifo (queue : FifoList) (entry : PageId) : Paging Unit :=
  enqueueFifoThen queue entry id

/-- `dequeue_fifo`, with an auxiliary update at the same moment. -/
def dequeueFifoThen (queue : FifoList) (aux : PageId → Env → Env) : Paging (Option PageId) :=
  Prog.atomic fun e =>
    match e.sh.fifos.seq queue with
    | [] => .ok none e
    | d :: _ => .ok (some d) (aux d (e.dequeue queue d))

def dequeueFifo (queue : FifoList) : Paging (Option PageId) := dequeueFifoThen queue fun _ => id

/-- `dequeue_fifo_vector`, with an auxiliary update at the same moment. -/
def dequeueFifoVectorThen (queue : FifoList) (nrFetch : Nat) (aux : PageId → Env → Env) :
    Paging (List PageId) :=
  Prog.atomic fun e =>
    let taken := Ctx.dequeueVector queue aux nrFetch e
    .ok taken.2 taken.1

/-- `page_list_tryremove_page`: whether the page was on the list and is removed now. -/
def pageListTryremovePageThen (list : Option FifoList) (page : PageId) (aux : Env → Env) :
    Paging Bool :=
  Prog.atomic fun e =>
    match list with
    | none => .ok false e
    | some l =>
      if e.sh.list page = some l then .ok true (aux (e.remove l page)) else .ok false e

def pageListTryremovePage (list : Option FifoList) (page : PageId) : Paging Bool :=
  pageListTryremovePageThen list page id

/-- The field `list` of a descriptor, read without the list's lock. -/
def readList (d : PageId) : Paging (Option FifoList) := Prog.read fun e => e.sh.list d

/-- An assertion about the field `list` of a descriptor. -/
def assertList (d : PageId) (c : Option FifoList → Bool) (why : Abort) : Paging Unit :=
  Prog.assert (fun e => c (e.sh.list d)) why

/-- The entry count of a list, read without its lock. -/
def numentries (l : FifoList) : Paging Nat := Prog.read fun e => (e.sh.fifos.seq l).length

end ExtMem
