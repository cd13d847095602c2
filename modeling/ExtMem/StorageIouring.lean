import ExtMem.Kernel

/-! The asynchronous storage of storage_iouring.c. Each thread has two rings that it
initialises on first use. The code looks at no completion's result. -/
namespace ExtMem
open Threads

def Local.setRing (l : Local) (r : RingName) (f : Ring → Ring) : Local :=
  { l with ring := Function.update l.ring r (f (l.ring r)) }

/-- The first bytes from one page, the rest from another. -/
def splice (n : Nat) (new old : Bytes) : Bytes := fun i => if i.val < n then new i else old i

/-- The result a completion reports: the whole size, or a smaller one or any error that a
faulty device likes. A write from memory that is not mapped fails. -/
def Threads.Ctx.transferResult (e : Env) (sqe : Sqe) (code : Nat) : Int :=
  if sqe.isWrite ∧ (e.bufferBytes sqe.buffer).isNone then -14
  else if e.sh.faulty then (if code ≤ sqe.size then code else (sqe.size : Int) - code)
  else sqe.size

def Threads.Ctx.setBuffer (e : Env) (b : Buffer) (f : Bytes → Bytes) : Env :=
  match b with
  | .bufferSpace => { e with loc := { e.loc with bufferSpace := f e.loc.bufferSpace } }
  | .prefetchSlot i => { e with loc := { e.loc with
      prefetchBuffer := Function.update e.loc.prefetchBuffer i (f (e.loc.prefetchBuffer i)) } }
  | _ => e

/-- Move the bytes a transfer reports as done. -/
def Threads.Ctx.transfer (e : Env) (sqe : Sqe) (res : Int) : Env :=
  if sqe.isWrite then
    match e.bufferBytes sqe.buffer with
    | none => e
    | some bytes => { e with sh := { e.sh with
        disk := Function.update e.sh.disk sqe.offset
          (splice res.toNat bytes (e.sh.disk sqe.offset)) } }
  else e.setBuffer sqe.buffer fun old => splice res.toNat (e.sh.disk sqe.offset) old

def ioUringQueueInit (r : RingName) : Paging Unit :=
  setLocal (·.setRing r fun _ => ⟨true, [], []⟩)

/-- `io_uring_get_sqe` and the preparation of the entry. -/
def ioUringPrep (r : RingName) (sqe : Sqe) : Paging Unit :=
  Prog.atomic fun e =>
    if (e.loc.ring r).sq.length < queueDepth then
      .ok () { e with loc := e.loc.setRing r fun q => { q with sq := q.sq ++ [sqe] } }
    else .abort .getSqe

/-- `io_uring_submit`: everything prepared is submitted. -/
def ioUringSubmit (r : RingName) : Paging Unit :=
  Prog.atomic fun e =>
    let q := e.loc.ring r
    if q.init then
      .ok () (q.sq.foldl (fun e sqe => e.record (.submitted sqe))
        { e with loc := e.loc.setRing r fun q =>
          { q with sq := [], outstanding := q.outstanding ++ q.sq } })
    else .abort .uninitialisedSubmit

/-- `io_uring_wait_cqe` and `io_uring_cqe_seen`: any outstanding request may be the
one that completes; with none outstanding the wait never ends. -/
def ioUringWaitCqe (r : RingName) : Paging Unit := do
  let pick ← Prog.answer
  let code ← Prog.answer
  Prog.atomic fun e =>
    let q := e.loc.ring r
    if q.init then
      match q.outstanding[pick % q.outstanding.length]? with
      | none => .abort .emptyWait
      | some sqe =>
        let res := e.transferResult sqe code
        .ok () (({ e with loc := e.loc.setRing r fun q =>
          { q with outstanding := q.outstanding.erase sqe } }.transfer sqe res).record
            (.completed sqe res))
    else .abort .uninitialisedWait

def threadInitIouring : Paging Unit := ioUringQueueInit .ioRing

def threadInitReadIouring : Paging Unit := ioUringQueueInit .ioReadRing

def uswapInitIouring : Paging Unit := ioUringQueueInit .ioRing

/-- The initialisation of one of a thread's two rings. -/
def threadInit : RingName → Paging Unit
  | .ioRing => threadInitIouring
  | .ioReadRing => threadInitReadIouring

@[simp] theorem threadInit_eq (r : RingName) : threadInit r = ioUringQueueInit r := by
  cases r <;> rfl

/-- Initialise a ring of this thread unless that was done before. -/
def initOnce (r : RingName) : Paging Unit := do
  let init ← Prog.read fun e => (e.loc.ring r).init
  if init then pure () else threadInit r

def ioringReadStore (offset : Nat) (buffer : Buffer) (size : Nat) : Paging Unit := do
  initOnce .ioRing
  ioUringPrep .ioRing ⟨false, offset, buffer, size⟩
  ioUringSubmit .ioRing
  ioUringWaitCqe .ioRing

def ioringWriteStore (offset : Nat) (data : Buffer) (size : Nat) : Paging Unit := do
  initOnce .ioRing
  ioUringPrep .ioRing ⟨true, offset, data, size⟩
  ioUringSubmit .ioRing
  ioUringWaitCqe .ioRing

def ioringStartRead (offset : Nat) (buffer : Buffer) (size : Nat) : Paging Unit := do
  initOnce .ioReadRing
  ioUringPrep .ioReadRing ⟨false, offset, buffer, size⟩
  ioUringSubmit .ioReadRing

def ioringPrepareRead (offset : Nat) (buffer : Buffer) (size : Nat) : Paging Unit := do
  initOnce .ioReadRing
  ioUringPrep .ioReadRing ⟨false, offset, buffer, size⟩

def ioringSubmitAllReads : Paging Unit := ioUringSubmit .ioReadRing

def ioringFinishRead : Paging Unit := do
  Prog.assert (fun e => (e.loc.ring .ioReadRing).init) .finishReadInit
  ioUringWaitCqe .ioReadRing

def ioringPrepareWrite (offset : Nat) (data : Buffer) (size : Nat) : Paging Unit := do
  initOnce .ioRing
  ioUringPrep .ioRing ⟨true, offset, data, size⟩

def ioringSubmitAllWrites : Paging Unit := ioUringSubmit .ioRing

def ioringFinishWrite : Paging Unit := ioUringWaitCqe .ioRing

end ExtMem
