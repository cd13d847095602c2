import ExtMem.Core

/-! The PageRank policy, where it is not the default one: its scan of the inactive list keeps the
pages around the one that was swapped in last, and a worker prefetches a block ahead of it. -/
namespace ExtMem.PageRank
open Threads

/-- `PR_WINDOW_SIZE`, the value of `pagerank_window_size`. -/
def pagerankWindowSize : Nat := 128 * 1024 * 1024

/-- The addresses around `safe_to_free` that the scan keeps. -/
def inWindow (safeToFree va : Nat) : Bool :=
  (va < safeToFree && safeToFree - va < 32 * 4096 * 4096) ||
    (va > safeToFree && va - safeToFree < pagerankWindowSize + 512 * 4096)

/-- What the scan does with one page when `safe_to_free` is set. Whether it went to the
eviction list. -/
def scanWindowPage (safeToFree : Nat) (page : PageId) : Paging Bool := do
  let va ← field page (·.va)
  if !inWindow safeToFree va then do
    enqueueFifo .evictionList page
    pure true
  else do
    enqueueFifo .inactiveList page
    pure false

/-- The loop of the scan, which the source writes out for either kind of page check. -/
def scanLoop (scan : PageId → Paging Bool) (nrPages : Nat) : Paging Nat :=
  Prog.loop (fun ((ret, tries) : Nat × Nat) => do
    let len ← numentries .inactiveList
    if ret < nrPages ∧ len > 0 ∧ tries < nrPages * 100 then do
      let page ← dequeueFifo .inactiveList
      match page with
      | some page => do
        let evicted ← scan page
        pure (.inl (if evicted then ret + 1 else ret, tries + 1))
      | none => pure (.inl (ret, tries))
    else pure (.inr ret)) (0, 0)

/-- `shrink_inactive_list` of the PageRank policy. While `safe_to_free` is zero it looks at the
accessed bits as the default policy does. -/
def shrinkInactiveList (safeToFree nrPages : Nat) : Paging Nat := do
  let len ← numentries .inactiveList
  let nrPages := if nrPages = 0 ∨ nrPages > len then len else nrPages
  setShared fun s => { s with shrinkageRunning := true }
  let ret ← scanLoop (if safeToFree = 0 then scanInactivePage else scanWindowPage safeToFree)
    nrPages
  setShared fun s => { s with shrinkageRunning := false }
  pure ret

/-- `direct_allocate_page_asynch` of the PageRank policy, which leaves the active list alone. -/
def directAllocatePageAsynch (safeToFree : Nat) (nrPages : Int) (priority : Nat) : Paging Int := do
  let inactive ← numentries .inactiveList
  let toScanInactive := int32 (inactive >>> priority : Nat)
  Prog.loop (fun ((reclaimed, nrScannedInactive) : Int × Int) => do
    if nrScannedInactive < toScanInactive ∧ reclaimed < nrPages then do
      let ret ← shrinkInactiveList safeToFree swapClusterCount
      let reclaimed ← addInt reclaimed ret
      let nrScannedInactive ← addInt nrScannedInactive swapClusterCount
      pure (.inl (reclaimed, nrScannedInactive))
    else pure (.inr reclaimed)) (0, 0)

def lrudiskPagefault (safeToFree : Nat) : Paging PageId :=
  lrudiskPagefaultBy (directAllocatePageAsynch safeToFree)

/-- `PR_BLOCK_SIZE`, the value of `pagerank_block_size`. -/
def pagerankBlockSize : Nat := 32 * 1024 * 1024

/-- One round of `lrudisk_prefetchworker`, for the block that starts at `block_head`. A prefetch
leaves `safe_to_free` as it is. -/
def lrudiskPrefetchworker (safeToFree blockHead : Nat) : Paging Unit :=
  Prog.loop (fun prefetchHead => do
    if prefetchHead ≤ add64 blockHead pagerankBlockSize then do
      Prog.check (prefetchHead % pageSize == 0) .prefetchBase
      let nrPrefetched ← coreTryPrefetchBy (lrudiskPagefault safeToFree) prefetchHead
      if nrPrefetched = 0 then pure (.inr ())
      else pure (.inl (add64 prefetchHead (nrPrefetched * pageSize)))
    else pure (.inr ())) blockHead

end ExtMem.PageRank
