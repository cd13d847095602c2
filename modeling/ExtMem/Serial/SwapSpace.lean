import ExtMem.Serial.Conserved
import ExtMem.Serial.Served

/-! Swap space: which evictions find a disk frame, and that others fail only when all disk frames
hold swapped-out pages. -/
namespace ExtMem
open Threads Threads.Prog

variable {dramsize disksize : Nat} {e : Env}

private theorem countP_disk (dramsize disksize : Nat) :
    (initFrames dramsize disksize).countP (!·.dram) = pagesIn disksize := by
  simp [initFrames, List.countP_append, List.countP_map, Function.comp_def]

/-- Two pages of DRAM and three of disk. -/
def tightMachine : Env := booted (2 * pageSize) (3 * pageSize) false

/-- A page is evicted for a third one and comes back for the second one, both pages of DRAM are then
taken for victims, and the batch of the two starts. -/
def batchStory : List (Nat × List Nat × Paging Unit) :=
  [mapStep, loadStep 0, loadStep 1, loadStep 2, loadStep 0,
    shrinkStep 2, (12, [], lrudiskEvictionworkerVector)]

/-- Three pages are touched and the first again, which leaves its disk frame as its reserve; the
page that must make room for a fourth then finds no disk frame. -/
def reservingStory : List (Nat × List Nat × Paging Unit) :=
  [mapStep, loadStep 0, loadStep 1, loadStep 2, loadStep 0]

end ExtMem
