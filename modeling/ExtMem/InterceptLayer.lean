import ExtMem.Core

/-! The filters of intercept_layer.c that system calls of the program pass through. -/
namespace ExtMem
open Threads

/-- Mappings below this length go to the kernel. -/
def minMmapLength : Nat := 2 * 1024 * 1024 * 1024

/-- `mmap_filter`: the result of the pager, or nothing where the call is left to the kernel. -/
def mmapFilter (addr length : Nat) (flags : BitVec 32) : Paging (Option Nat) := do
  if hasFlag flags mapAnonymous = false then pure none
  else if hasFlag flags mapStack then pure none
  else do
    let internalCall ← Prog.read (·.loc.internalCall)
    if internalCall then pure none
    else do
      let isInit ← Prog.read (·.sh.isInit)
      if isInit = false then pure none
      else if length < minMmapLength then pure none
      else do
        let result ← extmemMmap addr length flags
        pure (some result)

/-- `munmap_filter`: whether the pager handled the call. -/
def munmapFilter (addr length : Nat) : Paging Bool := do
  let internalCall ← Prog.read (·.loc.internalCall)
  if internalCall then pure false
  else do
    extmemMunmap addr length
    pure true

end ExtMem
