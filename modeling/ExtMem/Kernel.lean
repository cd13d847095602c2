import ExtMem.State

/-! The kernel as the pager uses it: mappings, userfaultfd, the custom flag
ioctls and madvise. -/
namespace ExtMem
open Threads

/-- Whether a page address lies in a byte range that does not wrap. -/
def inRange (start length a : Nat) : Bool := start ≤ a && a < start + length

/-- The end of the address space a process may map. -/
def taskSize : Nat := 2 ^ 47 - 4096

namespace Shared

/-- Give every page of the range one kind of mapping and drop what it had mapped. -/
def remap (s : Shared) (start length : Nat) (v : Vma) : Shared :=
  { s with
    vma := fun a => if inRange start length a then v else s.vma a
    pte := fun a => if inRange start length a then none else s.pte a }

def setPte (s : Shared) (va : Nat) (e : Option Pte) : Shared :=
  { s with pte := Function.update s.pte va e }

/-- Set the write protection of a page that is present. -/
def protect (s : Shared) (va : Nat) (wp : Bool) : Shared :=
  s.setPte va ((s.pte va).map fun p : Pte => { p with wp := wp })

def clearAccessed (s : Shared) (va : Nat) : Shared :=
  s.setPte va ((s.pte va).map fun p : Pte => { p with accessed := false })

/-- No page of the range is mapped. -/
def rangeFree (s : Shared) (start length : Nat) : Bool :=
  (List.range (length / pageSize)).all fun i => s.vma (start + i * pageSize) = .none

end Shared

/-- The contents of a buffer, absent where a user page is not mapped. -/
def Threads.Ctx.bufferBytes (e : Env) : Buffer → Option Bytes
  | .pageCache => some fun _ => 0
  | .bufferSpace => some e.loc.bufferSpace
  | .prefetchSlot i => some (e.loc.prefetchBuffer i)
  | .user va => (e.sh.pte va).map (·.bytes)

def mapShared : BitVec 32 := 0x01
def mapPrivate : BitVec 32 := 0x02
def mapFixed : BitVec 32 := 0x10
def mapAnonymous : BitVec 32 := 0x20
def mapNoreserve : BitVec 32 := 0x4000
def mapPopulate : BitVec 32 := 0x8000
def mapStack : BitVec 32 := 0x20000
def mapHugetlb : BitVec 32 := 0x40000

def hasFlag (flags f : BitVec 32) : Bool := flags &&& f = f

/-- `mmap` as the kernel answers it. The kernel may refuse any call. With MAP_FIXED
it replaces what was mapped in the range; otherwise it picks a range that is free. -/
def libcMmap (addr length : Nat) (flags : BitVec 32) : Paging (Option Nat) := do
  let refuse ← Prog.answer
  let pick ← Prog.answer
  Prog.atomic fun e =>
    let p := if hasFlag flags mapFixed then addr else pick
    if refuse % 2 = 1 ∨ length = 0 ∨ p = 0 ∨ p % pageSize ≠ 0 ∨ taskSize < p + length then
      .ok none (e.record .refused)
    else if hasFlag flags mapFixed = false ∧ e.sh.rangeFree p length = false then
      .ok none (e.record .refused)
    else .ok (some p) ({ e with sh := e.sh.remap p length .plain }.record (.mapped p length))

/-- The bytes the kernel unmaps for a length: it rounds up to whole pages. -/
def roundLength (length : Nat) : Nat := (length + (pageSize - 1)) / pageSize * pageSize

/-- `munmap` as the kernel answers it: whether it succeeded. -/
def libcMunmap (addr length : Nat) : Paging Bool := do
  let refuse ← Prog.answer
  Prog.atomic fun e =>
    if refuse % 2 = 1 ∨ length = 0 ∨ addr % pageSize ≠ 0 ∨ taskSize < addr + length then
      .ok false (e.record .refused)
    else .ok true { e with sh := e.sh.remap addr (roundLength length) .none }

/-- Register a fresh mapping with userfaultfd. -/
def uffdioRegister (start length : Nat) : Paging Unit :=
  setShared fun s => { s with vma := fun a => if inRange start length a then .uffd else s.vma a }

/-- UFFDIO_COPY: fails outside a registered mapping and on a page that is present. -/
def uffdioCopy (dst : Nat) (src : Buffer) : Paging Bool :=
  Prog.atomic fun e =>
    match e.bufferBytes src with
    | none => .ok false e
    | some bytes =>
      if e.sh.vma dst = .uffd ∧ (e.sh.pte dst).isNone then
        .ok true ({ e with sh := e.sh.setPte dst (some ⟨bytes, false, false, false⟩) }.record
          (.copied dst src))
      else .ok false e

/-- UFFDIO_WRITEPROTECT of one page; a page that is not present has nothing to protect. -/
def uffdioWriteprotect (va : Nat) (protect : Bool) : Paging Bool :=
  Prog.atomic fun e =>
    if e.sh.vma va = .uffd then
      .ok true ({ e with sh := e.sh.protect va protect }.record (.wpSet va protect))
    else .ok false e

/-- `madvise(MADV_DONTNEED)` of one page. -/
def madviseDontneed (va : Nat) : Paging Bool :=
  Prog.atomic fun e =>
    if e.sh.vma va = .none then .ok false e
    else .ok true ({ e with sh := e.sh.setPte va none }.record (.unmapped va))

/-- An accessed or dirty bit as it reads, given one the environment offers. -/
def seenBit (s : Shared) (bit : Bool) (offered : Nat) : Bool :=
  bit || (s.spurious && offered % 2 == 1)

/-- The flags UFFDIO_GET_FLAG reports. -/
structure PtBits where
  accessed : Bool
  dirty : Bool
  deriving DecidableEq, Repr

/-- `pt_get_bits`. Bits may be set up to the moment they are read. -/
def ptGetBits (page : PageId) : Paging PtBits := do
  let va ← field page (·.va)
  Prog.check (va % pageSize == 0) .flagsAddress
  let accessed ← Prog.answer
  let dirty ← Prog.answer
  Prog.atomic fun e =>
    match e.sh.pte va with
    | none =>
      let bits : PtBits := ⟨seenBit e.sh false accessed, seenBit e.sh false dirty⟩
      .ok bits (e.record (.flagsRead va bits.accessed bits.dirty))
    | some p =>
      let bits : PtBits := ⟨seenBit e.sh p.accessed accessed, seenBit e.sh p.dirty dirty⟩
      let p := { p with accessed := bits.accessed, dirty := bits.dirty }
      .ok bits ({ e with sh := e.sh.setPte va (some p) }.record
        (.flagsRead va bits.accessed bits.dirty))

/-- `pt_clear_accessed_flag`: the dirty flag is left alone. -/
def ptClearAccessedFlag (page : PageId) : Paging Unit := do
  let va ← field page (·.va)
  Prog.check (va % pageSize == 0) .flagsAddress
  setShared fun s => s.clearAccessed va

end ExtMem
