import ExtMem.Core

/-! The hash of the pages as uthash.h keeps it, with its buckets and their expansion, and the
functions of core.c that use it. -/
namespace ExtMem.Uthash

/-- The links of all handles of one kind: `prev` and `next`, or `hh_prev` and `hh_next`. -/
structure Pairs (α : Type) where
  prev : α → Option α
  next : α → Option α

/-- `UT_hash_bucket`. -/
structure Bucket (α : Type) where
  hhHead : Option α
  count : BitVec 32
  expandMult : BitVec 32

/-- A bucket fresh from `uthash_bzero`. -/
def Bucket.zero {α : Type} : Bucket α := ⟨none, 0, 0⟩

/-- `UT_hash_table`. -/
structure Table (α : Type) where
  buckets : Nat → Bucket α
  numBuckets : BitVec 32
  log2NumBuckets : BitVec 32
  numItems : BitVec 32
  tail : Option α
  idealChainMaxlen : BitVec 32
  nonidealItems : BitVec 32
  ineffExpands : BitVec 32
  noexpand : Bool

/-- The head, the table to which the handles of all items lead, and the handles. An item's key is a
field of its own, which the handle only points to. -/
structure Hash (α : Type) where
  head : Option α
  tbl : Table α
  app : Pairs α
  hh : Pairs α
  hashv : α → BitVec 32

/-- How a call ends early: `uthash_fatal`, the assertion of `add_page`, or a loop that goes on for
too long. -/
inductive Stop where
  | exit
  | assertion
  | fuel
  deriving DecidableEq

/-! HASH_JEN for keys of eight bytes, the lowest of which comes first. -/

def hashJenMix (a b c : BitVec 32) : BitVec 32 × BitVec 32 × BitVec 32 :=
  let a := (a - b - c) ^^^ (c >>> 13)
  let b := (b - c - a) ^^^ (a <<< 8)
  let c := (c - a - b) ^^^ (b >>> 13)
  let a := (a - b - c) ^^^ (c >>> 12)
  let b := (b - c - a) ^^^ (a <<< 16)
  let c := (c - a - b) ^^^ (b >>> 5)
  let a := (a - b - c) ^^^ (c >>> 3)
  let b := (b - c - a) ^^^ (a <<< 10)
  let c := (c - a - b) ^^^ (b >>> 15)
  (a, b, c)

def hashJen (key : BitVec 64) : BitVec 32 :=
  let byte (i : Nat) : BitVec 32 := ((key >>> (8 * i)).setWidth 8).setWidth 32
  -- the loop over twelve bytes at a time is never entered
  let hashv := 0xfeedbeef#32 + 8
  let j := 0x9e3779b9#32 + (byte 7 <<< 24) + (byte 6 <<< 16) + (byte 5 <<< 8) + byte 4
  let i := 0x9e3779b9#32 + (byte 3 <<< 24) + (byte 2 <<< 16) + (byte 1 <<< 8) + byte 0
  (hashJenMix i j hashv).2.2

def hashToBkt (hashv numBkts : BitVec 32) : Nat := (hashv &&& (numBkts - 1)).toNat

section
variable {α κ : Type} [DecidableEq α]

namespace Pairs

def setPrev (p : Pairs α) (x : α) (v : Option α) : Pairs α :=
  { p with prev := Function.update p.prev x v }

def setNext (p : Pairs α) (x : α) (v : Option α) : Pairs α :=
  { p with next := Function.update p.next x v }

/-- The link of an item, unless the pointer to it is NULL. -/
def setPrevIf (p : Pairs α) (item v : Option α) : Pairs α :=
  match item with
  | some x => p.setPrev x v
  | none => p

def setNextIf (p : Pairs α) (item v : Option α) : Pairs α :=
  match item with
  | some x => p.setNext x v
  | none => p

end Pairs

/-! HASH_EXPAND_BUCKETS. -/

/-- What the expansion changes as it goes: the new buckets, the links of the chains and
`nonideal_items`. -/
structure Moving (α : Type) where
  buckets : Nat → Bucket α
  hh : Pairs α
  nonidealItems : BitVec 32

/-- One item goes to its new bucket. -/
def moveItem (hashv : α → BitVec 32) (numBkts ideal : BitVec 32) (w : Moving α)
    (thh : α) : Moving α :=
  let bkt := hashToBkt (hashv thh) numBkts
  let newbkt := w.buckets bkt
  let count := newbkt.count + 1
  let nonidealItems := if ideal < count then w.nonidealItems + 1 else w.nonidealItems
  let expandMult := if ideal < count ∧
    newbkt.expandMult * ideal < count then newbkt.expandMult + 1 else newbkt.expandMult
  let hh := w.hh.setPrev thh none
  let hh := hh.setNext thh newbkt.hhHead
  let hh := hh.setPrevIf newbkt.hhHead (some thh)
  ⟨Function.update w.buckets bkt ⟨some thh, count, expandMult⟩, hh, nonidealItems⟩

/-- The items of one old bucket go to their new buckets. -/
def moveChain (hashv : α → BitVec 32) (numBkts ideal : BitVec 32) :
    Nat → Option α → Moving α → Except Stop (Moving α)
  | _, none, w => pure w
  | 0, some _, _ => throw .fuel
  | fuel + 1, some thh, w =>
    let hhNxt := w.hh.next thh
    moveChain hashv numBkts ideal fuel hhNxt (moveItem hashv numBkts ideal w thh)

namespace Hash

/-- `malloc` tells which sizes in bytes it can give now; a bucket has 16. -/
def hashExpandBuckets (malloc : Nat → Bool) (fuel : Nat) (s : Hash α) : Except Stop (Hash α) := do
  let tbl := s.tbl
  if malloc (2 * tbl.numBuckets.toNat * 16) = false then throw .exit
  let ideal := (tbl.numItems >>> (tbl.log2NumBuckets + 1)) +
    if tbl.numItems &&& (tbl.numBuckets * 2 - 1) ≠ 0 then 1 else 0
  let w ← (List.range tbl.numBuckets.toNat).foldlM
    (fun w i => moveChain s.hashv (tbl.numBuckets * 2) ideal fuel (tbl.buckets i).hhHead w)
      ⟨fun _ => .zero, s.hh, 0⟩
  let ineffExpands := if tbl.numItems >>> 1 < w.nonidealItems then tbl.ineffExpands + 1 else 0
  let noexpand := if 1 < ineffExpands then true else tbl.noexpand
  let tbl := { tbl with
    buckets := w.buckets
    numBuckets := tbl.numBuckets * 2
    log2NumBuckets := tbl.log2NumBuckets + 1
    idealChainMaxlen := ideal
    nonidealItems := w.nonidealItems
    ineffExpands
    noexpand }
  pure { s with hh := w.hh, tbl }

/-! HASH_FIND. -/

def hashFindInBkt (key : α → κ) [DecidableEq κ] (s : Hash α) (k : κ) (hashval : BitVec 32) :
    Nat → Option α → Except Stop (Option α)
  | _, none => pure none
  | 0, some _ => throw .fuel
  | fuel + 1, some out =>
    if s.hashv out = hashval ∧ key out = k then pure (some out)
    else s.hashFindInBkt key k hashval fuel (s.hh.next out)

def hashFind (hashFcn : κ → BitVec 32) (key : α → κ) [DecidableEq κ] (fuel : Nat) (s : Hash α)
    (k : κ) : Except Stop (Option α) :=
  if s.head.isNone then pure none
  else
    let hashval := hashFcn k
    s.hashFindInBkt key k hashval fuel (s.tbl.buckets (hashToBkt hashval s.tbl.numBuckets)).hhHead

/-! HASH_ADD. -/

/-- The table itself has 64 bytes. -/
def hashMakeTable (malloc : Nat → Bool) (s : Hash α) (head : α) : Except Stop (Hash α) := do
  if malloc 64 = false then throw .exit
  if malloc (2097152 * 16) = false then throw .exit
  pure { s with tbl := ⟨fun _ => .zero, 2097152, 21, 0, some head, 0, 0, 0, false⟩ }

def hashAppendList (s : Hash α) (add : α) : Hash α :=
  let app := s.app.setNext add none
  let app := app.setPrev add s.tbl.tail
  let app := app.setNextIf s.tbl.tail (some add)
  { s with app, tbl := { s.tbl with tail := some add } }

def hashAddToBkt (malloc : Nat → Bool) (fuel : Nat) (s : Hash α) (bkt : Nat)
    (addhh : α) : Except Stop (Hash α) :=
  let head := s.tbl.buckets bkt
  let count := head.count + 1
  let hh := s.hh.setNext addhh head.hhHead
  let hh := hh.setPrev addhh none
  let hh := hh.setPrevIf head.hhHead (some addhh)
  let buckets := Function.update s.tbl.buckets bkt ⟨some addhh, count, head.expandMult⟩
  let s := { s with hh, tbl := { s.tbl with buckets } }
  if (head.expandMult + 1) * 10 ≤ count ∧
    s.tbl.noexpand = false then s.hashExpandBuckets malloc fuel
  else pure s

def hashAddToTable (malloc : Nat → Bool) (fuel : Nat) (s : Hash α) (hashval : BitVec 32) (add : α) :
    Except Stop (Hash α) :=
  let s := { s with tbl := { s.tbl with numItems := s.tbl.numItems + 1 } }
  s.hashAddToBkt malloc fuel (hashToBkt hashval s.tbl.numBuckets) add

def hashAdd (hashFcn : κ → BitVec 32) (key : α → κ) (malloc : Nat → Bool) (fuel : Nat)
    (s : Hash α) (add : α) :
    Except Stop (Hash α) := do
  let hashval := hashFcn (key add)
  let s := { s with hashv := Function.update s.hashv add hashval }
  let s ← if s.head.isNone then do
      let s := { s with app := (s.app.setNext add none).setPrev add none }
      let s ← s.hashMakeTable malloc add
      pure { s with head := some add }
    else pure (s.hashAppendList add)
  s.hashAddToTable malloc fuel hashval add

/-! HASH_DEL. -/

def hashDelInBkt (s : Hash α) (bkt : Nat) (delhh : α) : Hash α :=
  let head := s.tbl.buckets bkt
  let hhHead := if head.hhHead = some delhh then s.hh.next delhh else head.hhHead
  let hh := s.hh.setNextIf (s.hh.prev delhh) (s.hh.next delhh)
  let hh := hh.setPrevIf (hh.next delhh) (hh.prev delhh)
  let head : Bucket α := ⟨hhHead, head.count - 1, head.expandMult⟩
  { s with hh, tbl := { s.tbl with buckets := Function.update s.tbl.buckets bkt head } }

def hashDelete (s : Hash α) (delptr : α) : Hash α :=
  -- the last item takes the table with it
  if s.app.prev delptr = none ∧ s.app.next delptr = none then { s with head := none }
  else
    let tail := if s.tbl.tail = some delptr then s.app.prev delptr else s.tbl.tail
    let head := if s.app.prev delptr = none then s.app.next delptr else s.head
    let app := s.app.setNextIf (s.app.prev delptr) (s.app.next delptr)
    let app := app.setPrevIf (app.next delptr) (app.prev delptr)
    let s := { s with head, app, tbl := { s.tbl with tail } }
    let s := s.hashDelInBkt (hashToBkt (s.hashv delptr) s.tbl.numBuckets) delptr
    { s with tbl := { s.tbl with numItems := s.tbl.numItems - 1 } }

/-! The functions of core.c, each under `pages_lock`. -/

def findPage (hashFcn : κ → BitVec 32) (va : α → κ) [DecidableEq κ] (fuel : Nat) (s : Hash α)
    (a : κ) : Except Stop (Option α) :=
  s.hashFind hashFcn va fuel a

def addPage (hashFcn : κ → BitVec 32) (va : α → κ) [DecidableEq κ] (malloc : Nat → Bool)
    (fuel : Nat) (s : Hash α) (page : α) : Except Stop (Hash α) := do
  let p ← s.hashFind hashFcn va fuel (va page)
  if p.isSome then throw .assertion
  s.hashAdd hashFcn va malloc fuel page

def removePage (s : Hash α) (page : α) : Hash α := s.hashDelete page

end Hash
end
end ExtMem.Uthash
