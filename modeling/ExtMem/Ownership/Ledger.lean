import ExtMem.Operations
import ExtMem.Threads.Always

/-! Who owns what while threads page at the same time. The ledger is the ghost state of the proofs:
which thread has which descriptor off its list, for which frame the descriptor stands, and who has
the hash. -/
namespace ExtMem
open Threads

/-- What a thread knows of a descriptor that it has off its list: the fields that no other thread
writes, the frame that it stands for if it is in an exchange, whether `in_dram` is known to be set
and `swapped_out` to be clear, and whether the hash finds the descriptor by its address. -/
structure Hold where
  va : Nat
  offset : Frame
  stake : Option Frame
  inDram : Bool
  clear : Bool
  hashed : Bool

/-- The frame for which a descriptor in hand stands. -/
def Hold.frame (x : Hold) : Frame := x.stake.getD x.offset

/-- What the owner of a page's flags is at. -/
inductive Busy where
  /-- A swap-in that has claimed the page, and the offset that it has read. -/
  | claim (offset : Option Frame)
  /-- An eviction that has set `swapped_out` and not cleared `migrating` yet. -/
  | marked

structure Ledger where
  held : PageId → Option (Tid × Hold)
  busy : PageId → Option (Tid × Busy)
  /-- Evictors that have cleared `migrating` and still set `swapped_out` once more. -/
  late : PageId → Tid → Bool
  /-- The owner of the allocator lock with the hash as it is then. -/
  hash : Option (Tid × (Nat → Option PageId))

/-- A thread's part of the ledger. -/
@[ext] structure Share where
  held : PageId → Option Hold
  busy : PageId → Option Busy
  late : PageId → Bool
  hash : Option (Nat → Option PageId)

/-- An entry as its owner sees it. -/
def mine {α : Type} (t : Tid) : Option (Tid × α) → Option α
  | some (u, a) => if u = t then some a else none
  | none => none

@[simp] theorem mine_eq_some {α : Type} {t : Tid} {o : Option (Tid × α)} {a : α} :
    mine t o = some a ↔ o = some (t, a) := by
  rcases o with _ | ⟨u, b⟩
  · simp [mine]
  · by_cases h : u = t <;> simp [mine, h]

@[simp] theorem mine_map_self {α : Type} (t : Tid) (o : Option α) : mine t (o.map (t, ·)) = o := by
  cases o <;> simp [mine]

theorem mine_map_of_ne {α : Type} {t u : Tid} (h : u ≠ t) (o : Option α) :
    mine u (o.map (t, ·)) = none := by
  cases o
  · rfl
  · simp [mine, Ne.symm h]

/-- An entry belongs to the thread or to nobody. -/
def Mine {α : Type} (t : Tid) (o : Option (Tid × α)) : Prop := ∀ u a, o = some (u, a) → u = t

theorem mine_eq_none {α : Type} {t u : Tid} {o : Option (Tid × α)} (h : Mine t o) (hu : u ≠ t) :
    mine u o = none := by
  rcases o with _ | ⟨v, a⟩
  · rfl
  · rw [h v a rfl, mine]
    simp [Ne.symm hu]

theorem mine_of_none {α : Type} {t : Tid} {o : Option (Tid × α)} (h : o = none) : Mine t o :=
  fun _ _ hx => by
  rw [h] at hx
  cases hx

theorem mine_of_some {α : Type} {t : Tid} {o : Option (Tid × α)} {a : α} (h : mine t o = some a) :
    Mine t o := fun _ _ hx => by
  rw [mine_eq_some.mp h] at hx
  cases hx
  rfl

namespace Ledger

def share (G : Ledger) (t : Tid) : Share where
  held d := mine t (G.held d)
  busy d := mine t (G.busy d)
  late d := G.late d t
  hash := mine t G.hash

/-- The ledger after a thread has taken, changed or given a descriptor. -/
def put (G : Ledger) (t : Tid) (d : PageId) (o : Option Hold) : Ledger :=
  { G with held := Function.update G.held d (o.map (t, ·)) }

/-- The ledger after a thread has come to own the flags of a page or has given them up. -/
def mark (G : Ledger) (t : Tid) (d : PageId) (o : Option Busy) : Ledger :=
  { G with busy := Function.update G.busy d (o.map (t, ·)) }

def owe (G : Ledger) (t : Tid) (d : PageId) (b : Bool) : Ledger :=
  { G with late := Function.update G.late d (Function.update (G.late d) t b) }

def lock (G : Ledger) (t : Tid) (o : Option (Nat → Option PageId)) : Ledger :=
  { G with hash := o.map (t, ·) }

end Ledger

namespace Share

def put (g : Share) (d : PageId) (o : Option Hold) : Share :=
  { g with held := Function.update g.held d o }

def mark (g : Share) (d : PageId) (o : Option Busy) : Share :=
  { g with busy := Function.update g.busy d o }

def owe (g : Share) (d : PageId) (b : Bool) : Share := { g with late := Function.update g.late d b }

def lock (g : Share) (o : Option (Nat → Option PageId)) : Share := { g with hash := o }

/-- The share of a thread between two operations. -/
structure Empty (g : Share) : Prop where
  held : ∀ d, g.held d = none
  busy : ∀ d, g.busy d = none
  late : ∀ d, g.late d = false
  hash : g.hash = none

/-- The thread has a descriptor that stands for the disk frame. -/
def Backs (g : Share) (offset : Nat) : Prop :=
  ∃ d x, g.held d = some x ∧ x.stake = some ⟨false, offset⟩

variable (g : Share) {d e : PageId}

@[simp] theorem held_put_self (d : PageId) (o : Option Hold) : (g.put d o).held d = o :=
  Function.update_self ..

@[simp] theorem held_put_ne (h : e ≠ d) (o : Option Hold) :
    (g.put d o).held e = g.held e := Function.update_of_ne h ..

@[simp] theorem put_put (d : PageId) (o o' : Option Hold) : (g.put d o).put d o' = g.put d o' :=
  Share.ext (Function.update_idem ..) rfl rfl rfl

theorem put_comm (h : d ≠ e) (o o' : Option Hold) :
    (g.put d o).put e o' = (g.put e o').put d o := by
  unfold put
  rw [Function.update_comm h]

theorem put_self {o : Option Hold} (h : g.held d = o) : g.put d o = g := by
  subst h
  exact Share.ext (Function.update_eq_self ..) rfl rfl rfl

@[simp] theorem busy_mark_self (d : PageId) (o : Option Busy) : (g.mark d o).busy d = o :=
  Function.update_self ..

@[simp] theorem busy_mark_ne (h : e ≠ d) (o : Option Busy) :
    (g.mark d o).busy e = g.busy e := Function.update_of_ne h ..

end Share

namespace Ledger
variable {G : Ledger} {t u : Tid} {d : PageId}

private theorem mine_update {α : Type} (m : PageId → Option (Tid × α))
    (t : Tid) (d : PageId) (o : Option α) :
    (fun e => mine t (Function.update m d (o.map (t, ·)) e)) =
      Function.update (fun e => mine t (m e)) d o := by
  funext e
  by_cases he : e = d
  · rw [he, Function.update_self, Function.update_self, mine_map_self]
  · rw [Function.update_of_ne he, Function.update_of_ne he]

private theorem mine_update_ne {α : Type} {m : PageId → Option (Tid × α)}
    (hu : u ≠ t) (h : Mine t (m d)) (o : Option α) :
    (fun e => mine u (Function.update m d (o.map (t, ·)) e)) = fun e => mine u (m e) := by
  funext e
  by_cases he : e = d
  · rw [he, Function.update_self, mine_map_of_ne hu, mine_eq_none h hu]
  · rw [Function.update_of_ne he]

theorem share_put (o : Option Hold) : (G.put t d o).share t = (G.share t).put d o :=
  Share.ext (mine_update G.held t d o) rfl rfl rfl

theorem share_put_ne (hu : u ≠ t) (h : Mine t (G.held d)) (o : Option Hold) :
    (G.put t d o).share u = G.share u :=
  Share.ext (mine_update_ne hu h o) rfl rfl rfl

theorem share_mark (o : Option Busy) : (G.mark t d o).share t = (G.share t).mark d o :=
  Share.ext rfl (mine_update G.busy t d o) rfl rfl

theorem share_mark_ne (hu : u ≠ t) (h : Mine t (G.busy d)) (o : Option Busy) :
    (G.mark t d o).share u = G.share u :=
  Share.ext rfl (mine_update_ne hu h o) rfl rfl

theorem share_owe (b : Bool) : (G.owe t d b).share t = (G.share t).owe d b := by
  refine Share.ext rfl rfl ?_ rfl
  funext e
  by_cases he : e = d
  · simp [share, owe, Share.owe, he]
  · simp [share, owe, Share.owe, Function.update_of_ne he]

theorem share_owe_ne (hu : u ≠ t) (b : Bool) : (G.owe t d b).share u = G.share u := by
  refine Share.ext rfl rfl ?_ rfl
  funext e
  by_cases he : e = d
  · simp [share, owe, he, Function.update_of_ne hu]
  · simp [share, owe, Function.update_of_ne he]

theorem share_lock (o : Option (Nat → Option PageId)) : (G.lock t o).share t = (G.share t).lock o :=
  Share.ext rfl rfl rfl (mine_map_self t o)

theorem share_lock_ne (hu : u ≠ t) (h : Mine t G.hash) (o : Option (Nat → Option PageId)) :
    (G.lock t o).share u = G.share u :=
  Share.ext rfl rfl rfl ((mine_map_of_ne hu o).trans (mine_eq_none h hu).symm)

end Ledger

/-- The fields of a descriptor on which ownership rests. -/
structure Marks where
  va : Nat
  offset : Frame
  inDram : Bool
  swappedOut : Bool
  migrating : Bool

def UserPage.marks (p : UserPage) : Marks :=
  ⟨p.va, p.virtualOffset, p.inDram, p.swappedOut, p.migrating⟩

/-- All that the shared state and the ledger have of one descriptor. -/
structure Entry where
  page : Marks
  list : Option FifoList
  held : Option (Tid × Hold)
  busy : Option (Tid × Busy)
  late : Tid → Bool

def entryOf (s : Shared) (G : Ledger) (d : PageId) :
    Entry := ⟨(s.page d).marks, s.list d, G.held d, G.busy d, G.late d⟩

/-- What the descriptors on a list have in common. -/
def FifoList.Fits (l : FifoList) (va : Nat) (offset : Frame) : Prop :=
  match l with
  | .dramFreeList => va = 0 ∧ offset.dram = true
  | .diskFreeList | .diskReserveList => va = 0 ∧ offset.dram = false
  | .diskActiveList => va ≠ 0 ∧ offset.dram = false
  | .activeList | .inactiveList | .evictionList => va ≠ 0 ∧ offset.dram = true

theorem FifoList.fits_of_resident {l : FifoList} (h : l.resident = true) {va : Nat}
    {offset : Frame} : l.Fits va offset ↔ va ≠ 0 ∧ offset.dram = true := by
  cases l with
  | activeList => exact Iff.rfl
  | inactiveList => exact Iff.rfl
  | evictionList => exact Iff.rfl
  | dramFreeList => cases h
  | diskFreeList => cases h
  | diskReserveList => cases h
  | diskActiveList => cases h

namespace Entry

/-- What holds of a descriptor whatever the others are. -/
structure Good (r : Entry) : Prop where
  /-- It is on a list that it fits, or one thread has it. -/
  place : match r.list, r.held with
    | some l, none => l.Fits r.page.va r.page.offset
    | none, some (_, x) => r.page.va = x.va ∧ r.page.offset = x.offset
    | _, _ => False
  inDram : r.list = some .dramFreeList ∨ (∃ t x, r.held = some (t, x) ∧ x.inDram = true) →
    r.page.inDram = true
  /-- The owner of the flags keeps both of them set. -/
  flags : r.busy ≠ none → r.page.migrating = true ∧ r.page.swappedOut = true ∧ r.page.va ≠ 0
  late : ∀ t, r.late t = true → r.page.va ≠ 0
  /-- A page whose `swapped_out` is clear for sure is nobody's to swap in. -/
  clear : ∀ t x, r.held = some (t, x) → x.clear = true →
    r.page.swappedOut = false ∧ r.busy = none ∧ ∀ u, r.late u = false
  /-- The disk frame of a claimed page stays. -/
  claim : ∀ t o, r.busy = some (t, .claim (some o)) → r.list = some .diskActiveList →
    r.page.offset = o

/-- The frame for which the descriptor stands. -/
def frame (r : Entry) : Frame :=
  match r.held with
  | some (_, x) => x.frame
  | none => r.page.offset

/-- The hash finds the descriptor by its address, if it has one. -/
def hashed (r : Entry) : Bool :=
  match r.held with
  | some (_, x) => x.hashed
  | none => true

end Entry

/-- The requests of a thread's rings that the device has not answered yet. -/
def Local.requests (l : Local) : List Sqe :=
  ((l.ring .ioRing).sq ++ (l.ring .ioRing).outstanding) ++
    ((l.ring .ioReadRing).sq ++ (l.ring .ioReadRing).outstanding)

theorem Local.requests_congr {l l' : Local} (h : l'.ring = l.ring) : l'.requests = l.requests := by
  unfold Local.requests
  rw [h]

/-- A thread's own variables fit its share: its exchange is as the ledger has it, and its requests
go to disk frames for which descriptors of its exchange stand, each to another one. -/
structure Local.Ok (l : Local) (g : Share) : Prop where
  exchange : ∀ d f, (d, f) ∈ l.exchange ↔ ∃ x, g.held d = some x ∧ x.stake = some f
  keys : (l.exchange.map (·.1)).Nodup
  backed : ∀ q ∈ l.requests, g.Backs q.offset
  apart : (l.requests.map (·.offset)).Nodup

/-- The invariant, for the number of descriptors and the frames that were allotted. -/
structure Owned (n : Nat) (frames : List Frame) (s : Shared) (ls : Tid → Local)
    (G : Ledger) : Prop where
  good : ∀ d, d < n → (entryOf s G d).Good
  outside : ∀ d, n ≤ d → s.list d = none ∧ G.held d = none ∧ G.busy d = none ∧
    (∀ t, G.late d t = false) ∧ (s.page d).va = 0 ∧
    (s.page d).swappedOut = false
  inj : ∀ d e, d < n → e < n → (entryOf s G d).frame = (entryOf s G e).frame → d = e
  mem : ∀ d, d < n → (entryOf s G d).frame ∈ frames
  hash : ∀ a d, a ≠ 0 → (s.pages a = some d ↔ (s.page d).va = a ∧ (entryOf s G d).hashed = true)
  zero : ∀ d, s.pages 0 = some d → n ≤ d
  lock : s.allocatorLock = G.hash.isSome
  pages : ∀ t P, G.hash = some (t, P) → s.pages = P
  look : ∀ t d a, (d, a) ∈ (ls t).examining → (s.page d).va = a ∧ (a = 0 → n ≤ d)
  locals : ∀ t, (ls t).Ok (G.share t)

/-- The assertions that must not fail. -/
def Abort.Guarded : Abort → Prop
  | .enqueueLinked | .addPageUnique | .trackPageList | .putPageFreeList | .putPageFreeVa
  | .firstFaultVa
  | .firstFaultInDram | .swapinFrame | .victimMigrating | .victimSwappedOut | .ackSwapin
  | .prefetchVa =>
    True
  | _ => False

/-- The proof outline of the pager without unmapping. -/
abbrev owning (n : Nat) (frames : List Frame) : Outline Abort Shared Local Tid where
  Γ := Ledger
  γ := Share
  view := Ledger.share
  inv := Owned n frames
  rule _ _ _ _ _ := True
  bad := Abort.Guarded

end ExtMem
