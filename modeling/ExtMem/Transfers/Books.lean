import ExtMem.InterceptLayer

/-! What one thread's own trace tells of its transfers: which are under way, what the
completed ones reported, and whether a page was mapped or unmapped on the strength of
a transfer that was not complete. -/
namespace ExtMem
open Threads

structure Books where
  /-- Requests submitted and not completed. -/
  inFlight : List Sqe
  /-- For a buffer whether the last read into it was complete; nothing while it is under
  way and after the buffer was copied out. -/
  read : Buffer → Option Bool
  /-- The victims that have to be written back before they are unmapped. -/
  owed : PageId → Bool
  /-- The request that writes a victim back. -/
  request : PageId → Option Sqe
  /-- Whether all completions of that request were complete; nothing before there is one. -/
  write : PageId → Option Bool
  /-- A page was mapped or unmapped before the transfer that it relies on was done. -/
  late : Bool
  /-- A page was mapped or unmapped on the strength of a transfer that was not complete. -/
  damaged : Bool
  /-- A completion reported something else than the whole size. -/
  short : Bool

namespace Books

def empty : Books where
  inFlight := []
  read _ := none
  owed _ := false
  request _ := none
  write _ := none
  late := false
  damaged := false
  short := false

/-- A request reads into this buffer. -/
def fills (b : Buffer) (sqe : Sqe) : Bool := !sqe.isWrite && sqe.buffer == b

/-- A completion: what it says of the buffer it filled or of the victims it wrote back. -/
def complete (o : Books) (sqe : Sqe) (full : Bool) : Books :=
  let o := { o with inFlight := o.inFlight.erase sqe, short := o.short || !full }
  if sqe.isWrite then
    { o with write := fun d =>
        if o.request d = some sqe then some ((o.write d).getD true && full) else o.write d }
  else { o with read := Function.update o.read sqe.buffer (some full) }

/-- A page is mapped with the contents of a buffer. -/
def copyOut (o : Books) (b : Buffer) : Books :=
  { o with
    late := o.late || o.inFlight.any (fills b) || (o.read b).isNone
    damaged := o.damaged || o.read b == some false
    read := Function.update o.read b none }

/-- A victim is unmapped. -/
def drop (o : Books) (d : PageId) : Books :=
  { o with
    late := o.late || o.inFlight.any (·.isWrite) || (o.owed d && (o.write d).isNone)
    damaged := o.damaged || (o.owed d && o.write d == some false)
    owed := Function.update o.owed d false
    request := Function.update o.request d none
    write := Function.update o.write d none }

/-- Enter one event. -/
def note : Event → Books → Books
  | .submitted sqe, o =>
    let o := { o with inFlight := sqe :: o.inFlight }
    if sqe.isWrite then o else { o with read := Function.update o.read sqe.buffer none }
  | .completed sqe res, o => o.complete sqe (res == sqe.size)
  | .copied _ .bufferSpace, o => o.copyOut .bufferSpace
  | .copied _ (.prefetchSlot i), o => o.copyOut (.prefetchSlot i)
  | .decided d wb, o =>
    { o with
      owed := Function.update o.owed d wb
      request := Function.update o.request d none
      write := Function.update o.write d none }
  | .writing d sqe, o =>
    { o with
      request := Function.update o.request d (some sqe)
      write := Function.update o.write d none }
  | .dropping d, o => o.drop d
  | _, o => o

/-- Enter events, the oldest last in the list. -/
def notes (evs : List Event) (o : Books) : Books := evs.foldr note o

@[simp] theorem notes_nil (o : Books) : notes [] o = o := rfl

@[simp] theorem notes_cons (ev : Event) (evs : List Event) (o : Books) :
    notes (ev :: evs) o = note ev (notes evs o) := rfl

theorem notes_append (evs evs' : List Event) (o : Books) :
    notes (evs ++ evs') o = notes evs (notes evs' o) := by
  simp [notes, List.foldr_append]

end Books

/-- The events of one thread. -/
def ownEvents (t : Tid) (log : List (Tid × Event)) : List Event := (log.filter (·.1 == t)).map (·.2)

theorem ownEvents_append (t : Tid) (log log' : List (Tid × Event)) :
    ownEvents t (log ++ log') = ownEvents t log ++ ownEvents t log' := by
  simp [ownEvents]

theorem ownEvents_self (t : Tid) (evs : List Event) : ownEvents t (evs.map (Prod.mk t)) = evs := by
  induction evs with
  | nil => rfl
  | cons ev evs ih =>
    rw [ownEvents] at ih ⊢
    simp [ih]

theorem ownEvents_other {t u : Tid} (h : u ≠ t) (evs : List Event) :
    ownEvents u (evs.map (Prod.mk t)) = [] := by
  induction evs with
  | nil => rfl
  | cons ev evs ih =>
    rw [ownEvents] at ih ⊢
    simp [Ne.symm h]

/-- The books of one thread. -/
def books (t : Tid) (log : List (Tid × Event)) : Books := Books.notes (ownEvents t log) Books.empty

theorem books_append (t : Tid) (log log' : List (Tid × Event)) :
    books t (log ++ log') = Books.notes (ownEvents t log) (books t log') := by
  rw [books, ownEvents_append, Books.notes_append]
  rfl

namespace Books

/-- Some transfer that something still relies on was not complete. -/
def Owes (o : Books) : Prop :=
  (∃ b, o.read b = some false) ∨ ∃ d, o.owed d = true ∧ o.write d = some false

/-- No eviction is under way. -/
def Settled (o : Books) : Prop := ∀ d, o.owed d = false

end Books

/-- What was mapped or unmapped waited for its transfer, and some transfer was not complete
just if there is damage or something still is to rely on it. -/
structure Books.Honest (o : Books) : Prop where
  timely : o.late = false
  traced : o.short = true ↔ o.damaged = true ∨ o.Owes

/-- What holds of a thread's rings and books at any time. -/
structure Sound (ring : RingName → Ring) (o : Books) : Prop where
  bounded : ∀ r, (ring r).sq.length + (ring r).outstanding.length ≤ queueDepth
  unused : ∀ r, (ring r).init = false → (ring r).sq = [] ∧ (ring r).outstanding = []
  reads : ∀ sqe ∈ (ring .ioReadRing).sq ++ (ring .ioReadRing).outstanding, sqe.isWrite = false
  counted : o.inFlight.Perm ((ring .ioRing).outstanding ++ (ring .ioReadRing).outstanding)
  honest : o.Honest

end ExtMem
