import ExtMem.Serial.Returns
import ExtMem.Serial.Batch

/-! Memory, disk and migration counters over the steps of an eviction. -/
namespace ExtMem
open Threads Threads.Prog

/-- The write-backs that a trace decides on, the last one first. -/
def decisions (log : List (Tid × Event)) : List (PageId × Bool) :=
  log.filterMap fun x => match x.2 with
    | .decided d w => some (d, w)
    | _ => none

/-- What eviction is about: the page table, in which the pages at some addresses are taken
without their protection and what the kernel may set in their flags, the disk, the migration
counters, the requests under way on the write ring and the decisions. -/
structure Snapshot where
  pte : Nat → Option Pte
  disk : Nat → Bytes
  moved : Nat × Nat × Nat
  faulty : Bool
  spurious : Bool
  sq : List Sqe
  outstanding : List Sqe
  decided : List (PageId × Bool)

def Pte.plain (p : Pte) (spurious : Bool) : Pte := ⟨p.bytes, false, false, !spurious && p.dirty⟩

def Threads.Ctx.snapshot (e : Env) (S : Nat → Bool) : Snapshot where
  pte a := if S a then (e.sh.pte a).map (·.plain e.sh.spurious) else e.sh.pte a
  disk := e.sh.disk
  moved := (e.sh.stats.migrationsUp, e.sh.stats.migrationsDown, e.sh.stats.bytesMigrated)
  faulty := e.sh.faulty
  spurious := e.sh.spurious
  sq := (e.loc.ring .ioRing).sq
  outstanding := (e.loc.ring .ioRing).outstanding
  decided := decisions e.sh.log

variable {S : Nat → Bool} {i : Snapshot} {k : Skeleton} {d r : PageId} {e e' : Env} {α β : Type}

namespace Snapshot

def decide (i : Snapshot) (d : PageId) (w : Bool) : Snapshot :=
  { i with decided := (d, w) :: i.decided }

/-- The bytes of a page are written to disk. -/
def store (i : Snapshot) (va offset : Nat) : Snapshot :=
  match i.pte va with
  | none => i
  | some p => { i with disk := Function.update i.disk offset p.bytes }

def drop (i : Snapshot) (va : Nat) : Snapshot := { i with pte := Function.update i.pte va none }

def count (i : Snapshot) : Snapshot :=
  { i with moved := (i.moved.1, add64 i.moved.2.1 1, add64 i.moved.2.2 pageSize) }

/-- Whether the page at an address is dirty, as far as the kernel does not make it up. -/
def dirty (i : Snapshot) (va : Nat) : Bool := ((i.pte va).map (·.dirty)).getD false

/-- What may be decided for a page. -/
def Admits (i : Snapshot) (va : Nat) (hasReserve w : Bool) : Prop :=
  i.spurious = false → w = (i.dirty va || !hasReserve)

/-- No request is under way, and the device does what it is asked. -/
structure Idle (i : Snapshot) : Prop where
  sq : i.sq = []
  outstanding : i.outstanding = []
  sound : i.faulty = false

end Snapshot

/-! Steps that leave the snapshot alone. -/

abbrev Unseen (S : Nat → Bool) : (β : Type) → (Env → Outcome Abort Env β) → Prop :=
  Within fun e e' => e'.snapshot S = e.snapshot S

theorem relinking_unseen : Relinking fun e e' : Env => e'.snapshot S = e.snapshot S where
  refl _ := rfl
  trans h₁ h₂ := h₂.trans h₁
  enqueue _ _ _ _ _ := rfl
  dequeue _ _ _ _ _ _ := rfl
  remove _ _ _ _ _ := rfl
  auxiliary _ _ _ _ := rfl
  record e ev hp _ _ := by
    cases ev with
    | decided d w => cases hp
    | _ => rfl
  anyPage _ _ _ _ _ := rfl

@[simp] theorem unseen_of_looks {p : Paging α} (h : Always Looks p) : Always (Unseen S) p :=
  h.within fun _ => rfl

theorem after_unseen {p : Paging α} (hp : Always (Unseen S) p) (hi : e.snapshot S = i) :
    After p e fun _ e' => e'.snapshot S = i :=
  (after_within hp (fun _ => rfl) fun h₁ h₂ => h₂.trans h₁).mono fun _ _ h => h.trans hi

/-! The steps of an eviction. -/

private theorem after_unseen_bind {p : Paging α} {q : α → Paging β} {R : α → Env → Prop}
    {Q : β → Env → Prop} (hp : Always (Unseen S) p) (hi : e.snapshot S = i) (hR : After p e R)
    (hq : ∀ a e', R a e' → e'.snapshot S = i → After (q a) e' Q) : After (p >>= q) e Q :=
  after_then (hR.and (after_unseen hp hi)) fun a e' hae => hq a e' hae.1 hae.2

theorem snapshot_setPte {va : Nat} {o : Option Pte} (hS : S va = true) (s : Shared) (l : Local) :
    (⟨s.setPte va o, l⟩ : Env).snapshot S =
      { (⟨s, l⟩ : Env).snapshot S with
        pte := Function.update ((⟨s, l⟩ : Env).snapshot S).pte va (o.map (·.plain s.spurious)) } := by
  unfold Threads.Ctx.snapshot
  congr 1
  funext a
  by_cases ha : a = va
  · subst ha
    simp [Shared.setPte, hS]
  · simp [Shared.setPte, Function.update_of_ne ha]

private theorem snapshot_same {va : Nat} {o : Option Pte} (hS : S va = true)
    (ho : o.map (·.plain e.sh.spurious) = (e.sh.pte va).map (·.plain e.sh.spurious)) :
    ({ e with sh := e.sh.setPte va o } : Env).snapshot S = e.snapshot S := by
  rw [snapshot_setPte hS e.sh e.loc, ho]
  have hp : (e.snapshot S).pte va = (e.sh.pte va).map (·.plain e.sh.spurious) := if_pos hS
  rw [← hp, Function.update_eq_self]

theorem after_wpPage {b : Bool} (hk : e.sh.skeleton = k)
    (hS : S (k.page d).va = true) (hi : e.snapshot S = i) :
    After (extmemWpPage d b) e fun _ e' => e'.sh.skeleton = k ∧ e'.snapshot S = i := by
  refine (after_still_last hk (by simp)).and ?_
  unfold extmemWpPage
  refine after_field hk (after_check fun _ => after_check fun _ => ?_)
  refine after_then (R := fun _ e' => e'.snapshot S = i) ?_ fun done e hi =>
    after_unseen (by simp) hi
  refine (after_atomic _ _ _).mpr fun done e' he => ?_
  split at he
  · cases he
    refine Eq.trans ?_ hi
    refine snapshot_same (o := (e.sh.pte (k.page d).va).map fun p : Pte => { p with wp := b }) hS ?_
    cases e.sh.pte (k.page d).va <;> rfl
  · cases he
    exact hi

theorem after_getBits (hk : e.sh.skeleton = k)
    (hS : S (k.page d).va = true) (hi : e.snapshot S = i) :
    After (ptGetBits d) e fun bits e' => e'.sh.skeleton = k ∧ e'.snapshot S = i ∧
      (i.spurious = false → bits.dirty = i.dirty (k.page d).va) := by
  have hi₀ := hi
  subst hi₀
  refine (after_still_last hk (by simp)).and ?_
  unfold ptGetBits
  refine after_field hk (after_check fun _ =>
    (after_bind _ _ _ _).mpr ((after_answer _ _).mpr fun acc => (after_bind _ _ _ _).mpr
    ((after_answer _ _).mpr fun off => (after_atomic _ _ _).mpr fun bits e' he => ?_)))
  have hpte : (e.snapshot S).pte (k.page d).va =
      (e.sh.pte (k.page d).va).map (·.plain e.sh.spurious) := if_pos hS
  unfold Snapshot.dirty
  rw [hpte]
  cases hp : e.sh.pte (k.page d).va with
  | none =>
    rw [hp] at he
    cases he
    refine ⟨rfl, fun hs => ?_⟩
    have hs' : e.sh.spurious = false := hs
    simp [seenBit, hs']
  | some p =>
    rw [hp] at he
    cases he
    refine ⟨?_, fun hs => ?_⟩
    · refine snapshot_same (o :=
        some { p with accessed := seenBit e.sh p.accessed acc, dirty := seenBit e.sh p.dirty off })
        hS ?_
      rw [hp]
      cases hsp : e.sh.spurious with
      | true => rfl
      | false => simp [Pte.plain, seenBit, hsp]
    · have hs' : e.sh.spurious = false := hs
      simp [seenBit, hs', Pte.plain]

theorem after_protectVictim (hk : e.sh.skeleton = k)
    (hS : S (k.page d).va = true) (hi : e.snapshot S = i) :
    After (protectVictim d) e fun w e' => e'.sh.skeleton = k ∧ e'.snapshot S = i.decide d w ∧
      i.Admits (k.page d).va (k.page d).hasReserve w := by
  unfold protectVictim
  refine after_then (after_wpPage hk hS hi) fun _ e ⟨hk, hi⟩ => ?_
  refine after_then (after_getBits hk hS hi) fun bits e ⟨hk, hi, hb⟩ => after_field hk ?_
  refine (after_bind _ _ _ _).mpr
    ((after_modify _ _ _).mpr ((after_pure _ _ _).mpr ⟨hk, ?_, fun hs => ?_⟩))
  · rw [← hi]
    rfl
  · rw [hb hs]

/-! The write ring. -/

/-- A request to write a page back. -/
def Sqe.Back (S : Nat → Bool) (q : Sqe) : Prop :=
  ∃ va, S va = true ∧ q = ⟨true, q.offset, .user va, pageSize⟩

def Snapshot.perform (i : Snapshot) (q : Sqe) : Snapshot :=
  match q.buffer with
  | .user va => i.store va q.offset
  | _ => i

theorem after_initWrites (hi : e.snapshot S = i)
    (h : (e.loc.ring .ioRing).init = true ∨ i.sq = [] ∧ i.outstanding = []) :
    After (initOnce .ioRing) e fun _ e' =>
        e'.snapshot S = i ∧ (e'.loc.ring .ioRing).init = true := by
  unfold initOnce
  refine (after_bind _ _ _ _).mpr
    ((after_read _ _ _).mpr ((after_ite _ _ _ _).mpr ⟨fun hc => ?_, fun hc => ?_⟩))
  · exact (after_pure _ _ _).mpr ⟨hi, hc⟩
  · obtain ⟨h₁, h₂⟩ := h.resolve_left hc
    refine (after_modify _ _ _).mpr ⟨?_, by simp [Local.setRing]⟩
    subst hi
    unfold Threads.Ctx.snapshot at h₁ h₂ ⊢
    simp only [Local.setRing, Function.update_self]
    rw [show (e.loc.ring .ioRing).sq = [] from h₁,
      show (e.loc.ring .ioRing).outstanding = [] from h₂]

theorem after_prepWrite (q : Sqe) (hi : e.snapshot S = i) :
    After (ioUringPrep .ioRing q) e fun _ e' => e'.snapshot S = { i with sq := i.sq ++ [q] } ∧
      (e'.loc.ring .ioRing).init = (e.loc.ring .ioRing).init := by
  refine (after_atomic _ _ _).mpr fun b e' he => ?_
  split at he
  · cases he
    subst hi
    simp [Threads.Ctx.snapshot, Local.setRing]
  · cases he

private theorem snapshot_submitted (qs : List Sqe) (e : Env) :
    (qs.foldl (fun e q => e.record (.submitted q)) e).snapshot S = e.snapshot S ∧
      (qs.foldl (fun e q => e.record (.submitted q)) e).loc = e.loc := by
  induction qs generalizing e with
  | nil => exact ⟨rfl, rfl⟩
  | cons q qs ih => exact ih _

theorem after_submitWrites (hi : e.snapshot S = i) : After (ioUringSubmit .ioRing) e fun _ e' =>
    e'.snapshot S = { i with sq := [], outstanding := i.outstanding ++ i.sq } := by
  refine (after_atomic _ _ _).mpr fun b e' he => ?_
  dsimp only at he
  split at he
  · cases he
    rw [(snapshot_submitted _ _).1]
    subst hi
    simp [Threads.Ctx.snapshot, Local.setRing]
  · cases he

private theorem splice_page (new old : Bytes) : splice pageSize new old = new := by
  funext j
  exact if_pos j.isLt

private theorem snapshot_transfer {q : Sqe} (hq : q.Back S)
    (hf : e.sh.faulty = false) (code : Nat) :
    (e.transfer q (e.transferResult q code)).snapshot S = (e.snapshot S).perform q := by
  obtain ⟨va, hS, hq⟩ := hq
  rw [hq]
  have hp : (e.snapshot S).pte va = (e.sh.pte va).map (·.plain e.sh.spurious) := if_pos hS
  unfold Snapshot.perform Snapshot.store Threads.Ctx.transfer
  dsimp only
  rw [hp]
  cases hpte : e.sh.pte va with
  | none => simp [Threads.Ctx.bufferBytes, hpte]
  | some p =>
    have hres : e.transferResult ⟨true, q.offset, .user va, pageSize⟩ code = (pageSize : Nat) := by
      simp [Threads.Ctx.transferResult, Threads.Ctx.bufferBytes, hpte, hf]
    rw [hres]
    simp only [if_true, Threads.Ctx.bufferBytes, hpte, Option.map_some, Int.toNat_natCast,
      splice_page]
    rfl

/-- One of the requests under way is carried out. -/
theorem after_waitWrite (hi : e.snapshot S = i)
    (hf : i.faulty = false) (hq : ∀ q ∈ i.outstanding, q.Back S) :
    After (ioUringWaitCqe .ioRing) e fun _ e' => ∃ q ∈ i.outstanding,
      e'.snapshot S = { i with outstanding := i.outstanding.erase q }.perform q := by
  refine (after_bind _ _ _ _).mpr ((after_answer _ _).mpr fun pick => (after_bind _ _ _ _).mpr
    ((after_answer _ _).mpr fun code => (after_atomic _ _ _).mpr fun b e' he => ?_))
  dsimp only at he
  split at he
  · split at he
    · cases he
    · next q hget =>
      cases he
      have hm : q ∈ i.outstanding := by
        rw [← hi]
        exact List.mem_of_getElem? hget
      refine ⟨q, hm, ?_⟩
      let e₁ : Env :=
        { e with loc := e.loc.setRing .ioRing fun x => { x with outstanding := x.outstanding.erase q } }
      have h₁ : e₁.snapshot S = { i with outstanding := i.outstanding.erase q } := by
        subst hi
        simp [e₁, Threads.Ctx.snapshot, Local.setRing]
      have hres : e.transferResult q code = e₁.transferResult q code := by
        obtain ⟨va, -, hq'⟩ := hq q hm
        rw [hq']
        rfl
      have hf₁ : e₁.sh.faulty = false := by
        rw [← hf, ← hi]
        rfl
      show (e₁.transfer q (e.transferResult q code)).snapshot S = _
      rw [hres, snapshot_transfer (hq q hm) hf₁, h₁]
  · cases he

/-- A page is written back at once. -/
theorem after_writeStore {va offset : Nat} (hS : S va = true)
    (hi : e.snapshot S = i) (hidle : i.Idle) :
    After (ioringWriteStore offset (.user va) pageSize) e fun _ e' =>
      e'.snapshot S = i.store va offset := by
  unfold ioringWriteStore
  refine after_then (after_initWrites hi (.inr ⟨hidle.sq, hidle.outstanding⟩)) fun _ e ⟨hi, _⟩ => ?_
  refine after_then (after_prepWrite _ hi) fun _ e ⟨hi, _⟩ =>
    after_then (after_submitWrites hi) fun _ e hi => ?_
  have hout : i.outstanding ++ (i.sq ++ [(⟨true, offset, .user va, pageSize⟩ : Sqe)]) =
      [⟨true, offset, .user va, pageSize⟩] := by
    rw [hidle.sq, hidle.outstanding]
    rfl
  dsimp only at hi
  rw [hout] at hi
  refine (after_waitWrite hi hidle.sound ?_).mono ?_
  · intro q hq
    rw [List.mem_singleton.mp hq]
    exact ⟨va, hS, rfl⟩
  · rintro _ e' ⟨q, hq, hi⟩
    rw [List.mem_singleton.mp hq] at hi
    rw [hi]
    obtain ⟨pte, disk, moved, faulty, spurious, sq, outstanding, decided⟩ := i
    have h₁ : sq = [] := hidle.sq
    have h₂ : outstanding = [] := hidle.outstanding
    subst h₁ h₂
    simp only [List.erase_cons_head]
    unfold Snapshot.perform
    rfl

/-! The migration. -/

theorem after_drop {va : Nat} (hS : S va = true) (hi : e.snapshot S = i) :
    After (dropMapping va) e fun _ e' => e'.snapshot S = i.drop va := by
  refine (after_bind _ _ _ _).mpr ((after_atomic _ _ _).mpr fun done e' he => ?_)
  split at he
  · cases he
    exact (after_fail _ _ _).mpr trivial
  · cases he
    refine (after_pure _ _ _).mpr ?_
    subst hi
    exact snapshot_setPte (o := none) hS e.sh e.loc

theorem after_unseen_still {p : Paging α} {q : α → Paging β} {Q : β → Env → Prop}
    (hk : e.sh.skeleton = k) (hi : e.snapshot S = i)
    (hs : Always Still p) (hu : Always (Unseen S) p)
    (hq : ∀ a e', e'.sh.skeleton = k → e'.snapshot S = i → After (q a) e' Q) :
    After (p >>= q) e Q :=
  after_unseen_bind hu hi (after_still_last hk hs) hq

theorem after_unseen_setPage {f : UserPage → UserPage} {q : Unit → Paging β} {Q : β → Env → Prop}
    (hk : e.sh.skeleton = k) (hi : e.snapshot S = i)
    (hq : ∀ e', e'.sh.skeleton = k.write d f → e'.snapshot S = i → After (q ()) e' Q) :
    After (setPage d f >>= q) e Q := by
  subst hk hi
  exact (after_bind _ _ _ _).mpr ((after_modify _ _ _).mpr (hq _ rfl rfl))

theorem after_unseen_field {f : UserPage → α} {q : α → Paging β} {Q : β → Env → Prop}
    (hk : e.sh.skeleton = k) (hi : e.snapshot S = i)
    (hq : e.sh.skeleton = k → e.snapshot S = i → After (q (f (k.page d))) e Q) :
    After (field d f >>= q) e Q := after_field hk (hq hk hi)

/-- What the eviction of a page does to the snapshot. -/
def Snapshot.leave (i : Snapshot) (va offset : Nat) (w : Bool) : Snapshot :=
  ((if w then i.store va offset else i).drop va).count

theorem after_dropDown {offset : Frame} {w : Bool} (hk : e.sh.skeleton = k)
    (hS : S (k.page d).va = true) (hpt : (k.page d).pt = .basep)
    (hi : e.snapshot S = i) (hidle : i.Idle) :
    After (extmemMigrateDowndisk d offset w) e fun _ e' =>
      e'.snapshot S = i.leave (k.page d).va offset.offset w := by
  unfold extmemMigrateDowndisk pagesizeOf
  refine after_unseen_setPage hk hi fun e hk hi =>
    after_unseen_still hk hi (by simp) (by simp) fun _ e hk hi => ?_
  refine after_unseen_field hk hi fun hk hi => after_unseen_field hk hi fun hk hi => ?_
  refine after_unseen_still hk hi (by simp) (by simp) fun _ e hk hi => ?_
  refine after_unseen_still hk hi (by simp) (by simp) fun _ e hk hi =>
    after_unseen_field hk hi fun hk hi => ?_
  simp only [Skeleton.page_write_self, hpt, ptToPagesize]
  have hrest (i₁ : Snapshot) (e₁ : Env) (hi₁ : e₁.snapshot S = i₁) : After (do
      traceEvent (.dropping d)
      dropMapping (k.page d).va
      setStats fun t => { t with migrationsDown := add64 t.migrationsDown 1 }
      setPage d fun p => { p with virtualOffset := offset }
      setPage d fun p => { p with inDram := false }
      setStats fun t => { t with bytesMigrated := add64 t.bytesMigrated pageSize }
      Prog.atomic (markSwappedOut d)) e₁ fun _ e' =>
        e'.snapshot S = (i₁.drop (k.page d).va).count := by
    refine after_then (after_unseen (within_modify fun _ => rfl) hi₁)
      fun _ e hi => ?_
    refine after_then (after_drop hS hi) fun _ e hi => ?_
    refine (after_bind _ _ _ _).mpr
      ((after_modify _ _ _).mpr ((after_bind _ _ _ _).mpr ((after_modify _ _ _).mpr ?_)))
    refine (after_bind _ _ _ _).mpr
      ((after_modify _ _ _).mpr ((after_bind _ _ _ _).mpr ((after_modify _ _ _).mpr ?_)))
    refine (after_atomic _ _ _).mpr fun b e' he => ?_
    unfold markSwappedOut at he
    split at he
    · cases he
    · split at he
      · cases he
        rw [← hi]
        rfl
      · cases he
  cases w with
  | true =>
    refine after_then (after_unseen (within_modify fun _ => rfl) hi)
      fun _ e hi => ?_
    exact after_then (after_writeStore hS hi hidle) fun _ e hi => hrest _ e hi
  | false => exact hrest i e hi

theorem after_lrudiskMigrateDown {offset : Frame} {wp w : Bool} (hk : e.sh.skeleton = k)
    (hS : S (k.page d).va = true) (hpt : (k.page d).pt = .basep)
    (hi : e.snapshot S = i) (hidle : i.Idle) :
    After (lrudiskMigrateDown d offset wp w) e fun _ e' =>
      e'.snapshot S = i.leave (k.page d).va offset.offset w := by
  unfold lrudiskMigrateDown
  refine after_unseen_setPage hk hi fun e hk hi => ?_
  have hgo (e : Env) (hk : e.sh.skeleton = k.write d fun p => { p with migrating := true })
      (hi : e.snapshot S = i) : After (extmemMigrateDowndisk d offset w) e fun _ e' =>
      e'.snapshot S = i.leave (k.page d).va offset.offset w := by
    have h : After (extmemMigrateDowndisk d offset w) e _ :=
      after_dropDown hk (by rw [Skeleton.page_write_self]; exact hS)
        (by rw [Skeleton.page_write_self]; exact hpt) hi hidle
    rw [Skeleton.page_write_self] at h
    exact h
  refine (after_ite _ _ _ _).mpr ⟨fun _ => ?_, fun _ => hgo e hk hi⟩
  refine after_then (after_wpPage hk ?_ hi) fun _ e ⟨hk, hi⟩ => hgo e hk hi
  rw [Skeleton.page_write_self]
  exact hS

/-! The two ways to evict one page. -/

/-- A victim and its partner, with the decision about it. -/
def Snapshot.evict (i : Snapshot) (k : Skeleton) (d r : PageId) (w : Bool) : Snapshot :=
  (i.decide d w).leave (k.page d).va (k.page r).virtualOffset.offset w

private theorem idle_decide {w : Bool} (h : i.Idle) : (i.decide d w).Idle :=
  ⟨h.sq, h.outstanding, h.sound⟩

/-- What is left of an eviction once the partner was found. -/
private theorem after_exchange {rest : Frame → Paging α} {wp w : Bool} (hk : e.sh.skeleton = k)
    (hS : S (k.page d).va = true) (hpt : (k.page d).pt = .basep) (hi : e.snapshot S = i)
    (hidle : i.Idle) (hrest : ∀ f, Always (Unseen S) (rest f)) :
    After (do
      let oldOffset ← field d (·.virtualOffset)
      let diskOffset ← field r (·.virtualOffset)
      lrudiskMigrateDown d diskOffset wp w
      rest oldOffset) e fun _ e' =>
        e'.snapshot S = i.leave (k.page d).va (k.page r).virtualOffset.offset w := by
  refine after_unseen_field hk hi fun hk hi => after_unseen_field hk hi fun hk hi => ?_
  exact after_then (after_lrudiskMigrateDown hk hS hpt hi hidle) fun _ e hi =>
    after_unseen (hrest _) hi

/-- The snapshot after a victim, on no list, has been evicted. -/
def Leaves (S : Nat → Bool) (k : Skeleton) (i : Snapshot) (d : PageId) (e' : Env) : Prop :=
  ∃ r w, Partner k d r ∧ i.Admits (k.page d).va (k.page d).hasReserve w ∧
    e'.snapshot S = i.evict k d r w

/-- Both ways go through the same steps: the decision, the partner, the exchange and then
what the snapshot does not show. -/
private theorem after_exchanging {kept free : PageId → Frame → Paging α} {wp : Bool}
    (hk : e.sh.skeleton = k) (hl : k.list d = none) (hS : S (k.page d).va = true)
    (hpt : (k.page d).pt = .basep)
    (hi : e.snapshot S = i) (hidle : i.Idle)
    (hkept : ∀ r f, Always (Unseen S) (kept r f)) (hfree : ∀ r f, Always (Unseen S) (free r f)) :
    After (do
      setPage d fun p => { p with migrating := true }
      let writeback ← protectVictim d
      let hasReserve ← field d (·.hasReserve)
      if hasReserve then do
        let diskpage ← takeReserve d
        let oldOffset ← field d (·.virtualOffset)
        let diskOffset ← field diskpage (·.virtualOffset)
        lrudiskMigrateDown d diskOffset false writeback
        kept diskpage oldOffset
      else do
        let diskpage ← takeDiskFree
        let oldOffset ← field d (·.virtualOffset)
        let diskOffset ← field diskpage (·.virtualOffset)
        lrudiskMigrateDown d diskOffset wp writeback
        free diskpage oldOffset) e fun _ e' => Leaves S k i d e' := by
  refine after_unseen_setPage hk hi fun e hk hi => ?_
  refine after_then (after_protectVictim hk (by rw [Skeleton.page_write_self]; exact hS) hi)
    fun w e ⟨hk, hi, hw⟩ => ?_
  simp only [Skeleton.page_write_self] at hw
  refine after_unseen_field hk hi fun hk hi => ?_
  rw [Skeleton.page_write_self]
  have hfin {r : PageId} (hne : r ≠ d) (hp : Partner k d r) {e : Env} {rest : Frame → Paging α}
      {b : Bool} (hk : e.sh.skeleton = (k.write d fun p => { p with migrating := true }).unlink r)
      (hi : e.snapshot S = i.decide d w)
      (hrest : ∀ f, Always (Unseen S) (rest f)) : After (do
      let oldOffset ← field d (·.virtualOffset)
      let diskOffset ← field r (·.virtualOffset)
      lrudiskMigrateDown d diskOffset b w
      rest oldOffset) e fun _ e' => Leaves S k i d e' := by
    have hd : ((k.write d fun p => { p with migrating := true }).unlink r).page d =
        { k.page d with migrating := true } := by
      rw [Skeleton.page_unlink, Skeleton.page_write_self]
    have hr : ((k.write d fun p => { p with migrating := true }).unlink r).page r = k.page r := by
      rw [Skeleton.page_unlink, Skeleton.page_write_of_ne _ _ hne]
    refine (after_exchange (r := r) hk (by rw [hd]; exact hS) (by rw [hd]; exact hpt) hi
      (idle_decide hidle) hrest).mono ?_
    intro _ e' hi
    rw [hd, hr] at hi
    exact ⟨r, w, hp, hw, hi⟩
  refine (after_ite _ _ _ _).mpr ⟨fun hres => ?_, fun hres => ?_⟩
  · refine after_unseen_bind (within_takeReserve relinking_unseen.toLinking d) hi
      (after_takeReserve hk) fun r e ⟨h₁, h₂, h₃, hk⟩ hi => ?_
    rw [Skeleton.page_write_self] at h₁
    have hne : r ≠ d := by
      rintro rfl
      rw [Skeleton.list_write, hl] at h₃
      cases h₃
    rw [Skeleton.page_write_of_ne _ _ hne] at h₂
    refine hfin hne ⟨hne, ?_, fun _ => ⟨h₁, h₂⟩, fun h => ?_⟩ hk hi (hkept r)
    · rw [if_pos hres]
      exact h₃
    · rw [h] at hres
      cases hres
  · refine after_unseen_bind (within_takeDiskFree relinking_unseen.toLinking) hi
      (after_takeDiskFree hk) fun r e ⟨⟨xs, hs⟩, hk⟩ hi => ?_
    have hlr : k.list r = some .diskFreeList := Whole.list_of_seq hs
    have hne : r ≠ d := by
      rintro rfl
      rw [hl] at hlr
      cases hlr
    refine hfin hne ⟨hne, ?_, fun h => absurd h hres, fun _ => ⟨xs, hs⟩⟩ hk hi (hfree r)
    rw [if_neg hres]
    exact hlr

theorem leaves_fetchFreeEvict (hk : e.sh.skeleton = k) (hl : k.list d = none)
    (hS : S (k.page d).va = true) (hpt : (k.page d).pt = .basep) (hi : e.snapshot S = i)
    (hidle : i.Idle) : After (fetchFreeEvict d) e fun _ e' => Leaves S k i d e' := by
  exact after_exchanging hk hl hS hpt hi hidle (within_keepReserve relinking_unseen d)
    (within_keepFree relinking_unseen d)

theorem after_dequeued {l : FifoList} {aux : PageId → Env → Env} {xs : List PageId}
    (hk : e.sh.skeleton = k) (hs : k.fifos.seq l = d :: xs)
    (haux : ∀ d e, (aux d e).sh.skeleton = e.sh.skeleton) :
    After (dequeueFifoThen l aux) e fun o e' => o = some d ∧ e'.sh.skeleton = k.unlink d := by
  rw [← bind_pure (dequeueFifoThen l aux)]
  refine after_dequeueThen hk haux (fun hnone => ?_) fun x ys hs' e hk => (after_pure _ _ _).mpr ?_
  · rw [hs] at hnone
    cases hnone
  · rw [hs] at hs'
    cases hs'
    exact ⟨rfl, hk⟩

/-- A round of the scalar worker that finds a victim. -/
theorem leaves_lrudiskEvictionworker {xs : List PageId} (hk : e.sh.skeleton = k)
    (hs : k.fifos.seq .evictionList = d :: xs) (hS : S (k.page d).va = true)
    (hpt : (k.page d).pt = .basep) (hi : e.snapshot S = i) (hidle : i.Idle) :
    After lrudiskEvictionworker e fun _ e' => Leaves S (k.unlink d) i d e' := by
  unfold lrudiskEvictionworker
  refine after_unseen_bind (within_takeVictim relinking_unseen.toLinking (by decide)) hi
    (after_dequeued hk hs fun _ _ => rfl) fun v e ⟨hv, hk⟩ hi => ?_
  subst hv
  exact after_exchanging hk (by simp) (by rw [Skeleton.page_unlink]; exact hS)
    (by rw [Skeleton.page_unlink]; exact hpt) hi hidle (within_swapReserve relinking_unseen d)
    (within_swapFree relinking_unseen d)

end ExtMem
