import ExtMem.Serial.Unmap

/-! Reclaim scans and evictions run alone come to an end, and an eviction that finds a disk
frame succeeds. -/
namespace ExtMem
open Threads Threads.Prog

variable {n : Nat} {frames : List Frame} {hand : PageId → Option Hand} {k k' : Skeleton}
  {d r : PageId} {e : Env}
  {α β : Type} {Q : β → Env → Prop}

theorem total_atomic {f : Env → Outcome Abort Env β} (h : ∃ b e', f e = .ok b e' ∧ Q b e') :
    Total (Prog.atomic f) e Q := by
  obtain ⟨b, e', hf, hq⟩ := h
  exact .act hf (.ret hq)

theorem total_check {c : Bool} {why : Abort} {q : Unit → Paging β} (hc : c = true)
    (hq : Total (q ()) e Q) : Total (Prog.check c why >>= q) e Q := by
  subst hc
  exact hq

theorem total_addInt {a b : Int} {q : Int → Paging β} (hlow : -2 ^ 31 ≤ a + b)
    (hhigh : a + b < 2 ^ 31) (hq : Total (q (a + b)) e Q) : Total (addInt a b >>= q) e Q := by
  unfold addInt
  rw [bind_assoc]
  exact total_check
    (by rw [Bool.and_eq_true, decide_eq_true_eq, decide_eq_true_eq]; exact ⟨hlow, hhigh⟩) hq

theorem aborts_addInt {a b : Int} (h : 2 ^ 31 ≤ a + b) : Aborts (addInt a b) e .intOverflow e := by
  have hover : ¬ (-2 ^ 31 ≤ a + b && a + b < 2 ^ 31) = true := by
    rw [Bool.and_eq_true, decide_eq_true_eq, decide_eq_true_eq]
    omega
  unfold addInt
  rw [show Prog.check (-2 ^ 31 ≤ a + b && a + b < 2 ^ 31) Abort.intOverflow =
    (Prog.fail .intOverflow : Paging Unit) from if_neg hover]
  exact .here rfl

theorem total_assert {c : Env → Bool} {why : Abort} {q : Unit → Paging β} (hc : c e = true)
    (hq : Total (q ()) e Q) : Total (Prog.assert c why >>= q) e Q := .act (if_pos hc) hq

theorem total_still {p : Paging α} {q : α → Paging β} (hk : e.sh.skeleton = k)
    (hp : Total p e fun _ _ => True) (h : Always Still p)
    (hq : ∀ a e, e.sh.skeleton = k → Total (q a) e Q) : Total (p >>= q) e Q :=
  (hp.strengthen (after_still_last hk h)).bind hq

theorem total_setStats {f : Stats → Stats} {q : Unit → Paging β} (hk : e.sh.skeleton = k)
    (hq : ∀ e, e.sh.skeleton = k → Total (q ()) e Q) : Total (setStats f >>= q) e Q :=
  total_modify (fun _ => rfl) hk hq

theorem dequeue_nil {l : FifoList} {aux : PageId → Env → Env} (hs : e.sh.fifos.seq l = []) :
    (match e.sh.fifos.seq l with
      | [] => .ok none e
      | d :: _ => .ok (some d) (aux d (e.dequeue l d)) : Outcome Abort Env (Option PageId)) =
        .ok none e := by
  rw [hs]

theorem dequeue_cons {l : FifoList} {aux : PageId → Env → Env} {xs : List PageId}
    (hs : e.sh.fifos.seq l = d :: xs) :
    (match e.sh.fifos.seq l with
      | [] => .ok none e
      | d :: _ => .ok (some d) (aux d (e.dequeue l d)) : Outcome Abort Env (Option PageId)) =
        .ok (some d) (aux d (e.dequeue l d)) := by
  rw [hs]

theorem total_dequeueThen {l : FifoList} {aux : PageId → Env → Env} {q : Option PageId → Paging β}
    (hk : e.sh.skeleton = k) (haux : ∀ d e, (aux d e).sh.skeleton = e.sh.skeleton)
    (hnone : k.fifos.seq l = [] → Total (q none) e Q)
    (hsome : ∀ d xs, k.fifos.seq l = d :: xs → ∀ e, e.sh.skeleton = k.unlink d →
      Total (q (some d)) e Q) : Total (dequeueFifoThen l aux >>= q) e Q := by
  subst hk
  cases hs : e.sh.skeleton.fifos.seq l with
  | nil => exact .act (dequeue_nil hs) (hnone hs)
  | cons d xs => exact .act (dequeue_cons hs) (hsome d xs hs _ (haux _ _))

/-- A step that leaves the thread's rings alone. -/
def SameRings (e e' : Env) : Prop := e'.loc.ring = e.loc.ring

abbrev RingsKept : (β : Type) → (Env → Outcome Abort Env β) → Prop := Within SameRings

theorem scanning_rings : Scanning SameRings where
  refl _ := rfl
  trans h₁ h₂ := h₂.trans h₁
  enqueue _ _ _ _ _ := rfl
  dequeue _ _ _ _ _ _ := rfl
  remove _ _ _ _ _ := rfl
  auxiliary _ _ _ _ := rfl
  record _ _ _ _ _ := rfl
  flag _ _ _ _ _ _ := rfl
  enqueueAny _ _ _ := rfl
  dequeueAny _ _ _ := rfl
  setPage _ _ _ _ _ := rfl
  setPte _ _ _ _ _ _ _ := rfl
  running _ _ _ := rfl
  waits _ _ := rfl

theorem after_ringsKept {p : Paging α} (h : Always RingsKept p) :
    After p e fun _ e' => e'.loc.ring = e.loc.ring :=
  after_within h scanning_rings.refl scanning_rings.trans

theorem ringsKept_plain {p : Paging α} (h : Always Plain p) : Always RingsKept p :=
  within_mono h fun _ _ hp => hp.ring

theorem ringsKept_protectVictim : Always RingsKept (protectVictim d) :=
  within_protectVictim scanning_rings.toClaiming (fun _ _ _ => rfl) d

theorem ringsKept_prepareVictim (d : PageId) : Always RingsKept (prepareVictim d) :=
  within_prepareVictim scanning_rings.toClaiming (fun _ _ _ => rfl) d

theorem ringsKept_findDiskpage (x : PageId × Frame × Bool) : Always RingsKept (findDiskpage x) :=
  within_findDiskpage scanning_rings.toLinking x

theorem ringsKept_takeDiskFree : Always RingsKept takeDiskFree :=
  within_takeDiskFree scanning_rings.toLinking

/-- A program that leaves the rings alone leaves room on them. -/
theorem Threads.Prog.Total.room {p : Paging α} {R : α → Env → Prop} (h : Total p e R)
    (ha : Always RingsKept p) (hroom : (e.loc.ring .ioRing).sq.length < queueDepth) :
    Total p e fun a e' => R a e' ∧ (e'.loc.ring .ioRing).sq.length < queueDepth := by
  refine h.strengthen fun a e' hr => ⟨h.after a e' hr, ?_⟩
  have hring : e'.loc.ring = e.loc.ring := ha.runs (I := fun x => x.loc.ring = e.loc.ring)
    (fun _ _ hf _ _ _ hs he => (hf.ok he).trans hs) hr rfl
  rw [hring]
  exact hroom

/-! The storage. -/

theorem loc_foldl_submitted (sqes : List Sqe) (e : Env) :
    (sqes.foldl (fun e sqe => e.record (.submitted sqe)) e).loc = e.loc := by
  induction sqes generalizing e with
  | nil => rfl
  | cons q sqes ih => exact ih _

theorem total_initOnce {ring : RingName} (hroom : (e.loc.ring ring).sq.length < queueDepth) :
    Total (initOnce ring) e fun _ e' =>
        (e'.loc.ring ring).init = true ∧ (e'.loc.ring ring).sq.length < queueDepth := by
  unfold initOnce
  rw [threadInit_eq]
  refine .act rfl ?_
  show Total (if (e.loc.ring ring).init = true then pure () else ioUringQueueInit ring) e _
  cases hi : (e.loc.ring ring).init with
  | true =>
    rw [if_pos rfl]
    exact .ret ⟨hi, hroom⟩
  | false =>
    rw [if_neg Bool.false_ne_true]
    refine .act rfl (.ret ?_)
    simp [Local.setRing, queueDepth]

/-- A write returns: there is room for the request and its completion comes. -/
theorem total_ioringWriteStore {offset size : Nat} {data : Buffer}
    (hroom : (e.loc.ring .ioRing).sq.length < queueDepth) :
    Total (ioringWriteStore offset data size) e fun _ _ => True := by
  refine (total_initOnce hroom).bind fun _ e ⟨hinit, hroom⟩ => .act (if_pos hroom) ?_
  refine .act (if_pos (by simpa [Local.setRing] using hinit)) (.ask fun pick => .ask fun code => ?_)
  refine total_atomic ?_
  simp only [loc_foldl_submitted, Local.setRing, Function.update_self, hinit, if_true]
  have hlt (m : Nat) (l : List Sqe) (x : Sqe) : m % (l ++ [x]).length < (l ++ [x]).length :=
    Nat.mod_lt _ (by simp)
  split
  · next hnone =>
    rw [List.getElem?_eq_none_iff, ← List.append_assoc] at hnone
    exact absurd (hlt _ _ _) (Nat.not_lt.mpr hnone)
  · exact ⟨_, _, rfl, trivial⟩

/-! An eviction. -/

theorem total_ptGetBits (hk : e.sh.skeleton = k) (hal : (k.page d).va % pageSize = 0) :
    Total (ptGetBits d) e fun _ e' => e'.sh.skeleton = k := by
  refine total_field hk fun e hk =>
    total_check (by simpa using hal) (.ask fun a => .ask fun b => total_atomic ?_)
  split
  · exact ⟨_, _, rfl, hk⟩
  · exact ⟨_, _, rfl, hk⟩

/-- A page of a mapping that is registered. -/
structure Registered (k : Skeleton) (d : PageId) : Prop where
  va : (k.page d).va ≠ 0
  aligned : (k.page d).va % pageSize = 0
  mapped : k.vma (k.page d).va = .uffd

theorem total_extmemWpPage {b : Bool} (hk : e.sh.skeleton = k) (h : Registered k d) :
    Total (extmemWpPage d b) e fun _ e' => e'.sh.skeleton = k := by
  refine total_field hk fun e hk =>
    total_check (by simpa using h.va) (total_check (by simpa using h.aligned) ?_)
  have hmap : e.sh.vma (k.page d).va = .uffd := by
    rw [← h.mapped, ← hk]
    rfl
  exact .act (if_pos hmap) (.ret hk)

theorem total_protectVictim (hk : e.sh.skeleton = k) (h : Registered k d) :
    Total (protectVictim d) e fun _ e' => e'.sh.skeleton = k := by
  refine (total_extmemWpPage hk h).bind fun _ e hk =>
    (total_ptGetBits hk h.aligned).bind fun flags e hk => ?_
  exact total_field hk fun e hk => total_modify (fun _ => rfl) hk fun e hk => .ret hk

theorem total_takeReserve (hk : e.sh.skeleton = k) (hr : (k.page d).reserve = some r)
    (hback : (k.page r).reserve = some d) (hl : k.list r = some .diskReserveList) :
    Total (takeReserve d) e fun r' e' => r' = r ∧ e'.sh.skeleton = k.unlink r := by
  refine total_field hk fun e hk => ?_
  rw [hr]
  refine total_assertPage hk (by rw [hback]; exact beq_self_eq_true _) fun e hk => ?_
  subst hk
  have htag : e.sh.list r = some .diskReserveList := hl
  refine total_assert (by rw [htag]; rfl) (.act (if_pos htag) (total_check rfl (.ret ⟨rfl, rfl⟩)))

theorem total_takeDiskFree {xs : List PageId} (hk : e.sh.skeleton = k)
    (hs : k.fifos.seq .diskFreeList = r :: xs) (hp : (k.page r).present = false) :
    Total takeDiskFree e fun r' e' => r' = r ∧ e'.sh.skeleton = k.unlink r := by
  refine total_dequeueThen hk (fun _ _ => rfl) (fun h => ?_) fun r' xs' hs' e hk => ?_
  · rw [hs] at h
    cases h
  · rw [hs] at hs'
    cases hs'
    exact total_assertPage hk (by simpa using hp) fun e hk => .ret ⟨rfl, hk⟩

/-- The descriptors and lists, and the variables of the thread. -/
private def At (k : Skeleton) (l : Local) (e : Env) : Prop := e.sh.skeleton = k ∧ e.loc = l

private theorem at_setPage {l : Local} {f : UserPage → UserPage} {q : Unit → Paging β}
    (h : At k l e) (hq : ∀ e, At (k.write d f) l e → Total (q ()) e Q) :
    Total (setPage d f >>= q) e Q := by
  obtain ⟨rfl, rfl⟩ := h
  exact .act rfl (hq _ ⟨rfl, rfl⟩)

private theorem at_field {l : Local} {f : UserPage → α} {q : α → Paging β} (h : At k l e)
    (hq : ∀ e, At k l e → Total (q (f (k.page d))) e Q) : Total (field d f >>= q) e Q := by
  obtain ⟨rfl, rfl⟩ := h
  exact .act rfl (hq _ ⟨rfl, rfl⟩)

private theorem at_assertPage {l : Local} {c : UserPage → Bool} {why : Abort} {q : Unit → Paging β}
    (h : At k l e) (hc : c (k.page d) = true) (hq : ∀ e, At k l e → Total (q ()) e Q) :
    Total (assertPage d c why >>= q) e Q := by
  obtain ⟨rfl, rfl⟩ := h
  exact .act (if_pos hc) (hq _ ⟨rfl, rfl⟩)

private theorem at_assert {l : Local} {c : Env → Bool} {why : Abort} {q : Unit → Paging β}
    (h : At k l e) (hc : ∀ e, At k l e → c e = true) (hq : ∀ e, At k l e → Total (q ()) e Q) :
    Total (Prog.assert c why >>= q) e Q :=
  .act (if_pos (hc e h)) (hq e h)

private theorem at_traceEvent {l : Local} {ev : Event} {q : Unit → Paging β} (h : At k l e)
    (hq : ∀ e, At k l e → Total (q ()) e Q) : Total (traceEvent ev >>= q) e Q := by
  obtain ⟨rfl, rfl⟩ := h
  exact .act rfl (hq _ ⟨rfl, rfl⟩)

theorem total_dropMapping {va : Nat} (h : e.sh.vma va ≠ .none) :
    Total (dropMapping va) e fun _ _ => True := by
  refine Total.bind (Q := fun b _ => b = true) (total_atomic ⟨true, _, if_neg h, rfl⟩) fun b _ hb =>
    ?_
  subst hb
  exact .ret trivial

private theorem total_markSwappedOut (hk : e.sh.skeleton = k) (hm : (k.page d).migrating = true)
    (hout : (k.page d).swappedOut = false) :
    Total (Prog.atomic (markSwappedOut d)) e fun _ _ => True := by
  subst hk
  have hm' : (e.sh.page d).migrating = true := hm
  have hout' : (e.sh.page d).swappedOut = false := hout
  refine total_atomic ⟨(), e.setPage d fun p => { p with swappedOut := true }, ?_, trivial⟩
  unfold markSwappedOut
  rw [hout', if_neg Bool.false_ne_true, if_pos hm']

private theorem total_extmemMigrateDowndisk {l : Local} {offset : Frame} {wb : Bool} (he : At k l e)
    (hroom : (l.ring .ioRing).sq.length < queueDepth)
    (h : Registered k d) (hin : (k.page d).inDram = true)
    (hout : (k.page d).swappedOut = false) (hpt : (k.page d).pt = .basep)
    (h₁ : offsetFits (k.page d).virtualOffset.offset pageSize k.sizes.1 = true)
    (h₂ : offsetFits offset.offset pageSize k.sizes.2 = true) :
    Total (extmemMigrateDowndisk d offset wb) e fun _ _ => True := by
  unfold extmemMigrateDowndisk pagesizeOf
  refine at_setPage he fun e he =>
    at_assertPage he (by simpa using hin) fun e he => at_field he fun e he => ?_
  refine at_field he fun e he => ?_
  simp only [Skeleton.page_write_self, hpt, ptToPagesize]
  refine at_assert he (fun e he => ?_) fun e he =>
    at_assert he (fun e he => ?_) fun e he => at_field he fun e he => ?_
  · rw [show e.sh.dramsize = k.sizes.1 from congrArg (·.sizes.1) he.1]
    exact h₁
  · rw [show e.sh.disksize = k.sizes.2 from congrArg (·.sizes.2) he.1]
    exact h₂
  simp only [Skeleton.page_write_self]
  suffices htail : ∀ e : Env, e.sh.skeleton = k.write d (fun p => { p with migrating := true }) →
      Total (do
      traceEvent (.dropping d)
      dropMapping (k.page d).va
      setStats fun t => { t with migrationsDown := add64 t.migrationsDown 1 }
      setPage d fun p => { p with virtualOffset := offset }
      setPage d fun p => { p with inDram := false }
      setStats fun t => { t with bytesMigrated := add64 t.bytesMigrated pageSize }
      Prog.atomic (markSwappedOut d)) e fun _ _ => True by
    cases wb with
    | true =>
      refine at_traceEvent he fun e he =>
        total_still he.1 (total_ioringWriteStore ?_) (by simp) fun _ e => htail e
      rw [he.2]
      exact hroom
    | false => exact htail e he.1
  intro e hk
  refine total_modify (fun _ => rfl) hk fun e hk => ?_
  have hvma : e.sh.vma (k.page d).va ≠ .none := by
    rw [show e.sh.vma = k.vma from congrArg (·.vma) hk, h.mapped]
    simp
  refine total_still hk (total_dropMapping hvma) (by simp) fun _ e hk =>
    total_setStats hk fun e hk => ?_
  refine total_setPage hk fun e hk => total_setPage hk fun e hk => total_setStats hk fun e hk => ?_
  exact total_markSwappedOut hk (by simp) (by simpa using hout)

/-- The bytes of a resident page can be moved to a disk frame. -/
theorem total_lrudiskMigrateDown {offset : Frame} {wp wb : Bool} (hk : e.sh.skeleton = k)
    (hroom : (e.loc.ring .ioRing).sq.length < queueDepth)
    (h : Registered k d) (hin : (k.page d).inDram = true)
    (hout : (k.page d).swappedOut = false) (hpt : (k.page d).pt = .basep)
    (h₁ : offsetFits (k.page d).virtualOffset.offset pageSize k.sizes.1 = true)
    (h₂ : offsetFits offset.offset pageSize k.sizes.2 = true) :
    Total (lrudiskMigrateDown d offset wp wb) e fun _ e' =>
      e'.sh.skeleton = k.write d (·.moved offset) := by
  refine Total.strengthen (Q := fun _ _ => True) ?_ (after_migrateDown hk)
  have hreg : Registered (k.write d fun p => { p with migrating := true }) d :=
    ⟨by simpa using h.va, by simpa using h.aligned, by simpa using h.mapped⟩
  have hmove {l : Local} {e : Env} (he : At (k.write d fun p => { p with migrating := true }) l e)
      (hroom : (l.ring .ioRing).sq.length < queueDepth) :
      Total (extmemMigrateDowndisk d offset wb) e fun _ _ =>
      True := total_extmemMigrateDowndisk he hroom hreg (by simpa using hin) (by simpa using hout)
    (by simpa using hpt) (by rw [Skeleton.page_write_self]; exact h₁) h₂
  refine at_setPage ⟨hk, rfl⟩ fun e he => ?_
  cases wp with
  | false => exact hmove he hroom
  | true =>
    refine ((total_extmemWpPage he.1 hreg).room (ringsKept_plain (by simp))
      (by rw [he.2]; exact hroom)).bind ?_
    exact fun _ e' ⟨hk, hroom⟩ => hmove ⟨hk, rfl⟩ hroom

theorem total_giveFrame {offset : Frame} {aux : Env → Env} {q : Unit → Paging β}
    (hk : e.sh.skeleton = k) (haux : ∀ e, (aux e).sh.skeleton = e.sh.skeleton)
    (hq : ∀ e, e.sh.skeleton = (k.write r fun p =>
      { p with virtualOffset := offset, inDram := true, present := false }) → Total (q ()) e Q) :
    Total (giveFrame r offset aux >>= q) e Q :=
  total_modifyPage hk (fun _ => haux _) hq

theorem total_enqueueThen {l : FifoList} {aux : Env → Env} {q : Unit → Paging β}
    (hk : e.sh.skeleton = k) (haux : ∀ e, (aux e).sh.skeleton = e.sh.skeleton)
    (hl : k.list d = none) (hq : ∀ e, e.sh.skeleton = k.link l d → Total (q ()) e Q) :
    Total (enqueueFifoThen l d aux >>= q) e Q := by
  subst hk
  exact .act (if_pos (Option.isNone_iff_eq_none.mpr hl)) (hq _ (haux _))

theorem total_releaseVictim (hk : e.sh.skeleton = k) (hm : (k.page d).migrating = true)
    (hout : (k.page d).swappedOut = true) : Total (releaseVictim d) e fun _ _ => True :=
  total_assertPage hk hm fun _ hk =>
    total_assertPage hk hout fun _ hk => total_setPage hk fun _ _ => .act rfl (.ret trivial)

/-- A victim that is on no list can be evicted: a disk frame is kept for it or one is free. -/
structure Evictable (k : Skeleton) (d : PageId) : Prop where
  bare : Bare k d
  registered : Registered k d
  inDram : (k.page d).inDram = true
  swappedOut : (k.page d).swappedOut = false
  pt : (k.page d).pt = .basep
  fits : offsetFits (k.page d).virtualOffset.offset pageSize k.sizes.1 = true
  kept : (k.page d).hasReserve = true →
    ∃ r, (k.page d).reserve = some r ∧ (k.page r).reserve = some d ∧
    k.list r = some .diskReserveList ∧
      offsetFits (k.page r).virtualOffset.offset pageSize k.sizes.2 = true
  free : (k.page d).hasReserve = false →
    ∃ r xs, k.fifos.seq .diskFreeList = r :: xs ∧ (k.page r).present = false ∧
    offsetFits (k.page r).virtualOffset.offset pageSize k.sizes.2 = true

theorem total_fetchFreeEvict (hk : e.sh.skeleton = k)
    (hroom : (e.loc.ring .ioRing).sq.length < queueDepth) (h : Evictable k d) :
    Total (fetchFreeEvict d) e fun r e' => Partner k d r ∧ e'.sh.skeleton = k.evict d r := by
  refine Total.strengthen (Q := fun _ _ => True) ?_ (after_fetchFreeEvict hk h.bare)
  have hl := h.bare.list
  unfold fetchFreeEvict
  have hreg : Registered (k.write d fun p => { p with migrating := true }) d :=
    ⟨by simpa using h.registered.va, by simpa using h.registered.aligned,
      by simpa using h.registered.mapped⟩
  refine at_setPage ⟨hk, rfl⟩ fun e he => ?_
  refine ((total_protectVictim he.1 hreg).room ringsKept_protectVictim
    (by rw [he.2]; exact hroom)).bind ?_
  rintro wb e ⟨hk, hroom⟩
  refine at_field ⟨hk, rfl⟩ fun e he => ?_
  rw [← he.2] at hroom
  clear hk
  rw [Skeleton.page_write_self]
  dsimp only
  cases hres : (k.page d).hasReserve with
  | true =>
    obtain ⟨r, hr, hback, hlr, hfit⟩ := h.kept hres
    have hne : r ≠ d := by
      rintro rfl
      rw [hl] at hlr
      cases hlr
    rw [if_pos rfl]
    refine ((total_takeReserve he.1 (by simpa using hr)
      (by rw [Skeleton.page_write_of_ne _ _ hne]; exact hback) (by simpa using hlr)).room
      (ringsKept_plain (by simp)) hroom).bind ?_
    rintro r' e ⟨⟨hr', hk⟩, hroom⟩
    subst r'
    refine at_field ⟨hk, rfl⟩ fun e₁ he₁ => at_field he₁ fun e₁ he₁ => ?_
    rw [Skeleton.page_unlink, Skeleton.page_write_self, Skeleton.page_write_of_ne _ _ hne]
    rw [← he₁.2] at hroom
    have hmove : Total (lrudiskMigrateDown d (k.page r).virtualOffset false wb) e₁ _ :=
      total_lrudiskMigrateDown he₁.1 hroom ⟨by simpa using h.registered.va,
        by simpa using h.registered.aligned, by simpa using h.registered.mapped⟩
        (by simpa using h.inDram) (by simpa using h.swappedOut) (by simpa using h.pt)
        (by rw [Skeleton.page_unlink, Skeleton.page_write_self]; exact h.fits) hfit
    refine hmove.bind fun _ e hk => total_giveFrame hk (fun _ => rfl) fun e hk => ?_
    have hdrop : Total (dropReserve d r) e fun _ _ => True := .act rfl (.act rfl (.ret trivial))
    refine (hdrop.strengthen (after_dropReserve hk)).bind fun _ e hk => ?_
    refine total_enqueueThen hk (fun _ => rfl) (by simp [hl, hne.symm]) fun e hk => ?_
    refine (total_releaseVictim hk ?_ ?_).bind fun _ _ _ => .ret trivial
    · simp [Skeleton.write, Skeleton.link, Skeleton.unlink, UserPage.moved, hne.symm]
    · simp [Skeleton.write, Skeleton.link, Skeleton.unlink, UserPage.moved, hne.symm]
  | false =>
    obtain ⟨r, xs, hs, hpres, hfit⟩ := h.free hres
    have hne : r ≠ d := by
      rintro rfl
      rw [Whole.list_of_seq hs] at hl
      cases hl
    rw [if_neg Bool.false_ne_true]
    refine ((total_takeDiskFree he.1 hs
      (by rw [Skeleton.page_write_of_ne _ _ hne]; exact hpres)).room ringsKept_takeDiskFree
      hroom).bind ?_
    rintro r' e ⟨⟨hr', hk⟩, hroom⟩
    subst r'
    refine at_field ⟨hk, rfl⟩ fun e₁ he₁ => at_field he₁ fun e₁ he₁ => ?_
    rw [Skeleton.page_unlink, Skeleton.page_write_self, Skeleton.page_write_of_ne _ _ hne]
    rw [← he₁.2] at hroom
    have hmove : Total (lrudiskMigrateDown d (k.page r).virtualOffset true wb) e₁ _ :=
      total_lrudiskMigrateDown he₁.1 hroom ⟨by simpa using h.registered.va,
        by simpa using h.registered.aligned, by simpa using h.registered.mapped⟩
        (by simpa using h.inDram) (by simpa using h.swappedOut) (by simpa using h.pt)
        (by rw [Skeleton.page_unlink, Skeleton.page_write_self]; exact h.fits) hfit
    refine hmove.bind fun _ e hk => total_assertPage hk (by simp [UserPage.moved]) fun e hk => ?_
    refine total_enqueueThen hk (fun _ => rfl) (by simp [hl]) fun e hk => ?_
    exact total_giveFrame hk (fun _ => rfl) fun e hk => .act rfl (.ret trivial)

/-- A round of the scalar worker that finds a victim returns. -/
theorem total_lrudiskEvictionworker {xs : List PageId} (hk : e.sh.skeleton = k)
    (hs : k.fifos.seq .evictionList = d :: xs) (hroom : (e.loc.ring .ioRing).sq.length < queueDepth)
    (h : Evictable (k.unlink d) d) : Total lrudiskEvictionworker e fun _ _ => True := by
  have hs' : e.sh.fifos.seq .evictionList = d :: xs := by
    rw [← hk] at hs
    exact hs
  unfold lrudiskEvictionworker
  refine .act (dequeue_cons hs') ?_
  obtain ⟨e₁, he₁⟩ : ∃ e₁, e₁ = takeVictim d (e.dequeue .evictionList d) := ⟨_, rfl⟩
  have hk₁ : e₁.sh.skeleton = k.unlink d := by
    rw [he₁, ← hk]
    rfl
  have hroom₁ : (e₁.loc.ring .ioRing).sq.length < queueDepth := by
    rw [he₁]
    exact hroom
  rw [← he₁]
  clear he₁ hs hs' hk hroom
  generalize k.unlink d = k at hk₁ h
  have hl := h.bare.list
  have hreg : Registered (k.write d fun p => { p with migrating := true }) d :=
    ⟨by simpa using h.registered.va, by simpa using h.registered.aligned,
      by simpa using h.registered.mapped⟩
  refine at_setPage ⟨hk₁, rfl⟩ fun e he => ?_
  refine ((total_protectVictim he.1 hreg).room ringsKept_protectVictim
    (by rw [he.2]; exact hroom₁)).bind ?_
  rintro wb e ⟨hk, hroom⟩
  refine at_field ⟨hk, rfl⟩ fun e he => ?_
  rw [← he.2] at hroom
  clear hk
  rw [Skeleton.page_write_self]
  dsimp only
  cases hres : (k.page d).hasReserve with
  | true =>
    obtain ⟨r, hr, hback, hlr, hfit⟩ := h.kept hres
    have hne : r ≠ d := by
      rintro rfl
      rw [hl] at hlr
      cases hlr
    rw [if_pos rfl]
    refine ((total_takeReserve he.1 (by simpa using hr)
      (by rw [Skeleton.page_write_of_ne _ _ hne]; exact hback) (by simpa using hlr)).room
      (ringsKept_plain (by simp)) hroom).bind ?_
    rintro r' e ⟨⟨hr', hk⟩, hroom⟩
    subst r'
    refine at_field ⟨hk, rfl⟩ fun e₁ he₁ => at_field he₁ fun e₁ he₁ => ?_
    rw [Skeleton.page_unlink, Skeleton.page_write_self, Skeleton.page_write_of_ne _ _ hne]
    rw [← he₁.2] at hroom
    have hmove : Total (lrudiskMigrateDown d (k.page r).virtualOffset false wb) e₁ _ :=
      total_lrudiskMigrateDown he₁.1 hroom ⟨by simpa using h.registered.va,
        by simpa using h.registered.aligned, by simpa using h.registered.mapped⟩
        (by simpa using h.inDram) (by simpa using h.swappedOut) (by simpa using h.pt)
        (by rw [Skeleton.page_unlink, Skeleton.page_write_self]; exact h.fits) hfit
    refine hmove.bind fun _ e hk => total_giveFrame hk (fun _ => rfl) fun e hk => ?_
    have hdrop : Total (dropReserve d r) e fun _ _ => True := .act rfl (.act rfl (.ret trivial))
    refine (hdrop.strengthen (after_dropReserve hk)).bind fun _ e hk => ?_
    have hd₁ : ((k.write d fun p => { p with migrating := true }).unlink r).list d = none := by
      simp [hl, hne.symm]
    refine total_enqueueThen hk (fun _ => rfl) (by simp) fun e hk => ?_
    refine total_enqueueThen hk (fun _ => rfl) ?_ fun e hk => total_releaseVictim hk ?_ ?_
    · rw [Skeleton.list_link (by simp), if_neg hne.symm]
      simpa using hd₁
    · simp [Skeleton.write, Skeleton.link, Skeleton.unlink, UserPage.moved, hne.symm]
    · simp [Skeleton.write, Skeleton.link, Skeleton.unlink, UserPage.moved, hne.symm]
  | false =>
    obtain ⟨r, xs, hs, hpres, hfit⟩ := h.free hres
    have hne : r ≠ d := by
      rintro rfl
      rw [Whole.list_of_seq hs] at hl
      cases hl
    rw [if_neg Bool.false_ne_true]
    refine ((total_takeDiskFree he.1 hs
      (by rw [Skeleton.page_write_of_ne _ _ hne]; exact hpres)).room ringsKept_takeDiskFree
      hroom).bind ?_
    rintro r' e ⟨⟨hr', hk⟩, hroom⟩
    subst r'
    refine at_field ⟨hk, rfl⟩ fun e₁ he₁ => at_field he₁ fun e₁ he₁ => ?_
    rw [Skeleton.page_unlink, Skeleton.page_write_self, Skeleton.page_write_of_ne _ _ hne]
    rw [← he₁.2] at hroom
    have hmove : Total (lrudiskMigrateDown d (k.page r).virtualOffset false wb) e₁ _ :=
      total_lrudiskMigrateDown he₁.1 hroom ⟨by simpa using h.registered.va,
        by simpa using h.registered.aligned, by simpa using h.registered.mapped⟩
        (by simpa using h.inDram) (by simpa using h.swappedOut) (by simpa using h.pt)
        (by rw [Skeleton.page_unlink, Skeleton.page_write_self]; exact h.fits) hfit
    have hd₁ : ((k.write d fun p => { p with migrating := true }).unlink r).list d = none := by
      simp [hl, hne.symm]
    refine hmove.bind fun _ e hk =>
      total_enqueueThen hk (fun _ => rfl) (by simpa using hd₁) fun e hk => ?_
    refine total_giveFrame hk (fun _ => rfl) fun e hk =>
      total_enqueueThen hk (fun _ => rfl) ?_ fun e hk => total_releaseVictim hk ?_ ?_
    · rw [Skeleton.list_write, Skeleton.list_link (by simpa using hd₁), if_neg hne]
      simp
    · simp [Skeleton.write, Skeleton.link, Skeleton.unlink, UserPage.moved, hne.symm]
    · simp [Skeleton.write, Skeleton.link, Skeleton.unlink, UserPage.moved, hne.symm]

end ExtMem
