import Mathlib.Data.List.Perm.Subperm
import ExtMem.Ownership.Faults
import ExtMem.Serial.EvictionPaths
import ExtMem.Serial.OutOfMemory

/-! The main results about ownership: they hold at every moment of every run in which any number of
threads access memory, prefetch, scan, evict and map at the same time, and nothing is unmapped. -/
namespace ExtMem
open Threads Threads.Prog Threads.Outline

variable {n : Nat} {frames : List Frame} {t : Tid} {l : Local} {g : Share} {G : Ledger} {s : Shared}
  {ls : Tid → Local} {d : PageId} {f : Frame}
  {dramsize disksize : Nat} {e : Env} {c : System}

/-- The operations that unmap nothing. -/
inductive Upkeep : Paging Unit → Prop where
  | load (addr : Nat) : Upkeep (do let _ ← userLoad addr; pure ())
  | store (addr : Nat) (byte : UInt8) : Upkeep (userStore addr byte)
  | prefetch (base : Nat) : Upkeep (do let _ ← coreTryPrefetch base; pure ())
  | kswapd : Upkeep lrudiskSynchkswapd
  | shrinkActive (nrPages : Nat) : Upkeep (do let _ ← shrinkActiveList nrPages; pure ())
  | shrinkInactive (nrPages : Nat) : Upkeep (do let _ ← shrinkInactiveList nrPages; pure ())
  | evictionworker : Upkeep lrudiskEvictionworker
  | evictionworkerVector : Upkeep lrudiskEvictionworkerVector
  | mmap (addr length : Nat) (flags : BitVec 32) :
      Upkeep (do let _ ← mmapFilter addr length flags; pure ())

/-- A thread between two operations has nothing in its hands. -/
def Free (l : Local) (g : Share) : Prop := l.Rest ∧ g.Empty

theorem safe_upkeep {p : Paging Unit} (hp : Upkeep p) (h : Free l g) : (owning n frames).Safe t p
    (fun _ => Free) l g := by
  obtain ⟨hr, hg⟩ := h
  have hback (l' : Local) (g' : Share) (h' : Restored g l' g') : Free l' g' := by
    obtain ⟨hr', rfl⟩ := h'
    exact ⟨hr', hg⟩
  cases hp with
  | load a => exact safe_bind ((safe_access (calm_loadByte a) a hg.late hr).mono fun _ => hback)
  | store a b => exact (safe_access (calm_storeByte a b) a hg.late hr).mono fun _ => hback
  | prefetch a => exact safe_bind ((safe_coreTryPrefetch a hr hg.late).mono fun _ => hback)
  | kswapd =>
    refine safe_lrudiskSynchkswapd.mono fun _ l' g' h' => ?_
    obtain ⟨hk, rfl⟩ := h'
    exact ⟨hr.kept hk, hg⟩
  | shrinkActive k =>
    refine safe_bind ((safe_shrinkActiveList k).mono fun _ l' g' h' => ?_)
    obtain ⟨hk, rfl⟩ := h'
    exact ⟨hr.kept hk, hg⟩
  | shrinkInactive k =>
    refine safe_bind ((safe_shrinkInactiveList k).mono fun _ l' g' h' => ?_)
    obtain ⟨hk, rfl⟩ := h'
    exact ⟨hr.kept hk, hg⟩
  | evictionworker =>
    refine (safe_lrudiskEvictionworker hr.calls hg.late).mono fun _ l' g' h' => ?_
    obtain ⟨hc, rfl⟩ := h'
    exact ⟨hc.rest hr.2, hg⟩
  | evictionworkerVector =>
    refine (safe_lrudiskEvictionworkerVector hr.calls hg.late).mono fun _ l' g' h' => ?_
    obtain ⟨hc, rfl⟩ := h'
    exact ⟨hc.rest hr.2, hg⟩
  | mmap a length flags =>
    exact safe_bind ((safe_mmapFilter a length flags hg.late hr).mono fun _ => hback)

/-! The start. -/

/-- Nobody has anything in hand. -/
def Ledger.empty : Ledger := ⟨fun _ => none, fun _ => none, fun _ _ => false, none⟩

theorem Ledger.share_empty (t : Tid) : (Ledger.empty.share t).Empty :=
  ⟨fun _ => rfl, fun _ => rfl, fun _ => rfl, rfl⟩

/-- A descriptor on a list that it fits, with whose flags nobody is at work, is well. -/
private theorem Entry.good_listed {r : Entry} {q : FifoList} (hl : r.list = some q)
    (hh : r.held = none) (hb : r.busy = none) (hlate : ∀ t, r.late t = false)
    (hq : q.Fits r.page.va r.page.offset) (hi : q = .dramFreeList → r.page.inDram = true) :
    r.Good where
  place := by
    rw [hl, hh]
    exact hq
  inDram hx := by
    rcases hx with hx | ⟨t, x, hx, -⟩
    · exact hi (Option.some.inj (hl.symm.trans hx))
    · rw [hh] at hx
      cases hx
  flags hx := absurd hb hx
  late t ht := by
    rw [hlate] at ht
    cases ht
  clear t x hx := by
    rw [hh] at hx
    cases hx
  claim t o hx := by
    rw [hb] at hx
    cases hx

/-- After the initialisation every descriptor that stands for a frame is on one of the two free
lists. -/
theorem Launched.owned (h : Launched dramsize disksize e) :
    Owned (initTotal dramsize disksize) (initFrames dramsize disksize) (System.start e).sh
      (System.start e).loc .empty := by
  have hset :
      Settled (initTotal dramsize disksize) (initFrames dramsize disksize) e.sh.skeleton := by
    rw [h.skeleton]
    exact settled_initSkeleton h.dram h.disk
  have hlist (d : PageId) : e.sh.list d = if d < pagesIn dramsize then some .dramFreeList
      else if d < initTotal dramsize disksize then some .diskFreeList else none := by
    show e.sh.skeleton.list d = _
    rw [h.skeleton, list_initSkeleton]
  have hpage (d : PageId) : e.sh.page d = if d < pagesIn dramsize then .fresh true d else if d <
      initTotal dramsize disksize then .fresh false (d - pagesIn dramsize) else .zero := by
    show e.sh.skeleton.page d = _
    rw [h.skeleton, page_initSkeleton]
  have hva (d : PageId) : (e.sh.page d).va = 0 := by
    rw [hpage]
    split
    · rfl
    · split <;> rfl
  have hframes : (List.range (initTotal dramsize disksize)).map
      (fun d => (e.sh.page d).virtualOffset) |>.Perm (initFrames dramsize disksize) :=
    hset.whole.frames
  have hnolate (d : PageId) (t : Tid) : Ledger.empty.late d t = false := rfl
  have hnohash (t : Tid) (P : Nat → Option PageId) (hP : Ledger.empty.hash = some (t, P)) :
      e.sh.pages = P := by
    cases hP
  refine ⟨fun d hd => ?_, fun d hd => ?_, fun d d' hd hd' hf => ?_, fun d hd => ?_,
    fun a d ha => ?_, fun d hd => ?_, hset.lock, hnohash, fun t d a hm => ?_, fun t => ?_⟩
  · by_cases hlt : d < pagesIn dramsize
    · have hl : e.sh.list d = some .dramFreeList := by rw [hlist, if_pos hlt]
      have hp : e.sh.page d = .fresh true d := by rw [hpage, if_pos hlt]
      apply Entry.good_listed (q := .dramFreeList) hl rfl rfl (hnolate d)
      · exact ⟨hva d, congrArg (fun p => p.virtualOffset.dram) hp⟩
      · intro _
        exact congrArg UserPage.inDram hp
    · have hl : e.sh.list d = some .diskFreeList := by rw [hlist, if_neg hlt, if_pos hd]
      have hp : e.sh.page d = .fresh false (d - pagesIn dramsize) := by
        rw [hpage, if_neg hlt, if_pos hd]
      apply Entry.good_listed (q := .diskFreeList) hl rfl rfl (hnolate d)
      · exact ⟨hva d, congrArg (fun p => p.virtualOffset.dram) hp⟩
      · intro hq
        cases hq
  · have hge : ¬ d < pagesIn dramsize :=
      fun hlt => absurd (Nat.lt_of_lt_of_le hlt (Nat.le_add_right _ _)) (Nat.not_lt.mpr hd)
    have hout : e.sh.page d = .zero := by rw [hpage, if_neg hge, if_neg (Nat.not_lt.mpr hd)]
    refine ⟨?_, rfl, rfl, hnolate d, hva d, ?_⟩
    · show e.sh.list d = none
      rw [hlist, if_neg hge, if_neg (Nat.not_lt.mpr hd)]
    · show (e.sh.page d).swappedOut = false
      rw [hout]
      rfl
  · have hnd := hframes.nodup_iff.mpr (nodup_initFrames dramsize disksize)
    exact List.inj_on_of_nodup_map hnd (List.mem_range.mpr hd) (List.mem_range.mpr hd') hf
  · exact hframes.mem_iff.mp (List.mem_map.mpr ⟨d, List.mem_range.mpr hd, rfl⟩)
  · have hnone : e.sh.pages a = none := by
      show e.sh.skeleton.pages a = none
      rw [h.skeleton]
      exact Function.update_of_ne (f := fun _ => none) ha _
    show e.sh.pages a = some d ↔ (e.sh.page d).va = a ∧ _
    rw [hnone, hva]
    constructor
    · intro hx
      cases hx
    · intro hx
      exact absurd hx.1.symm ha
  · have hzero : e.sh.skeleton.pages 0 = some (initTotal dramsize disksize) := hset.whole.zero
    have hd : e.sh.skeleton.pages 0 = some d := hd
    rw [hzero] at hd
    exact Nat.le_of_eq (Option.some.inj hd)
  · rw [(h.hands t).2] at hm
    cases hm
  · have hrings := h.initial.rings t
    have hreq : ((System.start e).loc t).requests = [] := by
      rw [Local.requests, (hrings .ioRing).1, (hrings .ioRing).2, (hrings .ioReadRing).1,
        (hrings .ioReadRing).2]
      rfl
    refine ⟨fun d f => ?_, ?_, ?_, ?_⟩
    · rw [(h.hands t).1]
      constructor
      · intro hx
        cases hx
      · intro hx
        cases hx.choose_spec.1
    · rw [(h.hands t).1]
      exact List.nodup_nil
    · rw [hreq]
      intro q hq
      cases hq
    · rw [hreq]
      exact List.nodup_nil

/-- The invariant holds at every moment of every run. -/
theorem owned_reach (h : Launched dramsize disksize e)
    (hc : Conf.Reach Upkeep anyStep (System.start e) c) :
    ∃ G, Owned (initTotal dramsize disksize) (initFrames dramsize disksize) c.sh c.loc G ∧
      ∀ t, (owning (initTotal dramsize disksize) (initFrames dramsize disksize)).Safe t (c.thr t)
        (fun _ => Free) (c.loc t) (G.share t) := by
  have hops (t : Tid) (p : Paging Unit) (hp : Upkeep p) (l : Local) (g : Share) (hg : Free l g) :
      (owning (initTotal dramsize disksize) (initFrames dramsize disksize)).Safe t p
      (fun _ => Free) l g := safe_upkeep hp hg
  refine reach_safe (Λ := owning (initTotal dramsize disksize) (initFrames dramsize disksize))
    (fun _ _ _ _ _ _ => trivial) hops ?_ hc
  refine ⟨.empty, h.owned, fun t => ⟨⟨?_, ?_⟩, Ledger.share_empty t⟩⟩
  · exact h.initial.rings t .ioRing
  · exact h.initial.rings t .ioReadRing

/-! A run with several threads under way. -/

/-- A schedule of operations that unmap nothing is a run. -/
theorem reach_schedule {c₀ c c' : System} (h : Conf.Reach Upkeep anyStep c₀ c)
    {l : List (Conf.Turn Abort Shared Local Tid)}
    (hops : ∀ x ∈ l, ∀ p, x.starts = some p → Upkeep p)
    (hl : c.play (fun _ _ => true) l = some c') : Conf.Reach Upkeep anyStep c₀ c' :=
  Conf.Reach.play hops (fun _ _ _ _ _ _ => trivial) h hl

/-- Four pages are stored to in two pages of DRAM, and one of those that are left is evicted. The
third thread then takes its frame for a first fault and stops before it adds the page to the hash,
the second one reads the first page in, the fourth prefetches the next one, and the first evicts the
last page. -/
def busyTurns : List (Conf.Turn Abort Shared Local Tid) :=
  [turnBy 0 mapStep, turnBy 0 (storeStep 0 1), turnBy 0 (storeStep 1 2), turnBy 0 (storeStep 3 3),
    turnBy 0 (storeStep 4 4), turnBy 1 (shrinkStep 2), turnBy 1 (3000, [], lrudiskEvictionworker),
    turnBy 3 (16, [], (loadStep 6).2.2), turnBy 2 (15, [], (loadStep 0).2.2),
    turnBy 1 (10, [], lrudiskEvictionworker),
    turnBy 4 (26, [], do let _ ← coreTryPrefetch smallBase; pure ()),
    goOn 1 18, goOn 2 10]

def busyMachine : System :=
  ((System.start roomyMachine).play (fun _ _ => true) busyTurns).getD (System.start roomyMachine)

theorem reach_busyMachine : Conf.Reach Upkeep anyStep (System.start roomyMachine) busyMachine := by
  have hsome : ((System.start roomyMachine).play (fun _ _ => true) busyTurns).isSome = true := by
    decide +kernel
  obtain ⟨c, hc⟩ := Option.isSome_iff_exists.mp hsome
  have hbusy : busyMachine = c := by rw [busyMachine, hc, Option.getD_some]
  rw [hbusy]
  refine reach_schedule .init ?_ hc
  simp only [busyTurns, List.forall_mem_cons, turnBy, goOn, Option.some.injEq, forall_eq',
    List.not_mem_nil, IsEmpty.forall_iff, implies_true, and_true, reduceCtorEq]
  exact ⟨.mmap .., .store .., .store .., .store .., .store .., .shrinkInactive 2, .evictionworker,
    .load _, .load _, .evictionworker, .prefetch _⟩

/-! Frames. -/

/-- Who may own a frame: a descriptor that takes part in no unfinished exchange, or an exchange of a
thread, on behalf of one of its descriptors. -/
inductive Owner where
  | descriptor (d : PageId)
  | exchange (t : Tid) (d : PageId)

/-- The owner has the frame, of so many descriptors. -/
def Owner.Owns (n : Nat) (c : System) (f : Frame) : Owner → Prop
  | .descriptor d =>
    d < n ∧ (∀ t f', (d, f') ∉ (c.loc t).exchange) ∧ (c.sh.page d).virtualOffset = f
  | .exchange t d => (d, f) ∈ (c.loc t).exchange

/-- The owner that speaks for a descriptor. -/
private def Ledger.owner (G : Ledger) (d : PageId) : Owner :=
  match G.held d with
  | some (t, x) => if x.stake.isSome then .exchange t d else .descriptor d
  | none => .descriptor d

private theorem Owned.exchange_iff (h : Owned n frames s ls G) :
    (d, f) ∈ (ls t).exchange ↔ ∃ x, G.held d = some (t, x) ∧ x.stake = some f := by
  rw [(h.locals t).exchange]
  exact exists_congr fun x => and_congr_left fun _ => mine_eq_some

/-- An owner speaks for one descriptor and has the frame for which that descriptor stands. -/
private theorem Owned.owns_iff (h : Owned n frames c.sh c.loc G) (o : Owner) :
    o.Owns n c f ↔ ∃ d, d < n ∧ o = G.owner d ∧ (entryOf c.sh G d).frame = f := by
  unfold Ledger.owner entryOf Entry.frame
  constructor
  · cases o with
    | descriptor d =>
      rintro ⟨hd, hno, hf⟩
      refine ⟨d, hd, ?_⟩
      cases hh : G.held d with
      | none => exact ⟨rfl, hf⟩
      | some u =>
        obtain ⟨t, x⟩ := u
        cases hs : x.stake with
        | some f' => exact absurd (h.exchange_iff.mpr ⟨x, hh, hs⟩) (hno t f')
        | none =>
          refine ⟨by simp [hs], ?_⟩
          show x.frame = f
          rw [Hold.frame, hs, ← hf]
          exact (h.inHand hh).2.2.symm
    | exchange t d =>
      intro hm
      obtain ⟨x, hx, hs⟩ := h.exchange_iff.mp hm
      refine ⟨d, h.lt_of_held hx, ?_⟩
      rw [hx]
      refine ⟨by simp [hs], ?_⟩
      show x.frame = f
      rw [Hold.frame, hs]
      rfl
  · rintro ⟨d, hd, rfl, hf⟩
    cases hh : G.held d with
    | none =>
      rw [hh] at hf
      refine ⟨hd, fun t f' hm => ?_, hf⟩
      obtain ⟨x, hx, -⟩ := h.exchange_iff.mp hm
      rw [hh] at hx
      cases hx
    | some u =>
      obtain ⟨t, x⟩ := u
      rw [hh] at hf
      have hf : x.frame = f := hf
      cases hs : x.stake with
      | none =>
        simp only [hs]
        refine ⟨hd, fun t' f' hm => ?_, ?_⟩
        · obtain ⟨y, hy, hys⟩ := h.exchange_iff.mp hm
          rw [hh] at hy
          cases hy
          rw [hs] at hys
          cases hys
        · rw [Hold.frame, hs] at hf
          exact (h.inHand hh).2.2.trans hf
      | some f' =>
        simp only [hs]
        refine h.exchange_iff.mpr ⟨x, hh, ?_⟩
        rw [Hold.frame, hs] at hf
        rw [hs]
        exact congrArg some hf

/-- A descriptor stands for every frame. -/
private theorem Owned.frame_surjective (h : Owned n frames s ls G) (hlen : frames.length = n)
    (hf : f ∈ frames) : ∃ d, d < n ∧ (entryOf s G d).frame = f := by
  have hnd : ((List.range n).map fun d => (entryOf s G d).frame).Nodup :=
    List.Nodup.map_on (fun d hd d' hd' hdd =>
      h.inj d d' (List.mem_range.mp hd) (List.mem_range.mp hd') hdd) List.nodup_range
  have hsub : ((List.range n).map fun d => (entryOf s G d).frame) ⊆ frames := fun f' hf' => by
    obtain ⟨d, hd, rfl⟩ := List.mem_map.mp hf'
    exact h.mem d (List.mem_range.mp hd)
  have hperm := (List.subperm_of_subset hnd hsub).perm_of_length_le
    (by rw [hlen, List.length_map, List.length_range])
  obtain ⟨d, hd, hdf⟩ := List.mem_map.mp (hperm.mem_iff.mpr hf)
  exact ⟨d, List.mem_range.mp hd, hdf⟩

private theorem length_initFrames (dramsize disksize : Nat) :
    (initFrames dramsize disksize).length = initTotal dramsize disksize := by
  simp [initFrames, initTotal]

/-- At every moment each frame of DRAM and disk has exactly one owner, and owners have no other
frames. -/
theorem frame_owned_once (h : Launched dramsize disksize e)
    (hc : Conf.Reach Upkeep anyStep (System.start e) c) :
    (∀ f ∈ initFrames dramsize disksize, ∃! o : Owner, o.Owns (initTotal dramsize disksize) c f) ∧
    ∀ (o : Owner) f, o.Owns (initTotal dramsize disksize) c f → f ∈ initFrames dramsize disksize ∧
      ∀ f', o.Owns (initTotal dramsize disksize) c f' → f' = f := by
  obtain ⟨G, hi, -⟩ := owned_reach h hc
  refine ⟨fun f hf => ?_, fun o f ho => ?_⟩
  · obtain ⟨d, hd, hdf⟩ := hi.frame_surjective (length_initFrames _ _) hf
    refine ⟨G.owner d, (hi.owns_iff _).mpr ⟨d, hd, rfl, hdf⟩, fun o ho => ?_⟩
    obtain ⟨d', hd', rfl, hdf'⟩ := (hi.owns_iff o).mp ho
    rw [hi.inj d' d hd' hd (hdf'.trans hdf.symm)]
  · obtain ⟨d, hd, rfl, rfl⟩ := (hi.owns_iff o).mp ho
    refine ⟨hi.mem d hd, fun f' ho' => ?_⟩
    obtain ⟨d', hd', hdd, rfl⟩ := (hi.owns_iff _).mp ho'
    have howner (a b : PageId) (hab : G.owner a = G.owner b) : a = b := by
      unfold Ledger.owner at hab
      split at hab <;> split at hab <;> (repeat' split at hab) <;> cases hab <;> rfl
    rw [howner d d' hdd]

/-- The first thread's eviction owns two frames there and the exchanges of two others one each. -/
theorem frame_owned_once_busyMachine :
    ((busyMachine.loc 1).exchange = [(5, ⟨false, 3 * pageSize⟩), (3, ⟨true, pageSize⟩)] ∧
        (busyMachine.loc 2).exchange = [(0, ⟨false, 0⟩)] ∧ (busyMachine.loc 4).exchange =
        [(1, ⟨false, pageSize⟩)]) ∧ ∀ f ∈ initFrames (2 * pageSize) (8 * pageSize),
      ∃! o : Owner, o.Owns (initTotal (2 * pageSize) (8 * pageSize)) busyMachine f :=
  ⟨by decide +kernel, (frame_owned_once launched_roomyMachine reach_busyMachine).1⟩

/-! Transfers. -/

/-- At every moment the disk requests of all threads that are not answered yet go to different disk
frames, each of them to one of the swap space's frames that an exchange of its own thread has. -/
theorem transfers_apart (h : Launched dramsize disksize e)
    (hc : Conf.Reach Upkeep anyStep (System.start e) c) :
    (∀ t, ((c.loc t).requests.map (·.offset)).Nodup) ∧
    (∀ t u, t ≠ u → ∀ q ∈ (c.loc t).requests, ∀ r ∈ (c.loc u).requests, q.offset ≠ r.offset) ∧
    ∀ t, ∀ q ∈ (c.loc t).requests, (⟨false, q.offset⟩ : Frame) ∈ initFrames dramsize disksize ∧
      ∃ d, (d, (⟨false, q.offset⟩ : Frame)) ∈ (c.loc t).exchange := by
  obtain ⟨G, hi, -⟩ := owned_reach h hc
  refine ⟨fun t => (hi.locals t).apart, fun t u htu q hq r hr hqr => ?_, fun t q hq => ?_⟩
  · obtain ⟨d, x, hx, hxs⟩ := (hi.locals t).backed q hq
    obtain ⟨d', y, hy, hys⟩ := (hi.locals u).backed r hr
    have hxt := Owned.held_of_share hx
    have hyu := Owned.held_of_share hy
    have hdd : d = d' := by
      apply hi.inj d d' (hi.lt_of_held hxt) (hi.lt_of_held hyu)
      unfold entryOf Entry.frame
      rw [hxt, hyu]
      show x.frame = y.frame
      rw [Hold.frame, Hold.frame, hxs, hys, hqr]
      rfl
    rw [hdd, hyu] at hxt
    exact htu (Prod.mk.inj (Option.some.inj hxt)).1.symm
  · obtain ⟨d, x, hx, hxs⟩ := (hi.locals t).backed q hq
    have hxt := Owned.held_of_share hx
    have hframe : (entryOf c.sh G d).frame = ⟨false, q.offset⟩ := by
      unfold entryOf Entry.frame
      rw [hxt]
      show x.frame = _
      rw [Hold.frame, hxs]
      rfl
    have hmem := hi.mem d (hi.lt_of_held hxt)
    rw [hframe] at hmem
    exact ⟨hmem, d, ((hi.locals t).exchange d _).mpr ⟨x, hx, hxs⟩⟩

/-- A write of one thread and reads of two others are under way there. -/
theorem transfers_apart_busyMachine :
    ((busyMachine.loc 1).requests.map (·.offset) = [3 * pageSize] ∧ (busyMachine.loc 2).requests.map
        (·.offset) = [0] ∧ (busyMachine.loc 4).requests.map (·.offset) = [pageSize]) ∧
    (∀ t u, t ≠ u → ∀ q ∈ (busyMachine.loc t).requests,
        ∀ r ∈ (busyMachine.loc u).requests, q.offset ≠ r.offset) ∧
    ∀ t, ∀ q ∈ (busyMachine.loc t).requests, (⟨false, q.offset⟩ : Frame) ∈ initFrames (2 * pageSize)
        (8 * pageSize) ∧ ∃ d, (d, (⟨false, q.offset⟩ : Frame)) ∈ (busyMachine.loc t).exchange :=
  ⟨by decide +kernel, (transfers_apart launched_roomyMachine reach_busyMachine).2⟩

/-! Assertions. -/

/-- No thread can fail one of the guarded assertions. -/
theorem guarded_never_fails (h : Launched dramsize disksize e)
    (hc : Conf.Reach Upkeep anyStep (System.start e) c) :
    ¬ ∃ t why, why.Guarded ∧ c.CanAbort t why := by
  rintro ⟨t, why, hg, ha⟩
  obtain ⟨G, hi, hsafe⟩ := owned_reach h hc
  exact not_bad_of_canAbort hi (hsafe t) ha hg

/-- The third thread stands before an assertion that fails when its address is in the hash. -/
theorem guarded_never_fails_busyMachine :
    (busyMachine.thr 3).abortOf ⟨{ busyMachine.sh with pages := fun _ => some 0 },
        busyMachine.loc 3⟩ = some .addPageUnique ∧
    ¬ ∃ t why, why.Guarded ∧ busyMachine.CanAbort t why :=
  ⟨by decide +kernel, guarded_never_fails launched_roomyMachine reach_busyMachine⟩

/-! Lists and the hash. -/

/-- What holds of a descriptor on a list. -/
structure Listed (c : System) (d : PageId) (q : FifoList) : Prop where
  fits : q.Fits (c.sh.page d).va (c.sh.page d).virtualOffset
  inDram : q = .dramFreeList → (c.sh.page d).inDram = true
  /-- It is in no exchange. -/
  apart : ∀ t f, (d, f) ∉ (c.loc t).exchange
  /-- The hash finds it by its address. -/
  found : (c.sh.page d).va ≠ 0 → c.sh.pages (c.sh.page d).va = some d
  /-- No other descriptor on a list has its frame. -/
  alone : ∀ b r, c.sh.list b = some r → (c.sh.page b).virtualOffset = (c.sh.page d).virtualOffset →
    b = d

/-- The hash finds a page under its own address. -/
theorem va_of_pages (h : Launched dramsize disksize e)
    (hc : Conf.Reach Upkeep anyStep (System.start e) c) {a : Nat} (hd : c.sh.pages a = some d) :
    (c.sh.page d).va = a := by
  obtain ⟨G, hi, -⟩ := owned_reach h hc
  by_cases ha : a = 0
  · subst ha
    exact (hi.outside d (hi.zero d hd)).2.2.2.2.1
  · exact ((hi.hash a d ha).mp hd).1

/-- At every moment the descriptors on each list are of its kind, the hash leads to those that are
pages and to no page under another address, and no two of them have one frame. -/
theorem lists_well_kept (h : Launched dramsize disksize e)
    (hc : Conf.Reach Upkeep anyStep (System.start e) c) :
    (∀ d q, c.sh.list d = some q → Listed c d q) ∧
    ∀ a d, c.sh.pages a = some d → (c.sh.page d).va = a := by
  obtain ⟨G, hi, -⟩ := owned_reach h hc
  have hframe {d : PageId} {q : FifoList} (hl : c.sh.list d = some q) : (entryOf c.sh G d).frame =
    (c.sh.page d).virtualOffset := by
    unfold entryOf Entry.frame
    rw [(hi.listed hl).1]
    rfl
  refine ⟨fun d q hl => ?_, fun a d => va_of_pages h hc⟩
  obtain ⟨hheld, hfits⟩ := hi.listed hl
  have hlt := hi.lt_of_list hl
  refine ⟨hfits, fun hq => (hi.good d hlt).inDram (.inl (hq ▸ hl)), fun t f hm => ?_, fun hva => ?_,
    fun b r hb hf => ?_⟩
  · obtain ⟨x, hx, -⟩ := hi.exchange_iff.mp hm
    rw [hheld] at hx
    cases hx
  · refine (hi.hash _ d hva).mpr ⟨rfl, ?_⟩
    unfold entryOf Entry.hashed
    rw [hheld]
  · apply hi.inj b d (hi.lt_of_list hb) hlt
    rw [hframe hb, hframe hl, hf]

theorem lists_well_kept_busyMachine :
    busyMachine.sh.list 2 = some .diskActiveList ∧ Listed busyMachine 2 .diskActiveList ∧
    busyMachine.sh.pages smallBase = some 0 ∧ (busyMachine.sh.page 0).va = smallBase := by
  have hl : busyMachine.sh.list 2 = some .diskActiveList := by decide +kernel
  have hp : busyMachine.sh.pages smallBase = some 0 := by decide +kernel
  obtain ⟨hlisted, hva⟩ := lists_well_kept launched_roomyMachine reach_busyMachine
  exact ⟨hl, hlisted 2 .diskActiveList hl, hp, hva smallBase 0 hp⟩

end ExtMem
