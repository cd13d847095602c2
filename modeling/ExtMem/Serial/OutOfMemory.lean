import Mathlib.Data.List.Perm.Subperm
import ExtMem.Serial.Conserved
import ExtMem.Serial.Scans
import ExtMem.Transfers.Matched

/-! When a page fault finds a DRAM frame although none is free: a page waits on the
eviction list. -/
namespace ExtMem
open Threads Threads.Prog

variable {n : Nat} {frames : List Frame} {hand : PageId → Option Hand} {k k' : Skeleton}
  {d r : PageId} {e : Env}
  {l l' : FifoList} {dramsize disksize : Nat}

/-! What the scans keep. -/

private theorem seq_moved {f : UserPage → UserPage}
    (hd : k.list d = some l) {m : FifoList} (hm : m ≠ l) :
    (((k.unlink d).write d f).link l' d).fifos.seq m = if m = l' then k.fifos.seq m ++ [d]
      else k.fifos.seq m := by
  have htag : (k.fifos.unlink d).tag d = none := by simp
  show ((k.fifos.unlink d).enqueue l' d).seq m = _
  rw [Queues.seq_enqueue htag]
  split
  · next hml => rw [← hml, Queues.seq_unlink_of_ne hd hm]
  · exact Queues.seq_unlink_of_ne hd hm

private theorem length_moved {f : UserPage → UserPage} (hd : k.list d = some l)
    (hl : l = .activeList ∨ l = .inactiveList) (hl' : l' = .activeList ∨ l' = .inactiveList) :
    ((((k.unlink d).write d f).link l' d).fifos.seq .activeList).length +
      ((((k.unlink d).write d f).link l' d).fifos.seq .inactiveList).length =
      (k.fifos.seq .activeList).length + (k.fifos.seq .inactiveList).length := by
  have htag : (k.fifos.unlink d).tag d = none := by simp
  have hmem : d ∈ k.fifos.seq l := (k.fifos.mem_iff l d).mpr hd
  have hpos := List.length_pos_of_mem hmem
  have hlen := List.length_erase_of_mem hmem
  show (((k.fifos.unlink d).enqueue l' d).seq .activeList).length +
    (((k.fifos.unlink d).enqueue l' d).seq .inactiveList).length = _
  rw [Queues.seq_enqueue htag, Queues.seq_enqueue htag]
  rcases hl with rfl | rfl
  · have hother := Queues.seq_unlink_of_ne hd (show FifoList.inactiveList ≠ .activeList by decide)
    rw [Queues.seq_unlink] at hother
    rcases hl' with rfl | rfl <;> simp [Queues.seq_unlink, hlen, hother] <;> omega
  · have hother := Queues.seq_unlink_of_ne hd (show FifoList.activeList ≠ .inactiveList by decide)
    rw [Queues.seq_unlink] at hother
    rcases hl' with rfl | rfl <;> simp [Queues.seq_unlink, hlen, hother] <;> omega

private theorem resident_of_inUse (hl : l = .activeList ∨ l = .inactiveList) :
    l.resident = true := by
  rcases hl with rfl | rfl <;> rfl

/-- A page waits for its eviction, and the free disk frames are as they were. -/
structure Waiting (n : Nat) (frames : List Frame) (k k' : Skeleton) : Prop where
  reclaimed : Reclaimed n frames (fun _ => none) k k'
  free : k'.fifos.seq .diskFreeList = k.fifos.seq .diskFreeList
  victim : k'.fifos.seq .evictionList ≠ []

private theorem scanKeeps_waiting :
    ScanKeeps (fun l => l.resident = true) (Waiting n frames k) where
  aligned h hd := (h.reclaimed.1.fits hd).2.1
  move h hd hl hl' hf := by
    refine ⟨h.reclaimed.trans (h.reclaimed.1.rescan hd (resident_of_inUse hl) hl' hf), ?_, ?_⟩
    · rw [seq_moved hd (by rcases hl with rfl | rfl <;> decide), if_neg (by rintro rfl; cases hl')]
      exact h.free
    · rw [seq_moved hd (by rcases hl with rfl | rfl <;> decide)]
      split
      · simp
      · exact h.victim
  flag b h := ⟨h.reclaimed.shrinking b, h.free, h.victim⟩

/-- No DRAM frame is free, no page waits for its eviction, and so many pages are in use. -/
structure Dry (n : Nat) (frames : List Frame) (m size : Nat) (k : Skeleton) : Prop where
  whole : Whole n frames (fun _ => none) k
  free : k.fifos.seq .dramFreeList = []
  victim : k.fifos.seq .evictionList = []
  used : (k.fifos.seq .activeList).length + (k.fifos.seq .inactiveList).length = m
  size : k.sizes.1 = size

private theorem scanKeeps_dry {m size : Nat} :
    ScanKeeps (fun l => l = .activeList ∨ l = .inactiveList) (Dry n frames m size) where
  aligned h hd := (h.whole.fits hd).2.1
  move h hd hl hl' hf := by
    refine ⟨(h.whole.rescan hd (resident_of_inUse hl) (resident_of_inUse hl') hf).1, ?_, ?_, ?_,
      h.size⟩
    · rw [seq_moved hd (by rcases hl with rfl | rfl <;> decide),
        if_neg (by rcases hl' with rfl | rfl <;> decide)]
      exact h.free
    · rw [seq_moved hd (by rcases hl with rfl | rfl <;> decide),
        if_neg (by rcases hl' with rfl | rfl <;> decide)]
      exact h.victim
    · rw [length_moved hd hl hl']
      exact h.used
  flag b h := ⟨h.whole.congr rfl rfl rfl, h.free, h.victim, h.used, h.size⟩

/-- The pages in use stand for different DRAM frames. -/
theorem Whole.used_le (h : Whole n frames (fun _ => none) k) :
    (k.fifos.seq .activeList).length + (k.fifos.seq .inactiveList).length ≤
      frames.countP (·.dram) := by
  have hlist {d : PageId} (hd : d ∈ k.fifos.seq .activeList ++ k.fifos.seq .inactiveList) :
      ∃ l : FifoList, l.resident = true ∧ k.list d = some l := by
    rcases List.mem_append.mp hd with hd | hd
    · exact ⟨_, rfl, (k.fifos.mem_iff _ d).mp hd⟩
    · exact ⟨_, rfl, (k.fifos.mem_iff _ d).mp hd⟩
  have hnodup : (k.fifos.seq .activeList ++ k.fifos.seq .inactiveList).Nodup := by
    refine List.nodup_append'.mpr ⟨k.fifos.nodup _, k.fifos.nodup _, fun d ha hi => ?_⟩
    have htag := ((k.fifos.mem_iff _ d).mp ha).symm.trans ((k.fifos.mem_iff _ d).mp hi)
    cases htag
  have hsub : (k.fifos.seq .activeList ++ k.fifos.seq .inactiveList).Subperm (List.range n) := by
    refine List.subperm_of_subset hnodup fun d hd => ?_
    obtain ⟨l, -, hl⟩ := hlist hd
    exact List.mem_range.mpr (h.lt_of_list hl)
  have hdram : ∀ d ∈ k.fifos.seq .activeList ++ k.fifos.seq .inactiveList,
      (k.page d).virtualOffset.dram = true := by
    intro d hd
    obtain ⟨l, hres, hl⟩ := hlist hd
    exact ((fits_resident hres _).mp (h.fits hl)).2.2.2.1
  have hcount := hsub.countP_le fun d => (k.page d).virtualOffset.dram
  rw [List.countP_eq_length.mpr hdram, List.length_append] at hcount
  refine hcount.trans (Nat.le_of_eq ?_)
  rw [← h.frames.countP_eq, List.countP_map]
  rfl

/-! The eviction of the page that waits. -/

private theorem offset_fits (h : Whole n frames hand k) (hd : d < n) :
    offsetFits (k.page d).virtualOffset.offset pageSize
      (if (k.page d).virtualOffset.dram then k.sizes.1 else k.sizes.2) = true := by
  have hmem : (k.page d).virtualOffset ∈ frames :=
    h.frames.mem_iff.mp (List.mem_map.mpr ⟨d, List.mem_range.mpr hd, rfl⟩)
  have hroom := h.room.1 _ hmem
  have hlt : (if (k.page d).virtualOffset.dram then k.sizes.1 else k.sizes.2) < 2 ^ 64 := by
    split
    · exact h.room.2.1
    · exact h.room.2.2
  exact offsetFits_of_le (by decide) hroom hlt

theorem evictable {xs : List PageId} (h : Whole n frames hand k)
    (hmap : ∀ b d, b ≠ 0 → k.pages b = some d → k.vma b = .uffd)
    (hs : k.fifos.seq .evictionList = d :: xs)
    (hfree : (k.page d).hasReserve = false → k.fifos.seq .diskFreeList ≠ []) :
    Evictable (k.unlink d) d := by
  have hl : k.list d = some .evictionList := Whole.list_of_seq hs
  have hd := h.lt_of_list hl
  have hres : (k.page d).Resident := h.fits hl
  have hdisk {r : PageId} (hr : r < n) (hf : (k.page r).virtualOffset.dram = false) :
      offsetFits (k.page r).virtualOffset.offset pageSize k.sizes.2 = true := by
    have hfit := offset_fits h hr
    rwa [hf, if_neg Bool.false_ne_true] at hfit
  refine ⟨h.bare hs, ⟨hres.1, hres.2.1, ?_⟩, hres.2.2.1, hres.2.2.2.2.1, h.pt d hd, ?_,
    fun hr => ?_, fun hr => ?_⟩
  · exact hmap _ d hres.1 ((h.hash _ d hres.1).mpr ⟨hd, rfl⟩)
  · have hfit := offset_fits h hd
    rwa [hres.2.2.2.1, if_pos rfl] at hfit
  · have hsome : (k.page d).reserve.isSome = true := hres.2.2.2.2.2.2.symm.trans hr
    obtain ⟨r, hr⟩ := Option.isSome_iff_exists.mp hsome
    obtain ⟨hrn, hback, hcopy⟩ := h.reserved d r hd hr
    have hlr : k.list r = some .diskReserveList := by
      by_contra hc
      rw [hcopy.mpr hc] at hl
      cases hl
    have hf : (k.page r).Copy := h.fits hlr
    have hne : r ≠ d := by
      rintro rfl
      rw [hl] at hlr
      cases hlr
    refine ⟨r, hr, hback, ?_, hdisk hrn hf.2.2.1⟩
    rw [Skeleton.list_unlink, if_neg hne]
    exact hlr
  · obtain ⟨r, ys, hys⟩ := List.exists_cons_of_ne_nil (hfree hr)
    have hlr : k.list r = some .diskFreeList := Whole.list_of_seq hys
    have hf : (k.page r).Free false := h.fits hlr
    refine ⟨r, ys, ?_, h.present r, hdisk (h.lt_of_list hlr) hf.2.2.1⟩
    show (k.fifos.unlink d).seq .diskFreeList = _
    rw [Queues.seq_unlink_of_ne hl (by decide)]
    exact hys

/-! A fault. -/

/-- A page fault returns with a descriptor of a free DRAM frame, whatever the flags read as. -/
def Supplied (e : Env) : Prop :=
  Total lrudiskPagefault e fun d e' => e'.sh.list d = none ∧ (e'.sh.page d).Free true

private theorem after_supplied (hk : e.sh.skeleton = k) (h : Whole n frames (fun _ => none) k) :
    After lrudiskPagefault e fun d e' => e'.sh.list d = none ∧ (e'.sh.page d).Free true := by
  refine (after_lrudiskPagefault hk h).mono fun d e' hf => ?_
  obtain ⟨k₁, hw, -, -, -, hk'⟩ := hf
  have hd : Function.update (fun _ => none) d (some .spare) d = some Hand.spare :=
    Function.update_self ..
  have hin : (k₁.page d).Free true := hw.inHand hd
  refine ⟨?_, ?_⟩
  · show e'.sh.skeleton.list d = none
    rw [hk']
    exact hw.list_of_hand hd
  · show (e'.sh.skeleton.page d).Free true
    rw [hk', Skeleton.page_write_self]
    exact hin

/-- An int holds the number of the inactive pages if it holds that of the DRAM frames. -/
private theorem used_fits (hk : e.sh.skeleton = k) (h : Whole n frames (fun _ => none) k)
    (hcount : frames.countP (·.dram) < 2 ^ 31) :
    (e.sh.fifos.seq .inactiveList).length < 2 ^ 31 := by
  have hused := h.used_le
  rw [← hk] at hused
  exact Nat.lt_of_le_of_lt (Nat.le_trans (Nat.le_add_left _ _) hused) hcount

private theorem supplied_of_waiting (h : Settled n frames k)
    (hcount : frames.countP (·.dram) < 2 ^ 31) (hk : e.sh.skeleton = k)
    (hring : (e.loc.ring .ioRing).sq = []) (hempty : k.fifos.seq .dramFreeList = [])
    (hdisk : k.fifos.seq .diskFreeList ≠ []) (hwait : k.fifos.seq .evictionList ≠ []) :
    Supplied e := by
  refine Total.strengthen (Q := fun _ _ => True) ?_ (after_supplied hk h.whole)
  refine Total.bind (Q := fun _ _ => True) ?_ fun d e _ => .act rfl (.ret trivial)
  refine .iter (Total.bind' (Q := fun r _ => ∃ d, r = .inr d) ?_ ?_)
  · rw [if_pos (by decide)]
    have hstart : Waiting n frames k e.sh.skeleton :=
      ⟨by rw [hk]; exact .refl h.whole, by rw [hk], by rw [hk]; exact hwait⟩
    have hs : e.sh.fifos.seq .dramFreeList = [] := by
      rw [← hempty, ← hk]
      rfl
    refine .act (dequeue_nil hs) ?_
    · have hfits : e.sh.toScan 12 + swapClusterCount ≤ 2 ^ 31 :=
        toScan_fits (by decide) (used_fits hk h.whole hcount)
      refine ((total_fetchFreeScan scanKeeps_waiting (fun _ h => h) hstart hfits).room
        (ringsKept_plain (by simp)) (by rw [hring]; decide)).bind ?_
      rintro p e ⟨hw, hroom⟩
      obtain ⟨d, xs, hs⟩ := List.exists_cons_of_ne_nil hw.victim
      have hmap (b : Nat) (d : PageId) (hb : b ≠ 0) (hd : e.sh.skeleton.pages b = some d) :
          e.sh.skeleton.vma b = .uffd := by
        rw [hw.reclaimed.2.pages] at hd
        rw [hw.reclaimed.2.vma]
        exact h.mapped b d hb hd
      have hev := evictable hw.reclaimed.1 hmap hs fun _ => by rw [hw.free]; exact hdisk
      have hs' : e.sh.fifos.seq .evictionList = d :: xs := hs
      refine .act (dequeue_cons hs') ?_
      · have hk' : (takeVictim d (e.dequeue .evictionList d)).sh.skeleton =
            e.sh.skeleton.unlink d := rfl
        exact (total_fetchFreeEvict hk' hroom hev).bind fun r _ _ => .ret ⟨r, rfl⟩
  · rintro r e' ⟨d, rfl⟩
    exact .ret trivial

/-! Without a page that waits. -/

private theorem may_emptyQueue {β : Type} {q : Option PageId → Paging β} {Q : β → Env → Prop}
    {aux : PageId → Env → Env} (hs : e.sh.fifos.seq l = []) (h : May (q none) e Q) :
    May (dequeueFifoThen l aux >>= q) e Q := by
  obtain ⟨b, e', hr, hQ⟩ := h
  exact ⟨b, e', .act (dequeue_nil hs) hr, hQ⟩

/-- One pass of the loop of `fetch_free_asynch`. -/
def fetchFreePass (priority : Nat) : Paging (Nat ⊕ PageId) := do
  if priority > 0 then do
    let page ← dequeueFifo .dramFreeList
    match page with
    | some page => pure (.inr page)
    | none => do
      let priority ← fetchFreeScan priority
      let page ← dequeueFifoThen .evictionList takeVictim
      match page with
      | some page => do
        let diskpage ← fetchFreeEvict page
        pure (.inr diskpage)
      | none => pure (.inl priority)
  else Prog.fail .outOfMemory

theorem fetchFreeAsynch_eq : fetchFreeAsynch = Prog.loop fetchFreePass 12 := rfl

/-- A pass over long lists may find every page accessed. -/
private theorem may_pass {m size priority : Nat} (hcount : frames.countP (·.dram) < 2 ^ 31)
    (h : Dry n frames m size e.sh.skeleton) (hsp : e.sh.spurious = true)
    (hrun : e.sh.shrinkageRunning = false) (hlong : m > size / (pageSize * 2)) :
    May (fetchFreePass (priority + 1)) e fun r e' =>
        r = .inl priority ∧ Dry n frames m size e'.sh.skeleton ∧ e'.sh.spurious = true ∧
      e'.sh.shrinkageRunning = false := by
  have hlong' : (e.sh.fifos.seq .activeList).length + (e.sh.fifos.seq .inactiveList).length >
      e.sh.dramsize / (pageSize * 2) := by
    rw [show e.sh.dramsize = size from h.size]
    have hused : (e.sh.fifos.seq .activeList).length + (e.sh.fifos.seq .inactiveList).length = m :=
      h.used
    rw [hused]
    exact hlong
  obtain ⟨p, e₁, hr, hp, hdry, hsp₁⟩ := may_fetchFreeScan scanKeeps_dry (.inl rfl)
    (.inr rfl) h hsp hrun hlong' (toScan_fits (Nat.succ_pos _) (used_fits rfl h.whole hcount))
  have hrest : Rested n frames (fun _ => none) e.sh.skeleton e := ⟨.refl h.whole, fun hs => hs⟩
  have hrun₁ : e₁.sh.shrinkageRunning = false := (after_fetchFreeScan hrest _ _ hr).2 hrun
  refine may_emptyQueue h.free
    (May.bind (R := fun a e' => a = priority ∧ e' = e₁) ⟨p, e₁, hr, hp, rfl⟩ ?_)
  rintro a e' ⟨ha, he⟩
  subst a e'
  exact may_emptyQueue hdry.victim (May.pure ⟨rfl, hdry, hsp₁, hrun₁⟩)

/-- Twelve passes may find every page accessed, and then the memory is said to be out. -/
private theorem not_total_of_long {m size : Nat} {β : Type} {q : PageId → Paging β}
    {Q : β → Env → Prop} (hcount : frames.countP (·.dram) < 2 ^ 31)
    (hlong : m > size / (pageSize * 2)) (priority : Nat) (h : Dry n frames m size e.sh.skeleton)
    (hsp : e.sh.spurious = true) (hrun : e.sh.shrinkageRunning = false) :
    ¬ Total ((Prog.loop fetchFreePass priority).bind q) e Q := by
  intro ht
  induction priority generalizing e with
  | zero =>
    cases ht with
    | iter ht =>
      cases ht with
      | act he _ => cases he
  | succ p ih =>
    obtain ⟨r, e₁, hr, rfl, hdry, hsp₁, hrun₁⟩ := may_pass hcount h hsp hrun hlong
    exact ih hdry hsp₁ hrun₁ (Total.pass ht hr)

/-- Short lists and lists that are said to be scanned are not scanned, and the fault waits for
ever. -/
theorem not_ends_of_idle (hfree : e.sh.fifos.seq .dramFreeList = [])
    (hvictim : e.sh.fifos.seq .evictionList = [])
    (hidle : e.sh.shrinkageRunning = true ∨ ¬ (e.sh.fifos.seq .activeList).length +
      (e.sh.fifos.seq .inactiveList).length > e.sh.dramsize / (pageSize * 2)) :
    ¬ Ends fetchFreeAsynch e := by
  have hscan : Total (fetchFreeScan 12) e fun p e' => p = 12 ∧ e' = e := by
    refine .act rfl ?_
    show Total (if e.sh.shrinkageRunning = true then pure 12 else _) e _
    split
    · exact .ret ⟨rfl, rfl⟩
    · next hrun =>
      refine .act rfl (.act rfl (.act rfl ?_))
      show Total (if _ > _ then _ else pure 12) e _
      rw [if_neg (hidle.resolve_left hrun)]
      exact .ret ⟨rfl, rfl⟩
  rw [fetchFreeAsynch_eq]
  refine not_ends_loop (fun p e' => p = 12 ∧ e' = e) ?_ ⟨rfl, rfl⟩
  rintro p e' ⟨rfl, he⟩
  subst e'
  refine .act (dequeue_nil hfree) (hscan.bind fun p e' hp => ?_)
  obtain ⟨rfl, he⟩ := hp
  subst e'
  exact .act (dequeue_nil hvictim) (.ret ⟨12, rfl, rfl, rfl⟩)

private theorem not_supplied (h : Settled n frames k) (hcount : frames.countP (·.dram) < 2 ^ 31)
    (hk : e.sh.skeleton = k) (hsp : e.sh.spurious = true) (hempty : k.fifos.seq .dramFreeList = [])
    (hnone : k.fifos.seq .evictionList = []) : ¬ Supplied e := by
  intro hs
  have hrun : e.sh.shrinkageRunning = false := (congrArg (·.shrinking) hk).trans h.shrinking
  subst hk
  by_cases hlong : (e.sh.fifos.seq .activeList).length + (e.sh.fifos.seq .inactiveList).length >
      e.sh.dramsize / (pageSize * 2)
  · exact not_total_of_long hcount hlong 12 ⟨h.whole, hempty, hnone, rfl, rfl⟩ hsp hrun hs
  · exact not_ends_of_idle hempty hnone (.inr hlong) (Ends.left hs.ends_self)

/-! The rings of a thread that is in no operation. -/

/-- Between two operations no thread has a request on its rings. -/
theorem Paused.rings {c : System} (h : Paused dramsize disksize c) (t : Tid) (r : RingName) :
    ((c.loc t).ring r).sq = [] ∧ ((c.loc t).ring r).outstanding = [] := by
  obtain ⟨e, he, hr⟩ := h.reach
  have hreach : Conf.Reach PagingOperation anyStep (System.start e) c :=
    (hr.more fun _ hp => .operation hp).mono fun _ _ _ _ => trivial
  exact rings_at_rest he.initial hreach (h.quiet t) r

/-- With no DRAM frame free but a disk frame free, a page fault between two operations is supplied
with a DRAM frame, whatever the flags read as, if and only if a page waits on the eviction list. -/
theorem supplied_iff {c : System} (h : Paused dramsize disksize c) (t : Tid)
    (hspur : c.sh.spurious = true) (hempty : c.sh.fifos.seq .dramFreeList = [])
    (hdisk : c.sh.fifos.seq .diskFreeList ≠ []) :
    Supplied ⟨c.sh, c.loc t⟩ ↔ c.sh.fifos.seq .evictionList ≠ [] := by
  refine ⟨fun hs hnone => ?_, fun hwait => ?_⟩
  · exact not_supplied h.settled h.counted rfl hspur hempty hnone hs
  · exact supplied_of_waiting h.settled h.counted rfl (h.rings t .ioRing).1 hempty hdisk hwait

private theorem paused_filled :
    Paused (2 * pageSize) (2 * pageSize) (System.start crammedMachine) := by
  have hend : (exec 200 [] extmemInit
      (⟨.boot (2 * pageSize) (2 * pageSize) false true blankDisk, .fresh 0⟩ : Env)).isSome =
      true := by
    decide +kernel
  have hlaunched : Launched (2 * pageSize) (2 * pageSize) restlessMachine :=
    ⟨by decide, by decide, false, true, blankDisk, runs_after hend⟩
  refine hlaunched.paused (l := fillingStory) ?_ (by decide +kernel)
  simp [fillingStory, operation_mapStep, operation_loadStep]

private theorem filled : crammedMachine.sh.spurious = true ∧
    crammedMachine.sh.fifos.seq .dramFreeList = [] ∧
    crammedMachine.sh.fifos.seq .diskFreeList ≠ [] := by
  decide +kernel

theorem supplied_iff_filled : ∃ c, Paused (2 * pageSize) (2 * pageSize) c ∧ c.sh.spurious = true ∧
    c.sh.fifos.seq .dramFreeList = [] ∧ c.sh.fifos.seq .diskFreeList ≠ [] ∧
    (Supplied ⟨c.sh, c.loc 0⟩ ↔ c.sh.fifos.seq .evictionList ≠ []) :=
  ⟨_, paused_filled, filled.1, filled.2.1, filled.2.2,
    supplied_iff paused_filled 0 filled.1 filled.2.1 filled.2.2⟩

/-- With both pages found accessed each time, a fault takes the memory to be out. -/
theorem out_of_memory :
    ∃ c e, Paused (2 * pageSize) (2 * pageSize) c ∧ c.sh.fifos.seq .dramFreeList = [] ∧
      (∃ d l, c.sh.list d = some l ∧ l.resident = true) ∧ c.sh.fifos.seq .diskFreeList ≠ [] ∧
      Aborts lrudiskPagefault ⟨c.sh, c.loc 0⟩ .outOfMemory e := by
  have hexec : ((execAbort 2000 (List.replicate 8 1) lrudiskPagefault crammedMachine).map (·.1)) =
      some .outOfMemory := by decide +kernel
  obtain ⟨⟨why, e⟩, he, hw⟩ := Option.map_eq_some_iff.mp hexec
  dsimp only at hw
  subst hw
  have hlist : crammedMachine.sh.list 0 = some .inactiveList := by decide +kernel
  have hloc : (System.start crammedMachine).loc 0 = crammedMachine.loc := by
    simp [System.start, System.idle]
  refine ⟨_, e, paused_filled, filled.2.1, ⟨0, _, hlist, rfl⟩, filled.2.2, ?_⟩
  rw [hloc]
  exact execAbort_aborts he

end ExtMem
