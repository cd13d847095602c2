import ExtMem.Serial.Start

/-! Descriptors and frames are conserved in runs of one operation at a time, for sizes whose
pages the counters of the initialisation can count. -/
namespace ExtMem
open Threads Threads.Prog

/-- The lists of descriptors that stand for a frame of DRAM, and of those that stand for one of
the disk. -/
def dramSide (q : Queues FifoList PageId) : List PageId :=
  q.seq .dramFreeList ++ q.seq .inactiveList ++ q.seq .activeList ++ q.seq .evictionList

def diskSide (q : Queues FifoList PageId) : List PageId :=
  q.seq .diskActiveList ++ q.seq .diskReserveList ++ q.seq .diskFreeList

/-- The lists of pages that have an address. -/
def FifoList.tracked (l : FifoList) : Bool := l.resident || l == .diskActiveList

/-- Conservation of as many descriptors as the two sizes have pages. -/
structure Conserved (dramPages diskPages : Nat) (s : Shared) : Prop where
  /-- Every descriptor is on one list. -/
  listed : ∀ d, d < dramPages + diskPages → ∃! l, d ∈ s.fifos.seq l
  inDram : ∀ d ∈ dramSide s.fifos, (s.page d).inDram = true
  onDisk : ∀ d ∈ diskSide s.fifos, (s.page d).inDram = false
  dramOffsets : ((dramSide s.fifos).map fun d => (s.page d).virtualOffset.offset).Perm
    ((List.range dramPages).map (· * pageSize))
  diskOffsets : ((diskSide s.fifos).map fun d => (s.page d).virtualOffset.offset).Perm
    ((List.range diskPages).map (· * pageSize))
  /-- The tracked descriptors are in the hash under their addresses, the others nowhere. -/
  hash : ∀ d, d < dramPages + diskPages → ∀ a, s.pages a = some d ↔
    (s.page d).va = a ∧ ∃ l : FifoList, l.tracked = true ∧ d ∈ s.fifos.seq l
  address : ∀ d, d < dramPages + diskPages → ∀ l, d ∈ s.fifos.seq l →
    if l.tracked then (s.page d).va ≠ 0 ∧ (s.page d).va % pageSize = 0 else (s.page d).va = 0
  flags : ∀ l : FifoList, l.tracked = true → ∀ d ∈ s.fifos.seq l,
    (s.page d).migrating = false ∧ (s.page d).swappedOut = !(s.page d).inDram
  /-- The pages with a reserve and the reserve descriptors are paired, in both directions. -/
  reserve : ∀ l : FifoList, l.resident = true → ∀ d ∈ s.fifos.seq l, (s.page d).hasReserve = true →
    ∃ r ∈ s.fifos.seq .diskReserveList, (s.page d).reserve = some r ∧ (s.page r).reserve = some d
  copy :
    ∀ r ∈ s.fifos.seq .diskReserveList, ∃ d, ∃ l : FifoList, l.resident = true ∧ d ∈ s.fifos.seq l ∧
    (s.page d).hasReserve = true ∧ (s.page r).reserve = some d ∧ (s.page d).reserve = some r
  unpaired : ∀ l, l ≠ .diskReserveList →
    ∀ d ∈ s.fifos.seq l, (s.page d).hasReserve = false → (s.page d).reserve = none

/-- On which side a list is. -/
def FifoList.onDram : FifoList → Bool
  | .dramFreeList | .inactiveList | .activeList | .evictionList => true
  | _ => false

private theorem mem_dramSide {q : Queues FifoList PageId} {d : PageId} :
    d ∈ dramSide q ↔ ∃ l : FifoList, l.onDram = true ∧ q.tag d = some l := by
  simp only [dramSide, List.mem_append, q.mem_iff]
  constructor
  · rintro (((h | h) | h) | h) <;> exact ⟨_, rfl, h⟩
  · rintro ⟨l, hl, h⟩
    cases l <;> first | (cases hl; done) | simp [h]

private theorem mem_diskSide {q : Queues FifoList PageId} {d : PageId} :
    d ∈ diskSide q ↔ ∃ l : FifoList, l.onDram = false ∧ q.tag d = some l := by
  simp only [diskSide, List.mem_append, q.mem_iff]
  constructor
  · rintro ((h | h) | h) <;> exact ⟨_, rfl, h⟩
  · rintro ⟨l, hl, h⟩
    cases l <;> first | (cases hl; done) | simp [h]

private theorem disjoint_of_tag {q : Queues FifoList PageId} {l m : FifoList} (h : l ≠ m) :
    List.Disjoint (q.seq l) (q.seq m) := fun d hl hm =>
  h (Option.some.inj (((q.mem_iff l d).mp hl).symm.trans ((q.mem_iff m d).mp hm)))

private theorem nodup_dramSide (q : Queues FifoList PageId) : (dramSide q).Nodup := by
  unfold dramSide
  refine List.nodup_append'.mpr ⟨List.nodup_append'.mpr
    ⟨List.nodup_append'.mpr ⟨q.nodup _, q.nodup _, ?_⟩, q.nodup _, ?_⟩, q.nodup _, ?_⟩
  · exact disjoint_of_tag (by decide)
  · exact List.disjoint_append_left.mpr ⟨disjoint_of_tag (by decide), disjoint_of_tag (by decide)⟩
  · refine List.disjoint_append_left.mpr ⟨List.disjoint_append_left.mpr ⟨?_, ?_⟩, ?_⟩ <;>
      exact disjoint_of_tag (by decide)

private theorem nodup_diskSide (q : Queues FifoList PageId) : (diskSide q).Nodup := by
  unfold diskSide
  refine List.nodup_append'.mpr ⟨List.nodup_append'.mpr ⟨q.nodup _, q.nodup _, ?_⟩, q.nodup _, ?_⟩
  · exact disjoint_of_tag (by decide)
  · exact List.disjoint_append_left.mpr ⟨disjoint_of_tag (by decide), disjoint_of_tag (by decide)⟩

namespace Settled
variable {n : Nat} {frames : List Frame} {k : Skeleton} {d r : PageId} {l : FifoList}

private theorem list_some (h : Settled n frames k) (hd : d < n) : ∃ l, k.list d = some l := by
  have hp := h.whole.place d hd
  unfold Skeleton.Place at hp
  cases hl : k.list d with
  | none =>
    rw [hl] at hp
    exact hp.elim
  | some l => exact ⟨l, rfl⟩

private theorem side (h : Settled n frames k) (hl : k.list d = some l) :
    (k.page d).inDram = l.onDram ∧ (k.page d).virtualOffset.dram = l.onDram := by
  have hf := h.whole.fits hl
  cases l with
  | activeList => exact ⟨hf.2.2.1, hf.2.2.2.1⟩
  | inactiveList => exact ⟨hf.2.2.1, hf.2.2.2.1⟩
  | evictionList => exact ⟨hf.2.2.1, hf.2.2.2.1⟩
  | dramFreeList => exact ⟨hf.2.1, hf.2.2.1⟩
  | diskFreeList => exact ⟨hf.2.1, hf.2.2.1⟩
  | diskActiveList => exact ⟨hf.1.2.2.1, hf.1.2.2.2.1⟩
  | diskReserveList => exact ⟨hf.2.1, hf.2.2.1⟩

theorem tracked_iff (h : Settled n frames k) (hl : k.list d = some l) :
    if l.tracked then (k.page d).va ≠ 0 ∧ (k.page d).va % pageSize = 0 ∧ (k.page d).migrating =
        false ∧ (k.page d).swappedOut = !(k.page d).inDram else (k.page d).va = 0 := by
  have hf := h.whole.fits hl
  cases l with
  | activeList => exact ⟨hf.1, hf.2.1, hf.2.2.2.2.2.1, by rw [hf.2.2.1, hf.2.2.2.2.1]; rfl⟩
  | inactiveList => exact ⟨hf.1, hf.2.1, hf.2.2.2.2.2.1, by rw [hf.2.2.1, hf.2.2.2.2.1]; rfl⟩
  | evictionList => exact ⟨hf.1, hf.2.1, hf.2.2.2.2.2.1, by rw [hf.2.2.1, hf.2.2.2.2.1]; rfl⟩
  | diskActiveList => exact ⟨hf.1.1, hf.1.2.1, hf.2, by rw [hf.1.2.2.1, hf.1.2.2.2.2.1]; rfl⟩
  | dramFreeList => exact hf.1
  | diskFreeList => exact hf.1
  | diskReserveList => exact hf.1

private theorem offsets (h : Settled n frames k) (b : Bool)
    (side : List PageId) (hnodup : side.Nodup)
    (hside : ∀ d, d ∈ side ↔ ∃ l : FifoList, l.onDram = b ∧ k.list d = some l) :
    (side.map fun d => (k.page d).virtualOffset.offset).Perm
      ((frames.filter (·.dram == b)).map (·.offset)) := by
  have hperm : side.Perm ((List.range n).filter fun d => (k.page d).virtualOffset.dram == b) := by
    refine (List.perm_ext_iff_of_nodup hnodup (List.nodup_range.filter _)).mpr fun d => ?_
    rw [hside, List.mem_filter, List.mem_range, beq_iff_eq]
    constructor
    · rintro ⟨l, hl, hd⟩
      exact ⟨h.whole.lt_of_list hd, by rw [(h.side hd).2, hl]⟩
    · rintro ⟨hd, hb⟩
      obtain ⟨l, hl⟩ := h.list_some hd
      exact ⟨l, by rw [← (h.side hl).2, hb], hl⟩
  have hframes := (h.whole.frames.filter (·.dram == b)).map (·.offset)
  rw [List.filter_map, List.map_map] at hframes
  exact (hperm.map fun d => (k.page d).virtualOffset.offset).trans hframes

end Settled

private theorem initFrames_dram (dramsize disksize : Nat) :
    ((initFrames dramsize disksize).filter (·.dram == true)).map (·.offset) =
      (List.range (pagesIn dramsize)).map (· * pageSize) := by
  unfold initFrames
  rw [List.filter_append, List.filter_map, List.filter_map]
  simp [Function.comp_def]

private theorem initFrames_disk (dramsize disksize : Nat) :
    ((initFrames dramsize disksize).filter (·.dram == false)).map (·.offset) =
      (List.range (pagesIn disksize)).map (· * pageSize) := by
  unfold initFrames
  rw [List.filter_append, List.filter_map, List.filter_map]
  simp [Function.comp_def]

variable {dramsize disksize : Nat}

/-- The descriptors that there are are always conserved. -/
theorem conserved_of_settled {s : Shared}
    (h : Settled (initTotal dramsize disksize) (initFrames dramsize disksize) s.skeleton) :
    Conserved (pagesIn dramsize) (pagesIn disksize) s := by
  have htag (d : PageId) (l : FifoList) : d ∈ s.fifos.seq l ↔ s.skeleton.list d = some l :=
    s.fifos.mem_iff l d
  have hpage : s.skeleton.page = s.page := rfl
  have hcopy (l : FifoList) (d : PageId) (hl : s.skeleton.list d = some l)
      (hres : l.resident = true) (hr : (s.page d).hasReserve = true) :
      ∃ r ∈ s.fifos.seq .diskReserveList, (s.page d).reserve = some r ∧
      (s.page r).reserve = some d := by
    have hfit := (fits_resident hres _).mp (h.whole.fits hl)
    have hsome : (s.page d).reserve.isSome = true := hfit.2.2.2.2.2.2.symm.trans hr
    obtain ⟨r, hr⟩ := Option.isSome_iff_exists.mp hsome
    obtain ⟨-, hback, hiff⟩ := h.whole.reserved d r (h.whole.lt_of_list hl) hr
    refine ⟨r, (htag r _).mpr ?_, hr, hback⟩
    by_contra hc
    rw [hiff.mpr hc, Option.some.injEq] at hl
    rw [← hl] at hres
    cases hres
  refine ⟨fun d hd => ?_, fun d hd => ?_, fun d hd => ?_, ?_, ?_, fun d hd a => ?_,
    fun d hd l hl => ?_, fun l hl d hd => ?_,
    fun l hl d hd hr => hcopy l d ((htag d l).mp hd) hl hr, fun r hr => ?_, fun l hl d hd hr => ?_⟩
  · obtain ⟨l, hl⟩ := h.list_some hd
    exact ⟨l, (htag d l).mpr hl, fun m hm => Option.some.inj (((htag d m).mp hm).symm.trans hl)⟩
  · obtain ⟨l, hl, hd⟩ := mem_dramSide.mp hd
    exact (h.side hd).1.trans hl
  · obtain ⟨l, hl, hd⟩ := mem_diskSide.mp hd
    exact (h.side hd).1.trans hl
  · rw [← initFrames_dram dramsize disksize]
    exact h.offsets true _ (nodup_dramSide _) fun d => mem_dramSide
  · rw [← initFrames_disk dramsize disksize]
    exact h.offsets false _ (nodup_diskSide _) fun d => mem_diskSide
  · obtain ⟨l, hl⟩ := h.list_some hd
    have ht := h.tracked_iff hl
    rw [hpage] at ht
    constructor
    · intro ha
      by_cases ha0 : a = 0
      · rw [ha0, show s.pages 0 = some _ from h.whole.zero, Option.some.injEq] at ha
        exact absurd (ha ▸ hd) (Nat.lt_irrefl _)
      · have hva : (s.page d).va = a := ((h.whole.hash a d ha0).mp ha).2
        refine ⟨hva, l, ?_, (htag d l).mpr hl⟩
        by_contra hc
        rw [if_neg hc] at ht
        exact ha0 (by rw [← hva, ht])
    · rintro ⟨hva, m, hm, hdm⟩
      rw [Option.some.inj (hl.symm.trans ((htag d m).mp hdm)), if_pos hm, hva] at ht
      exact (h.whole.hash a d ht.1).mpr ⟨hd, hva⟩
  · have ht := h.tracked_iff ((htag d l).mp hl)
    rw [hpage] at ht
    split at ht
    · next hlt =>
      rw [if_pos hlt]
      exact ⟨ht.1, ht.2.1⟩
    · next hlt =>
      rw [if_neg hlt]
      exact ht
  · have ht := h.tracked_iff ((htag d l).mp hd)
    rw [if_pos hl] at ht
    exact ht.2.2
  · have hl := (htag r _).mp hr
    have hf : (s.page r).Copy := h.whole.fits hl
    obtain ⟨d, hd⟩ := Option.ne_none_iff_exists'.mp hf.2.2.2.2
    obtain ⟨hdn, hback, hiff⟩ := h.whole.reserved r d (h.whole.lt_of_list hl) hd
    have hdl := hiff.mp hl
    obtain ⟨m, hm⟩ := h.list_some hdn
    have hfm := h.whole.fits hm
    have hback : (s.page d).reserve = some r := hback
    have hres : m.resident = true := by
      cases m with
      | activeList => rfl
      | inactiveList => rfl
      | evictionList => rfl
      | dramFreeList =>
        rw [show (s.page d).reserve = none from hfm.2.2.2.2] at hback
        cases hback
      | diskFreeList =>
        rw [show (s.page d).reserve = none from hfm.2.2.2.2] at hback
        cases hback
      | diskActiveList =>
        rw [show (s.page d).reserve = none from hfm.1.2.2.2.2.2.2] at hback
        cases hback
      | diskReserveList => exact absurd hm hdl
    have hfit := (fits_resident hres _).mp hfm
    refine ⟨d, m, hres, (htag d m).mpr hm, ?_, hd, hback⟩
    rw [← hpage, hfit.2.2.2.2.2.2, hpage, hback]
    rfl
  · have hf := h.whole.fits ((htag d l).mp hd)
    cases l with
    | diskReserveList => exact absurd rfl hl
    | dramFreeList => exact hf.2.2.2.2
    | diskFreeList => exact hf.2.2.2.2
    | diskActiveList => exact hf.1.2.2.2.2.2.2
    | _ =>
      have hf : (s.page d).hasReserve = (s.page d).reserve.isSome := hf.2.2.2.2.2.2
      rw [hr] at hf
      simpa using hf.symm

/-- For these sizes of the two spaces the initialisation comes to its end, and in a run of one
operation at a time all descriptors and frames are conserved between two operations. -/
structure Conserves (dramsize disksize : Nat) : Prop where
  starts : ∀ faulty spurious disk,
    Total extmemInit ⟨.boot dramsize disksize faulty spurious disk, .fresh 0⟩ fun _ _ => True
  conserved : ∀ c, Paused dramsize disksize c → Conserved (pagesIn dramsize) (pagesIn disksize) c.sh

/-- That is so if and only if no size has more pages than the int counters of the initialisation
can count, the end of the loops included. -/
theorem conserved_iff (h₁ : dramsize < 2 ^ 64) (h₂ : disksize < 2 ^ 64) :
    Conserves dramsize disksize ↔ pagesIn dramsize < 2 ^ 31 ∧ pagesIn disksize < 2 ^ 31 := by
  constructor
  · intro h
    obtain ⟨_, e, hr, -⟩ := (h.starts false false blankDisk).runs
    have hl : Launched dramsize disksize e := ⟨h₁, h₂, false, false, blankDisk, hr⟩
    exact hl.fits
  · rintro ⟨hdram, hdisk⟩
    exact ⟨fun faulty spurious disk => (total_extmemInit rfl rfl hdram hdisk).mono fun _ _ _ =>
      trivial, fun c hc => conserved_of_settled hc.settled⟩

theorem launched_smallMachine : Launched (2 * pageSize) (2 * pageSize) (smallMachine false) :=
  launched_booted (by decide) (by decide) (by decide +kernel)

theorem paused_smallMachine :
    Paused (2 * pageSize) (2 * pageSize) (System.start (smallMachine false)) :=
  ⟨⟨_, launched_smallMachine, .init⟩, fun _ => rfl⟩

/-- A machine with two pages of DRAM and eight of disk. -/
def roomyMachine : Env := booted (2 * pageSize) (8 * pageSize) false

theorem launched_roomyMachine : Launched (2 * pageSize) (8 * pageSize) roomyMachine :=
  launched_booted (by decide) (by decide) (by decide +kernel)

theorem paused_evicted : Paused (2 * pageSize) (2 * pageSize) (System.start evictedMachine) :=
  launched_smallMachine.paused operation_evictingStory (by decide +kernel)

/-- A page that came back has a reserve there and another one is swapped out, and all is
conserved. -/
theorem conserved_iff_evicted :
    (∃ d, (evictedMachine.sh.page d).va = smallBase ∧ (evictedMachine.sh.page d).hasReserve =
        true) ∧ evictedMachine.sh.fifos.seq .diskActiveList ≠ [] ∧ Conserved
        (pagesIn (2 * pageSize)) (pagesIn (2 * pageSize)) (System.start evictedMachine).sh := by
  have hconserves : Conserves (2 * pageSize) (2 * pageSize) :=
    (conserved_iff (by decide) (by decide)).mpr ⟨by decide, by decide⟩
  exact ⟨⟨0, by decide +kernel⟩, by decide +kernel, hconserves.conserved _ paused_evicted⟩

/-- With as many pages as there are values of the counter, the last increment has no value. -/
theorem not_conserved : ¬ Conserves (2 ^ 43) (2 * pageSize) := by
  have hps : pageSize = 4096 := rfl
  intro h
  have hlt : 2 ^ 43 / pageSize < 2 ^ 31 := ((conserved_iff (by omega) (by decide)).mp h).1
  rw [hps] at hlt
  omega

end ExtMem
