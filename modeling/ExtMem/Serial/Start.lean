import ExtMem.Operations
import ExtMem.Serial.Calls
import ExtMem.Serial.Returns

/-! The state that the initialisation makes, and the states between the operations of a
run in which one operation ends before the next one starts. -/
namespace ExtMem
open Threads Threads.Prog

variable {k : Skeleton} {e : Env} {l : FifoList} {dram : Bool}

/-- A descriptor of a new page of one of the two spaces. -/
def UserPage.fresh (dram : Bool) (i : Nat) : UserPage :=
  { UserPage.zero with
    virtualOffset := ⟨dram, i * pageSize⟩, inDram := dram, swappedOut := !dram, pt := .basep }

/-- So many new descriptors on a list. -/
def Skeleton.fill (k : Skeleton) (l : FifoList) (dram : Bool) (m : Nat) : Nat → Skeleton
  | 0 => k
  | j + 1 => ((k.fill l dram m j).write (m + j) fun _ => .fresh dram j).link l (m + j)

theorem Skeleton.page_fill (k : Skeleton) (l : FifoList) (dram : Bool) (m j x : Nat) :
    (k.fill l dram m j).page x = if m ≤ x ∧ x < m + j then .fresh dram (x - m) else k.page x := by
  induction j with
  | zero => rw [if_neg (by omega)]; rfl
  | succ j ih =>
    by_cases hx : x = m + j
    · subst hx
      rw [if_pos (by omega)]
      simp [fill]
    · have hpage : (k.fill l dram m (j + 1)).page x = (k.fill l dram m j).page x := by
        simp [fill, page_write_of_ne _ _ hx]
      rw [hpage, ih]
      exact if_congr (by omega) rfl rfl

theorem Skeleton.list_fill {m : Nat} (hk : ∀ x, m ≤ x → k.list x = none) (j x : Nat) :
    (k.fill l dram m j).list x = if m ≤ x ∧ x < m + j then some l else k.list x := by
  induction j generalizing x with
  | zero => rw [if_neg (by omega)]; rfl
  | succ j ih =>
    have hnone :
        ((k.fill l dram m j).write (m + j) fun _ => .fresh dram j).list (m + j) = none := by
      rw [list_write, ih, if_neg (by omega)]
      exact hk _ (by omega)
    rw [fill, list_link hnone, list_write, ih]
    by_cases hx : x = m + j
    · rw [if_pos hx, if_pos (by omega)]
    · rw [if_neg hx]
      exact if_congr (by omega) rfl rfl

/-- The descriptors after the new ones are still on no list. -/
theorem Skeleton.unlisted_fill {m : Nat} (hk : ∀ x, m ≤ x → k.list x = none) (j : Nat) :
    ∀ x, m + j ≤ x → (k.fill l dram m j).list x = none := by
  intro x hx
  rw [list_fill hk, if_neg (by omega)]
  exact hk x (by omega)

theorem Skeleton.fill_frame (k : Skeleton) (l : FifoList) (dram : Bool) (m j : Nat) :
    (k.fill l dram m j).pages = k.pages ∧ (k.fill l dram m j).vma = k.vma ∧
    (k.fill l dram m j).lock = k.lock ∧ (k.fill l dram m j).shrinking = k.shrinking ∧
    (k.fill l dram m j).sizes = k.sizes := by
  induction j with
  | zero => exact ⟨rfl, rfl, rfl, rfl, rfl⟩
  | succ j ih => exact ih

/-- The whole pages of a size: as many descriptors one of the two loops makes. -/
def pagesIn (size : Nat) : Nat := size / pageSize

theorem asUint64_natCast {j : Nat} (hj : j < 2 ^ 31) : asUint64 j = j := by
  unfold asUint64
  omega

/-- A new descriptor for one page of a space, put on the list of its free pages. -/
def initPage (queue : FifoList) (inDram : Bool) (i : Int) : Paging Unit := do
  let p ← Prog.read (·.sh.nextPage)
  setShared fun s => { s with nextPage := s.nextPage + 1 }
  setPage p fun _ => { UserPage.zero with
    virtualOffset := ⟨inDram, mul64 (asUint64 i) pageSize⟩, inDram := inDram,
    swappedOut := !inDram, pt := .basep }
  enqueueFifo queue p

/-- One pass of the two loops of `lrudisk_init`. -/
def initBody (queue : FifoList) (inDram : Bool) (size : Nat) (i : Int) : Paging (Int ⊕ Unit) :=
  if asUint64 i < pagesIn size then do
    initPage queue inDram i
    let next ← addInt i 1
    pure (.inl next)
  else pure (.inr ())

theorem initList_eq (l : FifoList) (dram : Bool) (size : Nat) :
    initList l dram size = Prog.loop (initBody l dram size) 0 := by
  unfold initList initBody initPage pagesIn
  simp only [bind_assoc]

/-- So many passes of a loop have filled a list from the descriptor `m` on. -/
structure Stocked (k : Skeleton) (l : FifoList) (dram : Bool) (m j : Nat) (e : Env) : Prop where
  next : e.sh.nextPage = m + j
  skeleton : e.sh.skeleton = k.fill l dram m j

variable {m j size : Nat}

theorem Stocked.sizes (h : Stocked k l dram m j e) : (e.sh.dramsize, e.sh.disksize) = k.sizes :=
  (congrArg Skeleton.sizes h.skeleton).trans (Skeleton.fill_frame _ _ _ _ _).2.2.2.2

theorem Stocked.start (hm : e.sh.nextPage = m) (hk : e.sh.skeleton = k) : Stocked k l dram m 0 e :=
  ⟨hm, hk⟩

theorem total_initPage (hk : ∀ x, m ≤ x → k.list x = none)
    (hj : j < 2 ^ 31) (h : Stocked k l dram m j e) :
    Total (initPage l dram j) e fun _ e' => Stocked k l dram m (j + 1) e' := by
  have hmul : mul64 j pageSize = j * pageSize := Nat.mod_eq_of_lt (by unfold pageSize; omega)
  unfold initPage
  rw [asUint64_natCast hj, hmul]
  let e₁ : Env :=
    ({ e with sh := { e.sh with nextPage := e.sh.nextPage + 1 } }).setPage e.sh.nextPage fun _ =>
      .fresh dram j
  have hlist : e₁.sh.list e.sh.nextPage = none := by
    rw [show e₁.sh.list e.sh.nextPage = e.sh.skeleton.list e.sh.nextPage from rfl, h.skeleton,
      h.next, Skeleton.list_fill hk, if_neg (by omega)]
    exact hk _ (by omega)
  have hput : (if (e₁.sh.list e.sh.nextPage).isNone then .ok () (id (e₁.enqueue l e.sh.nextPage))
      else .abort .enqueueLinked : Outcome Abort Env Unit) = .ok () (e₁.enqueue l e.sh.nextPage) :=
    if_pos (by rw [Option.isNone_iff_eq_none]; exact hlist)
  refine .act rfl (.act rfl (.act rfl (.act hput (.ret ⟨congrArg (· + 1) h.next, ?_⟩))))
  rw [Skeleton.fill, ← h.skeleton, ← h.next]
  rfl

/-- A pass before the last one makes a descriptor and goes on. -/
theorem total_initBody (hk : ∀ x, m ≤ x → k.list x = none) (hj : j < pagesIn size)
    (hroom : j + 1 < 2 ^ 31) (h : Stocked k l dram m j e) :
    Total (initBody l dram size j) e fun r e' =>
        r = .inl ((j + 1 : Nat) : Int) ∧ Stocked k l dram m (j + 1) e' := by
  unfold initBody
  rw [asUint64_natCast (by omega), if_pos hj]
  refine (total_initPage hk (by omega) h).bind fun _ e' h' => ?_
  exact total_addInt (by omega) (by omega) (.ret ⟨rfl, h'⟩)

/-- The pass after the last page leaves the loop. -/
theorem total_initBody_end (hfits : pagesIn size < 2 ^ 31) :
    Total (initBody l dram size (pagesIn size)) e fun r e' => r = .inr () ∧ e' = e := by
  unfold initBody
  rw [asUint64_natCast hfits, if_neg (Nat.lt_irrefl _)]
  exact .ret ⟨rfl, rfl⟩

theorem total_initList (hfits : pagesIn size < 2 ^ 31)
    (hk : ∀ x, m ≤ x → k.list x = none) (h : Stocked k l dram m 0 e) :
    Total (initList l dram size) e fun _ e' => Stocked k l dram m (pagesIn size) e' := by
  rw [initList_eq]
  refine total_loop
    (fun (i : Int) e => ∃ j : Nat, j ≤ pagesIn size ∧ i = j ∧ Stocked k l dram m j e)
    (fun i : Int => pagesIn size - i.toNat) (fun i e hi => ?_) ⟨0, Nat.zero_le _, rfl, h⟩
  obtain ⟨j, hj, rfl, h⟩ := hi
  rcases Nat.lt_or_eq_of_le hj with hj | rfl
  · refine (total_initBody hk hj (by omega) h).mono fun r e' ⟨hr, h'⟩ =>
      .inl ⟨_, hr, ⟨j + 1, hj, rfl, h'⟩, ?_⟩
    exact Nat.sub_succ_lt_self _ _ hj
  · exact (total_initBody_end hfits).mono fun r e' ⟨hr, he⟩ => .inr ⟨(), hr, he ▸ h⟩

/-- The two loops return and leave the descriptors of DRAM before those of the disk. -/
theorem total_lrudiskInit (h₁ : pagesIn e.sh.dramsize < 2 ^ 31)
    (h₂ : pagesIn e.sh.disksize < 2 ^ 31) (h : Stocked k .dramFreeList true m 0 e)
    (hk : ∀ x, m ≤ x → k.list x = none) :
    Total lrudiskInit e fun _ e' => Stocked (k.fill .dramFreeList true m (pagesIn e.sh.dramsize))
      .diskFreeList false (m + pagesIn e.sh.dramsize) (pagesIn e.sh.disksize) e' := by
  refine .act rfl (Total.bind (p := initList .dramFreeList true e.sh.dramsize)
    (total_initList h₁ hk h) fun _ e₁ hd => ?_)
  have hsizes : e₁.sh.disksize = e.sh.disksize := congrArg Prod.snd (hd.sizes.trans h.sizes.symm)
  refine .act rfl (?_ : Total (initList .diskFreeList false e₁.sh.disksize) e₁ _)
  rw [hsizes]
  exact total_initList h₂ (Skeleton.unlisted_fill hk _) (.start hd.next hd.skeleton)

private theorem after_initPage {i : Int} :
    After (initPage l dram i) e fun _ e' => e'.sh.disksize = e.sh.disksize := by
  refine (after_bind _ _ _ _).mpr
    ((after_read _ _ _).mpr ((after_bind _ _ _ _).mpr ((after_modify _ _ _).mpr ?_)))
  refine (after_bind _ _ _ _).mpr
    ((after_modify _ _ _).mpr ((after_atomic _ _ _).mpr fun b e' hb => ?_))
  split at hb
  · cases hb
    rfl
  · cases hb

/-- A loop that comes to its end has not run over an int. -/
theorem after_initList : After (initList l dram size) e fun _ (e' : Env) =>
    pagesIn size < 2 ^ 31 ∧ e'.sh.disksize = e.sh.disksize := by
  rw [initList_eq]
  refine after_loop (fun (i : Int) (e' : Env) =>
    (∃ j : Nat, i = j ∧ j < 2 ^ 31) ∧ e'.sh.disksize = e.sh.disksize) ?_ ⟨⟨0, rfl, by decide⟩, rfl⟩
  rintro i e₁ ⟨⟨j, rfl, hj⟩, hsize⟩
  unfold initBody
  rw [asUint64_natCast hj]
  split
  · refine (after_bind _ _ _ _).mpr
      (After.mono (Q := fun _ e₂ => e₂.sh.disksize = e₁.sh.disksize) ?_ fun _ e₂ he => ?_)
    · exact after_initPage
    · exact after_addInt fun hlt => (after_pure _ _ _).mpr ⟨⟨j + 1, rfl, by omega⟩, he.trans hsize⟩
  · next hge => exact (after_pure _ _ _).mpr ⟨by omega, hsize⟩

/-- The frames that the two loops hand out. -/
def initFrames (dramsize disksize : Nat) : List Frame :=
  ((List.range (pagesIn dramsize)).map fun i => ⟨true, i * pageSize⟩) ++
    (List.range (pagesIn disksize)).map fun i => ⟨false, i * pageSize⟩

theorem countP_initFrames (dramsize disksize : Nat) :
    (initFrames dramsize disksize).countP (·.dram) = pagesIn dramsize := by
  simp [initFrames, List.countP_append, List.countP_map, Function.comp_def]

/-- The number of descriptors that stand for a frame. -/
def initTotal (dramsize disksize : Nat) : Nat := pagesIn dramsize + pagesIn disksize

/-- What the initialisation makes of a process that has mapped nothing. -/
def initSkeleton (dramsize disksize : Nat) : Skeleton :=
  let k₀ : Skeleton :=
    ⟨fun _ => .zero, .empty, fun _ => none, fun _ => .none, false, false, (dramsize, disksize)⟩
  let k :=
    (k₀.fill .dramFreeList true 0 (pagesIn dramsize)).fill .diskFreeList false (pagesIn dramsize)
    (pagesIn disksize)
  { k.write (initTotal dramsize disksize) fun _ => .zero with
    pages := Function.update (fun _ => none) 0 (some (initTotal dramsize disksize)) }

variable {dramsize disksize : Nat}

theorem list_initSkeleton (x : Nat) : (initSkeleton dramsize disksize).list x =
    if x < pagesIn dramsize then some .dramFreeList
    else if x < initTotal dramsize disksize then some .diskFreeList else none := by
  have hnone (y : Nat) : Skeleton.list ⟨fun _ => .zero, .empty, fun _ => none, fun _ => .none,
      false, false, (dramsize, disksize)⟩ y = none := rfl
  unfold initSkeleton initTotal
  show (Skeleton.fill _ _ _ _ _).list x = _
  rw [Skeleton.list_fill, Skeleton.list_fill (fun y _ => hnone y), hnone]
  · by_cases h₁ : x < pagesIn dramsize
    · rw [if_neg (by omega), if_pos (by omega), if_pos h₁]
    · rw [if_neg h₁]
      by_cases h₂ : x < pagesIn dramsize + pagesIn disksize
      · rw [if_pos (by omega), if_pos h₂]
      · rw [if_neg (by omega), if_neg (by omega), if_neg h₂]
  · intro y hy
    rw [Skeleton.list_fill (fun y _ => hnone y), if_neg (by omega), hnone]

theorem page_initSkeleton (x : Nat) :
    (initSkeleton dramsize disksize).page x = if x < pagesIn dramsize then .fresh true x else if x <
      initTotal dramsize disksize then .fresh false (x - pagesIn dramsize) else .zero := by
  unfold initSkeleton
  dsimp only
  by_cases hx : x = initTotal dramsize disksize
  · subst hx
    rw [Skeleton.page_write_self, if_neg (by unfold initTotal; omega), if_neg (by omega)]
  · rw [Skeleton.page_write_of_ne _ _ hx, Skeleton.page_fill, Skeleton.page_fill]
    unfold initTotal at hx ⊢
    by_cases h₁ : x < pagesIn dramsize
    · rw [if_neg (by omega), if_pos (by omega), if_pos h₁, Nat.sub_zero]
    · rw [if_neg h₁]
      by_cases h₂ : x < pagesIn dramsize + pagesIn disksize
      · rw [if_pos (by omega), if_pos h₂]
      · rw [if_neg (by omega), if_neg (by omega), if_neg h₂]

private theorem room_initFrames (h₁ : dramsize < 2 ^ 64) (h₂ : disksize < 2 ^ 64) :
    (∀ f ∈ initFrames dramsize disksize, f.offset + pageSize ≤ if f.dram then
        (initSkeleton dramsize disksize).sizes.1 else (initSkeleton dramsize disksize).sizes.2) ∧
    (initSkeleton dramsize disksize).sizes.1 < 2 ^ 64 ∧
    (initSkeleton dramsize disksize).sizes.2 < 2 ^ 64 := by
  have hsizes : (initSkeleton dramsize disksize).sizes = (dramsize, disksize) :=
    (Skeleton.fill_frame _ _ _ _ _).2.2.2.2.trans (Skeleton.fill_frame _ _ _ _ _).2.2.2.2
  have hlast {size i : Nat} (hi : i < pagesIn size) : i * pageSize + pageSize ≤ size := by
    unfold pagesIn at hi
    simp only [pageSize] at hi ⊢
    omega
  rw [hsizes]
  refine ⟨fun f hf => ?_, h₁, h₂⟩
  rcases List.mem_append.mp hf with hf | hf
  · obtain ⟨i, hi, rfl⟩ := List.mem_map.mp hf
    exact hlast (List.mem_range.mp hi)
  · obtain ⟨i, hi, rfl⟩ := List.mem_map.mp hf
    exact hlast (List.mem_range.mp hi)

theorem settled_initSkeleton (h₁ : dramsize < 2 ^ 64) (h₂ : disksize < 2 ^ 64) :
    Settled (initTotal dramsize disksize) (initFrames dramsize disksize)
      (initSkeleton dramsize disksize) := by
  have hva (x : PageId) : ((initSkeleton dramsize disksize).page x).va = 0 := by
    rw [page_initSkeleton]
    split
    · rfl
    · split <;> rfl
  refine ⟨⟨fun (x : Nat) hx => ?_, fun (x : Nat) hx => ⟨?_, rfl⟩, hva _, fun x => ?_,
    fun x hx => ?_, room_initFrames h₁ h₂, ?_, fun x r hx hr => ?_, fun a x ha => ?_, ?_⟩, ?_, ?_,
    fun b d hb hd => ?_⟩
  · unfold Skeleton.Place
    rw [list_initSkeleton, page_initSkeleton]
    by_cases h₁ : x < pagesIn dramsize
    · rw [if_pos h₁, if_pos h₁]
      exact ⟨rfl, rfl, rfl, rfl, rfl⟩
    · rw [if_neg h₁, if_pos hx, if_neg h₁, if_pos hx]
      exact ⟨rfl, rfl, rfl, rfl, rfl⟩
  · rw [list_initSkeleton, if_neg (by unfold initTotal at hx; omega), if_neg (by omega)]
  · rw [page_initSkeleton]
    split
    · rfl
    · split <;> rfl
  · rw [page_initSkeleton]
    split
    · rfl
    · rfl
  · refine List.Perm.of_eq ?_
    unfold initFrames initTotal
    rw [List.range_add, List.map_append, List.map_map]
    congr 1
    · refine List.map_congr_left fun x hx => ?_
      rw [page_initSkeleton, if_pos (List.mem_range.mp hx)]
      rfl
    · refine List.map_congr_left fun x hx => ?_
      have hx := List.mem_range.mp hx
      show ((initSkeleton dramsize disksize).page (pagesIn dramsize + x)).virtualOffset = _
      rw [page_initSkeleton, if_neg (by omega), if_pos (by unfold initTotal; omega),
        Nat.add_sub_cancel_left]
      rfl
  · rw [page_initSkeleton] at hr
    split at hr
    · cases hr
    · cases hr
  · rw [hva]
    have hpages : (initSkeleton dramsize disksize).pages a = none := by
      show Function.update (fun _ => none) 0 (some (initTotal dramsize disksize)) a = none
      rw [Function.update_of_ne ha]
    rw [hpages]
    exact iff_of_false (by simp) fun hc => ha hc.2.symm
  · show Function.update (fun _ => none) 0 (some (initTotal dramsize disksize)) 0 = _
    rw [Function.update_self]
  · exact (Skeleton.fill_frame _ _ _ _ _).2.2.1.trans (Skeleton.fill_frame _ _ _ _ _).2.2.1
  · exact (Skeleton.fill_frame _ _ _ _ _).2.2.2.1.trans (Skeleton.fill_frame _ _ _ _ _).2.2.2.1
  · have hd : Function.update (fun _ => none) 0 (some (initTotal dramsize disksize)) b = some d :=
      hd
    rw [Function.update_of_ne hb] at hd
    cases hd

/-- What the first thread has made of a new process when it has initialised the pager. The
sizes are uint64_t. -/
structure Launched (dramsize disksize : Nat) (e : Env) : Prop where
  dram : dramsize < 2 ^ 64
  disk : disksize < 2 ^ 64
  init : ∃ faulty spurious disk,
    Runs extmemInit ⟨.boot dramsize disksize faulty spurious disk, .fresh 0⟩ () e

theorem total_extmemInit (hk : e.sh.skeleton =
      ⟨fun _ => .zero, .empty, fun _ => none, fun _ => .none, false, false, (dramsize, disksize)⟩)
    (hn : e.sh.nextPage = 0) (h₁ : pagesIn dramsize < 2 ^ 31) (h₂ : pagesIn disksize < 2 ^ 31) :
    Total extmemInit e fun _ e' => e'.sh.skeleton = initSkeleton dramsize disksize := by
  have hsizes : (e.sh.dramsize, e.sh.disksize) = (dramsize, disksize) := congrArg Skeleton.sizes hk
  cases hsizes
  have hnew : ∀ x, 0 ≤ x → e.sh.skeleton.list x = none := by
    intro x _
    rw [hk]
    rfl
  unfold extmemInit uswapInitIouring ioUringQueueInit
  refine .act rfl (.act rfl
    (Total.bind (p := lrudiskInit) (total_lrudiskInit h₁ h₂ (.start hn rfl) hnew) fun _ e' h => ?_))
  have hnext : e'.sh.nextPage = initTotal e.sh.dramsize e.sh.disksize := by
    rw [h.next, Nat.zero_add]
    rfl
  have hpages : e'.sh.pages = fun _ => none := by
    rw [show e'.sh.pages = e'.sh.skeleton.pages from rfl, h.skeleton,
      (Skeleton.fill_frame _ _ _ _ _).1, (Skeleton.fill_frame _ _ _ _ _).1, hk]
  let e₄ : Env :=
    ({ e' with sh := { e'.sh with isInit := true, nextPage := e'.sh.nextPage + 1 } }).setPage
      e'.sh.nextPage fun _ => UserPage.zero
  let e₅ : Env := { e₄ with sh := { e₄.sh with
    pages := Function.update e₄.sh.pages (e₄.sh.page e'.sh.nextPage).va (some e'.sh.nextPage) } }
  have hva : (e₄.sh.page e'.sh.nextPage).va = 0 := by
    show (Function.update e'.sh.page e'.sh.nextPage UserPage.zero e'.sh.nextPage).va = 0
    rw [Function.update_self]
    rfl
  have hadd : (if (e₄.sh.pages (e₄.sh.page e'.sh.nextPage).va).isNone then .ok () e₅
      else .abort .addPageUnique : Outcome Abort Env Unit) = .ok () e₅ := by
    refine if_pos ?_
    show (e'.sh.pages _).isNone = true
    rw [hpages]
    rfl
  refine .act rfl (.act rfl (.act rfl (.act rfl (.act hadd (.act rfl (.ret ?_))))))
  have hsk : e'.sh.skeleton = (e.sh.skeleton.fill .dramFreeList true 0 (pagesIn e.sh.dramsize)).fill
      .diskFreeList false (0 + pagesIn e.sh.dramsize) (pagesIn e.sh.disksize) := h.skeleton
  rw [hk, Nat.zero_add] at hsk
  refine Skeleton.ext ?_ ?_ ?_ ?_ ?_ ?_ ?_
  · show Function.update e'.sh.page e'.sh.nextPage UserPage.zero = _
    rw [hnext, show e'.sh.page = e'.sh.skeleton.page from rfl, hsk]
    rfl
  · exact (congrArg Skeleton.fifos hsk :)
  · show Function.update e'.sh.pages (e₄.sh.page e'.sh.nextPage).va (some e'.sh.nextPage) = _
    rw [hva, hpages, hnext]
    rfl
  · exact (congrArg Skeleton.vma hsk :)
  · exact (congrArg Skeleton.lock hsk :)
  · exact (congrArg Skeleton.shrinking hsk :)
  · exact (congrArg Skeleton.sizes hsk :)

/-- Where the initialisation comes to its end, the counters of its loops have not run over. -/
theorem after_extmemInit :
    After extmemInit e fun _ _ =>
        pagesIn e.sh.dramsize < 2 ^ 31 ∧ pagesIn e.sh.disksize < 2 ^ 31 := by
  unfold extmemInit uswapInitIouring ioUringQueueInit lrudiskInit
  refine (after_bind _ _ _ _).mpr
    ((after_modify _ _ _).mpr ((after_bind _ _ _ _).mpr ((after_modify _ _ _).mpr ?_)))
  refine (after_bind _ _ _ _).mpr ((after_bind _ _ _ _).mpr ((after_read _ _ _).mpr ?_))
  refine (after_bind _ _ _ _).mpr (after_initList.mono fun _ e₁ h₁ => ?_)
  refine (after_bind _ _ _ _).mpr ((after_read _ _ _).mpr (after_initList.mono fun _ e₂ h₂ => ?_))
  rw [h₁.2] at h₂
  exact fun _ _ _ => ⟨h₁.1, h₂.1⟩

/-- What every action of the initialisation leaves alone: the requests of its thread, what the
thread has in hand, the statistics and, but for descriptors put on lists, the trace. -/
structure Founded (e e' : Env) : Prop where
  tid : e'.loc.tid = e.loc.tid
  rings : (∀ r, (e.loc.ring r).sq = [] ∧ (e.loc.ring r).outstanding = []) →
    ∀ r, (e'.loc.ring r).sq = [] ∧ (e'.loc.ring r).outstanding = []
  exchange : e'.loc.exchange = e.loc.exchange
  examining : e'.loc.examining = e.loc.examining
  stats : e'.sh.stats = e.sh.stats
  log : e'.sh.log = e.sh.log ∨ ∃ q d, e'.sh.log = (e.loc.tid, .enqueued q d) :: e.sh.log

abbrev Founding : (β : Type) → (Env → Outcome Abort Env β) → Prop := Within Founded

private theorem Founded.of_eq {e e' : Env} (hl : e'.loc = e.loc) (hs : e'.sh.stats = e.sh.stats)
    (hg : e'.sh.log = e.sh.log) : Founded e e' := by
  refine ⟨by rw [hl], ?_, by rw [hl], by rw [hl], hs, .inl hg⟩
  rw [hl]
  exact id

@[simp] private theorem founding_of_looks {α : Type} {p : Paging α} (h : Always Looks p) :
    Always Founding p := h.within fun _ => .of_eq rfl rfl rfl

private theorem founding_setInternalCall (b : Bool) : Always Founding (setInternalCall b) :=
  within_modify fun _ => ⟨rfl, id, rfl, rfl, rfl, .inl rfl⟩

private theorem founding_initList (size : Nat) : Always Founding (initList l dram size) := by
  refine always_loop fun i => always_ite (always_bind (by simp) fun p => ?_) trivial
  refine always_bind (within_modify fun _ => .of_eq rfl rfl rfl) fun _ =>
    always_bind (within_modify fun _ => .of_eq rfl rfl rfl) fun _ => ?_
  exact always_bind (within_enqueueThen l p fun _ _ => ⟨rfl, id, rfl, rfl, rfl, .inr ⟨_, _, rfl⟩⟩)
    fun _ => always_bind (by simp) fun _ => trivial

theorem founding_extmemInit : Always Founding extmemInit := by
  refine always_bind (founding_setInternalCall _) fun _ =>
    always_bind (within_modify fun e => ?_) fun _ => ?_
  · refine ⟨rfl, fun h r => ?_, rfl, rfl, rfl, .inl rfl⟩
    by_cases hr : r = .ioRing
    · subst hr
      simp [Local.setRing]
    · simpa [Local.setRing, hr] using h r
  refine always_bind (always_bind (by simp) fun _ => always_bind (founding_initList _)
    fun _ => always_bind (by simp) fun _ => founding_initList _) fun _ => ?_
  refine always_bind (within_modify fun _ => .of_eq rfl rfl rfl) fun _ =>
    always_bind (by simp) fun p => ?_
  refine always_bind (within_modify fun _ => .of_eq rfl rfl rfl) fun _ =>
    always_bind (within_modify fun _ => .of_eq rfl rfl rfl) fun _ => ?_
  exact always_bind (within_addPage p fun _ _ => .of_eq rfl rfl rfl) fun _ =>
    founding_setInternalCall _

namespace Launched

theorem fits (h : Launched dramsize disksize e) :
    pagesIn dramsize < 2 ^ 31 ∧ pagesIn disksize < 2 ^ 31 := by
  obtain ⟨faulty, spurious, disk, hr⟩ := h.init
  exact after_extmemInit () e hr

theorem skeleton (h : Launched dramsize disksize e) :
    e.sh.skeleton = initSkeleton dramsize disksize := by
  obtain ⟨faulty, spurious, disk, hr⟩ := h.init
  exact (total_extmemInit rfl rfl h.fits.1 h.fits.2).after () e hr

/-- What the initialisation leaves alone is as at the start of the process. -/
theorem founded {I : Env → Prop} (h : Launched dramsize disksize e)
    (hI : ∀ e e', Founded e e' → I e → I e')
    (hboot : ∀ faulty spurious disk, I ⟨.boot dramsize disksize faulty spurious disk, .fresh 0⟩) :
    I e := by
  obtain ⟨faulty, spurious, disk, hr⟩ := h.init
  exact founding_extmemInit.runs
    (fun _ _ hf s b s' hs he => hI s s' (hf.ok he) hs) hr (hboot faulty spurious disk)

/-- No ring holds a request then, and nothing is traced but descriptors put on lists. -/
theorem initial (h : Launched dramsize disksize e) : Initial (System.start e) := by
  have hidle : e.loc.tid = 0 ∧ (∀ r, (e.loc.ring r).sq = [] ∧ (e.loc.ring r).outstanding = []) ∧
      ∀ x ∈ e.sh.log, x.2.plain = true := by
    refine h.founded (I := fun e => e.loc.tid = 0 ∧ (∀ r, (e.loc.ring r).sq = [] ∧
      (e.loc.ring r).outstanding = []) ∧ ∀ x ∈ e.sh.log, x.2.plain = true)
      (fun e e' hf ⟨ht, hr, hl⟩ => ⟨hf.tid.trans ht, hf.rings hr, fun x hx => ?_⟩) fun _ _ _ =>
      ⟨rfl, fun _ => ⟨rfl, rfl⟩, fun x hx => by cases hx⟩
    rcases hf.log with hlog | ⟨q, d, hlog⟩
    · exact hl x (hlog ▸ hx)
    · rw [hlog] at hx
      rcases List.mem_cons.mp hx with rfl | hx
      · rfl
      · exact hl x hx
  exact initial_start hidle.1 hidle.2.1 hidle.2.2

/-- No thread has anything in hand. -/
theorem hands (h : Launched dramsize disksize e) (t : Tid) :
    ((System.start e).loc t).exchange = [] ∧ ((System.start e).loc t).examining = [] := by
  show (Function.update Local.fresh 0 e.loc t).exchange = [] ∧
    (Function.update Local.fresh 0 e.loc t).examining = []
  by_cases ht : t = 0
  · subst ht
    rw [Function.update_self]
    exact h.founded (I := fun e => e.loc.exchange = [] ∧ e.loc.examining = [])
      (fun e e' hf hs => ⟨hf.exchange.trans hs.1, hf.examining.trans hs.2⟩) fun _ _ _ => ⟨rfl, rfl⟩
  · rw [Function.update_of_ne ht]
    exact ⟨rfl, rfl⟩

end Launched

/-- A run in which one operation ends before the next one starts leads from the start of the
process to this configuration, and no operation is under way. -/
structure Paused (dramsize disksize : Nat) (c : System) : Prop where
  reach : ∃ e, Launched dramsize disksize e ∧ Conf.Reach Operation Conf.serial (System.start e) c
  quiet : c.Quiet

theorem Paused.settled {c : System} (h : Paused dramsize disksize c) :
    Settled (initTotal dramsize disksize) (initFrames dramsize disksize) c.sh.skeleton := by
  obtain ⟨e, he, hr⟩ := h.reach
  refine hr.kept
    (I := fun s => Settled (initTotal dramsize disksize) (initFrames dramsize disksize) s.skeleton)
    (fun p hp e hi => operation_settled hp hi) (fun _ => rfl) ?_ 0 h.quiet
  rw [show (System.start e).sh.skeleton = e.sh.skeleton from rfl, he.skeleton]
  exact settled_initSkeleton he.dram he.disk

/-- An int holds the number of the DRAM frames. -/
theorem Paused.counted {c : System} (h : Paused dramsize disksize c) :
    (initFrames dramsize disksize).countP (·.dram) < 2 ^ 31 := by
  obtain ⟨e, he, -⟩ := h.reach
  rw [countP_initFrames]
  exact he.fits.1

theorem launched_booted {faulty : Bool} (h₁ : dramsize < 2 ^ 64) (h₂ : disksize < 2 ^ 64)
    (hend : (exec 200 [] extmemInit
      (⟨.boot dramsize disksize faulty false blankDisk, .fresh 0⟩ : Env)).isSome = true) :
    Launched dramsize disksize (booted dramsize disksize faulty) :=
  ⟨h₁, h₂, faulty, false, blankDisk, runs_after hend⟩

/-- What the first thread does alone leads to a rest. -/
theorem Launched.paused {e : Env} (h : Launched dramsize disksize e)
    {l : List (Nat × List Nat × Paging Unit)} (hops : ∀ x ∈ l, Operation x.2.2)
    (hends : e.ends l = true) : Paused dramsize disksize (System.start (e.story l)) :=
  ⟨⟨e, h, reach_story l .init hops hends⟩, fun _ => rfl⟩

/-- A process of any size that the counters can count can be started. -/
theorem launched_exists (h₁ : pagesIn dramsize < 2 ^ 31) (h₂ : pagesIn disksize < 2 ^ 31) :
    ∃ e, Launched dramsize disksize e := by
  obtain ⟨_, e, hr, -⟩ := (total_extmemInit
    (e := ⟨.boot dramsize disksize false false blankDisk, .fresh 0⟩) rfl rfl h₁ h₂).runs
  have hlt {size : Nat} (h : pagesIn size < 2 ^ 31) : size < 2 ^ 64 := by
    unfold pagesIn pageSize at h
    omega
  exact ⟨e, hlt h₁, hlt h₂, false, false, blankDisk, hr⟩

end ExtMem
