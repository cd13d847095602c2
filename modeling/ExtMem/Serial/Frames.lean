import ExtMem.Serial.Start

/-! The frames that the two loops of the initialisation hand out, and the sizes for which their
int counters can count them. -/
namespace ExtMem
open Threads Threads.Prog

variable {k : Skeleton} {e : Env} {l : FifoList} {dram : Bool} {m j size : Nat}

/-- A free list holds one descriptor for each page of its space, with the bounds that the
migrations assert of its offset. -/
structure FramesFree (l : FifoList) (dram : Bool) (size : Nat) (s : Shared) : Prop where
  count : (s.fifos.seq l).length = size / pageSize
  distinct : ((s.fifos.seq l).map fun d => (s.page d).virtualOffset.offset).Nodup
  offsets : ∀ o, o ∈ ((s.fifos.seq l).map fun d => (s.page d).virtualOffset.offset) ↔
    pageSize ∣ o ∧ o + pageSize ≤ size
  side : ∀ d ∈ s.fifos.seq l, (s.page d).virtualOffset.dram = dram ∧ (s.page d).inDram = dram ∧
    (s.page d).swappedOut = !dram
  fits : ∀ d ∈ s.fifos.seq l,
    offsetFits (s.page d).virtualOffset.offset (ptToPagesize (s.page d).pt) size = true

/-- A loop of the initialisation adds one to its counter when that is INT_MAX. -/
def CounterOverflows (l : FifoList) (dram : Bool) (size : Nat) (e : Env) : Prop :=
  ∃ i e₁ e₂, Passes (initBody l dram size) 0 e i e₁ ∧
    Aborts (initBody l dram size i) e₁ .intOverflow e₂

/-- The initialisation is exact: both loops come to an end, neither counter overflows and the two
free lists hold the pages of the two spaces. -/
structure InitExact (e : Env) : Prop where
  returns : Total lrudiskInit e fun _ e' =>
    FramesFree .dramFreeList true e.sh.dramsize e'.sh ∧
      FramesFree .diskFreeList false e.sh.disksize e'.sh
  dramCounter : ¬ CounterOverflows .dramFreeList true e.sh.dramsize e
  diskCounter : ∀ e', Runs (initList .dramFreeList true e.sh.dramsize) e () e' →
    ¬ CounterOverflows .diskFreeList false e'.sh.disksize e'

/-! The counter. -/

private theorem passes_initBody (hk : ∀ x, m ≤ x → k.list x = none) (h : Stocked k l dram m 0 e)
    (hj : j ≤ pagesIn size) (hroom : j < 2 ^ 31) :
    ∃ e', Passes (initBody l dram size) 0 e j e' ∧ Stocked k l dram m j e' := by
  induction j with
  | zero => exact ⟨e, .start, h⟩
  | succ j ih =>
    obtain ⟨e₁, hp, h₁⟩ := ih (Nat.le_of_succ_le hj) (by omega)
    have hpass : Total (initBody l dram size j) e₁ _ := total_initBody hk hj hroom h₁
    obtain ⟨r, e₂, hr, rfl, h₂⟩ := hpass.runs
    exact ⟨e₂, .next hp hr, h₂⟩

/-- Between the passes of a loop the counter is the number of the descriptors made. -/
private theorem stocked_of_passes {i : Int} {e' : Env} (hfits : pagesIn size < 2 ^ 31)
    (hk : ∀ x, m ≤ x → k.list x = none) (h : Stocked k l dram m 0 e)
    (hp : Passes (initBody l dram size) 0 e i e') :
    ∃ j : Nat, j ≤ pagesIn size ∧ i = j ∧ Stocked k l dram m j e' := by
  refine hp.kept (I := fun (i : Int) e =>
    ∃ j : Nat, j ≤ pagesIn size ∧ i = j ∧ Stocked k l dram m j e) ?_ ⟨0, Nat.zero_le _, rfl, h⟩
  rintro i e₁ i' e₂ ⟨j, hj, rfl, h₁⟩ hr
  rcases Nat.lt_or_eq_of_le hj with hj | rfl
  · obtain ⟨hi', h₂⟩ := (total_initBody hk hj (by omega) h₁).after _ _ hr
    exact ⟨j + 1, hj, Sum.inl.inj hi', h₂⟩
  · obtain ⟨hend, -⟩ := (total_initBody_end hfits).after _ _ hr
    cases hend

/-- The increment of the last value of an int has none. -/
private theorem aborts_initBody (hk : ∀ x, m ≤ x → k.list x = none) (hj : j < pagesIn size)
    (hlast : j + 1 = 2 ^ 31) (h : Stocked k l dram m j e) :
    ∃ e', Aborts (initBody l dram size j) e .intOverflow e' := by
  unfold initBody
  rw [asUint64_natCast (by omega), if_pos hj]
  have hpage : Total (initPage l dram j) e _ := total_initPage hk (by omega) h
  obtain ⟨_, e₁, hr, -⟩ := hpage.runs
  refine ⟨e₁, hr.bind_aborts (Aborts.bind_left (aborts_addInt ?_))⟩
  omega

theorem counterOverflows_iff (hk : ∀ x, m ≤ x → k.list x = none) (h : Stocked k l dram m 0 e) :
    CounterOverflows l dram size e ↔ 2 ^ 31 ≤ size / pageSize := by
  show _ ↔ 2 ^ 31 ≤ pagesIn size
  constructor
  · rintro ⟨i, e₁, e₂, hp, ha⟩
    by_contra hlt
    have hfits : pagesIn size < 2 ^ 31 := Nat.lt_of_not_le hlt
    obtain ⟨j, hj, rfl, h₁⟩ := stocked_of_passes hfits hk h hp
    rcases Nat.lt_or_eq_of_le hj with hj | rfl
    · exact (total_initBody hk hj (by omega) h₁).not_aborts _ _ ha
    · exact (total_initBody_end hfits).not_aborts _ _ ha
  · intro hge
    obtain ⟨j, hj⟩ : ∃ j, j + 1 = 2 ^ 31 := ⟨2 ^ 31 - 1, by omega⟩
    have hlt : j < pagesIn size := by omega
    obtain ⟨e₁, hp, h₁⟩ := passes_initBody hk h (Nat.le_of_lt hlt) (by omega)
    obtain ⟨e₂, ha⟩ := aborts_initBody hk hlt hj h₁
    exact ⟨j, e₁, e₂, hp, ha⟩

/-! The lists. -/

theorem Skeleton.seq_fill (hk : ∀ x, m ≤ x → k.list x = none) (j : Nat) (q : FifoList) :
    (k.fill l dram m j).fifos.seq q =
      if q = l then k.fifos.seq l ++ (List.range j).map (m + ·) else k.fifos.seq q := by
  induction j generalizing q with
  | zero =>
    split
    · simp_all [fill]
    · rfl
  | succ j ih =>
    have hnone : ((k.fill l dram m j).write (m + j) fun _ => .fresh dram j).list (m + j) = none :=
      Skeleton.unlisted_fill hk j _ (Nat.le_refl _)
    rw [fill, show (Skeleton.link _ l (m + j)).fifos.seq q = _ from Queues.seq_enqueue hnone l q]
    rw [fifos_write, ih, ih, if_pos rfl, List.range_succ, List.map_append, List.map_singleton,
      List.append_assoc]
    by_cases hq : q = l
    · rw [if_pos hq, if_pos hq]
    · rw [if_neg hq, if_neg hq, if_neg hq]

/-- New descriptors of all pages of a space, in the order of the pages, are the free pages of it. -/
private theorem framesFree_of_fresh {s : Shared} {n : Nat} (hsize : size < 2 ^ 64)
    (hn : n = pagesIn size) (hseq : s.fifos.seq l = (List.range n).map (m + ·))
    (hpage : ∀ i, i < n → s.page (m + i) = .fresh dram i) : FramesFree l dram size s := by
  have hps : pageSize = 4096 := rfl
  unfold pagesIn at hn
  have hmem {d : PageId} (hd : d ∈ s.fifos.seq l) : ∃ i, i < n ∧ s.page d = .fresh dram i := by
    rw [hseq] at hd
    obtain ⟨i, hi, rfl⟩ := List.mem_map.mp hd
    exact ⟨i, List.mem_range.mp hi, hpage i (List.mem_range.mp hi)⟩
  have hoffsets : ((s.fifos.seq l).map fun d => (s.page d).virtualOffset.offset) =
      (List.range n).map (· * pageSize) := by
    rw [hseq, List.map_map]
    refine List.map_congr_left fun i hi => ?_
    show (s.page (m + i)).virtualOffset.offset = _
    rw [hpage i (List.mem_range.mp hi)]
    rfl
  constructor
  · rw [hseq, List.length_map, List.length_range, hn]
  · rw [hoffsets]
    exact List.nodup_range.map fun i i' h => Nat.eq_of_mul_eq_mul_right (by decide) h
  · intro o
    rw [hoffsets, List.mem_map]
    constructor
    · rintro ⟨i, hi, rfl⟩
      have hi := List.mem_range.mp hi
      refine ⟨Nat.dvd_mul_left _ _, ?_⟩
      simp only [hps] at hn ⊢
      omega
    · rintro ⟨⟨i, rfl⟩, ho⟩
      refine ⟨i, List.mem_range.mpr ?_, Nat.mul_comm _ _⟩
      simp only [hps] at hn ho
      omega
  · intro d hd
    obtain ⟨i, -, hi⟩ := hmem hd
    rw [hi]
    exact ⟨rfl, rfl, rfl⟩
  · intro d hd
    obtain ⟨i, hin, hi⟩ := hmem hd
    rw [hi]
    have hpos : 0 < ptToPagesize .basep := by decide
    refine offsetFits_of_le hpos ?_ hsize
    show i * pageSize + pageSize ≤ size
    simp only [hps] at hn ⊢
    omega

private theorem seq_of_unlisted (hk : ∀ x, k.list x = none) (q : FifoList) :
    k.fifos.seq q = [] := by
  refine List.eq_nil_iff_forall_not_mem.mpr fun x hx => ?_
  have hq : k.list x = some q := (k.fifos.mem_iff q x).mp hx
  rw [hk x] at hq
  cases hq

private theorem seq_dramFreeList {n : Nat} {e' : Env} (hk : ∀ x, k.list x = none)
    (h : Stocked (k.fill .dramFreeList true m j) .diskFreeList false (m + j) n e') :
    e'.sh.fifos.seq .dramFreeList = (List.range j).map (m + ·) := by
  have hfifos : e'.sh.fifos = _ := congrArg Skeleton.fifos h.skeleton
  rw [hfifos, Skeleton.seq_fill (Skeleton.unlisted_fill (fun x _ => hk x) _), if_neg (by decide),
    Skeleton.seq_fill (fun x _ => hk x), if_pos rfl, seq_of_unlisted hk, List.nil_append]

private theorem seq_diskFreeList {n : Nat} {e' : Env} (hk : ∀ x, k.list x = none)
    (h : Stocked (k.fill .dramFreeList true m j) .diskFreeList false (m + j) n e') :
    e'.sh.fifos.seq .diskFreeList = (List.range n).map (m + j + ·) := by
  have hfifos : e'.sh.fifos = _ := congrArg Skeleton.fifos h.skeleton
  rw [hfifos, Skeleton.seq_fill (Skeleton.unlisted_fill (fun x _ => hk x) _), if_pos rfl,
    Skeleton.seq_fill (fun x _ => hk x), if_neg (by decide), seq_of_unlisted hk, List.nil_append]

/-- Where the counters can count the pages, the two loops leave all of them free. -/
private theorem framesFree_fill {e' : Env} (h₁ : e.sh.dramsize < 2 ^ 64)
    (h₂ : e.sh.disksize < 2 ^ 64) (hk : ∀ x, k.list x = none)
    (h : Stocked (k.fill .dramFreeList true m (pagesIn e.sh.dramsize)) .diskFreeList false
      (m + pagesIn e.sh.dramsize) (pagesIn e.sh.disksize) e') :
    FramesFree .dramFreeList true e.sh.dramsize e'.sh ∧
    FramesFree .diskFreeList false e.sh.disksize e'.sh := by
  have hpage : e'.sh.page = _ := congrArg Skeleton.page h.skeleton
  constructor
  · refine framesFree_of_fresh h₁ rfl (seq_dramFreeList hk h) fun i hi => ?_
    rw [hpage, Skeleton.page_fill, if_neg (by omega), Skeleton.page_fill, if_pos (by omega),
      Nat.add_sub_cancel_left]
  · refine framesFree_of_fresh h₂ rfl (seq_diskFreeList hk h) fun i hi => ?_
    rw [hpage, Skeleton.page_fill, if_pos (by omega), Nat.add_sub_cancel_left]

/-- After the first loop the second one overflows its counter if the disk is too large for it. -/
private theorem total_dramLoop (h₁ : pagesIn e.sh.dramsize < 2 ^ 31)
    (hk : ∀ x, e.sh.skeleton.list x = none) :
    Total (initList .dramFreeList true e.sh.dramsize) e fun _ e' =>
      (CounterOverflows .diskFreeList false e'.sh.disksize e' ↔
      2 ^ 31 ≤ e.sh.disksize / pageSize) := by
  have hlist : ∀ x, e.sh.nextPage ≤ x → e.sh.skeleton.list x = none := fun x _ => hk x
  refine (total_initList h₁ hlist (.start rfl rfl)).mono fun _ e' h => ?_
  have hsizes : e'.sh.disksize = e.sh.disksize := congrArg Prod.snd h.sizes
  rw [hsizes]
  exact counterOverflows_iff (Skeleton.unlisted_fill hlist _) (.start h.next h.skeleton)

private theorem unlisted (hf : e.sh.fifos = .empty) (x : PageId) : e.sh.skeleton.list x = none :=
  congrArg (fun q => q.tag x) hf

/-- From empty lists the initialisation is exact if and only if neither space has more pages than
an int can count, the end of the loop included. -/
theorem init_exact_iff (hdram : e.sh.dramsize < 2 ^ 64)
    (hdisk : e.sh.disksize < 2 ^ 64) (hf : e.sh.fifos = .empty) :
    InitExact e ↔ e.sh.dramsize / pageSize < 2 ^ 31 ∧ e.sh.disksize / pageSize < 2 ^ 31 := by
  have hk := unlisted hf
  have hcounter : CounterOverflows .dramFreeList true e.sh.dramsize e ↔
      2 ^ 31 ≤ e.sh.dramsize / pageSize := counterOverflows_iff (fun x _ => hk x) (.start rfl rfl)
  constructor
  · intro h
    have h₁ : pagesIn e.sh.dramsize < 2 ^ 31 :=
      Nat.lt_of_not_le fun hc => h.dramCounter (hcounter.mpr hc)
    obtain ⟨_, e', hr, hiff⟩ := (total_dramLoop h₁ hk).runs
    exact ⟨h₁, Nat.lt_of_not_le fun hc => h.diskCounter e' hr (hiff.mpr hc)⟩
  · rintro ⟨h₁, h₂⟩
    refine ⟨?_, fun hc => Nat.not_le_of_lt h₁ (hcounter.mp hc),
      fun e' hr hc => Nat.not_le_of_lt h₂ ?_⟩
    · exact (total_lrudiskInit h₁ h₂ (.start rfl rfl) fun x _ => hk x).mono fun _ e' h =>
        framesFree_fill hdram hdisk hk h
    · exact ((total_dramLoop h₁ hk).after () e' hr).mp hc

theorem init_exact_smallMachine :
    InitExact ⟨.boot (2 * pageSize) (2 * pageSize) false false blankDisk, .fresh 0⟩ ↔
    2 * pageSize / pageSize < 2 ^ 31 ∧ 2 * pageSize / pageSize < 2 ^ 31 :=
  init_exact_iff (by decide) (by decide) rfl

/-- With one page more than there are values of the counter, the counter runs over. -/
theorem not_init_exact :
    ∃ e : Env, e.sh = .boot (2 ^ 43 + pageSize) (2 * pageSize) false false blankDisk ∧
      ¬ InitExact e := by
  have hps : pageSize = 4096 := rfl
  refine ⟨⟨.boot (2 ^ 43 + pageSize) (2 * pageSize) false false blankDisk, .fresh 0⟩, rfl,
    fun h => ?_⟩
  have hsize : 2 ^ 43 + pageSize < 2 ^ 64 := by
    rw [hps]
    omega
  have hlt : (2 ^ 43 + pageSize) / pageSize < 2 ^ 31 :=
    ((init_exact_iff hsize (by decide) rfl).mp h).1
  rw [hps] at hlt
  omega

end ExtMem
