import ExtMem.Serial.Audit

/-! The counter of the mapped bytes against the live regions, in mmap and munmap. -/
namespace ExtMem
open Threads Threads.Prog

variable {n : Nat} {frames : List Frame} {k : Skeleton} {x r : PageId} {e e' : Env} {s s' : Shared}
  {a m addr length p : Nat}
  {flags : BitVec 32} {h : Nat × Nat × Nat × Nat} {u d b : Nat} {α β : Type}

/-- The page addresses of the live managed regions. -/
def liveSet (vma : Nat → Vma) : Set Nat := {a | a % pageSize = 0 ∧ vma a = .uffd}

noncomputable def live (vma : Nat → Vma) : Nat := (liveSet vma).ncard

/-- The page addresses from an address on. -/
def pagesFrom (addr count : Nat) : Set Nat := {a | ∃ i, i < count ∧ a = addr + i * pageSize}

theorem finite_pagesFrom (addr count : Nat) : (pagesFrom addr count).Finite := by
  refine ((Finset.range count).image fun i => addr + i * pageSize).finite_toSet.subset fun a ha =>
    ?_
  obtain ⟨i, hi, rfl⟩ := ha
  simp only [Finset.coe_image, Set.mem_image, Finset.mem_coe, Finset.mem_range]
  exact ⟨i, hi, rfl⟩

theorem ncard_pagesFrom (addr count : Nat) : (pagesFrom addr count).ncard = count := by
  have hset : pagesFrom addr count =
      ((Finset.range count).image fun i => addr + i * pageSize : Finset Nat) := by
    ext a
    simp only [Finset.coe_image, Set.mem_image, Finset.mem_coe, Finset.mem_range]
    constructor
    · rintro ⟨i, hi, rfl⟩
      exact ⟨i, hi, rfl⟩
    · rintro ⟨i, hi, rfl⟩
      exact ⟨i, hi, rfl⟩
  rw [hset, Set.ncard_coe_finset, Finset.card_image_of_injective, Finset.card_range]
  intro i j hij
  simp only [show pageSize = 4096 from rfl] at hij
  omega

/-- The pages of a range of whole pages. -/
theorem mem_pagesFrom_iff (hp : addr % pageSize = 0) (hl : length % pageSize = 0) (a : Nat) :
    a ∈ pagesFrom addr (length / pageSize) ↔ a % pageSize = 0 ∧ inRange addr length a = true := by
  constructor
  · rintro ⟨i, hi, rfl⟩
    simp only [inRange, Bool.and_eq_true, decide_eq_true_eq, show pageSize = 4096 from rfl] at *
    omega
  · rintro ⟨ha, hin⟩
    exact page_of_inRange hp ha hl hin

/-! Mapping. -/

private theorem uncounting_libcMmap (addr length : Nat) (flags : BitVec 32) :
    Always Uncounting (libcMmap addr length flags) := by
  refine always_bind (by simp) fun refuse =>
    always_bind (by simp) fun pick => always_atomic (within_of_ok fun e o e' he => ?_)
  generalize (if hasFlag flags mapFixed then addr else pick) = q at he
  dsimp only at he
  split at he
  · cases he
    exact .of_spared (.record e rfl rfl)
  · split at he
    · cases he
      exact .of_spared (.record e rfl rfl)
    · cases he
      exact .of_record e.loc.tid _ rfl rfl rfl rfl

private theorem audited_populate (hn : n < 2 ^ 40) (ha : Audited n frames m e.sh) :
    After (extmemMmapPopulate p length) e fun _ e' => Audited n frames m e'.sh := by
  unfold extmemMmapPopulate
  refine after_check fun _ => after_check fun _ => ?_
  refine after_loop (fun _ e => Audited n frames m e.sh) (fun pb e ha => ?_) ha
  refine (after_ite _ _ _ _).mpr ⟨fun _ => ?_, fun _ => (after_pure _ _ _).mpr ha⟩
  exact after_then (audited_handleFirstFault hn ha) fun _ e ha => (after_pure _ _ _).mpr ha

/-- A mapping that the pager serves sets the counter of the mapped bytes to its own length. -/
theorem audited_extmemMmap (hn : n < 2 ^ 40) (ha : Audited n frames m e.sh) :
    After (extmemMmap addr length flags) e fun _ e' =>
      Audited n frames (pageRoundUp length) e'.sh := by
  unfold extmemMmap
  refine ha.after_bind (uncounting_setLocal _) (by simp) fun _ e ha => ?_
  refine ha.after_bind (uncounting_of_sparing (by simp)) (by simp) fun _ e ha =>
    after_check fun _ => ?_
  dsimp only
  refine after_tally (uncounting_libcMmap _ _ _) ha.tally (after_libcMmap rfl) fun o e₁ ho ht => ?_
  cases o with
  | none => exact (after_fail _ _ _).mpr trivial
  | some p =>
    obtain ⟨-, hk, -⟩ := ho
    refine (after_bind _ _ _ _).mpr
      ((after_modify _ _ _).mpr ((after_bind _ _ _ _).mpr ((after_modify _ _ _).mpr ?_)))
    have hreg (e₂ : Env) (hsh : e₂.sh = { ({ e₁.sh with mainMmap := p } : Shared) with
        vma := fun a => if inRange p (pageRoundUp length) a then .uffd else e₁.sh.vma a }) :
        Audited n frames m e₂.sh := by
      refine ha.of_tally ?_ ?_ ?_
      · rw [show e₂.sh.skeleton = e.sh.skeleton.remap p (pageRoundUp length) .uffd from ?_]
        · exact ha.settled.remap _ _
        · rw [hsh]
          refine Skeleton.ext (congrArg Skeleton.page hk :) (congrArg Skeleton.fifos hk :)
            (congrArg Skeleton.pages hk :) (funext fun b => ?_) (congrArg Skeleton.lock hk :)
            (congrArg Skeleton.shrinking hk :) (congrArg Skeleton.sizes hk :)
          show (if inRange p (pageRoundUp length) b then Vma.uffd else e₁.sh.vma b) =
            if inRange p (pageRoundUp length) b then Vma.uffd else e.sh.vma b
          split
          · rfl
          · next hb =>
            rw [show e₁.sh.vma b = (if inRange p (pageRoundUp length) b then Vma.plain
              else e.sh.vma b) from congrFun (congrArg Skeleton.vma hk) b, if_neg hb]
      · rw [hsh]
        exact ⟨ht.held, ht.up, ht.down, ht.bytes, ht.small⟩
      · rw [hsh]
        exact (congrArg Skeleton.pages hk :)
    have hend (e : Env) (ha : Audited n frames m e.sh) : After (do
        setStats fun t => { t with memMmaped := pageRoundUp length }
        setInternalCall false
        pure p : Paging Nat) e fun _ e' => Audited n frames (pageRoundUp length) e'.sh := by
      refine (after_bind _ _ _ _).mpr ((after_modify _ _ _).mpr ?_)
      refine (after_bind _ _ _ _).mpr ((after_modify _ _ _).mpr ((after_pure _ _ _).mpr ?_))
      exact ⟨ha.settled, ha.tally.hold (g := fun t => { t with memMmaped := pageRoundUp length })
        (fun _ => rfl) (fun _ => rfl) fun _ => rfl, rfl, ha.allocated, ha.pages⟩
    refine (after_ite _ _ _ _).mpr ⟨fun _ => ?_, fun _ => hend _ (hreg _ rfl)⟩
    exact after_then (audited_populate hn (hreg _ rfl)) fun _ e ha => hend e ha

/-- Where all that was live is replaced, the pages of a new mapping are what is live. -/
theorem live_remap (hall : ∀ a ∈ liveSet k.vma, inRange p length a = true)
    (hp : p % pageSize = 0) (hl : length % pageSize = 0) :
    liveSet (k.remap p length .uffd).vma = pagesFrom p (length / pageSize) := by
  ext a
  rw [mem_pagesFrom_iff hp hl]
  show a % pageSize = 0 ∧ (if inRange p length a then Vma.uffd else k.vma a) = .uffd ↔ _
  constructor
  · rintro ⟨ha, hv⟩
    refine ⟨ha, ?_⟩
    by_contra hc
    rw [if_neg hc] at hv
    exact hc (hall a ⟨ha, hv⟩)
  · rintro ⟨ha, hin⟩
    exact ⟨ha, if_pos hin⟩

/-! Unmapping. -/

/-- Three counters that are changed one after the other. -/
private theorem tally_countOff {al pa pf c : Nat} (f₁ f₂ f₃ : Nat → Nat)
    (ht : Tally (m, al, pa, pf) u d b e.sh) : After (do
    setStats fun t => { t with memAllocated := f₁ t.memAllocated }
    setStats fun t => { t with memMmaped := f₂ t.memMmaped }
    setStats fun t => { t with pagesFreed := f₃ t.pagesFreed }
    pure c : Paging Nat) e fun _ e' => Tally (f₂ m, f₁ al, pa, f₃ pf) u d b e'.sh := by
  refine after_setStats fun e₁ he₁ =>
    after_setStats fun e₂ he₂ => after_setStats fun e₃ he₃ => (after_pure _ _ _).mpr ?_
  have ht₁ := ht.hold (g := fun t => { t with memAllocated := f₁ t.memAllocated }) (fun _ => rfl)
    (fun _ => rfl) fun _ => rfl
  rw [← he₁] at ht₁
  have ht₂ := ht₁.hold (g := fun t => { t with memMmaped := f₂ t.memMmaped }) (fun _ => rfl)
    (fun _ => rfl) fun _ => rfl
  rw [← he₂] at ht₂
  have ht₃ := ht₂.hold (g := fun t => { t with pagesFreed := f₃ t.pagesFreed }) (fun _ => rfl)
    (fun _ => rfl) fun _ => rfl
  rw [← he₃] at ht₃
  have hheld := ht.held
  simp only [Stats.held, Prod.mk.injEq] at hheld
  have hh : Stats.held { e₂.sh.stats with pagesFreed := f₃ e₂.sh.stats.pagesFreed } =
      (f₂ m, f₁ al, pa, f₃ pf) := by
    rw [he₂, he₁]
    simp only [Stats.held, hheld.1, hheld.2.1, hheld.2.2.1, hheld.2.2.2]
  exact hh ▸ ht₃

/-- The walk of munmap counts a page off if its address was tracked. -/
private theorem tally_unmapPage {al pa pf : Nat} (hk : e.sh.skeleton = k.locked)
    (hs : Settled n frames k) (ha : a ≠ 0) (ht : Tally (m, al, pa, pf) u d b e.sh) :
    After (unmapPage a) e fun _ e' => if k.pages a = none then Tally (m, al, pa, pf) u d b e'.sh
      else Tally (sub64 m pageSize, sub64 al pageSize, pa, add64 pf 1) u d b e'.sh := by
  have hpages : e.sh.pages = k.pages := congrArg Skeleton.pages hk
  unfold unmapPage
  refine (after_bind _ _ _ _).mpr ((after_read _ _ _).mpr ?_)
  rw [hpages]
  cases hp : k.pages a with
  | none =>
    refine (after_pure _ _ _).mpr ?_
    rwa [if_pos rfl]
  | some y =>
    have hpt : (e.sh.page y).pt = .basep := by
      rw [show e.sh.page = k.page from congrArg Skeleton.page hk]
      exact hs.whole.pt y (hs.of_hash ha hp).1
    refine after_minor (within_claimUnmap forgetting_minor y) hpt ht fun _ e hpt ht => ?_
    refine after_minor (within_modify fun _ => .of_eq rfl rfl rfl) hpt ht
      fun _ e hpt ht => ?_
    refine after_minor (within_lrudiskRemovePage forgetting_minor y) hpt ht fun _ e hpt ht =>
      after_pagesizeOf hpt ?_
    refine (tally_countOff (sub64 · pageSize) (sub64 · pageSize) (add64 · 1) ht).mono fun _ e' ht =>
      ?_
    rwa [if_neg (Option.some_ne_none y)]

/-- An address that is forgotten is one tracked page less, if it was one. -/
private theorem tracked_forget (h : Settled n frames k) (ha : a ≠ 0) :
    tracked k.pages = tracked (k.forget a).pages + if k.pages a = none then 0 else 1 := by
  have hset : trackedSet (k.forget a).pages = trackedSet k.pages \ {a} := by
    ext b
    simp only [trackedSet, Set.mem_ofPred_eq, Set.mem_sdiff, Set.mem_singleton_iff,
      h.pages_forget ha b]
    by_cases hb : b = a
    · simp [hb]
    · simp [hb]
  unfold tracked
  rw [hset]
  split
  · next hp => rw [Set.sdiff_singleton_eq_self fun hc => hc.2 hp, Nat.add_zero]
  · next hp =>
    have hmem : a ∈ trackedSet k.pages := ⟨ha, hp⟩
    exact (Set.ncard_sdiff_singleton_add_one hmem (finite_trackedSet h)).symm

/-- The counters on the way of munmap: as many pages have been counted off as are tracked no
more. -/
private def CountedOff (m t pa pf : Nat) (k : Skeleton) (s : Shared) : Prop :=
  tracked k.pages ≤ t ∧ ∃ pf', pf' % 2 ^ 64 = (pf + (t - tracked k.pages)) % 2 ^ 64 ∧
    Tally (m - pageSize * (t - tracked k.pages), pageSize * tracked k.pages, pa, pf') 0 0 0 s

private theorem countedOff_unmapPage {t pa pf : Nat} (hm : pageSize * t ≤ m) (hfit : m < 2 ^ 64)
    (hk : e.sh.skeleton = k.locked) (hs : Settled n frames k)
    (ha : a ≠ 0) (hc : CountedOff m t pa pf k e.sh) :
    After (unmapPage a) e fun _ e' => CountedOff m t pa pf (k.forget a) e'.sh := by
  obtain ⟨hle, pf', hpf, ht⟩ := hc
  refine (tally_unmapPage hk hs ha ht).mono fun _ e' ht => ?_
  have hstep := tracked_forget hs ha
  rw [hstep] at ht hpf hle
  unfold CountedOff
  generalize tracked (k.forget a).pages = c at ht hpf hle ⊢
  split at ht
  · next hp =>
    simp only [if_pos hp, Nat.add_zero] at ht hpf hle
    exact ⟨hle, pf', hpf, ht⟩
  · next hp =>
    simp only [if_neg hp] at ht hpf hle
    refine ⟨by omega, add64 pf' 1, ?_, ?_⟩
    · simp only [add64]
      omega
    · have hps : pageSize = 4096 := rfl
      have h₁ : sub64 (m - pageSize * (t - (c + 1))) pageSize = m - pageSize * (t - c) := by
        simp only [sub64, hps] at *
        omega
      have h₂ : sub64 (pageSize * (c + 1)) pageSize = pageSize * c := by
        simp only [sub64, hps] at *
        omega
      rwa [h₁, h₂] at ht

/-- The walk counts off every tracked page of its range. -/
private theorem countedOff_unmapWalk {t pa pf : Nat} (hm : pageSize * t ≤ m) (hfit : m < 2 ^ 64)
    (hk : e.sh.skeleton = k.locked) (hs : Settled n frames k) (hend : addr + length ≤ taskSize)
    (hc : CountedOff m t pa pf k e.sh) : After (unmapWalk addr length) e fun _ e' =>
      CountedOff m t pa pf (k.forgetPages addr (walkLength length)) e'.sh := by
  unfold unmapWalk
  have hps : pageSize = 4096 := rfl
  have htask : taskSize = 140737488351232 := rfl
  have hadd : add64 addr length = addr + length := Nat.mod_eq_of_lt (by omega)
  have hc₀ : CountedOff m t pa pf (k.forgetPages addr 0) e.sh := hc
  refine after_loop (fun b e =>
    ∃ i, i ≤ walkLength length ∧ b = addr + i * pageSize ∧ (i ≠ 0 → addr ≠ 0) ∧ e.sh.skeleton =
    (k.forgetPages addr i).locked ∧ CountedOff m t pa pf (k.forgetPages addr i) e.sh)
    (fun b e hJ => ?_) ⟨0, Nat.zero_le _, by simp, fun h => absurd rfl h, hk, hc₀⟩
  obtain ⟨i, hi, rfl, h0, hk, hc⟩ := hJ
  rw [hadd]
  refine (after_ite _ _ _ _).mpr ⟨fun hlt => ?_, fun hge => (after_pure _ _ _).mpr ?_⟩
  · have hset : Settled n frames (k.forgetPages addr i) := by
      by_cases hi0 : i = 0
      · subst hi0
        exact hs
      · exact hs.forgetPages (h0 hi0) i
    by_cases hne : addr + i * pageSize = 0
    · exact after_then (after_unmapPage hk hset) fun b e hb => absurd hne hb.1
    · refine after_then
        ((after_unmapPage hk hset).and (countedOff_unmapPage hm hfit hk hset hne hc))
        fun b e ⟨⟨ha, hb, hk⟩, hc⟩ => (after_pure _ _ _).mpr ?_
      show ∃ j, j ≤ walkLength length ∧ b = addr + j * pageSize ∧ _
      refine ⟨i + 1, ?_, ?_, fun _ => ?_, ?_⟩
      · simp only [walkLength, hps] at hlt ⊢
        omega
      · rw [hb, add64, Nat.mod_eq_of_lt]
        · simp only [hps]
          omega
        · simp only [hps] at hlt ⊢
          omega
      · by_cases hi0 : i = 0
        · rw [hi0, Nat.zero_mul, Nat.add_zero] at ha
          exact ha
        · exact h0 hi0
      · rw [Skeleton.forgetPages_succ]
        exact ⟨hk, hc⟩
  · have hie : i = walkLength length := by
      simp only [walkLength, hps] at hge hi ⊢
      omega
    exact hie ▸ hc

private theorem uncounting_libcMunmap (addr length : Nat) :
    Always Uncounting (libcMunmap addr length) := by
  refine always_bind (by simp) fun refuse => always_atomic (within_of_ok fun e o e' he => ?_)
  split at he
  · cases he
    exact .of_spared (.record e rfl rfl)
  · cases he
    exact .of_eq rfl rfl

private theorem countedOff_extmemMunmap (hm : pageSize * tracked e.sh.pages ≤ m) (hfit : m < 2 ^ 64)
    (ha : Audited n frames m e.sh) (hend : addr + length ≤ taskSize) :
    After (extmemMunmap addr length) e fun _ e' =>
      CountedOff m (tracked e.sh.pages) e.sh.stats.pagesAllocated e.sh.stats.pagesFreed
      (e.sh.skeleton.forgetPages addr (walkLength length)) e'.sh := by
  have hstart : CountedOff m (tracked e.sh.pages)
      e.sh.stats.pagesAllocated e.sh.stats.pagesFreed e.sh.skeleton e.sh := by
    refine ⟨Nat.le_refl _, e.sh.stats.pagesFreed, ?_, ?_⟩
    · rw [show e.sh.skeleton.pages = e.sh.pages from rfl, Nat.sub_self, Nat.add_zero]
    · have hheld : e.sh.stats.held = (m - pageSize * (tracked e.sh.pages - tracked e.sh.pages),
          pageSize * tracked e.sh.pages, e.sh.stats.pagesAllocated, e.sh.stats.pagesFreed) := by
        rw [Nat.sub_self, Nat.mul_zero, Nat.sub_zero, ← ha.mmaped, ← ha.allocated]
        rfl
      exact hheld ▸ ha.tally
  unfold extmemMunmap
  refine after_then (R := fun _ e₁ => e₁.sh.skeleton = e.sh.skeleton ∧ CountedOff m
    (tracked e.sh.pages) e.sh.stats.pagesAllocated e.sh.stats.pagesFreed e.sh.skeleton e₁.sh)
    ((after_modify _ _ _).mpr ⟨rfl, hstart⟩) fun _ e₁ ⟨hk, hc⟩ => ?_
  obtain ⟨hle, pf', hpf, ht⟩ := hc
  refine after_tally (R := fun _ e₂ => e₂.sh.skeleton = e.sh.skeleton.locked)
    uncounting_lockAllocator ht ?_ fun _ e₂ hk ht => ?_
  · refine (after_atomic _ _ _).mpr fun b e₂ he => ?_
    split at he
    · cases he
    · cases he
      rw [← hk]
      rfl
  refine after_then (countedOff_unmapWalk hm hfit hk ha.settled hend ⟨hle, pf', hpf, ht⟩)
    fun _ e₃ hc => ?_
  obtain ⟨hle, pf', hpf, ht⟩ := hc
  refine after_tally' (uncounting_libcMunmap addr length) ht fun _ e₄ ht => after_check fun _ => ?_
  refine after_tally' (uncounting_setShared (fun _ => rfl) fun _ => rfl) ht fun _ e₅ ht => ?_
  exact (after_uncounting (uncounting_setLocal _) ht).mono fun _ e' ht => ⟨hle, pf', hpf, ht⟩

/-- Unmapping takes a page size off the counter of the mapped bytes for every page that was
tracked, as long as there are so many bytes. -/
theorem audited_extmemMunmap (hm : pageSize * tracked e.sh.pages ≤ m)
    (hfit : m < 2 ^ 64) (ha : Audited n frames m e.sh) :
    After (extmemMunmap addr length) e fun _ e' =>
        Unmapped n frames e.sh.skeleton addr length e'.sh.skeleton ∧
      tracked e'.sh.pages ≤ tracked e.sh.pages ∧
      Audited n frames (m - pageSize * (tracked e.sh.pages - tracked e'.sh.pages)) e'.sh := by
  intro b e' hr
  have hu := after_extmemMunmap rfl ha.settled b e' hr
  obtain ⟨hle, pf', hpf, ht⟩ := countedOff_extmemMunmap hm hfit ha hu.bounded b e' hr
  have hpages : (e.sh.skeleton.forgetPages addr (walkLength length)).pages = e'.sh.pages :=
    (congrArg Skeleton.pages hu.result.symm :)
  rw [hpages] at hle hpf ht
  have hheld := ht.held
  simp only [Stats.held, Prod.mk.injEq] at hheld
  refine ⟨hu, hle, hu.settled, ht.held.symm ▸ ht, hheld.1, hheld.2.1, ?_⟩
  rw [hheld.2.2.1, hheld.2.2.2, ha.pages]
  omega

/-! The pages of the range of munmap. -/

private theorem vma_forgetPages (k : Skeleton) (addr c : Nat) :
    (k.forgetPages addr c).vma = k.vma := by
  induction c with
  | zero => rfl
  | succ c ih => rw [Skeleton.forgetPages_succ, Skeleton.vma_forget, ih]

/-- The pages that a call of munmap goes over. -/
def unmapSet (addr length : Nat) : Set Nat := pagesFrom addr (walkLength length)

theorem inRange_of_unmapSet (hu : Unmapped n frames k addr length s.skeleton)
    (ha : a ∈ unmapSet addr length) : inRange addr (roundLength length) a = true ∧ a ≠ 0 := by
  obtain ⟨i, hi, rfl⟩ := ha
  have hne := hu.ne.1
  have hround : roundLength length = walkLength length * pageSize := rfl
  rw [hround]
  simp only [inRange, Bool.and_eq_true, decide_eq_true_eq, show pageSize = 4096 from rfl]
  omega

/-- They are live and tracked no more, and no other page is. -/
theorem sets_unmapped (hu : Unmapped n frames k addr length s.skeleton) (hs : Settled n frames k) :
    liveSet s.vma = liveSet k.vma \ unmapSet addr length ∧
    trackedSet s.pages = trackedSet k.pages \ unmapSet addr length := by
  have hround : roundLength length = walkLength length * pageSize := rfl
  constructor
  · have hvma : s.vma =
        ((k.forgetPages addr (walkLength length)).remap addr (roundLength length) .none).vma :=
      (congrArg Skeleton.vma hu.result :)
    ext a
    have hmem : a ∈ pagesFrom addr (walkLength length * pageSize / pageSize) ↔
        a % pageSize = 0 ∧ inRange addr (walkLength length * pageSize) a = true :=
      mem_pagesFrom_iff hu.aligned (Nat.mul_mod_left _ _) a
    rw [Nat.mul_div_cancel _ (by decide)] at hmem
    have hva : s.vma a = if inRange addr (walkLength length * pageSize) a then .none
        else k.vma a := by
      rw [hvma, ← vma_forgetPages k addr (walkLength length)]
      rfl
    rw [Set.mem_sdiff, unmapSet, hmem]
    simp only [liveSet, Set.mem_ofPred_eq, hva]
    split
    · next hin => simp +contextual [hin]
    · next hin => simp [hin]
  · have hpages : s.pages = (k.forgetPages addr (walkLength length)).pages :=
      (congrArg Skeleton.pages hu.result :)
    ext a
    have hpa := hs.pages_forgetPages hu.ne.1 (walkLength length) a
    rw [Set.mem_sdiff]
    simp only [trackedSet, Set.mem_ofPred_eq, hpages, hpa]
    show _ ↔ _ ∧ ¬ (∃ i, i < walkLength length ∧ a = addr + i * pageSize)
    split
    · next hin => simp [hin]
    · next hin => simp [hin]

end ExtMem
