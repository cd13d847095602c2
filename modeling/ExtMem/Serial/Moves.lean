import ExtMem.Serial.Tally

/-! Evictions and swap-ins, run alone, count each page that they move. -/
namespace ExtMem
open Threads Threads.Prog

variable {n : Nat} {frames : List Frame} {hand : PageId → Option Hand} {k : Skeleton} {x : PageId}
  {e : Env}
  {h : Nat × Nat × Nat × Nat} {u d b : Nat} {α β : Type}

/-- The descriptor of a page as the skeleton has it. -/
private theorem pt_of_skeleton (hk : e.sh.skeleton = k) (hpt : (k.page x).pt = .basep) :
    (e.sh.page x).pt = .basep := by
  subst hk
  exact hpt

/-- The scalar worker and the fault handler evict in the same way up to the move itself; what they
do afterwards moves nothing. -/
private theorem after_evicting {wp : Bool} {A B : PageId → Frame → Paging β}
    (hA : ∀ r f, Always (Sparing false false) (A r f))
    (hB : ∀ r f, Always (Sparing false false) (B r f)) (hk : e.sh.skeleton = k)
    (hpt : (k.page x).pt = .basep) (ht : Tally h u d b e.sh) : After (do
      setPage x fun p => { p with migrating := true }
      let writeback ← protectVictim x
      let hasReserve ← field x (·.hasReserve)
      if hasReserve then do
        let diskpage ← takeReserve x
        let oldOffset ← field x (·.virtualOffset)
        let diskOffset ← field diskpage (·.virtualOffset)
        lrudiskMigrateDown x diskOffset false writeback
        A diskpage oldOffset
      else do
        let diskpage ← takeDiskFree
        let oldOffset ← field x (·.virtualOffset)
        let diskOffset ← field diskpage (·.virtualOffset)
        lrudiskMigrateDown x diskOffset wp writeback
        B diskpage oldOffset) e fun _ e' => Tally h u d b e'.sh := by
  have hmove (wp : Bool) (C : PageId → Frame → Paging β)
      (hC : ∀ r f, Always (Sparing false false) (C r f)) (r : PageId) (writeback : Bool)
      {k : Skeleton} {e : Env} (hk : e.sh.skeleton = k) (hpt : (k.page x).pt = .basep)
      (ht : Tally h u d b e.sh) : After (do
        let oldOffset ← field x (·.virtualOffset)
        let diskOffset ← field r (·.virtualOffset)
        lrudiskMigrateDown x diskOffset wp writeback
        C r oldOffset) e fun _ e' => Tally h u d b e'.sh := by
    refine after_field hk (after_field hk ?_)
    refine after_then (after_tallyDown (pt_of_skeleton hk hpt) ht) fun _ e ht => ?_
    exact after_uncounting (uncounting_of_sparing (hC _ _)) ht
  refine after_tally
    (R := fun _ e' => e'.sh.skeleton = k.write x fun p => { p with migrating := true })
    (uncounting_setPage _ _) ht ((after_modify _ _ _).mpr (by rw [← hk]; rfl)) fun _ e hk ht => ?_
  have hpt : ((k.write x fun p => { p with migrating := true }).page x).pt = .basep := by
    rw [Skeleton.page_write_self]
    exact hpt
  refine after_tally (uncounting_of_sparing
    (within_protectVictim claiming_spared (fun e _ _ => .record e rfl rfl) x)) ht
    (after_still_last hk (by simp)) fun writeback e hk ht => ?_
  refine after_field hk ((after_ite _ _ _ _).mpr ⟨fun _ => ?_, fun _ => ?_⟩)
  · exact after_tally (uncounting_of_sparing (by simp)) ht (after_takeReserve hk) fun r e hr ht =>
      hmove false A hA r writeback hr.2.2.2 hpt ht
  · exact after_tally (uncounting_of_sparing (by simp)) ht (after_takeDiskFree hk) fun r e hr ht =>
      hmove wp B hB r writeback hr.2 hpt ht

theorem tally_fetchFreeEvict (hk : e.sh.skeleton = k) (hpt : (k.page x).pt = .basep)
    (ht : Tally h u d b e.sh) : After (fetchFreeEvict x) e fun _ e' => Tally h u d b e'.sh := by
  exact after_evicting (within_keepReserve relinking_spared x) (within_keepFree relinking_spared x)
    hk hpt ht

/-- A list gives its oldest entry. -/
private theorem after_taken {l : FifoList} {aux : PageId → Env → Env} (hk : e.sh.skeleton = k)
    (haux : ∀ d e, (aux d e).sh.skeleton = e.sh.skeleton) :
    After (dequeueFifoThen l aux) e fun o e' => match o with
      | none => e'.sh.skeleton = k
      | some x => (∃ xs, k.fifos.seq l = x :: xs) ∧ e'.sh.skeleton = k.unlink x := by
  rw [← bind_pure (dequeueFifoThen l aux)]
  refine after_dequeueThen hk haux (fun _ => (after_pure _ _ _).mpr hk) fun x xs hs e hk =>
    (after_pure _ _ _).mpr ?_
  exact ⟨⟨xs, hs⟩, hk⟩

theorem tally_lrudiskEvictionworker (hk : e.sh.skeleton = k) (hw : Whole n frames hand k)
    (ht : Tally h u d b e.sh) : After lrudiskEvictionworker e fun _ e' => Tally h u d b e'.sh := by
  unfold lrudiskEvictionworker
  refine after_tally (uncounting_of_sparing (within_takeVictim linking_spared (by decide))) ht
    (after_taken hk fun _ _ => rfl) fun victim e hv ht => ?_
  cases victim with
  | none => exact (after_pure _ _ _).mpr ht
  | some x =>
    obtain ⟨⟨xs, hs⟩, hk⟩ := hv
    exact after_evicting (within_swapReserve relinking_spared x)
      (within_swapFree relinking_spared x) hk
      (hw.pt x (hw.lt_of_list (Whole.list_of_seq hs))) ht

theorem tally_fetchFreeAsynch (hk : e.sh.skeleton = k) (hw : Whole n frames hand k)
    (ht : Tally h u d b e.sh) : After fetchFreeAsynch e fun _ e' => Tally h u d b e'.sh := by
  unfold fetchFreeAsynch
  refine after_loop (fun _ e => Rested n frames hand k e ∧ Tally h u d b e.sh)
    (fun priority e he => ?_) ⟨?_, ht⟩
  · obtain ⟨he, ht⟩ := he
    refine (after_ite _ _ _ _).mpr ⟨fun _ => ?_, fun _ => (after_fail _ _ _).mpr trivial⟩
    refine after_tally (uncounting_of_sparing (by simp)) ht (after_taken rfl fun _ _ => rfl)
      fun o e' ho ht => ?_
    cases o with
    | some x => exact (after_pure _ _ _).mpr ht
    | none =>
      have he' : Rested n frames hand k e' := by
        unfold Rested
        rw [show e'.sh.skeleton = e.sh.skeleton from ho]
        exact he
      refine after_tally (uncounting_of_sparing (by simp)) ht (after_fetchFreeScan he')
        fun priority e he ht => ?_
      refine after_tally (uncounting_of_sparing (within_takeVictim linking_spared (by decide))) ht
        (after_taken rfl fun _ _ => rfl) fun o e' ho ht => ?_
      cases o with
      | none =>
        refine (after_pure _ _ _).mpr ⟨?_, ht⟩
        unfold Rested
        rw [show e'.sh.skeleton = e.sh.skeleton from ho]
        exact he
      | some x =>
        obtain ⟨⟨xs, hs⟩, hk⟩ := ho
        have hpt := he.1.1.pt x (he.1.1.lt_of_list (Whole.list_of_seq hs))
        exact after_then (tally_fetchFreeEvict hk hpt ht) fun r e ht => (after_pure _ _ _).mpr ht
  · unfold Rested
    rw [hk]
    exact ⟨.refl hw, id⟩

theorem tally_lrudiskPagefault (hk : e.sh.skeleton = k) (hw : Whole n frames hand k)
    (ht : Tally h u d b e.sh) : After lrudiskPagefault e fun _ e' => Tally h u d b e'.sh :=
  after_then (tally_fetchFreeAsynch hk hw ht) fun _ _ ht =>
    after_tally' (uncounting_setPage _ _) ht fun _ _ ht => (after_pure _ _ _).mpr ht

theorem uncounting_lrudiskSynchkswapd : Always Uncounting lrudiskSynchkswapd := by
  refine always_bind (uncounting_setShared (fun _ => rfl) fun _ => rfl) fun _ => ?_
  refine always_bind (uncounting_of_sparing (by simp)) fun _ =>
    always_bind (uncounting_of_sparing (by simp)) fun _ => ?_
  refine always_bind (uncounting_of_sparing (by simp)) fun _ => ?_
  have hlast : Always Uncounting (setShared fun s => { s with kswapdRunning := false }) :=
    uncounting_setShared (fun _ => rfl) fun _ => rfl
  refine always_ite hlast ?_
  exact always_bind (uncounting_of_sparing (by simp)) fun _ => hlast

/-! Swap-ins. -/

theorem tally_swapinAsync (hw : Whole n frames hand k)
    (hk : e.sh.skeleton = k.write x fun p => { p with migrating := true })
    (ht : Tally h u d b e.sh) :
    After (lrudiskSwapinExternalAsync x) e fun _ e' => Tally h u d b e'.sh := by
  unfold lrudiskSwapinExternalAsync
  refine after_field hk ?_
  refine after_tally (uncounting_of_sparing (by simp)) ht (after_detach hk) fun _ e ⟨hl, hk⟩ ht =>
    ?_
  rw [Skeleton.list_write] at hl
  have hw' := hw.detach hl
  refine after_tally (uncounting_of_sparing (by simp)) ht (after_still_last hk (by simp))
    fun _ e hk ht => ?_
  refine after_then ((after_fetchFreeAsynch hk hw').and (tally_fetchFreeAsynch hk hw' ht))
    fun r e ⟨hf, ht⟩ => ?_
  have hpt : (e.sh.skeleton.page x).pt = .basep := hf.1.pt x (hw.lt_of_list hl)
  have hframe : Always Still (frameOf r) := by
    unfold frameOf
    exact always_bind (within_modify fun _ => .of_eq rfl rfl) fun _ =>
      always_bind (by simp) fun _ => by simp
  refine after_tally (uncounting_of_sparing (by simp)) ht (after_still_last rfl hframe)
    fun f e' hk' ht => ?_
  refine after_then (after_tallyUp (pt_of_skeleton hk' hpt) ht) fun _ e ht => ?_
  exact after_tally' (uncounting_of_sparing (by simp)) ht fun _ e ht =>
    after_uncounting (uncounting_of_sparing (by simp)) ht

theorem tally_coreTryPrefetch {base : Nat} (hk : e.sh.skeleton = k) (hw : Whole n frames hand k)
    (ht : Tally h u d b e.sh) : After (coreTryPrefetch base) e fun _ e' => Tally h u d b e'.sh := by
  unfold coreTryPrefetch
  refine after_check fun _ =>
    after_tally (uncounting_of_sparing (by simp)) ht (after_prefetchList hk hw) fun ds e hr ht => ?_
  have h₀ : Whole n frames (holding hand [] []) k := by simpa using hw
  have hw₁ : ∃ hand', Whole n frames hand' e.sh.skeleton := ⟨_, (hr.whole h₀).1⟩
  have hstill {p : Paging Unit} {e : Env} (hp : Always (Sparing false false) p)
      (hq : Always Still p) (hw : ∃ hand', Whole n frames hand' e.sh.skeleton)
      (ht : Tally h u d b e.sh) : After p e fun _ e' =>
      (∃ hand', Whole n frames hand' e'.sh.skeleton) ∧ Tally h u d b e'.sh := by
    refine ((after_still_last rfl hq).and (after_uncounting (uncounting_of_sparing hp) ht)).mono
      fun _ e' ⟨hk, ht⟩ => ⟨?_, ht⟩
    rw [hk]
    exact hw
  refine after_then (hstill (sparing_traceEvent rfl rfl) (by simp) hw₁ ht) fun _ e ⟨hw, ht⟩ => ?_
  refine after_then (hstill (by simp) (by simp) hw ht) fun _ e ⟨hw, ht⟩ => ?_
  refine after_then (hstill (always_each fun _ => by simp) (always_each fun _ => by simp) hw ht)
    fun _ e ⟨hw, ht⟩ => ?_
  refine after_then (hstill (by simp) (within_submit transferring_still _) hw ht)
    fun _ e ⟨hw, ht⟩ => ?_
  refine after_then (after_collect (fun _ _ e => (∃ hand', Whole n frames hand' e.sh.skeleton) ∧
    Tally h u d b e.sh) ⟨hw, ht⟩ fun _ _ _ e he => ?_) fun rs e he => ?_
  · obtain ⟨⟨hand', hw⟩, ht⟩ := he
    refine ((after_lrudiskPagefault rfl hw).and (tally_lrudiskPagefault rfl hw ht)).mono
      fun r e' ⟨hf, ht⟩ => ⟨?_, ht⟩
    obtain ⟨k₁, hw₁, hr, hrec, -, hk'⟩ := hf
    rw [hk']
    exact ⟨_, (fetched_marked hw₁ hr hrec).1⟩
  refine after_tally' (always_each fun _ => uncounting_of_sparing (by simp)) he.2 fun _ e ht => ?_
  refine after_tally' (always_each fun y => ?_) ht fun _ e ht => (after_pure _ _ _).mpr ht
  refine always_bind (uncounting_copyIn (by simp)) fun _ => uncounting_of_sparing ?_
  exact always_bind (by simp) fun _ => always_bind (sparing_setPage _ fun _ => rfl) fun _ => by simp

end ExtMem
