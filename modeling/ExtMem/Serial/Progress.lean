import ExtMem.Serial.Reclaim
import ExtMem.Serial.Conserved

/-! The passes of kswapd over pages that are not accessed: which of them make progress. -/
namespace ExtMem
open Threads Threads.Prog

variable {e e' : Env} {nr ret tries : Nat}

/-- No page in use has its accessed bit set, and none is touched while a pass runs. -/
def Unaccessed (e : Env) : Prop :=
  e.sh.spurious = false ∧ ∀ d, e.sh.inUse d → e.sh.accessedAt (e.sh.page d).va = false

/-- Of unaccessed pages the inactive scan puts each one it examines on the eviction list. -/
theorem unaccessed_scan (h : InactiveScan nr e ret tries e') (hu : Unaccessed e) :
    tries = ret ∧ Unaccessed e' ∧ (ret = 0 → e' = e) ∧
      (e'.sh.fifos.seq .inactiveList).length + ret = (e.sh.fifos.seq .inactiveList).length := by
  induction h with
  | start => exact ⟨rfl, hu, fun _ => rfl, rfl⟩
  | @examine ret tries e₁ e₂ d xs acc _ _ _ hs hex ih =>
    obtain ⟨htries, hu₁, -, hlen⟩ := ih
    have hin : e₁.sh.inUse d := .inr (e₁.sh.fifos.tag_of_head hs)
    have hacc : acc = false := (hex.exact hu₁.1).trans (hu₁.2 d hin)
    have hr := Reclaims.of_examined hs hex
    subst hacc
    refine ⟨by simp [htries], ⟨hex.rest.spurious.trans hu₁.1, fun x hx => ?_⟩,
      fun h0 => by simp at h0, ?_⟩
    · rw [hex.cleared, hr.va]
      split
      · rfl
      · exact hu₁.2 x ((hr.inUse x).mpr (.inl hx))
    · have hleft : e₂.sh.fifos.seq .inactiveList = xs := by
        rw [hex.fifos, Queues.seq_enqueue (by simp), if_neg (by simp [verdict]),
          Queues.seq_unlink_head hs]
      rw [hs, List.length_cons] at hlen
      rw [hleft, if_neg Bool.false_ne_true]
      omega

theorem unaccessed_shrunk {n : Nat} (h : ShrunkInactive n e ret e') (hu : Unaccessed e)
    (hne : e.sh.fifos.seq .inactiveList ≠ []) : 0 < ret := by
  obtain ⟨tries, e₁, hscan, hover, -⟩ := h
  obtain ⟨htries, -, hsame, -⟩ := unaccessed_scan hscan hu
  have hlen : 0 < (e.sh.fifos.seq .inactiveList).length := List.length_pos_iff.mpr hne
  have htarget : 0 < inactiveTarget n (e.sh.fifos.seq .inactiveList).length := by
    unfold inactiveTarget
    split <;> omega
  rcases Nat.eq_zero_or_pos ret with h0 | hpos
  · exfalso
    rw [hsame h0] at hover
    rcases hover with h | h | h
    · omega
    · exact hne h
    · omega
  · exact hpos

/-- A scan for a cluster takes a whole cluster off a long enough inactive list. -/
theorem unaccessed_cluster (h : ShrunkInactive swapClusterCount e ret e') (hu : Unaccessed e)
    (hlong : swapClusterCount ≤ (e.sh.fifos.seq .inactiveList).length) :
    ret = swapClusterCount ∧ Unaccessed e' ∧ (e'.sh.fifos.seq .inactiveList).length +
        swapClusterCount = (e.sh.fifos.seq .inactiveList).length := by
  obtain ⟨tries, e₁, hscan, hover, rfl⟩ := h
  have htarget : inactiveTarget swapClusterCount (e.sh.fifos.seq .inactiveList).length =
      swapClusterCount := if_neg (not_or.mpr ⟨by decide, Nat.not_lt.mpr hlong⟩)
  rw [htarget] at hscan hover
  obtain ⟨-, -, -, hle⟩ := Reclaims.of_inactiveScan hscan
  obtain ⟨htries, hu₁, -, hlen⟩ := unaccessed_scan hscan hu
  have hlen : (e₁.sh.fifos.seq .inactiveList).length + ret =
      (e.sh.fifos.seq .inactiveList).length := hlen
  have hret : ret = swapClusterCount := by
    rcases hover with h | h | h
    · omega
    · rw [h, List.length_nil] at hlen
      omega
    · omega
  exact ⟨hret, hu₁, hret ▸ hlen⟩

/-- A scan of the active list moves unaccessed pages to the inactive list. -/
theorem unaccessed_active {n : Nat} (h : ShrunkActive n e e') (hu : Unaccessed e) :
    Unaccessed e' ∧
    (e.sh.fifos.seq .inactiveList).length ≤ (e'.sh.fifos.seq .inactiveList).length := by
  rcases h with ⟨-, rfl⟩ | ⟨ret, e₁, hscan, -, rfl⟩
  · exact ⟨hu, Nat.le_refl _⟩
  · show Unaccessed e₁ ∧ _ ≤ (e₁.sh.fifos.seq .inactiveList).length
    induction hscan with
    | start => exact ⟨hu, Nat.le_refl _⟩
    | @demote ret e₁ e₂ d xs _ _ hs hd ih =>
      have hr := Reclaims.of_demoted hs hd
      refine ⟨⟨hd.rest.spurious.trans ih.1.1, fun x hx => ?_⟩, ih.2.trans ?_⟩
      · rw [Shared.accessedAt, hd.pte, hr.va]
        exact ih.1.2 x ((hr.inUse x).mpr (.inl hx))
      · rw [hd.fifos, Queues.seq_enqueue (by simp), if_pos rfl,
          Queues.seq_unlink_of_ne (e₁.sh.fifos.tag_of_head hs) (by decide), List.length_append]
        exact Nat.le_add_right _ _

/-- What a pass is to do at least: put a page on the eviction list or move one from the
active list to the inactive list. -/
def Advances (e e' : Env) : Prop :=
  (∃ d, e'.sh.list d = some .evictionList ∧ e.sh.list d ≠ some .evictionList) ∨
  ∃ d, e.sh.list d = some .activeList ∧ e'.sh.list d = some .inactiveList

theorem Reclaims.advances {added : List PageId} (h : Reclaims e e' added) (hne : added ≠ []) :
    Advances e e' := by
  obtain ⟨d, hd⟩ := List.exists_mem_of_ne_nil added hne
  refine .inl ⟨d, (e'.sh.fifos.mem_iff _ _).mp ?_, ?_⟩
  · rw [h.evicted]
    exact List.mem_append_right _ hd
  · intro hl
    rcases (h.inUse d).mpr (.inr hd) with h' | h' <;> (rw [hl] at h'; cases h')

/-- Where the loop of a reclaim pass is entered at all, a page goes to the eviction list. -/
theorem after_directProgress {nrPages : Int} {priority : Nat} (hu : Unaccessed e) :
    After (directAllocatePageAsynch nrPages priority) e fun _ e' => ∃ added, Reclaims e e' added ∧
      (0 < int32 ((e.sh.fifos.seq .inactiveList).length >>> priority : Nat) → 0 < nrPages →
        added ≠ []) := by
  unfold directAllocatePageAsynch numentries
  rw [after_bind, after_read, after_bind, after_read]
  dsimp only
  have hne : 0 < int32 ((e.sh.fifos.seq .inactiveList).length >>> priority : Nat) →
      e.sh.fifos.seq .inactiveList ≠ [] := by
    intro h hs
    rw [hs] at h
    simp [int32] at h
  generalize int32 ((e.sh.fifos.seq .inactiveList).length >>> priority : Nat) = a at hne ⊢
  generalize int32 _ = b
  refine after_loop (fun x e₁ => ∃ added, Reclaims e e₁ added ∧
    (added ≠ [] ∨ x = (0, 0, 0) ∧ e₁ = e)) ?_ ⟨[], .refl e, .inr ⟨rfl, rfl⟩⟩
  rintro ⟨reclaimed, sa, si⟩ e₁ ⟨added, hr, hadd⟩
  dsimp only
  split
  · next hc =>
    refine (after_bind _ _ _ _).mpr (after_shrinkInactive.mono fun ret e₂ hscan => ?_)
    obtain ⟨added', hr', hlen, -, -⟩ := Reclaims.of_shrunkInactive hscan (by decide)
    have hadd' : added ++ added' ≠ [] := by
      rcases hadd with h | ⟨hx, rfl⟩
      · exact List.append_ne_nil_of_left_ne_nil h _
      · cases hx
        have hpos := unaccessed_shrunk hscan hu (hne hc.1)
        exact List.append_ne_nil_of_right_ne_nil _ (List.ne_nil_of_length_pos (hlen ▸ hpos))
    refine after_addInt fun _ => after_addInt fun _ => ?_
    split
    · refine (after_bind _ _ _ _).mpr
        (after_shrinkActive.mono fun _ e₃ hscan => after_addInt fun _ => (after_pure _ _ _).mpr ?_)
      exact ⟨_, by simpa using (hr.trans hr').trans (Reclaims.of_shrunkActive hscan (by decide)).1,
        .inl hadd'⟩
    · exact (after_pure _ _ _).mpr ⟨_, hr.trans hr', .inl hadd'⟩
  · next hc =>
    refine (after_pure _ _ _).mpr ⟨added, hr, fun ha hn => ?_⟩
    rcases hadd with h | ⟨hx, -⟩
    · exact h
    · cases hx
      exact absurd ⟨ha, hn⟩ hc

/-- A pass that has nothing to scan or nothing to reclaim changes nothing. -/
theorem after_directIdle {nrPages : Int} {priority : Nat}
    (h : ¬ (0 < int32 ((e.sh.fifos.seq .inactiveList).length >>> priority : Nat) ∧ 0 < nrPages)) :
    After (directAllocatePageAsynch nrPages priority) e fun _ e' => e' = e := by
  unfold directAllocatePageAsynch numentries
  rw [after_bind, after_read, after_bind, after_read]
  dsimp only
  refine after_loop (fun x e₁ => x = (0, 0, 0) ∧ e₁ = e) ?_ ⟨rfl, rfl⟩
  rintro ⟨reclaimed, sa, si⟩ e₁ ⟨hx, rfl⟩
  cases hx
  dsimp only
  split
  · next hc => exact absurd hc h
  · exact (after_pure _ _ _).mpr rfl

variable {nrPages reclaimed sa si a b : Int} {len : Nat}

/-- A pass over unaccessed pages so far: what it has scanned it has reclaimed, off an inactive
list that had so many pages. -/
structure Draining (len : Nat) (reclaimed sa si : Int) (e : Env) : Prop where
  unaccessed : Unaccessed e
  aligned : ∀ d, e.sh.inUse d → (e.sh.page d).va % pageSize = 0
  all : reclaimed = si
  counters : Scanned reclaimed sa si
  left : (len : Int) ≤ (e.sh.fifos.seq .inactiveList).length + reclaimed

/-- The scan of the inactive list in a round takes a whole cluster. -/
private theorem total_drain (h : Draining len reclaimed sa si e)
    (hlong : reclaimed + swapClusterCount ≤ len) :
    Total (shrinkInactiveList swapClusterCount) e fun ret e' => ret = swapClusterCount ∧
      Unaccessed e' ∧ (∀ d, e'.sh.inUse d → (e'.sh.page d).va % pageSize = 0) ∧
      (len : Int) ≤ (e'.sh.fifos.seq .inactiveList).length + (reclaimed + swapClusterCount) := by
  have hleft := h.left
  have htotal : Total (shrinkInactiveList swapClusterCount) e _ :=
    total_shrinkInactiveList scanKeeps_aligned (fun _ _ => trivial) h.aligned
  refine (htotal.strengthen (htotal.after.and after_shrinkInactive)).mono ?_
  rintro ret e' ⟨⟨-, hal⟩, hscan⟩
  obtain ⟨hret, hu, hlen⟩ := unaccessed_cluster hscan h.unaccessed (by omega)
  exact ⟨hret, hu, hal, by omega⟩

/-- A round over unaccessed pages reclaims a whole cluster. -/
private theorem total_drainingRound (h : Draining len reclaimed sa si e) (hscan : si < a)
    (hpos : reclaimed < nrPages) (hroom : si + swapClusterCount < 2 ^ 31)
    (hlong : reclaimed + swapClusterCount ≤ len) :
    Total (reclaimRound nrPages b a (reclaimed, sa, si)) e fun r e' =>
        ∃ sa', r = .inl (reclaimed + swapClusterCount, sa', si + swapClusterCount) ∧
      Draining len (reclaimed + swapClusterCount) sa' (si + swapClusterCount) e' := by
  obtain ⟨hr, ha, -⟩ := id h.counters
  have hall := h.all
  unfold reclaimRound
  dsimp only
  rw [if_pos ⟨hscan, hpos⟩]
  refine (total_drain h hlong).bind fun ret e ⟨hret, hu, hal, hleft⟩ => ?_
  subst hret
  refine total_addInt (by omega) (by omega) (total_addInt (by omega) hroom ?_)
  split
  · have htotal : Total (shrinkActiveList swapClusterCount) e _ :=
      total_shrinkActiveList scanKeeps_aligned trivial hal
    refine (htotal.strengthen (htotal.after.and after_shrinkActive)).bind fun _ e' ⟨hal, hscan⟩ =>
      ?_
    obtain ⟨hu, hlen⟩ := unaccessed_active hscan hu
    refine total_addInt (by omega) (by omega)
      (.ret ⟨_, rfl, hu, hal, by omega, h.counters.both (Nat.le_refl _), by omega⟩)
  · exact .ret ⟨_, rfl, hu, hal, by omega, h.counters.skip (Nat.le_refl _), hleft⟩

/-- A round that cannot count one more cluster aborts. -/
private theorem aborts_drainingRound (h : Draining len reclaimed sa si e) (hscan : si < a)
    (hpos : reclaimed < nrPages) (hfull : 2 ^ 31 ≤ reclaimed + swapClusterCount)
    (hlong : reclaimed + swapClusterCount ≤ len) :
    ∃ e', Aborts (reclaimRound nrPages b a (reclaimed, sa, si)) e .intOverflow e' := by
  obtain ⟨ret, e', hr, rfl, -⟩ := (total_drain h hlong).runs
  unfold reclaimRound
  dsimp only
  rw [if_pos ⟨hscan, hpos⟩]
  exact ⟨e', hr.bind_aborts (Aborts.bind_left (aborts_addInt hfull))⟩

/-- What is to be scanned of a list shifted by the priority leaves room for a cluster on it. -/
private theorem cluster_left (hscan : si < int32 (len >>> 12 : Nat)) (h0 : 0 ≤ si) :
    si + swapClusterCount ≤ len := by
  have hle : int32 (len >>> 12 : Nat) ≤ (len >>> 12 : Nat) := int32_le (Int.natCast_nonneg _)
  have hshift : len >>> 12 = len / 4096 := Nat.shiftRight_eq_div_pow len 12
  unfold swapClusterCount
  omega

theorem Draining.start (hu : Unaccessed e)
    (hal : ∀ d, e.sh.inUse d → (e.sh.page d).va % pageSize = 0) :
    Draining (e.sh.fifos.seq .inactiveList).length 0 0 0 e := ⟨hu, hal, rfl, .zero, by simp⟩

/-- A pass over unaccessed pages ends if it is asked for so few that the counters do not run
over. -/
theorem total_drainingPass (hu : Unaccessed e)
    (hal : ∀ d, e.sh.inUse d → (e.sh.page d).va % pageSize = 0)
    (hfits : nrPages + swapClusterCount ≤ 2 ^ 31) :
    Total (directAllocatePageAsynch nrPages 12) e fun _ _ => True := by
  rw [directAllocate_eq]
  refine .act rfl (.act rfl ?_)
  rw [Prog.ret_bind]
  show Total (Prog.loop (reclaimRound nrPages _ (e.sh.toScan 12)) _) e _
  unfold Shared.toScan
  have hstart := Draining.start hu hal
  generalize (e.sh.fifos.seq .inactiveList).length = len at hstart ⊢
  generalize int32 ((e.sh.fifos.seq .activeList).length >>> 12 : Nat) = b
  refine total_loop (fun x e => Draining len x.1 x.2.1 x.2.2 e)
    (fun x => (nrPages - x.1).toNat) ?_ hstart
  rintro ⟨reclaimed, sa, si⟩ e h
  dsimp only at h ⊢
  obtain ⟨hr, ha, hclusters⟩ := id h.counters
  have hall := h.all
  by_cases hc : si < int32 (len >>> 12 : Nat) ∧ reclaimed < nrPages
  · have hroom : si + swapClusterCount < 2 ^ 31 := h.counters.room hfits (hall ▸ hc.2)
    have hlong := cluster_left hc.1 (by omega)
    refine (total_drainingRound h hc.1 hc.2 hroom (by omega)).mono ?_
    rintro r e' ⟨sa', rfl, h'⟩
    exact .inl ⟨_, rfl, h', scans_fall hc.2⟩
  · unfold reclaimRound
    dsimp only
    rw [if_neg hc]
    exact .ret (.inr ⟨_, rfl, trivial⟩)

/-- A pass over unaccessed pages runs over where both bounds are too near to the end of int. -/
theorem aborts_drainingPass (hu : Unaccessed e)
    (hal : ∀ d, e.sh.inUse d → (e.sh.page d).va % pageSize = 0)
    (hscan : 2 ^ 31 < e.sh.toScan 12 + swapClusterCount)
    (hpos : 2 ^ 31 < nrPages + swapClusterCount) :
    ∃ e', Aborts (directAllocatePageAsynch nrPages 12) e .intOverflow e' := by
  suffices hrounds : ∃ e', Aborts (Prog.loop (reclaimRound nrPages
    (int32 ((e.sh.fifos.seq .activeList).length >>> 12 : Nat)) (e.sh.toScan 12)) (0, 0, 0))
    e .intOverflow e' by
    obtain ⟨e', ha⟩ := hrounds
    exact ⟨e', .act rfl (.act rfl ha)⟩
  have hstart := Draining.start hu hal
  unfold Shared.toScan at hscan ⊢
  generalize (e.sh.fifos.seq .inactiveList).length = len at hscan hstart ⊢
  generalize int32 ((e.sh.fifos.seq .activeList).length >>> 12 : Nat) = b
  have hcast : ((swapClusterCount : Nat) : Int) = 32 := rfl
  rw [hcast] at hscan hpos
  refine aborts_loop (fun m (x : Int × Int × Int) e =>
    x.1 = m * 32 ∧ Draining len x.1 x.2.1 x.2.2 e) (2 ^ 26 - 1) ?_ ?_ ⟨rfl, hstart⟩
  · rintro m ⟨reclaimed, sa, si⟩ e hm ⟨hm', h⟩
    dsimp only at hm' h
    have hall := h.all
    have hlong : si + swapClusterCount ≤ len := cluster_left (by omega) (by omega)
    have hscan : si < int32 (len >>> 12 : Nat) := by omega
    have hpos : reclaimed < nrPages := by omega
    have hroom : si + swapClusterCount < 2 ^ 31 := by
      rw [hcast]
      omega
    obtain ⟨r, e', hr, sa', rfl, h'⟩ :=
      (total_drainingRound (b := b) h hscan hpos hroom (by omega)).runs
    refine ⟨_, e', hr, ?_, h'⟩
    rw [hcast]
    push_cast
    omega
  · rintro ⟨reclaimed, sa, si⟩ e ⟨hm, h⟩
    dsimp only at hm h
    have hall := h.all
    have hlong : si + swapClusterCount ≤ len := cluster_left (by omega) (by omega)
    exact aborts_drainingRound h (by omega) (by omega) (by rw [hcast]; omega) (by omega)

theorem Unaccessed.waking (h : Unaccessed e) (b : Bool) : Unaccessed (e.waking b) := h

/-- A pass with nothing to scan or to reclaim leaves the lists as they are. -/
theorem after_kswapdIdle (h : ¬ (0 < int32 ((e.sh.fifos.seq .inactiveList).length >>> 12 : Nat) ∧
      0 < int32 (excess e))) : After lrudiskSynchkswapd e fun _ e' => e'.sh.fifos = e.sh.fifos := by
  refine after_kswapdPass (fun _ _ h => h) (fun _ => rfl) fun hpos => ?_
  have hidle : After (directAllocatePageAsynch (int32 (excess e)) 12) (e.waking true) _ :=
    after_directIdle h
  refine hidle.mono ?_
  rintro _ e' rfl
  rfl

theorem not_advances (h : e'.sh.fifos = e.sh.fifos) : ¬ Advances e e' := by
  unfold Advances Shared.list
  rw [h]
  rintro (⟨d, h₁, h₂⟩ | ⟨d, h₁, h₂⟩)
  · exact h₂ h₁
  · rw [h₁] at h₂
    cases h₂

/-- One pass over unaccessed pages above the low watermark makes progress if and only if the
inactive list shifted by the priority and the excess are both positive as values of C's `int`,
one of them with room for a cluster below `INT_MAX`: the inactive list needs at least 4096 pages. -/
theorem kswapd_progress_iff (hu : Unaccessed e)
    (hal : ∀ d, e.sh.inUse d → (e.sh.page d).va % pageSize = 0) (_ : 0 < excess e) :
    Total lrudiskSynchkswapd e (fun _ e' => Advances e e') ↔
      (0 < int32 ((e.sh.fifos.seq .inactiveList).length >>> 12 : Nat) ∧ 0 < int32 (excess e)) ∧
      (int32 ((e.sh.fifos.seq .inactiveList).length >>> 12 : Nat) + swapClusterCount ≤ 2 ^ 31 ∨
        int32 (excess e) + swapClusterCount ≤ 2 ^ 31) := by
  constructor
  · intro h
    refine ⟨?_, ?_⟩
    · obtain ⟨u, e', hrun, hadv⟩ := h.runs
      by_contra hc
      exact not_advances (after_kswapdIdle hc u e' hrun) hadv
    · by_contra hc
      rw [not_or, Int.not_le, Int.not_le] at hc
      obtain ⟨e', ha⟩ := aborts_drainingPass (hu.waking true) hal hc.1 hc.2
      have hpos : 0 < int32 (excess e) := by
        unfold swapClusterCount at hc
        omega
      exact h.not_aborts _ _ (aborts_kswapdPass hpos ha)
  · rintro ⟨⟨hscan, hpos⟩, hfits⟩
    have hends : Total lrudiskSynchkswapd e fun _ _ => True := by
      rcases hfits with hfits | hfits
      · exact total_lrudiskSynchkswapd hal (.inr hfits)
      · exact total_kswapdPass fun _ => total_drainingPass (hu.waking true) hal hfits
    refine hends.strengthen ?_
    refine after_kswapdPass (R := Advances e) (fun _ _ h => h) (fun hle => by omega) fun _ => ?_
    have hpass : After (directAllocatePageAsynch (int32 (excess e)) 12) (e.waking true) _ :=
      after_directProgress (hu.waking true)
    refine hpass.mono ?_
    rintro _ e' ⟨added, hr, hadd⟩
    exact hr.advances (hadd hscan hpos)

private theorem env_start (e : Env) :
    (⟨(System.start e).sh, (System.start e).loc 0⟩ : Env) = e := by
  simp [System.start, System.idle]

/-- A prefetch of the pages from the first mapped one on. -/
def prefetchStep : Nat × List Nat × Paging Unit :=
  (3000, [], do let _ ← coreTryPrefetch (smallBase - pageSize); pure ())

theorem operation_prefetchStep : Operation prefetchStep.2.2 := .prefetch _

/-- On a machine of two pages of DRAM and eight of disk, four pages are loaded from and the
first two are brought back by a prefetch, so that they are not accessed. -/
def prefetchedStory : List (Nat × List Nat × Paging Unit) :=
  [mapStep, loadStep 0, loadStep 1, loadStep 2, loadStep 3, prefetchStep]

def prefetchedMachine : Env := roomyMachine.story prefetchedStory

private theorem paused_prefetched :
    Paused (2 * pageSize) (8 * pageSize) (System.start prefetchedMachine) := by
  refine launched_roomyMachine.paused (l := prefetchedStory) ?_ (by decide +kernel)
  simp only [prefetchedStory, List.forall_mem_cons]
  exact ⟨operation_mapStep, operation_loadStep 0, operation_loadStep 1, operation_loadStep 2,
    operation_loadStep 3, operation_prefetchStep, by simp⟩

private theorem unaccessed_prefetched : Unaccessed prefetchedMachine := by
  have hall : ∀ d ∈ prefetchedMachine.sh.used,
      prefetchedMachine.sh.accessedAt (prefetchedMachine.sh.page d).va = false := by
    decide +kernel
  exact ⟨by decide +kernel, fun d hd => hall d ((mem_used _ _).mpr hd)⟩

theorem kswapd_progress_iff_prefetched :
    Unaccessed prefetchedMachine ∧ 0 < excess prefetchedMachine ∧
    (Total lrudiskSynchkswapd prefetchedMachine (fun _ e' => Advances prefetchedMachine e') ↔
        (0 < int32 ((prefetchedMachine.sh.fifos.seq .inactiveList).length >>> 12 : Nat) ∧
        0 < int32 (excess prefetchedMachine)) ∧ (int32
        ((prefetchedMachine.sh.fifos.seq .inactiveList).length >>> 12 : Nat) + swapClusterCount ≤
        2 ^ 31 ∨ int32 (excess prefetchedMachine) + swapClusterCount ≤ 2 ^ 31)) := by
  have hal : ∀ d ∈ prefetchedMachine.sh.used, (prefetchedMachine.sh.page d).va % pageSize = 0 := by
    decide +kernel
  have hlow : 0 < excess prefetchedMachine := by decide +kernel
  exact ⟨unaccessed_prefetched, hlow,
    kswapd_progress_iff unaccessed_prefetched (fun d hd => hal d ((mem_used _ _).mpr hd)) hlow⟩

/-- Between two operations two unaccessed pages, one above the watermark, stay where they are. -/
theorem kswapd_idles :
    ∃ c, Paused (2 * pageSize) (8 * pageSize) c ∧
      Unaccessed ⟨c.sh, c.loc 0⟩ ∧ 0 < excess ⟨c.sh, c.loc 0⟩ ∧
      ∃ e', Runs lrudiskSynchkswapd ⟨c.sh, c.loc 0⟩ () e' ∧ ¬ Advances ⟨c.sh, c.loc 0⟩ e' := by
  have hidle :
      ¬ 0 < int32 ((prefetchedMachine.sh.fifos.seq .inactiveList).length >>> 12 : Nat) := by
    decide +kernel
  refine ⟨System.start prefetchedMachine, paused_prefetched, ?_⟩
  rw [env_start]
  have hend : (exec 200 [] lrudiskSynchkswapd prefetchedMachine).isSome = true := by decide +kernel
  have hrun := runs_after hend
  exact ⟨unaccessed_prefetched, by decide +kernel, _, hrun,
    not_advances (after_kswapdIdle (fun h => hidle h.1) _ _ hrun)⟩

end ExtMem
