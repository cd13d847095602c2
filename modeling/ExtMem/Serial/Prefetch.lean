import ExtMem.Serial.Swapin

/-! Prefetching, run alone: the pages that are claimed, the frames that are fetched for them
and how they are brought in one by one. -/
namespace ExtMem
open Threads Threads.Prog

variable {n : Nat} {frames : List Frame} {hand : PageId → Option Hand} {k k' : Skeleton}
  {d r : PageId} {e : Env}
  {ds rs : List PageId}

/-- Some pages are detached and some descriptors are spare besides what is in hand already. -/
def holding (hand : PageId → Option Hand) (ds rs : List PageId) : PageId → Option Hand := fun x =>
  if x ∈ rs then some .spare else if x ∈ ds then some .detached else hand x

@[simp] theorem holding_nil (hand : PageId → Option Hand) : holding hand [] [] = hand := by
  funext x
  simp [holding]

theorem holding_detach (hand : PageId → Option Hand) (ds : List PageId) (d : PageId) :
    Function.update (holding hand ds []) d (some .detached) = holding hand (ds ++ [d]) [] := by
  funext x
  by_cases hx : x = d
  · subst hx
    simp [holding]
  · simp [holding, hx]

theorem holding_spare (hand : PageId → Option Hand) (ds rs : List PageId) (r : PageId) :
    Function.update (holding hand ds rs) r (some .spare) = holding hand ds (rs ++ [r]) := by
  funext x
  by_cases hx : x = r
  · subst hx
    simp [holding]
  · simp [holding, hx]

/-- A page that may be prefetched: swapped out and not under migration. -/
def Skeleton.Waits (k : Skeleton) (a : Nat) (d : PageId) : Prop :=
  k.pages a = some d ∧ (k.page d).migrating = false ∧ (k.page d).swappedOut = true

/-- The page at this address is swapped out and nobody is at work on it. -/
def Shared.waits (s : Shared) (a : Nat) : Bool :=
  (s.pages a).any fun d => !(s.page d).migrating && (s.page d).swappedOut

/-- The page is claimed and taken off its list. -/
def Skeleton.detach (k : Skeleton) (d : PageId) : Skeleton :=
  (k.write d fun p => { p with migrating := true }).unlink d

theorem Skeleton.page_detach_self (k : Skeleton) (d : PageId) :
    (k.detach d).page d = { k.page d with migrating := true } := by simp [detach]

theorem Skeleton.page_detach_of_ne (k : Skeleton) {d x : PageId} (h : x ≠ d) :
    (k.detach d).page x = k.page x := by
  rw [detach, page_unlink, page_write_of_ne _ _ h]

theorem after_prefetchNext {a : Nat} (hk : e.sh.skeleton = k) (h : Whole n frames hand k) :
    After (prefetchNext a) e fun o e' => match o with
      | none => e'.sh.skeleton = k ∧ ∀ d, ¬ k.Waits a d
      | some d => k.Waits a d ∧ k.list d = some .diskActiveList ∧ e'.sh.skeleton = k.detach d := by
  unfold prefetchNext
  refine after_then (R := fun o e' => o = k.pages a ∧ e'.sh.skeleton = k) ?_ fun o e ⟨ho, hk⟩ => ?_
  · subst hk
    refine (after_atomic _ _ _).mpr fun o e' he => ?_
    split at he
    · next hp =>
      cases he
      exact ⟨hp.symm, rfl⟩
    · next d hp =>
      cases he
      exact ⟨hp.symm, rfl⟩
  subst ho
  cases hp : k.pages a with
  | none =>
    refine (after_pure _ _ _).mpr ⟨hk, fun d hw => ?_⟩
    rw [hw.1] at hp
    cases hp
  | some d =>
    have hva := h.va_of_hash hp
    refine after_still hk (by simp) fun _ e hk => after_field hk ?_
    refine after_then (after_claimSwapin hk) fun c e hc =>
      after_still rfl (by simp) fun _ e' hk' => ?_
    unfold Claimed at hc
    refine (after_ite _ _ _ _).mpr ⟨fun hmine => ?_, fun hmine => ?_⟩
    · rw [if_pos hmine] at hc
      obtain ⟨hm, hs, -, hk⟩ := hc
      rw [hk] at hk'
      refine after_still hk' (by simp) fun _ e' hk' => ?_
      refine after_then (after_detach hk') fun _ e' ⟨hl, hk'⟩ => (after_pure _ _ _).mpr ?_
      exact ⟨⟨hp, hm, hs⟩, hl, hk'⟩
    · rw [if_neg hmine] at hc
      refine (after_pure _ _ _).mpr ⟨hk'.trans hc.2, fun d' hw => ?_⟩
      have hd' : d' = d := by
        have hq := hw.1
        rw [hp, Option.some.injEq] at hq
        exact hq.symm
      subst hd'
      rcases hc.1 with hm | hs | hv
      · rw [hw.2.1] at hm
        cases hm
      · rw [hw.2.2] at hs
        cases hs
      · simp at hv

/-- The pages that a prefetch has claimed: at one address after the other, the state before each
claim having the earlier pages detached; what ended the run of claims. -/
inductive Run : Nat → Nat → Skeleton → List PageId → Skeleton → Prop where
  | full (a : Nat) (k : Skeleton) : Run 0 a k [] k
  | stop {left a : Nat} {k : Skeleton} :
    (∀ d, ¬ k.Waits (add64 a pageSize) d) → Run (left + 1) a k [] k
  | next {left a : Nat} {k k' : Skeleton} {d : PageId} {ds : List PageId} :
    k.Waits (add64 a pageSize) d →
      k.list d = some .diskActiveList → Run left (add64 a pageSize) (k.detach d) ds k' →
        Run (left + 1) a k (d :: ds) k'

theorem after_prefetchList {left a : Nat} (hk : e.sh.skeleton = k) (h : Whole n frames hand k) :
    After (prefetchList left a) e fun ds e' => Run left a k ds e'.sh.skeleton := by
  induction left generalizing a e k hand with
  | zero =>
    refine (after_pure _ _ _).mpr ?_
    rw [hk]
    exact .full a k
  | succ left ih =>
    unfold prefetchList
    refine after_then (after_prefetchNext hk h) fun o e ho => ?_
    cases o with
    | none =>
      refine (after_pure _ _ _).mpr ?_
      rw [ho.1]
      exact .stop ho.2
    | some d =>
      obtain ⟨hw, hl, hk⟩ := ho
      exact after_then (ih hk (h.detach hl)) fun ds e hr => (after_pure _ _ _).mpr (.next hw hl hr)

/-- What a run of claims leaves: its pages are different and in hand. -/
theorem Run.whole {left a : Nat} {ds₀ : List PageId} (hr : Run left a k ds k')
    (h : Whole n frames (holding hand ds₀ []) k) :
    Whole n frames (holding hand (ds₀ ++ ds) []) k' ∧ ds.Nodup ∧
    (∀ d ∈ ds, holding hand ds₀ [] d = none) ∧ k'.pages = k.pages ∧ k'.vma = k.vma ∧
    k'.lock = k.lock ∧ k'.shrinking = k.shrinking ∧ (∀ x, x ∉ ds → k'.page x = k.page x) ∧
    (∀ x ∈ ds, k'.page x = { k.page x with migrating := true }) ∧ ds.length ≤ left := by
  induction hr generalizing ds₀ with
  | full a k =>
    exact ⟨by rwa [List.append_nil], List.nodup_nil, by simp, rfl, rfl, rfl, rfl, fun _ _ => rfl,
      by simp, Nat.le_refl _⟩
  | stop _ =>
    exact ⟨by rwa [List.append_nil], List.nodup_nil, by simp, rfl, rfl, rfl, rfl, fun _ _ => rfl,
      by simp, Nat.zero_le _⟩
  | @next left a k k' d ds hw hl _ ih =>
    have hd := h.detach hl
    rw [holding_detach] at hd
    obtain ⟨h₁, h₂, h₃, h₄, h₅, h₆, h₇, h₈, h₉, h₁₀⟩ := ih hd
    have hout := h.hand_of_list hl
    have hnotin : d ∉ ds := by
      intro hm
      have := h₃ d hm
      simp [holding] at this
    refine ⟨by rwa [List.append_assoc] at h₁, List.nodup_cons.mpr ⟨hnotin, h₂⟩, fun x hx => ?_, h₄,
      h₅, h₆, h₇, fun x hx => ?_, fun x hx => ?_, Nat.succ_le_succ h₁₀⟩
    · rcases List.mem_cons.mp hx with rfl | hx
      · exact hout
      · have hx' := h₃ x hx
        simp only [holding, List.not_mem_nil, if_false, List.mem_append,
          List.mem_singleton] at hx' ⊢
        by_cases hm : x ∈ ds₀ ∨ x = d
        · rw [if_pos hm] at hx'
          cases hx'
        · rw [if_neg hm] at hx'
          rw [if_neg fun hc => hm (.inl hc)]
          exact hx'
    · rw [List.mem_cons, not_or] at hx
      rw [h₈ x hx.2]
      exact k.page_detach_of_ne hx.1
    · rcases List.mem_cons.mp hx with rfl | hm
      · rw [h₈ x hnotin]
        exact k.page_detach_self x
      · have hne : x ≠ d := fun he => hnotin (he ▸ hm)
        rw [h₉ x hm, k.page_detach_of_ne hne]

/-- Put into place, a prefetched page is brought in like any other. -/
theorem after_prefetchFinish {i : Nat} (hk : e.sh.skeleton = k) (hne : r ≠ d) :
    After (prefetchFinish ((d, i), r)) e fun _ e' => e'.sh.skeleton = k.bringIn d r := by
  unfold prefetchFinish
  refine after_still hk (by simp) fun _ e hk => ?_
  refine after_then (R := fun _ e' => k.list r = none ∧ k.list d = none ∧
    e'.sh.skeleton = ((((k.write r (·.kept (k.page d).virtualOffset d)).write d fun p =>
    { p with virtualOffset := (k.page r).virtualOffset, hasReserve := true, reserve := some r }).link
    .diskReserveList r).link .inactiveList d)) ?_ fun _ e ⟨hr, hd, hk⟩ => ?_
  · unfold lrudiskAckSwapin
    refine after_still hk (within_modify fun _ => .of_eq rfl rfl) fun _ e hk =>
      after_field hk (after_field hk ?_)
    refine after_still hk (by simp) fun _ e hk =>
      after_still hk (by simp) fun _ e hk => after_still hk (by simp) fun _ e hk => ?_
    refine after_still hk (by simp) fun _ e hk => after_still hk (by simp) fun _ e hk => ?_
    refine after_setPage hk fun e hk => after_setPage hk fun e hk => ?_
    refine (after_publishSwapin hk hne).mono fun _ e ⟨hr, hd, hk⟩ => ⟨hr, hd, ?_⟩
    rw [hk]
    congr 2
    refine Skeleton.ext (funext fun x => ?_) rfl rfl rfl rfl rfl rfl
    by_cases h₁ : x = r
    · subst h₁
      simp [Skeleton.write, UserPage.kept, hne, hne.symm]
    · by_cases h₂ : x = d
      · subst h₂
        simp [Skeleton.write, h₁]
      · simp [Skeleton.write, h₁, h₂]
  · refine after_setPage hk fun e hk => (after_finishSwapin hk).mono fun _ e hk => ?_
    rw [hk]
    refine Skeleton.ext (funext fun x => ?_) rfl rfl rfl rfl rfl rfl
    by_cases h₁ : x = r
    · subst h₁
      simp [Skeleton.write, Skeleton.link, Skeleton.bringIn, UserPage.kept, hne, hne.symm]
    · by_cases h₂ : x = d
      · subst h₂
        simp [Skeleton.write, Skeleton.link, Skeleton.bringIn, UserPage.broughtIn, h₁]
      · simp [Skeleton.write, Skeleton.link, Skeleton.bringIn, h₁, h₂]

theorem after_lrudiskPagefault (hk : e.sh.skeleton = k) (h : Whole n frames hand k) :
    After lrudiskPagefault e fun r e' =>
        ∃ k₁, Whole n frames (Function.update hand r (some .spare)) k₁ ∧ hand r = none ∧
      Reclaim hand k k₁ ∧ (k.shrinking = false → k₁.shrinking = false) ∧
      e'.sh.skeleton = k₁.write r fun p => { p with migrating := true } := by
  unfold lrudiskPagefault
  refine after_then (after_fetchFreeAsynch hk h) fun r e ⟨hw, hr, hrec, hs⟩ => ?_
  exact after_setPage rfl fun e' hk' => (after_pure _ _ _).mpr ⟨_, hw, hr, hrec, hs, hk'⟩

/-- A fetched frame in hand, the flag of its descriptor set. -/
theorem fetched_marked {k₁ : Skeleton}
    (hw : Whole n frames (Function.update hand r (some .spare)) k₁)
    (hr : hand r = none) (hrec : Reclaim hand k k₁) :
    Whole n frames (Function.update hand r (some .spare))
        (k₁.write r fun p => { p with migrating := true }) ∧
    Reclaim hand k (k₁.write r fun p => { p with migrating := true }) := by
  refine ⟨hw.markSpare (by simp), hrec.pages, hrec.vma, hrec.lock, fun x => ?_, fun x hx => ?_⟩
  · by_cases hx : x = r
    · subst hx
      rw [Skeleton.page_write_self]
      exact hrec.va x
    · rw [Skeleton.page_write_of_ne _ _ hx]
      exact hrec.va x
  · have hne : x ≠ r := by
      rintro rfl
      exact hx hr
    rw [Skeleton.page_write_of_ne _ _ hne]
    exact hrec.held x hx

/-- What the fetching of frames for a prefetch keeps: one more frame for each page done. -/
structure Fetching (n : Nat) (frames : List Frame) (hand : PageId → Option Hand) (ds : List PageId)
    (k : Skeleton) (rs : List PageId) (e : Env) : Prop where
  whole : Whole n frames (holding hand ds rs) e.sh.skeleton
  fresh : rs.Nodup ∧ ∀ r ∈ rs, holding hand ds [] r = none
  reclaim : Reclaim (holding hand ds []) k e.sh.skeleton
  shrinking : k.shrinking = false → e.sh.skeleton.shrinking = false

theorem Fetching.step {ds rs : List PageId} (h : Fetching n frames hand ds k rs e) :
    After lrudiskPagefault e fun r e' => Fetching n frames hand ds k (rs ++ [r]) e' := by
  refine (after_lrudiskPagefault rfl h.whole).mono fun r e' ⟨k₁, hw, hr, hrec, hs, hk'⟩ => ?_
  obtain ⟨hw', hrec'⟩ := fetched_marked hw hr hrec
  rw [← hk'] at hw' hrec'
  rw [holding_spare] at hw'
  have hnot : r ∉ rs := by
    intro hm
    simp [holding, hm] at hr
  have hbase : holding hand ds [] r = none := by
    simp only [holding, hnot, if_false] at hr
    simpa [holding] using hr
  refine ⟨hw', ⟨?_, fun x hx => ?_⟩,
    h.reclaim.trans ⟨hrec'.pages, hrec'.vma, hrec'.lock, hrec'.va, fun x hx => ?_⟩, fun hk => ?_⟩
  · simpa using h.fresh.1.concat hnot
  · rcases List.mem_append.mp hx with hx | hx
    · exact h.fresh.2 x hx
    · rw [List.mem_singleton] at hx
      rw [hx]
      exact hbase
  · refine hrec'.held x fun hc => hx ?_
    simp only [holding] at hc
    split at hc
    · cases hc
    · simpa [holding] using hc
  · rw [hk']
    exact hs (h.shrinking hk)

/-- What is in hand while prefetched pages are put into place. -/
theorem holding_done {ds rs : List PageId} (hd : d ∉ ds) (hr : r ∉ rs) (hdr : d ∉ rs) (hrd : r ∉ ds)
    (hhd : hand d = none) (hhr : hand r = none) :
    Function.update (Function.update (holding hand (d :: ds) (r :: rs)) d none) r none =
      holding hand ds rs := by
  funext x
  by_cases h₁ : x = r
  · subst h₁
    simp [holding, hr, hrd, hhr]
  · rw [Function.update_of_ne h₁]
    by_cases h₂ : x = d
    · subst h₂
      simp [holding, hd, hdr, hhd]
    · rw [Function.update_of_ne h₂]
      simp [holding, h₁, h₂]

theorem reclaim_bringIn (hd : hand d = none) (hr : hand r = none) :
    Reclaim hand k (k.bringIn d r) := by
  refine ⟨rfl, rfl, rfl, fun x => ?_, fun x hx => ?_⟩
  · simp only [Skeleton.bringIn, Function.update_apply]
    by_cases h₁ : x = r
    · rw [if_pos h₁, h₁]
      rfl
    · rw [if_neg h₁]
      by_cases h₂ : x = d
      · rw [if_pos h₂, h₂]
        rfl
      · rw [if_neg h₂]
  · have h₁ : x ≠ r := by
      rintro rfl
      exact hx hr
    have h₂ : x ≠ d := by
      rintro rfl
      exact hx hd
    simp [Skeleton.bringIn, h₁, h₂]

structure Finishing (n : Nat) (frames : List Frame) (hand : PageId → Option Hand) (k : Skeleton)
    (todo : List ((PageId × Nat) × PageId)) (e : Env) : Prop where
  whole : Whole n frames (holding hand (todo.map (·.1.1)) (todo.map (·.2))) e.sh.skeleton
  nodup : (todo.map (·.1.1)).Nodup ∧ (todo.map (·.2)).Nodup
  apart : ∀ x ∈ todo.map (·.1.1), x ∉ todo.map (·.2)
  fresh : (∀ x ∈ todo.map (·.1.1), hand x = none) ∧ ∀ x ∈ todo.map (·.2), hand x = none
  reclaim : Reclaim hand k e.sh.skeleton
  shrinking : k.shrinking = false → e.sh.skeleton.shrinking = false

theorem Finishing.step {x : (PageId × Nat) × PageId} {todo : List ((PageId × Nat) × PageId)}
    (h : Finishing n frames hand k (x :: todo) e) :
    After (prefetchFinish x) e fun _ e' => Finishing n frames hand k todo e' := by
  obtain ⟨⟨d, i⟩, r⟩ := x
  obtain ⟨hw, ⟨hn₁, hn₂⟩, hapart, ⟨hf₁, hf₂⟩, hrec, hs⟩ := h
  simp only [List.map_cons, List.nodup_cons, List.mem_cons, not_or,
    forall_eq_or_imp] at hw hn₁ hn₂ hapart hf₁ hf₂
  refine (after_prefetchFinish rfl (Ne.symm hapart.1.1)).mono fun _ e' hk' => ?_
  have hrd : r ∉ todo.map (·.1.1) := fun hm => (hapart.2 r hm).1 rfl
  have hb :=
    hw.bringIn (d := d) (r := r) (by simp [holding, hapart.1.1, hapart.1.2]) (by simp [holding])
  rw [holding_done hn₁.1 hn₂.1 hapart.1.2 hrd hf₁.1 hf₂.1, ← hk'] at hb
  have hrec' := hrec.trans (reclaim_bringIn (k := e.sh.skeleton) hf₁.1 hf₂.1)
  rw [← hk'] at hrec'
  refine ⟨hb, ⟨hn₁.2, hn₂.2⟩, fun x hx => (hapart.2 x hx).2, ⟨hf₁.2, hf₂.2⟩, hrec', fun hk => ?_⟩
  rw [hk']
  exact hs hk

theorem after_coreTryPrefetch {base : Nat} (hk : e.sh.skeleton = k) (h : Whole n frames hand k) :
    After (coreTryPrefetch base) e fun _ => Rested n frames hand k := by
  unfold coreTryPrefetch
  refine after_check fun _ => after_then (after_prefetchList hk h) fun ds e hr => ?_
  have h₀ : Whole n frames (holding hand [] []) k := by simpa using h
  obtain ⟨h₁, h₂, h₃, h₄, h₅, h₆, h₇, h₈, h₉, -⟩ := hr.whole h₀
  rw [List.nil_append] at h₁
  rw [holding_nil] at h₃
  generalize hk₁ : e.sh.skeleton = k₁ at *
  refine after_still hk₁ (by simp) fun _ e hk₁ => after_still hk₁ (by simp) fun _ e hk₁ => ?_
  refine after_still hk₁ (always_each fun x => by simp) fun _ e hk₁ =>
    after_still hk₁ (within_submit transferring_still _) fun _ e hk₁ => ?_
  have hrec : Reclaim hand k k₁ := by
    refine ⟨h₄, h₅, h₆, fun x => ?_, fun x hx => h₈ x fun hm => hx (h₃ x hm)⟩
    by_cases hx : x ∈ ds
    · rw [h₉ x hx]
    · rw [h₈ x hx]
  refine after_then (after_collect (fun todo rs e => rs.length + todo.length = ds.length ∧
    Fetching n frames hand ds k₁ rs e) ⟨by simp, ?_⟩ ?_) fun rs e ⟨hlen, hf⟩ => ?_
  · refine ⟨by rwa [hk₁], ⟨List.nodup_nil, by simp⟩, ?_, ?_⟩
    · rw [hk₁]
      exact .refl _ _
    · rw [hk₁]
      exact id
  · rintro x todo rs e ⟨hlen, hf⟩
    refine hf.step.mono fun r e' hf' => ⟨?_, hf'⟩
    simp only [List.length_append, List.length_cons, List.length_nil] at hlen ⊢
    omega
  have hwait (xs : List PageId) :
      Always Still (Prog.each (fun _ : PageId => ioringFinishRead) xs) :=
    always_each fun _ => within_ioringFinishRead transferring_still
  refine after_still rfl (hwait ds) fun _ e' hk' => ?_
  have hmap₁ : (ds.zipIdx.zip rs).map (·.1.1) = ds := by
    have hz : (ds.zipIdx.zip rs).map (·.1) = ds.zipIdx := by
      refine List.map_fst_zip ?_
      rw [List.length_zipIdx]
      simp only [List.length_nil] at hlen
      omega
    have hc : (ds.zipIdx.zip rs).map (·.1.1) = ((ds.zipIdx.zip rs).map (·.1)).map (·.1) := by
      rw [List.map_map]
      rfl
    rw [hc, hz]
    exact List.zipIdx_map_fst 0 ds
  have hmap₂ : (ds.zipIdx.zip rs).map (·.2) = rs := by
    refine List.map_snd_zip ?_
    rw [List.length_zipIdx]
    simp only [List.length_nil] at hlen
    omega
  refine after_then (after_each (Finishing n frames hand k) ?_ fun x todo e hx => hx.step)
    fun _ e'' hfin => ?_
  · have hspare (x : PageId) (hx : x ∈ rs) : hand x = none ∧ x ∉ ds := by
      have := hf.fresh.2 x hx
      simp only [holding, List.not_mem_nil, if_false] at this
      split at this
      · cases this
      · next hn => exact ⟨this, hn⟩
    refine ⟨?_, ?_, ?_, ?_, ?_, fun hs => ?_⟩
    · rw [hmap₁, hmap₂, hk']
      exact hf.whole
    · rw [hmap₁, hmap₂]
      exact ⟨h₂, hf.fresh.1⟩
    · rw [hmap₁, hmap₂]
      exact fun x hx hm => (hspare x hm).2 hx
    · rw [hmap₁, hmap₂]
      exact ⟨h₃, fun x hx => (hspare x hx).1⟩
    · rw [hk']
      refine hrec.trans ⟨hf.reclaim.pages, hf.reclaim.vma, hf.reclaim.lock, hf.reclaim.va,
        fun x hx => ?_⟩
      refine hf.reclaim.held x fun hc => hx ?_
      simp only [holding, List.not_mem_nil, if_false] at hc
      split at hc
      · cases hc
      · exact hc
    · rw [hk']
      refine hf.shrinking ?_
      rw [h₇]
      exact hs
  · refine (after_pure _ _ _).mpr ⟨⟨?_, hfin.reclaim⟩, hfin.shrinking⟩
    have hw := hfin.whole
    simpa using hw

end ExtMem
