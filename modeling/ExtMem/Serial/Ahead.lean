import ExtMem.Serial.Recall

/-! Pages that are prefetched have their bytes again as well, in whatever order their reads end. -/
namespace ExtMem
open Threads Threads.Prog

variable {n : Nat} {frames : List Frame} {hand : PageId → Option Hand} {k : Skeleton} {d r : PageId}
  {e e₀ e' : Env}
  {m : Nat → Bytes} {ds rs : List PageId} {g : Ground}

/-! The reads are prepared. -/

/-- The read of one page of the list into its slot. -/
def slotRequest (k : Skeleton) (x : PageId × Nat) : Sqe :=
  ⟨false, (k.page x.1).virtualOffset.offset, .prefetchSlot x.2, pageSize⟩

/-- Some reads are prepared, none is under way. -/
private def Lined (k : Skeleton) (g : Ground) (xs : List (PageId × Nat)) (e : Env) : Prop :=
  ∃ b, e.ground = { g with reads := ⟨b, xs.map (slotRequest k), []⟩ } ∧ (b = false → xs = [])

private theorem Lined.step {xs : List (PageId × Nat)} (h : Lined k g xs e)
    (hk : e.sh.skeleton = k) (x : PageId × Nat) :
    After (prefetchSubmit x) e fun _ e' => e'.sh.skeleton = k ∧ Lined k g (xs ++ [x]) e' := by
  obtain ⟨b, hg, hb⟩ := h
  unfold prefetchSubmit ioringPrepareRead
  have hinit : e.ground.reads = ⟨false, [], []⟩ ∨ e.ground.reads.init = true := by
    cases b with
    | true => exact .inr (by rw [hg])
    | false => exact .inl (by rw [hg, hb rfl]; rfl)
  refine after_field hk (after_then ((after_still_last hk (by simp)).and (after_initReads hinit))
    fun _ e₁ ⟨hk₁, hg₁⟩ => ?_)
  refine ((after_still_last hk₁ (by simp)).and (after_prepRead _)).mono fun _ e₂ ⟨hk₂, hg₂⟩ =>
    ⟨hk₂, true, ?_, by simp⟩
  rw [hg₂, hg₁, hg, List.map_append]
  rfl

private theorem after_submitAll {xs done : List (PageId × Nat)}
    (h : Lined k g done e) (hk : e.sh.skeleton = k) :
    After (Prog.each prefetchSubmit xs) e fun _ e' =>
        e'.sh.skeleton = k ∧ Lined k g (done ++ xs) e' := by
  induction xs generalizing done e with
  | nil => exact (after_pure _ _ _).mpr ⟨hk, by rwa [List.append_nil]⟩
  | cons x xs ih =>
    refine after_then (h.step hk x) fun _ e₁ ⟨hk₁, h₁⟩ => ?_
    have hrest := ih h₁ hk₁
    rwa [List.append_assoc] at hrest

/-! The reads end. -/

/-- Every slot is filled or its read is under way. -/
private structure Filling (k : Skeleton) (g : Ground) (xs : List (PageId × Nat)) (left : Nat)
    (g' : Ground) : Prop where
  pte : g'.pte = g.pte
  disk : g'.disk = g.disk
  writes : g'.writes = g.writes
  faulty : g'.faulty = g.faulty
  ring : g'.reads.init = true ∧ g'.reads.sq = []
  length : g'.reads.outstanding.length = left
  asked : ∀ q ∈ g'.reads.outstanding, ∃ x ∈ xs, q = slotRequest k x
  filled : ∀ x ∈ xs, slotRequest k x ∈ g'.reads.outstanding ∨
    g'.slots x.2 = g.disk (k.page x.1).virtualOffset.offset

private theorem Filling.step {xs : List (PageId × Nat)} {left : Nat}
    (h : Filling k g xs (left + 1) e.ground) (hf : g.faulty = false)
    (hx : ∀ x ∈ xs, ∀ y ∈ xs, x.2 = y.2 → x.1 = y.1) :
    After ioringFinishRead e fun _ e' => Filling k g xs left e'.ground := by
  refine after_then (after_grounded (by simp)) fun _ e₁ hg₁ => ?_
  have hf₁ : e₁.sh.faulty = false := (congrArg Ground.faulty hg₁).trans (h.faulty.trans hf)
  refine (after_waitRead hf₁ fun q hq => ?_).mono fun _ e₂ ⟨q, hq, hg₂⟩ => ?_
  · rw [hg₁] at hq
    obtain ⟨x, -, rfl⟩ := h.asked q hq
    exact ⟨rfl, rfl⟩
  · rw [hg₁] at hq hg₂
    obtain ⟨x, hxs, rfl⟩ := h.asked q hq
    have hg₂ : e₂.ground = { e.ground with
        reads :=
          { e.ground.reads with outstanding := e.ground.reads.outstanding.erase (slotRequest k x) }
        slots := Function.update e.ground.slots x.2 (e.ground.disk (k.page x.1).virtualOffset.offset) } := hg₂
    rw [hg₂]
    refine ⟨h.pte, h.disk, h.writes, h.faulty, h.ring, ?_,
      fun q hq' => h.asked q (List.mem_of_mem_erase hq'), fun y hy => ?_⟩
    · show (e.ground.reads.outstanding.erase (slotRequest k x)).length = left
      rw [List.length_erase_of_mem hq, h.length]
      rfl
    · show _ ∈ e.ground.reads.outstanding.erase (slotRequest k x) ∨
        Function.update e.ground.slots x.2 _ y.2 = _
      by_cases hxy : y.2 = x.2
      · right
        rw [hxy, Function.update_self, h.disk, hx y hy x hxs hxy]
      · rw [Function.update_of_ne hxy]
        refine (h.filled y hy).imp (fun hm => ?_) id
        refine (List.mem_erase_of_ne fun hc => hxy ?_).mpr hm
        have hb := congrArg Sqe.buffer hc
        simp only [slotRequest, Buffer.prefetchSlot.injEq] at hb
        exact hb

private theorem after_finishReads {xs : List (PageId × Nat)} {ys : List PageId}
    (h : Filling k g xs ys.length e.ground) (hf : g.faulty = false)
    (hx : ∀ x ∈ xs, ∀ y ∈ xs, x.2 = y.2 → x.1 = y.1) :
    After (Prog.each (fun _ => ioringFinishRead) ys) e fun _ e' => Filling k g xs 0 e'.ground := by
  induction ys generalizing e with
  | nil => exact (after_pure _ _ _).mpr h
  | cons y ys ih => exact after_then (h.step hf hx) fun _ e₁ h₁ => ih h₁

/-! The pages are put into place. -/

private theorem ground_prefetchFinish {i : Nat} :
    After (prefetchFinish ((d, i), r)) e fun _ e' => e'.ground = { e.ground with
      pte := Function.update e.sh.pte (e.sh.page d).va
        (some ⟨e.loc.prefetchBuffer i, false, false, false⟩) } := by
  unfold prefetchFinish
  refine after_then after_copyBytes fun _ e₁ ⟨bytes, hb, hg₁⟩ => ?_
  cases hb
  exact (after_grounded (always_bind (within_lrudiskAckSwapin relinking_ground d r) fun _ =>
    always_bind (by simp) fun _ => by simp)).mono fun _ _ h => h.trans hg₁

/-- What is left to put into place is in its slots. -/
private structure Landing (m : Nat → Bytes) (n : Nat) (frames : List Frame)
    (hand : PageId → Option Hand) (k : Skeleton) (todo : List ((PageId × Nat) × PageId))
    (e : Env) : Prop where
  finishing : Finishing n frames hand k todo e
  steady : Steady m e
  bytes : ∀ x ∈ todo, e.loc.prefetchBuffer x.1.2 = m (k.page x.1.1).va

private theorem Landing.step {x : (PageId × Nat) × PageId} {todo : List ((PageId × Nat) × PageId)}
    (h : Landing m n frames hand k (x :: todo) e) :
    After (prefetchFinish x) e fun _ e' => Landing m n frames hand k todo e' := by
  obtain ⟨⟨d, i⟩, r⟩ := x
  have hfin := h.finishing
  have hne : r ≠ d := fun hc => h.finishing.apart d (by simp) (by simp [hc])
  have hnot : d ∉ (((d, i), r) :: todo).map (·.2) := h.finishing.apart d (by simp)
  refine ((hfin.step.and (after_prefetchFinish rfl hne)).and ground_prefetchFinish).mono
    fun _ e' ⟨⟨hfin', hk'⟩, hg'⟩ => ?_
  have hslots : e'.loc.prefetchBuffer = e.loc.prefetchBuffer := congrArg Ground.slots hg'
  have hva : (e.sh.page d).va = (k.page d).va := h.finishing.reclaim.va d
  refine ⟨hfin', ?_, fun y hy => ?_⟩
  · refine Steady.bringIn (k := e.sh.skeleton) h.steady.start rfl h.finishing.whole ?_ ?_ ?_ hk'
      ⟨rfl, rfl, rfl⟩ h.steady.reads hg'
    · simp only [holding]
      rw [if_neg hnot, if_pos (by simp)]
    · simp [holding]
    · have hb := h.bytes _ List.mem_cons_self
      exact hb.trans (congrArg m hva.symm)
  · rw [hslots]
    exact h.bytes y (List.mem_cons_of_mem _ hy)

/-- Frames are fetched while the reads are under way. -/
theorem Sustained.pagefault (h : Sustained m e₀ e) (hk : e.sh.skeleton = k)
    (hw : Whole n frames hand k) (hf : frames.Nodup) :
    After lrudiskPagefault e fun _ e' => Sustained m e₀ e' := by
  refine after_then (h.fetchFreeAsynch hk hw hf) fun r e₁ h₁ => ?_
  exact after_then (h₁.after (gently_setPage r fun _ _ => rfl)) fun _ e₂ h₂ =>
    (after_pure _ _ _).mpr h₂

private theorem maps_zip (hlen : rs.length = ds.length) :
    (ds.zipIdx.zip rs).map (·.1.1) = ds ∧ (ds.zipIdx.zip rs).map (·.2) = rs ∧
    (ds.zipIdx.zip rs).map (·.1) = ds.zipIdx := by
  have hz : (ds.zipIdx.zip rs).map (·.1) = ds.zipIdx :=
    List.map_fst_zip (by rw [List.length_zipIdx, hlen])
  refine ⟨?_, List.map_snd_zip (by rw [List.length_zipIdx, hlen]), hz⟩
  have hc : (ds.zipIdx.zip rs).map (·.1.1) = ((ds.zipIdx.zip rs).map (·.1)).map (·.1) := by
    rw [List.map_map]
    rfl
  rw [hc, hz]
  exact List.zipIdx_map_fst 0 ds

/-- With all reads ended and all frames fetched the pages may land. -/
private theorem Landing.start {k₁ : Skeleton} (hnodup : ds.Nodup) (hheld : ∀ d ∈ ds, hand d = none)
    (hrec : Reclaim hand k k₁) (hshr : k₁.shrinking = k.shrinking) (hlen : rs.length = ds.length)
    (hf : Fetching n frames hand ds k₁ rs e) (hs : Steady m e)
    (hb : ∀ x ∈ ds.zipIdx, e.loc.prefetchBuffer x.2 = m (k.page x.1).va) :
    Landing m n frames hand k (ds.zipIdx.zip rs) e := by
  obtain ⟨hmap₁, hmap₂, hmap₃⟩ := maps_zip hlen
  have hspare (x : PageId) (hx : x ∈ rs) : hand x = none ∧ x ∉ ds := by
    have := hf.fresh.2 x hx
    simp only [holding, List.not_mem_nil, if_false] at this
    split at this
    · cases this
    · next hn => exact ⟨this, hn⟩
  refine ⟨⟨?_, ?_, ?_, ?_, ?_, fun hsh => hf.shrinking (hshr.trans hsh)⟩, hs, fun x hx => hb x.1 ?_⟩
  · rw [hmap₁, hmap₂]
    exact hf.whole
  · rw [hmap₁, hmap₂]
    exact ⟨hnodup, hf.fresh.1⟩
  · rw [hmap₁, hmap₂]
    exact fun x hx hm => (hspare x hm).2 hx
  · rw [hmap₁, hmap₂]
    exact ⟨hheld, fun x hx => (hspare x hx).1⟩
  · refine hrec.trans ⟨hf.reclaim.pages, hf.reclaim.vma, hf.reclaim.lock, hf.reclaim.va,
      fun x hx => ?_⟩
    refine hf.reclaim.held x fun hc => hx ?_
    simp only [holding, List.not_mem_nil, if_false] at hc
    split at hc
    · cases hc
    · exact hc
  · rw [← hmap₃]
    exact List.mem_map_of_mem hx

/-- Prefetching keeps the bytes of all pages. -/
theorem Steady.prefetch {base : Nat} (h : Steady m e) (hk : e.sh.skeleton = k)
    (hw : Whole n frames hand k) (hf : frames.Nodup) :
    After (coreTryPrefetch base) e fun _ e' => Steady m e' := by
  unfold coreTryPrefetch
  refine after_check fun _ =>
    after_then ((after_prefetchList hk hw).and (h.after (within_prefetchList claiming_gentle _ _)))
      fun ds e hrun =>
    ?_
  obtain ⟨hr, h⟩ := hrun
  have h₀ : Whole n frames (holding hand [] []) k := by simpa using hw
  obtain ⟨h₁, h₂, h₃, h₄, h₅, h₆, h₇, h₈, h₉, -⟩ := hr.whole h₀
  rw [List.nil_append] at h₁
  rw [holding_nil] at h₃
  generalize hk₁ : e.sh.skeleton = k₁ at *
  refine h.passes hk₁ (by simp) (by simp) fun _ e hk₁ h => ?_
  refine after_then (R := fun _ e' => e'.sh.skeleton = k₁ ∧ Steady m e') ?_ fun _ e hkept => ?_
  · refine (after_bind _ _ _ _).mpr ((after_read _ _ _).mpr
      ((after_ite _ _ _ _).mpr ⟨fun _ => (after_pure _ _ _).mpr ⟨hk₁, h⟩, fun _ => ?_⟩))
    exact (after_modify _ _ _).mpr ⟨hk₁, h.holds, h.idle, h.reads⟩
  obtain ⟨hk₁, h⟩ := hkept
  -- The reads are prepared and submitted.
  have hnone : Lined k₁ e.ground [] e := by
    rcases h.reads with hr | hr
    · exact ⟨false, by rw [List.map_nil, ← hr], fun _ => rfl⟩
    · exact ⟨true, by rw [List.map_nil, ← hr], fun _ => rfl⟩
  refine after_then (after_submitAll hnone hk₁) fun _ e₁ hlined => ?_
  obtain ⟨hk₂, b, hg₁, _⟩ := hlined
  refine after_then ((after_still_last hk₂ (within_submit transferring_still _)).and after_submitReads)
    fun _ e₂ hsubmitted => ?_
  obtain ⟨hk₂, hg₂, hi₂⟩ := hsubmitted
  have hg : e₂.ground = { e.ground with reads := ⟨true, [], ds.zipIdx.map (slotRequest k₁)⟩ } := by
    rw [hg₁] at hi₂
    have hi : b = true := hi₂
    rw [hg₂, hg₁, hi]
    rfl
  have hs₂ : Sustained m e₂ e₂ := h.request (hk₂.trans hk₁.symm) hg
  have hrec : Reclaim hand k k₁ := by
    refine ⟨h₄, h₅, h₆, fun x => ?_, fun x hx => h₈ x fun hm => hx (h₃ x hm)⟩
    by_cases hx : x ∈ ds
    · rw [h₉ x hx]
    · rw [h₈ x hx]
  -- The frames are fetched meanwhile.
  refine after_then (after_collect (fun todo rs e => rs.length + todo.length = ds.length ∧
    Fetching n frames hand ds k₁ rs e ∧ Sustained m e₂ e) ⟨by simp, ?_, hs₂⟩ ?_)
    fun rs e₃ hfetched => ?_
  · refine ⟨by rwa [hk₂], ⟨List.nodup_nil, by simp⟩, ?_, ?_⟩
    · rw [hk₂]
      exact .refl _ _
    · rw [hk₂]
      exact id
  · rintro x todo rs e ⟨hlen, hfet, hs⟩
    refine (hfet.step.and (hs.pagefault rfl hfet.whole hf)).mono fun r e' ⟨hfet', hs'⟩ =>
      ⟨?_, hfet', hs'⟩
    simp only [List.length_append, List.length_cons, List.length_nil] at hlen ⊢
    omega
  obtain ⟨hlen, hfet, hs₃⟩ := hfetched
  have hlen : rs.length = ds.length := by simpa using hlen
  -- The reads end in some order.
  have hpage (d : PageId) (hd : d ∈ ds) : e₃.sh.skeleton.page d = k₁.page d :=
    hfet.reclaim.held d (by simp [holding, hd])
  have hreads : e₃.ground.reads = ⟨true, [], ds.zipIdx.map (slotRequest k₁)⟩ := by
    rw [show e₃.ground.reads = e₂.ground.reads from congrArg Intake.ring hs₃.intake, hg]
  have hfill : Filling k₁ e₃.ground ds.zipIdx ds.length e₃.ground := by
    refine ⟨rfl, rfl, rfl, rfl, by rw [hreads]; exact ⟨rfl, rfl⟩,
      by rw [hreads, List.length_map, List.length_zipIdx], fun q hq => ?_,
      fun x hx => .inl (by rw [hreads]; exact List.mem_map_of_mem hx)⟩
    rw [hreads] at hq
    obtain ⟨x, hx, rfl⟩ := List.mem_map.mp hq
    exact ⟨x, hx, rfl⟩
  have hindex : ∀ x ∈ ds.zipIdx, ∀ y ∈ ds.zipIdx, x.2 = y.2 → x.1 = y.1 := by
    intro x hx y hy hxy
    have hx' := List.mem_zipIdx_iff_getElem?.mp hx
    have hy' := List.mem_zipIdx_iff_getElem?.mp hy
    rw [hxy, hy', Option.some.injEq] at hx'
    exact hx'.symm
  refine after_then ((after_still_last rfl
      (always_each fun _ => within_ioringFinishRead transferring_still)).and
    (after_finishReads hfill hs₃.idle.sound hindex)) fun _ e₄ hlanded => ?_
  obtain ⟨hk₄, hfill⟩ := hlanded
  have hempty : e₄.ground.reads.outstanding = [] := List.eq_nil_of_length_eq_zero hfill.length
  have hs₄ : Steady m e₄ := by
    have hd : (fun a => e₄.dirty a = false) = fun a => e₃.dirty a = false := by
      unfold Threads.Ctx.dirty
      rw [show e₄.sh.pte = e₃.sh.pte from hfill.pte]
    refine .of_ground ?_ (by rw [hfill.writes]; exact ⟨hs₃.idle.sq, hs₃.idle.outstanding⟩)
      (hfill.faulty.trans hs₃.idle.sound) (.inr ?_)
    · rw [hk₄, hfill.pte, hfill.disk, hd]
      exact hs₃.holds
    · obtain ⟨hi, hsq⟩ := hfill.ring
      cases hr₄ : e₄.ground.reads
      rw [hr₄] at hi hsq hempty
      cases hi
      cases hsq
      cases hempty
      rfl
  have hfet₄ : Fetching n frames hand ds k₁ rs e₄ := by
    obtain ⟨ha, hb, hc, hd⟩ := hfet
    exact ⟨by rwa [hk₄], hb, by rwa [hk₄], by rwa [hk₄]⟩
  refine after_then (after_each (Landing m n frames hand k) ?_ fun x todo e hx => hx.step)
    fun _ e₅ hland => (after_pure _ _ _).mpr hland.steady
  refine Landing.start h₂ h₃ hrec h₇ hlen hfet₄ hs₄ fun x hx => ?_
  have hd : x.1 ∈ ds := List.mem_of_getElem? (List.mem_zipIdx_iff_getElem?.mp hx)
  have hspare : x.1 ∉ rs := by
    intro hm
    have hnot := hfet.fresh.2 x.1 hm
    simp [holding, hd] at hnot
  have hbytes := hs₃.holds.of_detached hfet.whole (d := x.1) (by simp [holding, hspare, hd])
  rw [hpage x.1 hd] at hbytes
  rcases hfill.filled x hx with hm | hm
  · rw [hempty] at hm
    cases hm
  · refine (hm.trans hbytes).trans (congrArg m ?_)
    rw [h₉ x.1 hd]

end ExtMem
