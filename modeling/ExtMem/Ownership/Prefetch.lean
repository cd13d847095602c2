import ExtMem.Ownership.Swapin

/-! Prefetching: pages are claimed and detached one after the other, read at once, and each of them
gets one of the descriptors that were fetched for it. -/
namespace ExtMem
open Threads Threads.Prog Threads.Outline

variable {n : Nat} {frames : List Frame} {t : Tid} {l l' : Local} {g g₀ : Share} {d f : PageId}
  {x z : Hold} {b : Ring}
  {ds fs : List PageId} {α β : Type}

/-- What a look at the next page leaves behind. -/
def Seized (g : Share) (p : Option PageId) (g' : Share) : Prop :=
  match p with
  | none => g' = g
  | some d =>
    g.busy d = none ∧ g.held d = none ∧
      ∃ x c, x.Swapped ∧ g' = (g.mark d (some (.claim c))).put d (some x)

theorem safe_prefetchNext (a : Nat) : (owning n frames).Safe t (prefetchNext a)
    (fun p l' g' => l'.ring = l.ring ∧ Seized g p g') l g := by
  refine safe_bind (safe_lookUp ⟨rfl, rfl⟩ fun d l₁ hr₁ hm₁ => ?_)
  have hm₀ : (d, a) ∈ l₁.examining := by
    rw [hm₁]
    exact List.mem_cons_self
  refine safe_assertFound hm₀
    (fun _ hp => beq_iff_eq.mpr hp) (safe_skip (calm_field _ _) fun old l₃ h₃ => ?_)
  have hm : (d, a) ∈ l₃.examining := by
    rw [h₃.examining]
    exact hm₀
  have hr₃ : l₃.ring = l.ring := h₃.ring.trans hr₁
  refine safe_bind (safe_claimSwapin hm (some old) (fun c l₄ hc h₄ => ?_) fun l₄ hb h₄ => ?_)
  · refine safe_bind (safe_lookAway fun l₅ h₅ =>
      safe_ite (fun he => absurd he hc) fun _ => ⟨?_, rfl⟩)
    rw [h₅, h₄.ring, hr₃]
  · refine safe_bind (safe_lookAway fun l₅ h₅ => safe_ite (fun _ => ?_) fun he => absurd rfl he)
    have hguard : ¬ (Abort.detachList d).Guarded ∧ ¬ (Abort.detachRemoved d).Guarded :=
      ⟨nofun, nofun⟩
    have hbusy : (g.mark d (some (.claim none))).busy d = some (.claim none) :=
      Share.busy_mark_self ..
    refine safe_assertBusy hbusy (fun _ hp => bne_iff_ne.mpr hp.2.2) ?_
    refine safe_bind (safe_detach hbusy hguard.1 hguard.2 fun x l₇ hd hx _ _ h₇ =>
      ⟨?_, hb, hd, x, none, hx, rfl⟩)
    rw [h₇.ring, h₅, h₄.ring, hr₃]

/-- The pages to prefetch are claimed and detached, and nothing else is in the thread's hands. -/
theorem safe_prefetchList (left a : Nat) (hr : l.Rest) (h : Inbound g₀ ds [] g) :
    (owning n frames).Safe t (prefetchList left a)
      (fun list l' g' => l'.Rest ∧ Inbound g₀ (ds ++ list) [] g') l g := by
  induction left generalizing a l g ds with
  | zero => exact ⟨hr, by rw [List.append_nil]; exact h⟩
  | succ left ih =>
    refine safe_bind ((safe_prefetchNext _).mono fun p l₁ g₁ h₁ => ?_)
    obtain ⟨hring, hclaim⟩ := h₁
    cases p with
    | none =>
      obtain rfl := hclaim
      exact ⟨hr.congr hring, by rw [List.append_nil]; exact h⟩
    | some d =>
      obtain ⟨hb, hd, x, c, hx, rfl⟩ := hclaim
      refine safe_bind ((ih _ (hr.congr hring) (h.detach hb hd hx c)).mono fun rest l₂ g₂ h₂ =>
        ⟨h₂.1, ?_⟩)
      rw [List.append_cons]
      exact h₂.2

/-! The reads. -/

/-- So many reads are prepared and none is submitted. -/
structure Readied (k : Nat) (l : Local) : Prop where
  init : (l.ring .ioReadRing).init = true ∨ (l.ring .ioReadRing).Idle
  outstanding : (l.ring .ioReadRing).outstanding = []
  sq : (l.ring .ioReadRing).sq.length = k
  write : (l.ring .ioRing).Idle

theorem Readied.kept {k : Nat} (h : Readied k l) (hk : Kept l l') : Readied k l' := by
  refine ⟨?_, ?_, ?_, ?_⟩
  all_goals rw [hk.ring]
  · exact h.init
  · exact h.outstanding
  · exact h.sq
  · exact h.write

/-- A prepared read goes to the frame of its own page, and to no other one's. -/
theorem safe_prefetchSubmits {list : List (PageId × Nat)} (hr : l.Rest) (hg : g.Distinct)
    (hn : (list.map (·.1)).Nodup)
    (hall : ∀ p ∈ list, ∃ x, g.held p.1 = some x ∧ x.Swapped) :
    (owning n frames).Safe t (Prog.each prefetchSubmit list)
      (fun _ l' g' => Readied list.length l' ∧ g' = g) l g := by
  let J (todo : List (PageId × Nat)) (l' : Local) (g' : Share) :
      Prop := (∃ k, k + todo.length = list.length ∧ Readied k l') ∧ g' = g ∧
    (∀ p ∈ todo, ∃ x, g.held p.1 = some x ∧ x.Swapped ∧ l'.Spares x.offset) ∧ (todo.map (·.1)).Nodup
  have hstart : J list l g := by
    refine ⟨⟨0, Nat.zero_add _, .inr hr.2, hr.2.2, by rw [hr.2.1]; rfl, hr.1⟩, rfl, fun p hp => ?_,
      hn⟩
    obtain ⟨x, hx, hv⟩ := hall p hp
    exact ⟨x, hx, hv, hr.spares _⟩
  refine safe_each J hstart ?_ ?_
  · rintro p todo l₁ g₁ ⟨⟨k, hk, hp⟩, rfl, htodo, hnd⟩
    obtain ⟨x, hx, hv, hs⟩ := htodo p List.mem_cons_self
    obtain ⟨hpn, hnd'⟩ := List.nodup_cons.mp hnd
    refine safe_bind (safe_offset hx (safe_bind (safe_initOnce hp.init fun l₂ h₂ => ?_)))
    have hspares (fr : Frame) (hf : l₁.Spares fr) : l₂.Spares fr := h₂.spares (fun q hq => hq) hf
    have hback : g₁.Backs x.offset.offset := ⟨p.1, x, hx, by rw [hv.stake, frame_of_disk hv.disk]⟩
    refine safe_prep hback (by rw [frame_of_disk hv.disk]; exact hspares _ hs) fun l₃ h₃ => ?_
    have hring : l₃.ring .ioReadRing = ⟨true, (l₁.ring .ioReadRing).sq ++
        [⟨false, x.offset.offset, .prefetchSlot p.2, pageSize⟩], []⟩ := by
      rw [h₃.ring, h₂.ring]
      exact congrArg (Ring.mk true _) hp.outstanding
    refine ⟨⟨k + 1, ?_, .inl (by rw [hring]), by rw [hring], ?_, ?_⟩, rfl, fun q hq => ?_, hnd'⟩
    · rw [List.length_cons] at hk
      omega
    · rw [hring, List.length_append, hp.sq]
      rfl
    · have hw : l₃.ring .ioRing = l₁.ring .ioRing := h₃.other.trans h₂.other
      rw [hw]
      exact hp.write
    · obtain ⟨y, hy, hw, hs'⟩ := htodo q (List.mem_cons_of_mem _ hq)
      refine ⟨y, hy, hw,
        h₃.spares_more (fun r hr => Ring.mem_requests_append hr) (hspares _ hs') fun hf => ?_⟩
      have hsame : x.frame = y.frame := by
        rw [hv.frame, hw.frame, hf]
        exact (frame_of_disk hv.disk).symm
      exact hpn (List.mem_map.mpr ⟨q, hq, (hg _ _ _ _ hx hy hsame).symm⟩)
  · rintro l₁ g₁ ⟨⟨k, hk, hp⟩, rfl, -⟩
    obtain rfl : k = list.length := hk
    exact ⟨hp, rfl⟩

/-- A free frame is fetched for each page while the reads are under way. -/
theorem safe_fetchPages (h : Inbound g₀ ds [] g) (hlate : ∀ e, g₀.late e = false) (hc : Calls b l) :
    (owning n frames).Safe t (Prog.collect (fun _ => lrudiskPagefault) ds)
      (fun fs l' g' => fs.length = ds.length ∧ Calls b l' ∧ Inbound g₀ ds fs g') l g := by
  let J (todo : List PageId) (done : List PageId) (l' : Local) (g' : Share) : Prop :=
    done.length + todo.length = ds.length ∧ Calls b l' ∧ Inbound g₀ ds done g'
  have hstart : J ds [] l g := ⟨Nat.zero_add _, hc, h⟩
  refine safe_collect J hstart ?_ fun fs l₁ g₁ h₁ => h₁
  rintro d todo done l₁ g₁ ⟨hlen, hc₁, h₁⟩
  have hlate₁ (e : PageId) : g₁.late e = false := by
    rw [h₁.late]
    exact hlate e
  refine (safe_lrudiskPagefault hc₁ hlate₁).mono fun f l₂ g₂ h₂ => ?_
  obtain ⟨z, hf, hz, hc₂, rfl⟩ := h₂
  refine ⟨?_, hc₂, h₁.fetch hf hz⟩
  rw [List.length_append, List.length_singleton]
  rw [List.length_cons] at hlen
  omega

/-- All reads are waited for. -/
theorem safe_finishReads {list : List β} {i : Bool} {out : List Sqe}
    (hc : Calls ⟨i, [], out⟩ l) (hlen : out.length = list.length) :
    (owning n frames).Safe t (Prog.each (fun _ => ioringFinishRead) list)
      (fun _ l' g' => l'.Rest ∧ g' = g) l g := by
  let J (todo : List β) (l' : Local) (g' : Share) : Prop :=
    (∃ i out, Calls ⟨i, [], out⟩ l' ∧ out.length = todo.length) ∧ g' = g
  have hstart : J list l g := ⟨⟨i, out, hc, hlen⟩, rfl⟩
  refine safe_each J hstart ?_ ?_
  · rintro c todo l₁ g₁ ⟨⟨i, out, hc₁, hlen₁⟩, rfl⟩
    refine safe_skip (calm_assert nofun) fun _ l₂ h₂ => safe_wait fun p hp l₃ h₃ => ?_
    have hc₂ := hc₁.kept h₂
    rw [hc₂.read] at hp h₃
    refine ⟨⟨i, out.erase p, ⟨?_, h₃.ring⟩, ?_⟩, rfl⟩
    · have hw : l₃.ring .ioRing = l₂.ring .ioRing := h₃.other
      rw [hw]
      exact hc₂.write
    · rw [List.length_erase_of_mem hp, hlen₁]
      rfl
  · rintro l₁ g₁ ⟨⟨i, out, hc₁, hlen₁⟩, rfl⟩
    obtain rfl := List.eq_nil_of_length_eq_zero hlen₁
    exact ⟨hc₁.rest ⟨rfl, rfl⟩, rfl⟩

/-! The ends. -/

theorem safe_prefetchFinish {k : Nat} (h : Inbound g₀ (d :: ds) (f :: fs) g) (hr : l.Rest) :
    (owning n frames).Safe t (prefetchFinish ((d, k), f))
      (fun _ l' g' => l'.Rest ∧ Inbound g₀ ds fs g') l g := by
  obtain ⟨x, hx, hv, c, hc⟩ := h.pages d List.mem_cons_self
  obtain ⟨z, hf, hz⟩ := h.spares f List.mem_cons_self
  refine safe_skip (by simp) fun _ l₁ h₁ => safe_bind ?_
  refine safe_lrudiskAckSwapin hc hx hv hf hz (hr.kept h₁) fun l₂ h₂ =>
    safe_skip (by simp) fun _ l₃ h₃ => ?_
  have hbusy : ((g.put f none).put d none).busy d = some (.claim c) := hc
  exact safe_finishSwapin hbusy fun l₄ h₄ => ⟨(((hr.kept h₁).kept h₂).kept h₃).kept h₄, h.finish⟩

/-- Every page gets one of the fetched descriptors; then the thread's hands are as they were. -/
theorem safe_prefetchFinishes (h : Inbound g₀ ds fs g)
    (hlen : fs.length = ds.length) (hr : l.Rest) :
    (owning n frames).Safe t (Prog.each prefetchFinish (ds.zipIdx.zip fs))
      (fun _ l' g' => l'.Rest ∧ g' = g₀) l g := by
  let J (todo : List ((PageId × Nat) × PageId)) (l' : Local) (g' : Share) : Prop :=
    l'.Rest ∧ Inbound g₀ (todo.map (·.1.1)) (todo.map (·.2)) g'
  have hstart : J (ds.zipIdx.zip fs) l g := by
    have hidx : ds.zipIdx.length = fs.length := by rw [List.length_zipIdx, hlen]
    have h₁ : (ds.zipIdx.zip fs).map (·.1.1) = ds := by
      calc
        _ = ((ds.zipIdx.zip fs).map (·.1)).map (·.1) := by rw [List.map_map]; rfl
        _ = ds.zipIdx.map (·.1) := by rw [List.map_fst_zip (Nat.le_of_eq hidx)]
        _ = ds := List.zipIdx_map_fst ..
    have h₂ : (ds.zipIdx.zip fs).map (·.2) = fs := List.map_snd_zip (Nat.le_of_eq hidx.symm)
    refine ⟨hr, ?_⟩
    rw [h₁, h₂]
    exact h
  refine safe_each J hstart ?_ ?_
  · rintro ⟨⟨d, k⟩, f⟩ todo l₁ g₁ ⟨hr₁, h₁⟩
    exact safe_prefetchFinish h₁ hr₁
  · rintro l₁ g₁ ⟨hr₁, h₁⟩
    exact ⟨hr₁, h₁.eq⟩

/-- A prefetch leaves nothing in the thread's hands. -/
theorem safe_coreTryPrefetch (base : Nat) (hr : l.Rest) (hlate : ∀ e, g.late e = false) :
    (owning n frames).Safe t (coreTryPrefetch base) (fun _ l' g' => l'.Rest ∧ g' = g) l g := by
  refine safe_skip (calm_check nofun) fun _ l₁ h₁ => safe_bind ?_
  refine (safe_prefetchList _ _ (hr.kept h₁) (Inbound.nil g)).mono fun ds l₂ g₂ h₂ => ?_
  rw [List.nil_append] at h₂
  obtain ⟨hr₂, hin⟩ := h₂
  refine safe_learn fun hdistinct =>
    safe_skip (calm_traceEvent _) fun _ l₃ h₃ => safe_skip (by simp) fun _ l₄ h₄ => safe_bind ?_
  have hnd : (ds.zipIdx.map (·.1)).Nodup := by
    rw [List.zipIdx_map_fst]
    exact (List.nodup_append.mp hin.nodup).1
  have hall (p : PageId × Nat) (hp : p ∈ ds.zipIdx) : ∃ x, g₂.held p.1 = some x ∧ x.Swapped := by
    obtain ⟨x, hx, hv, -⟩ := hin.pages p.1 (List.fst_mem_of_mem_zipIdx hp)
    exact ⟨x, hx, hv⟩
  refine (safe_prefetchSubmits ((hr₂.kept h₃).kept h₄) hdistinct hnd hall).mono fun _ l₅ g₅ h₅ => ?_
  obtain ⟨h₅, rfl⟩ := h₅
  rw [List.length_zipIdx] at h₅
  refine safe_bind (safe_submit fun l₆ h₆ => safe_bind ?_)
  have hc₆ : Calls ⟨(l₅.ring .ioReadRing).init, [], (l₅.ring .ioReadRing).sq⟩ l₆ := by
    constructor
    · have hw : l₆.ring .ioRing = l₅.ring .ioRing := h₆.other
      rw [hw]
      exact h₅.write
    · rw [h₆.ring, h₅.outstanding, List.nil_append]
  refine (safe_fetchPages hin hlate hc₆).mono fun fs l₇ g₇ h₇ => safe_bind ?_
  obtain ⟨hlen, hc₇, hin₇⟩ := h₇
  refine (safe_finishReads hc₇ h₅.sq).mono fun _ l₈ g₈ h₈ => safe_bind ?_
  obtain ⟨hr₈, rfl⟩ := h₈
  exact (safe_prefetchFinishes hin₇ hlen hr₈).mono fun _ l₉ g₉ h₉ => h₉

end ExtMem
