import ExtMem.Serial.BatchSnapshot
import ExtMem.Serial.OutOfMemory

/-! Rounds of the scalar worker and a batch of the vector worker return when there are enough
disk frames and the write ring is there when it is used. -/
namespace ExtMem
open Threads Threads.Prog

variable {n : Nat} {frames : List Frame} {hand : PageId → Option Hand} {S : Nat → Bool}
  {i : Snapshot} {k k' : Skeleton}
  {d r : PageId} {e e' : Env}

/-- The pages that have no disk frame kept for them. -/
def Skeleton.unreserved (k : Skeleton) (ds : List PageId) : List PageId :=
  ds.filter fun d => !(k.page d).hasReserve

/-- For the oldest pages on the eviction list there are disk frames. -/
def Enough (k : Skeleton) (m : Nat) : Prop :=
  (k.unreserved ((k.fifos.seq .evictionList).take m)).length ≤ (k.fifos.seq .diskFreeList).length

theorem free_of_enough {m : Nat} {ds : List PageId} (h : Enough k (m + 1))
    (hs : k.fifos.seq .evictionList = d :: ds) (hr : (k.page d).hasReserve = false) :
    k.fifos.seq .diskFreeList ≠ [] := by
  intro hnone
  unfold Enough Skeleton.unreserved at h
  rw [hs, hnone, List.take_succ_cons, List.filter_cons_of_pos (by simp [hr])] at h
  exact absurd h (Nat.not_succ_le_zero _)

/-- An eviction takes a free disk frame only if none was kept. -/
theorem Enough.step {m : Nat} {ds : List PageId} {x : Slot} (h : Enough k (m + 1))
    (hs : k.fifos.seq .evictionList = x.victim :: ds)
    (hp : Partner (k.unlink x.victim) x.victim x.diskpage) : Enough (k.evictSlot x) m := by
  obtain ⟨hseq, hpage⟩ := rest_evictSlot hs hp
  have hlv : k.list x.victim = some .evictionList := Whole.list_of_seq hs
  have hnv : x.victim ∉ k.fifos.seq .diskFreeList := not_mem_seq hlv (by decide)
  have hfree :
      (k.evictSlot x).fifos.seq .diskFreeList = (k.fifos.seq .diskFreeList).erase x.diskpage := by
    rw [seq_evictSlot k hp.ne, List.erase_of_not_mem hnv]
    simp
  have hsame : (k.evictSlot x).unreserved (ds.take m) = k.unreserved (ds.take m) :=
    List.filter_congr fun v hv => by rw [hpage v (List.mem_of_mem_take hv)]
  unfold Enough at h ⊢
  rw [hseq, hfree, hsame]
  rw [hs, List.take_succ_cons] at h
  cases hr : (k.page x.victim).hasReserve with
  | true =>
    have hlr := hp.list
    rw [Skeleton.page_unlink, hr, if_pos rfl, Skeleton.list_unlink, if_neg hp.ne] at hlr
    rw [List.erase_of_not_mem (not_mem_seq hlr (by decide))]
    unfold Skeleton.unreserved at h ⊢
    rwa [List.filter_cons_of_neg (by simp [hr])] at h
  | false =>
    obtain ⟨xs, hxs⟩ := hp.oldest hr
    have hxs : k.fifos.seq .diskFreeList = x.diskpage :: xs := by
      rw [← hxs]
      exact (Queues.seq_unlink_of_ne hlv (by decide)).symm
    rw [hxs, List.erase_cons_head]
    unfold Skeleton.unreserved at h ⊢
    rw [List.filter_cons_of_pos (by simp [hr]), hxs] at h
    exact Nat.le_of_succ_le_succ h

/-- Rounds of the scalar worker return as long as there are pages and disk frames. -/
theorem total_rounds (xs : List Nat) (hk : e.sh.skeleton = k) (h : Whole n frames hand k)
    (hmap : ∀ b d, b ≠ 0 → k.pages b = some d → k.vma b = .uffd)
    (hlen : xs.length ≤ (k.fifos.seq .evictionList).length) (henough : Enough k xs.length)
    (hidle : (e.snapshot fun _ => true).Idle) :
    Total (Prog.each (fun _ => lrudiskEvictionworker) xs) e fun _ _ => True := by
  induction xs generalizing e k with
  | nil => exact .ret trivial
  | cons c xs ih =>
    cases hs : k.fifos.seq .evictionList with
    | nil =>
      rw [hs] at hlen
      exact absurd hlen (Nat.not_succ_le_zero _)
    | cons d ds =>
      have hroom : (e.loc.ring .ioRing).sq.length < queueDepth := by
        rw [show (e.loc.ring .ioRing).sq = [] from hidle.sq]
        decide
      have hev : Evictable (k.unlink d) d := evictable h hmap hs (free_of_enough henough hs)
      refine ((total_lrudiskEvictionworker hk hs hroom hev).strengthen
        (after_round hk h hs rfl rfl hidle)).bind fun _ e' ⟨x, hxv, hp, _, hk', hi'⟩ => ?_
      subst hxv
      obtain ⟨hseq, -⟩ := rest_evictSlot hs hp
      refine ih hk' (h.evict (Whole.list_of_seq hs) hp true) hmap ?_ (henough.step hs hp) ?_
      · rw [hseq]
        rw [hs] at hlen
        exact Nat.le_of_succ_le_succ hlen
      · rw [hi']
        exact Snapshot.idle_evict hidle

/-! The first two loops of a batch. -/

theorem vma_marks (k : Skeleton) (ds : List PageId) : (ds.foldl Skeleton.mark k).vma = k.vma := by
  induction ds generalizing k with
  | nil => rfl
  | cons d ds ih => exact ih (k.mark d)

theorem vma_unlinks (k : Skeleton) (ds : List PageId) :
    (ds.foldl Skeleton.unlink k).vma = k.vma := by
  induction ds generalizing k with
  | nil => rfl
  | cons d ds ih => exact ih (k.unlink d)

private theorem total_prepareVictim (hk : e.sh.skeleton = k) (h : Registered k d) :
    Total (prepareVictim d) e fun _ _ => True := by
  unfold prepareVictim
  refine total_setPage hk fun e hk => total_field hk fun e hk => ?_
  have hreg : Registered (k.write d fun p => { p with migrating := true }) d :=
    ⟨by simpa using h.va, by simpa using h.aligned, by simpa using h.mapped⟩
  exact (total_protectVictim hk hreg).bind fun _ e hk => .ret trivial

theorem total_prepareVictims {vs : List PageId} (hk : e.sh.skeleton = vs.foldl Skeleton.unlink k)
    (h : ∀ v ∈ vs, Registered k v) : Total (Prog.collect prepareVictim vs) e fun _ _ => True := by
  refine (total_collect (fun todo done e => (∀ v ∈ todo, Registered k v) ∧ ∃ ds : List PageId,
    e.sh.skeleton = ds.foldl Skeleton.mark (vs.foldl Skeleton.unlink k)) ⟨h, [], hk⟩ ?_).mono
    fun _ _ _ => trivial
  rintro d todo done e ⟨h, ds, hk⟩
  obtain ⟨b, hb⟩ := page_marks (vs.foldl Skeleton.unlink k) ds d
  rw [page_unlinks] at hb
  have hd := h d List.mem_cons_self
  have hreg : Registered (ds.foldl Skeleton.mark (vs.foldl Skeleton.unlink k)) d := by
    refine ⟨by rw [hb]; exact hd.va, by rw [hb]; exact hd.aligned, ?_⟩
    rw [vma_marks, vma_unlinks, hb]
    exact hd.mapped
  refine (total_prepareVictim hk hreg).strengthen
    ((after_prepareVictim hk).mono fun x e' ⟨_, _, hk'⟩ => ?_)
  refine ⟨fun v hv => h v (List.mem_cons_of_mem _ hv), ds ++ [d], ?_⟩
  rw [hk', List.foldl_append]
  rfl

/-- The second loop sees of reserves and free disk frames what single evictions see. -/
structure Follows (k k' : Skeleton) (todo : List PageId) : Prop where
  victims : ∀ v ∈ todo, k.list v = none ∧ (k.page v).hasReserve = (k'.page v).hasReserve ∧
    (k.page v).reserve = (k'.page v).reserve
  queue : ∃ ds, k'.fifos.seq .evictionList = todo ++ ds
  copies : ∀ z, k.list z = some .diskReserveList ↔ k'.list z = some .diskReserveList
  backs : ∀ z, k.list z = some .diskReserveList → (k.page z).reserve = (k'.page z).reserve
  free : k.fifos.seq .diskFreeList = k'.fifos.seq .diskFreeList
  present : ∀ z, (k.page z).present = false

theorem Follows.partner {v : PageId} {todo : List PageId} (h : Follows k k' (v :: todo))
    (hp : Partner k v r) : Partner (k'.unlink v) v r := by
  obtain ⟨-, hres, hresv⟩ := h.victims v List.mem_cons_self
  obtain ⟨ds, hq⟩ := h.queue
  have hlv : k'.list v = some .evictionList := Whole.list_of_seq hq
  have hlist := hp.list
  refine ⟨hp.ne, ?_, fun hr => ?_, fun hr => ?_⟩
  · rw [Skeleton.list_unlink, if_neg hp.ne, Skeleton.page_unlink, ← hres]
    cases hr : (k.page v).hasReserve with
    | true =>
      rw [hr, if_pos rfl] at hlist
      rw [if_pos rfl]
      exact (h.copies r).mp hlist
    | false =>
      obtain ⟨xs, hxs⟩ := hp.oldest hr
      rw [h.free] at hxs
      rw [if_neg Bool.false_ne_true]
      exact Whole.list_of_seq hxs
  · rw [Skeleton.page_unlink] at hr ⊢
    rw [← hres] at hr
    obtain ⟨h₁, h₂⟩ := hp.reserve hr
    rw [hr, if_pos rfl] at hlist
    rw [← hresv, ← h.backs r hlist]
    exact ⟨h₁, h₂⟩
  · rw [Skeleton.page_unlink, ← hres] at hr
    obtain ⟨xs, hxs⟩ := hp.oldest hr
    refine ⟨xs, ?_⟩
    rw [← hxs, h.free]
    exact Queues.seq_unlink_of_ne hlv (by decide)

theorem Follows.step {x : Slot} {todo : List PageId} (h : Follows k k' (x.victim :: todo))
    (hp : Partner k x.victim x.diskpage) : Follows (k.takeDisk x) (k'.evictSlot x) todo := by
  have hp' := h.partner hp
  obtain ⟨ds, hq⟩ := h.queue
  obtain ⟨hseq, hpage⟩ := rest_evictSlot hq hp'
  have hlv : k'.list x.victim = some .evictionList := Whole.list_of_seq hq
  have hvnone := (h.victims x.victim List.mem_cons_self).1
  have hlist (z : PageId) : (k.takeDisk x).list z = if z = x.diskpage then none else k.list z :=
    Skeleton.list_unlink ..
  refine ⟨fun u hu => ?_, ⟨ds, hseq⟩, fun z => ?_, fun z hz => ?_, ?_, h.present⟩
  · obtain ⟨h₁, h₂, h₃⟩ := h.victims u (List.mem_cons_of_mem _ hu)
    rw [hpage u (List.mem_append_left _ hu), hlist, h₁]
    exact ⟨by split <;> rfl, h₂, h₃⟩
  · rw [hlist, list_evictSlot k' hp.ne]
    by_cases h₁ : z = x.diskpage
    · simp [h₁]
    · rw [if_neg h₁, if_neg h₁]
      by_cases h₂ : z = x.victim
      · rw [if_pos h₂, h₂, hvnone]
        simp
      · rw [if_neg h₂]
        exact h.copies z
  · rw [hlist] at hz
    split at hz
    · cases hz
    · next hne =>
      have hzv : z ≠ x.victim := by
        rintro rfl
        rw [hvnone] at hz
        cases hz
      rw [page_evictSlot k' hzv hne]
      exact h.backs z hz
  · have hnv : x.victim ∉ k'.fifos.seq .diskFreeList := not_mem_seq hlv (by decide)
    rw [seq_evictSlot k' hp.ne, List.erase_of_not_mem hnv, ← h.free]
    show (k.fifos.seq .diskFreeList).erase x.diskpage = _
    simp

private theorem total_findDiskpage {x : PageId × Frame × Bool} {todo : List PageId}
    (hk : e.sh.skeleton = k) (h : Follows k k' (x.1 :: todo))
    (hev : Evictable (k'.unlink x.1) x.1) : Total (findDiskpage x) e fun _ _ => True := by
  obtain ⟨hnone, hres, hresv⟩ := h.victims x.1 List.mem_cons_self
  unfold findDiskpage
  refine total_field hk fun e hk => ?_
  cases hr : (k.page x.1).hasReserve with
  | true =>
    obtain ⟨r, h₁, h₂, h₃, -⟩ := hev.kept (by rw [Skeleton.page_unlink, ← hres, hr])
    rw [Skeleton.page_unlink] at h₁ h₂
    rw [Skeleton.list_unlink] at h₃
    split at h₃
    · cases h₃
    · have hl := (h.copies r).mpr h₃
      rw [if_pos rfl]
      exact (total_takeReserve hk (hresv.trans h₁) ((h.backs r hl).trans h₂) hl).bind fun _ e _ =>
        .ret trivial
  | false =>
    obtain ⟨r, xs, h₁, -, -⟩ := hev.free (by rw [Skeleton.page_unlink, ← hres, hr])
    obtain ⟨ds, hq⟩ := h.queue
    have hlv : k'.list x.1 = some .evictionList := Whole.list_of_seq hq
    have hs : k.fifos.seq .diskFreeList = r :: xs := by
      rw [h.free, ← h₁]
      exact (Queues.seq_unlink_of_ne hlv (by decide)).symm
    rw [if_neg Bool.false_ne_true]
    exact (total_takeDiskFree hk hs (h.present r)).bind fun _ e _ => .ret trivial

theorem total_findDiskpages {vs : List PageId} {m : Nat} {prepared : List (PageId × Frame × Bool)}
    (h : Whole n frames hand k) (hmap : ∀ b d, b ≠ 0 → k.pages b = some d → k.vma b = .uffd)
    (hvs : (k.fifos.seq .evictionList).take m = vs)
    (hvs' : prepared.map (·.1) = vs) (henough : Enough k vs.length)
    (hk : e.sh.skeleton = vs.foldl Skeleton.mark (vs.foldl Skeleton.unlink k)) :
    Total (Prog.collect findDiskpage prepared) e fun _ _ => True := by
  refine (total_collect (fun todo done e => ∃ k', Whole n frames hand k' ∧
    (∀ b d, b ≠ 0 → k'.pages b = some d → k'.vma b = .uffd) ∧ Enough k' todo.length ∧
    Follows e.sh.skeleton k' (todo.map (·.1))) ⟨k, h, hmap, ?_, ?_⟩ ?_).mono fun _ _ _ => trivial
  · rw [← hvs', List.length_map] at henough
    exact henough
  · obtain ⟨hout, hpage, hfree, hout'⟩ := marked_of_unlinks hvs
    rw [hk, hvs']
    have hlist (v : PageId) (hv : v ∈ vs) : k.list v = some .evictionList := by
      rw [← hvs] at hv
      exact Queues.tag_of_mem (List.mem_of_mem_take hv)
    refine ⟨fun v hv => ?_, ⟨(k.fifos.seq .evictionList).drop m, ?_⟩, fun z => ?_, fun z _ => ?_,
      hfree, fun z => ?_⟩
    · obtain ⟨b, hb⟩ := hpage v
      rw [hb]
      exact ⟨hout v hv, rfl, rfl⟩
    · rw [← hvs, List.take_append_drop]
    · by_cases hz : z ∈ vs
      · rw [hout z hz, hlist z hz]
        simp
      · rw [hout' z hz]
    · obtain ⟨b, hb⟩ := hpage z
      rw [hb]
    · obtain ⟨b, hb⟩ := hpage z
      rw [hb]
      exact h.present z
  · rintro x todo done e ⟨k', hw, hmap, henough, hf⟩
    obtain ⟨ds, hq⟩ := hf.queue
    have hev := evictable hw hmap hq (free_of_enough henough hq)
    refine (total_findDiskpage rfl hf hev).strengthen
      ((after_findDiskpage rfl (hf.victims x.1 List.mem_cons_self).1).mono ?_)
    rintro y e' ⟨hy, _, hp, hk'⟩
    rw [List.map_cons, ← hy] at hf
    rw [← hy] at hp
    rw [List.map_cons, ← hy] at hq
    have hp' := hf.partner hp
    refine ⟨k'.evictSlot y, hw.evict (Whole.list_of_seq hq) hp' true, hmap, henough.step hq hp', ?_⟩
    rw [hk']
    exact hf.step hp

/-! The migration of a batch. -/

private theorem total_prepareSlot {x : Slot} (hk : e.sh.skeleton = k)
    (hin : (k.page x.victim).inDram = true) (hroom : (e.loc.ring .ioRing).sq.length < queueDepth) :
    Total (prepareSlot x) e fun _ _ => True := by
  unfold prepareSlot
  have hin' : (e.sh.page x.victim).inDram = true := by
    rw [← hk] at hin
    exact hin
  refine .act (if_pos hin') ?_
  show Total (if x.writeback = true then _ else _) e _
  cases x.writeback with
  | false =>
    rw [if_neg Bool.false_ne_true]
    exact .ret trivial
  | true =>
    rw [if_pos rfl]
    refine .act rfl (.act rfl (.act rfl ?_))
    have hprep {e : Env} {q : Sqe} (hroom : (e.loc.ring .ioRing).sq.length < queueDepth) : Total
        (ioUringPrep .ioRing q) e fun _ _ => True := total_atomic ⟨(), _, if_pos hroom, trivial⟩
    have hwrite {e : Env} {offset : Nat} {data : Buffer} (hroom : (e.loc.ring .ioRing).sq.length <
        queueDepth) : Total (ioringPrepareWrite offset data pageSize) e fun _ _ =>
        True := (total_initOnce hroom).bind fun _ e ⟨_, hroom⟩ => hprep hroom
    show Total (ioringPrepareWrite _ _ _ >>= fun _ => pure true) _ _
    refine Total.bind (hwrite ?_) fun _ _ _ => .ret trivial
    exact hroom

theorem total_prepareSlots {l : List Slot} (hk : e.sh.skeleton = k) (hi : e.snapshot S = i)
    (hidle : i.Idle) (hin : ∀ x ∈ l, (k.page x.victim).inDram = true)
    (hlen : l.length ≤ queueDepth) : Total (Prog.collect prepareSlot l) e fun _ _ => True := by
  refine (total_collect (PreparedUpTo S k i (e.loc.ring .ioRing).init l)
    (preparedUpTo_start hk hi hidle) ?_).mono fun _ _ _ => trivial
  intro x todo done e h
  refine Total.strengthen (Q := fun _ _ => True) ?_ (h.step hidle)
  obtain ⟨past, hl, -, hk, hi, -⟩ := h
  refine total_prepareSlot hk (hin x ?_) ?_
  · rw [← hl]
    exact List.mem_append_right _ List.mem_cons_self
  · have hsq : (e.loc.ring .ioRing).sq = requests k past := (congrArg Snapshot.sq hi :)
    rw [hsq]
    unfold requests
    rw [List.length_map]
    refine Nat.lt_of_le_of_lt (List.length_filter_le _ _) (Nat.lt_of_lt_of_le ?_ hlen)
    rw [← hl, List.length_append, List.length_cons]
    omega

private theorem total_submitWrites (hinit : (e.loc.ring .ioRing).init = true) :
    Total ioringSubmitAllWrites e fun _ e' =>
        (e'.loc.ring .ioRing).init = true ∧ (e'.loc.ring .ioRing).outstanding =
        (e.loc.ring .ioRing).outstanding ++ (e.loc.ring .ioRing).sq := by
  refine total_atomic ⟨_, _, if_pos hinit, ?_⟩
  rw [loc_foldl_submitted]
  simp only [Local.setRing, Function.update_self]
  exact ⟨hinit, trivial⟩

private theorem ring_transfer (q : Sqe) (res : Int) (e : Env) :
    (e.transfer q res).loc.ring = e.loc.ring := by
  unfold Threads.Ctx.transfer
  split
  · split <;> rfl
  · unfold Threads.Ctx.setBuffer
    split <;> rfl

private theorem total_finishWrite (hinit : (e.loc.ring .ioRing).init = true)
    (hout : 0 < (e.loc.ring .ioRing).outstanding.length) :
    Total ioringFinishWrite e fun _ e' => (e'.loc.ring .ioRing).init = true ∧
      (e'.loc.ring .ioRing).outstanding.length + 1 = (e.loc.ring .ioRing).outstanding.length := by
  refine .ask fun pick => .ask fun code => total_atomic ?_
  simp only [hinit, if_true]
  have hlt : pick % (e.loc.ring .ioRing).outstanding.length <
      (e.loc.ring .ioRing).outstanding.length := Nat.mod_lt _ hout
  rw [List.getElem?_eq_getElem hlt]
  refine ⟨_, _, rfl, ?_⟩
  show ((Threads.Ctx.transfer _ _ _).loc.ring .ioRing).init = true ∧
    ((Threads.Ctx.transfer _ _ _).loc.ring .ioRing).outstanding.length + 1 = _
  rw [ring_transfer]
  simp only [Local.setRing, Function.update_self]
  refine ⟨hinit, ?_⟩
  rw [List.length_erase_of_mem (List.getElem_mem hlt)]
  exact Nat.sub_add_cancel hout

private theorem total_waitWrites {γ : Type} {todo : List γ}
    (hinit : (e.loc.ring .ioRing).init = true)
    (hlen : todo.length = (e.loc.ring .ioRing).outstanding.length) :
    Total (Prog.each (fun _ => ioringFinishWrite) todo) e fun _ _ => True := by
  refine (total_each (fun todo e => (e.loc.ring .ioRing).init = true ∧ todo.length =
    (e.loc.ring .ioRing).outstanding.length) ⟨hinit, hlen⟩ ?_).mono fun _ _ _ => trivial
  rintro x todo e ⟨hinit, hlen⟩
  rw [List.length_cons] at hlen
  refine (total_finishWrite hinit (by rw [← hlen]; exact Nat.succ_pos _)).mono fun _ e' ⟨h₁, h₂⟩ =>
    ⟨h₁, ?_⟩
  rw [← hlen] at h₂
  exact (Nat.succ.inj h₂).symm

private theorem total_unmapSlots {l : List Slot} (hk : e.sh.skeleton = k)
    (h : ∀ x ∈ l, k.vma (k.page x.victim).va ≠ .none) :
    Total (Prog.each unmapSlot l) e fun _ _ => True := by
  refine (total_each (fun todo e => e.sh.skeleton = k ∧
    ∀ x ∈ todo, k.vma (k.page x.victim).va ≠ .none) ⟨hk, h⟩ ?_).mono fun _ _ _ => trivial
  rintro x todo e ⟨hk, h⟩
  have hdrop : Total (unmapSlot x) e fun _ _ => True := by
    unfold unmapSlot
    refine total_field hk fun e hk => .act rfl (total_dropMapping ?_)
    have hvma : e.sh.vma = k.vma := congrArg (·.vma) hk
    show e.sh.vma _ ≠ _
    rw [hvma]
    exact h x List.mem_cons_self
  exact hdrop.strengthen ((after_still_last hk (still_unmapSlot x)).mono fun _ e hk =>
    ⟨hk, fun y hy => h y (List.mem_cons_of_mem _ hy)⟩)

private theorem total_moveSlots (l : List Slot) : Total (Prog.each moveSlot l) e fun _ _ => True :=
  total_each (fun _ _ => True) trivial fun _ _ _ _ =>
    .act rfl (.act rfl (.act rfl (.act rfl (.act rfl (.ret trivial)))))

private theorem marksAll {l : List Slot} (hnodup : (l.map (·.victim)).Nodup) (e : Env)
    (h : ∀ x ∈ l, (e.sh.page x.victim).swappedOut = false ∧ (e.sh.page x.victim).migrating = true) :
    ∃ e', markAllSwappedOut l e = .ok () e' := by
  induction l generalizing e with
  | nil => exact ⟨e, rfl⟩
  | cons x l ih =>
    obtain ⟨h₁, h₂⟩ := h x List.mem_cons_self
    obtain ⟨hx, hl⟩ := List.nodup_cons.mp hnodup
    have hmark : markSwappedOut x.victim e =
        .ok () (e.setPage x.victim fun p => { p with swappedOut := true }) := by
      unfold markSwappedOut
      rw [h₁, if_neg Bool.false_ne_true, if_pos h₂]
    unfold markAllSwappedOut
    rw [hmark]
    refine ih hl _ fun y hy => ?_
    have hne : y.victim ≠ x.victim := fun hc => hx (List.mem_map.mpr ⟨y, hy, hc⟩)
    have hpage : (e.setPage x.victim fun p => { p with swappedOut := true }).sh.page y.victim =
        e.sh.page y.victim := Function.update_of_ne hne _ _
    rw [hpage]
    exact h y (List.mem_cons_of_mem _ hy)

/-- Moving the batch leaves the marks of its victims. -/
private theorem marks_moves (l : List Slot) (k : Skeleton) (z : PageId) :
    ((l.foldl Skeleton.move k).page z).swappedOut = (k.page z).swappedOut ∧
      ((l.foldl Skeleton.move k).page z).migrating = (k.page z).migrating := by
  induction l generalizing k with
  | nil => exact ⟨rfl, rfl⟩
  | cons x l ih =>
    rw [List.foldl_cons, (ih (k.move x)).1, (ih (k.move x)).2]
    by_cases hz : z = x.victim
    · subst hz
      simp [Skeleton.move]
    · rw [Skeleton.move, Skeleton.page_write_of_ne _ _ hz]
      exact ⟨rfl, rfl⟩

/-- The migration of a batch returns if the write ring is there or one of its writes sets it up. -/
theorem total_downdiskVector {l : List Slot} (hk : e.sh.skeleton = k) (hi : e.snapshot S = i)
    (hidle : i.Idle) (hnodup : (l.map (·.victim)).Nodup) (hlen : l.length ≤ queueDepth)
    (hin : ∀ x ∈ l, (k.page x.victim).inDram = true)
    (hout : ∀ x ∈ l, (k.page x.victim).swappedOut = false)
    (hmig : ∀ x ∈ l, (k.page x.victim).migrating = true)
    (hvma : ∀ x ∈ l, k.vma (k.page x.victim).va ≠ .none)
    (hring : (e.loc.ring .ioRing).init = true ∨ ∃ x ∈ l, x.writeback = true) :
    Total (extmemMigrateDowndiskVector l) e fun _ _ => True := by
  unfold extmemMigrateDowndiskVector
  refine .act rfl ?_
  obtain ⟨e₀, he₀⟩ : ∃ e₀ : Env, e₀ = e.record (.batch (l.map (·.writeback))) := ⟨_, rfl⟩
  show Total _ (e.record (.batch (l.map (·.writeback)))) _
  rw [← he₀]
  have hk₀ : e₀.sh.skeleton = k := by
    rw [he₀, ← hk]
    rfl
  have hi₀ : e₀.snapshot S = i := by
    rw [he₀, ← hi]
    rfl
  have hring₀ : (e₀.loc.ring .ioRing).init = true ∨ ∃ x ∈ l, x.writeback = true := by
    rw [he₀]
    exact hring
  refine ((total_prepareSlots hk₀ hi₀ hidle hin hlen).strengthen ((after_still_last hk₀
    (always_collect fun x => still_prepareSlot x)).and (snapshot_prepareSlots hk₀ hi₀ hidle))).bind
    fun written e ⟨hk, hw, hi, hinit⟩ => ?_
  have hinit : (e.loc.ring .ioRing).init = true := by
    rcases hinit with h | ⟨h₁, h₂⟩
    · exact h
    · rcases hring₀ with h | ⟨x, hx, hxw⟩
      · rw [h] at h₁
        cases h₁
      · rw [h₂ x hx] at hxw
        cases hxw
  have hsq : (e.loc.ring .ioRing).outstanding ++ (e.loc.ring .ioRing).sq = requests k l := by
    rw [show (e.loc.ring .ioRing).sq = requests k l from (congrArg Snapshot.sq hi :),
      show (e.loc.ring .ioRing).outstanding = [] from
      (congrArg Snapshot.outstanding hi :).trans hidle.outstanding, List.nil_append]
  have hsubmit := total_submitWrites hinit
  refine (hsubmit.strengthen (hsubmit.after.and
      (after_still_last hk (within_submit transferring_still _)))).bind
    fun _ e ⟨⟨hinit, hsub⟩, hk⟩ => ?_
  rw [hsq] at hsub
  have hlen' : (written.filter id).length = (e.loc.ring .ioRing).outstanding.length := by
    rw [hsub, hw]
    unfold requests
    rw [List.length_map, List.filter_map, List.length_map]
    rfl
  refine ((total_waitWrites hinit hlen').strengthen
    (after_still_last hk (always_each fun _ => within_wait transferring_still _))).bind
      fun _ e hk => ?_
  refine ((total_unmapSlots hk hvma).strengthen
    (after_still_last hk (always_each fun x => still_unmapSlot x))).bind fun _ e hk => ?_
  have hmoves : After (Prog.each moveSlot l) e fun _ e' =>
      e'.sh.skeleton = l.foldl Skeleton.move k := by
    refine (after_each (fun todo e =>
      ∃ done, done ++ todo = l ∧ e.sh.skeleton = done.foldl Skeleton.move k) ⟨[], rfl, hk⟩ ?_).mono
      fun _ e ⟨done, hdone, hk⟩ => ?_
    · rintro x todo e ⟨done, hdone, hk⟩
      refine (after_moveSlot hk).mono fun _ e' hk' => ⟨done ++ [x], by simpa using hdone, ?_⟩
      rw [hk', List.foldl_append]
      rfl
    · rw [List.append_nil] at hdone
      rw [hk, hdone]
  refine ((total_moveSlots l).strengthen hmoves).bind fun _ e hk => ?_
  obtain ⟨e', he'⟩ := marksAll hnodup e fun x hx => by
    have hpage : e.sh.page x.victim = (l.foldl Skeleton.move k).page x.victim := by
      rw [← hk]
      rfl
    rw [hpage, (marks_moves l k _).1, (marks_moves l k _).2]
    exact ⟨hout x hx, hmig x hx⟩
  exact total_atomic ⟨(), e', he', trivial⟩

/-! The last loop. -/

private theorem departs_keep (l : List Slot) (k : Skeleton) (z : PageId) :
    ((l.foldl Skeleton.depart k).page z).present = (k.page z).present ∧
    (k.list z = none → (l.foldl Skeleton.depart k).list z = none) := by
  induction l generalizing k with
  | nil => exact ⟨rfl, id⟩
  | cons x l ih =>
    obtain ⟨h₁, h₂⟩ := ih (k.depart x)
    rw [List.foldl_cons, h₁]
    refine ⟨?_, fun hz => h₂ ?_⟩
    · by_cases hz : z = x.victim
      · subst hz
        simp [Skeleton.depart, Skeleton.markOut, Skeleton.mark, Skeleton.takeDisk, Skeleton.move,
          Skeleton.write, Skeleton.unlink]
      · rw [page_depart k hz]
    · rw [list_depart, hz]
      simp

/-- Before the last loop comes to them the two descriptors are on no list and the victim is
marked. -/
private theorem departs_first {x : Slot} {l : List Slot}
    (hall : ∀ y ∈ l, x.Apart y) (k : Skeleton) :
    ((x :: l).foldl Skeleton.depart k).list x.victim = none ∧
    ((x :: l).foldl Skeleton.depart k).list x.diskpage = none ∧
    (((x :: l).foldl Skeleton.depart k).page x.victim).migrating = true ∧
    (((x :: l).foldl Skeleton.depart k).page x.victim).swappedOut = true := by
  have hpage : ∀ (l : List Slot) (k : Skeleton), (∀ y ∈ l, x.Apart y) →
      (l.foldl Skeleton.depart k).page x.victim = k.page x.victim := by
    intro l
    induction l with
    | nil => exact fun _ _ => rfl
    | cons y l ih =>
      intro k hl
      rw [List.foldl_cons, ih _ fun z hz => hl z (List.mem_cons_of_mem _ hz),
        page_depart k (hl y List.mem_cons_self).1]
  rw [List.foldl_cons, hpage l _ hall]
  refine ⟨(departs_keep l _ _).2 ?_, (departs_keep l _ _).2 ?_, ?_, ?_⟩
  · rw [list_depart]
    simp
  · rw [list_depart]
    simp
  · simp [Skeleton.depart, Skeleton.markOut, Skeleton.mark, Skeleton.takeDisk, Skeleton.move,
      Skeleton.write, Skeleton.unlink]
  · simp [Skeleton.depart, Skeleton.markOut, Skeleton.mark, Skeleton.takeDisk, Skeleton.move,
      Skeleton.write, Skeleton.unlink]

private theorem total_finishSlot {x : Slot} (hk : e.sh.skeleton = k) (hne : x.diskpage ≠ x.victim)
    (hv : k.list x.victim = none) (hr : k.list x.diskpage = none)
    (hpres : (k.page x.diskpage).present = false) (hm : (k.page x.victim).migrating = true)
    (hout : (k.page x.victim).swappedOut = true) : Total (finishSlot x) e fun _ _ => True := by
  unfold finishSlot
  refine total_field hk fun e hk => ?_
  cases (k.page x.victim).hasReserve with
  | true =>
    rw [if_pos rfl]
    refine total_giveFrame hk (fun _ => rfl) fun e hk => ?_
    have hdrop : Total (dropReserve x.victim x.diskpage) e fun _ _ =>
        True := .act rfl (.act rfl (.ret trivial))
    refine (hdrop.strengthen (after_dropReserve hk)).bind fun _ e hk => ?_
    refine total_enqueueThen hk (fun _ => rfl) (by simpa using hr) fun e hk => ?_
    refine total_enqueueThen hk (fun _ => rfl) ?_ fun e hk => total_releaseVictim hk ?_ ?_
    · rw [Skeleton.list_link (by simpa using hr), if_neg hne.symm]
      simpa using hv
    · simp [Skeleton.write, Skeleton.link, hne.symm, hm]
    · simp [Skeleton.write, Skeleton.link, hne.symm, hout]
  | false =>
    rw [if_neg Bool.false_ne_true]
    refine total_assertPage hk (by simpa using hpres) fun e hk =>
      total_enqueueThen hk (fun _ => rfl) hv fun e hk => ?_
    refine total_giveFrame hk (fun _ => rfl) fun e hk =>
      total_enqueueThen hk (fun _ => rfl) ?_ fun e hk => total_releaseVictim hk ?_ ?_
    · rw [Skeleton.list_write, Skeleton.list_link hv, if_neg hne]
      exact hr
    · simp [Skeleton.write, Skeleton.link, hne.symm, hm]
    · simp [Skeleton.write, Skeleton.link, hne.symm, hout]

private theorem total_finishSlots {slots : List Slot} (h : Ending n frames hand k slots slots e k) :
    Total (Prog.each finishSlot slots) e fun _ _ => True := by
  refine (total_each (fun todo e => ∃ k₁, Ending n frames hand k slots todo e k₁) ⟨k, h⟩ ?_).mono
    fun _ _ _ => trivial
  rintro x todo e ⟨k₁, h⟩
  refine Total.strengthen (Q := fun _ _ => True) ?_ h.step
  obtain ⟨hall, -⟩ := List.pairwise_cons.mp h.apart
  obtain ⟨h₁, h₂, h₃, h₄⟩ := departs_first hall k₁
  have hne : x.diskpage ≠ x.victim := by
    cases h.evictions with
    | cons _ _ hp _ => exact hp.ne
  exact total_finishSlot h.state hne h₁ h₂ ((departs_keep _ _ _).1.trans (h.whole.present _)) h₃ h₄

/-! A page that is to be written back. -/

/-- The page at an address is mapped and marked dirty. -/
def Threads.Ctx.dirty (e : Env) (a : Nat) : Bool := ((e.sh.pte a).map (·.dirty)).getD false

/-- A step after which a dirty page is still dirty. -/
def KeepsDirty (a : Nat) (e e' : Env) : Prop := e.dirty a = true → e'.dirty a = true

theorem dirty_setPte {a va : Nat} {o : Option Pte} {l : Local} :
    Threads.Ctx.dirty ⟨e.sh.setPte va o, l⟩ a = if a = va then (o.map (·.dirty)).getD false
      else e.dirty a := by
  unfold Threads.Ctx.dirty Shared.setPte
  dsimp only
  split
  · next ha => rw [ha, Function.update_self]
  · next ha => rw [Function.update_of_ne ha]

theorem after_dirty_wpPage (a : Nat) (d : PageId) (b : Bool) :
    After (extmemWpPage d b) e fun _ e' => e'.dirty a = e.dirty a := by
  have hwp : Always (Within fun e e' : Env => e'.dirty a = e.dirty a) (extmemWpPage d b) := by
    refine within_extmemWpPage d b (fun _ => rfl) fun e va => ?_
    refine (dirty_setPte (l := e.loc)
      (o := (e.sh.pte va).map fun p : Pte => { p with wp := b })).trans ?_
    split
    · next ha =>
      unfold Threads.Ctx.dirty
      rw [ha]
      cases e.sh.pte va <;> rfl
    · rfl
  exact after_within hwp (fun _ => rfl) fun h₁ h₂ => h₂.trans h₁

private theorem scanning_keepsDirty {a : Nat} : Scanning (KeepsDirty a) where
  refl _ := id
  trans h₁ h₂ := h₂ ∘ h₁
  enqueue _ _ _ _ _ := id
  dequeue _ _ _ _ _ _ := id
  remove _ _ _ _ _ := id
  auxiliary _ _ _ _ := id
  record _ _ _ _ _ := id
  flag _ _ _ _ _ _ := id
  enqueueAny _ _ _ := id
  dequeueAny _ _ _ := id
  setPage _ _ _ _ _ := id
  setPte e va p q hp _ hd hdirty := by
    refine (dirty_setPte (l := e.loc) (o := some q)).trans ?_
    split
    · next ha =>
      unfold Threads.Ctx.dirty at hdirty
      rw [ha, hp] at hdirty
      have hq : q.dirty ≠ false := fun hq => Bool.false_ne_true ((hd hq).symm.trans hdirty)
      exact (Bool.not_eq_false _).mp hq
    · exact hdirty
  running _ _ _ := id
  waits _ _ := id

/-- What is read of a dirty page is that it is dirty. -/
private theorem after_dirtyBits (hk : e.sh.skeleton = k) (h : e.dirty (k.page d).va = true) :
    After (ptGetBits d) e fun bits _ => bits.dirty = true := by
  unfold ptGetBits
  refine (after_bind _ _ _ _).mpr ((after_read _ _ _).mpr (after_check fun _ =>
    (after_bind _ _ _ _).mpr ((after_answer _ _).mpr fun acc => (after_bind _ _ _ _).mpr
    ((after_answer _ _).mpr fun off => (after_atomic _ _ _).mpr fun bits e' he => ?_))))
  rw [← hk] at h
  have h' : ((e.sh.pte (e.sh.page d).va).map (·.dirty)).getD false = true := h
  dsimp only at he
  cases hp : e.sh.pte (e.sh.page d).va with
  | none =>
    rw [hp] at h'
    cases h'
  | some p =>
    rw [hp] at h' he
    cases he
    have hd : p.dirty = true := h'
    simp [seenBit, hd]

/-- A page without a reserve and a dirty page are to be written back. -/
private theorem after_prepareDirty (hk : e.sh.skeleton = k)
    (h : (k.page d).hasReserve = false ∨ e.dirty (k.page d).va = true) :
    After (prepareVictim d) e fun x _ => x.2.2 = true := by
  unfold prepareVictim protectVictim
  refine (after_bind _ _ _ _).mpr ((after_modify _ _ _).mpr ?_)
  obtain ⟨e₀, he₀⟩ : ∃ e₀ : Env, e₀ = e.setPage d fun p => { p with migrating := true } := ⟨_, rfl⟩
  obtain ⟨k₀, hk₀⟩ : ∃ k₀, k₀ = k.write d fun p => { p with migrating := true } := ⟨_, rfl⟩
  have hke : e₀.sh.skeleton = k₀ := by
    rw [he₀, hk₀, ← hk]
    rfl
  have h₀ : (k₀.page d).hasReserve = false ∨ e₀.dirty (k₀.page d).va = true := by
    rw [hk₀, Skeleton.page_write_self, he₀]
    exact h
  rw [← he₀]
  refine after_field hke ?_
  refine after_then (R := fun w _ => w = true) ?_ fun w e hw => (after_pure _ _ _).mpr hw
  refine after_then ((after_still_last hke (by simp)).and (after_dirty_wpPage (k₀.page d).va d true))
    fun _ e ⟨hk, hd⟩ => ?_
  have hbits : After (ptGetBits d) e fun bits e' =>
      (e₀.dirty (k₀.page d).va = true → bits.dirty = true) ∧ e'.sh.skeleton = k₀ := by
    refine After.and ?_ (after_still_last hk (by simp))
    intro bits e' hr hd₀
    exact after_dirtyBits hk (hd.trans hd₀) bits e' hr
  refine after_then hbits fun bits e ⟨hb, hk⟩ => after_field hk ?_
  refine (after_bind _ _ _ _).mpr ((after_modify _ _ _).mpr ((after_pure _ _ _).mpr ?_))
  rcases h₀ with h | h
  · rw [h]
    exact Bool.or_true _
  · rw [hb h]
    rfl

/-- If a victim has no reserve or is dirty, the first loop finds one to write back. -/
theorem after_prepareVictims_dirty {vs : List PageId}
    (hk : e.sh.skeleton = vs.foldl Skeleton.unlink k)
    (h : ∃ v ∈ vs, (k.page v).hasReserve = false ∨ e.dirty (k.page v).va = true) :
    After (Prog.collect prepareVictim vs) e fun prepared _ => ∃ x ∈ prepared, x.2.2 = true := by
  obtain ⟨v, hv, hd⟩ := h
  refine (after_collect (fun todo done e =>
    (∃ ds : List PageId, e.sh.skeleton = ds.foldl Skeleton.mark (vs.foldl Skeleton.unlink k)) ∧
    (v ∈ todo ∧ ((k.page v).hasReserve = false ∨ e.dirty (k.page v).va = true) ∨
    ∃ x ∈ done, x.2.2 = true)) ⟨⟨[], hk⟩, .inl ⟨hv, hd⟩⟩ ?_).mono fun prepared e' ⟨_, h⟩ => ?_
  · rintro d todo done e ⟨⟨ds, hk⟩, h⟩
    have hmark := (after_prepareVictim (d := d) hk).mono fun x e' ⟨_, _, hk'⟩ =>
      (⟨ds ++ [d], by rw [hk', List.foldl_append]; rfl⟩ : ∃ ds : List PageId,
      e'.sh.skeleton = ds.foldl Skeleton.mark (vs.foldl Skeleton.unlink k))
    refine hmark.and ?_
    rcases h with ⟨hv, hd⟩ | ⟨x, hx, hw⟩
    · rcases List.mem_cons.mp hv with rfl | hv
      · obtain ⟨b, hb⟩ := page_marks (vs.foldl Skeleton.unlink k) ds v
        rw [page_unlinks] at hb
        refine (after_prepareDirty hk (by rw [hb]; exact hd)).mono fun x e' hx => .inr ⟨x, ?_, hx⟩
        exact List.mem_append_right _ (List.mem_singleton_self x)
      · intro x e' hr
        refine .inl ⟨hv, hd.imp id fun hd => ?_⟩
        exact after_within (within_prepareVictim scanning_keepsDirty.toClaiming (fun _ _ _ => id) d)
          scanning_keepsDirty.refl scanning_keepsDirty.trans x e' hr hd
    · exact fun _ _ _ => .inr ⟨x, List.mem_append_left _ hx, hw⟩
  · rcases h with ⟨hv, -⟩ | h
    · cases hv
    · exact h

/-! The whole batch. -/

theorem takes_keep (m : Nat) (e : Env) :
    (Threads.Ctx.dequeueVector .evictionList takeVictim m e).1.sh.pte = e.sh.pte ∧
    (Threads.Ctx.dequeueVector .evictionList takeVictim m e).1.loc.ring = e.loc.ring := by
  induction m generalizing e with
  | zero => exact ⟨rfl, rfl⟩
  | succ m ih =>
    unfold Threads.Ctx.dequeueVector
    split
    · exact ⟨rfl, rfl⟩
    · next d xs _ =>
      obtain ⟨h₁, h₂⟩ := ih (takeVictim d (e.dequeue .evictionList d))
      exact ⟨h₁.trans rfl, h₂.trans rfl⟩

private theorem marks_mark {ds : List PageId} {v : PageId} (hv : v ∈ ds) (k : Skeleton) :
    ((ds.foldl Skeleton.mark k).page v).migrating = true := by
  induction ds generalizing k with
  | nil => cases hv
  | cons d ds ih =>
    by_cases hd : v ∈ ds
    · exact ih hd (k.mark d)
    · have hvd : v = d := (List.mem_cons.mp hv).resolve_right hd
      subst hvd
      have hkeep : ∀ (ds : List PageId) (k : Skeleton), v ∉ ds →
          (ds.foldl Skeleton.mark k).page v = k.page v := by
        intro ds
        induction ds with
        | nil => exact fun _ _ => rfl
        | cons d ds ih =>
          intro k hd
          rw [List.foldl_cons, ih _ fun hc => hd (List.mem_cons_of_mem _ hc), Skeleton.mark,
            Skeleton.page_write_of_ne _ _ fun hc : v = d => hd (List.mem_cons.mpr (.inl hc))]
      rw [List.foldl_cons, hkeep ds _ hd, Skeleton.mark, Skeleton.page_write_self]

private theorem page_takeDisks (l : List Slot) (k : Skeleton) :
    (l.foldl Skeleton.takeDisk k).page = k.page ∧ (l.foldl Skeleton.takeDisk k).vma = k.vma := by
  induction l generalizing k with
  | nil => exact ⟨rfl, rfl⟩
  | cons x l ih => exact ih (k.takeDisk x)

/-- The pages of a batch are registered. -/
theorem registered_batch {v : PageId} {m : Nat} (h : Whole n frames hand k)
    (hmap : ∀ b d, b ≠ 0 → k.pages b = some d → k.vma b = .uffd)
    (hv : v ∈ (k.fifos.seq .evictionList).take m) : (k.page v).Resident ∧ Registered k v := by
  have hl : k.list v = some .evictionList := Queues.tag_of_mem (List.mem_of_mem_take hv)
  have hr : (k.page v).Resident := h.fits hl
  exact ⟨hr, hr.1, hr.2.1, hmap _ v hr.1 ((h.hash _ v hr.1).mpr ⟨h.lt_of_list hl, rfl⟩)⟩

/-- The victims of a batch can be migrated. -/
theorem Taken.ready {vs : List PageId} {slots : List Slot} (ht : Taken k vs slots k')
    (h : Whole n frames hand k) (hmap : ∀ b d, b ≠ 0 → k.pages b = some d → k.vma b = .uffd)
    (hvs : (k.fifos.seq .evictionList).take evictVectorSize = vs) :
    (slots.map (·.victim)).Nodup ∧ slots.length ≤ queueDepth ∧
    ∀ x ∈ slots, (k'.page x.victim).inDram = true ∧ (k'.page x.victim).swappedOut = false ∧
      (k'.page x.victim).migrating = true ∧ k'.vma (k'.page x.victim).va ≠ .none := by
  refine ⟨?_, ?_, fun x hx => ?_⟩
  · rw [ht.victims, ← hvs]
    exact (k.fifos.nodup _).sublist (List.take_sublist _ _)
  · have hle : (slots.map (·.victim)).length ≤ evictVectorSize := by
      rw [ht.victims, ← hvs]
      exact List.length_take_le _ _
    rw [List.length_map] at hle
    exact Nat.le_trans hle (by decide)
  · have hv : x.victim ∈ vs := by
      rw [← ht.victims]
      exact List.mem_map_of_mem hx
    obtain ⟨hr, hreg⟩ := registered_batch h hmap (hvs ▸ hv)
    obtain ⟨b, hb⟩ : ∃ b, k'.page x.victim = { k.page x.victim with migrating := b } := by
      rw [ht.state, (page_takeDisks _ _).1]
      exact (marked_of_unlinks hvs).2.1 _
    have hm : (k'.page x.victim).migrating = true := by
      rw [ht.state, (page_takeDisks _ _).1]
      exact marks_mark hv _
    rw [hb] at hm ⊢
    refine ⟨hr.2.2.1, hr.2.2.2.2.1, hm, ?_⟩
    rw [ht.state, (page_takeDisks _ _).2, vma_marks, vma_unlinks, hreg.mapped]
    simp

/-- The pages that the next batch takes. -/
def Threads.Ctx.batch (e : Env) : List PageId := (e.sh.fifos.seq .evictionList).take evictVectorSize

/-- The write ring is ready, or nothing waits on the eviction list, or one of the pages taken is to
be written back. -/
def RingReady (e : Env) (vs : List PageId) : Prop := (e.loc.ring .ioRing).init = true ∨ vs = [] ∨
  ∃ v ∈ vs, (e.sh.page v).hasReserve = false ∨ e.dirty (e.sh.page v).va = true

/-- A batch returns if there are disk frames and the write ring is ready. -/
theorem total_lrudiskEvictionworkerVector {vs : List PageId} (hk : e.sh.skeleton = k)
    (h : Whole n frames hand k) (hmap : ∀ b d, b ≠ 0 → k.pages b = some d → k.vma b = .uffd)
    (hvs : (k.fifos.seq .evictionList).take evictVectorSize = vs) (henough : Enough k vs.length)
    (hidle : (e.snapshot fun _ => true).Idle) (hring : RingReady e vs) :
    Total lrudiskEvictionworkerVector e fun _ _ => True := by
  have hreg (v : PageId) (hv : v ∈ vs) : Registered k v := (registered_batch h hmap (hvs ▸ hv)).2
  have hready : (e.loc.ring .ioRing).init = true ∨ vs = [] ∨
      ∃ v ∈ vs, (k.page v).hasReserve = false ∨ e.dirty (k.page v).va = true := by
    rw [← hk]
    exact hring
  obtain ⟨i, hi⟩ : ∃ i, e.snapshot (fun _ => true) = i := ⟨_, rfl⟩
  rw [hi] at hidle
  unfold lrudiskEvictionworkerVector
  have htake : Total (dequeueFifoVectorThen .evictionList evictVectorSize takeVictim) e
      fun victims e' => ((victims = vs ∧ e'.sh.skeleton = vs.foldl Skeleton.unlink k) ∧
      e'.snapshot (fun _ => true) = i) ∧ e'.sh.pte = e.sh.pte ∧ e'.loc.ring = e.loc.ring := by
    refine Total.strengthen (Q := fun _ _ => True) (total_atomic ⟨_, _, rfl, trivial⟩)
      ((after_take hk hvs hi).and ?_)
    refine (after_atomic _ _ _).mpr fun b e' he => ?_
    dsimp only at he
    cases he
    exact takes_keep _ _
  refine htake.bind fun victims e₁ ⟨⟨⟨hvictims, hk₁⟩, hi₁⟩, hpte, hloc⟩ => ?_
  subst victims
  by_cases hnone : vs = []
  · rw [hnone]
    exact .ret trivial
  rw [if_neg (by simpa using hnone)]
  have hdirty : (∃ v ∈ vs, (k.page v).hasReserve = false ∨ e.dirty (k.page v).va = true) →
      ∃ v ∈ vs, (k.page v).hasReserve = false ∨ e₁.dirty (k.page v).va = true := by
    unfold Threads.Ctx.dirty
    rw [hpte]
    exact id
  have hprepared : After (Prog.collect prepareVictim vs) e₁ fun prepared _ =>
      (∃ v ∈ vs, (k.page v).hasReserve = false ∨ e.dirty (k.page v).va = true) →
      ∃ x ∈ prepared, x.2.2 = true :=
    fun prepared e' hr hd => after_prepareVictims_dirty hk₁ (hdirty hd) prepared e' hr
  refine ((total_prepareVictims hk₁ hreg).strengthen
    (((after_prepareVictims hk₁).and (snapshot_prepareVictims hk₁ (fun _ _ => rfl) hi₁)).and
    (hprepared.and (after_ringsKept (always_collect ringsKept_prepareVictim))))).bind
    fun prepared e₂ ⟨⟨⟨hvs', hoffs, hk₂⟩, hi₂, _⟩, hwrite, hring₂⟩ => ?_
  refine ((total_findDiskpages h hmap hvs hvs' henough hk₂).strengthen
    (((after_findDiskpages hvs hvs' hoffs hk₂).and (snapshot_findDiskpages hi₂)).and
    (after_ringsKept (always_collect ringsKept_findDiskpage)))).bind
    fun slots e₃ ⟨⟨ht, hi₃, hmapped⟩, hring₃⟩ => ?_
  obtain ⟨hnodup, hlen, hslots⟩ := ht.ready h hmap hvs
  have hidle₃ : (prepared.foldl (fun i x => i.decide x.1 x.2.2) i).Idle :=
    idle_decides prepared hidle
  have hmigrate : Total (extmemMigrateDowndiskVector slots) e₃ fun _ _ => True := by
    refine total_downdiskVector rfl hi₃ hidle₃ hnodup hlen (fun x hx => (hslots x hx).1)
      (fun x hx => (hslots x hx).2.1) (fun x hx => (hslots x hx).2.2.1)
      (fun x hx => (hslots x hx).2.2.2) ?_
    rw [hring₃, hring₂, hloc]
    refine hready.imp id fun hd => ?_
    obtain ⟨y, hy, hw⟩ := hwrite (hd.resolve_left hnone)
    have hm : (y.1, y.2.2) ∈ slots.map fun x => (x.victim, x.writeback) := by
      rw [hmapped]
      exact List.mem_map_of_mem hy
    obtain ⟨x, hx, hxy⟩ := List.mem_map.mp hm
    exact ⟨x, hx, (Prod.mk.inj hxy).2.trans hw⟩
  refine (hmigrate.strengthen (after_downdiskVector rfl)).bind fun _ e₄ hk₄ => ?_
  have hdep : e₄.sh.skeleton = slots.foldl Skeleton.depart k := by
    rw [hk₄, ht.state, ← loops_depart k ht.apart, ← ht.victims]
    simp only [List.foldl_map]
  exact total_finishSlots ⟨h, ht.evictions, ht.apart, ht.offsets, hdep, rfl⟩

end ExtMem
