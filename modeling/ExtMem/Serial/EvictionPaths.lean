import ExtMem.Serial.CleanBatch

/-! The three ways to evict: a batch of the vector worker, rounds of the scalar worker, and the
eviction that fetches a free frame. -/
namespace ExtMem
open Threads Threads.Prog

variable {n : Nat} {frames : List Frame} {hand : PageId → Option Hand} {i : Snapshot} {k : Skeleton}
  {e e₁ e₂ : Env}

/-- Lists and descriptors, page table, disk contents and migration counters are the same. -/
structure SameState (s s' : Shared) : Prop where
  skeleton : s.skeleton = s'.skeleton
  pte : s.pte = s'.pte
  disk : s.disk = s'.disk
  migrationsUp : s.stats.migrationsUp = s'.stats.migrationsUp
  migrationsDown : s.stats.migrationsDown = s'.stats.migrationsDown
  bytesMigrated : s.stats.bytesMigrated = s'.stats.bytesMigrated

/-- The kernel sets no bit by itself, or has the same found dirty in both. -/
def SameFlags (e e₁ e₂ : Env) : Prop := e.sh.spurious = true →
    decisions e₁.sh.log = decisions e₂.sh.log

/-- The addresses of some pages. -/
def Skeleton.addresses (k : Skeleton) (ds : List PageId) (a : Nat) : Bool :=
  ds.any fun d => (k.page d).va == a

theorem Skeleton.addresses_of_mem {k : Skeleton} {ds : List PageId} {d : PageId} (h : d ∈ ds) :
    k.addresses ds (k.page d).va = true :=
  List.any_eq_true.mpr ⟨d, h, beq_self_eq_true _⟩

/-- Two snapshots of the same evictions are equal as far as they show. -/
theorem sameState_of_snapshot {S : Nat → Bool} (hk : e₁.sh.skeleton = e₂.sh.skeleton)
    (hi : e₁.snapshot S = e₂.snapshot S) (hnone : ∀ a, S a = true → (e₁.snapshot S).pte a = none) :
    SameState e₁.sh e₂.sh := by
  have hmoved := congrArg Snapshot.moved hi
  refine ⟨hk, ?_, (congrArg Snapshot.disk hi :), (congrArg (·.1) hmoved :),
    (congrArg (·.2.1) hmoved :), (congrArg (·.2.2) hmoved :)⟩
  funext a
  have h₁ : (e₁.snapshot S).pte a = (e₂.snapshot S).pte a := by rw [hi]
  have h₂ := hnone a
  rw [h₁] at h₂
  unfold Threads.Ctx.snapshot at h₁ h₂
  dsimp only at h₁ h₂
  cases ha : S a with
  | false =>
    rw [ha, if_neg Bool.false_ne_true, if_neg Bool.false_ne_true] at h₁
    exact h₁
  | true =>
    have h₂ := h₂ ha
    rw [ha, if_pos rfl] at h₂
    rw [ha, if_pos rfl, if_pos rfl, h₂] at h₁
    rw [Option.map_eq_none_iff.mp h₁, Option.map_eq_none_iff.mp h₂]

/-- The two descriptors that exchange their frames. -/
def Slot.exchange (x : Slot) : PageId × PageId := (x.victim, x.diskpage)

/-- The evictions of the same pages take the same disk frames. -/
theorem Evictions.unique {l l' : List Slot} (h : Evictions k l) (h' : Evictions k l')
    (hv : l.map (·.victim) = l'.map (·.victim)) : l.map Slot.exchange = l'.map Slot.exchange := by
  induction h generalizing l' with
  | nil k =>
    rw [List.map_nil, eq_comm, List.map_eq_nil_iff] at hv
    rw [hv]
  | @cons k x l ds hs hp _ ih =>
    cases h' with
    | nil => cases hv
    | @cons _ y l' ds' hs' hp' hl' =>
    have hvy : x.victim = y.victim := (List.cons.inj hv).1
    rw [← hvy] at hp'
    have hr : x.diskpage = y.diskpage := hp.unique hp'
    have hstep : k.evictSlot x = k.evictSlot y := by
      unfold Skeleton.evictSlot
      rw [hvy, hr]
    rw [← hstep] at hl'
    rw [List.map_cons, List.map_cons, ih hl' (List.cons.inj hv).2, Slot.exchange, Slot.exchange,
      hvy, hr]

theorem evictSlots_congr {l l' : List Slot} (h : l.map Slot.exchange = l'.map Slot.exchange)
    (k : Skeleton) : l.foldl Skeleton.evictSlot k = l'.foldl Skeleton.evictSlot k := by
  have hfold (l : List Slot) : l.foldl Skeleton.evictSlot k = (l.map Slot.exchange).foldl
      (fun k x => ((k.unlink x.1).evict x.1 x.2).link .dramFreeList x.2) k := by
    rw [List.foldl_map]
    rfl
  rw [hfold, hfold, h]

private theorem apart_congr {l l' : List Slot} (h : l.map Slot.exchange = l'.map Slot.exchange)
    (hl : l.Pairwise (Slot.Separate k)) : l'.Pairwise (Slot.Separate k) := by
  have hpair (l : List Slot) : l.Pairwise (Slot.Separate k) ↔
      (l.map Slot.exchange).Pairwise fun x y =>
      Slot.Separate k ⟨x.1, ⟨true, 0⟩, true, x.2⟩ ⟨y.1, ⟨true, 0⟩, true, y.2⟩ := by
    rw [List.pairwise_map]
    exact List.Pairwise.iff fun {x y} =>
      ⟨fun ⟨h₁, h₂, h₃⟩ => ⟨h₁, h₂, h₃⟩, fun ⟨h₁, h₂, h₃⟩ => ⟨h₁, h₂, h₃⟩⟩
  rw [hpair, ← h, ← hpair]
  exact hl

namespace Snapshot

variable {d r : PageId} {w : Bool}

/-- An eviction adds its decision and leaves its page unmapped. -/
theorem evict_ends (i : Snapshot) :
    (i.evict k d r w).decided = (d, w) :: i.decided ∧
    (i.evict k d r w).pte (k.page d).va = none := by
  obtain ⟨disk, hd⟩ := (i.decide d w).leave_eq (k.page d).va (k.page r).virtualOffset.offset w
  unfold evict
  rw [hd]
  exact ⟨rfl, Function.update_self _ _ _⟩

theorem decided_evicts (k : Skeleton) (l : List Slot) (i : Snapshot) :
    (l.foldl (Snapshot.evictSlot k) i).decided =
      (l.map fun x => (x.victim, x.writeback)).reverse ++ i.decided := by
  induction l generalizing i with
  | nil => rfl
  | cons x l ih =>
    have hx : (i.evictSlot k x).decided = (x.victim, x.writeback) :: i.decided := (evict_ends i).1
    rw [List.foldl_cons, ih, hx, List.map_cons, List.reverse_cons, List.append_assoc]
    rfl

/-- The pages evicted are not mapped any more. -/
theorem pte_evicts (k : Skeleton) (l : List Slot) (i : Snapshot) (a : Nat)
    (h : i.pte a = none ∨ ∃ x ∈ l, (k.page x.victim).va = a) :
    (l.foldl (Snapshot.evictSlot k) i).pte a = none := by
  induction l generalizing i with
  | nil =>
    rcases h with h | ⟨x, hx, -⟩
    · exact h
    · cases hx
  | cons x l ih =>
    rw [List.foldl_cons]
    refine ih _ ?_
    by_cases ha : (k.page x.victim).va = a
    · left
      rw [← ha]
      exact (evict_ends i).2
    · rcases h with h | ⟨y, hy, hya⟩
      · left
        rw [evictSlot, (pte_evict (Ne.symm ha)).1]
        exact h
      · rcases List.mem_cons.mp hy with rfl | hy
        · exact absurd hya ha
        · exact .inr ⟨y, hy, hya⟩

end Snapshot

/-- Two lists of the same exchanges with the same decisions. -/
private theorem evicts_congr {l l' : List Slot} (h : l.map Slot.exchange = l'.map Slot.exchange)
    (hw : l.map (·.writeback) = l'.map (·.writeback)) (i : Snapshot) :
    l.foldl (Snapshot.evictSlot k) i = l'.foldl (Snapshot.evictSlot k) i := by
  induction l generalizing l' i with
  | nil =>
    rw [List.map_nil, eq_comm, List.map_eq_nil_iff] at h
    rw [h]
  | cons x l ih =>
    cases l' with
    | nil => cases h
    | cons y l' =>
    obtain ⟨hxy, h⟩ := List.cons.inj h
    obtain ⟨hxw, hw⟩ := List.cons.inj hw
    have hxv : x.victim = y.victim := congrArg (·.1) hxy
    have hxr : x.diskpage = y.diskpage := congrArg (·.2) hxy
    have hxw : x.writeback = y.writeback := hxw
    have hx : i.evictSlot k x = i.evictSlot k y := by
      unfold Snapshot.evictSlot
      rw [hxv, hxr, hxw]
    rw [List.foldl_cons, List.foldl_cons, hx]
    exact ih h hw _

/-- The same exchanges, with decisions that follow from the dirty flags or are the same, end in
the same snapshot. -/
theorem evicts_unique {l l' : List Slot} (hev : Evictions k l) (hev' : Evictions k l')
    (hv : l.map (·.victim) = l'.map (·.victim)) (hadm : ∀ x ∈ l, i.AdmitsSlot k x)
    (hadm' : ∀ x ∈ l', i.AdmitsSlot k x) (hd : i.spurious = true →
      (l.foldl (Snapshot.evictSlot k) i).decided = (l'.foldl (Snapshot.evictSlot k) i).decided) :
    l.foldl (Snapshot.evictSlot k) i = l'.foldl (Snapshot.evictSlot k) i := by
  refine evicts_congr (hev.unique hev' hv) ?_ i
  cases hs : i.spurious with
  | true =>
    have h := hd hs
    rw [Snapshot.decided_evicts, Snapshot.decided_evicts] at h
    have h := congrArg (List.map (·.2)) (List.reverse_injective (List.append_cancel_right h))
    rw [List.map_map, List.map_map] at h
    exact h
  | false =>
    have hw (l : List Slot) (hadm : ∀ x ∈ l, i.AdmitsSlot k x) : l.map (·.writeback) =
        (l.map (·.victim)).map fun d => i.dirty (k.page d).va || !(k.page d).hasReserve := by
      rw [List.map_map]
      exact List.map_congr_left fun x hx => hadm x hx hs
    rw [hw l hadm, hw l' hadm', hv]

/-- The rounds of the scalar worker that evict what a batch evicts. -/
def scalarRounds (e : Env) : Paging Unit :=
  Prog.each (fun _ => lrudiskEvictionworker) (List.range e.batch.length)

/-- A batch and as many rounds of the scalar worker end in the same state. -/
theorem sameState_of_batch {t : Unit} (h : Whole n frames hand e.sh.skeleton) (hf : frames.Nodup)
    (hidle : ∀ S, (e.snapshot S).Idle) (hb : Runs lrudiskEvictionworkerVector e t e₁)
    (hr : Runs (scalarRounds e) e t e₂) (hflags : SameFlags e e₁ e₂) : SameState e₁.sh e₂.sh := by
  obtain ⟨k, hk⟩ : ∃ k, e.sh.skeleton = k := ⟨_, rfl⟩
  rw [hk] at h
  have hbatch : e.batch = (k.fifos.seq .evictionList).take evictVectorSize := by
    rw [← hk]
    rfl
  have hS : ∀ v ∈ (k.fifos.seq .evictionList).take evictVectorSize,
      k.addresses e.batch (k.page v).va = true := by
    intro v hv
    rw [← hbatch] at hv
    exact Skeleton.addresses_of_mem hv
  have hlen : (List.range e.batch.length).length = e.batch.length := List.length_range
  have htake : (k.fifos.seq .evictionList).take e.batch.length = e.batch := by
    rw [hbatch, List.length_take, ← List.take_take, List.take_length]
  obtain ⟨l, hev, hsep, hv, hi, hadm⟩ := after_batch hk h hf hS rfl (hidle _) _ _ hb
  obtain ⟨l', hev', hv', hk', hi', hadm'⟩ := after_rounds (List.range e.batch.length) hk h
    (by rw [hlen, hbatch]; exact List.length_take_le' _ _)
    (by rw [hlen, htake, hbatch]; exact hS) rfl (hidle _) _ _ hr
  obtain ⟨l₁, hev₁, hv₁, hk₁⟩ := after_lrudiskEvictionworkerVector hk h _ _ hb
  rw [hlen, htake] at hv'
  rw [← hbatch] at hv hv₁
  have hvic : l.map (·.victim) = l'.map (·.victim) := hv.trans hv'.symm
  have hsep' : l'.Pairwise (Slot.Separate k) := apart_congr (hev.unique hev' hvic) hsep
  rw [Snapshot.evicts_eq (hsep'.imp fun h => h.apart)] at hi'
  have hsame : e₁.snapshot (k.addresses e.batch) = e₂.snapshot (k.addresses e.batch) := by
    rw [hi, hi']
    refine evicts_unique hev hev' hvic hadm (Snapshot.admitsSlot_of_all hsep' hadm') fun hs => ?_
    rw [← hi, ← hi']
    exact hflags hs
  refine sameState_of_snapshot ?_ hsame fun a ha => ?_
  · rw [hk₁, hk', evictSlots_congr (hev₁.unique hev' (hv₁.trans hv'.symm))]
  · obtain ⟨d, hd, hda⟩ := List.any_eq_true.mp ha
    rw [← hv] at hd
    obtain ⟨x, hx, rfl⟩ := List.mem_map.mp hd
    rw [hi]
    exact Snapshot.pte_evicts k l _ a (.inr ⟨x, hx, beq_iff_eq.mp hda⟩)

/-! The eviction that fetches a free frame. -/

/-- What `fetch_free_asynch` does about a page on the eviction list. -/
def fetchEvict : Paging (Option PageId) := do
  let page ← dequeueFifoThen .evictionList takeVictim
  match page with
  | some page => do
    let diskpage ← fetchFreeEvict page
    pure (some diskpage)
  | none => pure none

/-- A round of the scalar worker whose free frame is taken. -/
def evictThenFetch : Paging (Option PageId) := do
  lrudiskEvictionworker
  dequeueFifo .dramFreeList

/-- A frame that is put on a list and taken off again. -/
private theorem unlink_link {l : FifoList} {r : PageId} (h : k.list r = none) :
    (k.link l r).unlink r = k := by
  have hfifos : (k.fifos.enqueue l r).unlink r = k.fifos := by
    have hr (m : FifoList) : r ∉ k.fifos.seq m := fun hm => by
      rw [show k.list r = some m from Queues.tag_of_mem hm] at h
      cases h
    refine Queues.ext_seq fun m => ?_
    rw [Queues.seq_unlink, Queues.seq_enqueue h]
    split
    · next hm =>
      rw [hm, List.erase_append_right _ (hr l), List.erase_cons_head, List.append_nil]
    · exact List.erase_of_not_mem (hr m)
  show { k with fifos := (k.fifos.enqueue l r).unlink r } = k
  rw [hfifos]

/-- The eviction that fetches a free frame and a round of the scalar worker whose frame is taken
return the same descriptor in the same state. -/
theorem sameState_of_fetch {d : PageId} {ds : List PageId} {o₁ o₂ : Option PageId}
    (h : Whole n frames hand e.sh.skeleton) (hidle : ∀ S, (e.snapshot S).Idle)
    (hempty : e.sh.fifos.seq .dramFreeList = []) (hs : e.sh.fifos.seq .evictionList = d :: ds)
    (h₁ : Runs fetchEvict e o₁ e₁) (h₂ : Runs evictThenFetch e o₂ e₂) (hflags : SameFlags e e₁ e₂) :
    o₁ = o₂ ∧ o₁.isSome = true ∧ SameState e₁.sh e₂.sh := by
  obtain ⟨k, hk⟩ : ∃ k, e.sh.skeleton = k := ⟨_, rfl⟩
  obtain ⟨S, hSd⟩ : ∃ S, S = k.addresses [d] := ⟨_, rfl⟩
  obtain ⟨i, hi⟩ : ∃ i, e.snapshot S = i := ⟨_, rfl⟩
  have hidle : i.Idle := hi ▸ hidle S
  rw [hk] at h
  have hs : k.fifos.seq .evictionList = d :: ds := by
    rw [← hk]
    exact hs
  have hempty : k.fifos.seq .dramFreeList = [] := by
    rw [← hk]
    exact hempty
  have hl : k.list d = some .evictionList := Whole.list_of_seq hs
  have hS : S (k.page d).va = true := by
    rw [hSd]
    exact Skeleton.addresses_of_mem List.mem_cons_self
  have hpt := h.pt d (h.lt_of_list hl)
  have hfetch : After fetchEvict e fun o e' => ∃ r w, o = some r ∧ Partner (k.unlink d) d r ∧
      i.Admits (k.page d).va (k.page d).hasReserve w ∧ e'.sh.skeleton = (k.unlink d).evict d r ∧
      e'.snapshot S = i.evict k d r w := by
    have hdequeue : After (dequeueFifoThen .evictionList takeVictim) e fun o e' =>
        (o = some d ∧ e'.sh.skeleton = k.unlink d) ∧ e'.snapshot S = i := by
      apply After.and
      · exact after_dequeued hk hs fun _ _ => rfl
      · exact after_unseen (within_takeVictim relinking_unseen.toLinking (by decide)) hi
    refine after_then hdequeue fun o e ⟨⟨ho, hk⟩, hi⟩ => ?_
    subst o
    refine after_then ((after_fetchFreeEvict hk (h.bare hs)).and
      (leaves_fetchFreeEvict hk (by simp) hS hpt hi hidle))
      fun r e ⟨⟨hp, hk⟩, r', w, hp', hw, hi⟩ => (after_pure _ _ _).mpr ?_
    rw [hp'.unique hp] at hi
    exact ⟨r, w, rfl, hp, hw, hk, hi⟩
  have hworker : After evictThenFetch e fun o e' => ∃ r w, o = some r ∧ Partner (k.unlink d) d r ∧
      i.Admits (k.page d).va (k.page d).hasReserve w ∧ e'.sh.skeleton = (k.unlink d).evict d r ∧
      e'.snapshot S = i.evict k d r w := by
    refine after_then ((after_lrudiskEvictionworker hk fun d xs => h.bare).and
        (leaves_lrudiskEvictionworker hk hs hS hpt hi hidle)) fun _ e ⟨he, r', w, hp', hw, hi⟩ => ?_
    rcases he with ⟨hnone, -⟩ | ⟨d', ys, r, hs', hp, hk⟩
    · rw [hs] at hnone
      cases hnone
    · rw [hs] at hs'
      cases hs'
      rw [hp'.unique hp] at hi
      obtain ⟨x, hxv, hxr⟩ : ∃ x : Slot, x.victim = d ∧ x.diskpage = r :=
        ⟨⟨d, (k.page d).virtualOffset, w, r⟩, rfl, rfl⟩
      subst hxv hxr
      have hlr : ((k.unlink x.victim).evict x.victim x.diskpage).list x.diskpage = none :=
        (tags_evictSlot k hp.ne).2
      have hseq : (k.evictSlot x).fifos.seq .dramFreeList = [x.diskpage] := by
        rw [seq_evictSlot k hp.ne, hempty]
        rfl
      refine ((after_dequeued hk hseq fun _ _ => rfl).and
        (after_unseen (within_dequeueFifo relinking_unseen.toLinking (by decide)) hi)).mono
        fun o e ⟨⟨ho, hk⟩, hi⟩ =>
        ⟨x.diskpage, w, ho, hp, hw, ?_, hi⟩
      rw [hk, unlink_link hlr]
  obtain ⟨r₁, w₁, rfl, hp₁, hw₁, hk₁, hi₁⟩ := hfetch _ _ h₁
  obtain ⟨r₂, w₂, rfl, hp₂, hw₂, hk₂, hi₂⟩ := hworker _ _ h₂
  have hr : r₁ = r₂ := hp₁.unique hp₂
  subst hr
  have hw : w₁ = w₂ := by
    cases hsp : i.spurious with
    | false => rw [hw₁ hsp, hw₂ hsp]
    | true =>
      have hd := hflags (by rw [← hi] at hsp; exact hsp)
      have h₁ : decisions e₁.sh.log = (d, w₁) :: i.decided := by
        rw [← (Snapshot.evict_ends i).1, ← hi₁]
        rfl
      have h₂ : decisions e₂.sh.log = (d, w₂) :: i.decided := by
        rw [← (Snapshot.evict_ends i).1, ← hi₂]
        rfl
      rw [h₁, h₂] at hd
      exact (Prod.mk.inj (List.cons.inj hd).1).2
  subst hw
  refine ⟨rfl, rfl, sameState_of_snapshot (hk₁.trans hk₂.symm) (hi₁.trans hi₂.symm) fun a ha => ?_⟩
  rw [hSd] at ha
  obtain ⟨d', hd', hda⟩ := List.any_eq_true.mp ha
  rw [List.mem_singleton.mp hd'] at hda
  rw [hi₁, ← beq_iff_eq.mp hda]
  exact (Snapshot.evict_ends i).2

/-! Between two operations. -/

/-- The three ways to evict agree: if there are disk frames enough, a batch and as many rounds of
the scalar worker both return, and in the same state; and so do, with no DRAM frame free, the
eviction that fetches one and a round of the scalar worker whose frame is taken, with the same
descriptor. -/
structure PathsAgree (e : Env) : Prop where
  batch : Enough e.sh.skeleton e.batch.length → Total lrudiskEvictionworkerVector e fun _ _ => True
  rounds : Enough e.sh.skeleton e.batch.length → Total (scalarRounds e) e fun _ _ => True
  same : ∀ t e₁ e₂, Runs lrudiskEvictionworkerVector e t e₁ → Runs (scalarRounds e) e t e₂ →
    SameFlags e e₁ e₂ → SameState e₁.sh e₂.sh
  fetch : e.sh.fifos.seq .dramFreeList = [] → e.sh.fifos.seq .evictionList ≠ [] →
    Enough e.sh.skeleton 1 →
    Total fetchEvict e (fun _ _ => True) ∧ Total evictThenFetch e (fun _ _ => True) ∧
      ∀ o₁ o₂ e₁ e₂, Runs fetchEvict e o₁ e₁ → Runs evictThenFetch e o₂ e₂ → SameFlags e e₁ e₂ →
        o₁ = o₂ ∧ o₁.isSome = true ∧ SameState e₁.sh e₂.sh

theorem nodup_initFrames (dramsize disksize : Nat) : (initFrames dramsize disksize).Nodup := by
  have hinj (b : Bool) : Function.Injective fun i : Nat => (⟨b, i * pageSize⟩ : Frame) := by
    intro i j hij
    exact Nat.eq_of_mul_eq_mul_right (by decide) (Frame.mk.inj hij).2
  refine List.nodup_append.mpr ⟨List.nodup_range.map (hinj true), List.nodup_range.map (hinj false),
    fun x hx y hy hxy => ?_⟩
  obtain ⟨i, -, rfl⟩ := List.mem_map.mp hx
  obtain ⟨j, -, rfl⟩ := List.mem_map.mp hy
  cases (Frame.mk.inj hxy).1

private theorem idle_of_paused {dramsize disksize : Nat} {c : System}
    (h : Paused dramsize disksize c) (t : Tid) (hsound : c.sh.faulty = false) (S : Nat → Bool) :
    ((⟨c.sh, c.loc t⟩ : Env).snapshot S).Idle :=
  ⟨(h.rings t .ioRing).1, (h.rings t .ioRing).2, hsound⟩

private theorem fetch_agrees {d : PageId} {ds : List PageId} (h : Whole n frames hand e.sh.skeleton)
    (hmap : ∀ b d, b ≠ 0 → e.sh.skeleton.pages b = some d → e.sh.skeleton.vma b = .uffd)
    (hidle : ∀ S, (e.snapshot S).Idle) (henough : Enough e.sh.skeleton 1)
    (hs : e.sh.fifos.seq .evictionList = d :: ds) :
    Total fetchEvict e (fun _ _ => True) ∧ Total evictThenFetch e (fun _ _ => True) := by
  have hev : Evictable (e.sh.skeleton.unlink d) d := evictable h hmap hs (free_of_enough henough hs)
  have hroom : (e.loc.ring .ioRing).sq.length < queueDepth := by
    rw [show (e.loc.ring .ioRing).sq = [] from (hidle fun _ => true).sq]
    decide
  constructor
  · unfold fetchEvict
    refine .act (dequeue_cons hs) ?_
    have hfetch := total_fetchFreeEvict (e := takeVictim d (e.dequeue .evictionList d))
      (k := e.sh.skeleton.unlink d) rfl hroom hev
    exact hfetch.bind fun _ _ _ => .ret trivial
  · refine (total_lrudiskEvictionworker rfl hs hroom hev).bind fun _ e _ => total_atomic ?_
    cases hf : e.sh.fifos.seq .dramFreeList with
    | nil => exact ⟨none, e, rfl, trivial⟩
    | cons r rs => exact ⟨some r, e.dequeue .dramFreeList r, rfl, trivial⟩

private theorem rounds_return {dramsize disksize : Nat} {c : System}
    (h : Paused dramsize disksize c) (t : Tid) (hsound : c.sh.faulty = false)
    (henough : Enough c.sh.skeleton (⟨c.sh, c.loc t⟩ : Env).batch.length) :
    Total (scalarRounds ⟨c.sh, c.loc t⟩) ⟨c.sh, c.loc t⟩ fun _ _ => True := by
  refine total_rounds _ rfl h.settled.whole h.settled.mapped ?_ ?_ (idle_of_paused h t hsound _)
  · rw [List.length_range]
    exact List.length_take_le' _ _
  · rw [List.length_range]
    exact henough

private theorem batch_aborts {dramsize disksize : Nat} {c : System} (h : Paused dramsize disksize c)
    (t : Tid) (hring : ¬ RingReady ⟨c.sh, c.loc t⟩ (⟨c.sh, c.loc t⟩ : Env).batch) :
    ∃ e', Aborts lrudiskEvictionworkerVector ⟨c.sh, c.loc t⟩ .uninitialisedSubmit e' :=
  aborts_lrudiskEvictionworkerVector h.settled.whole h.settled.mapped hring

private theorem not_pathsAgree {c : System} {t : Tid} {e' : Env}
    (henough : Enough c.sh.skeleton (⟨c.sh, c.loc t⟩ : Env).batch.length)
    (ha : Aborts lrudiskEvictionworkerVector ⟨c.sh, c.loc t⟩ .uninitialisedSubmit e') :
    ¬ PathsAgree ⟨c.sh, c.loc t⟩ :=
  fun h => (h.batch henough).not_aborts _ _ ha

theorem pathsAgree_of_ready {dramsize disksize : Nat} {c : System} (h : Paused dramsize disksize c)
    (t : Tid) (hsound : c.sh.faulty = false)
    (hready : RingReady ⟨c.sh, c.loc t⟩ (⟨c.sh, c.loc t⟩ : Env).batch) :
    PathsAgree ⟨c.sh, c.loc t⟩ := by
  have hset := h.settled
  have hidle := idle_of_paused h t hsound
  have hf := nodup_initFrames dramsize disksize
  refine ⟨fun henough => ?_, rounds_return h t hsound, fun u e₁ e₂ hb hr hflags => ?_,
    fun hempty hne hone => ?_⟩
  · exact total_lrudiskEvictionworkerVector rfl hset.whole hset.mapped rfl henough (hidle _) hready
  · exact sameState_of_batch hset.whole hf hidle hb hr hflags
  · obtain ⟨d, ds, hs⟩ := List.exists_cons_of_ne_nil hne
    obtain ⟨h₁, h₂⟩ := fetch_agrees (e := ⟨c.sh, c.loc t⟩) hset.whole hset.mapped hidle hone hs
    exact ⟨h₁, h₂, fun o₁ o₂ e₁ e₂ hr₁ hr₂ hflags =>
      sameState_of_fetch hset.whole hidle hempty hs hr₁ hr₂ hflags⟩

/-- On a device that does what it is asked the three ways to evict agree if and only if the thread's
write ring is ready when the batch needs it. -/
theorem pathsAgree_iff {dramsize disksize : Nat} {c : System} (h : Paused dramsize disksize c)
    (t : Tid) (hsound : c.sh.faulty = false) :
    PathsAgree ⟨c.sh, c.loc t⟩ ↔ RingReady ⟨c.sh, c.loc t⟩ (⟨c.sh, c.loc t⟩ : Env).batch := by
  refine ⟨fun hagree => ?_, pathsAgree_of_ready h t hsound⟩
  by_contra hring
  have henough := enough_of_unready hring
  obtain ⟨e', ha⟩ := batch_aborts h t hring
  exact not_pathsAgree henough ha hagree

instance (k : Skeleton) (m : Nat) : Decidable (Enough k m) := inferInstanceAs (Decidable (_ ≤ _))

instance (e : Env) (vs : List PageId) : Decidable (RingReady e vs) :=
  inferInstanceAs (Decidable (_ = true ∨ vs = [] ∨ ∃ v ∈ vs, _ = false ∨ _ = true))

private theorem paused_loads (pages : List Nat)
    (hends : roomyMachine.ends (mapStep :: pages.map loadStep) = true) :
    Paused (2 * pageSize) (8 * pageSize)
      (System.start (roomyMachine.story (mapStep :: pages.map loadStep))) := by
  refine launched_roomyMachine.paused (fun x hx => ?_) hends
  rcases List.mem_cons.mp hx with rfl | hx
  · exact operation_mapStep
  · obtain ⟨i, -, rfl⟩ := List.mem_map.mp hx
    exact operation_loadStep i

/-- Three pages loaded on two pages of DRAM, so that one waits on the eviction list. -/
def waitingPage : System := System.start (roomyMachine.story (mapStep :: [0, 1, 2].map loadStep))

private theorem paused_waitingPage : Paused (2 * pageSize) (8 * pageSize) waitingPage :=
  paused_loads [0, 1, 2] (by decide +kernel)

private theorem sound_waitingPage : waitingPage.sh.faulty = false := by decide +kernel

theorem pathsAgree_iff_waitingPage :
    PathsAgree ⟨waitingPage.sh, waitingPage.loc 0⟩ ↔ RingReady ⟨waitingPage.sh, waitingPage.loc 0⟩
        (⟨waitingPage.sh, waitingPage.loc 0⟩ : Env).batch :=
  pathsAgree_iff paused_waitingPage 0 sound_waitingPage

/-- The first two pages are loaded again, so that the page that waits is clean and has a reserve. -/
def cleanPage : System :=
  System.start (roomyMachine.story (mapStep :: [0, 1, 2, 0, 1].map loadStep))

theorem paused_cleanPage : Paused (2 * pageSize) (8 * pageSize) cleanPage :=
  paused_loads [0, 1, 2, 0, 1] (by decide +kernel)

private theorem enough_cleanPage :
    cleanPage.sh.faulty = false ∧
    Enough cleanPage.sh.skeleton (⟨cleanPage.sh, cleanPage.loc 1⟩ : Env).batch.length ∧
    ¬ RingReady ⟨cleanPage.sh, cleanPage.loc 1⟩ (⟨cleanPage.sh, cleanPage.loc 1⟩ : Env).batch := by
  decide +kernel

/-- On a thread that never used its write ring the batch of a clean page with a reserve aborts,
where a round of the scalar worker returns. -/
theorem clean_batch_aborts :
    ∃ c : System, Paused (2 * pageSize) (8 * pageSize) c ∧ c.sh.faulty = false ∧
      Enough c.sh.skeleton (⟨c.sh, c.loc 1⟩ : Env).batch.length ∧
      (∃ e', Aborts lrudiskEvictionworkerVector ⟨c.sh, c.loc 1⟩ .uninitialisedSubmit e') ∧
      Total (scalarRounds ⟨c.sh, c.loc 1⟩) ⟨c.sh, c.loc 1⟩ (fun _ _ => True) ∧
      ¬ PathsAgree ⟨c.sh, c.loc 1⟩ := by
  obtain ⟨hsound, henough, hring⟩ := enough_cleanPage
  obtain ⟨e', ha⟩ := batch_aborts paused_cleanPage 1 hring
  exact ⟨cleanPage, paused_cleanPage, hsound, henough, ⟨e', ha⟩,
    rounds_return paused_cleanPage 1 hsound henough, not_pathsAgree henough ha⟩

end ExtMem
