import ExtMem.Serial.Stored

/-! Evictions keep the bytes of every page: a victim whose bytes are not written back is clean and
has them on disk already. -/
namespace ExtMem
open Threads Threads.Prog

variable {n : Nat} {frames : List Frame} {hand : PageId → Option Hand} {k k' : Skeleton}
  {d r : PageId} {e e₀ e' : Env}
  {m : Nat → Bytes} {α : Type} {i : Snapshot}

/-! Only clean pages with a copy are not written back. -/

/-- Whatever was decided since was to write back, but for pages that had a copy and were clean. -/
def Judged (e₀ e : Env) : Prop :=
  ∃ l, decisions e.sh.log = l ++ decisions e₀.sh.log ∧ ∀ x ∈ l, x.2 = false →
  (e₀.sh.page x.1).hasReserve = true ∧ e₀.dirty (e₀.sh.page x.1).va = false

/-- No victim is decided about. -/
def SameDecisions (e e' : Env) : Prop := decisions e'.sh.log = decisions e.sh.log

private theorem log_transfer (e : Env) (q : Sqe) (res : Int) :
    (e.transfer q res).sh.log = e.sh.log := by
  unfold Threads.Ctx.transfer
  split
  · split <;> rfl
  · unfold Threads.Ctx.setBuffer
    split <;> rfl

private theorem transferring_sameDecisions : Transferring SameDecisions where
  refl _ := rfl
  trans h₁ h₂ := h₂.trans h₁
  submitted _ _ := rfl
  completed _ _ _ := rfl
  transfer e q res := congrArg decisions (log_transfer e q res)
  setRing _ _ _ _ := rfl
  space _ _ := rfl
  slots _ _ := rfl

/-- An eviction decides nothing but whether to write its victim back. -/
private theorem dropping_sameDecisions : Dropping SameDecisions where
  refl _ := rfl
  trans h₁ h₂ := h₂.trans h₁
  enqueue _ _ _ _ _ := rfl
  dequeue _ _ _ _ _ _ := rfl
  remove _ _ _ _ _ := rfl
  auxiliary _ _ _ _ := rfl
  record e ev hp _ _ := by
    cases ev with
    | decided d b => cases hp
    | _ => rfl
  flag _ _ _ _ _ _ := rfl
  setPte _ _ _ _ _ _ _ := rfl
  waits _ _ := rfl
  anyPage _ _ _ _ _ := rfl
  traced e ev _ _ hv _ := by
    cases ev with
    | decided d b => cases hv
    | _ => rfl
  counts _ _ _ _ := rfl
  drop _ _ := rfl
  initWrites := within_initOnce transferring_sameDecisions _
  prepWrite sqe _ := within_prep transferring_sameDecisions _ sqe
  submitWrites := within_submit transferring_sameDecisions _
  waitWrite := within_wait transferring_sameDecisions _

private theorem after_sameDecisions {p : Paging α} (h : Always (Within SameDecisions) p) :
    After p e fun _ e' => decisions e'.sh.log = decisions e.sh.log :=
  after_within h (fun _ => rfl) fun h₁ h₂ => h₂.trans h₁

/-- A page that the kernel reports clean is clean. -/
private theorem clean_getBits (hk : e.sh.skeleton = k) :
    After (ptGetBits d) e fun bits _ => bits.dirty = false → e.dirty (k.page d).va = false := by
  unfold ptGetBits
  refine after_field hk (after_check fun _ =>
    (after_bind _ _ _ _).mpr ((after_answer _ _).mpr fun acc => (after_bind _ _ _ _).mpr
    ((after_answer _ _).mpr fun off => (after_atomic _ _ _).mpr fun bits e' he => ?_)))
  unfold Threads.Ctx.dirty
  cases hp : e.sh.pte (k.page d).va with
  | none => exact fun _ => rfl
  | some p =>
    rw [hp] at he
    cases he
    intro hb
    simp only [seenBit, Bool.or_eq_false_iff] at hb
    exact hb.1

theorem judged_protectVictim (hk : e.sh.skeleton = k) : After (protectVictim d) e fun w e' =>
    decisions e'.sh.log = (d, w) :: decisions e.sh.log ∧
      (w = false → (k.page d).hasReserve = true ∧ e.dirty (k.page d).va = false) := by
  unfold protectVictim
  refine after_then
    (((after_still_last hk (by simp)).and
      (after_sameDecisions (within_protect dropping_sameDecisions.toClaiming d true))).and
    (after_dirty_wpPage (k.page d).va d true)) fun _ e₁ ⟨⟨hk₁, hd₁⟩, hs₁⟩ => ?_
  refine after_then
    (((after_still_last hk₁ (still_ptGetBits d)).and
      (after_sameDecisions (within_readBits dropping_sameDecisions.toClaiming d))).and
    (clean_getBits hk₁)) fun bits e₂ ⟨⟨hk₂, hd₂⟩, hc₂⟩ => after_field hk₂ ?_
  refine (after_bind _ _ _ _).mpr
    ((after_modify _ _ _).mpr ((after_pure _ _ _).mpr ⟨?_, fun hw => ?_⟩))
  · show (d, _) :: decisions e₂.sh.log = _
    rw [hd₂, hd₁]
  · rw [Bool.or_eq_false_iff, Bool.not_eq_false'] at hw
    exact ⟨hw.2, hs₁.symm.trans (hc₂ hw.1)⟩

/-- The way of one victim: the decision about it, and nothing decided later. -/
private theorem judged_exchange {rest : Bool → Paging α}
    (hrest : ∀ w, Always (Within SameDecisions) (rest w)) : After (do
    setPage d fun p => { p with migrating := true }
    let writeback ← protectVictim d
    rest writeback) e fun _ e' => Judged e e' := by
  refine (after_bind _ _ _ _).mpr ((after_modify _ _ _).mpr ?_)
  refine after_then (judged_protectVictim rfl) fun w e₁ ⟨hd, hw⟩ =>
    (after_sameDecisions (hrest w)).mono fun _ e₂ hd₂ => ?_
  have hpage : ((e.setPage d fun p => { p with migrating := true }).sh.skeleton.page d) =
      { e.sh.page d with migrating := true } := by
    simp [Threads.Ctx.setPage, Shared.setPage, Shared.skeleton]
  rw [hpage] at hw
  refine ⟨[(d, w)], ?_, fun x hx hf => ?_⟩
  · rw [hd₂, hd]
    rfl
  · rw [List.mem_singleton] at hx
    subst hx
    exact hw hf

theorem judged_fetchFreeEvict (d : PageId) :
    After (fetchFreeEvict d) e fun _ e' => Judged e e' :=
  judged_exchange fun w => within_exchange dropping_sameDecisions d true w
    (within_keepReserve dropping_sameDecisions.toRelinking d)
    (within_keepFree dropping_sameDecisions.toRelinking d)

theorem judged_lrudiskEvictionworker : After lrudiskEvictionworker e fun _ e' => Judged e e' := by
  unfold lrudiskEvictionworker
  refine (after_bind _ _ _ _).mpr ((after_atomic _ _ _).mpr fun o e₁ he => ?_)
  have hsame : (∀ e₂, Judged e₁ e₂ → Judged e e₂) ∧ Judged e e₁ := by
    split at he
    · cases he
      exact ⟨fun _ h => h, [], rfl, by simp⟩
    · cases he
      exact ⟨fun _ h => h, [], rfl, by simp⟩
  cases o with
  | none => exact (after_pure _ _ _).mpr hsame.2
  | some d =>
    refine After.mono (judged_exchange (d := d) fun w => ?_) fun _ e₂ h => hsame.1 e₂ h
    exact within_exchange dropping_sameDecisions d false w
      (within_swapReserve dropping_sameDecisions.toRelinking d)
      (within_swapFree dropping_sameDecisions.toRelinking d)

/-! The batch. -/

/-- Where nothing is unmapped, a page that is clean now was clean before. -/
private theorem clean_before (h : Gentle false e₀ e) {a : Nat} (hc : e.dirty a = false) :
    e₀.dirty a = false := by
  cases hp : e.sh.pte a with
  | none =>
    unfold Threads.Ctx.dirty
    rw [h.present rfl a hp]
    rfl
  | some p => exact h.was_clean (by rw [hp]; rfl) hc

private theorem judged_prepareVictim (hk : e.sh.skeleton = k) :
    After (prepareVictim d) e fun x e' => decisions e'.sh.log = (d, x.2.2) :: decisions e.sh.log ∧
      (x.2.2 = false → (k.page d).hasReserve = true ∧ e.dirty (k.page d).va = false) := by
  subst hk
  refine (after_bind _ _ _ _).mpr
    ((after_modify _ _ _).mpr ((after_bind _ _ _ _).mpr ((after_read _ _ _).mpr ?_)))
  refine after_then (judged_protectVictim rfl) fun w e₁ ⟨hd, hw⟩ =>
    (after_pure _ _ _).mpr ⟨hd, fun hf => ?_⟩
  have hw := hw hf
  simp only [Threads.Ctx.setPage, Shared.setPage, Shared.skeleton, Function.update_self] at hw
  exact hw

/-- The first loop of a batch judges each victim by what it was before the loop. -/
private theorem judged_prepareVictims {vs : List PageId} (hk : e.sh.skeleton = k) :
    After (Prog.collect prepareVictim vs) e fun _ e' => Judged e e' := by
  refine (after_collect (fun (_ : List PageId) (_ : List (PageId × Frame × Bool)) e' =>
    Judged e e' ∧ Gentle false e e' ∧ ∃ ds : List PageId, e'.sh.skeleton = ds.foldl Skeleton.mark k)
    ⟨⟨[], rfl, by simp⟩, .refl e, [], hk⟩ ?_).mono fun _ _ h => h.1
  rintro d todo done e₁ ⟨⟨l, hl, hj⟩, hg, ds, hk₁⟩
  have hgently : Always (Gently false) (prepareVictim d) :=
    within_prepareVictim claiming_gentle (fun e _ _ => .record e _) d
  refine (((judged_prepareVictim hk₁).and (after_gently hgently)).and
    (after_prepareVictim hk₁)).mono fun x e₂ ⟨⟨⟨hd, hw⟩, hg₂⟩, _, _, hk₂⟩ => ?_
  obtain ⟨b, hb⟩ := page_marks k ds d
  rw [hb] at hw
  subst hk
  refine ⟨⟨(d, x.2.2) :: l, ?_, fun y hy hf => ?_⟩, hg.trans hg₂, ds ++ [d], ?_⟩
  · rw [hd, hl]
    rfl
  · rcases List.mem_cons.mp hy with rfl | hy
    · exact ⟨(hw hf).1, clean_before hg (hw hf).2⟩
    · exact hj y hy hf
  · rw [hk₂, List.foldl_append]
    rfl

theorem judged_lrudiskEvictionworkerVector :
    After lrudiskEvictionworkerVector e fun _ e' => Judged e e' := by
  unfold lrudiskEvictionworkerVector
  refine (after_bind _ _ _ _).mpr ((after_atomic _ _ _).mpr fun victims e₁ he => ?_)
  have hsame : (∀ a, e₁.dirty a = e.dirty a) ∧ decisions e₁.sh.log = decisions e.sh.log ∧
      e₁.sh.page = e.sh.page := by
    cases he
    have htakes : ∀ (m : Nat) (e : Env),
        (∀ a, (Threads.Ctx.dequeueVector .evictionList takeVictim m e).1.dirty a = e.dirty a) ∧
        decisions (Threads.Ctx.dequeueVector .evictionList takeVictim m e).1.sh.log =
        decisions e.sh.log ∧
        (Threads.Ctx.dequeueVector .evictionList takeVictim m e).1.sh.page = e.sh.page := by
      intro m
      induction m with
      | zero => exact fun e => ⟨fun _ => rfl, rfl, rfl⟩
      | succ m ih =>
        intro e
        unfold Threads.Ctx.dequeueVector
        split
        · exact ⟨fun _ => rfl, rfl, rfl⟩
        · obtain ⟨h₁, h₂, h₃⟩ := ih (takeVictim _ (e.dequeue .evictionList _))
          exact ⟨fun a => (h₁ a).trans rfl, h₂.trans rfl, h₃.trans rfl⟩
    exact htakes evictVectorSize e
  have hback {e₂ : Env} (h : Judged e₁ e₂) : Judged e e₂ := by
    obtain ⟨l, hl, hj⟩ := h
    refine ⟨l, by rw [hl, hsame.2.1], fun x hx hf => ?_⟩
    have hjx := hj x hx hf
    rw [hsame.2.2, hsame.1] at hjx
    exact hjx
  refine (after_ite _ _ _ _).mpr
    ⟨fun _ => (after_pure _ _ _).mpr (hback ⟨[], rfl, by simp⟩), fun _ => ?_⟩
  refine after_then (judged_prepareVictims rfl) fun prepared e₂ ⟨l, hl, hj⟩ => ?_
  have hrest : After (do
      let batch ← Prog.collect findDiskpage prepared
      extmemMigrateDowndiskVector batch
      Prog.each finishSlot batch) e₂ fun _ e' => decisions e'.sh.log = decisions e₂.sh.log := by
    refine after_sameDecisions (always_bind
      (always_collect fun _ => within_findDiskpage dropping_sameDecisions.toLinking _)
      fun batch => ?_)
    exact always_bind (within_downdiskVector dropping_sameDecisions batch) fun _ =>
      always_each fun _ => within_finishSlot dropping_sameDecisions.toRelinking _
  exact hrest.mono fun _ e' hd => hback ⟨l, hd.trans hl, hj⟩

/-! The bytes over an eviction. -/

/-- The page table, the disk and the write ring as evictions see them, with every page's flags
masked. -/
abbrev Threads.Ctx.shot (e : Env) : Snapshot := e.snapshot fun _ => true

/-- The bytes over one eviction in terms of what it does to page table and disk. -/
theorem Stored.leave {clean : Nat → Prop} {w : Bool} (h : Stored m k i.pte i.disk clean)
    (hw : Whole n frames hand k) (hf : frames.Nodup)
    (hd : k.list d = some .evictionList) (hp : Partner (k.unlink d) d r)
    (hj : w = false → (k.page d).hasReserve = true ∧ clean (k.page d).va)
    (hpage : k'.page = ((k.unlink d).evict d r).page) (hpages : k'.pages = k.pages)
    (hvma : k'.vma = k.vma) : Stored m k' (i.evict k d r w).pte (i.evict k d r w).disk clean := by
  have hdn := hw.lt_of_list hd
  have hres : (k.page d).Resident := hw.fits hd
  have hhash : k.pages (k.page d).va = some d := (hw.hash _ d hres.1).mpr ⟨hdn, rfl⟩
  obtain ⟨p, hpte, hb⟩ := h.here _ d hres.1 hhash hres.2.2.2.2.1
  cases w with
  | true =>
    have heq : i.evict k d r true = (({ i.decide d true with
        disk := Function.update i.disk (k.page r).virtualOffset.offset p.bytes } : Snapshot).drop
        (k.page d).va).count := by
      unfold Snapshot.evict Snapshot.leave
      rw [if_pos rfl]
      unfold Snapshot.store
      rw [show (i.decide d true).pte (k.page d).va = some p from hpte]
      rfl
    rw [heq]
    refine h.evict hw hf hd hp ?_ (fun o ho => ?_) hpage hpages hvma
    · exact (Function.update_self ..).trans hb
    · exact Function.update_of_ne ho ..
  | false =>
    obtain ⟨hkept, hclean⟩ := hj rfl
    have hr : (k.page d).reserve = some r := (hp.reserve hkept).1
    exact h.evict hw hf hd hp (h.copy _ d r hres.1 hhash hres.2.2.2.2.1 hclean hr)
      (fun _ _ => rfl) hpage hpages hvma

/-- The masked page table has the same bytes. -/
theorem Threads.Ctx.shot_bytes (e : Env) (a : Nat) :
    (e.shot.pte a).map (·.bytes) = (e.sh.pte a).map (·.bytes) := by
  show ((e.sh.pte a).map _).map _ = _
  rw [Option.map_map]
  rfl

/-- What is known of the masked page table after code that maps nothing is known of the page
table. -/
theorem Threads.Ctx.Holds.of_shot {u : Bool} (hg : Gentle u e e')
    (h : Stored m e'.sh.skeleton e'.shot.pte e'.shot.disk fun a => e.dirty a = false) :
    e'.Holds m :=
  h.congr (fun a => (e'.shot_bytes a).symm) fun _ hs hc => hg.was_clean hs hc

/-- And the other way round. -/
theorem Threads.Ctx.Holds.shot (h : e.Holds m) :
    Stored m e.sh.skeleton e.shot.pte e.shot.disk fun a => e.dirty a = false :=
  h.congr (fun a => e.shot_bytes a) fun _ _ hc => hc

/-- The bytes are held, the write ring is at rest and the read side is as it was. -/
structure Sustained (m : Nat → Bytes) (e₀ e : Env) : Prop where
  holds : e.Holds m
  idle : e.shot.Idle
  intake : e.intake = e₀.intake

theorem Snapshot.Idle.writesOnly (h : e.shot.Idle) : e.WritesOnly := by
  intro q hq
  have h₁ : (e.loc.ring .ioRing).sq = [] := h.sq
  have h₂ : (e.loc.ring .ioRing).outstanding = [] := h.outstanding
  rw [h₁, h₂] at hq
  cases hq

theorem Sustained.gentle (h : Sustained m e₀ e) (hg : Gentle false e e') : Sustained m e₀ e' := by
  have hi := (hg.intake h.idle.writesOnly).2
  have hring := hg.writing rfl
  refine ⟨h.holds.gentle hg, ⟨?_, ?_, ?_⟩, hi.trans h.intake⟩
  · exact (congrArg Ring.sq hring).trans h.idle.sq
  · exact (congrArg Ring.outstanding hring).trans h.idle.outstanding
  · exact (congrArg Intake.faulty hi).trans h.idle.sound

theorem Sustained.after {p : Paging α} (h : Sustained m e₀ e) (hp : Always (Gently false) p) :
    After p e fun _ e' => Sustained m e₀ e' := (after_gently hp).mono fun _ _ hg => h.gentle hg

/-- The head of a list is taken in code that keeps the bytes. -/
theorem Sustained.dequeueThen {β : Type} {l : FifoList} {aux : PageId → Env → Env}
    {q : Option PageId → Paging β} {Q : β → Env → Prop} (h : Sustained m e₀ e)
    (hk : e.sh.skeleton = k) (haux : ∀ d e, (aux d e).sh.skeleton = e.sh.skeleton)
    (hg : ∀ d e, Gentle false e (aux d e)) (hnone : k.fifos.seq l = [] → After (q none) e Q)
    (hsome : ∀ d xs, k.fifos.seq l = d :: xs → ∀ e, e.sh.skeleton = k.unlink d → Sustained m e₀ e →
      After (q (some d)) e Q) : After (dequeueFifoThen l aux >>= q) e Q := by
  subst hk
  rw [after_bind]
  refine (after_atomic _ _ _).mpr fun a e' he => ?_
  split at he
  · next hn =>
    cases he
    exact hnone hn
  · next d xs hn =>
    cases he
    exact hsome d xs hn _ ((haux _ _).trans rfl) (h.gentle ((Gentle.dequeue e l d).trans (hg d _)))

/-- One eviction, told by what it does to page table, disk and lists. -/
private theorem Sustained.evicted {w : Bool} (h : Sustained m e₀ e) (hw : Whole n frames hand k)
    (hf : frames.Nodup) (hpage : e.sh.page = k.page) (hpages : e.sh.pages = k.pages)
    (hvma : e.sh.vma = k.vma) (hd : k.list d = some .evictionList) (hp : Partner (k.unlink d) d r)
    (hi : e'.shot = e.shot.evict k d r w) (hj : Judged e e') (hg : Gentle true e e')
    (hpage' : e'.sh.page = ((k.unlink d).evict d r).page) : Sustained m e₀ e' := by
  obtain ⟨l, hl, hj⟩ := hj
  have hdec : decisions e'.sh.log = (d, w) :: decisions e.sh.log :=
    (congrArg Snapshot.decided hi).trans (Snapshot.evict_ends e.shot).1
  have hlw : l = [(d, w)] := List.append_cancel_right (hl.symm.trans hdec)
  have hshot : Stored m k e.shot.pte e.shot.disk fun a => e.dirty a = false :=
    h.holds.shot.reskin hpages.symm hvma.symm fun x => by rw [← hpage]; rfl
  refine ⟨.of_shot hg ?_, ?_, (hg.intake h.idle.writesOnly).2.trans h.intake⟩
  · rw [hi]
    refine hshot.leave hw hf hd hp
      (fun hwf => ?_) hpage' (hg.pages.trans hpages) (hg.vma.trans hvma)
    have hx := hj (d, w) (by rw [hlw]; exact List.mem_singleton_self _) hwf
    rwa [hpage] at hx
  · rw [hi]
    exact Snapshot.idle_evict h.idle

/-- The eviction that fetches a free frame. -/
theorem Sustained.fetchFreeEvict {xs : List PageId} (h : Sustained m e₀ e)
    (hk : e.sh.skeleton = k.unlink d) (hw : Whole n frames hand k) (hf : frames.Nodup)
    (hs : k.fifos.seq .evictionList = d :: xs) :
    After (fetchFreeEvict d) e fun _ e' => Sustained m e₀ e' := by
  have hd : k.list d = some .evictionList := Whole.list_of_seq hs
  have hleaves := leaves_fetchFreeEvict (S := fun _ => true) hk (by simp) rfl
    (hw.pt d (hw.lt_of_list hd)) rfl h.idle
  refine ((((after_fetchFreeEvict hk (hw.bare hs)).and hleaves).and (judged_fetchFreeEvict d)).and
    (after_gently (within_fetchFreeEvict vacating_gentle d))).mono
    fun r e' ⟨⟨⟨⟨hp, hk'⟩, r', w, hp', _, hi⟩, hj⟩, hg⟩ => ?_
  rw [← hp.unique hp'] at hi
  exact h.evicted hw hf (congrArg Skeleton.page hk) (congrArg Skeleton.pages hk)
    (congrArg Skeleton.vma hk) hd hp hi hj hg (congrArg Skeleton.page hk')

/-- Code that fetches a free frame keeps the bytes of all pages. -/
theorem Sustained.fetchFreeAsynch (h : Sustained m e₀ e) (hk : e.sh.skeleton = k)
    (hw : Whole n frames hand k) (hf : frames.Nodup) :
    After fetchFreeAsynch e fun _ e' => Sustained m e₀ e' := by
  unfold ExtMem.fetchFreeAsynch
  have hstart : Rested n frames hand k e := by
    unfold Rested
    rw [hk]
    exact ⟨.refl hw, id⟩
  refine after_loop (fun _ e => Rested n frames hand k e ∧ Sustained m e₀ e)
    (fun priority e ⟨hr, h⟩ => ?_) ⟨hstart, h⟩
  refine (after_ite _ _ _ _).mpr ⟨fun _ => ?_, fun _ => (after_fail _ _ _).mpr trivial⟩
  refine h.dequeueThen rfl (fun _ _ => rfl) (fun _ => .refl) (fun _ => ?_) fun d xs hs e _ h =>
    (after_pure _ _ _).mpr h
  refine after_then ((after_fetchFreeScan hr).and
      (h.after (within_fetchFreeScan scanning_gentle priority)))
    fun priority e ⟨hr, h⟩ => ?_
  refine h.dequeueThen rfl (fun _ _ => rfl) .takeVictim (fun _ => (after_pure _ _ _).mpr ⟨hr, h⟩)
    fun d xs hs e hk h => ?_
  exact after_then (h.fetchFreeEvict hk hr.1.1 hf hs) fun r e h => (after_pure _ _ _).mpr h

/-- A round of the scalar worker does. -/
theorem Sustained.lrudiskEvictionworker (h : Sustained m e₀ e) (hk : e.sh.skeleton = k)
    (hw : Whole n frames hand k) (hf : frames.Nodup) :
    After lrudiskEvictionworker e fun _ e' => Sustained m e₀ e' := by
  cases hs : k.fifos.seq .evictionList with
  | nil =>
    refine h.dequeueThen hk (fun _ _ => rfl) .takeVictim (fun _ => (after_pure _ _ _).mpr h)
      fun d xs hs' => ?_
    rw [hs] at hs'
    cases hs'
  | cons d ds =>
    have hd : k.list d = some .evictionList := Whole.list_of_seq hs
    refine (((after_round hk hw hs (S := fun _ => true) rfl rfl h.idle).and
      judged_lrudiskEvictionworker).and
      (after_gently (within_lrudiskEvictionworker vacating_gentle))).mono
      fun _ e' ⟨⟨⟨x, hx, hp, _, hk', hi⟩, hj⟩, hg⟩ => ?_
    subst hx
    exact h.evicted hw hf (congrArg Skeleton.page hk) (congrArg Skeleton.pages hk)
      (congrArg Skeleton.vma hk) hd hp hi hj hg (congrArg Skeleton.page hk')

/-! A batch of victims. -/

/-- The victims of a batch are on the eviction list. -/
theorem Evictions.mem {slots : List Slot} (h : Evictions k slots) :
    ∀ x ∈ slots, x.victim ∈ k.fifos.seq .evictionList := by
  induction h with
  | nil k => exact fun x hx => absurd hx List.not_mem_nil
  | @cons k x l ds hs hp _ ih =>
    intro y hy
    rw [hs]
    rcases List.mem_cons.mp hy with rfl | hy
    · exact List.mem_cons_self
    · have hy := ih y hy
      rw [(rest_evictSlot hs hp).1] at hy
      exact List.mem_cons_of_mem _ hy

/-- The bytes over evictions one after the other. -/
theorem Stored.evictSlots {clean : Nat → Prop} {slots : List Slot} (hev : Evictions k slots)
    (h : Stored m k i.pte i.disk clean) (hw : Whole n frames hand k) (hf : frames.Nodup)
    (hj : ∀ x ∈ slots, x.writeback = false →
      (k.page x.victim).hasReserve = true ∧ clean (k.page x.victim).va) :
    Stored m (slots.foldl Skeleton.evictSlot k) (i.evicts k slots).pte
      (i.evicts k slots).disk clean := by
  induction hev generalizing i with
  | nil k => exact h
  | @cons k x l ds hs hp hl ih =>
    have hd : k.list x.victim = some .evictionList := Whole.list_of_seq hs
    have hstep : Stored m (k.evictSlot x) (i.evictSlot k x).pte (i.evictSlot k x).disk clean :=
      h.leave hw hf hd hp (hj x List.mem_cons_self) rfl rfl rfl
    refine ih hstep (hw.evict hd hp true) fun y hy hwf => ?_
    have hmem := hl.mem y hy
    rw [(rest_evictSlot hs hp).1] at hmem
    rw [(rest_evictSlot hs hp).2 _ hmem]
    exact hj y (List.mem_cons_of_mem _ hy) hwf

private theorem idle_evictSlots (k : Skeleton) (slots : List Slot) (h : i.Idle) :
    (slots.foldl (Snapshot.evictSlot k) i).Idle := by
  induction slots generalizing i with
  | nil => exact h
  | cons x l ih => exact ih (Snapshot.idle_evict h)

/-- A batch does. -/
theorem Sustained.lrudiskEvictionworkerVector (h : Sustained m e₀ e) (hk : e.sh.skeleton = k)
    (hw : Whole n frames hand k) (hf : frames.Nodup) :
    After lrudiskEvictionworkerVector e fun _ e' => Sustained m e₀ e' := by
  refine ((((after_batch hk hw hf (S := fun _ => true) (fun _ _ => rfl) rfl h.idle).and
    (after_lrudiskEvictionworkerVector hk hw)).and judged_lrudiskEvictionworkerVector).and
    (after_gently (within_lrudiskEvictionworkerVector vacating_gentle))).mono
    fun _ e' ⟨⟨⟨⟨slots, hev, hsep, hv, hi, _⟩, slots', hev', hv', hk'⟩, l, hl, hj⟩, hg⟩ => ?_
  have hi : e'.shot = slots.foldl (Snapshot.evictSlot k) e.shot := hi
  have hk' : e'.sh.skeleton = slots.foldl Skeleton.evictSlot k := by
    rw [hk']
    exact evictSlots_congr (hev'.unique hev (hv'.trans hv.symm)) k
  have hdec : decisions e'.sh.log =
      (slots.map fun x => (x.victim, x.writeback)).reverse ++ decisions e.sh.log :=
    (congrArg Snapshot.decided hi).trans (Snapshot.decided_evicts k slots e.shot)
  have hls : l = (slots.map fun x => (x.victim, x.writeback)).reverse :=
    List.append_cancel_right (hl.symm.trans hdec)
  subst hk
  refine ⟨.of_shot hg ?_, ?_, (hg.intake h.idle.writesOnly).2.trans h.intake⟩
  · rw [hi, hk', ← Snapshot.evicts_eq (hsep.imp (·.apart))]
    refine h.holds.shot.evictSlots hev hw hf fun x hx hwf => hj (x.victim, x.writeback) ?_ hwf
    rw [hls, List.mem_reverse]
    exact List.mem_map_of_mem hx
  · rw [hi]
    exact idle_evictSlots _ slots h.idle

end ExtMem
