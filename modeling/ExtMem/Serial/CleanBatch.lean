import ExtMem.Serial.BatchReturns

/-! A batch that writes nothing back, on a thread that never used its write ring, aborts. -/
namespace ExtMem
open Threads Threads.Prog

variable {n : Nat} {frames : List Frame} {hand : PageId → Option Hand} {S : Nat → Bool}
  {i : Snapshot} {k k' : Skeleton}
  {d r : PageId} {e e' : Env} {α β : Type}

/-- A page with a reserve that is not dirty. -/
def Clean (k : Skeleton) (e : Env) (d : PageId) : Prop :=
  (k.page d).hasReserve = true ∧ e.dirty (k.page d).va = false

theorem runs_passed {c : Bool} {why : Abort} {q : Unit → Paging β} {b : β} (hc : c = true)
    (hq : Runs (q ()) e b e') : Runs (Prog.check c why >>= q) e b e' := by
  subst hc
  exact hq

/-- With nothing made up by the kernel a clean page is found clean. -/
private theorem runs_getBits (hk : e.sh.skeleton = k) (hal : (k.page d).va % pageSize = 0)
    (hclean : e.dirty (k.page d).va = false) :
    ∃ bits e', Runs (ptGetBits d) e bits e' ∧ bits.dirty = false ∧ ∀ a, e'.dirty a = e.dirty a := by
  subst hk
  have hal : (e.sh.page d).va % pageSize = 0 := hal
  have hclean : e.dirty (e.sh.page d).va = false := hclean
  cases hp : e.sh.pte (e.sh.page d).va with
  | none =>
    refine ⟨⟨seenBit e.sh false 0, seenBit e.sh false 0⟩,
      e.record (.flagsRead (e.sh.page d).va (seenBit e.sh false 0) (seenBit e.sh false 0)),
      .act rfl (runs_passed (by simpa using hal) (.ask 0 (.ask 0 (.act ?_ (.ret _ _))))),
      by simp [seenBit], fun a => rfl⟩
    dsimp only
    rw [hp]
  | some p =>
    unfold Threads.Ctx.dirty at hclean
    rw [hp] at hclean
    have hd : p.dirty = false := hclean
    obtain ⟨p', hp'⟩ : ∃ p' : Pte,
        p' = { p with accessed := seenBit e.sh p.accessed 0, dirty := seenBit e.sh p.dirty 0 } :=
      ⟨_, rfl⟩
    refine ⟨⟨seenBit e.sh p.accessed 0, seenBit e.sh p.dirty 0⟩,
      { e with sh := e.sh.setPte (e.sh.page d).va (some p') }.record
      (.flagsRead (e.sh.page d).va (seenBit e.sh p.accessed 0) (seenBit e.sh p.dirty 0)),
      .act rfl (runs_passed (by simpa using hal) (.ask 0 (.ask 0 (.act ?_ (.ret _ _))))),
      by simp [seenBit, hd], ?_⟩
    · dsimp only
      rw [hp, hp']
    · intro a
      refine Eq.trans (dirty_setPte (l := e.loc) (o := some p')) ?_
      split
      · next ha =>
        unfold Threads.Ctx.dirty
        rw [ha, hp, hp']
        simp [seenBit, hd]
      · rfl

private theorem runs_protectClean (hk : e.sh.skeleton = k) (h : Registered k d) (hc : Clean k e d) :
    ∃ e', Runs (protectVictim d) e false e' ∧ ∀ a, e'.dirty a = e.dirty a := by
  obtain ⟨hres, hclean⟩ := hc
  obtain ⟨u, e₁, hwp, hk₁⟩ := (total_extmemWpPage (b := true) hk h).runs
  have hsame (a : Nat) : e₁.dirty a = e.dirty a :=
    after_dirty_wpPage a d true _ _ hwp
  obtain ⟨bits, e₂, hbits, hdirty, hsame₂⟩ := runs_getBits hk₁ h.aligned ((hsame _).trans hclean)
  have hk₂ : e₂.sh.skeleton = k := after_still_last hk₁ (by simp) _ _ hbits
  have hres₂ : (e₂.sh.page d).hasReserve = true := by
    rw [← hk₂] at hres
    exact hres
  have hfalse : (bits.dirty || !(e₂.sh.page d).hasReserve) = false := by
    rw [hdirty, hres₂]
    rfl
  have hlast : Runs (do
      let hasReserve ← field d (·.hasReserve)
      traceEvent (.decided d (bits.dirty || !hasReserve))
      pure (bits.dirty || !hasReserve) : Paging Bool) e₂ (bits.dirty || !(e₂.sh.page d).hasReserve)
      (e₂.record (.decided d (bits.dirty || !(e₂.sh.page d).hasReserve))) :=
        .act rfl (.act rfl (.ret _ _))
  rw [hfalse] at hlast
  exact ⟨_, hwp.bind (hbits.bind hlast), fun a => (hsame₂ a).trans (hsame a)⟩

/-- The first loop may find that no victim needs writing. -/
private theorem runs_prepareClean {vs : List PageId}
    (hk : ∃ ds : List PageId, e.sh.skeleton = ds.foldl Skeleton.mark k)
    (hreg : ∀ v ∈ vs, Registered k v) (hc : ∀ v ∈ vs, Clean k e v) :
    ∃ prepared e', Runs (Prog.collect prepareVictim vs) e prepared e' ∧
      ∀ x ∈ prepared, x.2.2 = false := by
  induction vs generalizing e with
  | nil => exact ⟨[], e, .ret _ _, by simp⟩
  | cons v vs ih =>
    obtain ⟨ds, hk⟩ := hk
    obtain ⟨b, hb⟩ := page_marks k ds v
    have hv := hreg v List.mem_cons_self
    obtain ⟨hres, hclean⟩ := hc v List.mem_cons_self
    obtain ⟨e₀, he₀⟩ : ∃ e₀ : Env, e₀ = e.setPage v fun p =>
        { p with migrating := true } := ⟨_, rfl⟩
    have hk₀ : e₀.sh.skeleton = (ds ++ [v]).foldl Skeleton.mark k := by
      rw [List.foldl_append, ← hk, he₀]
      rfl
    obtain ⟨b', hb'⟩ := page_marks k (ds ++ [v]) v
    have hreg₀ : Registered ((ds ++ [v]).foldl Skeleton.mark k) v := by
      refine ⟨by rw [hb']; exact hv.va, by rw [hb']; exact hv.aligned, ?_⟩
      rw [vma_marks, hb']
      exact hv.mapped
    have hsame₀ (a : Nat) : e₀.dirty a = e.dirty a := by
      rw [he₀]
      rfl
    have hc₀ : Clean ((ds ++ [v]).foldl Skeleton.mark k) e₀ v := by
      unfold Clean
      rw [hb', hsame₀]
      exact ⟨hres, hclean⟩
    obtain ⟨e₁, hprotect, hsame⟩ := runs_protectClean hk₀ hreg₀ hc₀
    rw [he₀] at hprotect
    have hprepare : Runs (prepareVictim v) e (v, (e₀.sh.page v).virtualOffset, false) e₁ := by
      rw [he₀]
      exact .act rfl (.act rfl (hprotect.bind (.ret _ _)))
    have hk₁ : ∃ ds : List PageId, e₁.sh.skeleton = ds.foldl Skeleton.mark k := by
      refine ⟨ds ++ [v], ?_⟩
      rw [← he₀] at hprotect
      exact after_still_last hk₀ (by simp) _ _ hprotect
    obtain ⟨prepared, e₂, hr, hall⟩ :=
      ih hk₁ (fun u hu => hreg u (List.mem_cons_of_mem _ hu)) fun u hu => by
      obtain ⟨h₁, h₂⟩ := hc u (List.mem_cons_of_mem _ hu)
      exact ⟨h₁, by rw [hsame, hsame₀]; exact h₂⟩
    refine ⟨_ :: prepared, e₂, hprepare.bind (hr.bind (.ret _ _)), fun x hx => ?_⟩
    rcases List.mem_cons.mp hx with rfl | hx
    · rfl
    · exact hall x hx

/-- For slots that are not to be written back nothing is prepared. -/
private theorem total_prepareClean {l : List Slot} (hl : ∀ x ∈ l, x.writeback = false)
    (hin : ∀ x ∈ l, (e.sh.page x.victim).inDram = true) :
    Total (Prog.collect prepareSlot l) e fun _ e' => e' = e := by
  refine (total_collect (fun todo _ e' => todo ⊆ l ∧ e' = e) ⟨fun _ => id, rfl⟩ ?_).mono
    fun _ _ h => h.2
  rintro x todo done e₁ ⟨hsub, rfl⟩
  obtain ⟨hx, htodo⟩ := List.cons_subset.mp hsub
  unfold prepareSlot
  simp only [hl x hx, Bool.false_eq_true, if_false]
  exact .act (if_pos (hin x hx)) (.ret ⟨htodo, rfl⟩)

/-- Pages that all have reserves need no free disk frame. -/
theorem enough_of_unready (h : ¬ RingReady e e.batch) : Enough e.sh.skeleton e.batch.length := by
  have htake : (e.sh.skeleton.fifos.seq .evictionList).take e.batch.length = e.batch := by
    show (e.sh.fifos.seq .evictionList).take
      ((e.sh.fifos.seq .evictionList).take evictVectorSize).length = _
    rw [List.length_take, ← List.take_take, List.take_length]
    rfl
  have hnone : e.sh.skeleton.unreserved e.batch = [] := by
    refine List.filter_eq_nil_iff.mpr fun v hv hres => h (.inr (.inr ⟨v, hv, .inl ?_⟩))
    exact (Bool.not_eq_true' _).mp hres
  unfold Enough
  rw [htake, hnone]
  exact Nat.zero_le _

/-- A batch of clean pages with reserves submits to a ring that was never initialised. -/
theorem aborts_lrudiskEvictionworkerVector (h : Whole n frames hand e.sh.skeleton)
    (hmap : ∀ b d, b ≠ 0 → e.sh.skeleton.pages b = some d → e.sh.skeleton.vma b = .uffd)
    (hring : ¬ RingReady e e.batch) :
    ∃ e', Aborts lrudiskEvictionworkerVector e .uninitialisedSubmit e' := by
  have henough := enough_of_unready hring
  obtain ⟨vs, hvs⟩ : ∃ vs, e.batch = vs := ⟨_, rfl⟩
  obtain ⟨k, hk⟩ : ∃ k, e.sh.skeleton = k := ⟨_, rfl⟩
  rw [hvs] at hring henough
  rw [hk] at h hmap henough
  replace hvs : (k.fifos.seq .evictionList).take evictVectorSize = vs := by rw [← hvs, ← hk]; rfl
  obtain ⟨hinit, hrest⟩ := not_or.mp hring
  obtain ⟨hne, hnone⟩ := not_or.mp hrest
  have hclean : ∀ v ∈ vs, Clean k e v := by
    intro v hv
    obtain ⟨h₁, h₂⟩ := not_or.mp fun hor => hnone ⟨v, hv, hor⟩
    rw [← hk]
    exact ⟨eq_true_of_ne_false h₁, Bool.eq_false_iff.mpr h₂⟩
  obtain ⟨e₁, he₁⟩ : ∃ e₁,
      e₁ = (Threads.Ctx.dequeueVector .evictionList takeVictim evictVectorSize e).1 := ⟨_, rfl⟩
  obtain ⟨hpte, hloc⟩ := takes_keep evictVectorSize e
  rw [← he₁] at hpte hloc
  have htake : Runs (dequeueFifoVectorThen .evictionList evictVectorSize takeVictim) e
      (Threads.Ctx.dequeueVector .evictionList takeVictim evictVectorSize e).2 e₁ := by
    rw [he₁]
    exact .act rfl (.ret _ _)
  obtain ⟨⟨hvictims, hk₁⟩, -⟩ := after_take (S := fun _ => true) hk hvs rfl _ _ htake
  rw [hvictims] at htake
  have hreg (v : PageId) (hv : v ∈ vs) : Registered k v := (registered_batch h hmap (hvs ▸ hv)).2
  have hpage : (vs.foldl Skeleton.unlink k).page = k.page := page_unlinks k vs
  have hreg₁ (v : PageId) (hv : v ∈ vs) : Registered (vs.foldl Skeleton.unlink k) v := by
    refine ⟨by rw [hpage]; exact (hreg v hv).va, by rw [hpage]; exact (hreg v hv).aligned, ?_⟩
    rw [vma_unlinks, hpage]
    exact (hreg v hv).mapped
  have hclean₁ (v : PageId) (hv : v ∈ vs) : Clean (vs.foldl Skeleton.unlink k) e₁ v := by
    obtain ⟨h₁, h₂⟩ := hclean v hv
    unfold Threads.Ctx.dirty at h₂
    unfold Clean Threads.Ctx.dirty
    rw [hpage, hpte]
    exact ⟨h₁, h₂⟩
  obtain ⟨prepared, e₂, hprepare, hfalse⟩ := runs_prepareClean ⟨[], hk₁⟩ hreg₁ hclean₁
  obtain ⟨hvs', hoffs, hk₂⟩ := after_prepareVictims hk₁ _ _ hprepare
  have hring₂ := after_ringsKept (always_collect ringsKept_prepareVictim) _ _ hprepare
  obtain ⟨slots, e₃, hfind, -⟩ := (total_findDiskpages h hmap hvs hvs' henough hk₂).runs
  have ht := after_findDiskpages hvs hvs' hoffs hk₂ _ _ hfind
  obtain ⟨-, hmapped⟩ := snapshot_findDiskpages (S := fun _ => true) rfl _ _ hfind
  have hring₃ := after_ringsKept (always_collect ringsKept_findDiskpage) _ _ hfind
  obtain ⟨-, -, hslots⟩ := ht.ready h hmap hvs
  have hwrites : ∀ x ∈ slots, x.writeback = false := by
    intro x hx
    have hm : (x.victim, x.writeback) ∈ prepared.map fun x => (x.1, x.2.2) := by
      rw [← hmapped]
      exact List.mem_map_of_mem hx
    obtain ⟨y, hy, hxy⟩ := List.mem_map.mp hm
    rw [← (Prod.mk.inj hxy).2]
    exact hfalse y hy
  -- The migration of the batch prepares no write and so never sets the ring up.
  obtain ⟨written, e₅, hslotsRun, he₅⟩ :=
    (total_prepareClean (e := e₃.record (.batch (slots.map (·.writeback)))) hwrites fun x hx =>
      (hslots x hx).1).runs
  have hsubmit : Aborts ioringSubmitAllWrites e₅ .uninitialisedSubmit e₅ := by
    refine .here (if_neg ?_)
    rw [he₅]
    show ¬ (e₃.loc.ring .ioRing).init = true
    rw [hring₃, hring₂, hloc]
    exact hinit
  have hmigrate : Aborts (extmemMigrateDowndiskVector slots) e₃ .uninitialisedSubmit e₅ :=
    .act rfl (hslotsRun.bind_aborts hsubmit.bind_left)
  refine ⟨e₅, htake.bind_aborts ?_⟩
  rw [if_neg (by simpa using hne)]
  exact hprepare.bind_aborts (hfind.bind_aborts hmigrate.bind_left)

end ExtMem
