import ExtMem.Serial.Counts
import ExtMem.Serial.Conserved

/-! Promotion to the active list: when a page that is promoted has been found accessed twice since
it was last mapped or demoted. -/
namespace ExtMem
open Threads Threads.Prog

variable {α β : Type} {x : Option PageId} {d : PageId} {e : Env} {n : Nat}

/-! The scans. -/

private theorem tended_shrinking (b : Bool) :
    Tended (setShared fun s => { s with shrinkageRunning := b }) :=
  tended_setShared (fun _ => rfl) (fun _ => rfl) fun _ => rfl

/-- A page whose counter is set to zero fits. -/
private theorem tended_setZero (d : PageId) {f : UserPage → UserPage}
    (hf : ∀ p, (f p).naccesses = 0) : Tended (setPage d f) :=
  tended_modify fun _ he => ((he.except d).setPage fun hd => absurd rfl hd).settle
    (.inl (by simpa [Threads.Ctx.setPage, Shared.setPage] using hf _))

@[simp] theorem tended_shrinkActiveList (m : Nat) : Tended (shrinkActiveList m) := by
  refine tended_ite (tended_pure _)
    (tended_bind (tended_shrinking true) fun _ => tended_bind (by simp) fun len => ?_)
  refine tended_bind (tended_loop fun i => tended_bind (by simp) fun len' => ?_) fun _ =>
    tended_bind (tended_shrinking false) fun _ => tended_pure _
  refine tended_ite (tended_bind (tended_dequeueFifo (by decide)) fun page => ?_) (tended_pure _)
  cases page with
  | none => exact tended_pure _
  | some d =>
    exact tended_bind (tended_setZero d fun _ => rfl) fun _ =>
      tended_bind (tended_enqueueFifo (by decide) d) fun _ => tended_pure _

/-- A page that the inactive scan has in hand: it is on no list, its counter is known, and the scan
has found it accessed so often at least. -/
structure InHand (d : PageId) (n : Nat) (s : Shared) : Prop where
  counted : CountedBut (some d) s
  list : s.list d = none
  count : (s.page d).naccesses = n
  often : n ≤ seen d s.log

theorem InHand.setCount (h : InHand d n e.sh) {m : Nat} (hm : m ≤ seen d e.sh.log)
    {f : UserPage → UserPage} (hf : (f (e.sh.page d)).naccesses = m) :
    InHand d m (e.setPage d f).sh :=
  ⟨h.counted.setPage fun hd => absurd rfl hd, h.list,
    by simpa [Threads.Ctx.setPage, Shared.setPage] using hf, hm⟩

/-- The page goes to a list: to the active one if it was found accessed twice, and with a count to
the inactive one after its bits were read. -/
theorem InHand.enqueue (h : InHand d n e.sh) {l : FifoList}
    (hactive : l = .activeList → 2 ≤ seen d e.sh.log)
    (hn : n = 0 ∨ n = 1 ∧ l = .inactiveList ∧ justRead e.sh.log = true) :
    Counted (e.enqueue l d).sh := by
  have hput : CountedBut (some d) (e.enqueue l d).sh := by
    refine ⟨fun y hy => ?_, ?_⟩
    · have hyd : y ≠ d := fun hc => hy (by rw [hc])
      have htag : (e.enqueue l d).sh.list y = e.sh.list y := by
        show (e.sh.fifos.enqueue l d).tag y = e.sh.fifos.tag y
        rw [Queues.tag_enqueue h.list, if_neg hyd]
      have hseen : seen y (e.enqueue l d).sh.log = seen y e.sh.log :=
        seen_enqueued (.inl (Ne.symm hyd)) _
      unfold CountFits
      rw [htag, hseen]
      exact h.counted.fits y hy
    · by_cases hl : l = .activeList
      · subst hl
        exact ⟨decide_eq_true (hactive rfl), h.counted.promotions⟩
      · exact promotions_enqueued hl h.counted.promotions
  refine hput.settle ?_
  have hcount : ((e.enqueue l d).sh.page d).naccesses = n := h.count
  rcases hn with rfl | ⟨rfl, rfl, hread⟩
  · exact .inl hcount
  · refine .inr ⟨hcount, ?_, ?_⟩
    · show (e.sh.fifos.enqueue .inactiveList d).tag d = _
      rw [Queues.tag_enqueue h.list, if_pos rfl]
    · show 1 ≤ if d = d ∧ justRead e.sh.log = false then 0 else seen d e.sh.log
      rw [if_neg (by simp [hread])]
      exact h.often

/-- What the inactive scan relies on and gives: in steps that keep to the rule the invariant
holds. -/
private abbrev Inspected (p : Paging α) (e : Env) (Q : α → Env → Prop) : Prop :=
  Throughout (fun e e' : Env => ForgetsUncounted e.sh e'.sh) (fun e => Promotions e.sh.log) p e Q

private theorem inspected_act {f : Env → Outcome Abort Env β}
    {q : β → Paging α} {Q : α → Env → Prop}
    (h : ∀ b e', f e = .ok b e' → Promotions e'.sh.log ∧ Inspected (q b) e' Q) :
    Inspected (Prog.atomic f >>= q) e Q :=
  Throughout.bind (throughout_atomic fun b e' he _ => h b e' he)

private theorem inspected_read {f : Env → β} {q : β → Paging α} {Q : α → Env → Prop}
    (hp : Promotions e.sh.log) (h : Inspected (q (f e)) e Q) :
    Inspected (Prog.read f >>= q) e Q := by
  refine inspected_act fun b e' he => ?_
  cases he
  exact ⟨hp, h⟩

private theorem inspected_modify {f : Env → Env} {q : Unit → Paging α} {Q : α → Env → Prop}
    (hp : Promotions (f e).sh.log) (h : Inspected (q ()) (f e) Q) :
    Inspected (Prog.modify f >>= q) e Q := by
  refine inspected_act fun b e' he => ?_
  cases he
  exact ⟨hp, h⟩

private theorem inspected_check {c : Bool} {why : Abort} {q : Unit → Paging α} {Q : α → Env → Prop}
    (h : c = true → Inspected (q ()) e Q) : Inspected (Prog.check c why >>= q) e Q := by
  refine Throughout.bind ?_
  unfold Prog.check
  split
  · next hc => exact h hc
  · intro b e' he
    cases he

private theorem inspected_enqueue {l : FifoList} (h : Counted (e.enqueue l d).sh) :
    Inspected (enqueueFifo l d) e fun _ e' => Counted e'.sh := by
  refine throughout_atomic fun b e' he _ => ?_
  split at he
  · cases he
    exact ⟨h.promotions, h⟩
  · cases he

/-- The bits of the page in hand are read, and if it was accessed the trace tells so. -/
private theorem inspected_ptGetBits {q : PtBits → Paging α} {Q : α → Env → Prop}
    (h : InHand d n e.sh) (ht : justTaken d e.sh.log = true)
    (hq : ∀ bits e', InHand d n e'.sh → justRead e'.sh.log = true →
      (bits.accessed = true → n + 1 ≤ seen d e'.sh.log) → Inspected (q bits) e' Q) :
    Inspected (ptGetBits d >>= q) e Q := by
  refine Throughout.bind (inspected_read h.counted.promotions
    (inspected_check fun _ => Throughout.bind fun a => Throughout.bind fun b => ?_))
  refine throughout_atomic fun bits e' he _ => ?_
  have hafter : ∀ (dirty : Bool) {e' : Env}, e'.sh.page = e.sh.page → e'.sh.fifos = e.sh.fifos →
      e'.sh.log = (e.loc.tid, .flagsRead (e.sh.page d).va bits.accessed dirty) :: e.sh.log →
      Promotions e'.sh.log ∧ Inspected (q bits) e' Q := by
    intro dirty e' hp hf hl
    have hc : CountedBut (some d) e'.sh :=
      h.counted.of_record (v := .flagsRead _ bits.accessed dirty) rfl (fun _ => by rw [hp]) hf hl
    refine ⟨hc.promotions,
      hq bits e' ⟨hc, ?_, by rw [hp]; exact h.count, ?_⟩ (by rw [hl]; rfl) fun hacc => ?_⟩
    · rw [Shared.list, hf]
      exact h.list
    · rw [hl]
      exact h.often.trans (seen_of_still rfl d _)
    · rw [hl, hacc]
      show n + 1 ≤ if justTaken d e.sh.log = true then seen d e.sh.log + 1 else seen d e.sh.log
      rw [if_pos ht]
      exact Nat.succ_le_succ h.often
  split at he
  · cases he
    exact hafter _ rfl rfl rfl
  · cases he
    exact hafter _ rfl rfl rfl

private theorem inspected_clearAccessed {q : Unit → Paging α}
    {Q : α → Env → Prop} (h : InHand d n e.sh)
    (hq : ∀ e', InHand d n e'.sh → e'.sh.log = e.sh.log → Inspected (q ()) e' Q) :
    Inspected (ptClearAccessedFlag d >>= q) e Q := by
  refine Throughout.bind (inspected_read h.counted.promotions (inspected_check fun _ => ?_))
  refine throughout_atomic fun b e' he _ => ?_
  cases he
  exact ⟨h.counted.promotions,
    hq _ ⟨h.counted.of_eq (fun _ => rfl) rfl rfl, h.list, h.count, h.often⟩ rfl⟩

/-- A page with a count of one at most is promoted only when it is found accessed again. -/
private theorem inspected_scanInactivePage (h : InHand d n e.sh)
    (hn : n ≤ 1) (ht : justTaken d e.sh.log = true) :
    Inspected (scanInactivePage d) e fun _ e' => Counted e'.sh := by
  unfold scanInactivePage
  refine inspected_ptGetBits h ht fun bits e h hread hacc => ?_
  have hprom := h.counted.promotions
  split
  · next hb =>
    have hcount : add64 n 1 = n + 1 := Nat.mod_eq_of_lt (by omega)
    have hup :
        InHand d (n + 1) (e.setPage d fun p => { p with naccesses := add64 p.naccesses 1 }).sh :=
      h.setCount (hacc hb) (by rw [h.count, hcount])
    refine inspected_modify hprom (inspected_clearAccessed hup fun e₁ h₁ hl => ?_)
    have hread₁ : justRead e₁.sh.log = true := by rw [hl]; exact hread
    refine inspected_read h₁.counted.promotions ?_
    dsimp only
    rw [h₁.count]
    split
    · next hgt =>
      refine inspected_modify h₁.counted.promotions
        (Throughout.bind ((inspected_enqueue ?_).mono fun _ e' he => he))
      have hdown : InHand d 0 (e₁.setPage d fun p => { p with naccesses := 0 }).sh :=
        h₁.setCount (Nat.zero_le _) rfl
      exact hdown.enqueue (fun _ => Nat.le_trans hgt h₁.often) (.inl rfl)
    · next hle =>
      refine Throughout.bind ((inspected_enqueue ?_).mono fun _ e' he => he)
      refine h₁.enqueue (fun hc => by cases hc) (.inr ⟨by omega, rfl, hread₁⟩)
  · have hdown : InHand d 0 (e.setPage d fun p => { p with naccesses := 0 }).sh :=
      h.setCount (Nat.zero_le _) rfl
    refine inspected_modify hprom (Throughout.bind ((inspected_enqueue ?_).mono fun _ e' he => he))
    exact hdown.enqueue (fun hc => by cases hc) (.inl rfl)

@[simp] theorem tended_shrinkInactiveList (m : Nat) : Tended (shrinkInactiveList m) := by
  refine tended_bind (by simp) fun len => tended_bind (tended_shrinking true) fun _ => ?_
  refine tended_bind (tended_loop fun i =>
    tended_bind (by simp) fun len' => tended_ite ?_ (tended_pure _)) fun _ =>
    tended_bind (tended_shrinking false) fun _ => tended_pure _
  intro e he
  refine inspected_act fun page e' hd => ?_
  split at hd
  · cases hd
    exact ⟨he.promotions, he⟩
  · next d xs hs =>
    cases hd
    have hbut : CountedBut (some d) (e.dequeue .inactiveList d).sh := CountedBut.unlink
      (t := e.loc.tid) (v := .dequeued .inactiveList d) he (.inl rfl) rfl rfl rfl rfl
    have hnone : (e.dequeue .inactiveList d).sh.list d = none := by
      simp [Shared.list, Threads.Ctx.dequeue, Threads.Ctx.record]
    obtain ⟨n, hcount, hn, hoften⟩ :
        ∃ n, (e.sh.page d).naccesses = n ∧ n ≤ 1 ∧ n ≤ seen d e.sh.log := by
      rcases he.fits d (by simp) with h | ⟨h, -, hseen⟩
      · exact ⟨0, h, Nat.zero_le _, Nat.zero_le _⟩
      · exact ⟨1, h, Nat.le_refl _, hseen⟩
    refine ⟨hbut.promotions, Throughout.bind
      ((inspected_scanInactivePage ⟨hbut, hnone, hcount, hoften⟩ hn ?_).mono fun _ e' hc => hc)⟩
    show (d == d) = true
    exact beq_self_eq_true d

@[simp] theorem tended_directAllocate (n : Int) (priority : Nat) :
    Tended (directAllocatePageAsynch n priority) := by
  unfold directAllocatePageAsynch
  refine tended_bind (by simp) fun active => tended_bind (by simp) fun inactive => ?_
  generalize int32 _ = a, int32 _ = b
  refine tended_loop fun x => tended_ite (tended_bind (by simp) fun ret => ?_) (tended_pure _)
  refine tended_bind (by simp) fun _ =>
    tended_bind (by simp) fun _ => tended_ite (tended_bind (by simp) fun _ => ?_) (tended_pure _)
  exact tended_bind (by simp) fun _ => tended_pure _

@[simp] theorem tended_fetchFreeScan (priority : Nat) : Tended (fetchFreeScan priority) := by
  unfold fetchFreeScan fetchFreeScanBy
  refine tended_bind (by simp) fun running =>
    tended_ite (tended_pure _) (tended_bind (by simp) fun active => ?_)
  refine tended_bind (by simp) fun inactive => tended_bind (by simp) fun dramsize => ?_
  exact tended_ite (tended_bind (by simp) fun _ => tended_pure _) (tended_pure _)

/-! Evictions on behalf of a fault. -/

@[simp] theorem tended_fetchFreeAsynch : Tended fetchFreeAsynch := by
  unfold fetchFreeAsynch fetchFreeAsynchBy
  refine tended_loop fun priority => tended_ite (tended_bind (by simp) fun page => ?_) (by simp)
  cases page with
  | some page => exact tended_pure _
  | none =>
    refine tended_bind (by simp) fun priority => tended_bind
      (tended_of_keeps (within_takeVictim linking_counted (by decide))) fun page => ?_
    cases page with
    | none => exact tended_pure _
    | some d =>
      exact tended_bind (tended_of_keeps (within_fetchFreeEvict vacating_counted d)) fun _ =>
        tended_pure _

@[simp] theorem tended_lrudiskPagefault : Tended lrudiskPagefault :=
  tended_bind tended_fetchFreeAsynch fun page => tended_bind (by simp) fun _ => tended_pure _

/-! Swap-in and prefetch. -/

theorem tended_swapinAsync (d : PageId) : Tended (lrudiskSwapinExternalAsync d) := by
  refine tended_bind (by simp) fun _ =>
    tended_bind (by simp) fun _ => tended_bind (by simp) fun _ => ?_
  refine tended_bind (by simp) fun r =>
    tended_bind (by simp) fun offset => tended_bind (by simp) fun _ => ?_
  exact tended_bind (by simp) fun _ => by simp

@[simp] theorem tended_prefetchFinish (x : (PageId × Nat) × PageId) : Tended (prefetchFinish x) :=
  tended_bind (by simp) fun _ => tended_bind (by simp) fun _ => tended_bind (by simp) fun _ => by
    simp

theorem tended_coreTryPrefetch (base : Nat) : Tended (coreTryPrefetch base) := by
  refine tended_bind (by simp) fun _ =>
    tended_bind (by simp) fun list => tended_bind (by simp) fun _ => ?_
  refine tended_bind (by simp) fun _ => tended_bind (tended_each fun x => by simp) fun _ => ?_
  refine tended_bind (by simp) fun _ =>
    tended_bind (tended_collect fun x => by simp) fun freepages => ?_
  refine tended_bind (tended_each fun x => by simp) fun _ => ?_
  exact tended_bind (tended_each fun x => by simp) fun _ => tended_pure _


/-! Workers. -/

@[simp] theorem tended_kswapd : Tended lrudiskSynchkswapd := by
  refine tended_bind (tended_setShared (fun _ => rfl) (fun _ => rfl) fun _ => rfl) fun _ => ?_
  refine tended_bind (by simp) fun active =>
    tended_bind (by simp) fun inactive => tended_bind (by simp) fun dramsize => ?_
  have hlast : Tended (setShared fun s => { s with kswapdRunning := false }) :=
    tended_setShared (fun _ => rfl) (fun _ => rfl) fun _ => rfl
  exact tended_ite hlast (tended_bind (by simp) fun _ => hlast)

/-! Faults and accesses. -/

@[simp] theorem tended_waitMigratingThen (d : PageId) {f : Env → Env}
    (h : ∀ e, Counted e.sh → Counted (f e).sh) : Tended (waitMigratingThen d f) :=
  tended_of_keeps (within_waitMigratingThen d h)

@[simp] theorem tended_lockAllocator : Tended lockAllocator :=
  tended_of_keeps (within_lockAllocator fun _ h => h.of_eq (fun _ => rfl) rfl rfl)

@[simp] theorem tended_addPage (d : PageId) : Tended (addPage d) :=
  tended_of_keeps (within_addPage d fun _ _ h => h.of_eq (fun _ => rfl) rfl rfl)

@[simp] theorem tended_unlockAllocator : Tended unlockAllocator :=
  tended_setShared (fun _ => rfl) (fun _ => rfl) fun _ => rfl

@[simp] theorem tended_resolveMissingFault (d : PageId) (a : Nat) :
    Tended (resolveMissingFault d a) := by
  refine tended_bind (by simp) fun l =>
    tended_bind (by simp) fun _ => tended_bind (tended_swapinAsync d) fun _ => ?_
  refine tended_bind (by simp) fun _ =>
    tended_bind (by simp) fun _ => tended_bind (by simp) fun _ => ?_
  refine tended_bind (by simp) fun _ => tended_bind (by simp) fun _ => ?_
  exact tended_ite (tended_bind (tended_coreTryPrefetch a) fun _ => by simp) (by simp)

@[simp] theorem tended_handleMissingFault (d : PageId) : Tended (handleMissingFault d) := by
  refine tended_bind (by simp) fun _ =>
    tended_bind (by simp) fun a => tended_bind (by simp) fun claim => ?_
  cases claim with
  | mine => exact tended_resolveMissingFault d a
  | _ => exact tended_waitMigratingThen d fun _ he => he.record rfl

private theorem tended_wonFirstFault (d : PageId) (a : Nat) : Tended (wonFirstFault d a) := by
  refine tended_bind (tended_startWork d fun _ => rfl) fun _ => ?_
  refine tended_bind (by simp) fun _ =>
    tended_bind (by simp) fun _ => tended_bind (by simp) fun _ => ?_
  refine tended_bind (by simp) fun _ =>
    tended_bind (by simp) fun _ => tended_bind (by simp) fun _ => ?_
  refine tended_bind (by simp) fun _ => tended_bind (by simp) fun _ => ?_
  refine tended_bind (tended_setShared (fun _ => rfl) (fun _ => rfl) fun _ => rfl) fun _ => ?_
  refine tended_bind (by simp) fun _ =>
    tended_bind (by simp) fun _ => tended_bind (tended_endWork d fun _ => rfl) fun _ => ?_
  refine tended_bind (by simp) fun _ => ?_
  repeat refine tended_bind (by simp) fun _ => ?_
  simp

@[simp] theorem tended_handleFirstFault (a : Nat) : Tended (handleFirstFault a) := by
  refine tended_bind (by simp) fun _ =>
    tended_bind (by simp) fun _ => tended_bind (by simp) fun newpage => ?_
  refine tended_bind (by simp) fun _ => tended_bind (by simp) fun page => ?_
  cases page with
  | some page =>
    refine tended_bind (by simp) fun _ =>
      tended_bind ?_ fun _ => tended_waitMigratingThen _ fun _ he => he
    exact tended_bind (by simp) fun _ =>
      tended_bind (by simp) fun _ => tended_enqueueFifo (by decide) _
  | none => exact tended_wonFirstFault newpage a

@[simp] theorem tended_uswapSigHandler (a : Nat) : Tended (uswapSigHandler a) := by
  refine tended_bind (by simp) fun _ => tended_bind (by simp) fun page => ?_
  cases page with
  | none => exact tended_bind (by simp) fun _ => by simp
  | some page =>
    refine tended_bind (by simp) fun swappedOut =>
      tended_ite (tended_bind (by simp) fun _ => ?_) (tended_bind ?_ fun _ => ?_)
    · exact tended_bind (by simp) fun _ => by simp
    · exact tended_bind (by simp) fun _ => tended_waitMigratingThen _ fun _ he => he
    · exact tended_bind (by simp) fun _ => by simp

private theorem tended_access (a : Nat) {attempt : Env → Outcome Abort Env (Option α)}
    (h : Within KeepsCounted True (Option α) attempt) : Tended (access a attempt) := by
  refine tended_loop fun _ => tended_bind (tended_of_keeps (always_atomic h)) fun r => ?_
  cases r with
  | some b => exact tended_pure _
  | none => exact tended_bind (by simp) fun _ => tended_pure _

@[simp] theorem tended_userLoad (a : Nat) : Tended (userLoad a) :=
  tended_access a (within_loadByte a (fun _ => id) fun _ _ _ h => h.of_eq (fun _ => rfl) rfl rfl)

@[simp] theorem tended_userStore (a : Nat) (byte : UInt8) : Tended (userStore a byte) :=
  tended_access a (within_storeByte a byte (fun _ => id) fun e _ _ h =>
    h.of_record (t := e.loc.tid) (v := .stored a byte) rfl (fun _ => rfl) rfl rfl)

/-! Mapping. -/

@[simp] theorem tended_libcMmap (a m : Nat) (flags : BitVec 32) : Tended (libcMmap a m flags) := by
  refine tended_bind (by simp) fun refuse =>
    tended_bind (by simp) fun pick => tended_atomic fun e b e' hc he => ?_
  generalize (if hasFlag flags mapFixed then a else pick) = p at he
  dsimp only at he
  split at he
  · cases he
    exact hc.record rfl
  · split at he
    · cases he
      exact hc.record rfl
    · cases he
      exact hc.of_record (v := .mapped _ m) rfl (fun _ => rfl) rfl rfl

@[simp] theorem tended_libcMunmap (a m : Nat) : Tended (libcMunmap a m) := by
  refine tended_bind (by simp) fun refuse => tended_atomic fun e b e' hc he => ?_
  split at he
  · cases he
    exact hc.record rfl
  · cases he
    exact hc.of_eq (fun _ => rfl) rfl rfl

@[simp] theorem tended_mmapPopulate (a m : Nat) : Tended (extmemMmapPopulate a m) := by
  refine tended_bind (by simp) fun _ => tended_bind (by simp) fun _ => tended_loop fun b => ?_
  exact tended_ite (tended_bind (by simp) fun _ => tended_pure _) (tended_pure _)

@[simp] theorem tended_extmemMmap (a m : Nat) (flags : BitVec 32) :
    Tended (extmemMmap a m flags) := by
  refine tended_bind (by simp) fun _ =>
    tended_bind (by simp) fun _ => tended_bind (by simp) fun _ => ?_
  refine tended_bind (by simp) fun p => ?_
  cases p with
  | none => simp
  | some p =>
    have hlast (m : Nat) : Tended (do
        setStats fun t => { t with memMmaped := m }
        setInternalCall false
        pure p : Paging Nat) :=
      tended_bind (by simp) fun _ => tended_bind (by simp) fun _ => tended_pure _
    refine tended_bind (tended_setShared (fun _ => rfl) (fun _ => rfl) fun _ => rfl) fun _ => ?_
    refine tended_bind (tended_setShared (fun _ => rfl) (fun _ => rfl) fun _ => rfl) fun _ => ?_
    exact tended_ite (tended_bind (by simp) fun _ => hlast _) (hlast _)

@[simp] theorem tended_mmapFilter (a m : Nat) (flags : BitVec 32) :
    Tended (mmapFilter a m flags) := by
  refine tended_ite (tended_pure _) (tended_ite (tended_pure _) (tended_bind (by simp) fun _ => ?_))
  refine tended_ite (tended_pure _) (tended_bind (by simp) fun _ => tended_ite (tended_pure _) ?_)
  exact tended_ite (tended_pure _) (tended_bind (by simp) fun _ => tended_pure _)

/-! Unmapping. -/

/-- While a page is taken off its list, all counters but its own keep fitting. -/
private theorem inspected_removeFromAnyList (he : CountedBut (some d) e.sh) :
    Inspected (removeFromAnyList d) e fun _ e' => CountedBut (some d) e'.sh := by
  refine throughout_loop (fun _ e => CountedBut (some d) e.sh) (fun _ e he => ?_) he
  refine inspected_read he.promotions (inspected_act fun b e' hr => ?_)
  have hkeep : CountedBut (some d) e'.sh := by
    cases hl : e.sh.list d with
    | none =>
      rw [hl] at hr
      cases hr
      exact he
    | some q =>
      rw [hl] at hr
      dsimp only at hr
      rw [if_pos rfl] at hr
      cases hr
      exact CountedBut.unlink (t := e.loc.tid) (v := .removed q d) he (.inr rfl) rfl rfl rfl rfl
  refine ⟨hkeep.promotions, ?_⟩
  cases b <;> exact hkeep

@[simp] theorem tended_freeReserve (d : PageId) : Tended (freeReserve d) := by
  refine tended_bind (by simp) fun reserve => ?_
  cases reserve with
  | none => simp
  | some r =>
    refine tended_bind (by simp) fun _ => tended_bind (tended_loop fun _ e he => ?_) fun _ => ?_
    · refine inspected_read he.promotions (inspected_check fun hl => ?_)
      rw [beq_iff_eq.mp hl]
      exact tended_bind (tended_of_keeps (within_tryremoveAux linking_counted (by decide) r
        fun _ => id)) (fun _ => tended_pure _) e he
    · exact tended_bind (by simp) fun _ => tended_bind (by simp) fun _ => by simp

/-- A page is unmapped with its counter unchanged; the rule says that it was zero. -/
@[simp] theorem tended_lrudiskRemovePage (d : PageId) : Tended (lrudiskRemovePage d) := by
  have hlast : Tended (Prog.modify fun e => ((e.setPage d fun p =>
      { p with migrating := false }).endWork d).record (.released d) : Paging Unit) := by
    refine tended_modify fun e he => CountedBut.record ?_ rfl
    have hpage : Counted (e.setPage d fun p => { p with migrating := false }).sh :=
      he.setPage fun _ _ => rfl
    exact hpage
  have htail : Tended (do
      let inDram ← field d (·.inDram)
      if inDram then do
        let hasReserve ← field d (·.hasReserve)
        if hasReserve then freeReserve d else pure ()
        enqueueFifo .dramFreeList d
      else do
        let swappedOut ← field d (·.swappedOut)
        if swappedOut then do
          setPage d fun p => { p with reserve := none, hasReserve := false }
          enqueueFifo .diskFreeList d
        else Prog.fail .removePageConfiguration
      Prog.modify fun e =>
        ((e.setPage d fun p => { p with migrating := false }).endWork d).record
          (.released d) : Paging Unit) := by
    refine tended_bind (by simp) fun inDram =>
      tended_ite (tended_bind (by simp) fun hasReserve => ?_) (tended_bind (by simp) fun sw => ?_)
    · refine tended_ite (tended_bind (by simp) fun _ => ?_) ?_
      · exact tended_bind (by simp) fun _ => hlast
      · exact tended_bind (by simp) fun _ => hlast
    · refine tended_ite (tended_bind (by simp) fun _ => ?_) (tended_bind (by simp) fun _ => hlast)
      exact tended_bind (by simp) fun _ => hlast
  intro e he
  have hset : Counted (e.setPage d fun p => { p with migrating := true }).sh :=
    he.setPage fun _ _ => rfl
  refine inspected_modify hset.promotions
    (Throughout.bind ((inspected_removeFromAnyList (hset.except d)).mono fun _ e₁ h₁ => ?_))
  refine Throughout.bind (throughout_atomic fun b e₂ h₂ hR => ?_)
  cases h₂
  have hzero : (e₁.sh.page d).naccesses = 0 := hR e₁.loc.tid d rfl
  have hfit : Counted (((e₁.setPage d fun p => { p with present := false, va := 0 })).record
      (.forgotten d)).sh := by
    refine CountedBut.record (CountedBut.settle (h₁.setPage fun hd => absurd rfl hd) (.inl ?_)) rfl
    simpa [Threads.Ctx.setPage, Shared.setPage] using hzero
  exact ⟨hfit.promotions, htail _ hfit⟩

private theorem counted_takeUnmap (d : PageId) (h : Counted e.sh) : Counted (takeUnmap d e).sh := by
  refine CountedBut.record ?_ rfl
  have hpage : Counted (e.setPage d fun p => { p with migrating := true }).sh :=
    h.setPage fun _ _ => rfl
  exact hpage

@[simp] theorem tended_unmapPage (a : Nat) : Tended (unmapPage a) := by
  refine tended_bind (by simp) fun page => ?_
  cases page with
  | none => exact tended_pure _
  | some d =>
    refine tended_bind (tended_bind (tended_atomic fun e b e' hc he => ?_) fun busy => ?_) fun _ =>
      ?_
    · split at he
      · cases he
        exact hc
      · cases he
        exact counted_takeUnmap d hc
    · refine tended_ite ?_ (tended_pure _)
      exact tended_bind (tended_waitMigratingThen d fun _ he => he) fun _ =>
        tended_modify fun _ he => counted_takeUnmap d he
    · refine tended_bind (tended_setShared (fun _ => rfl) (fun _ => rfl) fun _ => rfl) fun _ => ?_
      repeat refine tended_bind (by simp) fun _ => ?_
      exact tended_pure _

@[simp] theorem tended_munmapFilter (a m : Nat) : Tended (munmapFilter a m) := by
  refine tended_bind (by simp) fun internal =>
    tended_ite (tended_pure _) (tended_bind ?_ fun _ => tended_pure _)
  refine tended_bind (by simp) fun _ => tended_bind (by simp) fun _ => tended_bind ?_ fun _ => ?_
  · exact tended_loop fun b =>
      tended_ite (tended_bind (by simp) fun _ => tended_pure _) (tended_pure _)
  · exact tended_bind (by simp) fun _ =>
      tended_bind (by simp) fun _ => tended_bind (by simp) fun _ => by
      simp

theorem tended_operation {p : Paging Unit} (h : Operation p) : Tended p := by
  cases h with
  | load a => exact tended_bind (by simp) fun _ => tended_pure _
  | store a byte => exact tended_userStore a byte
  | prefetch base => exact tended_bind (tended_coreTryPrefetch base) fun _ => tended_pure _
  | kswapd => exact tended_kswapd
  | shrinkActive n => exact tended_bind (tended_shrinkActiveList n) fun _ => tended_pure _
  | shrinkInactive n => exact tended_bind (tended_shrinkInactiveList n) fun _ => tended_pure _
  | evictionworker => exact tended_of_keeps (within_lrudiskEvictionworker vacating_counted)
  | evictionworkerVector =>
    exact tended_of_keeps (within_lrudiskEvictionworkerVector vacating_counted)
  | mmap a m flags => exact tended_bind (by simp) fun _ => tended_pure _
  | munmap a m => exact tended_bind (by simp) fun _ => tended_pure _

/-! Runs. -/

private theorem tended_initList (q : FifoList) (hq : q ≠ .activeList) (b : Bool) (size : Nat) :
    Tended (initList q b size) := by
  refine tended_loop fun i => tended_ite (tended_bind (by simp) fun p => ?_) (tended_pure _)
  refine tended_bind (tended_setShared (fun _ => rfl) (fun _ => rfl) fun _ => rfl) fun _ => ?_
  refine tended_bind (tended_setZero _ fun _ => rfl) fun _ =>
    tended_bind (tended_enqueueFifo hq _) fun _ => ?_
  exact tended_bind (by simp) fun _ => tended_pure _

private theorem tended_extmemInit : Tended extmemInit := by
  refine tended_bind (by simp) fun _ =>
    tended_bind (tended_of_still (by unfold uswapInitIouring ioUringQueueInit; simp)) fun _ =>
    tended_bind ?_ fun _ => ?_
  · refine tended_bind (by simp) fun dramsize =>
      tended_bind (tended_initList _ (by decide) _ _) fun _ => ?_
    exact tended_bind (by simp) fun disksize => tended_initList _ (by decide) _ _
  · refine tended_bind (tended_setShared (fun _ => rfl) (fun _ => rfl) fun _ => rfl) fun _ =>
      tended_bind (by simp) fun p => ?_
    refine tended_bind (tended_setShared (fun _ => rfl) (fun _ => rfl) fun _ => rfl) fun _ => ?_
    exact tended_bind (tended_setZero _ fun _ => rfl) fun _ => tended_bind (by simp) fun _ => by
      simp

private theorem Founded.forgets {e' : Env} (h : Founded e e') : ForgetsUncounted e.sh e'.sh := by
  intro t d hl
  rcases h.log with hl' | ⟨q, x, hl'⟩
  · exact absurd (hl'.symm.trans hl) (List.cons_ne_self _ _).symm
  · cases hl'.symm.trans hl

/-- When the pager is initialised no page has a count. -/
theorem counted_launched {dramsize disksize : Nat} (h : Launched dramsize disksize e) :
    Counted e.sh := by
  obtain ⟨faulty, spurious, disk, hrun⟩ := h.init
  have hboot : Counted (Shared.boot dramsize disksize faulty spurious disk) :=
    ⟨fun _ _ => .inl rfl, trivial⟩
  have hinit := tended_extmemInit ⟨.boot dramsize disksize faulty spurious disk, .fresh 0⟩ hboot
  exact hinit.after (founding_extmemInit.mono fun _ _ hf e b e' he => (hf.ok he).forgets)
    () e hrun

/-- In a run of one operation at a time in which no page with a count is unmapped, each page that
was promoted had been found accessed twice since it was last mapped or demoted. -/
theorem promoted_seen_twice {dramsize disksize : Nat}
    {c : System} (h₀ : Launched dramsize disksize e)
    (h : Conf.Reach Operation (Conf.serialBy ForgetsUncounted) (System.start e) c) :
    Promotions c.sh.log :=
  Conf.Reach.throughout (R := ForgetsUncounted) (I := fun s => Promotions s.log) (K := Counted)
    (fun _ hs => hs.promotions) (fun _ hp => tended_operation hp)
    (fun _ => rfl) (counted_launched h₀) h

/-- The rule of these runs, as it is checked of one step. -/
def uncountedCheck (e e' : Env) : Bool :=
  match e'.sh.log with
  | (_, .forgotten d) :: _ => (e.sh.page d).naccesses == 0
  | _ => true

private theorem forgetsUncounted_of_check {e e' : Env} (h : uncountedCheck e e' = true) :
    ForgetsUncounted e.sh e'.sh := by
  intro t d hl
  rw [uncountedCheck, hl] at h
  exact beq_iff_eq.mp h

private theorem forgetsUncounted_self (s : Shared) : ForgetsUncounted s s :=
  fun _ _ hl => absurd hl.symm (List.cons_ne_self _ _)

/-- Two pages are scanned until the first is a victim; the second one is loaded again and promoted
by the next scan. Then both are unmapped, and a descriptor serves another page. -/
def promotingStory : List (Nat × List Nat × Paging Unit) :=
  [mapStep, loadStep 0, loadStep 1, shrinkStep 1, loadStep 1, shrinkStep 1, unmapStep 1,
    unmapStep 0, loadStep 2]

theorem promoted_seen_twice_promoting :
    ∃ c, Conf.Reach Operation (Conf.serialBy ForgetsUncounted)
        (System.start (smallMachine false)) c ∧ (0, Event.enqueued .activeList 1) ∈ c.sh.log ∧
      (0, Event.forgotten 1) ∈ c.sh.log ∧ Promotions c.sh.log := by
  have hplay :
      ((System.start (smallMachine false)).play uncountedCheck (promotingStory.map (turnBy 0))).map
      (fun c => (decide ((0, Event.enqueued .activeList 1) ∈ c.sh.log),
      decide ((0, Event.forgotten 1) ∈ c.sh.log))) = some (true, true) := by
    decide +kernel
  obtain ⟨c, hc, hx⟩ := Option.map_eq_some_iff.mp hplay
  simp only [Prod.mk.injEq, decide_eq_true_eq] at hx
  have hreach : Conf.Reach Operation (Conf.serialBy ForgetsUncounted)
      (System.start (smallMachine false)) c := by
    refine reach_turns (fun e e' => forgetsUncounted_of_check) forgetsUncounted_self ?_ hc
    simp [promotingStory, operation_mapStep, operation_loadStep, operation_shrinkStep,
      operation_unmapStep]
  exact ⟨c, hreach, hx.1, hx.2, promoted_seen_twice launched_smallMachine hreach⟩

/-- A machine with one page of DRAM more than a scan asks for. -/
def scannedMachine : Env :=
  Threads.Ctx.after ⟨.boot (33 * pageSize) (66 * pageSize) false false blankDisk, .fresh 0⟩ 5000
    [] extmemInit

/-- One page more than there is DRAM is loaded, so that a scan puts the 33rd page back once and
evicts those before it. That page is unmapped, and its descriptor serves the next page loaded;
loads of as many others as there is DRAM make room for a scan to examine it. -/
def reusedStory : List (Nat × List Nat × Paging Unit) :=
  mapStep :: (List.range 34).map loadStep ++ unmapStep 32 :: (List.range 33).map fun i =>
    loadStep (34 + i)

theorem operation_reusedStory : ∀ x ∈ reusedStory, Operation x.2.2 := by
  intro x hx
  simp only [reusedStory, List.cons_append, List.mem_cons, List.mem_append, List.mem_map] at hx
  rcases hx with rfl | ⟨i, -, rfl⟩ | rfl | ⟨i, -, rfl⟩
  · exact operation_mapStep
  · exact operation_loadStep i
  · exact operation_unmapStep 32
  · exact operation_loadStep _

theorem launched_scannedMachine : Launched (33 * pageSize) (66 * pageSize) scannedMachine :=
  ⟨by decide, by decide, false, false, blankDisk, runs_after (by decide +kernel)⟩

/-- The page mapped last is promoted at its first examination. -/
theorem promoted_seen_once : ∃ e c, Launched (33 * pageSize) (66 * pageSize) e ∧
    Conf.Reach Operation Conf.serial (System.start e) c ∧ ¬ Promotions c.sh.log := by
  have hrun : scannedMachine.ends reusedStory = true ∧
      ¬ Promotions (scannedMachine.story reusedStory).sh.log := by
    decide +kernel
  have hreach : Conf.Reach Operation Conf.serial (System.start scannedMachine)
      (System.start (scannedMachine.story reusedStory)) :=
    reach_story _ .init operation_reusedStory hrun.1
  have hstart (e : Env) (h : ¬ Promotions e.sh.log) : ¬ Promotions (System.start e).sh.log := h
  exact ⟨scannedMachine, _, launched_scannedMachine, hreach, hstart _ hrun.2⟩

end ExtMem
