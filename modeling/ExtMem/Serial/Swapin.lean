import ExtMem.Serial.Fetch

/-! Swap-ins and prefetching, run alone. -/
namespace ExtMem
open Threads Threads.Prog

variable {n : Nat} {frames : List Frame} {hand : PageId → Option Hand} {k : Skeleton} {d r : PageId}
  {e : Env}
  {α β : Type} {Q : β → Env → Prop}

/-- A page that was brought into a DRAM frame; its disk frame stays its copy. -/
def UserPage.broughtIn (p : UserPage) (offset : Frame) (reserve : PageId) : UserPage :=
  { p with virtualOffset := offset, inDram := true, swappedOut := false, migrating := false,
           hasReserve := true, reserve := some reserve }

/-- The descriptor that keeps the disk copy of a page. -/
def UserPage.kept (p : UserPage) (offset : Frame) (page : PageId) : UserPage :=
  { p with virtualOffset := offset, inDram := false, swappedOut := true, migrating := false,
           hasReserve := true, reserve := some page }

/-- A detached page takes the frame of a spare descriptor, which becomes its reserve. -/
def Skeleton.bringIn (k : Skeleton) (d r : PageId) : Skeleton :=
  { k with
    page :=
      Function.update (Function.update k.page d ((k.page d).broughtIn (k.page r).virtualOffset r)) r
      ((k.page r).kept (k.page d).virtualOffset d)
    fifos := (k.fifos.enqueue .diskReserveList r).enqueue .inactiveList d }

namespace Whole

/-- A page that is claimed for a swap-in is taken off its list. -/
theorem detach (h : Whole n frames hand k) (hd : k.list d = some .diskActiveList) :
    Whole n frames (Function.update hand d (some .detached))
      ((k.write d fun p => { p with migrating := true }).unlink d) := by
  have hva (x : PageId) :
      (((k.write d fun p => { p with migrating := true }).unlink d).page x).va = (k.page x).va := by
    by_cases hx : x = d
    · subst hx
      simp
    · rw [Skeleton.page_unlink, Skeleton.page_write_of_ne _ _ hx]
  obtain ⟨hhash, hzero⟩ :=
    h.hash_same ((k.write d fun p => { p with migrating := true }).unlink d) rfl hva
  refine h.single (d := d) (fun x hx => ?_) (fun x hx => ?_)
    (fun x hx => Function.update_of_ne hx _ _) (h.lt_of_list hd) ?_ ?_ ?_ ?_ ?_ ?_ hhash hzero
  · rw [Skeleton.page_unlink, Skeleton.page_write_of_ne _ _ hx]
  · rw [Skeleton.list_unlink, if_neg hx, Skeleton.list_write]
  · unfold Skeleton.Place
    rw [Skeleton.list_unlink, if_pos rfl, Function.update_self, Skeleton.page_unlink,
      Skeleton.page_write_self]
    exact (h.fits hd).1
  · rw [Skeleton.page_unlink, Skeleton.page_write_self]
    exact h.present d
  · rw [Skeleton.page_unlink, Skeleton.page_write_self]
    exact h.pt d (h.lt_of_list hd)
  · rw [Skeleton.page_unlink, Skeleton.page_write_self]
  · rw [Skeleton.page_unlink, Skeleton.page_write_self]
  · rw [Skeleton.list_unlink, if_pos rfl, hd]
    exact iff_of_false (by simp) (by simp)

theorem bringIn (h : Whole n frames hand k)
    (hd : hand d = some .detached) (hr : hand r = some .spare) :
    Whole n frames (Function.update (Function.update hand d none) r none) (k.bringIn d r) := by
  have hne : r ≠ d := by
    rintro rfl
    rw [hd] at hr
    cases hr
  have hdp : (k.page d).Away := h.inHand hd
  have hrp : (k.page r).Free true := h.inHand hr
  have hpd : (k.bringIn d r).page d = (k.page d).broughtIn (k.page r).virtualOffset r := by
    simp [Skeleton.bringIn, hne.symm]
  have hpr : (k.bringIn d r).page r = (k.page r).kept (k.page d).virtualOffset d := by
    simp [Skeleton.bringIn]
  have hdl := h.list_of_hand hd
  have hrl := h.list_of_hand hr
  have hlist (x : PageId) : (k.bringIn d r).list x =
      if x = d then some .inactiveList else if x = r then some .diskReserveList else k.list x := by
    have htag : (k.fifos.enqueue .diskReserveList r).tag d = none := by
      rw [Queues.tag_enqueue hrl, if_neg hne.symm]
      exact hdl
    show ((k.fifos.enqueue .diskReserveList r).enqueue .inactiveList d).tag x = _
    rw [Queues.tag_enqueue htag, Queues.tag_enqueue hrl]
    rfl
  refine h.pair_same (d := d) (r := r) ⟨fun x h₁ h₂ => ?_, fun x h₁ h₂ => ?_, fun x h₁ h₂ => ?_,
    ⟨h.lt_of_hand hd, h.lt_of_hand hr⟩, ⟨?_, ?_⟩, ?_, ?_, .inr ⟨hne.symm, ?_, ?_⟩,
    ⟨fun x hx => ?_, fun x hx => ?_⟩, fun x hx => ?_, fun x hx => ?_⟩ rfl ?_ ?_
  · simp [Skeleton.bringIn, h₁, h₂]
  · rw [hlist, if_neg h₁, if_neg h₂]
  · rw [Function.update_of_ne h₂, Function.update_of_ne h₁]
  · unfold Skeleton.Place
    rw [hlist, if_pos rfl, Function.update_of_ne hne.symm, Function.update_self, hpd]
    exact ⟨hdp.1, hdp.2.1, rfl, hrp.2.2.1, rfl, rfl, rfl⟩
  · unfold Skeleton.Place
    rw [hlist, if_neg hne, if_pos rfl, Function.update_self, hpr]
    exact ⟨hrp.1, rfl, hdp.2.2.2.1, rfl, by simp [UserPage.kept]⟩
  · rw [hpd, hpr]
    exact ⟨h.present d, h.present r⟩
  · rw [hpd, hpr]
    exact ⟨h.pt d (h.lt_of_hand hd), h.pt r (h.lt_of_hand hr)⟩
  · rw [hpd]
    rfl
  · rw [hpr]
    rfl
  · rw [hdp.2.2.2.2.2.2] at hx
    cases hx
  · rw [hrp.2.2.2.2] at hx
    cases hx
  · rw [hpd] at hx
    rw [hpr, hlist, if_pos rfl, hlist, if_neg hne, if_pos rfl]
    cases hx
    exact ⟨rfl, rfl, by simp⟩
  · rw [hpr] at hx
    rw [hpd, hlist, if_neg hne, if_pos rfl, hlist, if_pos rfl]
    cases hx
    exact ⟨rfl, rfl, by simp⟩
  · rw [hpd]
    rfl
  · rw [hpr]
    rfl

/-- The flag of a spare descriptor is nobody's concern. -/
theorem markSpare (h : Whole n frames hand k) (hr : hand r = some .spare) :
    Whole n frames hand (k.write r fun p => { p with migrating := true }) := by
  have hva (x : PageId) :
      ((k.write r fun p => { p with migrating := true }).page x).va = (k.page x).va := by
    by_cases hx : x = r
    · subst hx
      simp
    · rw [Skeleton.page_write_of_ne _ _ hx]
  obtain ⟨hhash, hzero⟩ := h.hash_same (k.write r fun p => { p with migrating := true }) rfl hva
  refine h.single (d := r) (fun x hx => Skeleton.page_write_of_ne _ _ hx) (fun _ _ => rfl)
    (fun _ _ => rfl) (h.lt_of_hand hr) ?_ ?_ ?_ ?_ ?_ Iff.rfl hhash hzero
  · unfold Skeleton.Place
    rw [Skeleton.list_write, h.list_of_hand hr, hr, Skeleton.page_write_self]
    exact h.inHand hr
  · rw [Skeleton.page_write_self]
    exact h.present r
  · rw [Skeleton.page_write_self]
    exact h.pt r (h.lt_of_hand hr)
  · rw [Skeleton.page_write_self]
  · rw [Skeleton.page_write_self]

end Whole

/-! The swap-in of one page. -/

/-- What the claim of a page does and when it is granted. -/
def Claimed (k : Skeleton) (d : PageId) (old : Option Nat) (c : Claim) (k' : Skeleton) : Prop :=
  if c = .mine then (k.page d).migrating = false ∧ (k.page d).swappedOut = true ∧
    old.any (· != (k.page d).va) = false ∧ k' = k.write d fun p => { p with migrating := true }
  else ((k.page d).migrating = true ∨ (k.page d).swappedOut = false ∨
    old.any (· != (k.page d).va) = true) ∧ k' = k

theorem after_claimSwapin {old : Option Nat} (hk : e.sh.skeleton = k) :
    After (claimSwapin d old) e fun c e' => Claimed k d old c e'.sh.skeleton := by
  subst hk
  refine (after_atomic _ _ _).mpr fun c e' he => ?_
  unfold Claimed
  dsimp only at he
  split at he
  · next h =>
    cases he
    exact ⟨.inl h, rfl⟩
  · next h =>
    split at he
    · next h' =>
      cases he
      exact ⟨.inr (.inl h'), rfl⟩
    · next h' =>
      split at he
      · next h'' =>
        cases he
        exact ⟨.inr (.inr h''), rfl⟩
      · next h'' =>
        cases he
        exact ⟨Bool.eq_false_iff.mpr h, eq_true_of_ne_false h', Bool.eq_false_iff.mpr h'', rfl⟩

theorem after_detach {onList onRemoved : Abort} (hk : e.sh.skeleton = k) :
    After (detach d onList onRemoved) e fun _ e' =>
        k.list d = some .diskActiveList ∧ e'.sh.skeleton = k.unlink d := by
  unfold detach
  refine after_assertList hk fun hl =>
    after_tryremoveThen hk (fun _ => rfl) (fun hl e hk => ?_) fun _ => ?_
  · exact after_still_last hk (by simp) |>.mono fun _ e' hk => ⟨hl, hk⟩
  · rw [← bind_pure (Prog.check false onRemoved)]
    exact after_check fun h => by cases h

theorem after_upFinish {offset : Frame} (hk : e.sh.skeleton = k) :
    After (coreMigrateUpAsyncFinish d offset) e fun _ e' =>
      e'.sh.skeleton = k.write d fun p => { p with virtualOffset := offset, inDram := true } := by
  unfold coreMigrateUpAsyncFinish
  refine after_still hk (by simp) fun _ e hk =>
    after_still hk (by simp) fun _ e hk => after_still hk (by simp) fun _ e hk => ?_
  refine after_still hk (by simp) fun _ e hk =>
    after_still hk (by simp) fun _ e hk => after_still hk (by simp) fun _ e hk => ?_
  refine after_still hk (by simp) fun _ e hk =>
    after_still hk (by simp) fun _ e hk => after_still hk (by simp) fun _ e hk => ?_
  refine after_still hk (by simp) fun _ e hk =>
    after_setPage hk fun e hk => after_setPage hk fun e hk => ?_
  refine (after_still_last hk (by simp)).mono fun _ e hk => ?_
  rw [hk, Skeleton.write_write]

/-- The two final descriptors of a swap-in but for the flags that its caller clears. -/
theorem after_publishSwapin (hk : e.sh.skeleton = k) (hne : r ≠ d) :
    After (publishSwapin d r) e fun _ e' => k.list r = none ∧ k.list d = none ∧ e'.sh.skeleton =
        (((k.write r fun p => { p with hasReserve := true, reserve := some d }).write d fun p =>
        { p with hasReserve := true, reserve := some r }).link .diskReserveList r).link
        .inactiveList d := by
  unfold publishSwapin
  refine after_setPage hk fun e hk => after_setPage hk fun e hk => after_setPage hk fun e hk => ?_
  refine after_enqueueThen hk (fun _ => rfl) fun hr e hk => ?_
  rw [← bind_pure (enqueueFifoThen FifoList.inactiveList d _)]
  refine after_enqueueThen hk (fun _ => rfl) fun hd e hk => (after_pure _ _ _).mpr ⟨hr, ?_, ?_⟩
  · rw [Skeleton.list_link hr, if_neg hne.symm] at hd
    exact hd
  · rw [hk]
    congr 2
    refine Skeleton.ext (funext fun x => ?_) rfl rfl rfl rfl rfl rfl
    by_cases h₁ : x = r
    · subst h₁
      simp [Skeleton.write, hne, hne.symm]
    · by_cases h₂ : x = d
      · subst h₂
        simp [Skeleton.write, h₁]
      · simp [Skeleton.write, h₁, h₂]

/-- The caller of a swap-in clears the flags. -/
theorem after_finishSwapin (hk : e.sh.skeleton = k) : After (finishSwapin d) e fun _ e' =>
    e'.sh.skeleton = k.write d fun p => { p with swappedOut := false, migrating := false } := by
  refine (after_modify _ _ _).mpr ?_
  rw [← hk]
  rfl

theorem bringIn_eq {k' : Skeleton}
    (hd : k'.page d = (k.page d).broughtIn (k.page r).virtualOffset r)
    (hr : k'.page r = (k.page r).kept (k.page d).virtualOffset d)
    (hx : ∀ x, x ≠ d → x ≠ r → k'.page x = k.page x)
    (hf : k'.fifos = (k.fifos.enqueue .diskReserveList r).enqueue .inactiveList d)
    (hp : k'.pages = k.pages) (hv : k'.vma = k.vma) (hl : k'.lock = k.lock)
    (hs : k'.shrinking = k.shrinking) (hz : k'.sizes = k.sizes := by rfl) : k' = k.bringIn d r := by
  refine Skeleton.ext (funext fun x => ?_) hf hp hv hl hs hz
  simp only [Skeleton.bringIn, Function.update_apply]
  by_cases h₁ : x = r
  · rw [if_pos h₁, h₁, hr]
  · rw [if_neg h₁]
    by_cases h₂ : x = d
    · rw [if_pos h₂, h₂, hd]
    · rw [if_neg h₂, hx x h₂ h₁]

/-- The flags that the caller of a swap-in clears. -/
def UserPage.settled (p : UserPage) : UserPage := { p with swappedOut := false, migrating := false }

/-- From the state before its claim the page is detached, reclaim may run while a frame is
fetched, and the page is brought in. -/
def BroughtIn (n : Nat) (frames : List Frame) (hand : PageId → Option Hand) (k : Skeleton)
    (d : PageId) (k' : Skeleton) : Prop :=
  ∃ r k₁, k.list d = some .diskActiveList ∧ hand r = none ∧ r ≠ d ∧
    Whole n frames (Function.update (Function.update hand d (some .detached)) r (some .spare)) k₁ ∧
    Reclaim (Function.update hand d (some .detached))
      ((k.write d fun p => { p with migrating := true }).unlink d) k₁ ∧
    (k.shrinking = false → k₁.shrinking = false) ∧ k' = k₁.bringIn d r

theorem after_lrudiskSwapinExternalAsync (h : Whole n frames hand k)
    (hk : e.sh.skeleton = k.write d fun p => { p with migrating := true }) :
    After (lrudiskSwapinExternalAsync d) e fun _ e' =>
      BroughtIn n frames hand k d (e'.sh.skeleton.write d (·.settled)) := by
  unfold lrudiskSwapinExternalAsync
  refine after_field hk (after_then (after_detach hk) fun _ e ⟨hl, hk⟩ => ?_)
  rw [Skeleton.list_write] at hl
  have hw := h.detach hl
  refine after_still hk (by simp) fun _ e hk =>
    after_then (after_fetchFreeAsynch hk hw) fun r e ⟨hw', hr, hrec, hs⟩ => ?_
  have hne : r ≠ d := by
    rintro rfl
    rw [Function.update_self] at hr
    cases hr
  rw [Function.update_of_ne hne] at hr
  refine after_then (R := fun offset e' => offset = (e.sh.skeleton.page r).virtualOffset ∧
    e'.sh.skeleton = e.sh.skeleton) ?_ fun offset e₁ ⟨hoff, hk₁⟩ => ?_
  · unfold frameOf
    refine after_still rfl (within_modify fun _ => .of_eq rfl rfl) fun _ e₁ hk₁ =>
      after_still hk₁ (by simp) fun _ e₁ hk₁ => ?_
    refine (after_read _ _ _).mpr ⟨?_, hk₁⟩
    rw [← hk₁]
    rfl
  subst hoff
  refine after_then (after_upFinish hk₁) fun _ e₂ hk₂ => ?_
  refine after_setPage hk₂ fun e₃ hk₃ =>
    (after_publishSwapin hk₃ hne).mono fun _ e₄ ⟨hrl, hdl, hk₄⟩ => ?_
  refine ⟨r, e.sh.skeleton, hl, hr, hne, hw', hrec, hs, ?_⟩
  have hd : e.sh.skeleton.page d = { k.page d with migrating := true } := by
    rw [hrec.held d (by simp)]
    simp
  rw [hk₄]
  refine bringIn_eq ?_ ?_ (fun x h₁ h₂ => ?_) rfl rfl rfl rfl rfl
  · simp [Skeleton.write, Skeleton.link, UserPage.broughtIn, UserPage.settled, hne, hne.symm]
  · simp [Skeleton.write, Skeleton.link, UserPage.kept, hne, hd]
  · simp [Skeleton.write, Skeleton.link, h₁, h₂]

/-- A swap-in keeps the invariant and leaves alone what reclaim must. -/
theorem BroughtIn.whole {k' : Skeleton} (h : Whole n frames hand k)
    (hb : BroughtIn n frames hand k d k') :
    Reclaimed n frames hand k k' ∧ (k.shrinking = false → k'.shrinking = false) := by
  obtain ⟨r, k₁, hl, hr, hne, hw, hrec, hs, rfl⟩ := hb
  have hhd := h.hand_of_list hl
  have hw' := hw.bringIn (d := d) (r := r)
    (by rw [Function.update_of_ne hne.symm, Function.update_self]) (by simp)
  have hhand : Function.update (Function.update
      (Function.update (Function.update hand d (some .detached)) r (some .spare)) d none) r none =
      hand := by
    funext x
    by_cases h₁ : x = r
    · rw [h₁, Function.update_self, hr]
    · rw [Function.update_of_ne h₁]
      by_cases h₂ : x = d
      · rw [h₂, Function.update_self, hhd]
      · rw [Function.update_of_ne h₂, Function.update_of_ne h₁, Function.update_of_ne h₂]
  rw [hhand] at hw'
  have hpage (x : PageId) (h₁ : x ≠ r) (h₂ : x ≠ d) : (k₁.bringIn d r).page x = k₁.page x := by
    simp [Skeleton.bringIn, h₁, h₂]
  have hva₁ (x : PageId) : ((k₁.bringIn d r).page x).va = (k₁.page x).va := by
    by_cases h₁ : x = r
    · subst h₁
      simp [Skeleton.bringIn, UserPage.kept]
    · by_cases h₂ : x = d
      · subst h₂
        simp [Skeleton.bringIn, h₁, UserPage.broughtIn]
      · rw [hpage x h₁ h₂]
  refine ⟨⟨hw', hrec.pages, hrec.vma, hrec.lock, fun x => ?_, fun x hx => ?_⟩, hs⟩
  · rw [hva₁, hrec.va]
    by_cases h₂ : x = d
    · subst h₂
      simp
    · rw [Skeleton.page_unlink, Skeleton.page_write_of_ne _ _ h₂]
  · have h₁ : x ≠ r := by
      rintro rfl
      exact hx hr
    have h₂ : x ≠ d := by
      rintro rfl
      exact hx hhd
    rw [hpage x h₁ h₂, hrec.held x (by rw [Function.update_of_ne h₂]; exact hx),
      Skeleton.page_unlink, Skeleton.page_write_of_ne _ _ h₂]

end ExtMem
