import ExtMem.Ownership.Requests

/-! The reclaim scans: each page that they take off a list they put on another one. -/
namespace ExtMem
open Threads Threads.Prog Threads.Outline

variable {n : Nat} {frames : List Frame} {t : Tid} {l : Local} {g : Share} {d : PageId} {x : Hold}

/-- A page goes from one list of resident pages to another. -/
theorem safe_relist {q q' : FifoList} (hq : q.resident = true) (hq' : q'.resident = true)
    (hd : g.held d = none) (hx : TakenOff false q x)
    {Q : Unit → Local → Share → Prop} (h : ∀ l', Kept l l' → Q () l' g) :
    (owning n frames).Safe t (enqueueFifo q' d) Q l (g.put d (some x)) := by
  have hfits := (FifoList.fits_of_resident hq).mp hx.fits
  have hgives : Gives (g.put d (some x)) q' d x := by
    refine ⟨Share.held_put_self .., (FifoList.fits_of_resident hq').mpr hfits, hx.hashed, ?_, ?_⟩
    · rintro rfl
      cases hq'
    · rintro rfl
      cases hq'
  apply safe_enqueue (fun e => ⟨Beside.refl e, rfl⟩) hgives hx.stake
  intro l' hl'
  rw [Share.put_put, Share.put_self _ hd]
  exact h l' hl'

/-- Nothing of what ownership rests on has changed. -/
def Same (l : Local) (g : Share) (l' : Local) (g' : Share) : Prop := Kept l l' ∧ g' = g

theorem safe_shrinkActiveList (k : Nat) :
    (owning n frames).Safe t (shrinkActiveList k) (fun _ => Same l g) l g := by
  refine safe_ite (fun _ => ⟨Kept.refl l, rfl⟩) fun _ => ?_
  refine safe_skip (calm_setShrinkageRunning true) fun _ l₁ h₁ =>
    safe_skip (by simp) fun len l₂ h₂ => ?_
  refine safe_bind (safe_loop (fun _ => Same l g) ⟨h₁.trans h₂, rfl⟩ fun x l₃ g₃ h₃ => ?_)
  obtain ⟨hk, rfl⟩ := h₃
  refine safe_skip (by simp) fun len' l₄ h₄ =>
    safe_ite (fun _ => safe_bind (safe_dequeue taking_id ?_ ?_)) fun _ => ?_
  · exact ⟨hk.trans h₄, rfl⟩
  · intro d x l₅ hd hx _ h₅
    refine safe_skip (by simp) fun _ l₆ h₆ => safe_bind (safe_relist rfl rfl hd hx fun l₇ h₇ => ?_)
    exact ⟨(((hk.trans h₄).trans h₅).trans h₆).trans h₇, rfl⟩
  · exact safe_skip (calm_setShrinkageRunning false) fun _ l₅ h₅ => ⟨(hk.trans h₄).trans h₅, rfl⟩

theorem safe_scanInactivePage (hd : g.held d = none) (hx : TakenOff false .inactiveList x) :
    (owning n frames).Safe t (scanInactivePage d) (fun _ => Same l g) l (g.put d (some x)) := by
  have hlast {q' : FifoList} (hq' : q'.resident = true) (c : Bool) {l₁ : Local} (h₁ : Kept l l₁) :
      (owning n frames).Safe t (enqueueFifo q' d >>= fun _ => pure c) (fun _ => Same l g) l₁
      (g.put d (some x)) := safe_bind (safe_relist rfl hq' hd hx fun l₂ h₂ => ⟨h₁.trans h₂, rfl⟩)
  refine safe_skip (by simp) fun bits l₁ h₁ => safe_ite (fun _ => ?_) fun _ => ?_
  · refine safe_skip (by simp) fun _ l₂ h₂ =>
      safe_skip (by simp) fun _ l₃ h₃ => safe_skip (by simp) fun k l₄ h₄ => ?_
    have hk := ((h₁.trans h₂).trans h₃).trans h₄
    refine safe_ite (fun _ => ?_) fun _ => hlast rfl false hk
    exact safe_skip (by simp) fun _ l₅ h₅ => hlast rfl false (hk.trans h₅)
  · exact safe_skip (by simp) fun _ l₂ h₂ => hlast rfl true (h₁.trans h₂)

theorem safe_shrinkInactiveList (k : Nat) : (owning n frames).Safe t (shrinkInactiveList k)
    (fun _ => Same l g) l g := by
  refine safe_skip (by simp) fun len l₁ h₁ =>
    safe_skip (calm_setShrinkageRunning true) fun _ l₂ h₂ => ?_
  refine safe_bind (safe_loop (fun _ => Same l g) ⟨h₁.trans h₂, rfl⟩ fun x l₃ g₃ h₃ => ?_)
  obtain ⟨hk, rfl⟩ := h₃
  refine safe_skip (by simp) fun len' l₄ h₄ =>
    safe_ite (fun _ => safe_bind (safe_dequeue taking_id ?_ ?_)) fun _ => ?_
  · exact ⟨hk.trans h₄, rfl⟩
  · intro d x l₅ hd hx _ h₅
    refine safe_bind ((safe_scanInactivePage hd hx).mono fun c l₆ g₆ h₆ => ?_)
    exact ⟨((hk.trans h₄).trans h₅).trans h₆.1, h₆.2⟩
  · exact safe_skip (calm_setShrinkageRunning false) fun _ l₅ h₅ => ⟨(hk.trans h₄).trans h₅, rfl⟩

theorem safe_directAllocatePageAsynch (k : Int) (priority : Nat) :
    (owning n frames).Safe t (directAllocatePageAsynch k priority) (fun _ => Same l g) l g := by
  unfold directAllocatePageAsynch
  refine safe_skip (by simp) fun active l₁ h₁ => safe_skip (by simp) fun inactive l₂ h₂ => ?_
  generalize int32 _ = a, int32 _ = b
  refine safe_loop (fun _ => Same l g) ⟨h₁.trans h₂, rfl⟩ fun x l₃ g₃ h₃ => ?_
  obtain ⟨hk, rfl⟩ := h₃
  refine safe_ite (fun _ => safe_bind ((safe_shrinkInactiveList _).mono fun ret l₄ g₄ h₄ => ?_))
    fun _ => ⟨hk, rfl⟩
  obtain ⟨hk₄, rfl⟩ := h₄
  refine safe_skip (by simp) fun reclaimed l₅ h₅ => safe_skip (by simp) fun scanned l₆ h₆ => ?_
  have hk := ((hk.trans hk₄).trans h₅).trans h₆
  refine safe_ite (fun _ => safe_bind ((safe_shrinkActiveList _).mono fun _ l₇ g₇ h₇ => ?_))
    fun _ => ⟨hk, rfl⟩
  obtain ⟨hk₇, rfl⟩ := h₇
  exact safe_skip (by simp) fun _ l₈ h₈ => ⟨(hk.trans hk₇).trans h₈, rfl⟩

theorem safe_lrudiskSynchkswapd :
    (owning n frames).Safe t lrudiskSynchkswapd (fun _ => Same l g) l g := by
  refine safe_skip (calm_setKswapdRunning true) fun _ l₁ h₁ =>
    safe_skip (by simp) fun active l₂ h₂ => ?_
  refine safe_skip (by simp) fun inactive l₃ h₃ => safe_skip (by simp) fun dramsize l₄ h₄ => ?_
  have hk := ((h₁.trans h₂).trans h₃).trans h₄
  refine safe_ite (fun _ => ?_) fun _ =>
    safe_bind ((safe_directAllocatePageAsynch _ _).mono fun _ l₅ g₅ h₅ => ?_)
  · exact safe_calm (calm_setKswapdRunning false) fun _ l₅ h₅ => ⟨hk.trans h₅, rfl⟩
  · obtain ⟨hk₅, rfl⟩ := h₅
    exact safe_calm (calm_setKswapdRunning false) fun _ l₆ h₆ => ⟨(hk.trans hk₅).trans h₆, rfl⟩

theorem safe_fetchFreeScan (priority : Nat) : (owning n frames).Safe t (fetchFreeScan priority)
    (fun _ => Same l g) l g := by
  refine safe_skip (by simp) fun running l₁ h₁ => safe_ite (fun _ => ⟨h₁, rfl⟩) fun _ => ?_
  refine safe_skip (by simp) fun active l₂ h₂ =>
    safe_skip (by simp) fun inactive l₃ h₃ => safe_skip (by simp) fun dramsize l₄ h₄ => ?_
  have hk := ((h₁.trans h₂).trans h₃).trans h₄
  refine safe_ite (fun _ =>
    safe_bind ((safe_directAllocatePageAsynch _ _).mono fun _ l₅ g₅ h₅ => ?_)) fun _ => ⟨hk, rfl⟩
  exact ⟨hk.trans h₅.1, h₅.2⟩

end ExtMem
