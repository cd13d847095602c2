import ExtMem.Serial.Prefetch
import ExtMem.Threads.Total

/-! The unmapping of pages, run alone. -/
namespace ExtMem
open Threads Threads.Prog

variable {n : Nat} {frames : List Frame} {hand : PageId → Option Hand} {k k' : Skeleton}
  {d r : PageId} {e : Env}

/-- The descriptor of a page that was unmapped. -/
def UserPage.released (p : UserPage) : UserPage :=
  { p with va := 0, migrating := false, present := false, hasReserve := false, reserve := none }

/-- The descriptor of a disk copy that was given up. -/
def UserPage.dropped (p : UserPage) : UserPage :=
  { p with hasReserve := false, reserve := none, present := false }

/-- A page is forgotten: it becomes a free descriptor of the space it is in, and so does the
reserve that it has. -/
def Skeleton.release (k : Skeleton) (d : PageId) : Skeleton :=
  { k with
    page := match (k.page d).reserve with
      | some r =>
        Function.update (Function.update k.page d (k.page d).released) r (k.page r).dropped
      | none => Function.update k.page d (k.page d).released
    fifos := match (k.page d).reserve with
      | some r => (((k.fifos.unlink d).unlink r).enqueue .diskFreeList r).enqueue .dramFreeList d
      | none =>
        (k.fifos.unlink d).enqueue (if (k.page d).inDram then .dramFreeList else .diskFreeList) d
    pages := fun a => if k.pages a = some d then none else k.pages a }

namespace Whole

/-- Where a page with an address is. -/
theorem tracked (h : Whole n frames (fun _ => none) k) (hd : d < n) (hva : (k.page d).va ≠ 0) :
    ∃ l, k.list d = some l ∧
      (l.resident = true ∧ (k.page d).Resident ∨ l = .diskActiveList ∧ (k.page d).Away) := by
  have hp := h.place d hd
  unfold Skeleton.Place at hp
  cases hl : k.list d with
  | none =>
    rw [hl] at hp
    exact hp.elim
  | some l =>
    rw [hl] at hp
    refine ⟨l, rfl, ?_⟩
    cases l with
    | activeList => exact .inl ⟨rfl, hp⟩
    | inactiveList => exact .inl ⟨rfl, hp⟩
    | evictionList => exact .inl ⟨rfl, hp⟩
    | diskActiveList => exact .inr ⟨rfl, hp.1⟩
    | dramFreeList => exact absurd hp.1 hva
    | diskFreeList => exact absurd hp.1 hva
    | diskReserveList => exact absurd hp.1 hva

/-- The hash after a page was taken out of it. -/
private theorem hash_release (h : Whole n frames hand k) (k' : Skeleton) (hd : (k.page d).va ≠ 0)
    (hpages : k'.pages = fun a => if k.pages a = some d then none else k.pages a)
    (hva : (k'.page d).va = 0) (hx : ∀ x, x ≠ d → (k'.page x).va = (k.page x).va) :
    (∀ a x, a ≠ 0 → (k'.pages a = some x ↔ x < n ∧ (k'.page x).va = a)) ∧ k'.pages 0 = some n := by
  constructor
  · intro a x ha
    rw [hpages]
    by_cases hxd : x = d
    · subst hxd
      refine iff_of_false ?_ fun hc => ha (by rw [← hc.2, hva])
      dsimp only
      split
      · simp
      · assumption
    · rw [hx x hxd, ← h.hash a x ha]
      dsimp only
      split
      · next hp =>
        refine iff_of_false (by simp) fun hc => hxd ?_
        rw [hc, Option.some.injEq] at hp
        exact hp
      · rfl
  · rw [hpages]
    dsimp only
    rw [if_neg, h.zero]
    rw [h.zero, Option.some.injEq]
    rintro rfl
    exact hd h.dummy

theorem release (h : Whole n frames (fun _ => none) k) (hd : d < n) (hva : (k.page d).va ≠ 0) :
    Whole n frames (fun _ => none) (k.release d) := by
  obtain ⟨l, hl, hkind⟩ := h.tracked hd hva
  cases hres : (k.page d).reserve with
  | none =>
    have hpd : (k.release d).page d = (k.page d).released := by
      simp [Skeleton.release, hres]
    have hpx (x : PageId) (hx : x ≠ d) : (k.release d).page x = k.page x := by
      simp [Skeleton.release, hres, hx]
    have hlist (x : PageId) : (k.release d).list x = if x = d then
        some (if (k.page d).inDram then .dramFreeList else .diskFreeList) else k.list x := by
      have htag : (k.fifos.unlink d).tag d = none := by simp
      have hf : (k.release d).fifos = (k.fifos.unlink d).enqueue
          (if (k.page d).inDram then .dramFreeList else .diskFreeList) d := by
        simp [Skeleton.release, hres]
      show (k.release d).fifos.tag x = _
      rw [hf, Queues.tag_enqueue htag]
      by_cases hx : x = d
      · rw [if_pos hx, if_pos hx]
      · rw [if_neg hx, if_neg hx, Queues.tag_unlink, if_neg hx]
        rfl
    obtain ⟨hhash, hzero⟩ := hash_release h (k.release d) hva rfl (by rw [hpd]; rfl) fun x hx => by
      rw [hpx x hx]
    refine h.single hpx (fun x hx => by rw [hlist, if_neg hx])
      (fun _ _ => rfl) hd ?_ ?_ ?_ ?_ ?_ ?_ hhash hzero
    · unfold Skeleton.Place
      rw [hlist, if_pos rfl, hpd]
      rcases hkind with ⟨-, hr⟩ | ⟨-, ha⟩
      · rw [hr.2.2.1]
        exact ⟨rfl, hr.2.2.1, hr.2.2.2.1, rfl, rfl⟩
      · rw [ha.2.2.1]
        exact ⟨rfl, ha.2.2.1, ha.2.2.2.1, rfl, rfl⟩
    · rw [hpd]
      rfl
    · rw [hpd]
      exact h.pt d hd
    · rw [hpd]
      rfl
    · rw [hpd, hres]
      rfl
    · rw [hlist, if_pos rfl, hl]
      refine iff_of_false ?_ ?_
      · cases (k.page d).inDram <;> simp
      · rcases hkind with ⟨hr, -⟩ | ⟨rfl, -⟩
        · rintro hc
          cases hc
          cases hr
        · simp
  | some r =>
    obtain ⟨hrn, hback, hcopy⟩ := h.reserved d r hd hres
    have hdr : (k.page d).Resident := by
      rcases hkind with ⟨-, hr⟩ | ⟨-, ha⟩
      · exact hr
      · rw [ha.2.2.2.2.2.2] at hres
        cases hres
    have hld : k.list d ≠ some .diskReserveList := by
      intro hc
      have hf : (k.page d).Copy := h.fits hc
      exact hva hf.1
    have hlr : k.list r = some .diskReserveList := by
      by_contra hc
      exact hld (hcopy.mpr hc)
    have hrp : (k.page r).Copy := h.fits hlr
    have hne : r ≠ d := by
      rintro rfl
      exact hld hlr
    have hpd : (k.release d).page d = (k.page d).released := by
      simp [Skeleton.release, hres, hne.symm]
    have hpr : (k.release d).page r = (k.page r).dropped := by
      simp [Skeleton.release, hres]
    have hpx (x : PageId) (h₁ : x ≠ d) (h₂ : x ≠ r) : (k.release d).page x = k.page x := by
      simp [Skeleton.release, hres, h₁, h₂]
    have hlist (x : PageId) : (k.release d).list x =
        if x = d then some .dramFreeList else if x = r then some .diskFreeList else k.list x := by
      have htag : ((k.fifos.unlink d).unlink r).tag r = none := by simp
      have htag' : (((k.fifos.unlink d).unlink r).enqueue .diskFreeList r).tag d = none := by
        rw [Queues.tag_enqueue htag, if_neg hne.symm]
        simp
      have hf : (k.release d).fifos =
          (((k.fifos.unlink d).unlink r).enqueue .diskFreeList r).enqueue .dramFreeList d := by
        simp [Skeleton.release, hres]
      show (k.release d).fifos.tag x = _
      rw [hf, Queues.tag_enqueue htag', Queues.tag_enqueue htag]
      by_cases h₁ : x = d
      · rw [if_pos h₁, if_pos h₁]
      · rw [if_neg h₁, if_neg h₁]
        by_cases h₂ : x = r
        · rw [if_pos h₂, if_pos h₂]
        · rw [if_neg h₂, if_neg h₂, Queues.tag_unlink, if_neg h₂, Queues.tag_unlink, if_neg h₁]
          rfl
    have hvax (x : PageId) (hx : x ≠ d) : ((k.release d).page x).va = (k.page x).va := by
      by_cases h₂ : x = r
      · rw [h₂, hpr]
        rfl
      · rw [hpx x hx h₂]
    obtain ⟨hhash, hzero⟩ := hash_release h (k.release d) hva rfl (by rw [hpd]; rfl) hvax
    refine h.pair (d := d) (r := r) ⟨hpx, fun x h₁ h₂ => ?_, fun _ _ _ => rfl, ⟨hd, hrn⟩, ⟨?_, ?_⟩,
      ?_, ?_, .inl ⟨?_, ?_⟩, ⟨fun x hx => ?_, fun x hx => ?_⟩, fun x hx => ?_, fun x hx => ?_⟩
      hhash hzero
    · rw [hlist, if_neg h₁, if_neg h₂]
    · unfold Skeleton.Place
      rw [hlist, if_pos rfl, hpd]
      exact ⟨rfl, hdr.2.2.1, hdr.2.2.2.1, rfl, rfl⟩
    · unfold Skeleton.Place
      rw [hlist, if_neg hne, if_pos rfl, hpr]
      exact ⟨hrp.1, hrp.2.1, hrp.2.2.1, rfl, rfl⟩
    · rw [hpd, hpr]
      exact ⟨rfl, rfl⟩
    · rw [hpd, hpr]
      exact ⟨h.pt d hd, h.pt r hrn⟩
    · rw [hpd]
      rfl
    · rw [hpr]
      rfl
    · rw [hres, Option.some.injEq] at hx
      exact .inr hx.symm
    · rw [hback, Option.some.injEq] at hx
      exact .inl hx.symm
    · rw [hpd] at hx
      cases hx
    · rw [hpr] at hx
      cases hx

end Whole

/-! Programs that must return, by what they do to the skeleton. -/

section Total
variable {β : Type} {Q : β → Env → Prop}

theorem total_modify {g : Env → Env} {q : Unit → Paging β}
    (hg : ∀ e, (g e).sh.skeleton = e.sh.skeleton) (hk : e.sh.skeleton = k)
    (hq : ∀ e, e.sh.skeleton = k → Total (q ()) e Q) : Total (Prog.modify g >>= q) e Q :=
  .act rfl (hq _ ((hg e).trans hk))

theorem total_modifyPage {f : UserPage → UserPage} {g : Env → Env} {q : Unit → Paging β}
    (hk : e.sh.skeleton = k) (hg : ∀ e, (g e).sh.skeleton = e.sh.skeleton.write d f)
    (hq : ∀ e, e.sh.skeleton = k.write d f → Total (q ()) e Q) : Total (Prog.modify g >>= q) e Q :=
  .act rfl (hq _ ((hg e).trans (by rw [hk])))

theorem total_setPage {f : UserPage → UserPage} {q : Unit → Paging β} (hk : e.sh.skeleton = k)
    (hq : ∀ e, e.sh.skeleton = k.write d f → Total (q ()) e Q) : Total (setPage d f >>= q) e Q :=
  total_modifyPage hk (fun _ => rfl) hq

theorem total_field {α : Type} {f : UserPage → α} {q : α → Paging β} (hk : e.sh.skeleton = k)
    (hq : ∀ e, e.sh.skeleton = k → Total (q (f (k.page d))) e Q) : Total (field d f >>= q) e Q := by
  subst hk
  exact .act rfl (hq e rfl)

theorem total_assertPage {c : UserPage → Bool} {why : Abort} {q : Unit → Paging β}
    (hk : e.sh.skeleton = k) (hc : c (k.page d) = true)
    (hq : ∀ e, e.sh.skeleton = k → Total (q ()) e Q) : Total (assertPage d c why >>= q) e Q := by
  subst hk
  exact .act (if_pos hc) (hq e rfl)

theorem total_enqueue {l : FifoList} {q : Unit → Paging β} (hk : e.sh.skeleton = k)
    (hl : k.list d = none) (hq : ∀ e, e.sh.skeleton = k.link l d → Total (q ()) e Q) :
    Total (enqueueFifo l d >>= q) e Q := by
  subst hk
  exact .act (if_pos (Option.isNone_iff_eq_none.mpr hl)) (hq _ rfl)

end Total

/-! The program. -/

private theorem total_removeFromAnyList {l : FifoList}
    (hk : e.sh.skeleton = k) (hl : k.list d = some l) :
    Total (removeFromAnyList d) e fun _ e' => e'.sh.skeleton = k.unlink d := by
  subst hk
  have htag : e.sh.list d = some l := hl
  refine .iter (.act rfl ?_)
  simp only [ret_bind, htag]
  exact .act (if_pos htag) (.ret rfl)

/-- The removal of a descriptor that is on no list retries for ever. -/
theorem not_ends_removeFromAnyList (hl : e.sh.list d = none) : ¬ Ends (removeFromAnyList d) e := by
  refine not_ends_loop (fun _ e => e.sh.list d = none) (fun _ e hl => .act rfl ?_) hl
  simp only [hl]
  exact .act rfl (.ret ⟨(), rfl, hl⟩)

private theorem total_freeReserve (hk : e.sh.skeleton = k) (hr : (k.page d).reserve = some r)
    (hback : (k.page r).reserve = some d) (hl : k.list r = some .diskReserveList) :
    Total (freeReserve d) e fun _ e' =>
      e'.sh.skeleton = ((((k.unlink r).write r (·.dropped)).link .diskFreeList r).write d fun p =>
      { p with hasReserve := false, reserve := none }) := by
  unfold freeReserve
  refine total_field hk fun e hk => ?_
  rw [hr]
  refine total_assertPage hk (by rw [hback]; exact beq_self_eq_true _) fun e hk => ?_
  refine Total.bind (Q := fun _ e' => e'.sh.skeleton = k.unlink r) ?_ fun _ e hk => ?_
  · subst hk
    have htag : e.sh.list r = some .diskReserveList := hl
    refine .iter (.act rfl ?_)
    simp only [ret_bind, htag]
    exact .act (if_pos htag) (.ret rfl)
  · refine total_setPage hk fun e hk => total_enqueue hk (by simp) fun e hk => .act rfl (.ret ?_)
    exact congrArg (·.write d fun p => { p with hasReserve := false, reserve := none }) hk

private theorem total_claimUnmap (hk : e.sh.skeleton = k) (hm : (k.page d).migrating = false) :
    Total (claimUnmap d) e fun _ e' =>
      e'.sh.skeleton = k.write d fun p => { p with migrating := true } := by
  subst hk
  have hm' : ¬ (e.sh.page d).migrating = true := by
    rw [show (e.sh.page d).migrating = false from hm]
    exact Bool.false_ne_true
  exact .act (if_neg hm') (.ret rfl)

private theorem skeleton_released (e : Env)
    (d : PageId) : (((e.setPage d fun p => { p with migrating := false }).endWork d).record
    (.released d)).sh.skeleton = e.sh.skeleton.write d fun p => { p with migrating := false } := rfl

/-- A tracked page is forgotten. -/
theorem total_removeTracked (hk : e.sh.skeleton = k) (h : Whole n frames (fun _ => none) k)
    (hd : d < n) (hva : (k.page d).va ≠ 0) :
    Total (do claimUnmap d; removePage d; lrudiskRemovePage d) e fun _ e' =>
      e'.sh.skeleton = k.release d := by
  obtain ⟨l, hl, hkind⟩ := h.tracked hd hva
  have hm : (k.page d).migrating = false := by
    rcases hkind with ⟨-, hr⟩ | ⟨hl', -⟩
    · exact hr.2.2.2.2.2.1
    · rw [hl'] at hl
      exact (h.fits hl).2
  refine (total_claimUnmap hk hm).bind fun _ e hk => ?_
  have hremove : Total (removePage d) e fun _ e' => e'.sh.skeleton =
      { k.write d fun p => { p with migrating := true } with
        pages := fun a => if k.pages a = some d then none else k.pages a } := by
    refine .act rfl (.ret ?_)
    show { e.sh.skeleton with
      pages := fun a => if e.sh.skeleton.pages a = some d then none else e.sh.skeleton.pages a } = _
    rw [hk]
    rfl
  refine hremove.bind fun _ e hk => ?_
  unfold lrudiskRemovePage
  refine total_setPage hk fun e hk =>
    (total_removeFromAnyList hk (by exact hl)).bind fun _ e hk => ?_
  refine total_modifyPage (f := fun p => { p with present := false, va := 0 }) hk (fun _ => rfl)
    fun e hk => ?_
  refine total_field hk fun e hk => ?_
  simp only [Skeleton.write, Skeleton.unlink, Function.update_self]
  rcases hkind with ⟨-, hres⟩ | ⟨-, haway⟩
  · rw [if_pos hres.2.2.1]
    refine total_field hk fun e hk => ?_
    simp only [Skeleton.write, Skeleton.unlink, Function.update_self]
    cases hr : (k.page d).reserve with
    | some r =>
      obtain ⟨-, hback, hcopy⟩ := h.reserved d r hd hr
      have hld : k.list d ≠ some .diskReserveList := fun hc => hva (h.fits hc).1
      have hlr : k.list r = some .diskReserveList := by
        by_contra hc
        exact hld (hcopy.mpr hc)
      have hne : r ≠ d := by
        rintro rfl
        exact hld hlr
      rw [if_pos (by rw [hres.2.2.2.2.2.2, hr]; rfl)]
      refine (total_freeReserve hk (by simpa [Skeleton.write, Skeleton.unlink] using hr)
        (by simpa [Skeleton.write, Skeleton.unlink, hne] using hback) ?_).bind fun _ e hk => ?_
      · rw [Skeleton.list_write]
        show (k.unlink d).list r = _
        rw [Skeleton.list_unlink, if_neg hne, hlr]
      · refine total_enqueue hk ?_ fun e hk => .act rfl (.ret ?_)
        · rw [Skeleton.list_write, Skeleton.list_link (by simp), if_neg hne.symm,
            Skeleton.list_write, Skeleton.list_unlink, if_neg hne.symm, Skeleton.list_write]
          show (k.unlink d).list d = none
          simp
        · rw [skeleton_released, hk]
          refine Skeleton.ext (funext fun x => ?_) ?_ rfl rfl rfl rfl rfl
          · by_cases h₁ : x = r
            · subst h₁
              simp [Skeleton.write, Skeleton.unlink, Skeleton.link, Skeleton.release, hr,
                UserPage.dropped, hne]
            · by_cases h₂ : x = d
              · subst h₂
                simp [Skeleton.write, Skeleton.unlink, Skeleton.link, Skeleton.release, hr,
                  UserPage.released, h₁]
              · simp [Skeleton.write, Skeleton.unlink, Skeleton.link, Skeleton.release, hr, h₁, h₂]
          · simp [Skeleton.write, Skeleton.unlink, Skeleton.link, Skeleton.release, hr]
    | none =>
      have hhas : (k.page d).hasReserve = false := by rw [hres.2.2.2.2.2.2, hr]; rfl
      rw [if_neg (by rw [hhas]; exact Bool.false_ne_true)]
      refine total_enqueue hk ?_ fun e hk => .act rfl (.ret ?_)
      · rw [Skeleton.list_write]
        show (k.unlink d).list d = none
        simp
      · rw [skeleton_released, hk]
        refine Skeleton.ext (funext fun x => ?_) ?_ rfl rfl rfl rfl rfl
        · by_cases h₂ : x = d
          · subst h₂
            ext <;> simp [Skeleton.write, Skeleton.unlink, Skeleton.link, Skeleton.release, hr,
              UserPage.released, hhas]
          · simp [Skeleton.write, Skeleton.unlink, Skeleton.link, Skeleton.release, hr, h₂]
        · simp [Skeleton.write, Skeleton.unlink, Skeleton.link, Skeleton.release, hr, hres.2.2.1]
  · have hnone : (k.page d).reserve = none := haway.2.2.2.2.2.2
    rw [if_neg (by rw [haway.2.2.1]; exact Bool.false_ne_true)]
    refine total_field hk fun e hk => ?_
    simp only [Skeleton.write, Skeleton.unlink, Function.update_self]
    rw [if_pos haway.2.2.2.2.1]
    refine total_setPage hk fun e hk => total_enqueue hk ?_ fun e hk => .act rfl (.ret ?_)
    · rw [Skeleton.list_write, Skeleton.list_write]
      show (k.unlink d).list d = none
      simp
    · rw [skeleton_released, hk]
      refine Skeleton.ext (funext fun x => ?_) ?_ rfl rfl rfl rfl rfl
      · by_cases h₂ : x = d
        · subst h₂
          ext <;> simp [Skeleton.write, Skeleton.unlink, Skeleton.link, Skeleton.release, hnone,
            UserPage.released]
        · simp [Skeleton.write, Skeleton.unlink, Skeleton.link, Skeleton.release, hnone, h₂]
      · simp [Skeleton.write, Skeleton.unlink, Skeleton.link, Skeleton.release, hnone, haway.2.2.1]

/-- The removal of a descriptor that is on no list does not return. -/
theorem after_removeUnlisted (hk : e.sh.skeleton = k) (hl : k.list d = none) :
    After (do claimUnmap d; removePage d; lrudiskRemovePage d) e fun _ _ => False := by
  have hany (e : Env) (hl : e.sh.list d = none) :
      After (removeFromAnyList d) e fun _ _ => False := by
    refine after_loop (fun _ e => e.sh.list d = none) (fun _ e hl => ?_) hl
    refine (after_bind _ _ _ _).mpr ((after_read _ _ _).mpr ?_)
    rw [hl]
    exact (after_bind _ _ _ _).mpr
      ((after_atomic _ _ _).mpr fun b e' he => by cases he; exact (after_pure _ _ _).mpr hl)
  have hclaim : After (claimUnmap d) e fun _ e' => e'.sh.list d = none := by
    subst hk
    refine (after_bind _ _ _ _).mpr
      ((after_atomic _ _ _).mpr fun b e' he => (after_ite _ _ _ _).mpr ⟨fun _ => ?_, fun _ => ?_⟩)
    · refine (after_bind _ _ _ _).mpr
        ((after_atomic _ _ _).mpr fun _ e'' he' => (after_modify _ _ _).mpr ?_)
      split at he' <;> split at he <;> cases he' <;> cases he <;> exact hl
    · refine (after_pure _ _ _).mpr ?_
      split at he <;> cases he <;> exact hl
  refine after_then hclaim fun _ e hl => (after_bind _ _ _ _).mpr ((after_modify _ _ _).mpr ?_)
  unfold lrudiskRemovePage
  refine (after_bind _ _ _ _).mpr
    ((after_modify _ _ _).mpr (after_then (hany _ hl) fun _ _ hf => hf.elim))

end ExtMem
