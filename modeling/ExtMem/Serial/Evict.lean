import ExtMem.Serial.Whole

/-! What an eviction and the fetching of a free frame do when they run alone. -/
namespace ExtMem
open Threads Threads.Prog

/-- A page that was moved to a disk frame. -/
def UserPage.evicted (p : UserPage) (offset : Frame) : UserPage :=
  { p with virtualOffset := offset, inDram := false, swappedOut := true, migrating := false,
           hasReserve := false, reserve := none }

/-- A disk descriptor that was given a DRAM frame. -/
def UserPage.emptied (p : UserPage) (offset : Frame) : UserPage :=
  { p with
    virtualOffset := offset, inDram := true, present := false, hasReserve := false, reserve := none }

/-- The victim, which is on no list, and a disk descriptor exchange their frames; the
descriptor is left on no list. -/
def Skeleton.evict (k : Skeleton) (d r : PageId) : Skeleton :=
  { k with
    page :=
      Function.update (Function.update k.page d ((k.page d).evicted (k.page r).virtualOffset)) r
      ((k.page r).emptied (k.page d).virtualOffset)
    fifos := (k.fifos.unlink r).enqueue .diskActiveList d }

variable {n : Nat} {frames : List Frame} {hand : PageId → Option Hand} {k : Skeleton} {d r : PageId}
  {e : Env}

/-- The descriptor that a victim exchanges frames with. -/
structure Partner (k : Skeleton) (d r : PageId) : Prop where
  ne : r ≠ d
  list : k.list r = if (k.page d).hasReserve then some .diskReserveList else some .diskFreeList
  reserve : (k.page d).hasReserve = true → (k.page d).reserve = some r ∧ (k.page r).reserve = some d
  /-- Without a reserve it is the oldest free one. -/
  oldest : (k.page d).hasReserve = false → ∃ xs, k.fifos.seq .diskFreeList = r :: xs

theorem after_takeReserve (hk : e.sh.skeleton = k) :
    After (takeReserve d) e fun r e' => (k.page d).reserve = some r ∧ (k.page r).reserve = some d ∧
      k.list r = some .diskReserveList ∧ e'.sh.skeleton = k.unlink r := by
  unfold takeReserve
  refine after_field hk ?_
  cases hr : (k.page d).reserve with
  | none => exact (after_fail _ _ _).mpr trivial
  | some r =>
    refine after_assertPage hk fun hpr =>
      after_assertList hk fun hl => after_tryremoveThen hk (fun _ => rfl) ?_ ?_
    · intro _ e' hk'
      refine after_check fun _ => (after_pure _ _ _).mpr ⟨rfl, ?_, ?_, hk'⟩
      · simpa using hpr
      · simpa using hl
    · exact fun _ => after_check fun h => by cases h

theorem after_takeDiskFree (hk : e.sh.skeleton = k) :
    After takeDiskFree e fun r e' =>
        (∃ xs, k.fifos.seq .diskFreeList = r :: xs) ∧ e'.sh.skeleton = k.unlink r := by
  unfold takeDiskFree
  refine after_dequeueThen hk (fun _ _ => rfl) (fun _ => (after_fail _ _ _).mpr trivial)
    fun r xs hs e' hk' => ?_
  exact after_still hk' (by simp) fun _ e' hk' => (after_pure _ _ _).mpr ⟨⟨xs, hs⟩, hk'⟩

/-- The descriptor of a page after its bytes are on disk, still under migration. -/
def UserPage.moved (p : UserPage) (offset : Frame) : UserPage :=
  { p with virtualOffset := offset, inDram := false, swappedOut := true, migrating := true }

private theorem after_markSwappedOut (hk : e.sh.skeleton = k) (hm : (k.page d).migrating = true) :
    After (Prog.atomic (markSwappedOut d)) e fun _ e' =>
      e'.sh.skeleton = k.write d fun p => { p with swappedOut := true } := by
  subst hk
  refine (after_atomic _ _ _).mpr fun a e' he => ?_
  unfold markSwappedOut at he
  split at he
  · cases he
  · rw [if_pos (show (e.sh.page d).migrating = true from hm)] at he
    cases he
    rfl

theorem after_migrateDown {offset : Frame} {wp wb : Bool} (hk : e.sh.skeleton = k) :
    After (lrudiskMigrateDown d offset wp wb) e fun _ e' =>
      e'.sh.skeleton = k.write d (·.moved offset) := by
  unfold lrudiskMigrateDown
  refine after_setPage hk fun e hk => ?_
  suffices h : ∀ e : Env, e.sh.skeleton = k.write d (fun p => { p with migrating := true }) →
    After (extmemMigrateDowndisk d offset wb) e fun _ e' =>
    e'.sh.skeleton = k.write d (·.moved offset) by
    split
    · exact after_still hk (by simp) fun _ e hk => h e hk
    · exact h e hk
  clear hk e
  intro e hk
  unfold extmemMigrateDowndisk
  refine after_setPage hk fun e hk =>
    after_still hk (by simp) fun _ e hk => after_still hk (by simp) fun size e hk => ?_
  refine after_still hk (by simp) fun _ e hk => after_still hk (by simp) fun _ e hk => ?_
  refine after_still hk (by simp) fun _ e hk => after_still hk (by simp) fun va e hk => ?_
  rw [Skeleton.write_write] at hk
  suffices h : ∀ e : Env, e.sh.skeleton = k.write d (fun p => { p with migrating := true }) →
      After (do
      traceEvent (.dropping d)
      dropMapping va
      setStats fun t => { t with migrationsDown := add64 t.migrationsDown 1 }
      setPage d fun p => { p with virtualOffset := offset }
      setPage d fun p => { p with inDram := false }
      setStats fun t => { t with bytesMigrated := add64 t.bytesMigrated size }
      Prog.atomic (markSwappedOut d)) e fun _ e' => e'.sh.skeleton = k.write d (·.moved offset) by
    split
    · exact after_still hk (by simp) fun _ e hk => after_still hk (by simp) fun _ e hk => h e hk
    · exact h e hk
  clear hk e
  intro e hk
  refine after_still hk (by simp) fun _ e hk =>
    after_still hk (by simp) fun _ e hk => after_still hk (by simp) fun _ e hk => ?_
  refine after_setPage hk fun e hk =>
    after_setPage hk fun e hk => after_still hk (by simp) fun _ e hk => ?_
  refine (after_markSwappedOut hk (by simp)).mono fun _ e hk => ?_
  rw [hk]
  simp only [Skeleton.write_write]
  rfl

/-- What the victim and the descriptor must be like for an exchange without a reserve. -/
structure Bare (k : Skeleton) (d : PageId) : Prop where
  list : k.list d = none
  victim : (k.page d).hasReserve = false → (k.page d).reserve = none
  free : ∀ r, k.list r = some .diskFreeList →
    (k.page r).hasReserve = false ∧ (k.page r).reserve = none

theorem after_releaseVictim (hk : e.sh.skeleton = k) :
    After (releaseVictim d) e fun _ e' =>
      e'.sh.skeleton = k.write d fun p => { p with migrating := false, swappedOut := true } := by
  unfold releaseVictim
  refine after_still hk (by simp) fun _ e hk =>
    after_still hk (by simp) fun _ e hk => after_setPage hk fun e hk => ?_
  refine (after_modify _ _ _).mpr ?_
  have hw (e : Env) : ((e.setPage d fun p => { p with swappedOut := true }).endWork d).sh.skeleton =
      e.sh.skeleton.write d fun p => { p with swappedOut := true } := rfl
  rw [hw, hk, Skeleton.write_write]

/-- The writes of an eviction come to the two final descriptors. -/
private theorem evict_eq {k' : Skeleton}
    (hd : k'.page d = (k.page d).evicted (k.page r).virtualOffset)
    (hr : k'.page r = (k.page r).emptied (k.page d).virtualOffset)
    (hx : ∀ x, x ≠ d → x ≠ r → k'.page x = k.page x)
    (hf : k'.fifos = (k.fifos.unlink r).enqueue .diskActiveList d) (hp : k'.pages = k.pages)
    (hv : k'.vma = k.vma) (hl : k'.lock = k.lock) (hs : k'.shrinking = k.shrinking)
    (hz : k'.sizes = k.sizes := by rfl) : k' = k.evict d r := by
  refine Skeleton.ext (funext fun x => ?_) hf hp hv hl hs hz
  simp only [Skeleton.evict, Function.update_apply]
  by_cases h₁ : x = r
  · rw [if_pos h₁, h₁, hr]
  · rw [if_neg h₁]
    by_cases h₂ : x = d
    · rw [if_pos h₂, h₂, hd]
    · rw [if_neg h₂, hx x h₂ h₁]

theorem after_giveFrame {offset : Frame} {aux : Env → Env} (hk : e.sh.skeleton = k)
    (haux : ∀ e, (aux e).sh.skeleton = e.sh.skeleton) :
    After (giveFrame r offset aux) e fun _ e' => e'.sh.skeleton = k.write r fun p =>
      { p with virtualOffset := offset, inDram := true, present := false } := by
  refine (after_modify _ _ _).mpr ?_
  rw [haux, ← hk]
  rfl

theorem after_dropReserve (hk : e.sh.skeleton = k) : After (dropReserve d r) e fun _ e' =>
    e'.sh.skeleton = (k.write r fun p => { p with hasReserve := false, reserve := none }).write d
      fun p => { p with hasReserve := false, reserve := none } := by
  refine after_setPage hk fun e hk => (after_modify _ _ _).mpr ?_
  rw [← hk]
  rfl

theorem after_fetchFreeEvict (hk : e.sh.skeleton = k) (hb : Bare k d) :
    After (fetchFreeEvict d) e fun r e' => Partner k d r ∧ e'.sh.skeleton = k.evict d r := by
  unfold fetchFreeEvict
  refine after_setPage hk fun e hk =>
    after_still hk (by simp) fun writeback e hk => after_field hk ?_
  rw [Skeleton.page_write_self]
  refine (after_ite _ _ _ _).mpr ⟨fun hres => ?_, fun hres => ?_⟩
  · refine after_then (after_takeReserve hk) ?_
    rintro r e ⟨hdr, hrd, hl, hk⟩
    rw [Skeleton.page_write_self] at hdr
    have hne : r ≠ d := by
      rintro rfl
      rw [Skeleton.list_write, hb.list] at hl
      cases hl
    rw [Skeleton.page_write_of_ne _ _ hne] at hrd
    refine after_field hk (after_field hk ?_)
    refine after_then (after_migrateDown hk) fun _ e hk => ?_
    refine after_then (after_giveFrame hk fun _ => rfl) fun _ e hk => ?_
    refine after_then (after_dropReserve hk) fun _ e hk => ?_
    refine after_enqueueThen hk (fun _ => rfl) fun _ e hk => ?_
    refine after_then (after_releaseVictim hk) fun _ e hk =>
      (after_pure _ _ _).mpr ⟨⟨hne, ?_, fun _ => ⟨hdr, hrd⟩, ?_⟩, ?_⟩
    · rw [if_pos hres]
      exact hl
    · intro h
      rw [h] at hres
      cases hres
    · rw [hk]
      refine evict_eq ?_ ?_ (fun x h₁ h₂ => ?_) rfl rfl rfl rfl rfl
      · simp [Skeleton.write, Skeleton.link, Skeleton.unlink, UserPage.evicted, UserPage.moved,
          Function.update_of_ne, hne, hne.symm]
      · simp [Skeleton.write, Skeleton.link, Skeleton.unlink, UserPage.emptied,
          Function.update_of_ne, hne, hne.symm]
      · simp [Skeleton.write, Skeleton.link, Skeleton.unlink, Function.update_of_ne, h₁, h₂]
  · refine after_then (after_takeDiskFree hk) ?_
    rintro r e ⟨⟨xs, hs⟩, hk⟩
    have hl : k.list r = some .diskFreeList := Whole.list_of_seq hs
    have hne : r ≠ d := by
      rintro rfl
      rw [hb.list] at hl
      cases hl
    refine after_field hk (after_field hk ?_)
    refine after_then (after_migrateDown hk) fun _ e hk => after_still hk (by simp) fun _ e hk => ?_
    refine after_enqueueThen hk (fun _ => rfl) fun _ e hk => ?_
    refine after_then (after_giveFrame hk fun _ => rfl) fun _ e hk => ?_
    refine after_modifyPage (f := fun p => { p with migrating := false }) hk (fun _ => rfl)
      fun e hk => ?_
    have hres' : (k.page d).hasReserve = false := by simpa using hres
    refine (after_pure _ _ _).mpr ⟨⟨hne, ?_, fun h => absurd h hres, fun _ => ⟨xs, hs⟩⟩, ?_⟩
    · rw [if_neg hres]
      exact hl
    · rw [hk]
      obtain ⟨hr₁, hr₂⟩ := hb.free r hl
      refine evict_eq ?_ ?_ (fun x h₁ h₂ => ?_) rfl rfl rfl rfl rfl
      · ext <;> simp [Skeleton.write, Skeleton.link, Skeleton.unlink, UserPage.evicted,
          UserPage.moved, Function.update_of_ne, hne, hne.symm, hres', hb.victim hres']
      · ext <;> simp [Skeleton.write, Skeleton.link, Skeleton.unlink, UserPage.emptied,
          Function.update_of_ne, hne, hne.symm, hr₁, hr₂]
      · simp [Skeleton.write, Skeleton.link, Skeleton.unlink, Function.update_of_ne, h₁, h₂]

/-- One round of the scalar worker: nothing on an empty list, else one eviction of the oldest
page, whose partner becomes free. -/
def Evicted (k k' : Skeleton) : Prop :=
  (k.fifos.seq .evictionList = [] ∧ k' = k) ∨
  ∃ d xs r, k.fifos.seq .evictionList = d :: xs ∧ Partner (k.unlink d) d r ∧
    k' = ((k.unlink d).evict d r).link .dramFreeList r

private theorem evict_link_eq {k' : Skeleton} (hne : r ≠ d) (hl : k.list d = none)
    (hd : k'.page d = (k.page d).evicted (k.page r).virtualOffset)
    (hr : k'.page r = (k.page r).emptied (k.page d).virtualOffset)
    (hx : ∀ x, x ≠ d → x ≠ r → k'.page x = k.page x)
    (hf : k'.fifos = ((k.fifos.unlink r).enqueue .diskActiveList d).enqueue .dramFreeList r ∨
      k'.fifos = ((k.fifos.unlink r).enqueue .dramFreeList r).enqueue .diskActiveList d)
    (hp : k'.pages = k.pages) (hv : k'.vma = k.vma) (hlock : k'.lock = k.lock)
    (hs : k'.shrinking = k.shrinking) (hz : k'.sizes = k.sizes := by rfl) :
    k' = (k.evict d r).link .dramFreeList r := by
  have hcomm : ((k.fifos.unlink r).enqueue .dramFreeList r).enqueue .diskActiveList d =
      ((k.fifos.unlink r).enqueue .diskActiveList d).enqueue .dramFreeList r := by
    refine Queues.enqueue_comm (by simp) ?_ hne (by decide)
    rw [Queues.tag_unlink, if_neg hne.symm]
    exact hl
  have h : { k' with fifos := (k.fifos.unlink r).enqueue .diskActiveList d } = k.evict d r :=
    evict_eq hd hr hx rfl hp hv hlock hs hz
  rw [← h]
  refine Skeleton.ext rfl ?_ rfl rfl rfl rfl rfl
  rcases hf with hf | hf
  · exact hf
  · exact hf.trans hcomm

theorem after_lrudiskEvictionworker (hk : e.sh.skeleton = k)
    (hb : ∀ d xs, k.fifos.seq .evictionList = d :: xs → Bare (k.unlink d) d) :
    After lrudiskEvictionworker e fun _ e' => Evicted k e'.sh.skeleton := by
  unfold lrudiskEvictionworker
  refine after_dequeueThen hk (fun _ _ => rfl) (fun hs => (after_pure _ _ _).mpr (.inl ⟨hs, hk⟩))
    fun d xs hs e hk => ?_
  have hb := hb d xs hs
  suffices h : After _ e fun _ e' => ∃ r, Partner (k.unlink d) d r ∧
      e'.sh.skeleton = ((k.unlink d).evict d r).link .dramFreeList r by
    refine h.mono ?_
    rintro _ e' ⟨r, hp, hk'⟩
    exact .inr ⟨d, xs, r, hs, hp, hk'⟩
  clear hs
  generalize k.unlink d = k at hb hk ⊢
  refine after_setPage hk fun e hk =>
    after_still hk (by simp) fun writeback e hk => after_field hk ?_
  rw [Skeleton.page_write_self]
  refine (after_ite _ _ _ _).mpr ⟨fun hres => ?_, fun hres => ?_⟩
  · refine after_then (after_takeReserve hk) ?_
    rintro r e ⟨hdr, hrd, hl, hk⟩
    rw [Skeleton.page_write_self] at hdr
    have hne : r ≠ d := by
      rintro rfl
      rw [Skeleton.list_write, hb.list] at hl
      cases hl
    rw [Skeleton.page_write_of_ne _ _ hne] at hrd
    refine after_field hk (after_field hk ?_)
    refine after_then (after_migrateDown hk) fun _ e hk =>
      after_then (after_giveFrame hk fun _ => rfl) fun _ e hk => ?_
    refine after_then (after_dropReserve hk) fun _ e hk =>
      after_enqueueThen hk (fun _ => rfl) fun _ e hk => ?_
    refine after_enqueueThen hk (fun _ => rfl) fun _ e hk =>
      (after_releaseVictim hk).mono fun _ e hk => ?_
    refine ⟨r, ⟨hne, ?_, fun _ => ⟨hdr, hrd⟩, fun h => ?_⟩, ?_⟩
    · rw [if_pos hres]
      exact hl
    · rw [h] at hres
      cases hres
    · rw [hk]
      refine evict_link_eq hne hb.list ?_ ?_ (fun x h₁ h₂ => ?_) (.inr rfl) rfl rfl rfl rfl
      · simp [Skeleton.write, Skeleton.link, Skeleton.unlink, UserPage.evicted, UserPage.moved,
          Function.update_of_ne, hne, hne.symm]
      · simp [Skeleton.write, Skeleton.link, Skeleton.unlink, UserPage.emptied,
          Function.update_of_ne, hne, hne.symm]
      · simp [Skeleton.write, Skeleton.link, Skeleton.unlink, Function.update_of_ne, h₁, h₂]
  · refine after_then (after_takeDiskFree hk) ?_
    rintro r e ⟨⟨xs, hs⟩, hk⟩
    have hl : k.list r = some .diskFreeList := Whole.list_of_seq hs
    have hne : r ≠ d := by
      rintro rfl
      rw [hb.list] at hl
      cases hl
    refine after_field hk (after_field hk ?_)
    refine after_then (after_migrateDown hk) fun _ e hk =>
      after_enqueueThen hk (fun _ => rfl) fun _ e hk => ?_
    refine after_then (after_giveFrame hk fun _ => rfl) fun _ e hk =>
      after_enqueueThen hk (fun _ => rfl) fun _ e hk => ?_
    refine (after_releaseVictim hk).mono fun _ e hk => ?_
    have hres' : (k.page d).hasReserve = false := by simpa using hres
    refine ⟨r, ⟨hne, ?_, fun h => absurd h hres, fun _ => ⟨xs, hs⟩⟩, ?_⟩
    · rw [if_neg hres]
      exact hl
    · rw [hk]
      obtain ⟨hr₁, hr₂⟩ := hb.free r hl
      refine evict_link_eq hne hb.list ?_ ?_ (fun x h₁ h₂ => ?_) (.inl rfl) rfl rfl rfl rfl
      · ext <;> simp [Skeleton.write, Skeleton.link, Skeleton.unlink, UserPage.evicted,
          UserPage.moved, Function.update_of_ne, hne, hne.symm, hres', hb.victim hres']
      · ext <;> simp [Skeleton.write, Skeleton.link, Skeleton.unlink, UserPage.emptied,
          Function.update_of_ne, hne, hne.symm, hr₁, hr₂]
      · simp [Skeleton.write, Skeleton.link, Skeleton.unlink, Function.update_of_ne, h₁, h₂]

/-! The invariant over an eviction and over the fetching of a free frame. -/

namespace Whole
variable {l : FifoList}

theorem bare (h : Whole n frames hand k) {xs : List PageId}
    (hs : k.fifos.seq .evictionList = d :: xs) : Bare (k.unlink d) d := by
  have hl : k.list d = some .evictionList := list_of_seq hs
  refine ⟨by simp, fun hres => ?_, fun r hr => ?_⟩
  · have hf : (k.page d).Resident := h.fits hl
    rw [Skeleton.page_unlink] at hres ⊢
    rw [hf.2.2.2.2.2.2] at hres
    simpa using hres
  · have hr' : k.list r = some .diskFreeList := by
      rw [Skeleton.list_unlink] at hr
      split at hr
      · cases hr
      · exact hr
    have hf : (k.page r).Free false := h.fits hr'
    exact ⟨hf.2.2.2.1, hf.2.2.2.2⟩

/-- The victim and its partner exchange their frames; the partner goes to a list or in hand. -/
theorem evict (h : Whole n frames hand k) (hd : k.list d = some .evictionList)
    (hp : Partner (k.unlink d) d r) (back : Bool) :
    Whole n frames (if back then hand else Function.update hand r (some .spare))
      (if back then ((k.unlink d).evict d r).link .dramFreeList r else (k.unlink d).evict d r) := by
  have hne := hp.ne
  have hdp : (k.page d).Resident := h.fits hd
  have hdl : (k.unlink d).list d = none := by simp
  have hrl : k.list r = if (k.page d).hasReserve then some .diskReserveList
      else some .diskFreeList := by
    have := hp.list
    rwa [Skeleton.list_unlink, if_neg hne] at this
  have hrn : r < n := by
    cases hres : (k.page d).hasReserve with
    | true => exact h.lt_of_list (by rw [hrl, hres]; rfl)
    | false => exact h.lt_of_list (by rw [hrl, hres]; rfl)
  have hrd : (k.page r).va = 0 ∧ (k.page r).virtualOffset.dram = false ∧
      ∀ x, (k.page r).reserve = some x → x = d := by
    cases hres : (k.page d).hasReserve with
    | true =>
      have hl : k.list r = some .diskReserveList := by rw [hrl, hres]; rfl
      have hf : (k.page r).Copy := h.fits hl
      have hback : (k.page r).reserve = some d := (hp.reserve hres).2
      refine ⟨hf.1, hf.2.2.1, fun x hx => ?_⟩
      rw [hback, Option.some.injEq] at hx
      exact hx.symm
    | false =>
      have hl : k.list r = some .diskFreeList := by rw [hrl, hres]; rfl
      have hf : (k.page r).Free false := h.fits hl
      refine ⟨hf.1, hf.2.2.1, fun x hx => ?_⟩
      rw [hf.2.2.2.2] at hx
      cases hx
  have hdr (x : PageId) (hx : (k.page d).reserve = some x) : x = r := by
    have hres : (k.page d).hasReserve = true := by
      rw [hdp.2.2.2.2.2.2, hx]
      rfl
    rw [← Option.some.injEq, ← hx]
    exact (hp.reserve hres).1
  have hhd := h.hand_of_list hd
  have hhr : hand r = none := by
    cases hres : (k.page d).hasReserve with
    | true => exact h.hand_of_list (by rw [hrl, hres]; rfl)
    | false => exact h.hand_of_list (by rw [hrl, hres]; rfl)
  have hpd : ((k.unlink d).evict d r).page d = (k.page d).evicted (k.page r).virtualOffset := by
    simp [Skeleton.evict, hne.symm]
  have hpr : ((k.unlink d).evict d r).page r = (k.page r).emptied (k.page d).virtualOffset := by
    simp [Skeleton.evict]
  have hlist (x : PageId) : ((k.unlink d).evict d r).list x =
      if x = d then some .diskActiveList else if x = r then none else k.list x := by
    have htag : ((k.unlink d).fifos.unlink r).tag d = none := by
      rw [Queues.tag_unlink, if_neg hne.symm]
      exact hdl
    show (((k.unlink d).fifos.unlink r).enqueue .diskActiveList d).tag x = _
    rw [Queues.tag_enqueue htag, Queues.tag_unlink]
    by_cases hxd : x = d
    · rw [if_pos hxd, if_pos hxd]
    · rw [if_neg hxd, if_neg hxd]
      by_cases hxr : x = r
      · rw [if_pos hxr, if_pos hxr]
      · rw [if_neg hxr, if_neg hxr]
        show (k.unlink d).list x = _
        rw [Skeleton.list_unlink, if_neg hxd]
  have hpair (k' : Skeleton) (hand' : PageId → Option Hand)
      (hpage : k'.page = ((k.unlink d).evict d r).page) (hpages : k'.pages = k.pages)
      (hld : k'.list d = some .diskActiveList) (hlx : ∀ x, x ≠ d → x ≠ r → k'.list x = k.list x)
      (hhand : ∀ x, x ≠ r → hand' x = hand x) (hplace : k'.Place hand' r)
      (hz : k'.sizes = k.sizes := by rfl) : Whole n frames hand' k' := by
    refine h.pair_same (d := d) (r := r) ⟨fun x h₁ h₂ => ?_, hlx, fun x _ h₂ => hhand x h₂,
      ⟨h.lt_of_list hd, hrn⟩, ⟨?_, hplace⟩, ?_, ?_, .inr ⟨hne.symm, ?_, ?_⟩,
      ⟨fun x hx => .inr (hdr x hx), fun x hx => .inl (hrd.2.2 x hx)⟩, ?_⟩ hpages ?_ ?_ hz
    · rw [hpage]
      simp [Skeleton.evict, h₁, h₂]
    · unfold Skeleton.Place
      rw [hld, hhand d hne.symm, hhd, hpage, hpd]
      exact ⟨⟨hdp.1, hdp.2.1, rfl, hrd.2.1, rfl, rfl, rfl⟩, rfl⟩
    · rw [hpage, hpd, hpr]
      exact ⟨h.present d, rfl⟩
    · rw [hpage, hpd, hpr]
      exact ⟨h.pt d (h.lt_of_list hd), h.pt r hrn⟩
    · rw [hpage, hpd]
      rfl
    · rw [hpage, hpr]
      rfl
    · rw [hpage, hpd, hpr]
      exact ⟨fun x hx => (by cases hx), fun x hx => (by cases hx)⟩
    · rw [hpage, hpd]
      rfl
    · rw [hpage, hpr]
      rfl
  have hfree : (((k.unlink d).evict d r).page r).Free true := by
    rw [hpr]
    exact ⟨hrd.1, rfl, hdp.2.2.2.1, rfl, rfl⟩
  cases back with
  | true =>
    have hr₀ : ((k.unlink d).evict d r).list r = none := by rw [hlist, if_neg hne, if_pos rfl]
    refine hpair _ _ rfl rfl ?_ (fun x h₁ h₂ => ?_) (fun _ _ => rfl) ?_
    · simp only [if_true]
      rw [Skeleton.list_link hr₀, if_neg hne.symm, hlist, if_pos rfl]
    · simp only [if_true]
      rw [Skeleton.list_link hr₀, if_neg h₂, hlist, if_neg h₁, if_neg h₂]
    · unfold Skeleton.Place
      simp only [if_true]
      rw [Skeleton.list_link hr₀, if_pos rfl, hhr]
      exact hfree
  | false =>
    refine hpair _ _ rfl rfl ?_ (fun x h₁ h₂ => ?_) (fun x hx => ?_) ?_
    · simp only [Bool.false_eq_true, if_false]
      rw [hlist, if_pos rfl]
    · simp only [Bool.false_eq_true, if_false]
      rw [hlist, if_neg h₁, if_neg h₂]
    · simp [hx]
    · unfold Skeleton.Place
      simp only [Bool.false_eq_true, if_false]
      rw [hlist, if_neg hne, if_pos rfl, Function.update_self]
      exact hfree

end Whole

end ExtMem
