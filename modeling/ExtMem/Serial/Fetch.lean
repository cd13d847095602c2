import ExtMem.Serial.Evict

/-! Reclaim scans and the fetching of a free frame, run alone. -/
namespace ExtMem
open Threads Threads.Prog

variable {n : Nat} {frames : List Frame} {hand : PageId → Option Hand} {k k' k₁ k₂ : Skeleton}
  {d r : PageId}
  {e : Env} {l l' : FifoList}

/-- What reclaim leaves alone: the hash, the mappings, the lock, all addresses and whatever
is in hand. -/
structure Reclaim (hand : PageId → Option Hand) (k k' : Skeleton) : Prop where
  pages : k'.pages = k.pages
  vma : k'.vma = k.vma
  lock : k'.lock = k.lock
  va : ∀ x, (k'.page x).va = (k.page x).va
  held : ∀ x, hand x ≠ none → k'.page x = k.page x

namespace Reclaim

theorem refl (hand : PageId → Option Hand) (k : Skeleton) : Reclaim hand k k :=
  ⟨rfl, rfl, rfl, fun _ => rfl, fun _ _ => rfl⟩

theorem trans (h₁ : Reclaim hand k k₁) (h₂ : Reclaim hand k₁ k₂) : Reclaim hand k k₂ :=
  ⟨h₂.pages.trans h₁.pages, h₂.vma.trans h₁.vma, h₂.lock.trans h₁.lock,
    fun x => (h₂.va x).trans (h₁.va x), fun x hx => (h₂.held x hx).trans (h₁.held x hx)⟩

end Reclaim

namespace Whole

/-- The flag of the scans is no part of it, nor are the mappings and the lock. -/
theorem congr (h : Whole n frames hand k) (hp : k'.page = k.page) (hf : k'.fifos = k.fifos)
    (hh : k'.pages = k.pages) (hz : k'.sizes = k.sizes := by rfl) : Whole n frames hand k' := by
  obtain ⟨page, fifos, pages, vma, lock, shrinking, sizes⟩ := k
  obtain ⟨page', fifos', pages', vma', lock', shrinking', sizes'⟩ := k'
  cases hz
  cases hp
  cases hf
  cases hh
  exact ⟨h.place, h.outside, h.dummy, h.present, h.pt, h.room, h.frames, h.reserved, h.hash, h.zero⟩

/-- A resident page may go from one list of resident pages to another. -/
theorem rescan (h : Whole n frames hand k) (hd : k.list d = some l) (hl : l.resident = true)
    (hl' : l'.resident = true) {f : UserPage → UserPage}
    (hf : ∀ p, ∃ a, f p = { p with naccesses := a }) :
    Whole n frames hand (((k.unlink d).write d f).link l' d) ∧
    Reclaim hand k (((k.unlink d).write d f).link l' d) := by
  obtain ⟨a, ha⟩ := hf (k.page d)
  have hpd : (((k.unlink d).write d f).link l' d).page d = { k.page d with naccesses := a } := by
    simp [ha]
  have hpx (x : PageId) (hx : x ≠ d) : (((k.unlink d).write d f).link l' d).page x = k.page x := by
    simp [Skeleton.page_write_of_ne, hx]
  have hnone : ((k.unlink d).write d f).list d = none := by simp
  have hva (x : PageId) : ((((k.unlink d).write d f).link l' d).page x).va = (k.page x).va := by
    by_cases hx : x = d
    · rw [hx, hpd]
    · rw [hpx x hx]
  have hhand := h.hand_of_list hd
  have hlist (x : PageId) :
      (((k.unlink d).write d f).link l' d).list x = if x = d then some l' else k.list x := by
    rw [Skeleton.list_link hnone]
    by_cases hx : x = d
    · rw [if_pos hx, if_pos hx]
    · rw [if_neg hx, if_neg hx, Skeleton.list_write, Skeleton.list_unlink, if_neg hx]
  have hres : (k.page d).Resident := (fits_resident hl _).mp (h.fits hd)
  obtain ⟨hhash, hzero⟩ := h.hash_same (((k.unlink d).write d f).link l' d) rfl hva
  refine ⟨h.single hpx (fun x hx => by rw [hlist, if_neg hx]) (fun _ _ => rfl) (h.lt_of_list hd) ?_
    ?_ ?_ ?_ ?_ ?_ hhash hzero, ⟨rfl, rfl, rfl, hva, fun x hx => hpx x ?_⟩⟩
  · unfold Skeleton.Place
    rw [hlist, if_pos rfl, hhand]
    refine (fits_resident hl' _).mpr ?_
    rw [hpd]
    exact hres
  · rw [hpd]
    exact h.present d
  · rw [hpd]
    exact h.pt d (h.lt_of_list hd)
  · rw [hpd]
  · rw [hpd]
  · rw [hlist, if_pos rfl, hd]
    refine iff_of_false ?_ ?_
    · rintro h'
      cases h'
      cases hl'
    · rintro h'
      cases h'
      cases hl
  · rintro rfl
    exact hx hhand

/-- A free descriptor is taken off its list. -/
theorem takeSpare (h : Whole n frames hand k) (hd : k.list d = some .dramFreeList) :
    Whole n frames (Function.update hand d (some .spare)) (k.unlink d) := by
  obtain ⟨hhash, hzero⟩ := h.hash_same (k.unlink d) rfl fun _ => rfl
  refine h.single (fun _ _ => rfl) (fun x hx => by rw [Skeleton.list_unlink, if_neg hx])
    (fun x hx => Function.update_of_ne hx _ _) (h.lt_of_list hd) ?_ (h.present d)
    (h.pt d (h.lt_of_list hd)) rfl rfl ?_ hhash hzero
  · unfold Skeleton.Place
    rw [Skeleton.list_unlink, if_pos rfl, Function.update_self]
    exact h.fits hd
  · rw [Skeleton.list_unlink, if_pos rfl, hd]
    exact iff_of_false (by simp) (by simp)

end Whole

/-- What a scan and an eviction come to. -/
def Reclaimed (n : Nat) (frames : List Frame) (hand : PageId → Option Hand)
    (k k' : Skeleton) : Prop :=
  Whole n frames hand k' ∧ Reclaim hand k k'

theorem Reclaimed.refl (h : Whole n frames hand k) : Reclaimed n frames hand k k :=
  ⟨h, .refl hand k⟩

theorem Reclaimed.trans (h₁ : Reclaimed n frames hand k k₁) (h₂ : Reclaimed n frames hand k₁ k₂) :
    Reclaimed n frames hand k k₂ := ⟨h₂.1, h₁.2.trans h₂.2⟩

/-- The flag of the scans is raised and lowered around them. -/
theorem Reclaimed.shrinking (h : Reclaimed n frames hand k k₁) (b : Bool) :
    Reclaimed n frames hand k { k₁ with shrinking := b } :=
  ⟨h.1.congr rfl rfl rfl, h.2.pages, h.2.vma, h.2.lock, h.2.va, h.2.held⟩

variable {α β : Type} {Q : β → Env → Prop}

theorem after_setShrinking {b : Bool} {q : Unit → Paging β} (hk : e.sh.skeleton = k)
    (hq : ∀ e, e.sh.skeleton = { k with shrinking := b } → After (q ()) e Q) :
    After (setShared (fun s => { s with shrinkageRunning := b }) >>= q) e Q := by
  subst hk
  rw [after_bind]
  exact (after_modify _ _ _).mpr (hq _ rfl)

/-- One pass of a scan moves one page from one list to another. -/
private theorem after_rescan {f : UserPage → UserPage} (h : Whole n frames hand k)
    {xs : List PageId} (hs : k.fifos.seq l = d :: xs) (hl : l.resident = true)
    (hl' : l'.resident = true) (hf : ∀ p, ∃ a, f p = { p with naccesses := a }) :
    Reclaimed n frames hand k (((k.unlink d).write d f).link l' d) :=
  h.rescan (Whole.list_of_seq hs) hl hl' hf

theorem after_shrinkActiveList {nrPages : Nat}
    (hk : e.sh.skeleton = k) (h : Whole n frames hand k) :
    After (shrinkActiveList nrPages) e fun _ e' => Reclaimed n frames hand k e'.sh.skeleton ∧
      (k.shrinking = false → e'.sh.skeleton.shrinking = false) := by
  unfold shrinkActiveList
  refine (after_ite _ _ _ _).mpr ⟨fun _ => ?_, fun _ => ?_⟩
  · refine (after_pure _ _ _).mpr ?_
    rw [hk]
    exact ⟨.refl h, id⟩
  refine after_setShrinking hk fun e hk => after_still hk (by simp) fun len e hk => ?_
  refine after_then (R := fun _ e => Reclaimed n frames hand k e.sh.skeleton) ?_ fun ret e he => ?_
  · refine after_loop (fun _ e => Reclaimed n frames hand k e.sh.skeleton) ?_ ?_
    · rintro ⟨ret, tries⟩ e he
      refine after_still rfl (by simp) fun len e hk => ?_
      rw [← hk] at he
      refine (after_ite _ _ _ _).mpr ⟨fun _ => ?_, fun _ => (after_pure _ _ _).mpr he⟩
      refine after_dequeue rfl (fun _ => (after_pure _ _ _).mpr he) fun d xs hs e hk => ?_
      refine after_setPage hk fun e hk => after_enqueue hk fun _ e hk => (after_pure _ _ _).mpr ?_
      show Reclaimed n frames hand k e.sh.skeleton
      rw [hk]
      exact he.trans (after_rescan he.1 hs rfl rfl fun _ => ⟨0, rfl⟩)
    · show Reclaimed n frames hand k e.sh.skeleton
      rw [hk]
      exact (Reclaimed.refl h).shrinking true
  · refine after_setShrinking rfl fun e hk => (after_pure _ _ _).mpr ?_
    rw [hk]
    exact ⟨he.shrinking false, fun _ => rfl⟩

/-- A page that the inactive scan has taken goes to one of the lists of resident pages. -/
private theorem after_scanInactivePage {xs : List PageId} (h : Whole n frames hand k)
    (hs : k.fifos.seq .inactiveList = d :: xs) (hk : e.sh.skeleton = k.unlink d) :
    After (scanInactivePage d) e fun _ e' => Reclaimed n frames hand k e'.sh.skeleton := by
  unfold scanInactivePage
  refine after_still hk (by simp) fun bits e hk =>
    (after_ite _ _ _ _).mpr ⟨fun _ => ?_, fun _ => ?_⟩
  · refine after_setPage hk fun e hk =>
      after_still hk (by simp) fun _ e hk => after_still hk (by simp) fun na e hk => ?_
    refine (after_ite _ _ _ _).mpr ⟨fun _ => ?_, fun _ => ?_⟩
    · refine after_setPage hk fun e hk => after_enqueue hk fun _ e hk => (after_pure _ _ _).mpr ?_
      rw [hk, Skeleton.write_write]
      exact after_rescan h hs rfl rfl fun _ => ⟨0, rfl⟩
    · refine after_enqueue hk fun _ e hk => (after_pure _ _ _).mpr ?_
      rw [hk]
      exact after_rescan h hs rfl rfl fun p => ⟨add64 p.naccesses 1, rfl⟩
  · refine after_setPage hk fun e hk => after_enqueue hk fun _ e hk => (after_pure _ _ _).mpr ?_
    rw [hk]
    exact after_rescan h hs rfl rfl fun _ => ⟨0, rfl⟩

theorem after_shrinkInactiveList {nrPages : Nat}
    (hk : e.sh.skeleton = k) (h : Whole n frames hand k) :
    After (shrinkInactiveList nrPages) e fun _ e' =>
        Reclaimed n frames hand k e'.sh.skeleton ∧ e'.sh.skeleton.shrinking = false := by
  unfold shrinkInactiveList
  refine after_still hk (by simp) fun len e hk => after_setShrinking hk fun e hk => ?_
  refine after_then (R := fun _ e => Reclaimed n frames hand k e.sh.skeleton) ?_ fun ret e he => ?_
  · refine after_loop (fun _ e => Reclaimed n frames hand k e.sh.skeleton) ?_ ?_
    · rintro ⟨ret, tries⟩ e he
      refine after_still rfl (by simp) fun len e hk => ?_
      rw [← hk] at he
      refine (after_ite _ _ _ _).mpr ⟨fun _ => ?_, fun _ => (after_pure _ _ _).mpr he⟩
      refine after_dequeue rfl (fun _ => (after_pure _ _ _).mpr he) fun d xs hs e hk => ?_
      refine after_then (after_scanInactivePage he.1 hs hk) fun evicted e he' =>
        (after_pure _ _ _).mpr ?_
      exact he.trans he'
    · show Reclaimed n frames hand k e.sh.skeleton
      rw [hk]
      exact (Reclaimed.refl h).shrinking true
  · refine after_setShrinking rfl fun e hk => (after_pure _ _ _).mpr ?_
    rw [hk]
    exact ⟨he.shrinking false, rfl⟩

/-- What reclaim leaves behind, with no scan running if none was. -/
def Rested (n : Nat) (frames : List Frame) (hand : PageId → Option Hand) (k : Skeleton)
    (e : Env) : Prop :=
  Reclaimed n frames hand k e.sh.skeleton ∧ (k.shrinking = false → e.sh.skeleton.shrinking = false)

theorem rested_shrinkActiveList {nrPages : Nat} (h : Whole n frames hand e.sh.skeleton) :
    After (shrinkActiveList nrPages) e fun _ =>
      Rested n frames hand e.sh.skeleton := after_shrinkActiveList rfl h

theorem rested_shrinkInactiveList {nrPages : Nat} (h : Whole n frames hand e.sh.skeleton) :
    After (shrinkInactiveList nrPages) e fun _ => Rested n frames hand e.sh.skeleton :=
  (after_shrinkInactiveList rfl h).mono fun _ _ hr => ⟨hr.1, fun _ => hr.2⟩

theorem after_directAllocatePageAsynch {nrPages : Int}
    {priority : Nat} (h : Rested n frames hand k e) :
    After (directAllocatePageAsynch nrPages priority) e fun _ => Rested n frames hand k := by
  unfold directAllocatePageAsynch
  refine after_still rfl (by simp) fun active e' hk =>
    after_still hk (by simp) fun inactive e' hk => ?_
  refine after_loop (fun _ => Rested n frames hand k) ?_ ?_
  · rintro ⟨reclaimed, sa, si⟩ e he
    refine (after_ite _ _ _ _).mpr ⟨fun _ => ?_, fun _ => (after_pure _ _ _).mpr he⟩
    refine after_then (after_shrinkInactiveList rfl he.1.1) fun ret e₁ h₁ => ?_
    have he₁ : Rested n frames hand k e₁ := ⟨he.1.trans h₁.1, fun _ => h₁.2⟩
    refine after_addInt fun _ => after_addInt fun _ => ?_
    refine (after_ite _ _ _ _).mpr ⟨fun _ => ?_, fun _ => (after_pure _ _ _).mpr he₁⟩
    refine after_then (after_shrinkActiveList rfl he₁.1.1) fun _ e₂ h₂ =>
      after_addInt fun _ => (after_pure _ _ _).mpr ?_
    exact ⟨he₁.1.trans h₂.1, fun hs => h₂.2 (he₁.2 hs)⟩
  · unfold Rested
    rw [hk]
    exact h

/-- A spare descriptor in hand, the rest as reclaim may leave it. -/
def Fetched (n : Nat) (frames : List Frame) (hand : PageId → Option Hand) (k : Skeleton)
    (r : PageId) (e : Env) : Prop :=
  Whole n frames (Function.update hand r (some .spare)) e.sh.skeleton ∧ hand r = none ∧
    Reclaim hand k e.sh.skeleton ∧ (k.shrinking = false → e.sh.skeleton.shrinking = false)

theorem after_fetchFreeScan {priority : Nat} (h : Rested n frames hand k e) :
    After (fetchFreeScan priority) e fun _ => Rested n frames hand k := by
  unfold fetchFreeScan fetchFreeScanBy
  refine after_still rfl (by simp) fun running e' hk => ?_
  have h' : Rested n frames hand k e' := by
    unfold Rested
    rwa [hk]
  refine (after_ite _ _ _ _).mpr ⟨fun _ => (after_pure _ _ _).mpr h', fun _ => ?_⟩
  refine after_still hk (by simp) fun active e' hk =>
    after_still hk (by simp) fun inactive e' hk => ?_
  refine after_still hk (by simp) fun dramsize e' hk => ?_
  have h' : Rested n frames hand k e' := by
    unfold Rested
    rwa [hk]
  refine (after_ite _ _ _ _).mpr ⟨fun _ => ?_, fun _ => (after_pure _ _ _).mpr h'⟩
  exact after_then (after_directAllocatePageAsynch h') fun _ e h => (after_pure _ _ _).mpr h

/-- An eviction leaves alone what reclaim must. -/
theorem reclaim_evict (h : Whole n frames hand k) (hd : k.list d = some .evictionList)
    (hp : Partner (k.unlink d) d r) : Reclaim hand k ((k.unlink d).evict d r) ∧ hand r = none := by
  have hhd := h.hand_of_list hd
  have hrl : ∃ l, k.list r = some l := by
    have := hp.list
    rw [Skeleton.list_unlink, if_neg hp.ne] at this
    split at this
    · exact ⟨_, this⟩
    · exact ⟨_, this⟩
  obtain ⟨l, hrl⟩ := hrl
  have hhr := h.hand_of_list hrl
  refine ⟨⟨rfl, rfl, rfl, fun x => ?_, fun x hx => ?_⟩, hhr⟩
  · simp only [Skeleton.evict, Skeleton.page_unlink, Function.update_apply]
    by_cases h₁ : x = r
    · rw [if_pos h₁, h₁]
      rfl
    · rw [if_neg h₁]
      by_cases h₂ : x = d
      · rw [if_pos h₂, h₂]
        rfl
      · rw [if_neg h₂]
  · have h₁ : x ≠ r := by
      rintro rfl
      exact hx hhr
    have h₂ : x ≠ d := by
      rintro rfl
      exact hx hhd
    simp [Skeleton.evict, h₁, h₂]

theorem after_fetchFreeAsynch (hk : e.sh.skeleton = k) (h : Whole n frames hand k) :
    After fetchFreeAsynch e fun r => Fetched n frames hand k r := by
  unfold fetchFreeAsynch
  refine after_loop (fun _ => Rested n frames hand k) (fun priority e he => ?_) ?_
  · refine (after_ite _ _ _ _).mpr ⟨fun _ => ?_, fun _ => (after_fail _ _ _).mpr trivial⟩
    refine after_dequeue rfl (fun _ => ?_) fun d xs hs e' hk' => (after_pure _ _ _).mpr ?_
    · refine after_then (after_fetchFreeScan he) fun priority e he => ?_
      refine after_dequeueThen rfl (fun _ _ => rfl) (fun _ => (after_pure _ _ _).mpr he)
        fun d xs hs e' hk' => ?_
      refine after_then (after_fetchFreeEvict hk' (he.1.1.bare hs)) fun r e₁ ⟨hp, hk₁⟩ =>
        (after_pure _ _ _).mpr ?_
      have hl := Whole.list_of_seq hs
      obtain ⟨hrec, hhr⟩ := reclaim_evict he.1.1 hl hp
      have hw := he.1.1.evict hl hp false
      simp only [Bool.false_eq_true, if_false] at hw
      show Fetched n frames hand k r e₁
      unfold Fetched
      rw [hk₁]
      exact ⟨hw, hhr, he.1.2.trans hrec, he.2⟩
    · have hl := Whole.list_of_seq hs
      show Fetched n frames hand k d e'
      unfold Fetched
      rw [hk']
      exact ⟨he.1.1.takeSpare hl, he.1.1.hand_of_list hl,
        ⟨he.1.2.pages, he.1.2.vma, he.1.2.lock, he.1.2.va, he.1.2.held⟩, he.2⟩
  · unfold Rested
    rw [hk]
    exact ⟨.refl h, id⟩

theorem after_lrudiskSynchkswapd (hk : e.sh.skeleton = k) (h : Whole n frames hand k) :
    After lrudiskSynchkswapd e fun _ => Rested n frames hand k := by
  unfold lrudiskSynchkswapd
  refine after_still hk (within_modify fun _ => .of_eq rfl rfl) fun _ e hk =>
    after_still hk (by simp) fun active e hk => ?_
  refine after_still hk (by simp) fun inactive e hk =>
    after_still hk (by simp) fun dramsize e hk => ?_
  have hlast (e : Env) (he : Rested n frames hand k e) :
      After (setShared fun s => { s with kswapdRunning := false }) e fun _ =>
      Rested n frames hand k := (after_modify _ _ _).mpr he
  have he : Rested n frames hand k e := by
    unfold Rested
    rw [hk]
    exact ⟨.refl h, id⟩
  refine (after_ite _ _ _ _).mpr ⟨fun _ => hlast e he, fun _ => ?_⟩
  exact after_then (after_directAllocatePageAsynch he) fun _ e he => hlast e he

end ExtMem
