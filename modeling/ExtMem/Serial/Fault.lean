import ExtMem.Serial.Unmap

/-! Faults and user accesses, run alone. -/
namespace ExtMem
open Threads Threads.Prog

variable {n : Nat} {frames : List Frame} {hand : PageId → Option Hand} {k k' k₁ k₂ : Skeleton}
  {d r : PageId} {e : Env}
  {a : Nat}

/-- A spare descriptor becomes the page of an address. -/
def Skeleton.track (k : Skeleton) (r : PageId) (a : Nat) : Skeleton :=
  { k with
    page :=
      Function.update k.page r { k.page r with va := a, migrating := false, swappedOut := false }
    fifos := k.fifos.enqueue .inactiveList r
    pages := Function.update k.pages a (some r) }

namespace Whole

theorem track (h : Whole n frames hand k) (hr : hand r = some .spare) (ha : a ≠ 0)
    (hal : a % pageSize = 0) (hp : k.pages a = none) :
    Whole n frames (Function.update hand r none) (k.track r a) := by
  have hrp : (k.page r).Free true := h.inHand hr
  have hrl := h.list_of_hand hr
  have hpr : (k.track r a).page r =
      { k.page r with va := a, migrating := false, swappedOut := false } := by
    simp [Skeleton.track]
  have hpx (x : PageId) (hx : x ≠ r) : (k.track r a).page x = k.page x := by
    simp [Skeleton.track, hx]
  have hlist (x : PageId) : (k.track r a).list x = if x = r then some .inactiveList else k.list x :=
    Skeleton.list_link hrl .inactiveList x
  refine h.single hpx (fun x hx => by rw [hlist, if_neg hx]) (fun x hx =>
    Function.update_of_ne hx _ _) (h.lt_of_hand hr) ?_ ?_ ?_ ?_ ?_ ?_ (fun b x hb => ?_) ?_
  · unfold Skeleton.Place
    rw [hlist, if_pos rfl, Function.update_self, hpr]
    exact ⟨ha, hal, hrp.2.1, hrp.2.2.1, rfl, rfl, by rw [hrp.2.2.2.1, hrp.2.2.2.2]; rfl⟩
  · rw [hpr]
    exact h.present r
  · rw [hpr]
    exact h.pt r (h.lt_of_hand hr)
  · rw [hpr]
  · rw [hpr]
  · rw [hlist, if_pos rfl, hrl]
    exact iff_of_false (by simp) (by simp)
  · show Function.update k.pages a (some r) b = some x ↔ _
    by_cases hba : b = a
    · subst hba
      rw [Function.update_self, Option.some.injEq]
      constructor
      · rintro rfl
        exact ⟨h.lt_of_hand hr, by rw [hpr]⟩
      · rintro ⟨hx, hv⟩
        by_contra hne
        rw [hpx x (Ne.symm hne)] at hv
        rw [(h.hash b x hb).mpr ⟨hx, hv⟩] at hp
        cases hp
    · rw [Function.update_of_ne hba, h.hash b x hb]
      by_cases hx : x = r
      · subst hx
        rw [hpr, hrp.1]
        exact iff_of_false (fun hc => hb hc.2.symm) fun hc => hba hc.2.symm
      · rw [hpx x hx]
  · show Function.update k.pages a (some r) 0 = some n
    rw [Function.update_of_ne (Ne.symm ha)]
    exact h.zero

/-- A spare descriptor goes back. -/
theorem putBack (h : Whole n frames hand k) (hr : hand r = some .spare) :
    Whole n frames (Function.update hand r none) (k.link .dramFreeList r) := by
  have hrl := h.list_of_hand hr
  obtain ⟨hhash, hzero⟩ := h.hash_same (k.link .dramFreeList r) rfl fun _ => rfl
  refine h.single (fun _ _ => rfl) (fun x hx => by rw [Skeleton.list_link hrl, if_neg hx])
    (fun x hx => Function.update_of_ne hx _ _) (h.lt_of_hand hr) ?_ (h.present r)
    (h.pt r (h.lt_of_hand hr)) rfl rfl ?_ hhash hzero
  · unfold Skeleton.Place
    rw [Skeleton.list_link hrl, if_pos rfl, Function.update_self]
    exact h.inHand hr
  · rw [Skeleton.list_link hrl, if_pos rfl, hrl]
    exact iff_of_false (by simp) (by simp)

end Whole

/-! First faults. -/

/-- What a first fault comes to: its address is tracked, or was and the frame goes back. -/
def Touched (n : Nat) (frames : List Frame) (k : Skeleton) (a : Nat) (k' : Skeleton) : Prop :=
  ∃ r k₁, Whole n frames (Function.update (fun _ => none) r (some .spare)) k₁ ∧
    Reclaim (fun _ => none) k k₁ ∧
    (k.shrinking = false → k₁.shrinking = false) ∧
    (k.pages a = none ∧ a ≠ 0 ∧ a % pageSize = 0 ∧ k.vma a = .uffd ∧ k' = k₁.track r a ∨
      (∃ d, k.pages a = some d) ∧ k' = k₁.link .dramFreeList r)

theorem after_lockAllocator {β : Type} {q : Unit → Paging β}
    {Q : β → Env → Prop} (hk : e.sh.skeleton = k)
    (hq : k.lock = false → ∀ e, e.sh.skeleton = { k with lock := true } → After (q ()) e Q) :
    After (lockAllocator >>= q) e Q := by
  subst hk
  rw [after_bind]
  refine (after_atomic _ _ _).mpr fun u e' he => ?_
  split at he
  · cases he
  · next h =>
    cases he
    exact hq (Bool.eq_false_iff.mpr h) _ rfl

theorem after_unlockAllocator {β : Type} {q : Unit → Paging β}
    {Q : β → Env → Prop} (hk : e.sh.skeleton = k)
    (hq : ∀ e, e.sh.skeleton = { k with lock := false } → After (q ()) e Q) :
    After (unlockAllocator >>= q) e Q := by
  subst hk
  rw [after_bind]
  exact (after_modify _ _ _).mpr (hq _ rfl)

private theorem after_copyIn {b : Buffer} (hk : e.sh.skeleton = k) :
    After (copyIn d b) e fun _ e' => k.vma (k.page d).va = .uffd ∧ e'.sh.skeleton = k := by
  unfold copyIn
  refine after_field hk ?_
  refine after_then (R := fun r e' => (r = true → k.vma (k.page d).va = .uffd) ∧ e'.sh.skeleton = k)
    ?_ fun r e ⟨hr, hk⟩ => ?_
  · subst hk
    refine (after_atomic _ _ _).mpr fun r e' he => ?_
    split at he
    · cases he
      exact ⟨fun h => (by cases h), rfl⟩
    · split at he
      · next h =>
        cases he
        exact ⟨fun _ => h.1, rfl⟩
      · cases he
        exact ⟨fun h => (by cases h), rfl⟩
  · rw [← bind_pure (Prog.check r Abort.copyFailed)]
    exact after_check fun h => (after_pure _ _ _).mpr ⟨hr h, hk⟩

private theorem after_addPage {β : Type} {q : Unit → Paging β}
    {Q : β → Env → Prop} (hk : e.sh.skeleton = k)
    (hq : k.pages (k.page d).va = none → ∀ e, e.sh.skeleton =
      { k with pages := Function.update k.pages (k.page d).va (some d) } → After (q ()) e Q) :
    After (addPage d >>= q) e Q := by
  subst hk
  rw [after_bind]
  refine (after_atomic _ _ _).mpr fun u e' he => ?_
  dsimp only at he
  split at he
  · next h =>
    cases he
    exact hq (Option.isNone_iff_eq_none.mp h) _ rfl
  · cases he

private theorem after_trackPage (hk : e.sh.skeleton = k) : After (lrudiskTrackPage d) e fun _ e' =>
    e'.sh.skeleton = k.link .inactiveList d := by
  unfold lrudiskTrackPage
  refine after_still hk (by simp) fun _ e hk => ?_
  rw [← bind_pure (enqueueFifoThen FifoList.inactiveList d _)]
  exact after_enqueueThen hk (fun _ => rfl) fun _ e hk => (after_pure _ _ _).mpr hk

theorem after_wonFirstFault (hk : e.sh.skeleton = { k with lock := true }) :
    After (wonFirstFault r a) e fun _ e' => a ≠ 0 ∧ a % pageSize = 0 ∧ k.vma a = .uffd ∧
      e'.sh.skeleton = { k.track r a with lock := false } := by
  unfold wonFirstFault
  refine after_modifyPage (f := fun p => { p with migrating := true }) hk (fun _ => rfl) fun e hk =>
    ?_
  refine after_setPage hk fun e hk =>
    after_still hk (by simp) fun _ e hk => after_setPage hk fun e hk => ?_
  refine after_assertPage hk fun ha =>
    after_assertPage hk fun hal => after_addPage hk fun _ e hk => ?_
  refine after_unlockAllocator hk fun e hk => after_still hk (by simp) fun _ e hk => ?_
  refine after_still hk (within_modify fun _ => .of_eq rfl rfl) fun _ e hk =>
    after_still hk (by simp) fun _ e hk => ?_
  refine after_then (after_copyIn hk) fun _ e ⟨hv, hk⟩ => ?_
  refine after_modifyPage (f := fun p => { p with migrating := false }) hk (fun _ => rfl)
    fun e hk => ?_
  refine after_setPage hk fun e hk =>
    after_then (after_trackPage hk) fun _ e hk => after_still hk (by simp) fun size e hk => ?_
  refine after_still hk (by simp) fun _ e hk =>
    after_still hk (by simp) fun _ e hk => after_still hk (by simp) fun _ e hk => ?_
  refine (after_still_last hk (by simp)).mono fun _ e hk => ⟨?_, ?_, ?_, ?_⟩
  · simpa [Skeleton.write] using ha
  · simpa [Skeleton.write] using hal
  · simpa [Skeleton.write] using hv
  · rw [hk]
    refine Skeleton.ext (funext fun x => ?_) rfl ?_ rfl rfl rfl rfl
    · by_cases hx : x = r
      · subst hx
        simp [Skeleton.write, Skeleton.link, Skeleton.track]
      · simp [Skeleton.write, Skeleton.link, Skeleton.track, hx]
    · simp [Skeleton.write, Skeleton.link, Skeleton.track]

/-- The page that a first fault maps, as the copy leaves it. -/
def Pte.zeroed : Pte := ⟨fun _ => 0, false, false, false⟩

private theorem zeroed_wonFirstFault :
    After (wonFirstFault r a) e fun _ e' => e'.sh.pte a = some .zeroed := by
  have hlast {β : Type} {p : Paging β}
      (h : Always (fun _ f => ∀ e b e', f e = .ok b e' → e'.sh.pte = e.sh.pte) p) (e : Env)
      (he : e.sh.pte a = some .zeroed) : After p e fun _ e' =>
      e'.sh.pte a = some .zeroed := fun _ _ hr => h.runs (I := fun e =>
    e.sh.pte a = some .zeroed) (fun _ _ hf s b s' hs he => by rw [hf s b s' he]; exact hs) hr he
  have hmod {f : Env → Env} (h : ∀ e, (f e).sh.pte = e.sh.pte) : Always (fun _ f =>
      ∀ e b e', f e = .ok b e' → e'.sh.pte = e.sh.pte) (Prog.modify f : Paging Unit) := by
    refine always_atomic fun e b e' he => ?_
    cases he
    exact h e
  unfold wonFirstFault
  refine (after_bind _ _ _ _).mpr
    ((after_modify _ _ _).mpr ((after_bind _ _ _ _).mpr ((after_modify _ _ _).mpr ?_)))
  refine (after_bind _ _ _ _).mpr ((after_assert _ _ _ _).mpr fun _ => ?_)
  refine (after_bind _ _ _ _).mpr ((after_modify _ _ _).mpr ?_)
  refine after_then (R := fun _ e => (e.sh.page r).va = a) ((after_assert _ _ _ _).mpr fun _ =>
    by simp [Threads.Ctx.setPage, Shared.setPage]) fun _ e hva => ?_
  refine after_then (R := fun _ e => (e.sh.page r).va = a) ((after_assert _ _ _ _).mpr fun _ => hva)
    fun _ e hva => ?_
  refine after_then (R := fun _ e => (e.sh.page r).va = a) ?_ fun _ e hva => ?_
  · refine (after_atomic _ _ _).mpr fun _ e' he => ?_
    dsimp only at he
    split at he
    · cases he
      exact hva
    · cases he
  refine after_then (R := fun _ e => (e.sh.page r).va = a) ((after_modify _ _ _).mpr hva)
    fun _ e hva => ?_
  refine after_then (R := fun _ e => (e.sh.page r).va = a) ((after_modify _ _ _).mpr hva)
    fun _ e hva => ?_
  refine after_then (R := fun _ e => (e.sh.page r).va = a) ((after_modify _ _ _).mpr hva)
    fun _ e hva => ?_
  refine after_then (R := fun _ e => (e.sh.page r).va = a) ((after_assert _ _ _ _).mpr fun _ => hva)
    fun _ e hva => ?_
  refine after_then (R := fun _ e => e.sh.pte a = some .zeroed) ?_ fun _ e hz => hlast ?_ e hz
  · refine (after_bind _ _ _ _).mpr ((after_read _ _ _).mpr ?_)
    refine after_then (R := fun b e => b = true → e.sh.pte a = some .zeroed)
      ((after_atomic _ _ _).mpr fun b e' he => ?_) fun b e hb => ?_
    · split at he
      · cases he
        exact fun h => absurd h Bool.false_ne_true
      · next bytes hbytes =>
        split at he
        · cases he
          have hzero : bytes = fun _ => 0 := (Option.some.inj hbytes).symm
          subst hzero
          intro _
          show Function.update e.sh.pte (e.sh.page r).va
            (some ⟨fun _ => 0, false, false, false⟩) a = _
          rw [hva, Function.update_self]
          rfl
        · cases he
          exact fun h => absurd h Bool.false_ne_true
    · rw [← bind_pure (Prog.check b Abort.copyFailed)]
      exact after_check fun h => (after_pure _ _ _).mpr (hb h)
  · refine always_bind (hmod fun _ => rfl) fun _ =>
      always_bind (hmod fun _ => rfl) fun _ => always_bind ?_ fun _ => ?_
    · refine always_bind (always_atomic fun e b e' he => ?_) fun _ =>
        always_atomic fun e b e' he => ?_
      · split at he
        · cases he
          rfl
        · cases he
      · split at he
        · cases he
          rfl
        · cases he
    · refine always_bind (always_atomic fun e b e' he => ?_) fun _ => ?_
      · cases he
        rfl
      · exact always_bind (hmod fun _ => rfl) fun _ => always_bind (hmod fun _ => rfl) fun _ =>
          always_bind (hmod fun _ => rfl) fun _ => hmod fun _ => rfl

/-- A first fault of an untracked address maps zeros there. -/
theorem zeroed_handleFirstFault (hk : e.sh.skeleton = k)
    (h : Whole n frames (fun _ => none) k) (ha : k.pages a = none) :
    After (handleFirstFault a) e fun _ e' => e'.sh.pte a = some .zeroed := by
  unfold handleFirstFault
  refine after_still hk (by simp) fun _ e hk => after_check fun _ => ?_
  refine after_then (after_lrudiskPagefault hk h) fun r e ⟨k₁, hw, hr, hrec, hs, hk⟩ => ?_
  refine after_lockAllocator hk fun _ e hk => ?_
  refine after_then (R := fun o e' => o = k₁.pages a) ?_ fun o e ho => ?_
  · refine (after_read _ _ _).mpr ?_
    rw [show e.sh.pages = k₁.pages from congrArg Skeleton.pages hk]
  rw [hrec.pages, ha] at ho
  subst ho
  exact zeroed_wonFirstFault

theorem after_handleFirstFault (hk : e.sh.skeleton = k) (h : Whole n frames (fun _ => none) k) :
    After (handleFirstFault a) e fun _ e' =>
        Touched n frames k a e'.sh.skeleton ∧ k.lock = false := by
  unfold handleFirstFault
  refine after_still hk (by simp) fun _ e hk => after_check fun _ => ?_
  refine after_then (after_lrudiskPagefault hk h) fun r e ⟨k₁, hw, hr, hrec, hs, hk⟩ => ?_
  obtain ⟨hw', hrec'⟩ := fetched_marked hw hr hrec
  have hs' : k.shrinking = false →
      (k₁.write r fun p => { p with migrating := true }).shrinking = false := hs
  generalize (k₁.write r fun p => { p with migrating := true }) = k₂ at hk hw' hrec' hs'
  refine after_lockAllocator hk fun hlock e hk => ?_
  refine after_then (R := fun o e' => o = k₂.pages a ∧ e'.sh.skeleton = { k₂ with lock := true }) ?_
    fun o e ⟨ho, hk⟩ => ?_
  · refine (after_read _ _ _).mpr ⟨?_, hk⟩
    rw [show e.sh.pages = k₂.pages from congrArg Skeleton.pages hk]
  have hlock' : k.lock = false := by rw [← hrec'.lock, hlock]
  cases hp : k₂.pages a with
  | none =>
    rw [hp] at ho
    subst ho
    refine (after_wonFirstFault hk).mono fun _ e' ⟨ha, hal, hv, hk'⟩ =>
      ⟨⟨r, k₂, hw', hrec', hs', .inl ⟨?_, ha, hal, ?_, ?_⟩⟩, hlock'⟩
    · rw [← hrec'.pages, hp]
    · rw [← hrec'.vma, hv]
    · rw [hk', ← hlock]
      rfl
  | some d =>
    rw [hp] at ho
    subst ho
    show After (lostFirstFault r d) _ _
    unfold lostFirstFault
    refine after_unlockAllocator hk fun e hk => ?_
    refine after_then (R := fun _ e' => e'.sh.skeleton = k₂.link .dramFreeList r) ?_ fun _ e hk =>
      ?_
    · unfold lrudiskPutPageFree
      refine after_still hk (by simp) fun _ e hk => after_still hk (by simp) fun _ e hk => ?_
      rw [← bind_pure (enqueueFifo FifoList.dramFreeList r)]
      refine after_enqueue hk fun _ e hk => (after_pure _ _ _).mpr ?_
      rw [hk, ← hlock]
    · refine (after_still_last hk (by simp)).mono fun _ e' hk' =>
        ⟨⟨r, k₂, hw', hrec', hs', .inr ⟨⟨d, ?_⟩, hk'⟩⟩, hlock'⟩
      rw [← hrec'.pages, hp]

/-! What any operation but an unmapping does to the hash: it only grows. -/

/-- The state between operations. -/
structure Settled (n : Nat) (frames : List Frame) (k : Skeleton) : Prop where
  whole : Whole n frames (fun _ => none) k
  lock : k.lock = false
  shrinking : k.shrinking = false
  mapped : ∀ b d, b ≠ 0 → k.pages b = some d → k.vma b = .uffd

/-- The mappings stay and so does every tracked page; what is new in the hash is at one address. -/
structure Serves (a : Option Nat) (k k' : Skeleton) : Prop where
  vma : k'.vma = k.vma
  stays : ∀ b d, k.pages b = some d → k'.pages b = some d
  new : ∀ b, a ≠ some b → k'.pages b = k.pages b

theorem Serves.trans {o : Option Nat} (h₁ : Serves o k k₁) (h₂ : Serves o k₁ k₂) : Serves o k k₂ :=
  ⟨h₂.vma.trans h₁.vma, fun b d hb => h₂.stays b d (h₁.stays b d hb),
    fun b hb => (h₂.new b hb).trans (h₁.new b hb)⟩

theorem Serves.of_pages {o : Option Nat} (hv : k'.vma = k.vma) (hp : k'.pages = k.pages) :
    Serves o k k' :=
  ⟨hv, fun b d hb => by rw [hp]; exact hb, fun b _ => by rw [hp]⟩

/-- A state that is sound and that an operation leads to from another one. -/
def Leads (n : Nat) (frames : List Frame) (o : Option Nat) (k : Skeleton) (e : Env) : Prop :=
  Settled n frames e.sh.skeleton ∧ Serves o k e.sh.skeleton

theorem Leads.of_rested {o : Option Nat} (h : Settled n frames k)
    (hr : Rested n frames (fun _ => none) k e) : Leads n frames o k e := by
  obtain ⟨⟨hw, hrec⟩, hs⟩ := hr
  refine ⟨⟨hw, by rw [hrec.lock, h.lock], hs h.shrinking, fun b d hb hp => ?_⟩,
    .of_pages hrec.vma hrec.pages⟩
  rw [hrec.vma]
  exact h.mapped b d hb (by rw [← hrec.pages]; exact hp)

theorem Leads.of_touched (h : Settled n frames k) (ht : Touched n frames k a e.sh.skeleton) :
    Leads n frames (some a) k e := by
  obtain ⟨r, k₁, hw, hrec, hs, ⟨hp, ha, hal, hv, hk⟩ | ⟨-, hk⟩⟩ := ht
  · have hw' := hw.track (r := r) (a := a) (by simp) ha hal (by rw [hrec.pages, hp])
    rw [show Function.update (Function.update (fun _ => none) r (some Hand.spare)) r none =
      (fun _ => none) by simp] at hw'
    refine ⟨⟨by rw [hk]; exact hw', ?_, ?_, fun b d hb hbd => ?_⟩, ?_, fun b d hb => ?_,
      fun b hb => ?_⟩
    · rw [hk]
      exact hrec.lock.trans h.lock
    · rw [hk]
      exact hs h.shrinking
    · rw [hk] at hbd ⊢
      show k₁.vma b = .uffd
      rw [hrec.vma]
      by_cases hba : b = a
      · rw [hba, hv]
      · refine h.mapped b d hb ?_
        rw [← hrec.pages]
        have hbd' : Function.update k₁.pages a (some r) b = some d := hbd
        rwa [Function.update_of_ne hba] at hbd'
    · rw [hk]
      exact hrec.vma
    · rw [hk]
      have hba : b ≠ a := by
        rintro rfl
        rw [hb] at hp
        cases hp
      show Function.update k₁.pages a (some r) b = some d
      rw [Function.update_of_ne hba, hrec.pages]
      exact hb
    · rw [hk]
      have hba : b ≠ a := fun he => hb (by rw [he])
      show Function.update k₁.pages a (some r) b = _
      rw [Function.update_of_ne hba, hrec.pages]
  · have hw' := hw.putBack (r := r) (by simp)
    rw [show Function.update (Function.update (fun _ => none) r (some Hand.spare)) r none =
      (fun _ => none) by simp] at hw'
    refine ⟨⟨by rw [hk]; exact hw', ?_, ?_, fun b d hb hbd => ?_⟩, ?_⟩
    · rw [hk]
      exact hrec.lock.trans h.lock
    · rw [hk]
      exact hs h.shrinking
    · rw [hk] at hbd ⊢
      show k₁.vma b = .uffd
      rw [hrec.vma]
      exact h.mapped b d hb (by rw [← hrec.pages]; exact hbd)
    · rw [hk]
      exact .of_pages hrec.vma hrec.pages

theorem Leads.congr {o : Option Nat} {e' : Env} (h : Leads n frames o k e)
    (hk : e'.sh.skeleton = e.sh.skeleton) : Leads n frames o k e' := by
  unfold Leads
  rw [hk]
  exact h

theorem Leads.of_eq {o : Option Nat} (h : Settled n frames k) (hk : e.sh.skeleton = k) :
    Leads n frames o k e := by
  rw [Leads, hk]
  exact ⟨h, .of_pages rfl rfl⟩

/-! Major faults and the handler. -/

theorem after_handleMissingFault {o : Option Nat} (hk : e.sh.skeleton = k)
    (h : Settled n frames k) : After (handleMissingFault d) e fun _ => Leads n frames o k := by
  unfold handleMissingFault
  refine after_still hk (by simp) fun _ e hk => after_still hk (by simp) fun va e hk => ?_
  refine after_then (after_claimSwapin hk) fun c e hc => ?_
  unfold Claimed at hc
  have hwait (hk : e.sh.skeleton = k) :
      After (waitMigratingThen d (·.record (.resumed d))) e fun _ => Leads n frames o k := by
    subst hk
    refine (after_atomic _ _ _).mpr fun u e' he => ?_
    split at he
    · cases he
    · cases he
      exact .of_eq h rfl
  cases c with
  | mine =>
    rw [if_pos rfl] at hc
    obtain ⟨-, -, -, hk⟩ := hc
    show After (resolveMissingFault d va) _ _
    unfold resolveMissingFault
    refine after_still hk (by simp) fun l e hk => after_still hk (by simp) fun _ e hk => ?_
    refine after_then (after_lrudiskSwapinExternalAsync h.whole hk) fun _ e hb => ?_
    generalize hke : e.sh.skeleton = ke at hb
    refine after_still hke (by simp) fun _ e hke =>
      after_still hke (by simp) fun _ e hke => after_still hke (by simp) fun _ e hke => ?_
    refine after_then (after_finishSwapin hke) fun _ e hke => ?_
    have hr : Rested n frames (fun _ => none) k e := by
      unfold Rested
      rw [hke]
      exact hb.whole h.whole
    refine after_still rfl (by simp) fun _ e' hk' => ?_
    have hr' : Rested n frames (fun _ => none) k e' := by
      unfold Rested
      rw [hk']
      exact hr
    refine (after_ite _ _ _ _).mpr ⟨fun _ => ?_, fun _ => ?_⟩
    · refine after_then (after_coreTryPrefetch rfl hr'.1.1) fun _ e'' hp => ?_
      refine (after_still_last (e := e'') rfl (by simp)).mono fun _ e₃ hk₃ => .of_rested h ?_
      unfold Rested
      rw [hk₃]
      exact ⟨hr'.1.trans hp.1, fun hs => hp.2 (hr'.2 hs)⟩
    · refine (after_still_last (e := e') rfl (by simp)).mono fun _ e₃ hk₃ => .of_rested h ?_
      unfold Rested
      rw [hk₃]
      exact hr'
  | busy => exact hwait (by simpa using hc.2)
  | handled => exact hwait (by simpa using hc.2)
  | moved => exact hwait (by simpa using hc.2)

theorem after_uswapSigHandler {addr : Nat} (hk : e.sh.skeleton = k) (h : Settled n frames k) :
    After (uswapSigHandler addr) e fun _ => Leads n frames (some (pageBoundry addr)) k := by
  unfold uswapSigHandler
  refine after_still hk (by simp) fun _ e hk => after_still hk (by simp) fun page e hk => ?_
  have hend (e : Env) (hl : Leads n frames (some (pageBoundry addr)) k e) :
      After (setInternalCall false) e fun _ => Leads n frames (some (pageBoundry addr)) k := by
    exact (after_still_last (e := e) rfl (by simp)).mono fun _ e' hk' => hl.congr hk'
  cases page with
  | none =>
    exact after_then (after_handleFirstFault hk h.whole) fun _ e ht => hend e (.of_touched h ht.1)
  | some d =>
    refine after_still hk (by simp) fun swappedOut e hk => ?_
    have hlast (p : Paging Unit)
        (hp : After p e fun _ => Leads n frames (some (pageBoundry addr)) k) :
        After (do p; lookAway d; setInternalCall false) e fun _ =>
          Leads n frames (some (pageBoundry addr)) k := by
      refine after_then hp fun _ e' hl => after_still (e := e') rfl (by simp) fun _ e'' hk'' => ?_
      exact hend e'' (hl.congr hk'')
    refine (after_ite _ _ _ _).mpr ⟨fun _ => ?_, fun _ => ?_⟩
    · exact hlast _ (after_handleMissingFault hk h)
    · exact hlast _ ((after_still_last hk (by simp)).mono fun _ e' hk' => .of_eq h hk')

/-- An access keeps what the handler keeps; its attempts change nothing of it. -/
theorem after_access {α : Type} {addr : Nat} {attempt : Env → Outcome Abort Env (Option α)}
    (hs : Still (Option α) attempt) (hk : e.sh.skeleton = k) (h : Settled n frames k) :
    After (access addr attempt) e fun _ => Leads n frames (some (pageBoundry addr)) k := by
  unfold access
  refine after_loop (fun _ => Leads n frames (some (pageBoundry addr)) k)
    (fun _ e hl => ?_) (.of_eq h hk)
  refine after_still rfl (always_atomic hs) fun r e' hk' => ?_
  have hl := hl.congr hk'
  cases r with
  | some a => exact (after_pure _ _ _).mpr hl
  | none =>
    refine after_then (after_uswapSigHandler rfl hl.1) fun _ e'' hl' => (after_pure _ _ _).mpr ?_
    exact ⟨hl'.1, hl.2.trans hl'.2⟩

theorem still_loadByte (addr : Nat) : Still (Option UInt8) (loadByte addr) :=
  within_loadByte addr .refl fun _ _ _ => .of_eq rfl rfl

theorem still_storeByte (addr : Nat) (byte : UInt8) :
    Still (Option Unit) (storeByte addr byte) :=
  within_storeByte addr byte .refl fun _ _ _ => .of_record rfl rfl rfl

end ExtMem
