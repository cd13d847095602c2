import ExtMem.Ownership.Prefetch

/-! The fault handler, the accesses that it serves, and the mappings that the program makes. -/
namespace ExtMem
open Threads Threads.Prog Threads.Outline

variable {n : Nat} {frames : List Frame} {t : Tid} {l l' : Local} {g g₀ : Share} {d f : PageId}
  {x z : Hold} {b : Ring} {α β : Type}

@[simp] theorem Share.mark_mark (g : Share) (d : PageId) (o o' : Option Busy) :
    (g.mark d o).mark d o' = g.mark d o' :=
  Share.ext rfl (Function.update_idem ..) rfl rfl

theorem Share.mark_self {o : Option Busy} (h : g.busy d = o) : g.mark d o = g := by
  subst h
  exact Share.ext rfl (Function.update_eq_self ..) rfl rfl

@[simp] theorem Share.put_lock (g : Share) (d : PageId) (o : Option Hold)
    (P : Option (Nat → Option PageId)) : (g.lock P).put d o = (g.put d o).lock P := rfl

@[simp] theorem Share.lock_lock (g : Share) (P P' : Option (Nat → Option PageId)) :
    (g.lock P).lock P' = g.lock P' := rfl

theorem Share.lock_self {P : Option (Nat → Option PageId)} (h : g.hash = P) : g.lock P = g := by
  subst h
  rfl

/-- What a thread has between the parts of an operation: its rings are at rest, and its share is as
it was. -/
def Restored (g : Share) (l : Local) (g' : Share) : Prop := l.Rest ∧ g' = g

/-! Faults on pages that are out. -/

/-- The thread that has claimed a page brings it in. -/
theorem safe_resolveMissingFault (hb : g.busy d = none)
    (hlate : ∀ e, g.late e = false) (hr : l.Rest) (a : Nat) :
    (owning n frames).Safe t (resolveMissingFault d a)
      (fun _ => Restored g) l (g.mark d (some (.claim none))) := by
  refine safe_skip (by simp) fun r l₁ h₁ =>
    safe_skip (calm_setLocal (fun _ => rfl) (fun _ => rfl) fun _ => rfl) fun _ l₂ h₂ => ?_
  have hbusy : (g.mark d (some (.claim none))).busy d = some (.claim none) :=
    Share.busy_mark_self ..
  have hlate₁ : ∀ e, (g.mark d (some (.claim none))).late e = false := hlate
  refine safe_bind ((safe_lrudiskSwapinExternalAsync hbusy hlate₁ ((hr.kept h₁).kept h₂)).mono
    fun _ l₃ g₃ h₃ => ?_)
  obtain ⟨hr₃, o, rfl⟩ := h₃
  rw [Share.mark_mark]
  refine safe_skip (calm_assertPage _ _ nofun) fun _ l₄ h₄ =>
    safe_skip (calm_assertPage _ _ nofun) fun _ l₅ h₅ => ?_
  refine safe_skip (calm_assertPage _ _ nofun) fun _ l₆ h₆ =>
    safe_bind (safe_finishSwapin (Share.busy_mark_self ..) fun l₇ h₇ => ?_)
  rw [Share.mark_mark, Share.mark_self hb]
  refine safe_skip (by simp) fun _ l₈ h₈ => ?_
  have hr₈ := hr₃.kept ((((h₄.trans h₅).trans h₆).trans h₇).trans h₈)
  have hlast (l₉ : Local) (h₉ : l₉.Rest) : (owning n frames).Safe t (setInternalCall false)
      (fun _ => Restored g) l₉ g := safe_calm (by simp) fun _ l₁₀ h₁₀ => ⟨h₉.kept h₁₀, rfl⟩
  refine safe_ite (fun _ => safe_bind ?_) fun _ => hlast l₈ hr₈
  refine (safe_coreTryPrefetch a hr₈ hlate).mono fun _ l₉ g₉ h₉ => ?_
  obtain ⟨hr₉, rfl⟩ := h₉
  exact hlast l₉ hr₉

theorem safe_handleMissingFault {a : Nat} (hm : (d, a) ∈ l.examining)
    (hlate : ∀ e, g.late e = false) (hr : l.Rest) :
    (owning n frames).Safe t (handleMissingFault d) (fun _ => Restored g) l g := by
  refine safe_skip (by simp) fun _ l₁ h₁ => safe_skip (calm_field _ _) fun va l₂ h₂ => ?_
  have hk := h₁.trans h₂
  have hm₂ : (d, a) ∈ l₂.examining := by
    rw [hk.examining]
    exact hm
  refine safe_bind (safe_claimSwapin hm₂ none (fun c l₃ hc h₃ => ?_) fun l₃ hb h₃ => ?_)
  · have hwait : (owning n frames).Safe t (waitMigratingThen d (·.record (.resumed d)))
        (fun _ => Restored g) l₃ g := by
      refine safe_calm (calm_waitMigratingThen d fun e => CalmStep.record e _) fun _ l₄ h₄ =>
        ⟨?_, rfl⟩
      exact ((hr.kept hk).kept h₃).kept h₄
    cases c with
    | mine => exact absurd rfl hc
    | busy => exact hwait
    | handled => exact hwait
    | moved => exact hwait
  · exact safe_resolveMissingFault hb hlate ((hr.kept hk).kept h₃) va

/-! First faults. -/

/-- The descriptor of a fault that came too late goes back on the free list. -/
theorem safe_lostFirstFault {P : Nat → Option PageId} (hg : g.hash = none)
    (hf : g.held f = none) (hz : z.Spare) (hr : l.Rest) :
    (owning n frames).Safe t (lostFirstFault f d)
      (fun _ => Restored g) l ((g.put f (some z)).lock (some P)) := by
  refine safe_bind (safe_unlockAllocator (P := P) rfl fun l₁ h₁ => ?_)
  rw [Share.lock_lock, Share.lock_self (show (g.put f (some z)).hash = none from hg)]
  have hf₁ : (g.put f (some z)).held f = some z := Share.held_put_self ..
  refine safe_bind (safe_assertUnlisted hf₁ (safe_assertKnown hf₁
    (fun p hp => by rw [hp.va]; exact beq_iff_eq.mpr hz.va) ?_))
  have hgives : Gives (g.put f (some z)) .dramFreeList f z :=
    ⟨hf₁, ⟨hz.va, hz.dram⟩, hz.hashed, fun _ => hz.inDram, nofun⟩
  refine safe_enqueue (fun e => ⟨Beside.refl _, rfl⟩) hgives hz.stake fun l₂ h₂ => ?_
  rw [Share.put_put, Share.put_self _ hf]
  exact safe_calm (by simp) fun _ l₃ h₃ => ⟨((hr.kept h₁).kept h₂).kept h₃, rfl⟩

/-- A descriptor that is to be a page: its flags are the thread's alone. -/
structure Hold.Fresh (x : Hold) : Prop where
  dram : x.offset.dram = true
  stake : x.stake = none
  inDram : x.inDram = true
  clear : x.clear = true

/-- The thread that is alone at work on a page writes its flags. -/
private theorem safe_setFlags (aux : Env → Env)
    (haux : ∀ e, Beside e (aux e) ∧ (aux e).loc.exchange = e.loc.exchange) {F : UserPage → UserPage}
    (hF : ∀ p, (F p).va = p.va ∧ (F p).virtualOffset = p.virtualOffset ∧ (F p).inDram = p.inDram ∧
      (p.swappedOut = false → (F p).swappedOut = false)) (hx : g.held d = some x)
    (hc : x.clear = true) {Q : Unit → Local → Share → Prop} (hq : ∀ l', Kept l l' → Q () l' g) :
    (owning n frames).Safe t (Prog.modify fun e => aux (e.setPage d F)) Q l g := by
  apply safe_revise aux haux hx x rfl (fun _ => rfl) (fun p hp => ?_)
  · rw [Share.put_self g hx]
    exact hq
  · obtain ⟨h₁, h₂, h₃, h₄⟩ := hF p
    refine ⟨h₁.trans hp.va, h₂.trans hp.offset, fun hi => h₃.trans (hp.inDram hi), .inr (.inl hc),
      fun _ => ?_, .inl ⟨rfl, rfl⟩⟩
    exact ⟨.inr hc, h₄ (hp.clear hc)⟩

/-- A new page is tracked. -/
theorem safe_lrudiskTrackPage (hx : g.held d = some x) (hf : x.Fresh) (hva : x.va ≠ 0)
    (hh : x.hashed = true) {Q : Unit → Local → Share → Prop}
    (hq : ∀ l', Kept l l' → Q () l' (g.put d none)) :
    (owning n frames).Safe t (lrudiskTrackPage d) Q l g := by
  have hgives : Gives g .inactiveList d x := ⟨hx, ⟨hva, hf.dram⟩, hh, nofun, nofun⟩
  exact safe_assertUnlisted hx (safe_enqueue (fun e => ⟨Beside.record e _, rfl⟩) hgives hf.stake hq)

/-- The thread that has the lock makes a fetched descriptor the page of an address that the hash
does not know. -/
theorem safe_wonFirstFault {P : Nat → Option PageId} {a : Nat} (ha : a ≠ 0) (hal : a % pageSize = 0)
    (hnew : P a = none) (hg : g.hash = none) (hf : g.held f = none) (hz : z.Spare) (hr : l.Rest) :
    (owning n frames).Safe t (wonFirstFault f a)
      (fun _ => Restored g) l ((g.put f (some z)).lock (some P)) := by
  have hwrite : CalmWrite fun p : UserPage => { p with migrating := true } :=
    ⟨fun _ => rfl, fun _ => rfl, fun _ => rfl, fun _ => id, fun _ _ => rfl⟩
  have hmig (e : Env) :
      CalmStep e ((e.setPage f fun p => { p with migrating := true }).startWork f) :=
    (CalmStep.setPage e f hwrite).trans (CalmStep.startWork _ f)
  refine safe_skip (calm_modify hmig) fun _ l₁ h₁ => ?_
  let z₁ : Hold := { z with clear := true }
  let z₂ : Hold := { z with va := a, clear := true, hashed := false }
  let z₃ : Hold := { z with va := a, clear := true }
  have hhash : { z₂ with hashed := true } = z₃ :=
    congrArg (Hold.mk a z.offset z.stake z.inDram true) hz.hashed.symm
  have hfresh : z₃.Fresh := ⟨hz.dram, hz.stake, hz.inDram, rfl⟩
  have hrev₁ (p : UserPage) (hp : z.Knows p) : Revised z z₁ p { p with swappedOut := false } :=
    ⟨hp.va, hp.offset, hp.inDram, .inl hz.va, fun _ => ⟨.inl hz.va, rfl⟩, .inl ⟨rfl, rfl⟩⟩
  have hrev₂ (p : UserPage) (hp : z₁.Knows p) : Revised z₁ z₂ p { p with va := a } :=
    ⟨rfl, hp.offset, hp.inDram, .inl hz.va, fun _ => ⟨.inl hz.va, hp.clear rfl⟩, .inr ⟨rfl, hz.va⟩⟩
  have hheld (y : Hold) (P : Nat → Option PageId) :
      ((g.put f (some y)).lock (some P)).held f = some y := Share.held_put_self ..
  -- The address is written while nobody else knows the descriptor.
  refine safe_bind (safe_setPage (hheld z P) z₁ rfl (fun _ => rfl) hrev₁ fun l₂ h₂ => ?_)
  rw [Share.put_lock, Share.put_put]
  refine safe_assertKnown (hheld z₁ P) (fun p hp => by rw [hp.va]; exact beq_iff_eq.mpr hz.va) ?_
  refine safe_bind (safe_setPage (hheld z₁ P) z₂ rfl (fun _ => rfl) hrev₂ fun l₃ h₃ => ?_)
  rw [Share.put_lock, Share.put_put]
  refine safe_assertKnown (hheld z₂ P) (fun p hp => by rw [hp.va]; exact bne_iff_ne.mpr ha) ?_
  refine safe_assertKnown (hheld z₂ P) (fun p hp => by rw [hp.va]; exact beq_iff_eq.mpr hal) ?_
  refine safe_bind (safe_addPage (P := P) rfl (hheld z₂ P) ha hnew fun P' l₄ h₄ => ?_)
  rw [hhash, Share.put_lock, Share.put_put, Share.lock_lock]
  refine safe_bind (safe_unlockAllocator (P := P') rfl fun l₅ h₅ => ?_)
  rw [Share.lock_lock, Share.lock_self (show (g.put f (some z₃)).hash = none from hg)]
  have hf₅ : (g.put f (some z₃)).held f = some z₃ := Share.held_put_self ..
  refine safe_skip (calm_setLocal (fun _ => rfl) (fun _ => rfl) fun _ => rfl) fun _ l₆ h₆ => ?_
  refine safe_skip (calm_setShared (fun _ => rfl) (fun _ => rfl) (fun _ => rfl) fun _ => rfl)
    fun _ l₇ h₇ => ?_
  refine safe_assertKnown hf₅
    (fun p hp => hp.inDram hz.inDram) (safe_skip (by simp) fun _ l₈ h₈ => safe_bind ?_)
  refine safe_setFlags (F := fun p => { p with migrating := false }) (·.endWork f) (fun e =>
    ⟨⟨rfl, rfl, rfl, rfl, rfl, rfl⟩, rfl⟩) (fun p => ⟨rfl, rfl, rfl, id⟩) hf₅ rfl fun l₉ h₉ => ?_
  apply safe_bind
  refine safe_setFlags (F := fun p => { p with swappedOut := false }) id
    (fun e => ⟨Beside.refl e, rfl⟩) (fun p => ⟨rfl, rfl, rfl, fun _ => rfl⟩) hf₅ rfl fun l₁₀ h₁₀ =>
    ?_
  apply safe_bind
  refine safe_lrudiskTrackPage hf₅ hfresh ha hz.hashed fun l₁₁ h₁₁ => ?_
  rw [Share.put_put, Share.put_self g hf]
  have hr₁₁ :=
    hr.kept ((((((((((h₁.trans h₂).trans h₃).trans h₄).trans h₅).trans h₆).trans h₇).trans h₈).trans
      h₉).trans h₁₀).trans h₁₁)
  refine safe_skip (calm_field _ _) fun size l₁₂ h₁₂ => safe_skip (by simp) fun _ l₁₃ h₁₃ => ?_
  refine safe_skip (by simp) fun _ l₁₄ h₁₄ =>
    safe_skip (by simp) fun _ l₁₅ h₁₅ => safe_calm (by simp) fun _ l₁₆ h₁₆ => ⟨?_, rfl⟩
  exact hr₁₁.kept ((((h₁₂.trans h₁₃).trans h₁₄).trans h₁₅).trans h₁₆)

theorem safe_handleFirstFault {a : Nat} (hal : a % pageSize = 0) (hlate : ∀ e, g.late e = false)
    (hr : l.Rest) : (owning n frames).Safe t (handleFirstFault a) (fun _ => Restored g) l g := by
  refine safe_skip (by simp) fun _ l₁ h₁ =>
    safe_bind (safe_check (.inr nofun) fun ha => safe_bind ?_)
  refine (safe_lrudiskPagefault (hr.kept h₁).calls hlate).mono fun f l₂ g₂ h₂ => ?_
  obtain ⟨z, hf, hz, hc₂, rfl⟩ := h₂
  have hr₂ := hc₂.rest (hr.kept h₁).2
  refine safe_bind (safe_lockAllocator fun P l₃ hg h₃ => safe_bind (safe_findPage (P := P) rfl ?_))
  have hg' : g.hash = none := hg
  cases hp : P a with
  | some d => exact safe_lostFirstFault hg' hf hz (hr₂.kept h₃)
  | none => exact safe_wonFirstFault (by simpa using ha) hal hp hg' hf hz (hr₂.kept h₃)

/-! The handler and the accesses. -/

theorem safe_uswapSigHandler (a : Nat) (hlate : ∀ e, g.late e = false) (hr : l.Rest) :
    (owning n frames).Safe t (uswapSigHandler a) (fun _ => Restored g) l g := by
  have hlast (l₁ : Local) (h₁ : l₁.Rest) : (owning n frames).Safe t (setInternalCall false)
      (fun _ => Restored g) l₁ g := safe_calm (by simp) fun _ l₂ h₂ => ⟨h₁.kept h₂, rfl⟩
  refine safe_skip (by simp) fun _ l₁ h₁ => safe_bind (safe_lookUp ?_ fun d l₂ hr₂ hm₂ => ?_)
  · refine safe_bind
      ((safe_handleFirstFault (Nat.mul_mod_left _ _) hlate (hr.kept h₁)).mono fun _ l₂ g₂ h₂ => ?_)
    obtain ⟨hr₂, rfl⟩ := h₂
    exact hlast l₂ hr₂
  · have hr₂ := (hr.kept h₁).congr hr₂
    have haway (l₃ : Local) (h₃ : l₃.Rest) : (owning n frames).Safe t (do
        lookAway d
        setInternalCall false) (fun _ => Restored g) l₃ g :=
      safe_bind (safe_lookAway fun l₄ h₄ => hlast l₄ (h₃.congr h₄))
    refine safe_skip (calm_field _ _) fun out l₃ h₃ => safe_ite (fun _ => safe_bind ?_) fun _ => ?_
    · have hm₃ : (d, pageBoundry a) ∈ l₃.examining := by
        rw [h₃.examining, hm₂]
        exact List.mem_cons_self
      refine (safe_handleMissingFault hm₃ hlate (hr₂.kept h₃)).mono fun _ l₄ g₄ h₄ => ?_
      obtain ⟨hr₄, rfl⟩ := h₄
      exact haway l₄ hr₄
    · exact safe_skip (by simp) fun _ l₄ h₄ => haway l₄ ((hr₂.kept h₃).kept h₄)

/-- An access faults until it succeeds. -/
theorem safe_access {attempt : Env → Outcome Abort Env (Option α)} (h : Calm (Option α) attempt)
    (a : Nat) (hlate : ∀ e, g.late e = false) (hr : l.Rest) :
    (owning n frames).Safe t (access a attempt) (fun _ => Restored g) l g := by
  refine safe_loop (fun _ => Restored g) ⟨hr, rfl⟩ fun _ l₁ g₁ h₁ => ?_
  obtain ⟨hr₁, rfl⟩ := h₁
  refine safe_skip (always_atomic h) fun r l₂ h₂ => ?_
  cases r with
  | some v => exact ⟨hr₁.kept h₂, rfl⟩
  | none => exact safe_bind ((safe_uswapSigHandler a hlate (hr₁.kept h₂)).mono fun _ l₃ g₃ h₃ => h₃)

/-! Mappings. -/

private theorem add64_pageSize {a : Nat} (h : a % pageSize = 0) :
    add64 a pageSize % pageSize = 0 := by
  unfold add64 pageSize at *
  omega

theorem safe_extmemMmapPopulate {a : Nat} (length : Nat) (hal : a % pageSize = 0)
    (hlate : ∀ e, g.late e = false) (hr : l.Rest) :
    (owning n frames).Safe t (extmemMmapPopulate a length) (fun _ => Restored g) l g := by
  refine safe_skip (calm_check nofun) fun _ l₁ h₁ => safe_skip (calm_check nofun) fun _ l₂ h₂ => ?_
  let J (pageBoundry : Nat) (l' : Local) (g' : Share) : Prop :=
    pageBoundry % pageSize = 0 ∧ Restored g l' g'
  refine safe_loop J ⟨hal, (hr.kept h₁).kept h₂, rfl⟩ fun i l₃ g₃ h₃ => ?_
  obtain ⟨hi, hr₃, rfl⟩ := h₃
  refine safe_ite (fun _ => safe_bind ?_) fun _ => ⟨hr₃, rfl⟩
  exact (safe_handleFirstFault hi hlate hr₃).mono fun _ l₄ g₄ h₄ => ⟨add64_pageSize hi, h₄⟩

/-- The kernel maps whole pages. -/
theorem safe_libcMmap (a length : Nat) (flags : BitVec 32) {Q : Option Nat → Local → Share → Prop}
    (hq : ∀ p l', (∀ q, p = some q → q % pageSize = 0) → Kept l l' → Q p l' g) :
    (owning n frames).Safe t (libcMmap a length flags) Q l g := by
  refine safe_bind (safe_answer fun refuse =>
    safe_bind (safe_answer fun pick => safe_atomic.mpr (owned_action fun s ls G hi hl hg => ?_)))
  subst hl hg
  have hstay (e : Env) (p : Option Nat) (h : CalmStep ⟨s, ls t⟩ e) (hp : ∀ q, p = some q →
      q % pageSize = 0) : ∃ G', Owned n frames e.sh (Function.update ls t e.loc) G' ∧
      (∀ u, u ≠ t → G'.share u = G.share u) ∧ Q p e.loc (G'.share t) :=
    ⟨G, h.owned hi, fun _ _ => rfl, hq p _ hp ⟨h.ring, h.examining⟩⟩
  dsimp only
  generalize (if hasFlag flags mapFixed then a else pick) = p
  by_cases hno : refuse % 2 = 1 ∨ length = 0 ∨ p = 0 ∨ p % pageSize ≠ 0 ∨ taskSize < p + length
  · rw [if_pos hno]
    exact hstay _ none (CalmStep.record _ _) nofun
  · rw [if_neg hno]
    by_cases hfree : hasFlag flags mapFixed = false ∧ s.rangeFree p length = false
    · rw [if_pos hfree]
      exact hstay _ none (CalmStep.record _ _) nofun
    · rw [if_neg hfree]
      have hmap : CalmStep ⟨s, ls t⟩ ⟨s.remap p length .plain, ls t⟩ :=
        CalmStep.of_eq rfl rfl rfl rfl rfl rfl rfl
      refine hstay _ (some p) (hmap.trans (CalmStep.record _ _)) fun q hq' => ?_
      obtain rfl := Option.some.inj hq'
      by_contra hal
      exact hno (.inr (.inr (.inr (.inl hal))))

theorem safe_extmemMmap (a length : Nat) (flags : BitVec 32)
    (hlate : ∀ e, g.late e = false) (hr : l.Rest) :
    (owning n frames).Safe t (extmemMmap a length flags) (fun _ => Restored g) l g := by
  refine safe_skip (by simp) fun _ l₁ h₁ =>
    safe_skip (calm_assert nofun) fun _ l₂ h₂ => safe_skip (calm_check nofun) fun _ l₃ h₃ => ?_
  refine safe_bind (safe_libcMmap _ _ _ fun p l₄ hp h₄ => ?_)
  have hr₄ := hr.kept (((h₁.trans h₂).trans h₃).trans h₄)
  cases p with
  | none => exact safe_fail nofun
  | some p =>
    refine safe_skip (calm_setShared (fun _ => rfl) (fun _ => rfl) (fun _ => rfl) fun _ => rfl)
      fun _ l₅ h₅ => ?_
    refine safe_skip (calm_setShared (fun _ => rfl) (fun _ => rfl) (fun _ => rfl) fun _ => rfl)
      fun _ l₆ h₆ => ?_
    have hr₆ := (hr₄.kept h₅).kept h₆
    have hlast (l₇ : Local) (h₇ : l₇.Rest) : (owning n frames).Safe t (do
        setStats fun t => { t with memMmaped := pageRoundUp length }
        setInternalCall false
        pure p) (fun _ => Restored g) l₇ g :=
      safe_skip (by simp) fun _ l₈ h₈ =>
        safe_skip (by simp) fun _ l₉ h₉ => ⟨(h₇.kept h₈).kept h₉, rfl⟩
    refine safe_ite (fun _ => safe_bind ?_) fun _ => hlast l₆ hr₆
    refine (safe_extmemMmapPopulate _ (hp p rfl) hlate hr₆).mono fun _ l₇ g₇ h₇ => ?_
    obtain ⟨hr₇, rfl⟩ := h₇
    exact hlast l₇ hr₇

theorem safe_mmapFilter (a length : Nat) (flags : BitVec 32)
    (hlate : ∀ e, g.late e = false) (hr : l.Rest) :
    (owning n frames).Safe t (mmapFilter a length flags) (fun _ => Restored g) l g := by
  refine safe_ite (fun _ => ⟨hr, rfl⟩) fun _ => safe_ite (fun _ => ⟨hr, rfl⟩) fun _ => ?_
  refine safe_skip (by simp) fun c l₁ h₁ => safe_ite (fun _ => ⟨hr.kept h₁, rfl⟩) fun _ => ?_
  refine safe_skip (by simp) fun c l₂ h₂ =>
    safe_ite (fun _ => ⟨(hr.kept h₁).kept h₂, rfl⟩) fun _ => ?_
  refine safe_ite (fun _ => ⟨(hr.kept h₁).kept h₂, rfl⟩) fun _ => safe_bind ?_
  exact (safe_extmemMmap a length flags hlate ((hr.kept h₁).kept h₂)).mono fun _ l₃ g₃ h₃ => h₃

end ExtMem
