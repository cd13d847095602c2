import ExtMem.Serial.Calls
import ExtMem.Serial.Service

/-! Mapping takes no byte away where no page is replaced, and unmapping leaves zeros in its
range. -/
namespace ExtMem
open Threads Threads.Prog

variable {n : Nat} {frames : List Frame} {k : Skeleton} {d r : PageId} {e e₀ e' : Env}
  {m : Nat → Bytes} {a addr length : Nat}
  {flags : BitVec 32}

/-! Mapping. -/

/-- A mapping at a fixed place replaces no tracked page. -/
def Fresh (s : Shared) (addr length : Nat) (flags : BitVec 32) : Prop :=
  hasFlag flags mapFixed = true → ∀ a, inRange addr (pageRoundUp length) a = true → s.pages a = none

/-- The kernel never places a mapping over tracked pages by itself. -/
theorem untracked_of_placed {p : Nat} (h : Settled n frames k)
    (hp : Placed k addr (pageRoundUp length) flags p)
    (hfix : hasFlag flags mapFixed = true → ∀ a, inRange addr (pageRoundUp length) a = true →
      k.pages a = none) : ∀ a, inRange p (pageRoundUp length) a = true → k.pages a = none := by
  intro a ha
  cases hf : hasFlag flags mapFixed with
  | true =>
    rw [hp.fixed hf] at ha
    exact hfix hf a ha
  | false =>
    by_contra hd
    obtain ⟨d, hd⟩ := Option.ne_none_iff_exists'.mp hd
    have ha0 : a ≠ 0 := by
      rintro rfl
      have hne := hp.ne
      simp only [inRange, Bool.and_eq_true, decide_eq_true_eq] at ha
      omega
    obtain ⟨i, hi, rfl⟩ := page_of_inRange hp.aligned (h.aligned ha0 hd) (pageRoundUp_mod length) ha
    have hv := h.mapped _ d ha0 hd
    rw [hp.free hf i hi] at hv
    cases hv

private theorem ground_libcMmap : After (libcMmap addr length flags) e fun p e' => match p with
    | none => e'.ground = e.ground
    | some p => e'.ground = { e.ground with
        pte := fun a => if inRange p length a then none else e.sh.pte a } := by
  unfold libcMmap
  refine (after_bind _ _ _ _).mpr ((after_answer _ _).mpr fun refuse => (after_bind _ _ _ _).mpr
    ((after_answer _ _).mpr fun pick => (after_atomic _ _ _).mpr fun p e' he => ?_))
  generalize (if hasFlag flags mapFixed then addr else pick) = q at he
  dsimp only at he
  split at he
  · cases he
    rfl
  · split at he
    · cases he
      rfl
    · cases he
      rfl

/-- A fresh mapping reads as zeros, which is what flat memory holds there. -/
private theorem Steady.mapped {p : Nat} (h : Steady m e) (hp : p ≠ 0)
    (hfresh : ∀ a, inRange p length a = true → e.sh.pages a = none)
    (hk : e'.sh.skeleton = e.sh.skeleton.remap p length .uffd) (hg : e'.ground =
      { e.ground with pte := fun a => if inRange p length a then none else e.sh.pte a }) :
    Steady m e' := by
  have hpte : e'.sh.pte = fun a =>
      if inRange p length a then none else e.sh.pte a := congrArg Ground.pte hg
  refine .of_ground ?_ ?_ ?_ ?_
  · rw [hk, hg]
    refine Stored.remap h.holds hp hfresh fun a ha hc => ?_
    unfold Threads.Ctx.dirty at hc ⊢
    rw [hpte] at hc
    dsimp only at hc
    rwa [ha, if_neg Bool.false_ne_true] at hc
  · rw [hg]
    exact ⟨h.idle.sq, h.idle.outstanding⟩
  · rw [hg]
    exact h.idle.sound
  · rw [hg]
    exact h.reads

private theorem Steady.populate {p : Nat} (h : Steady m e) (hset : Settled n frames e.sh.skeleton)
    (hf : frames.Nodup) : After (extmemMmapPopulate p length) e fun _ e' => Steady m e' := by
  unfold extmemMmapPopulate
  refine after_check fun _ => after_check fun _ => ?_
  refine after_loop (fun _ e => Steady m e ∧ Settled n frames e.sh.skeleton)
    (fun pb e ⟨h, hset⟩ => ?_) ⟨h, hset⟩
  refine (after_ite _ _ _ _).mpr ⟨fun _ => ?_, fun _ => (after_pure _ _ _).mpr h⟩
  refine after_then ((h.firstFault rfl hset.whole hf).and (after_handleFirstFault rfl hset.whole))
    fun _ e' ⟨h, ht, _⟩ => ?_
  exact (after_pure _ _ _).mpr ⟨h, (Leads.of_touched hset ht).1⟩

/-- A call of mmap that the pager serves keeps the bytes. -/
theorem Steady.mmap (h : Steady m e) (hset : Settled n frames e.sh.skeleton) (hf : frames.Nodup)
    (hfresh : Fresh e.sh addr length flags) :
    After (extmemMmap addr length flags) e fun _ e' => Steady m e' := by
  unfold extmemMmap
  generalize hk : e.sh.skeleton = k at hset
  have hfix : hasFlag flags mapFixed = true →
      ∀ a, inRange addr (pageRoundUp length) a = true → k.pages a = none := by
    rw [← hk]
    exact hfresh
  refine h.passes hk (by simp) (by simp) fun _ e hk h =>
    h.passes hk (by simp) (by simp) fun _ e hk h => after_check fun _ => ?_
  dsimp only
  refine after_then ((after_libcMmap hk).and ground_libcMmap) fun p e₁ ⟨hp, hg₁⟩ => ?_
  cases p with
  | none => exact (after_fail _ _ _).mpr trivial
  | some p =>
    obtain ⟨hp, hk₁, -⟩ := hp
    have hplaced : Placed k addr (pageRoundUp length) flags p :=
      ⟨hp.ne, hp.aligned, hp.bounded, fun hf => hp.fixed (by rw [fixed_mmapFlags, hf]),
        fun hf => hp.free (by rw [fixed_mmapFlags, hf])⟩
    have huntracked := untracked_of_placed hset hplaced hfix
    have hreg : (k.remap p (pageRoundUp length) .plain).remap p (pageRoundUp length) .uffd =
        k.remap p (pageRoundUp length) .uffd := by
      refine Skeleton.ext rfl rfl rfl (funext fun b => ?_) rfl rfl rfl
      show (if inRange p (pageRoundUp length) b then Vma.uffd else
        if inRange p (pageRoundUp length) b then .plain else k.vma b) =
        if inRange p (pageRoundUp length) b then .uffd else k.vma b
      split <;> rfl
    refine (after_bind _ _ _ _).mpr
      ((after_modify _ _ _).mpr ((after_bind _ _ _ _).mpr ((after_modify _ _ _).mpr ?_)))
    generalize he₂ : Threads.Ctx.mk _ _ = e₂
    have hk₂ : e₂.sh.skeleton = k.remap p (pageRoundUp length) .uffd := by
      rw [← hreg, ← hk₁, ← he₂]
      rfl
    have hg₂ : e₂.ground = { e.ground with
        pte := fun a => if inRange p (pageRoundUp length) a then none else e.sh.pte a } := by
      rw [← he₂]
      exact hg₁
    have h₂ : Steady m e₂ := by
      refine h.mapped hplaced.ne ?_ (by rw [hk, hk₂]) hg₂
      rw [show e.sh.pages = k.pages from congrArg Skeleton.pages hk]
      exact huntracked
    have hset₂ : Settled n frames e₂.sh.skeleton := by
      rw [hk₂]
      exact hset.remap p (pageRoundUp length)
    have hlast (e : Env) (h : Steady m e) : After (do
        setStats fun t => { t with memMmaped := pageRoundUp length }
        setInternalCall false
        pure p : Paging Nat) e fun _ e' => Steady m e' :=
      h.after (always_bind (by simp) fun _ => always_bind (by simp) fun _ => trivial)
    refine (after_ite _ _ _ _).mpr ⟨fun _ => ?_, fun _ => hlast e₂ h₂⟩
    exact after_then (h₂.populate hset₂ hf) fun _ e₃ h₃ => hlast e₃ h₃

/-! Unmapping. -/

private theorem releasing_ground : Releasing SameGround where
  toLinking := linking_ground
  removeAny _ _ _ := rfl
  write _ _ _ _ := rfl
  forget _ _ _ := rfl

private theorem ground_extmemMunmap :
    After (extmemMunmap addr length) e fun _ e' => e'.ground = { e.ground with
      pte := fun a => if inRange addr (roundLength length) a then none else e.sh.pte a } := by
  unfold extmemMunmap
  refine after_then (after_grounded (grounded_setInternalCall true)) fun _ e₁ hg₁ => ?_
  refine after_then (after_grounded (within_lockAllocator fun _ => rfl)) fun _ e₂ hg₂ => ?_
  refine after_then (after_grounded (within_unmapWalk releasing_ground addr length))
    fun _ e₃ hg₃ => ?_
  have hg : e₃.ground = e.ground := hg₃.trans (hg₂.trans hg₁)
  refine after_then (R := fun ok e' => ok = true → e'.ground = { e.ground with
    pte := fun a => if inRange addr (roundLength length) a then none else e.sh.pte a }) ?_
    fun ok e₄ hok => ?_
  · unfold libcMunmap
    refine (after_bind _ _ _ _).mpr
      ((after_answer _ _).mpr fun refuse => (after_atomic _ _ _).mpr fun ok e' he => ?_)
    split at he
    · cases he
      exact fun h => absurd h Bool.false_ne_true
    · cases he
      intro _
      rw [← hg, show e.sh.pte = e₃.sh.pte from (congrArg Ground.pte hg).symm]
      rfl
  · refine after_check fun hc => ?_
    have hunlock : Always Grounded unlockAllocator := within_modify fun _ => rfl
    exact (after_grounded (always_bind hunlock fun _ => grounded_setInternalCall false)).mono
      fun _ e' hg' => hg'.trans (hok hc)

/-- A page that is forgotten leaves every frame where it is, and the places of the other pages. -/
private theorem release_keeps (h : Settled n frames k) (hd : d < n) (hva : (k.page d).va ≠ 0) :
    (∀ x, ((k.release d).page x).virtualOffset = (k.page x).virtualOffset) ∧
    ∀ x, ((k.release d).page x).va ≠ 0 → ((k.release d).page x).whereabouts =
        (k.page x).whereabouts ∧ ((k.release d).page x).va = (k.page x).va := by
  unfold Skeleton.release
  cases hr : (k.page d).reserve with
  | none =>
    dsimp only
    constructor
    · intro x
      rw [Function.update_apply]
      split
      · next hx =>
        rw [hx]
        rfl
      · rfl
    · intro x hx
      rw [Function.update_apply] at hx ⊢
      split at hx
      · exact absurd rfl hx
      · next hxd =>
        rw [if_neg hxd]
        exact ⟨rfl, rfl⟩
  | some r =>
    dsimp only
    have hrva : (k.page r).va = 0 := by
      obtain ⟨l, hl, hkind⟩ := h.whole.tracked hd hva
      rcases hkind with ⟨hres, -⟩ | ⟨-, haway⟩
      · exact (h.whole.reserve_of_resident hl hres hr).2.2.2.1
      · rw [haway.2.2.2.2.2.2] at hr
        cases hr
    constructor
    · intro x
      rw [Function.update_apply, Function.update_apply]
      split
      · next hx =>
        rw [hx]
        rfl
      · split
        · next hx =>
          rw [hx]
          rfl
        · rfl
    · intro x hx
      rw [Function.update_apply, Function.update_apply] at hx ⊢
      split at hx
      · exact absurd hrva hx
      · next hxr =>
        split at hx
        · exact absurd rfl hx
        · next hxd =>
          rw [if_neg hxr, if_neg hxd]
          exact ⟨rfl, rfl⟩

private theorem forgetPages_keeps (h : Settled n frames k) (ha : addr ≠ 0) (j : Nat) :
    (∀ x, ((k.forgetPages addr j).page x).virtualOffset = (k.page x).virtualOffset) ∧
    ∀ x, ((k.forgetPages addr j).page x).va ≠ 0 →
      ((k.forgetPages addr j).page x).whereabouts = (k.page x).whereabouts := by
  induction j with
  | zero => exact ⟨fun _ => rfl, fun _ _ => rfl⟩
  | succ j ih =>
    have hset := h.forgetPages ha j
    have hne : addr + j * pageSize ≠ 0 := Nat.ne_of_gt (Nat.add_pos_left (Nat.pos_of_ne_zero ha) _)
    rw [Skeleton.forgetPages_succ, Skeleton.forget]
    cases hp : (k.forgetPages addr j).pages (addr + j * pageSize) with
    | none => exact ih
    | some d =>
      obtain ⟨hd, hva⟩ := hset.of_hash hne hp
      have hva : ((k.forgetPages addr j).page d).va ≠ 0 := by rwa [hva]
      obtain ⟨h₁, h₂⟩ := release_keeps hset hd hva
      refine ⟨fun x => (h₁ x).trans (ih.1 x), fun x hx => ?_⟩
      obtain ⟨hwx, hvx⟩ := h₂ x hx
      exact hwx.trans (ih.2 x (hvx ▸ hx))

theorem Skeleton.vma_forgetPages (k : Skeleton) (addr j : Nat) :
    (k.forgetPages addr j).vma = k.vma := by
  induction j with
  | zero => rfl
  | succ j ih => rw [Skeleton.forgetPages_succ, Skeleton.vma_forget, ih]

/-- A call of munmap leaves zeros in the pages of its range and all other bytes as they were. -/
theorem Steady.munmap (h : Steady m e) (hset : Settled n frames e.sh.skeleton) :
    After (extmemMunmap addr length) e fun _ e' =>
      Steady (fun a => if inRange addr (roundLength length) a then zeroes else m a) e' := by
  refine ((after_extmemMunmap rfl hset).and ground_extmemMunmap).mono fun _ e' ⟨hu, hg⟩ => ?_
  obtain ⟨⟨ha, -⟩, hal, -, hk, hset'⟩ := hu
  have hpte : e'.sh.pte = fun a =>
      if inRange addr (roundLength length) a then none else e.sh.pte a := congrArg Ground.pte hg
  have hpages (b : Nat) : e'.sh.skeleton.pages b = if ∃ i, i < walkLength length ∧
      b = addr + i * pageSize then none else e.sh.skeleton.pages b := by
    rw [hk]
    exact hset.pages_forgetPages ha _ b
  obtain ⟨hoff, hwhere⟩ := forgetPages_keeps hset ha (walkLength length)
  refine .of_ground ?_ ?_ ?_ ?_
  · rw [hg]
    refine Stored.unmap h.holds (fun b hb => ?_) (fun b hb => ?_) (fun b => ?_)
      (fun b d hb hd => ?_) fun b hb hc => ?_
    · rw [hpages]
      split
      · rfl
      · next hno =>
        by_contra hd
        obtain ⟨d, hd⟩ := Option.ne_none_iff_exists'.mp hd
        have hb0 : b ≠ 0 := by
          rintro rfl
          simp only [inRange, Bool.and_eq_true, decide_eq_true_eq] at hb
          omega
        obtain ⟨i, hi, hbi⟩ := page_of_inRange hal (hset.aligned hb0 hd) (Nat.mul_mod_left _ _) hb
        rw [Nat.mul_div_cancel _ (by decide)] at hi
        exact hno ⟨i, hi, hbi⟩
    · rw [hpages, if_neg]
      rintro ⟨i, hi, rfl⟩
      have hps : pageSize = 4096 := rfl
      simp only [inRange, roundLength, walkLength, hps, Bool.and_eq_false_iff,
        decide_eq_false_iff_not] at hb hi
      omega
    · rw [hk, ← Skeleton.vma_forgetPages e.sh.skeleton addr (walkLength length)]
      rfl
    · have hb' : (e.sh.skeleton.forgetPages addr (walkLength length)).pages b = some d := by
        rw [hk] at hd
        exact hd
      obtain ⟨-, hva⟩ := (hset.forgetPages ha (walkLength length)).of_hash hb hb'
      have hpage :
          e'.sh.skeleton.page = (e.sh.skeleton.forgetPages addr (walkLength length)).page := by
        rw [hk]; rfl
      rw [hpage]
      exact ⟨hwhere d (by rw [hva]; exact hb), fun r _ _ => hoff r⟩
    · unfold Threads.Ctx.dirty at hc ⊢
      rw [hpte] at hc
      dsimp only at hc
      rwa [hb, if_neg Bool.false_ne_true] at hc
  · rw [hg]
    exact ⟨h.idle.sq, h.idle.outstanding⟩
  · rw [hg]
    exact h.idle.sound
  · rw [hg]
    exact h.reads

end ExtMem
