import ExtMem.Serial.Ahead
import ExtMem.Serial.Fault

/-! The fault handler keeps the bytes of all pages, and loads and stores read and write them. -/
namespace ExtMem
open Threads Threads.Prog

variable {n : Nat} {frames : List Frame} {k : Skeleton} {d r : PageId} {e e₀ e' : Env}
  {m : Nat → Bytes} {a addr : Nat}

/-! First faults. -/

private theorem Steady.locked {β : Type} {q : Unit → Paging β} {Q : β → Env → Prop}
    (h : Steady m e) (hk : e.sh.skeleton = k)
    (hq : ∀ e, e.sh.skeleton = { k with lock := true } → Steady m e → After (q ()) e Q) :
    After (lockAllocator >>= q) e Q := by
  subst hk
  rw [after_bind]
  refine (after_atomic _ _ _).mpr fun b e' he => ?_
  split at he
  · cases he
  · cases he
    exact hq _ rfl (h.gentle (.of_eq rfl rfl rfl rfl rfl rfl fun _ _ => rfl))

private theorem gently_unlockAllocator {u : Bool} : Always (Gently u) unlockAllocator :=
  within_modify fun _ => .of_eq rfl rfl rfl rfl rfl rfl fun _ _ => rfl

private theorem gently_handleWpFault {u : Bool} (d : PageId) :
    Always (Gently u) (handleWpFault d) :=
  always_bind (by simp) fun _ => within_waitMigratingThen d .refl

private theorem gently_lostFirstFault {u : Bool} (r d : PageId) :
    Always (Gently u) (lostFirstFault r d) := by
  refine always_bind gently_unlockAllocator fun _ =>
    always_bind ?_ fun _ => within_waitMigratingThen d .refl
  exact always_bind (by simp) fun _ => always_bind (by simp) fun _ => by simp

private theorem ground_wonFirstFault : After (wonFirstFault r a) e fun _ e' =>
    e'.ground = { e.ground with pte := Function.update e.sh.pte a (some .zeroed) } := by
  have hset (e : Env) (f : UserPage → UserPage) (hf : ∀ p, (f p).va = p.va) :
      ((e.setPage r f).sh.page r).va = (e.sh.page r).va := by
    simp [Threads.Ctx.setPage, Shared.setPage, hf]
  unfold wonFirstFault
  refine (after_bind _ _ _ _).mpr
    ((after_modify _ _ _).mpr ((after_bind _ _ _ _).mpr ((after_modify _ _ _).mpr ?_)))
  refine (after_bind _ _ _ _).mpr
    ((after_assert _ _ _ _).mpr fun _ => (after_bind _ _ _ _).mpr ((after_modify _ _ _).mpr ?_))
  generalize he₁ : Threads.Ctx.setPage _ r _ = e₁
  have hg₁ : e₁.ground = e.ground := by
    rw [← he₁]
    rfl
  have hva : (e₁.sh.page r).va = a := by
    rw [← he₁]
    simp [Threads.Ctx.setPage, Shared.setPage]
  refine (after_bind _ _ _ _).mpr ((after_assert _ _ _ _).mpr fun _ =>
    (after_bind _ _ _ _).mpr ((after_assert _ _ _ _).mpr fun _ => ?_))
  refine after_then (R := fun _ e₂ => e₂.ground = e.ground ∧ (e₂.sh.page r).va = a) ?_
    fun _ e₂ hx₂ => ?_
  · refine (after_atomic _ _ _).mpr fun _ e' he => ?_
    dsimp only at he
    split at he
    · cases he
      exact ⟨hg₁, hva⟩
    · cases he
  obtain ⟨hg₂, hva₂⟩ := hx₂
  refine (after_bind _ _ _ _).mpr
    ((after_modify _ _ _).mpr ((after_bind _ _ _ _).mpr ((after_modify _ _ _).mpr ?_)))
  refine (after_bind _ _ _ _).mpr
    ((after_modify _ _ _).mpr ((after_bind _ _ _ _).mpr ((after_assert _ _ _ _).mpr fun _ => ?_)))
  generalize he₃ : Threads.Ctx.mk _ _ = e₃
  have hg₃ : e₃.ground = e.ground := by
    rw [← he₃]
    exact hg₂
  have hva₃ : (e₃.sh.page r).va = a := by
    rw [← he₃]
    exact hva₂
  refine after_then after_copyBytes fun _ e₄ hx₄ => ?_
  obtain ⟨bytes, hb, hg₄⟩ := hx₄
  have hzero : (⟨bytes, false, false, false⟩ : Pte) = .zeroed := by
    rw [← Option.some.inj hb]
    rfl
  have hrest : Always Grounded (do
      Prog.modify fun e => (e.setPage r fun p => { p with migrating := false }).endWork r
      setPage r fun p => { p with swappedOut := false }
      lrudiskTrackPage r
      let pagesize ← pagesizeOf r
      setStats fun t => { t with memAllocated := add64 t.memAllocated pagesize }
      setStats fun t => { t with firstFaultsHandled := add64 t.firstFaultsHandled 1 }
      setStats fun t => { t with pagesAllocated := add64 t.pagesAllocated 1 }
      setInternalCall false) := by
    refine always_bind (within_modify fun _ => rfl) fun _ =>
      always_bind (by simp) fun _ => always_bind ?_ fun _ => ?_
    · exact always_bind (by simp) fun _ => within_enqueueThen _ _ fun _ _ => rfl
    · refine always_bind (by simp) fun _ =>
        always_bind (by simp) fun _ => always_bind (by simp) fun _ => ?_
      exact always_bind (by simp) fun _ => by simp
  refine (after_grounded hrest).mono fun _ e₅ hg₅ => ?_
  have hpte : e₃.sh.pte = e.sh.pte := congrArg Ground.pte hg₃
  rw [hg₅, hg₄, hg₃, hva₃, hzero, hpte]

/-- A first fault keeps the bytes: the page that it maps holds zeros, as its address did. -/
theorem Steady.firstFault (h : Steady m e) (hk : e.sh.skeleton = k)
    (hw : Whole n frames (fun _ => none) k) (hf : frames.Nodup) :
    After (handleFirstFault a) e fun _ e' => Steady m e' := by
  unfold handleFirstFault
  refine h.passes hk (by simp) (by simp) fun _ e hk h => after_check fun _ => ?_
  refine after_then ((after_lrudiskPagefault hk hw).and (h.start.pagefault hk hw hf))
    fun r e₁ ⟨⟨k₁, hw₁, hr, hrec, _, hk₁⟩, hs₁⟩ => ?_
  have h := h.sustained hs₁
  obtain ⟨hw₂, hrec₂⟩ := fetched_marked hw₁ hr hrec
  rw [← hk₁] at hw₂ hrec₂
  refine h.locked rfl fun e₂ hk₂ h => ?_
  refine after_then (R := fun o e' => o = e₁.sh.skeleton.pages a ∧ e' = e₂)
    ((after_read _ _ _).mpr ⟨?_, rfl⟩) fun o e' ⟨ho, he⟩ => ?_
  · rw [show e₂.sh.pages = e₁.sh.skeleton.pages from congrArg Skeleton.pages hk₂]
  subst e'
  cases hp : e₁.sh.skeleton.pages a with
  | some d =>
    rw [hp] at ho
    subst ho
    exact h.after (gently_lostFirstFault r d)
  | none =>
    rw [hp] at ho
    subst ho
    have hold : Stored m e₁.sh.skeleton e₂.sh.pte e₂.sh.disk fun a => e₂.dirty a = false := by
      refine Stored.reskin (k := e₂.sh.skeleton) h.holds ?_ ?_ fun x => ?_
      · rw [hk₂]
      · rw [hk₂]
      · rw [hk₂]
    refine ((after_wonFirstFault hk₂).and ground_wonFirstFault).mono
      fun _ e₃ ⟨⟨_, _, _, hk₃⟩, hg₃⟩ => ?_
    have hpte : e₃.sh.pte = Function.update e₂.sh.pte a (some .zeroed) := congrArg Ground.pte hg₃
    refine .of_ground ?_ ?_ ?_ ?_
    · rw [hk₃, hg₃]
      refine (hold.track hw₂ (Function.update_self ..) hp fun b hb hc => ?_).reskin rfl rfl fun _ =>
        rfl
      unfold Threads.Ctx.dirty at hc ⊢
      rwa [hpte, Function.update_of_ne hb] at hc
    · rw [hg₃]
      exact ⟨h.idle.sq, h.idle.outstanding⟩
    · rw [hg₃]
      exact h.idle.sound
    · rw [hg₃]
      exact h.reads

/-! Major faults and the handler. -/

/-- So does a major fault, with the prefetch that it may start. -/
theorem Steady.missingFault (h : Steady m e) (hk : e.sh.skeleton = k) (hset : Settled n frames k)
    (hf : frames.Nodup) : After (handleMissingFault d) e fun _ e' => Steady m e' := by
  unfold handleMissingFault
  refine h.passes hk (by simp) (by simp) fun _ e hk h =>
    h.passes hk (by simp) (by simp) fun va e hk h => ?_
  refine after_then ((after_claimSwapin hk).and (h.after (by simp))) fun c e₁ ⟨hc, h⟩ => ?_
  have hwait : After (waitMigratingThen d (·.record (.resumed d))) e₁ fun _ e' => Steady m e' :=
    h.after (within_waitMigratingThen d fun e => .record e _)
  unfold Claimed at hc
  cases c with
  | busy => exact hwait
  | handled => exact hwait
  | moved => exact hwait
  | mine =>
    rw [if_pos rfl] at hc
    obtain ⟨-, -, -, hk₁⟩ := hc
    show After (resolveMissingFault d va) _ _
    unfold resolveMissingFault
    refine h.passes hk₁ (by simp) ((looks_read _).within .refl) fun l e hk h => ?_
    refine h.passes hk (by simp)
      (within_modify fun _ => .of_eq rfl rfl rfl rfl rfl rfl fun _ _ => rfl) fun _ e hk h => ?_
    refine after_then ((after_lrudiskSwapinExternalAsync hset.whole hk).and
      (h.swapin hset.whole hf hk)) fun _ e₂ ⟨hb, h⟩ => ?_
    generalize hk₂ : e₂.sh.skeleton = k₂ at hb
    -- The three assertions change nothing.
    have hassert {c : UserPage → Bool} {why : Abort} {q : Unit → Paging Unit}
        (hq : After (q ()) e₂ fun _ e' => Steady m e') : After (assertPage d c why >>= q) e₂
        fun _ e' => Steady m e' := (after_bind _ _ _ _).mpr ((after_assert _ _ _ _).mpr fun _ => hq)
    refine hassert (hassert (hassert ?_))
    have hfinish : After (finishSwapin d) e₂ fun _ e' =>
        Steady m e' := (after_modify _ _ _).mpr (h.congr rfl rfl)
    refine after_then ((after_finishSwapin hk₂).and hfinish) fun _ e₃ ⟨hk₃, h⟩ => ?_
    obtain ⟨⟨hw₃, -⟩, -⟩ := hb.whole hset.whole
    refine h.passes hk₃ (by simp) (by simp) fun _ e₄ hk₄ h =>
      (after_ite _ _ _ _).mpr ⟨fun _ => ?_, fun _ => h.after (by simp)⟩
    exact after_then (h.prefetch hk₄ hw₃ hf) fun _ e₅ h => h.after (by simp)

/-- So does the handler. -/
theorem Steady.handler (h : Steady m e) (hk : e.sh.skeleton = k) (hset : Settled n frames k)
    (hf : frames.Nodup) : After (uswapSigHandler addr) e fun _ e' => Steady m e' := by
  unfold uswapSigHandler
  refine h.passes hk (by simp) (by simp) fun _ e hk h =>
    h.passes hk (by simp) (by simp) fun page e hk h => ?_
  cases page with
  | none => exact after_then (h.firstFault hk hset.whole hf) fun _ e h => h.after (by simp)
  | some d =>
    refine h.passes hk (by simp) (by simp) fun swappedOut e hk h => ?_
    have hlast {p : Paging Unit} (hp : After p e fun _ e' => Steady m e') :
        After (do p; lookAway d; setInternalCall false) e fun _ e' => Steady m e' :=
      after_then hp fun _ e' h => h.after (always_bind (by simp) fun _ => by simp)
    refine (after_ite _ _ _ _).mpr ⟨fun _ => ?_, fun _ => ?_⟩
    · exact hlast (h.missingFault hk hset hf)
    · exact hlast (h.after (gently_handleWpFault d))

/-! Loads and stores. -/

/-- The bytes at a mapped address. -/
theorem Stored.bytes {pte : Nat → Option Pte} {disk : Nat → Bytes} {clean : Nat → Prop} {p : Pte}
    (h : Stored m k pte disk clean) (hv : k.vma a = .uffd) (hp : pte a = some p) :
    p.bytes = m a := by
  have ha : a ≠ 0 := by
    rintro rfl
    exact h.nowhere hv
  cases hd : k.pages a with
  | none =>
    rw [h.bare a hv hd] at hp
    cases hp
  | some d =>
    cases hs : (k.page d).swappedOut with
    | true =>
      rw [(h.away a d ha hd hs).1] at hp
      cases hp
    | false =>
      obtain ⟨p', hp', hb⟩ := h.here a d ha hd hs
      rw [hp', Option.some.injEq] at hp
      rw [← hp]
      exact hb

/-- The byte of flat memory at an address. -/
def byteAt (m : Nat → Bytes) (addr : Nat) : UInt8 := m (pageBoundry addr) (pageOffset addr)

/-- The memory after the store of a byte. -/
def storeAt (m : Nat → Bytes) (addr : Nat) (byte : UInt8) : Nat → Bytes :=
  Function.update m (pageBoundry addr)
    (Function.update (m (pageBoundry addr)) (pageOffset addr) byte)

private theorem loadByte_steady (h : Steady m e) : After (Prog.atomic (loadByte addr)) e fun o e' =>
    Steady m e' ∧ ∀ b, o = some b → b = byteAt m addr := by
  refine (after_atomic _ _ _).mpr fun o e' he => ?_
  unfold loadByte at he
  split at he
  · next p hv hp =>
    cases he
    refine ⟨h.gentle (.setPte hp rfl id), fun b hb => ?_⟩
    rw [← Option.some.inj hb]
    exact congrFun (h.holds.bytes hv hp) _
  · cases he
    exact ⟨h, nofun⟩
  · cases he

private theorem storeByte_steady {byte : UInt8} (h : Steady m e) :
    After (Prog.atomic (storeByte addr byte)) e fun o e' => match o with
    | some _ => Steady (storeAt m addr byte) e'
    | none => Steady m e' := by
  refine (after_atomic _ _ _).mpr fun o e' he => ?_
  unfold storeByte at he
  split at he
  · next p hv hp =>
    split at he
    · cases he
      exact h
    · cases he
      refine ⟨?_, ⟨h.idle.sq, h.idle.outstanding, h.idle.sound⟩, h.reads⟩
      have hb := h.holds.bytes hv hp
      unfold storeAt
      rw [← hb]
      refine Stored.write (p := ⟨Function.update p.bytes (pageOffset addr) byte, p.wp, true, true⟩)
        h.holds hv (by rw [hp]; rfl) fun b hc => ?_
      by_cases hba : b = pageBoundry addr
      · subst hba
        simp [Threads.Ctx.dirty, Threads.Ctx.record, Shared.setPte] at hc
      · refine ⟨hba, ?_⟩
        simp only [Threads.Ctx.dirty, Threads.Ctx.record, Shared.setPte,
          Function.update_of_ne hba] at hc
        exact hc
  · cases he
    exact h
  · cases he

/-- What a retried access keeps while it faults, its last attempt may end. -/
private theorem Steady.access {α : Type} {attempt : Env → Outcome Abort Env (Option α)}
    {Q : α → Env → Prop} (hs : Still (Option α) attempt) (h : Steady m e)
    (hset : Settled n frames e.sh.skeleton) (hf : frames.Nodup)
    (hstep : ∀ e, Steady m e → After (Prog.atomic attempt) e fun o e' => match o with
      | some a => Q a e'
      | none => Steady m e') : After (access addr attempt) e Q := by
  unfold ExtMem.access
  refine after_loop (fun _ e => Steady m e ∧ Settled n frames e.sh.skeleton)
    (fun _ e ⟨h, hset⟩ => ?_) ⟨h, hset⟩
  refine after_then ((hstep e h).and (after_still_last rfl (always_atomic hs)))
    fun o e' ⟨ho, hk'⟩ => ?_
  cases o with
  | some a => exact (after_pure _ _ _).mpr ho
  | none =>
    rw [← hk'] at hset
    refine after_then ((Steady.handler ho rfl hset hf).and (after_uswapSigHandler rfl hset))
      fun _ e'' ⟨h', hl⟩ => (after_pure _ _ _).mpr ?_
    exact ⟨h', hl.1⟩

/-- A load returns the byte of flat memory at its address. -/
theorem Steady.load (h : Steady m e) (hset : Settled n frames e.sh.skeleton) (hf : frames.Nodup) :
    After (userLoad addr) e fun b e' => Steady m e' ∧ b = byteAt m addr := by
  refine h.access (still_loadByte addr) hset hf fun e h =>
    (loadByte_steady h).mono fun o e' ⟨h', hb⟩ => ?_
  cases o with
  | some b => exact ⟨h', hb b rfl⟩
  | none => exact h'

/-- A store changes that byte and no other. -/
theorem Steady.store {byte : UInt8} (h : Steady m e)
    (hset : Settled n frames e.sh.skeleton) (hf : frames.Nodup) :
    After (userStore addr byte) e fun _ e' => Steady (storeAt m addr byte) e' :=
  h.access (still_storeByte addr byte) hset hf fun e h =>
    (storeByte_steady h).mono fun o e' h' => by
    cases o with
    | some _ => exact h'
    | none => exact h'

end ExtMem
