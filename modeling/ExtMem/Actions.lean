import ExtMem.InterceptLayer
import ExtMem.Threads.Always

/-! What the basic actions do, for any relation between the states before and after them. -/
namespace ExtMem
open Threads Threads.Prog
variable {α β : Type}

/-- Events that tell of no transfer, no eviction and no call of mmap or munmap. -/
def Event.plain : Event → Bool
  | .submitted _ | .completed _ _ | .copied _ _ | .mapped _ _ | .refused | .decided _ _
  | .writing _ _ | .dropping _ | .batch _ | .prefetching _ => false
  | _ => true

/-- Aborts other than those of rings, of refused calls and of a missing disk frame. -/
@[simp, reducible] def Abort.plain : Abort → Bool
  | .uninitialisedSubmit | .uninitialisedWait | .emptyWait | .getSqe | .noDiskPage | .mmapFailed
  | .munmapFailed => false
  | _ => true

/-- An action that keeps to a relation, and whose aborts are plain unless any will do. -/
abbrev Within (R : Env → Env → Prop) (any : Prop := True) :
    (β : Type) → (Env → Outcome Abort Env β) → Prop :=
  Relates R fun why => why.plain = true ∨ any

/-- An action that only looks at the state. -/
abbrev Looks : (β : Type) → (Env → Outcome Abort Env β) → Prop :=
  Within (fun e e' => e' = e) False

variable {R : Env → Env → Prop} {any : Prop}

/-- Where any abort will do, an action is judged by its successes. -/
theorem within_of_ok {f : Env → Outcome Abort Env β} (h : ∀ e b e', f e = .ok b e' → R e e') :
    Within R True β f := relates_intro h fun _ _ _ => .inr trivial

theorem within_modify {f : Env → Env} (h : ∀ e, R e (f e)) :
    Always (Within R any) (Prog.modify f : Paging Unit) := always_atomic h

/-- A program that only looks keeps to every reflexive relation. -/
@[simp low] theorem Threads.Prog.Always.within {p : Paging α} (h : Always Looks p)
    (hrefl : ∀ e, R e e) : Always (Within R any) p :=
  h.mono fun _ _ hf => hf.mono (fun e _ he => he ▸ hrefl e) fun _ hp => .inl (hp.resolve_right id)

theorem within_mono {R' : Env → Env → Prop} {p : Paging α} (h : Always (Within R any) p)
    (hR : ∀ e e', R e e' → R' e e') : Always (Within R') p :=
  h.mono fun _ _ hf => hf.mono hR fun _ _ => .inr trivial

theorem after_within {p : Paging α} {e : Env} (h : Always (Within R) p) (hrefl : ∀ e, R e e)
    (htrans : ∀ {e e₁ e₂}, R e e₁ → R e₁ e₂ → R e e₂) : After p e fun _ e' => R e e' :=
  after_relates h hrefl htrans

/-! Actions that only look. -/

@[simp] theorem looks_read (g : Env → α) : Always Looks (Prog.read g : Paging α) :=
  always_atomic fun _ => rfl

theorem within_fail (why : Abort) (h : why.plain = true ∨ any) :
    Always (Within R any) (Prog.fail why : Paging α) := ⟨fun _ => h, fun b => b.elim⟩

@[simp] theorem within_check (c : Bool) (why : Abort) :
    Always (Within R) (Prog.check c why : Paging Unit) :=
  always_ite trivial (within_fail why (.inr trivial))

@[simp] theorem within_failure (why : Abort) : Always (Within R) (Prog.fail why : Paging α) :=
  within_fail why (.inr trivial)

@[simp] theorem looks_fail {why : Abort} (h : why.plain = true) :
    Always Looks (Prog.fail why : Paging α) := within_fail why (.inl h)

@[simp] theorem looks_check {c : Bool} {why : Abort} (h : why.plain = true) :
    Always Looks (Prog.check c why : Paging Unit) :=
  always_ite trivial (looks_fail h)

@[simp] theorem looks_assert {c : Env → Bool} {why : Abort} (h : why.plain = true) :
    Always Looks (Prog.assert c why : Paging Unit) := by
  refine always_atomic fun e => ?_
  cases hc : c e with
  | true => simp
  | false => simpa using h

@[simp] theorem looks_field (d : PageId) (f : UserPage → α) : Always Looks (field d f) :=
  looks_read _

@[simp] theorem looks_assertPage (d : PageId) (c : UserPage → Bool) {why : Abort}
    (h : why.plain = true) : Always Looks (assertPage d c why) := looks_assert h

@[simp] theorem looks_readList (d : PageId) : Always Looks (readList d) := looks_read _

@[simp] theorem looks_assertList (d : PageId) (c : Option FifoList → Bool) {why : Abort}
    (h : why.plain = true) : Always Looks (assertList d c why) := looks_assert h

@[simp] theorem looks_numentries (l : FifoList) : Always Looks (numentries l) := looks_read _

@[simp] theorem looks_findPage (va : Nat) : Always Looks (findPage va) := looks_read _

@[simp] theorem looks_pagesizeOf (d : PageId) : Always Looks (pagesizeOf d) := looks_read _

@[simp] theorem looks_addInt (a b : Int) : Always Looks (addInt a b) :=
  always_bind (looks_check rfl) fun _ => trivial

/-! The other basic actions. -/

theorem within_enqueueThen (l : FifoList) (d : PageId) {aux : Env → Env}
    (h : ∀ e, e.sh.list d = none → R e (aux (e.enqueue l d))) :
    Always (Within R any) (enqueueFifoThen l d aux) := by
  refine always_atomic fun e => ?_
  by_cases hn : (e.sh.list d).isNone = true
  · rw [if_pos hn]
    exact h e (Option.isNone_iff_eq_none.mp hn)
  · rw [if_neg hn]
    exact .inl rfl

theorem within_dequeueThen (l : FifoList) {aux : PageId → Env → Env} (hrefl : ∀ e, R e e)
    (h : ∀ e d xs, e.sh.fifos.seq l = d :: xs → R e (aux d (e.dequeue l d))) :
    Always (Within R any) (dequeueFifoThen l aux) := by
  refine always_atomic fun e => ?_
  cases hq : e.sh.fifos.seq l with
  | nil => exact hrefl e
  | cons d ds => exact h e d ds hq

theorem within_tryremoveThen (l : Option FifoList) (d : PageId) {aux : Env → Env}
    (hrefl : ∀ e, R e e)
    (h : ∀ e q, l = some q → e.sh.list d = some q → R e (aux (e.remove q d))) :
    Always (Within R any) (pageListTryremovePageThen l d aux) := by
  refine always_atomic fun e => ?_
  cases l with
  | none => exact hrefl e
  | some l =>
    by_cases hl : e.sh.list d = some l
    · simp only [hl, if_true]
      exact h e l rfl hl
    · simp only [hl, if_false]
      exact hrefl e

theorem within_lookUp (va : Nat) (hrefl : ∀ e, R e e) (h : ∀ e d, R e (e.startLook d va)) :
    Always (Within R any) (lookUp va) := by
  refine always_atomic fun e => ?_
  cases hp : e.sh.pages va with
  | none => exact hrefl e
  | some d => exact h e d

theorem within_waitMigratingThen (d : PageId) {aux : Env → Env} (h : ∀ e, R e (aux e)) :
    Always (Within R any) (waitMigratingThen d aux) := by
  refine always_atomic fun e => ?_
  by_cases hm : (e.sh.page d).migrating = true
  · simp [hm]
  · simp only [hm]
    exact h e

theorem within_addPage (d : PageId)
    (h : ∀ e : Env, e.sh.pages (e.sh.page d).va = none → R e { e with sh := { e.sh with
      pages := Function.update e.sh.pages (e.sh.page d).va (some d) } }) :
    Always (Within R any) (addPage d) := by
  refine always_atomic fun e => ?_
  by_cases hn : (e.sh.pages (e.sh.page d).va).isNone = true
  · simp only [hn, if_true]
    exact h e (Option.isNone_iff_eq_none.mp hn)
  · simp only [hn]
    exact .inl rfl

theorem within_lockAllocator
    (h : ∀ e : Env, R e { e with sh := { e.sh with allocatorLock := true } }) :
    Always (Within R any) lockAllocator := by
  refine always_atomic fun e => ?_
  by_cases hl : e.sh.allocatorLock = true
  · simp [hl]
  · simp only [hl]
    exact h e

/-- Only the entry of a page that is mapped changes, and a dirty one does not become clean. -/
theorem within_ptGetBits (d : PageId) (hrefl : ∀ e, R e e)
    (hn : ∀ e va a b, R e (e.record (.flagsRead va a b)))
    (hs : ∀ e va p a b, e.sh.pte va = some p → (b = false → p.dirty = false) →
      R e ({ e with sh := e.sh.setPte va (some { p with accessed := a, dirty := b }) }.record
        (.flagsRead va a b))) : Always (Within R any) (ptGetBits d) := by
  have hlook {β : Type} {p : Paging β} (h : Always Looks p) : Always (Within R any) p :=
    h.within hrefl
  refine always_bind (hlook (by simp)) fun va => always_bind (hlook (looks_check rfl)) fun _ =>
    always_bind (by simp) fun a => always_bind (by simp) fun o => always_atomic fun e => ?_
  cases hp : e.sh.pte va with
  | none => exact hn e va _ _
  | some p =>
    refine hs e va p _ _ hp fun h => ?_
    simp only [seenBit, Bool.or_eq_false_iff] at h
    exact h.1

theorem within_extmemWpPage (d : PageId) (b : Bool) (hrefl : ∀ e, R e e)
    (h : ∀ e va, R e ({ e with sh := e.sh.protect va b }.record (.wpSet va b))) :
    Always (Within R any) (extmemWpPage d b) := by
  have hlook {β : Type} {p : Paging β} (h : Always Looks p) : Always (Within R any) p :=
    h.within hrefl
  refine always_bind (hlook (by simp)) fun va => always_bind (hlook (looks_check rfl)) fun _ =>
    always_bind (hlook (looks_check rfl)) fun _ => always_bind (always_atomic fun e => ?_) fun _ =>
    hlook (looks_check rfl)
  by_cases hv : e.sh.vma va = .uffd
  · rw [if_pos hv]
    exact h e va
  · rw [if_neg hv]
    exact hrefl e

theorem within_dropMapping (va : Nat) (hrefl : ∀ e, R e e)
    (h : ∀ e, R e ({ e with sh := e.sh.setPte va none }.record (.unmapped va))) :
    Always (Within R any) (dropMapping va) := by
  refine always_bind (always_atomic fun e => ?_) fun _ => (looks_check rfl).within hrefl
  by_cases hv : e.sh.vma va = .none
  · rw [if_pos hv]
    exact hrefl e
  · rw [if_neg hv]
    exact h e

theorem within_copyIn (d : PageId) (src : Buffer) (hrefl : ∀ e, R e e)
    (h : ∀ e va bytes,
      R e ({ e with sh := e.sh.setPte va (some ⟨bytes, false, false, false⟩) }.record
        (.copied va src))) : Always (Within R any) (copyIn d src) := by
  refine always_bind ((looks_field _ _).within hrefl) fun va =>
    always_bind (always_atomic fun e => ?_) fun _ => (looks_check rfl).within hrefl
  cases hb : e.bufferBytes src with
  | none => exact hrefl e
  | some bytes =>
    by_cases hv : e.sh.vma va = .uffd ∧ (e.sh.pte va).isNone = true
    · simp only [hv, and_self, if_true]
      exact h e va bytes
    · simp only [hv, if_false]
      exact hrefl e

theorem within_claimSwapin (d : PageId) (old : Option Nat) (hrefl : ∀ e, R e e)
    (hwait : ∀ e n, R e { e with sh := { e.sh with stats :=
      { e.sh.stats with migrationWaits := n } } })
    (hmine : ∀ e, R e (((e.setPage d fun p => { p with migrating := true }).startWork d).record
      (.claimed d))) : Always (Within R any) (claimSwapin d old) := by
  refine always_atomic fun e => ?_
  dsimp only
  by_cases hm : (e.sh.page d).migrating = true
  · rw [if_pos hm]
    exact hwait e _
  · rw [if_neg hm]
    by_cases hs : (e.sh.page d).swappedOut = false
    · rw [if_pos hs]
      exact hwait e _
    · rw [if_neg hs]
      by_cases hv : Option.any (· != (e.sh.page d).va) old = true
      · rw [if_pos hv]
        exact hrefl e
      · rw [if_neg hv]
        exact hmine e

theorem within_loadByte (addr : Nat) (hrefl : ∀ e, R e e)
    (h : ∀ e va q, R e { e with sh := e.sh.setPte va (some q) }) :
    Within R any (Option UInt8) (loadByte addr) := by
  intro e
  unfold loadByte
  cases e.sh.vma (pageBoundry addr) with
  | none => exact .inl rfl
  | plain => exact .inl rfl
  | uffd =>
    cases e.sh.pte (pageBoundry addr) with
    | none => exact hrefl e
    | some p => exact h e _ _

theorem within_storeByte (addr : Nat) (byte : UInt8) (hrefl : ∀ e, R e e)
    (h : ∀ e va q, R e ({ e with sh := e.sh.setPte va (some q) }.record (.stored addr byte))) :
    Within R any (Option Unit) (storeByte addr byte) := by
  intro e
  unfold storeByte
  cases e.sh.vma (pageBoundry addr) with
  | none => exact .inl rfl
  | plain => exact .inl rfl
  | uffd =>
    cases e.sh.pte (pageBoundry addr) with
    | none => exact hrefl e
    | some p =>
      dsimp only
      by_cases hw : p.wp = true
      · rw [if_pos hw]
        exact hrefl e
      · rw [if_neg hw]
        exact h e _ _

end ExtMem
