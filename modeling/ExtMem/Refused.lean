import ExtMem.Operations
import ExtMem.Walks

/-! What becomes of a call of mmap or munmap that the kernel refuses. -/
namespace ExtMem
open Threads Threads.Prog

/-- The value by which mmap reports failure. -/
def mapFailed : Nat := 2 ^ 64 - 1

/-- Since a state the kernel has refused a call. -/
def Refused (e e' : Env) : Prop := (e.loc.tid, Event.refused) ∈ newEvents e.sh e'.sh

/-- What a refused call must leave alone: the page hash, the descriptors and the lists they
are on, the counters and `internal_call`. -/
structure Unchanged (e e' : Env) : Prop where
  pages : e'.sh.pages = e.sh.pages
  page : e'.sh.page = e.sh.page
  seq : e'.sh.fifos.seq = e.sh.fifos.seq
  stats : e'.sh.stats = e.sh.stats
  internalCall : e'.loc.internalCall = e.loc.internalCall

/-- An intercepted call passes a refusal on: the process goes on, the program gets the failure
as its result and nothing else has changed. -/
def PassesOn {α : Type} (call : Paging α) (failure : α) (e : Env) : Prop :=
  (∀ why e', Aborts call e why e' → ¬ Refused e e') ∧
    ∀ r e', Runs call e r e' → Refused e e' → r = failure ∧ Unchanged e e'

/-- A call of mmap that `mmap_filter` redirects to the pager. -/
structure MmapRedirected (length : Nat) (flags : BitVec 32) (e : Env) : Prop where
  anonymous : hasFlag flags mapAnonymous = true
  notStack : hasFlag flags mapStack = false
  external : e.loc.internalCall = false
  isInit : e.sh.isInit = true
  long : minMmapLength ≤ length

private theorem runs_modify (f : Env → Env) (e : Env) :
    Runs (Prog.modify f : Paging Unit) e () (f e) :=
  .act rfl (.ret () _)

private theorem runs_read {α : Type} (g : Env → α) (e : Env) :
    Runs (Prog.read g : Paging α) e (g e) e :=
  .act rfl (.ret _ _)

private theorem runs_assert {c : Env → Bool} {why : Abort} {e : Env} (h : c e = true) :
    Runs (Prog.assert c why : Paging Unit) e () e :=
  .act (by simp [h]) (.ret () _)

private theorem runs_check {c : Bool} {why : Abort} {e : Env} (h : c = true) :
    Runs (Prog.check c why : Paging Unit) e () e := by
  subst h
  exact .ret () e

private theorem aborts_fail {α : Type} (why : Abort) (e : Env) :
    Aborts (Prog.fail why : Paging α) e why e :=
  .here rfl

private theorem refused_of_cons {e e' : Env} {x : List (Tid × Event)}
    (h : e'.sh.log = (e.loc.tid, .refused) :: (x ++ e.sh.log)) : Refused e e' := by
  rw [Refused,
    newEvents_of_append (show e'.sh.log = ((e.loc.tid, .refused) :: x) ++ e.sh.log from h)]
  exact List.mem_cons_self

/-- Every redirected mmap can be refused, and then the process aborts. -/
theorem mmap_aborts (addr : Nat) {length : Nat} {flags : BitVec 32}
    {e : Env} (h : MmapRedirected length flags e) :
    ∃ e', Aborts (mmapFilter addr length flags) e .mmapFailed e' ∧ Refused e e' := by
  have hlen : (length != 0) = true := by
    have hpos : 0 < minMmapLength := by decide
    have := h.long
    simp
    omega
  obtain ⟨e₁, he₁⟩ : ∃ e₁ : Env, e₁ = { e with loc := { e.loc with internalCall := true } } :=
    ⟨_, rfl⟩
  have hrefuse :
      Runs (libcMmap addr (pageRoundUp length) (mmapFlags flags)) e₁ none (e₁.record .refused) := by
    refine .ask 1 (.ask 0 (.act (b := none) ?_ (.ret none _)))
    rw [if_pos (.inl rfl)]
  have hpager : Aborts (extmemMmap addr length flags) e .mmapFailed (e₁.record .refused) := by
    refine Runs.bind_aborts (runs_modify _ e) ?_
    rw [← he₁]
    refine Runs.bind_aborts (runs_assert (by rw [he₁]; exact h.isInit)) ?_
    exact Runs.bind_aborts (runs_check hlen) (Runs.bind_aborts hrefuse (aborts_fail _ _))
  refine ⟨e₁.record .refused, ?_, refused_of_cons (x := []) (by rw [he₁]; rfl)⟩
  unfold mmapFilter
  rw [if_neg (by rw [h.anonymous]; decide), if_neg (by rw [h.notStack]; decide)]
  refine Runs.bind_aborts (runs_read _ e) ?_
  rw [h.external, if_neg (by decide)]
  refine Runs.bind_aborts (runs_read _ e) ?_
  rw [h.isInit, if_neg (by decide), if_neg (Nat.not_lt.mpr h.long)]
  exact Aborts.bind_left hpager

/-- What no action of the walk does away with: the events before it. -/
def Grown (e e' : Env) : Prop := e'.loc.tid = e.loc.tid ∧ ∃ x, e'.sh.log = x ++ e.sh.log

private theorem Grown.of_log {e e' : Env} (x : List (Tid × Event)) (ht : e'.loc.tid = e.loc.tid)
    (hl : e'.sh.log = x ++ e.sh.log) : Grown e e' := ⟨ht, x, hl⟩

private theorem releasing_grown : Releasing Grown where
  refl _ := .of_log [] rfl rfl
  trans := fun ⟨h₁, x, hx⟩ ⟨h₂, y, hy⟩ =>
    .of_log (y ++ x) (h₂.trans h₁) (by rw [hy, hx, List.append_assoc])
  enqueue _ _ _ _ _ := .of_log [_] rfl rfl
  dequeue _ _ _ _ _ _ := .of_log [_] rfl rfl
  remove _ _ _ _ _ := .of_log [_] rfl rfl
  auxiliary _ _ _ _ := .of_log [] rfl rfl
  record _ _ _ _ _ := .of_log [_] rfl rfl
  removeAny _ _ _ := .of_log [_] rfl rfl
  write _ _ _ _ := .of_log [] rfl rfl
  forget _ _ _ := .of_log [] rfl rfl

/-- The state in which the walk of `extmem_munmap` starts. -/
def Threads.Ctx.unmapping (e : Env) : Env :=
  ⟨{ e.sh with allocatorLock := true }, { e.loc with internalCall := true }⟩

/-- Every intercepted munmap whose walk ends can be refused, and then the process aborts. -/
theorem munmap_aborts {addr length : Nat} {e e₁ : Env} (hi : e.loc.internalCall = false)
    (hl : e.sh.allocatorLock = false) (hw : Runs (unmapWalk addr length) e.unmapping () e₁) :
    ∃ e', Aborts (munmapFilter addr length) e .munmapFailed e' ∧ Refused e e' := by
  have hgrown : Grown e.unmapping e₁ :=
    after_within (within_unmapWalk releasing_grown addr length) releasing_grown.refl
      releasing_grown.trans () e₁ hw
  obtain ⟨htid, x, hlog⟩ : Grown e e₁ := hgrown
  have hrefuse : Runs (libcMunmap addr length) e₁ false (e₁.record .refused) := by
    refine .ask 1 (.act (b := false) ?_ (.ret false _))
    rw [if_pos (.inl rfl)]
  have hlock : Runs (lockAllocator : Paging Unit) ⟨e.sh, { e.loc with internalCall := true }⟩
      () e.unmapping := by
    refine .act (b := ()) ?_ (.ret () _)
    rw [if_neg (by rw [hl]; decide)]
    rfl
  refine ⟨e₁.record .refused, ?_, refused_of_cons (x := x) (by rw [← htid, ← hlog]; rfl)⟩
  unfold munmapFilter
  refine Runs.bind_aborts (runs_read _ e) ?_
  rw [hi, if_neg (by decide)]
  refine Aborts.bind_left (Runs.bind_aborts (runs_modify _ e) (Runs.bind_aborts hlock ?_))
  exact Runs.bind_aborts hw (Runs.bind_aborts hrefuse (Aborts.bind_left (aborts_fail _ _)))

/-- The hooks pass no refusal on: not for any redirected mmap, and not for any intercepted
munmap that gets as far as the kernel. -/
theorem refusals_not_passed_on (addr length : Nat) (e : Env) :
    (∀ flags : BitVec 32, MmapRedirected length flags e →
        ¬ PassesOn (mmapFilter addr length flags) (some mapFailed) e) ∧
    ∀ (failure : Bool) (e₁ : Env), e.loc.internalCall = false → e.sh.allocatorLock = false →
      Runs (unmapWalk addr length) e.unmapping () e₁ →
      ¬ PassesOn (munmapFilter addr length) failure e := by
  refine ⟨fun flags h hp => ?_, fun failure e₁ hi hl hw hp => ?_⟩
  · obtain ⟨e', ha, hr⟩ := mmap_aborts addr h
    exact hp.1 _ _ ha hr
  · obtain ⟨e', ha, hr⟩ := munmap_aborts hi hl hw
    exact hp.1 _ _ ha hr

/-- Neither a second mapping nor the unmapping of three tracked pages, of which one has a reserve
and one is swapped out. -/
theorem refusals_not_passed_on_evicted :
    ¬ PassesOn (mmapFilter 0 minMmapLength (mapAnonymous ||| mapPrivate))
        (some mapFailed) evictedMachine ∧
    (∀ i < 3, (evictedMachine.sh.pages (smallBase + i * pageSize)).isSome = true) ∧
    ¬ PassesOn (munmapFilter smallBase (3 * pageSize)) false evictedMachine := by
  have hwalk : (exec 3000 [] (unmapWalk smallBase (3 * pageSize)) evictedMachine.unmapping).isSome =
      true := by
    decide +kernel
  refine ⟨?_, by decide +kernel, ?_⟩
  · exact (refusals_not_passed_on 0 minMmapLength evictedMachine).1 (mapAnonymous ||| mapPrivate)
      ⟨by decide, by decide, by decide +kernel, by decide +kernel, Nat.le_refl _⟩
  · exact (refusals_not_passed_on smallBase (3 * pageSize) evictedMachine).2 false _
      (by decide +kernel) (by decide +kernel) (runs_after hwalk)

/-- A page is touched and its unmapping refused: the process aborts when the page is no longer
tracked. -/
theorem refused_munmap_forgets :
    ¬ PassesOn (munmapFilter smallBase pageSize) false
        ((smallMachine false).story [mapStep, loadStep 0]) ∧
    ((smallMachine false).story [mapStep, loadStep 0]).sh.pages smallBase = some 0 ∧ ∃ e',
      Aborts (munmapFilter smallBase pageSize) ((smallMachine false).story [mapStep, loadStep 0])
        .munmapFailed e' ∧ e'.sh.pages smallBase = none := by
  have hexec : ((execAbort 300 [1] (munmapFilter smallBase pageSize) ((smallMachine false).story
      [mapStep, loadStep 0])).map fun x => (x.1, x.2.sh.pages smallBase, decide ((0,
      Event.refused) ∈ newEvents ((smallMachine false).story [mapStep, loadStep 0]).sh x.2.sh))) =
      some (.munmapFailed, none, true) := by
    decide +kernel
  obtain ⟨⟨why, e⟩, he, hx⟩ := Option.map_eq_some_iff.mp hexec
  obtain ⟨rfl, hp, hr⟩ : why = .munmapFailed ∧ e.sh.pages smallBase = none ∧ _ := by simpa using hx
  have htid : ((smallMachine false).story [mapStep, loadStep 0]).loc.tid = 0 := by decide +kernel
  have ha := execAbort_aborts he
  refine ⟨fun h => h.1 _ _ ha ?_, by decide +kernel, e, ha, hp⟩
  rw [Refused, htid]
  simpa using hr

end ExtMem
