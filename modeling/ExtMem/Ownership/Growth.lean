import ExtMem.Ownership.Runs
import ExtMem.Sparing
import ExtMem.UthashPages

/-! The hash of the pages in runs in which nothing is unmapped: it only grows, by one page at a
time, as uthash wants its items to be added. -/
namespace ExtMem
open Threads Threads.Prog Uthash

/-- The hash is as before, or a page has come under its address. -/
def Gathered (s s' : Shared) : Prop :=
  s'.pages = s.pages ∨ ∃ d, s.pages (vas s d) = none ∧
    s'.pages = Function.update s.pages (vas s d) (some d)

/-- What an action does to the hash. -/
abbrev Gathers : (β : Type) → (Env → Outcome Abort Env β) → Prop :=
  Within fun e e' => Gathered e.sh e'.sh

theorem Gathered.found {s s' : Shared} (h : Gathered s s') {a : Nat} {d : PageId}
    (hd : s.pages a = some d) : s'.pages a = some d := by
  rcases h with h | ⟨c, hc, h⟩
  · rw [h]
    exact hd
  · rw [h, Function.update_of_ne]
    · exact hd
    · rintro rfl
      rw [hc] at hd
      cases hd

/-! The actions. -/

variable {α : Type}

theorem gathers_of_still {p : Paging α} (h : Always Still p) : Always Gathers p :=
  within_mono h fun _ _ hs => .inl (congrArg Skeleton.pages hs.skeleton)

theorem gathers_of_plain {p : Paging α} (h : Always Plain p) : Always Gathers p :=
  within_mono h fun _ _ hp => .inl hp.pages

theorem gathers_of_sparing {p : Paging α} (h : Always (Sparing true true) p) : Always Gathers p :=
  within_mono h fun _ _ hs => .inl hs.pages

/-! Faults. -/

private theorem gathers_resolveMissingFault (d : PageId) (a : Nat) :
    Always Gathers (resolveMissingFault d a) := by
  refine always_bind (gathers_of_still (by simp)) fun l =>
    always_bind (gathers_of_still (by simp)) fun _ => ?_
  refine always_bind (gathers_of_sparing (sparing_swapinAsync d)) fun _ =>
    always_bind (gathers_of_still (by simp)) fun _ => ?_
  refine always_bind (gathers_of_still (by simp)) fun _ =>
    always_bind (gathers_of_still (by simp)) fun _ => ?_
  refine always_bind (gathers_of_plain (by simp)) fun _ =>
    always_bind (gathers_of_still (by simp)) fun _ => ?_
  refine always_ite ?_ (gathers_of_still (by simp))
  exact always_bind (gathers_of_sparing (sparing_coreTryPrefetch a)) fun _ =>
    gathers_of_still (by simp)

private theorem gathers_handleMissingFault (d : PageId) :
    Always Gathers (handleMissingFault d) := by
  have hwait : Always Gathers (waitMigratingThen d (·.record (.resumed d))) :=
    gathers_of_plain (plain_waitMigratingThen _ fun e => PlainStep.record e rfl)
  refine always_bind (gathers_of_still (by simp)) fun _ =>
    always_bind (gathers_of_still (by simp)) fun a => ?_
  refine always_bind (gathers_of_plain (by simp)) fun claim => ?_
  cases claim with
  | mine => exact gathers_resolveMissingFault d a
  | busy => exact hwait
  | handled => exact hwait
  | moved => exact hwait

private theorem gathers_wonFirstFault (d : PageId) (a : Nat) :
    Always Gathers (wonFirstFault d a) := by
  refine always_bind (within_modify fun _ => .inl rfl) fun _ =>
    always_bind (gathers_of_plain (by simp)) fun _ => ?_
  refine always_bind (gathers_of_still (by simp)) fun _ =>
    always_bind (gathers_of_plain (by simp)) fun _ => ?_
  refine always_bind (gathers_of_still (by simp)) fun _ =>
    always_bind (gathers_of_still (by simp)) fun _ => ?_
  refine always_bind (within_addPage d fun _ h => .inr ⟨d, h, rfl⟩) fun _ =>
    always_bind (gathers_of_plain (by simp)) fun _ => ?_
  refine always_bind (gathers_of_still (by simp)) fun _ =>
    always_bind (within_modify fun _ => .inl rfl) fun _ => ?_
  refine always_bind (gathers_of_still (by simp)) fun _ =>
    always_bind (gathers_of_still (by simp)) fun _ => ?_
  refine always_bind (within_modify fun _ => .inl rfl) fun _ =>
    always_bind (gathers_of_plain (by simp)) fun _ => ?_
  refine always_bind (gathers_of_plain (by simp)) fun _ =>
    always_bind (gathers_of_still (by simp)) fun _ => ?_
  refine always_bind (gathers_of_still (by simp)) fun _ =>
    always_bind (gathers_of_still (by simp)) fun _ => ?_
  exact always_bind (gathers_of_still (by simp)) fun _ => gathers_of_still (by simp)

private theorem gathers_handleFirstFault (a : Nat) : Always Gathers (handleFirstFault a) := by
  refine always_bind (gathers_of_still (by simp)) fun _ =>
    always_bind (gathers_of_still (by simp)) fun _ => ?_
  refine always_bind (gathers_of_sparing (within_lrudiskPagefault vacating_spared
    scanning_spared)) fun newpage =>
    always_bind (gathers_of_plain (by simp)) fun _ => ?_
  refine always_bind (gathers_of_still (by simp)) fun page => ?_
  cases page with
  | some page =>
    refine always_bind (gathers_of_plain (by simp)) fun _ =>
      always_bind (gathers_of_plain (by simp)) fun _ => ?_
    exact gathers_of_still (by simp)
  | none => exact gathers_wonFirstFault newpage a

private theorem gathers_uswapSigHandler (a : Nat) : Always Gathers (uswapSigHandler a) := by
  refine always_bind (gathers_of_still (by simp)) fun _ =>
    always_bind (gathers_of_still (by simp)) fun page => ?_
  cases page with
  | none => exact always_bind (gathers_handleFirstFault _) fun _ => gathers_of_still (by simp)
  | some page =>
    have hlast : Always Gathers (do lookAway page; setInternalCall false) :=
      always_bind (gathers_of_still (by simp)) fun _ => gathers_of_still (by simp)
    refine always_bind (gathers_of_still (by simp)) fun out => always_ite ?_ ?_
    · exact always_bind (gathers_handleMissingFault page) fun _ => hlast
    · exact always_bind (gathers_of_still (by simp)) fun _ => hlast

private theorem gathers_access {attempt : Env → Outcome Abort Env (Option α)}
    (h : Still (Option α) attempt) (a : Nat) : Always Gathers (access a attempt) := by
  refine always_loop fun _ => always_bind (gathers_of_still (always_atomic h)) fun r => ?_
  cases r with
  | some a => trivial
  | none => exact always_bind (gathers_uswapSigHandler a) fun _ => trivial

private theorem gathers_libcMmap (a n : Nat) (flags : BitVec 32) :
    Always Gathers (libcMmap a n flags) := by
  refine always_bind always_answer fun refuse =>
    always_bind always_answer fun pick => always_atomic (within_of_ok fun e b e' he => ?_)
  generalize (if hasFlag flags mapFixed then a else pick) = p at he
  dsimp only at he
  split at he
  · cases he
    exact .inl rfl
  · split at he
    · cases he
      exact .inl rfl
    · cases he
      exact .inl rfl

private theorem gathers_extmemMmap (a n : Nat) (flags : BitVec 32) :
    Always Gathers (extmemMmap a n flags) := by
  refine always_bind (gathers_of_still (by simp)) fun _ =>
    always_bind (gathers_of_still (by simp)) fun _ => ?_
  refine always_bind (gathers_of_still (by simp)) fun _ =>
    always_bind (gathers_libcMmap ..) fun p => ?_
  cases p with
  | none => exact gathers_of_still (by simp)
  | some p =>
    have hlast (m : Nat) : Always Gathers (do
        setStats fun t => { t with memMmaped := m }
        setInternalCall false
        pure p : Paging Nat) :=
      always_bind (gathers_of_still (by simp)) fun _ =>
        always_bind (gathers_of_still (by simp)) fun _ => trivial
    refine always_bind (within_modify fun _ => .inl rfl) fun _ =>
      always_bind (within_modify fun _ => .inl rfl) fun _ => ?_
    refine always_ite (always_bind ?_ fun _ => hlast _) (hlast _)
    refine always_bind (gathers_of_still (by simp)) fun _ =>
      always_bind (gathers_of_still (by simp)) fun _ => ?_
    exact always_loop fun b =>
      always_ite (always_bind (gathers_handleFirstFault b) fun _ => trivial) trivial

private theorem gathers_mmapFilter (a n : Nat) (flags : BitVec 32) :
    Always Gathers (mmapFilter a n flags) := by
  refine always_ite trivial
    (always_ite trivial (always_bind (gathers_of_still (by simp)) fun _ => always_ite trivial ?_))
  refine always_bind (gathers_of_still (by simp)) fun _ =>
    always_ite trivial (always_ite trivial ?_)
  exact always_bind (gathers_extmemMmap ..) fun _ => trivial

theorem gathers_upkeep {p : Paging Unit} (h : Upkeep p) : Always Gathers p := by
  cases h with
  | load a => exact always_bind (gathers_access (still_loadByte a) a) fun _ => trivial
  | store a b => exact gathers_access (still_storeByte a b) a
  | prefetch a =>
    exact always_bind (gathers_of_sparing (sparing_coreTryPrefetch a)) fun _ => trivial
  | kswapd => exact gathers_of_plain (by simp)
  | shrinkActive k => exact always_bind (gathers_of_sparing (by simp)) fun _ => trivial
  | shrinkInactive k => exact always_bind (gathers_of_sparing (by simp)) fun _ => trivial
  | evictionworker => exact gathers_of_sparing (by simp)
  | evictionworkerVector => exact gathers_of_sparing (by simp)
  | mmap a n flags => exact always_bind (gathers_mmapFilter a n flags) fun _ => trivial

/-! Runs. -/

variable {dramsize disksize : Nat} {e : Env} {c c' c₀ : System} {t : Tid} {a : Nat} {d : PageId}

/-- In every configuration that is reached all threads run such programs. -/
private theorem reach_gathers (h₀ : ∀ t, Always Gathers (c₀.thr t))
    (h : Conf.Reach Upkeep anyStep c₀ c) (t : Tid) : Always Gathers (c.thr t) := by
  induction h generalizing t with
  | init => exact h₀ t
  | @step u c c' _ hst _ ih =>
    have hu := ih u
    have hnext {p : Paging Unit} (hp : Always Gathers p) :
        Always Gathers (Function.update c.thr u p t) := by
      by_cases htu : t = u
      · rw [htu, Function.update_self]
        exact hp
      · rw [Function.update_of_ne htu]
        exact ih t
    cases hst with
    | act hp _ =>
      rw [hp] at hu
      exact hnext (hu.2 _)
    | ask n hp =>
      rw [hp] at hu
      exact hnext (hu n)
    | iter hp =>
      rw [hp] at hu
      refine hnext ((hu.1 _).bind' fun r => ?_)
      cases r with
      | inl j => exact hu
      | inr b => exact hu.2 b
    | start _ hop => exact hnext (gathers_upkeep hop)

/-- So a step adds at most one page to the hash. -/
private theorem gathered_step (h : Always Gathers (c.thr t)) (hst : Conf.Step Upkeep t c c') :
    Gathered c.sh c'.sh := by
  cases hst with
  | act hp hf =>
    rw [hp] at h
    exact h.1.ok hf
  | ask n hp => exact .inl rfl
  | iter hp => exact .inl rfl
  | start _ _ => exact .inl rfl

private theorem reach_trans (h : Conf.Reach Upkeep anyStep c₀ c)
    (h' : Conf.Reach Upkeep anyStep c c') : Conf.Reach Upkeep anyStep c₀ c' := by
  induction h' with
  | init => exact h
  | step _ hst hr ih => exact .step ih hst hr

private theorem reach_found (h₀ : ∀ t, Always Gathers (c.thr t))
    (h : Conf.Reach Upkeep anyStep c c') (hd : c.sh.pages a = some d) : c'.sh.pages a = some d := by
  induction h with
  | init => exact hd
  | step hr hst _ ih => exact (gathered_step (reach_gathers h₀ hr _) hst).found ih

/-- A page that the hash finds under an address is found there ever after, under the same address;
and a step either leaves the hash alone or adds one page, which the hash did not have, under its
address, which was free. -/
theorem pages_stay_found (h : Launched dramsize disksize e)
    (hc : Conf.Reach Upkeep anyStep (System.start e) c) (hc' : Conf.Reach Upkeep anyStep c c') :
    (∀ a d, c.sh.pages a = some d → c'.sh.pages a = some d ∧ vas c'.sh d = vas c.sh d) ∧
    ∀ t c'', Conf.Step Upkeep t c' c'' → c''.sh.pages = c'.sh.pages ∨
      ∃ d, (∀ a, c'.sh.pages a ≠ some d) ∧ c'.sh.pages (vas c'.sh d) = none ∧
      c''.sh.pages = Function.update c'.sh.pages (vas c'.sh d) (some d) := by
  have hstart (t : Tid) : Always Gathers ((System.start e).thr t) := trivial
  have hall := reach_trans hc hc'
  refine ⟨fun a d hd => ?_, fun t c'' hst => ?_⟩
  · have hd' := reach_found (reach_gathers hstart hc) hc' hd
    exact ⟨hd', (va_of_pages h hall hd').trans (va_of_pages h hc hd).symm⟩
  · refine (gathered_step (reach_gathers hstart hall t) hst).imp_right ?_
    rintro ⟨d, hnone, hadd⟩
    refine ⟨d, fun a ha => ?_, hnone, hadd⟩
    have hva : vas c'.sh d = a := va_of_pages h hall ha
    rw [hva, ha] at hnone
    cases hnone

/-- The third thread adds its page, and all threads go on to the end. -/
def lateTurns : List (Conf.Turn Abort Shared Local Tid) :=
  [goOn 3 5, goOn 1 3000, goOn 2 3000, goOn 3 3000, goOn 4 3000]

theorem pages_stay_found_busyMachine :
    ∃ c', Conf.Reach Upkeep anyStep busyMachine c' ∧
      busyMachine.sh.pages (smallBase + 6 * pageSize) = none ∧
      c'.sh.pages (smallBase + 6 * pageSize) = some 4 ∧ busyMachine.sh.pages smallBase = some 0 ∧
      c'.sh.pages smallBase = some 0 ∧ vas c'.sh 0 = vas busyMachine.sh 0 := by
  have hplay : (busyMachine.play (fun _ _ => true) lateTurns).map
      (fun c' => c'.sh.pages (smallBase + 6 * pageSize)) = some (some 4) := by
    decide +kernel
  obtain ⟨c', hc, hadded⟩ := Option.map_eq_some_iff.mp hplay
  have hthen : Conf.Reach Upkeep anyStep busyMachine c' :=
    reach_schedule .init (by simp [lateTurns, goOn]) hc
  have hfound : busyMachine.sh.pages smallBase = some 0 := by decide +kernel
  exact ⟨c', hthen, by decide +kernel, hadded, hfound,
    (pages_stay_found launched_roomyMachine reach_busyMachine hthen).1 smallBase 0 hfound⟩

end ExtMem
