import ExtMem.Serial.Conserved
import ExtMem.Serial.Ranges

/-! New mappings over old ones: what is left of an older mapping when mmap returns. -/
namespace ExtMem
open Threads Threads.Prog

variable {n : Nat} {frames : List Frame} {k : Skeleton} {e : Env} {a : Nat}

/-- An access to this address faults, and the handler of the fault is that of first faults. -/
structure FaultsFirst (addr : Nat) (e : Env) : Prop where
  load : loadByte addr e = .ok none e
  store : ∀ byte, storeByte addr byte e = .ok none e
  handler : ∀ e', Runs (uswapSigHandler addr) e () e' ↔
    ∃ e₁, Runs (handleFirstFault (pageBoundry addr))
      { e with loc := { e.loc with internalCall := true } } () e₁ ∧
      e' = { e₁ with loc := { e₁.loc with internalCall := false } }

/-- A new mapping starts empty: no page of it was tracked before the call. A page of it that is not
tracked now has nothing mapped, an access to it is a first fault, and a load that touches it first
reads zero, as does a load of a page that the call has put in memory. -/
structure StartsEmpty (s s' : Shared) (p length : Nat) : Prop where
  fresh : ∀ a d, inRange p length a = true → s'.pages a = some d → s.pages a = none
  absent : ∀ a, a % pageSize = 0 → inRange p length a = true → s'.pages a = none →
    s'.vma a = .uffd ∧ s'.pte a = none
  first : ∀ addr, inRange p length (pageBoundry addr) = true → s'.pages (pageBoundry addr) = none →
    ∀ l : Local, FaultsFirst addr ⟨s', l⟩
  zero : ∀ addr, inRange p length (pageBoundry addr) = true → s'.pages (pageBoundry addr) = none →
    ∀ l : Local, After (userLoad addr) ⟨s', l⟩ fun byte _ => byte = 0
  populated : ∀ addr, inRange p length (pageBoundry addr) = true →
    (s'.pte (pageBoundry addr)).isSome = true →
    ∀ l : Local, After (userLoad addr) ⟨s', l⟩ fun byte _ => byte = 0

private theorem pageBoundry_mod (a : Nat) : pageBoundry a % pageSize = 0 := Nat.mul_mod_left _ _

/-- An access to an untracked page of a mapping goes to `handle_first_fault`. -/
theorem runs_handler_untracked {addr : Nat} {e' : Env} (hp : e.sh.pages (pageBoundry addr) = none) :
    Runs (uswapSigHandler addr) e () e' ↔ ∃ e₁, Runs (handleFirstFault (pageBoundry addr))
        { e with loc := { e.loc with internalCall := true } } () e₁ ∧
      e' = { e₁ with loc := { e₁.loc with internalCall := false } } := by
  constructor
  · intro h
    have hall : After (uswapSigHandler addr) e fun _ e' => ∃ e₁, Runs (handleFirstFault
        (pageBoundry addr)) { e with loc := { e.loc with internalCall := true } } () e₁ ∧
        e' = { e₁ with loc := { e₁.loc with internalCall := false } } := by
      unfold uswapSigHandler
      refine (after_bind _ _ _ _).mpr
        ((after_modify _ _ _).mpr ((after_bind _ _ _ _).mpr ((after_atomic _ _ _).mpr ?_)))
      intro o s he
      dsimp only at he
      rw [hp] at he
      cases he
      exact after_then (R := fun _ s => Runs _ _ () s) (fun _ _ hr => hr) fun _ s hr =>
        (after_modify _ _ _).mpr ⟨s, hr, rfl⟩
    exact hall _ _ h
  · rintro ⟨e₁, hr, rfl⟩
    have hlook :
        Runs (lookUp (pageBoundry addr)) { e with loc := { e.loc with internalCall := true } }
        none { e with loc := { e.loc with internalCall := true } } := by
      refine .act ?_ (.ret none _)
      dsimp only
      rw [hp]
    have hset (b : Bool) (s : Env) :
        Runs (setInternalCall b) s () { s with loc := { s.loc with internalCall := b } } :=
      .act rfl (.ret () _)
    exact (hset true e).bind (hlook.bind (hr.bind (hset false e₁)))

private theorem after_mappedLoad {addr : Nat} {pt : Pte} (hv : e.sh.vma (pageBoundry addr) = .uffd)
    (hpte : e.sh.pte (pageBoundry addr) = some pt) (hz : pt.bytes = fun _ => 0) :
    After (userLoad addr) e fun byte _ => byte = 0 := by
  unfold userLoad access
  refine after_loop (fun _ s => s = e) (fun _ s hs => ?_) rfl
  subst hs
  refine (after_bind _ _ _ _).mpr ((after_atomic _ _ _).mpr fun r s' he => ?_)
  unfold loadByte at he
  rw [hv, hpte] at he
  cases he
  exact (after_pure _ _ _).mpr (congrFun hz _)

private theorem after_firstLoad {addr : Nat} (h : Settled n frames e.sh.skeleton)
    (hv : e.sh.vma (pageBoundry addr) = .uffd) (hpte : e.sh.pte (pageBoundry addr) = none)
    (hp : e.sh.pages (pageBoundry addr) = none) :
    After (userLoad addr) e fun byte _ => byte = 0 := by
  unfold userLoad access
  refine after_loop (fun _ s => s = e ∨ s.sh.vma (pageBoundry addr) = .uffd ∧
    s.sh.pte (pageBoundry addr) = some .zeroed) (fun _ s hJ => ?_) (.inl rfl)
  rcases hJ with rfl | ⟨hv, hz⟩
  · have hfault : loadByte addr s = .ok none s := by
      unfold loadByte
      rw [hv, hpte]
    refine (after_bind _ _ _ _).mpr ((after_atomic _ _ _).mpr fun r s' he => ?_)
    rw [hfault] at he
    cases he
    refine after_then (fun _ s' hr => ?_) fun _ s' hs => (after_pure _ _ _).mpr (Or.inr hs)
    obtain ⟨s₂, hfirst, rfl⟩ := (runs_handler_untracked hp).mp hr
    generalize hs' : ({ s with loc := { s.loc with internalCall := true } } : Env) = s₁ at hfirst
    have hk : s₁.sh.skeleton = s.sh.skeleton := by rw [← hs']
    obtain ⟨⟨ht, -⟩, hz⟩ :=
      ((after_handleFirstFault hk h.whole).and (zeroed_handleFirstFault hk h.whole hp)) _ _ hfirst
    refine ⟨?_, hz⟩
    have hserves := (Leads.of_touched h ht).2
    rw [show s₂.sh.vma = s.sh.vma from hserves.vma]
    exact hv
  · refine (after_bind _ _ _ _).mpr ((after_atomic _ _ _).mpr fun r s' he => ?_)
    unfold loadByte at he
    rw [hv, hz] at he
    cases he
    exact (after_pure _ _ _).mpr rfl

/-! What the call maps holds zeros. -/

/-- What is mapped after a step was mapped before with the same bytes, or holds zeros. -/
def Blanked (e e' : Env) : Prop :=
  ∀ a pt', e'.sh.pte a = some pt' →
    (pt'.bytes = fun _ => 0) ∨ ∃ pt, e.sh.pte a = some pt ∧ pt.bytes = pt'.bytes

/-- Every action is such a step. -/
abbrev Blanks : (β : Type) → (Env → Outcome Abort Env β) → Prop := Within Blanked

private theorem Blanked.refl (e : Env) : Blanked e e := fun _ pt h => .inr ⟨pt, h, rfl⟩

private theorem blanks_of_gently {α : Type} {u : Bool} {p : Paging α} (h : Always (Gently u) p) :
    Always Blanks p :=
  within_mono h fun _ _ hg a pt' hpt => by
    obtain ⟨pt, hpt, hb, -⟩ := hg.mapped a pt' hpt
    exact .inr ⟨pt, hpt, hb⟩

private theorem Blanked.of_pte {e e' : Env} (h : e'.sh.pte = e.sh.pte) : Blanked e e' :=
  fun _ pt hpt => .inr ⟨pt, h ▸ hpt, rfl⟩

private theorem blanks_of_looks {α : Type} {p : Paging α} (h : Always Looks p) : Always Blanks p :=
  h.within .refl

private theorem blanks_copyIn (d : PageId) : Always Blanks (copyIn d .pageCache) := by
  refine always_bind (blanks_of_looks (by simp)) fun va =>
    always_bind (always_atomic (within_of_ok fun e b e' he => ?_)) fun done =>
    blanks_of_looks (by simp)
  dsimp only [Threads.Ctx.bufferBytes] at he
  split at he
  · cases he
    intro a pt hpt
    have hpt : Function.update e.sh.pte va (some ⟨fun _ => 0, false, false, false⟩) a = some pt :=
      hpt
    by_cases ha : a = va
    · rw [ha, Function.update_self] at hpt
      cases hpt
      exact .inl rfl
    · rw [Function.update_of_ne ha] at hpt
      exact .inr ⟨pt, hpt, rfl⟩
  · cases he
    exact .refl _

private theorem blanks_wonFirstFault (d : PageId) (a : Nat) :
    Always Blanks (wonFirstFault d a) := by
  have hgently {p : Paging Unit} (hp : Always (Gently true) p) : Always Blanks p :=
    blanks_of_gently hp
  refine always_bind (within_modify fun _ => .of_pte rfl) fun _ =>
    always_bind (hgently (by simp)) fun _ => ?_
  refine always_bind (hgently (by simp)) fun _ => always_bind (hgently (by simp)) fun _ => ?_
  refine always_bind (hgently (by simp)) fun _ => always_bind (hgently (by simp)) fun _ => ?_
  refine always_bind (within_addPage d fun _ _ => .of_pte rfl) fun _ =>
    always_bind (within_modify fun _ => .of_pte rfl) fun _ => ?_
  refine always_bind (within_modify fun _ => .of_pte rfl) fun _ =>
    always_bind (within_modify fun _ => .of_pte rfl) fun _ => ?_
  refine always_bind (hgently (by simp)) fun _ => always_bind (blanks_copyIn d) fun _ => ?_
  refine always_bind (within_modify fun _ => .of_pte rfl) fun _ =>
    always_bind (hgently (by simp)) fun _ => always_bind (hgently (by simp)) fun _ => ?_
  refine always_bind (blanks_of_looks (by simp)) fun _ =>
    always_bind (hgently (by simp)) fun _ => ?_
  exact always_bind (hgently (by simp)) fun _ =>
    always_bind (hgently (by simp)) fun _ => hgently (by simp)

private theorem blanks_handleFirstFault (a : Nat) : Always Blanks (handleFirstFault a) := by
  refine always_bind (blanks_of_gently (u := true) (by simp)) fun _ =>
    always_bind (blanks_of_gently (u := true) (by simp)) fun _ => ?_
  refine always_bind (blanks_of_gently (u := true) ?_) fun newpage =>
    always_bind (within_lockAllocator fun _ => .of_pte rfl) fun _ => ?_
  · exact within_lrudiskPagefault vacating_gentle scanning_gentle
  · refine always_bind (blanks_of_looks (by simp)) fun page => ?_
    cases page with
    | none => exact blanks_wonFirstFault newpage a
    | some page =>
      refine always_bind (within_modify fun _ => .of_pte rfl) fun _ =>
        always_bind (blanks_of_gently (u := true) ?_) fun _ =>
        within_waitMigratingThen page .refl
      exact always_bind (by simp) fun _ => always_bind (by simp) fun _ => by simp

/-- What is mapped in the range holds zeros. -/
private def Blank (p length : Nat) (e : Env) : Prop :=
  ∀ a, inRange p length a = true → ∀ pt, e.sh.pte a = some pt → pt.bytes = fun _ => 0

private theorem Blank.after {α : Type} {q : Paging α} {p length : Nat} (h : Blank p length e)
    (hq : Always Blanks q) : After q e fun _ e' => Blank p length e' :=
  fun _ _ hr => hq.runs (I := Blank p length) (fun _ _ hf _ _ _ hs he a ha pt hpt =>
    (hf.ok he a pt hpt).elim id fun ⟨pt₀, hpt₀, hb⟩ => hb.symm.trans (hs a ha pt₀ hpt₀)) hr h

private theorem blank_mmapFilter {addr length : Nat} {flags : BitVec 32} :
    After (mmapFilter addr length flags) e fun r e' =>
        ∀ p, r = some p → Blank p (pageRoundUp length) e' := by
  have hno : After (pure none : Paging (Option Nat)) e fun r e' =>
      ∀ p, r = some p → Blank p (pageRoundUp length) e' := (after_pure _ _ _).mpr nofun
  have hmap : After (extmemMmap addr length flags) e fun p e' =>
      Blank p (pageRoundUp length) e' := by
    unfold extmemMmap
    refine (after_bind _ _ _ _).mpr
      ((after_modify _ _ _).mpr ((after_bind _ _ _ _).mpr ((after_assert _ _ _ _).mpr fun _ => ?_)))
    refine after_check fun _ => ?_
    dsimp only
    refine after_then (after_libcMmap rfl) fun p e hp => ?_
    cases p with
    | none => exact (after_fail _ _ _).mpr trivial
    | some p =>
      have hblank : Blank p (pageRoundUp length) e := fun a ha pt hpt => by
        rw [hp.2.2 a ha] at hpt
        cases hpt
      have hlast {e : Env} (h : Blank p (pageRoundUp length) e) : After (do
          setStats fun t => { t with memMmaped := pageRoundUp length }
          setInternalCall false
          pure p : Paging Nat) e fun p e' => Blank p (pageRoundUp length) e' :=
        after_then (h.after (within_modify fun _ => .of_pte rfl)) fun _ e h =>
          after_then (h.after (within_modify fun _ => .of_pte rfl)) fun _ e h =>
            (after_pure _ _ _).mpr h
      refine after_then (hblank.after (within_modify fun _ => .of_pte rfl)) fun _ e h => ?_
      refine after_then (h.after (within_modify fun _ => .of_pte rfl)) fun _ e h => ?_
      refine (after_ite _ _ _ _).mpr
        ⟨fun _ => after_then (h.after ?_) fun _ e h => hlast h, fun _ => hlast h⟩
      refine always_bind (blanks_of_gently (u := true) (by simp)) fun _ =>
        always_bind (blanks_of_gently (u := true) (by simp)) fun _ => ?_
      exact always_loop fun b =>
        always_ite (always_bind (blanks_handleFirstFault b) fun _ => trivial) trivial
  unfold mmapFilter
  refine (after_ite _ _ _ _).mpr
    ⟨fun _ => hno, fun _ => (after_ite _ _ _ _).mpr ⟨fun _ => hno, fun _ => ?_⟩⟩
  refine (after_bind _ _ _ _).mpr
    ((after_read _ _ _).mpr ((after_ite _ _ _ _).mpr ⟨fun _ => hno, fun _ => ?_⟩))
  refine (after_bind _ _ _ _).mpr
    ((after_read _ _ _).mpr ((after_ite _ _ _ _).mpr ⟨fun _ => hno, fun _ => ?_⟩))
  refine (after_ite _ _ _ _).mpr
    ⟨fun _ => hno, fun _ => after_then hmap fun p e h => (after_pure _ _ _).mpr fun q hq => ?_⟩
  cases hq
  exact h

/-- Between two operations, a mapping that mmap returns starts empty if and only if it was not
asked for with MAP_FIXED over a page that is tracked. -/
theorem startsEmpty_iff {dramsize disksize : Nat} {c : System} (h : Paused dramsize disksize c)
    (t : Tid) (addr length : Nat) (flags : BitVec 32) (p : Nat) (e : Env)
    (hr : Runs (mmapFilter addr length flags) ⟨c.sh, c.loc t⟩ (some p) e) :
    StartsEmpty c.sh e.sh p (pageRoundUp length) ↔ ¬ (hasFlag flags mapFixed = true ∧
        ∃ a, inRange addr (pageRoundUp length) a = true ∧ (c.sh.pages a).isSome) := by
  have hset := h.settled
  obtain ⟨hm, hpop⟩ := after_mmapFilter rfl hset _ _ hr
  constructor
  · rintro hs ⟨hf, a, ha, hsome⟩
    obtain ⟨d, hd⟩ := Option.isSome_iff_exists.mp hsome
    rw [← hm.placed.fixed hf] at ha
    rw [hs.fresh a d ha (hm.stays a d hd)] at hd
    cases hd
  · intro hno
    have hnone : ∀ a, inRange p (pageRoundUp length) a = true → c.sh.pages a = none := by
      refine untracked_of_placed hset hm.placed fun hf a ha => ?_
      by_contra hd
      exact hno ⟨hf, a, ha, Option.isSome_iff_ne_none.mpr hd⟩
    have habsent (a : Nat) (hal : a % pageSize = 0) (ha : inRange p (pageRoundUp length) a = true)
        (hn : e.sh.pages a = none) : e.sh.vma a = .uffd ∧ e.sh.pte a = none := by
      rcases hpop with hpop | hpop
      · exact absurd hn (hpop a hal ha)
      · refine ⟨?_, hpop a ha⟩
        rw [show e.sh.vma = _ from hm.vma]
        exact if_pos ha
    refine ⟨fun a d ha _ => hnone a ha, habsent, fun addr ha hn l => ?_, fun addr ha hn l => ?_,
      fun addr ha hsome l => ?_⟩
    · obtain ⟨hv, hpte⟩ := habsent _ (pageBoundry_mod addr) ha hn
      refine ⟨?_, fun byte => ?_, fun e' => runs_handler_untracked hn⟩
      · simp only [loadByte, hv, hpte]
      · simp only [storeByte, hv, hpte]
    · obtain ⟨hv, hpte⟩ := habsent _ (pageBoundry_mod addr) ha hn
      exact after_firstLoad (e := ⟨e.sh, l⟩) hm.settled hv hpte hn
    · obtain ⟨pt, hpt⟩ := Option.isSome_iff_exists.mp hsome
      have hv : e.sh.vma (pageBoundry addr) = .uffd := by
        rw [show e.sh.vma = _ from hm.vma]
        exact if_pos ha
      exact after_mappedLoad (e := ⟨e.sh, l⟩) hv hpt (blank_mmapFilter _ _ hr p rfl _ ha pt hpt)

/-- Where no descriptor has an address no page is tracked. -/
private theorem untracked_of_vas {dramsize disksize p length : Nat}
    (h : Paused dramsize disksize (System.start e)) (hp : p ≠ 0)
    (hout : ∀ d < initTotal dramsize disksize, inRange p length (e.sh.page d).va = false) :
    ¬ ∃ a, inRange p length a = true ∧ ((System.start e).sh.pages a).isSome = true := by
  rintro ⟨a, ha, hsome⟩
  obtain ⟨d, hd⟩ := Option.isSome_iff_exists.mp hsome
  have ha0 : a ≠ 0 := by
    rintro rfl
    simp only [inRange, Bool.and_eq_true, decide_eq_true_eq] at ha
    exact hp (Nat.le_zero.mp ha.1)
  obtain ⟨hlt, hva⟩ := (h.settled.whole.hash a d ha0).mp hd
  rw [← show (e.sh.page d).va = a from hva, hout d hlt] at ha
  cases ha

/-- A second mapping, next to one with pages in memory and swapped out, starts empty. -/
theorem startsEmpty_iff_evicted :
    evictedMachine.sh.pages smallBase = some 0 ∧ (evictedMachine.sh.page 1).swappedOut = true ∧
    ∃ p e, Runs (mmapFilter (smallBase + minMmapLength) minMmapLength
        (mapAnonymous ||| mapFixed ||| mapPrivate)) ⟨(System.start evictedMachine).sh,
        (System.start evictedMachine).loc 0⟩ (some p) e ∧
      StartsEmpty (System.start evictedMachine).sh e.sh p (pageRoundUp minMmapLength) := by
  have hexec : ((exec 300 [] (mmapFilter (smallBase + minMmapLength) minMmapLength
      (mapAnonymous ||| mapFixed ||| mapPrivate))
      (⟨(System.start evictedMachine).sh, (System.start evictedMachine).loc 0⟩ : Env)).map fun x =>
      x.1) = some (some (smallBase + minMmapLength)) := by
    decide +kernel
  obtain ⟨⟨r, e⟩, he, hx⟩ := Option.map_eq_some_iff.mp hexec
  dsimp only at hx
  subst hx
  have hr := exec_runs he
  have hout : ∀ d < initTotal (2 * pageSize) (2 * pageSize), inRange (smallBase + minMmapLength)
      (pageRoundUp minMmapLength) (evictedMachine.sh.page d).va = false := by
    decide +kernel
  have hnone := untracked_of_vas paused_evicted (by decide) hout
  exact ⟨by decide +kernel, by decide +kernel, smallBase + minMmapLength, e, hr,
    (startsEmpty_iff paused_evicted 0 _ _ _ _ e hr).mpr fun h => hnone h.2⟩

/-- A page that was stored to is still tracked after the range was mapped again in place. -/
theorem remapped_not_empty :
    ∃ c, Paused (2 * pageSize) (2 * pageSize) c ∧
      ∃ p e, Runs (mmapFilter smallBase minMmapLength (mapAnonymous ||| mapFixed ||| mapPrivate))
        ⟨c.sh, c.loc 0⟩ (some p) e ∧ ¬ StartsEmpty c.sh e.sh p (pageRoundUp minMmapLength) := by
  refine ⟨_, launched_smallMachine.paused (l := [mapStep, storeStep 0 7])
    (by simp [operation_mapStep, operation_storeStep]) (by decide +kernel), ?_⟩
  have hexec :
      ((exec 300 [] (mmapFilter smallBase minMmapLength (mapAnonymous ||| mapFixed ||| mapPrivate))
      (⟨(System.start ((smallMachine false).story [mapStep, storeStep 0 7])).sh,
      (System.start ((smallMachine false).story [mapStep, storeStep 0 7])).loc 0⟩ : Env)).map
      fun x => (x.1, (x.2.sh.pages smallBase).isSome)) = some (some smallBase, true) := by
    decide +kernel
  have hbefore : ((System.start ((smallMachine false).story [mapStep, storeStep 0 7])).sh.pages
      smallBase).isSome = true := by
    decide +kernel
  obtain ⟨⟨r, e⟩, he, hx⟩ := Option.map_eq_some_iff.mp hexec
  obtain ⟨hx, hsome⟩ := Prod.mk.inj hx
  dsimp only at hx hsome
  subst hx
  refine ⟨smallBase, e, exec_runs he, fun hs => ?_⟩
  obtain ⟨d, hd⟩ := Option.isSome_iff_exists.mp hsome
  rw [hs.fresh smallBase d (by decide +kernel) hd] at hbefore
  cases hbefore

end ExtMem
