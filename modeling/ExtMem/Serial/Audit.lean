import Mathlib.Data.Set.Card
import ExtMem.Serial.Moves

/-! The counters of the tracked pages, and the operations of user accesses and of first faults
that change them. -/
namespace ExtMem
open Threads Threads.Prog

variable {n : Nat} {frames : List Frame} {k : Skeleton} {x r : PageId} {e e' : Env} {s s' : Shared}
  {a m : Nat}
  {h : Nat × Nat × Nat × Nat} {u d b : Nat} {α β : Type}

/-! Tracked pages. -/

/-- The addresses whose pages are tracked. Address zero is the entry that keeps the hash from
becoming empty. -/
def trackedSet (pages : Nat → Option PageId) : Set Nat := {a | a ≠ 0 ∧ pages a ≠ none}

noncomputable def tracked (pages : Nat → Option PageId) : Nat := (trackedSet pages).ncard

private theorem tracked_injOn (h : Settled n frames k) :
    (∀ a ∈ trackedSet k.pages, (k.pages a).getD 0 ∈ (Finset.range n : Set Nat)) ∧
      Set.InjOn (fun a => (k.pages a).getD 0) (trackedSet k.pages) := by
  have hof {a : Nat} (ha : a ∈ trackedSet k.pages) :
      (k.pages a).getD 0 < n ∧ (k.page ((k.pages a).getD 0)).va = a := by
    obtain ⟨d, hd⟩ := Option.ne_none_iff_exists'.mp ha.2
    rw [hd]
    exact h.of_hash ha.1 hd
  refine ⟨fun a ha => Finset.mem_coe.mpr (Finset.mem_range.mpr (hof ha).1),
    fun a ha a' ha' hd => ?_⟩
  have hva := (hof ha).2
  dsimp only at hd
  rw [hd, (hof ha').2] at hva
  exact hva.symm

theorem finite_trackedSet (h : Settled n frames k) : (trackedSet k.pages).Finite :=
  .of_injOn (fun a ha => (tracked_injOn h).1 a ha) (tracked_injOn h).2 (Finset.finite_toSet _)

/-- There are no more tracked pages than descriptors. -/
theorem tracked_le (h : Settled n frames k) : tracked k.pages ≤ n := by
  have hle :=
    Set.ncard_le_ncard_of_injOn _ (tracked_injOn h).1 (tracked_injOn h).2 (Finset.finite_toSet _)
  rwa [Set.ncard_coe_finset, Finset.card_range] at hle

/-- A new address is one more. -/
theorem tracked_update (h : Settled n frames k) (ha : a ≠ 0) (hp : k.pages a = none) (r : PageId) :
    tracked (Function.update k.pages a (some r)) = tracked k.pages + 1 := by
  have hset : trackedSet (Function.update k.pages a (some r)) = insert a (trackedSet k.pages) := by
    ext y
    by_cases hy : y = a
    · subst hy
      simp [trackedSet, ha]
    · simp [trackedSet, hy]
  unfold tracked
  rw [hset, Set.ncard_insert_of_notMem (fun hm => hm.2 hp) (finite_trackedSet h)]

/-! The books of a state between operations. -/

/-- All counters are right but the one of the mapped bytes, which is this. -/
structure Audited (n : Nat) (frames : List Frame) (m : Nat) (s : Shared) : Prop where
  settled : Settled n frames s.skeleton
  tally : Tally s.stats.held 0 0 0 s
  mmaped : s.stats.memMmaped = m
  allocated : s.stats.memAllocated = pageSize * tracked s.pages
  pages : s.stats.pagesAllocated = (s.stats.pagesFreed + tracked s.pages) % 2 ^ 64

namespace Audited

theorem of_tally (h : Audited n frames m s) (hs : Settled n frames s'.skeleton)
    (ht : Tally s.stats.held 0 0 0 s') (hp : s'.pages = s.pages) : Audited n frames m s' := by
  have hheld := ht.held
  simp only [Stats.held, Prod.mk.injEq] at hheld
  obtain ⟨h₁, h₂, h₃, h₄⟩ := hheld
  refine ⟨hs, ht.held.symm ▸ ht, h₁.trans h.mmaped, ?_, ?_⟩
  · rw [h₂, hp]
    exact h.allocated
  · rw [h₃, h₄, hp]
    exact h.pages

/-- What counts nothing and leaves the pager's own state alone keeps the books right. -/
theorem after (h : Audited n frames m e.sh) {p : Paging α} (hu : Always Uncounting p)
    (hs : Always Still p) : After p e fun _ e' => Audited n frames m e'.sh := by
  refine ((after_uncounting hu h.tally).and (after_still_last rfl hs)).mono fun _ e' ⟨ht, hk⟩ =>
    h.of_tally ?_ ht ?_
  · rw [hk]
    exact h.settled
  · exact congrArg Skeleton.pages hk

theorem after_bind (h : Audited n frames m e.sh) {p : Paging α} {q : α → Paging β}
    {Q : β → Env → Prop} (hu : Always Uncounting p) (hs : Always Still p)
    (hq : ∀ a e', Audited n frames m e'.sh → After (q a) e' Q) : After (p >>= q) e Q :=
  after_then (h.after hu hs) hq

/-- What moves pages, each counted, and does not touch the hash keeps the books right. -/
theorem of_leads (h : Audited n frames m e.sh) {p : Paging α}
    (ht : After p e fun _ e' => Tally e.sh.stats.held 0 0 0 e'.sh)
    (hl : After p e fun _ => Leads n frames none e.sh.skeleton) :
    After p e fun _ e' => Audited n frames m e'.sh :=
  (ht.and hl).mono fun _ e' ⟨ht, hl⟩ => h.of_tally hl.1 ht (funext fun b => hl.2.new b (by simp))

end Audited

/-! First faults. -/

/-- A step that counts nothing and leaves the sizes of all pages alone. -/
def Minor (e e' : Env) : Prop := Uncounted e e' ∧ ∀ x, (e'.sh.page x).pt = (e.sh.page x).pt

theorem pt_setPage (e : Env) (y x : PageId) {f : UserPage → UserPage} (h : ∀ p, (f p).pt = p.pt) :
    ((e.setPage y f).sh.page x).pt = (e.sh.page x).pt := by
  by_cases hx : x = y
  · subst hx
    simp [Threads.Ctx.setPage, Shared.setPage, h]
  · simp [Threads.Ctx.setPage, Shared.setPage, Function.update_of_ne hx]

theorem Minor.setPage (e : Env) (y : PageId) {f : UserPage → UserPage} (h : ∀ p, (f p).pt = p.pt) :
    Minor e (e.setPage y f) :=
  ⟨.of_eq rfl rfl, fun x => pt_setPage e y x h⟩

theorem Minor.of_eq (hs : e'.sh.stats = e.sh.stats) (hl : e'.sh.log = e.sh.log)
    (hp : e'.sh.page = e.sh.page) : Minor e e' :=
  ⟨.of_eq hs hl, fun x => by rw [hp]⟩

theorem forgetting_minor : Forgetting Minor where
  refl e := ⟨.refl e, fun _ => rfl⟩
  trans h₁ h₂ := ⟨h₁.1.trans h₂.1, fun x => (h₂.2 x).trans (h₁.2 x)⟩
  enqueue e l d _ _ := ⟨.of_spared (.enqueue e l d), fun _ => rfl⟩
  dequeue e l d _ _ _ := ⟨.of_spared (.dequeue e l d), fun _ => rfl⟩
  remove e l d _ _ := ⟨.of_spared (.remove e l d), fun _ => rfl⟩
  removeAny e l d := ⟨.of_spared (.remove e l d), fun _ => rfl⟩
  auxiliary _ _ _ _ := .of_eq rfl rfl rfl
  record e _ hp hd _ := ⟨.of_spared (.record e (Event.brings_of_plain hp) hd), fun _ => rfl⟩
  write e d _ hf := .setPage e d hf

/-- Before a step of a first fault the page has its size, and still has it afterwards. -/
theorem after_minor {p : Paging α} {q : α → Paging β} {Q : β → Env → Prop}
    (hp : Always (Within Minor) p)
    (hpt : (e.sh.page r).pt = .basep) (ht : Tally h u d b e.sh)
    (hq : ∀ a e', (e'.sh.page r).pt = .basep → Tally h u d b e'.sh → After (q a) e' Q) :
    After (p >>= q) e Q := by
  refine after_then (R := fun _ e' => (e'.sh.page r).pt = .basep ∧ Tally h u d b e'.sh)
    (fun _ _ hr => ?_) fun a e' he => hq a e' he.1 he.2
  exact hp.runs (I := fun e => (e.sh.page r).pt = .basep ∧ Tally h u d b e.sh)
    (fun _ _ hf s y s' hs he => ⟨((hf.ok he).2 r).trans hs.1, (hf.ok he).1.tally hs.2⟩) hr
    ⟨hpt, ht⟩

theorem Tally.hold (ht : Tally h u d b s) {g : Stats → Stats}
    (hu : ∀ t, (g t).migrationsUp = t.migrationsUp)
    (hd : ∀ t, (g t).migrationsDown = t.migrationsDown)
    (hb : ∀ t, (g t).bytesMigrated = t.bytesMigrated) :
    Tally (g s.stats).held u d b { s with stats := g s.stats } := by
  refine ⟨rfl, ?_, ?_, ?_, ?_⟩
  · show ((g s.stats).migrationsUp + u) % 2 ^ 64 = _
    rw [hu]
    exact ht.up
  · show ((g s.stats).migrationsDown + d) % 2 ^ 64 = _
    rw [hd]
    exact ht.down
  · show ((g s.stats).bytesMigrated + b) % 2 ^ 64 = _
    rw [hb]
    exact ht.bytes
  · show (g s.stats).migrationsUp < 2 ^ 64 ∧ (g s.stats).migrationsDown < 2 ^ 64 ∧
      (g s.stats).bytesMigrated < 2 ^ 64
    rw [hu, hd, hb]
    exact ht.small

/-- The winner of a first fault counts one page and its bytes. -/
private theorem tally_wonFirstFault {al pa pf : Nat} (hpt : (e.sh.page r).pt = .basep)
    (ht : Tally (m, al, pa, pf) u d b e.sh) :
    After (wonFirstFault r a) e fun _ e' =>
      Tally (m, add64 al pageSize, add64 pa 1, pf) u d b e'.sh := by
  unfold wonFirstFault
  refine after_minor (within_modify fun e => forgetting_minor.trans
    (.setPage e r (f := fun p => { p with migrating := true }) fun _ => rfl)
    (.of_eq rfl rfl rfl)) hpt ht
    fun _ e hpt ht => ?_
  refine after_minor (within_write forgetting_minor _ fun _ => rfl) hpt ht fun _ e hpt ht =>
    after_minor (forgetting_minor.looks (by simp)) hpt ht fun _ e hpt ht => ?_
  refine after_minor (within_write forgetting_minor _ fun _ => rfl) hpt ht fun _ e hpt ht =>
    after_minor (forgetting_minor.looks (by simp)) hpt ht fun _ e hpt ht => ?_
  refine after_minor (forgetting_minor.looks (by simp)) hpt ht fun _ e hpt ht =>
    after_minor (within_addPage _ fun _ _ => .of_eq rfl rfl rfl) hpt ht fun _ e hpt ht => ?_
  refine after_minor (within_modify fun _ => .of_eq rfl rfl rfl) hpt ht
    fun _ e hpt ht => ?_
  refine after_minor (within_modify fun _ => .of_eq rfl rfl rfl) hpt ht
    fun _ e hpt ht => ?_
  refine after_minor (within_modify fun _ => .of_eq rfl rfl rfl) hpt ht
    fun _ e hpt ht => ?_
  refine after_minor (forgetting_minor.looks (by simp)) hpt ht fun _ e hpt ht =>
    after_minor (within_copyIn _ _ forgetting_minor.refl fun e va _ =>
      ⟨.of_record e.loc.tid (.copied va .pageCache) rfl rfl rfl rfl, fun _ => rfl⟩) hpt ht
      fun _ e hpt ht => ?_
  refine after_minor (within_modify fun e => forgetting_minor.trans
    (.setPage e r (f := fun p => { p with migrating := false }) fun _ => rfl)
    (.of_eq rfl rfl rfl)) hpt ht
    fun _ e hpt ht => ?_
  refine after_minor (within_write forgetting_minor _ fun _ => rfl) hpt ht fun _ e hpt ht =>
    after_minor (within_lrudiskTrackPage forgetting_minor.toLinking _) hpt ht fun _ e hpt ht => ?_
  refine after_pagesizeOf hpt
    (after_setStats fun e₁ he₁ => after_setStats fun e₂ he₂ => after_setStats fun e₃ he₃ => ?_)
  have ht₁ := ht.hold (g := fun t => { t with memAllocated := add64 t.memAllocated pageSize })
    (fun _ => rfl) (fun _ => rfl) fun _ => rfl
  rw [← he₁] at ht₁
  have ht₂ := ht₁.hold (g := fun t => { t with firstFaultsHandled := add64 t.firstFaultsHandled 1 })
    (fun _ => rfl) (fun _ => rfl) fun _ => rfl
  rw [← he₂] at ht₂
  have ht₃ := ht₂.hold (g := fun t => { t with pagesAllocated := add64 t.pagesAllocated 1 })
    (fun _ => rfl) (fun _ => rfl) fun _ => rfl
  rw [← he₃] at ht₃
  have hheld := ht.held
  simp only [Stats.held, Prod.mk.injEq] at hheld
  refine (after_uncounting (uncounting_setLocal _) ht₃).mono fun _ e' ht' => ?_
  have hh : Stats.held { e₂.sh.stats with pagesAllocated := add64 e₂.sh.stats.pagesAllocated 1 } =
      (m, add64 al pageSize, add64 pa 1, pf) := by
    rw [he₂, he₁]
    simp only [Stats.held, hheld.1, hheld.2.1, hheld.2.2.1, hheld.2.2.2]
  exact hh ▸ ht'

theorem uncounting_lockAllocator : Always Uncounting lockAllocator :=
  within_lockAllocator fun _ => .of_eq rfl rfl

private theorem uncounting_waitMigratingThen (y : PageId) {aux : Env → Env}
    (h : ∀ e, Uncounted e (aux e)) : Always Uncounting (waitMigratingThen y aux) :=
  within_waitMigratingThen y h

private theorem uncounting_lostFirstFault (r y : PageId) :
    Always Uncounting (lostFirstFault r y) := by
  refine always_bind (uncounting_setShared (fun _ => rfl) fun _ => rfl) fun _ =>
    always_bind ?_ fun _ => uncounting_waitMigratingThen y .refl
  unfold lrudiskPutPageFree
  exact uncounting_of_sparing
    (always_bind (by simp) fun _ => always_bind (by simp) fun _ => by simp)

/-- A first fault counts one page if its address was not tracked. -/
private theorem tally_handleFirstFault {al pa pf : Nat} (hk : e.sh.skeleton = k)
    (hw : Whole n frames (fun _ => none) k) (ht : Tally (m, al, pa, pf) u d b e.sh) :
    After (handleFirstFault a) e fun _ e' => if k.pages a = none then Tally (m, add64 al pageSize,
      add64 pa 1, pf) u d b e'.sh else Tally (m, al, pa, pf) u d b e'.sh := by
  unfold handleFirstFault
  refine after_tally (uncounting_setLocal _) ht (after_still_last hk (by simp)) fun _ e hk ht =>
    after_check fun _ => ?_
  refine after_then ((after_lrudiskPagefault hk hw).and (tally_lrudiskPagefault hk hw ht))
    fun r e ⟨⟨k₁, hw, hr, hrec, _, hk⟩, ht⟩ => ?_
  have hpt : (e.sh.page r).pt = .basep := by
    rw [show e.sh.page = e.sh.skeleton.page from rfl, hk, Skeleton.page_write_self]
    exact hw.pt r (hw.lt_of_hand (Function.update_self r _ _))
  have hpages : e.sh.pages = k.pages := (congrArg Skeleton.pages hk).trans hrec.pages
  refine after_tally (R := fun _ e => (e.sh.page r).pt = .basep ∧ e.sh.pages = k.pages)
    uncounting_lockAllocator ht ?_ fun _ e ⟨hpt, hpages⟩ ht => ?_
  · refine (after_atomic _ _ _).mpr fun b e' he => ?_
    split at he
    · cases he
    · cases he
      exact ⟨hpt, hpages⟩
  refine (after_bind _ _ _ _).mpr ((after_read _ _ _).mpr ?_)
  rw [hpages]
  cases hp : k.pages a with
  | none =>
    refine (tally_wonFirstFault hpt ht).mono fun _ e' ht => ?_
    rwa [if_pos rfl]
  | some y =>
    refine (after_uncounting (uncounting_lostFirstFault r y) ht).mono fun _ e' ht => ?_
    rwa [if_neg (Option.some_ne_none y)]

theorem audited_handleFirstFault (hn : n < 2 ^ 40) (ha : Audited n frames m e.sh) :
    After (handleFirstFault a) e fun _ e' => Audited n frames m e'.sh := by
  have htouch := after_handleFirstFault (a := a) rfl ha.settled.whole
  refine (htouch.and (tally_handleFirstFault rfl ha.settled.whole ha.tally)).mono
    fun _ e' ⟨⟨ht, _⟩, htally⟩ => ?_
  have hsettled : Settled n frames e'.sh.skeleton := (Leads.of_touched ha.settled ht).1
  obtain ⟨r, k₁, -, hrec, -, ⟨hp, ha0, -, -, hk⟩ | ⟨⟨y, hy⟩, hk⟩⟩ := ht
  · rw [if_pos hp] at htally
    have hpages : e'.sh.pages = Function.update e.sh.pages a (some r) := by
      rw [show e'.sh.pages = e'.sh.skeleton.pages from rfl, hk,
        ← show k₁.pages = e.sh.pages from hrec.pages]
      rfl
    have htr : tracked e'.sh.pages = tracked e.sh.pages + 1 := by
      rw [hpages]
      exact tracked_update ha.settled ha0 hp r
    have hle : tracked e'.sh.pages ≤ n := tracked_le hsettled
    have hheld := htally.held
    simp only [Stats.held, Prod.mk.injEq] at hheld
    obtain ⟨h₁, h₂, h₃, h₄⟩ := hheld
    refine ⟨hsettled, htally.held.symm ▸ htally, h₁.trans ha.mmaped, ?_, ?_⟩
    · rw [h₂, ha.allocated, htr, add64]
      rw [htr] at hle
      simp only [show pageSize = 4096 from rfl]
      omega
    · rw [h₃, h₄, ha.pages, htr, add64]
      omega
  · rw [if_neg (by rw [hy]; simp)] at htally
    refine ha.of_tally hsettled htally ?_
    rw [show e'.sh.pages = e'.sh.skeleton.pages from rfl, hk]
    exact hrec.pages

/-! Faults and accesses. -/

private theorem tally_handleMissingFault (hk : e.sh.skeleton = k) (hs : Settled n frames k)
    (ht : Tally h u d b e.sh) : After (handleMissingFault x) e fun _ e' => Tally h u d b e'.sh := by
  unfold handleMissingFault
  refine after_tally (uncounting_setLocal _) ht (after_still_last hk (by simp)) fun _ e hk ht => ?_
  refine after_field hk ?_
  refine after_tally (uncounting_of_sparing (by simp)) ht (after_claimSwapin hk) fun c e hc ht => ?_
  have hwait : After (waitMigratingThen x (·.record (.resumed x))) e fun _ e' =>
      Tally h u d b e'.sh :=
    after_uncounting (uncounting_waitMigratingThen x fun e => .of_spared (.record e rfl rfl)) ht
  unfold Claimed at hc
  cases c with
  | mine =>
    rw [if_pos rfl] at hc
    obtain ⟨-, -, -, hk⟩ := hc
    show After (resolveMissingFault x _) _ _
    unfold resolveMissingFault
    refine after_tally (uncounting_of_sparing (by simp)) ht (after_still_last hk (by simp))
      fun l e hk ht => ?_
    refine after_tally (uncounting_setLocal _) ht (after_still_last hk (by simp)) fun _ e hk ht =>
      ?_
    refine after_then ((after_lrudiskSwapinExternalAsync hs.whole hk).and
      (tally_swapinAsync hs.whole hk ht)) fun _ e ⟨hb, ht⟩ => ?_
    generalize hke : e.sh.skeleton = ke at hb
    refine after_tally (uncounting_of_sparing (by simp)) ht (after_still_last hke (by simp))
      fun _ e hke ht => ?_
    refine after_tally (uncounting_of_sparing (by simp)) ht (after_still_last hke (by simp))
      fun _ e hke ht => ?_
    refine after_tally (uncounting_of_sparing (by simp)) ht (after_still_last hke (by simp))
      fun _ e hke ht => ?_
    refine after_tally (uncounting_of_sparing (by simp)) ht (after_finishSwapin hke)
      fun _ e hke ht => ?_
    have hw : Whole n frames (fun _ => none) e.sh.skeleton := by
      rw [hke]
      exact (hb.whole hs.whole).1.1
    refine after_tally (uncounting_of_sparing (sparing_setStats (fun _ => rfl) (fun _ _ => rfl)
      (fun _ _ => rfl) fun _ _ _ => rfl)) ht (after_still_last rfl (by simp)) fun _ e' hk' ht => ?_
    refine (after_ite _ _ _ _).mpr
      ⟨fun _ => ?_, fun _ => after_uncounting (uncounting_setLocal _) ht⟩
    refine after_then (tally_coreTryPrefetch hk' hw ht) fun _ e ht => ?_
    exact after_uncounting (uncounting_setLocal _) ht
  | busy => exact hwait
  | handled => exact hwait
  | moved => exact hwait

theorem audited_uswapSigHandler {addr : Nat} (hn : n < 2 ^ 40) (ha : Audited n frames m e.sh) :
    After (uswapSigHandler addr) e fun _ e' => Audited n frames m e'.sh := by
  unfold uswapSigHandler
  refine ha.after_bind (uncounting_setLocal _) (by simp) fun _ e ha => ?_
  refine ha.after_bind (uncounting_of_sparing (by simp)) (by simp) fun page e ha => ?_
  cases page with
  | none =>
    exact after_then (audited_handleFirstFault hn ha) fun _ e ha =>
      ha.after (uncounting_setLocal _) (by simp)
  | some y =>
    refine ha.after_bind (uncounting_of_sparing (by simp)) (by simp) fun swappedOut e ha => ?_
    have hlast (p : Paging Unit) (hp : After p e fun _ e' => Audited n frames m e'.sh) :
        After (do p; lookAway y; setInternalCall false) e fun _ e' => Audited n frames m e'.sh :=
      after_then hp fun _ e ha => ha.after_bind (uncounting_of_sparing (by simp)) (by simp) fun _ e ha =>
        ha.after (uncounting_setLocal _) (by simp)
    refine (after_ite _ _ _ _).mpr ⟨fun _ => hlast _ ?_, fun _ => hlast _ (ha.after ?_ (by simp))⟩
    · exact ha.of_leads (tally_handleMissingFault rfl ha.settled ha.tally)
        (after_handleMissingFault rfl ha.settled)
    · unfold handleWpFault
      refine always_bind (uncounting_of_sparing ?_) fun _ => uncounting_waitMigratingThen y .refl
      exact sparing_setStats (fun _ => rfl) (fun _ _ => rfl) (fun _ _ => rfl) fun _ _ _ => rfl

theorem audited_access {addr : Nat} {attempt : Env → Outcome Abort Env (Option α)}
    (hn : n < 2 ^ 40) (hu : Uncounting (Option α) attempt)
    (hs : Still (Option α) attempt) (ha : Audited n frames m e.sh) :
    After (access addr attempt) e fun _ e' => Audited n frames m e'.sh := by
  unfold access
  refine after_loop (fun _ e => Audited n frames m e.sh) (fun _ e ha => ?_) ha
  refine ha.after_bind (always_atomic hu) (always_atomic hs) fun r e ha => ?_
  cases r with
  | some a => exact (after_pure _ _ _).mpr ha
  | none => exact after_then (audited_uswapSigHandler hn ha) fun _ e ha => (after_pure _ _ _).mpr ha

theorem uncounting_loadByte (addr : Nat) : Uncounting (Option UInt8) (loadByte addr) :=
  within_loadByte addr .refl fun _ _ _ => .of_eq rfl rfl

theorem uncounting_storeByte (addr : Nat) (byte : UInt8) :
    Uncounting (Option Unit) (storeByte addr byte) :=
  within_storeByte addr byte .refl fun e _ _ =>
    .of_record e.loc.tid (.stored addr byte) rfl rfl rfl rfl

end ExtMem
