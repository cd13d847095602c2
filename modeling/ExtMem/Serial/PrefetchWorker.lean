import ExtMem.PageRank
import ExtMem.Serial.FetchEnds
import ExtMem.Sparing

/-! Which pages one round of the PageRank prefetch worker brings in. -/
namespace ExtMem
open Threads Threads.Prog

variable {α β : Type} {c u : Bool} {e e' e₁ : Env} {a b d : Nat}

/-- The address that an event copies a page to. -/
def Event.target : Event → Option Nat
  | .copied va _ => some va
  | _ => none

/-- The addresses of the pages that were copied into place, in order. -/
def Shared.broughtIn (s : Shared) : List Nat := (s.log.filterMap fun x => x.2.target).reverse

/-- Some consecutive pages after an address. -/
def ahead (a : Nat) : Nat → List Nat
  | 0 => []
  | n + 1 => add64 a pageSize :: ahead (add64 a pageSize) n

theorem after_spared {e₀ : Env} {p : Paging α} {q : α → Paging β} {Q : β → Env → Prop}
    (h : Always (Sparing c u) p) (hsp : Spared c u e₀ e)
    (hq : ∀ x e', Spared c u e₀ e' → After (q x) e' Q) : After (p >>= q) e Q :=
  (after_bind _ _ _ _).mpr ((after_sparing h).mono fun x e' hsp' => hq x e' (hsp.trans hsp'))

theorem Spared.broughtIn (h : Spared false u e e') : e'.sh.broughtIn = e.sh.broughtIn := by
  obtain ⟨evs, hl, hev⟩ := h.log
  have hnone : (evs.map (Prod.mk e.loc.tid)).filterMap (fun x => x.2.target) = [] := by
    rw [List.filterMap_eq_nil_iff]
    intro x hx
    obtain ⟨ev, hmem, rfl⟩ := List.mem_map.mp hx
    have hb := (hev ev hmem).1
    cases ev <;> simp_all [Event.brings, Event.target]
  unfold Shared.broughtIn
  rw [hl, List.filterMap_append, hnone, List.nil_append]

theorem spared_copyIn {src : Buffer} : After (copyIn d src) e fun _ e' =>
    e'.sh.broughtIn = e.sh.broughtIn ++ [(e.sh.page d).va] ∧ Spared true u e e' := by
  refine fun x e' hr => ⟨?_, after_sparing (sparing_copyIn d src) x e' hr⟩
  revert x e'
  show After (copyIn d src) e fun _ e' => e'.sh.broughtIn = e.sh.broughtIn ++ [(e.sh.page d).va]
  unfold copyIn field uffdioCopy
  rw [after_bind, after_read, after_bind]
  refine (after_atomic _ _ _).mpr fun done e' he => ?_
  split at he
  · cases he
    exact (after_fail _ _ _).mpr trivial
  · split at he
    · cases he
      unfold Prog.check
      rw [if_pos rfl, after_pure]
      simp [Shared.broughtIn, Threads.Ctx.record, Shared.setPte, Event.target]
    · cases he
      exact (after_fail _ _ _).mpr trivial

theorem after_prefetchNext_waits : After (prefetchNext a) e fun o _ =>
    o.isSome = e.sh.waits a ∧ ∀ d, o = some d → (e.sh.page d).va = a := by
  unfold prefetchNext lookUp
  rw [after_bind]
  refine (after_atomic _ _ _).mpr fun o e₁ he => ?_
  unfold Shared.waits
  split at he
  · next hp =>
    cases he
    simp [hp]
  · next d hp =>
    cases he
    unfold assertPage field claimSwapin lookAway
    rw [hp, after_bind, after_assert]
    intro hva
    have hva : (e.sh.page d).va = a := beq_iff_eq.mp hva
    rw [after_bind, after_read, after_bind]
    refine (after_atomic _ _ _).mpr fun claim e₂ he => ?_
    rw [after_bind, after_modify]
    have hpage : (e.startLook d a).sh.page = e.sh.page := rfl
    dsimp only at he
    rw [hpage] at he
    split at he
    · next hm =>
      cases he
      simp [hm]
    · next hm =>
      split at he
      · next hs =>
        cases he
        simp [hs]
      · next hs =>
        rw [if_neg (by simp)] at he
        cases he
        rw [if_pos rfl, after_bind, after_assert]
        intro _
        rw [after_bind]
        refine fun _ _ _ => (after_pure _ _ _).mpr ⟨by simp [hm, hs], fun x hx => ?_⟩
        cases hx
        exact hva

/-- The first loop claims consecutive pages, none if the first one does not wait. -/
theorem after_prefetchList_ahead {left : Nat} : After (prefetchList left a) e fun ds _ =>
    ds.map (fun d => (e.sh.page d).va) = ahead a ds.length ∧ ds.length ≤ left ∧
    (0 < left → (ds = [] ↔ e.sh.waits (add64 a pageSize) = false)) := by
  induction left generalizing a e with
  | zero => exact (after_pure _ _ _).mpr ⟨rfl, Nat.le_refl _, fun h => absurd h (Nat.lt_irrefl 0)⟩
  | succ left ih =>
    unfold prefetchList
    refine (after_bind _ _ _ _).mpr ?_
    refine (After.and after_prefetchNext_waits
      (after_sparing (within_prefetchNext (claiming_spared (c := false) (u := false)) _))).mono ?_
    rintro o e₁ ⟨⟨hsome, hva⟩, hsp⟩
    cases o with
    | none => exact (after_pure _ _ _).mpr ⟨rfl, Nat.zero_le _, fun _ => by simpa using hsome.symm⟩
    | some d =>
      refine (after_bind _ _ _ _).mpr (ih.mono fun ds e₂ h => (after_pure _ _ _).mpr ?_)
      obtain ⟨hds, hlen, -⟩ := h
      refine ⟨?_, ?_, fun _ => ?_⟩
      · have hsame : (fun d => (e₁.sh.page d).va) = fun d => (e.sh.page d).va := funext hsp.va
        rw [hsame] at hds
        rw [List.map_cons, hds, hva d rfl]
        rfl
      · simpa using hlen
      · have hw : e.sh.waits (add64 a pageSize) = true := by simpa using hsome.symm
        simp [hw]

private theorem after_collectPages {pagefault : Paging PageId}
    (hp : Always (Sparing false true) pagefault) {ds : List PageId} :
    After (Prog.collect (fun _ => pagefault) ds) e fun rs e' =>
        rs.length = ds.length ∧ Spared false true e e' := by
  refine After.and ?_ (after_sparing (always_collect fun _ => hp))
  refine (after_collect (fun todo rs _ => todo.length + rs.length = ds.length) (by simp) ?_).mono
    fun rs _ h => by
    simpa using h
  intro d todo rs e₁ h r e₂ _
  simp only [List.length_cons, List.length_append, List.length_nil] at h ⊢
  omega

private theorem after_prefetchFinish_brings {x : (PageId × Nat) × PageId} :
    After (prefetchFinish x) e fun _ e' =>
        e'.sh.broughtIn = e.sh.broughtIn ++ [(e.sh.page x.1.1).va] ∧ Spared true true e e' := by
  refine After.and ?_ (after_sparing (sparing_prefetchFinish x))
  unfold prefetchFinish
  refine (after_bind _ _ _ _).mpr ((spared_copyIn (u := true)).mono ?_)
  rintro _ e₁ ⟨hb, -⟩
  have hrest : Always (Sparing false true) (do
      lrudiskAckSwapin x.1.1 x.2
      setPage x.1.1 fun p => { p with inDram := true }
      finishSwapin x.1.1) :=
    always_bind (by simp) fun _ => always_bind (by simp) fun _ => by simp
  exact (after_sparing hrest).mono fun _ e₂ hsp => hsp.broughtIn.trans hb

private theorem after_finishAll {todo : List ((PageId × Nat) × PageId)} :
    After (Prog.each prefetchFinish todo) e fun _ e' =>
      e'.sh.broughtIn = e.sh.broughtIn ++ todo.map fun x => (e.sh.page x.1.1).va := by
  induction todo generalizing e with
  | nil => exact (after_pure _ _ _).mpr (by simp)
  | cons x todo ih =>
    refine (after_bind _ _ _ _).mpr (after_prefetchFinish_brings.mono fun _ e₁ ⟨hb, hsp⟩ => ?_)
    refine ih.mono fun _ e₂ h => ?_
    have hsame : (fun x : (PageId × Nat) × PageId => (e₁.sh.page x.1.1).va) = fun x =>
        (e.sh.page x.1.1).va := funext fun x => hsp.va _
    rw [h, hb, hsame]
    simp

private theorem after_prefetchHead : After (prefetchHead a) e fun ds e' =>
    ds.map (fun d => (e.sh.page d).va) = ahead a ds.length ∧ ds.length ≤ corePrefetchRate ∧
    (ds = [] ↔ e.sh.waits (add64 a pageSize) = false) ∧ Spared false true e e' := by
  unfold prefetchHead
  refine after_check fun _ => (after_bind _ _ _ _).mpr ?_
  refine (After.and after_prefetchList_ahead
    (after_sparing (within_prefetchList (claiming_spared (c := false) (u := true)) _ _))).mono ?_
  rintro ds e₁ ⟨⟨hds, hlen, hnil⟩, hsp₁⟩
  refine after_spared (sparing_traceEvent rfl rfl) hsp₁ fun _ e₂ hsp₂ => ?_
  refine after_spared (within_allocatePrefetchBuffer transferring_spared) hsp₂ fun _ e₃ hsp₃ => ?_
  refine after_spared (always_each (within_prefetchSubmit transferring_spared)) hsp₃
    fun _ e₄ hsp₄ => ?_
  refine after_spared (within_ioringSubmitAllReads transferring_spared) hsp₄ fun _ e₅ hsp₅ => ?_
  exact (after_pure _ _ _).mpr ⟨hds, hlen, hnil (by decide), hsp₅⟩

private theorem after_prefetchTail {ds rs : List PageId} (hrs : rs.length = ds.length) :
    After (prefetchTail ds rs) e fun n e' =>
        n = ds.length ∧ e'.sh.broughtIn = e.sh.broughtIn ++ ds.map fun d => (e.sh.page d).va := by
  have hwait : Always (Sparing false true) (Prog.each (fun _ => ioringFinishRead) ds) :=
    always_each fun x => by
    simp
  refine (after_bind _ _ _ _).mpr ((after_sparing hwait).mono fun _ e₁ hsp => ?_)
  refine (after_bind _ _ _ _).mpr
    (after_finishAll.mono fun _ e₂ hb => (after_pure _ _ _).mpr ⟨rfl, ?_⟩)
  have hfst : (ds.zipIdx.zip rs).map (fun x => x.1.1) = ds := by
    have hz : (ds.zipIdx.zip rs).map Prod.fst = ds.zipIdx := List.map_fst_zip (by simp [hrs])
    rw [show (fun x : (PageId × Nat) × PageId => x.1.1) = Prod.fst ∘ Prod.fst from rfl,
      ← List.map_map, hz]
    simp
  have hva : (fun x : (PageId × Nat) × PageId => (e₁.sh.page x.1.1).va) =
      (fun d => (e.sh.page d).va) ∘ fun x => x.1.1 := funext fun x => hsp.va _
  rw [hb, hsp.broughtIn, hva, ← List.map_map, hfst]

/-- What a prefetch brings in: consecutive pages that begin one page after its argument. -/
theorem after_coreTryPrefetchBy {pagefault : Paging PageId}
    (hp : Always (Sparing false true) pagefault) :
    After (coreTryPrefetchBy pagefault a) e fun n e' => e'.sh.broughtIn = e.sh.broughtIn ++
        ahead a n ∧ n ≤ corePrefetchRate ∧ (n = 0 ↔ e.sh.waits (add64 a pageSize) = false) := by
  rw [coreTryPrefetchBy_eq]
  refine (after_bind _ _ _ _).mpr (after_prefetchHead.mono fun ds e₁ ⟨hds, hlen, hnil, hsp₁⟩ => ?_)
  refine (after_bind _ _ _ _).mpr ((after_collectPages hp).mono fun rs e₂ ⟨hrs, hsp₂⟩ => ?_)
  refine (after_prefetchTail hrs).mono ?_
  rintro n e₃ ⟨rfl, hb⟩
  have hsp : Spared false true e e₂ := hsp₁.trans hsp₂
  have hva : (fun d => (e₂.sh.page d).va) = fun d => (e.sh.page d).va := funext hsp.va
  refine ⟨?_, hlen, by rw [List.length_eq_zero_iff]; exact hnil⟩
  rw [hb, hsp.broughtIn, hva, hds]

namespace PageRank

/-- The pages that a round is to bring in: those that wait from the head of the block on, one
after the other, up to the end of the block. -/
def blockRun (s : Shared) (blockHead : Nat) : List Nat :=
  ((List.range (pagerankBlockSize / pageSize)).map fun i =>
    blockHead + i * pageSize).takeWhile s.waits

private theorem add64_eq (x y : Nat) : add64 x y = (x + y) % 2 ^ 64 := rfl

theorem mem_ahead {n x : Nat} (h : x ∈ ahead a n) :
    ∃ i, 0 < i ∧ i ≤ n ∧ x = (a + i * pageSize) % 2 ^ 64 := by
  induction n generalizing a with
  | zero => cases h
  | succ n ih =>
    rw [ahead, List.mem_cons] at h
    cases h with
    | inl h =>
      refine ⟨1, Nat.one_pos, Nat.succ_pos n, ?_⟩
      rw [h, Nat.one_mul, add64_eq]
    | inr h =>
      obtain ⟨i, hi, hin, hx⟩ := ih h
      have hsum : a + pageSize + i * pageSize = a + (i + 1) * pageSize := by
        rw [Nat.add_mul]
        omega
      refine ⟨i + 1, Nat.succ_pos i, Nat.succ_le_succ hin, ?_⟩
      rw [hx, add64_eq, Nat.mod_add_mod, hsum]

/-- Some chunks of a round brought these pages in. -/
structure Chunks (b : Nat) (e : Env) (head : Nat) (l : List Nat) (e' : Env) : Prop where
  behind : ∃ j, head = b + j * pageSize
  brought : e'.sh.broughtIn = e.sh.broughtIn ++ l
  skipped : b ∉ l
  started : l ≠ [] → e.sh.waits (b + pageSize) = true
  fresh : l = [] → head = b ∧ e' = e

/-! The policy's own reclaim. -/

section
variable {R : Env → Env → Prop} (h : Scanning R)
include h

theorem within_scanWindowPage (s : Nat) (d : PageId) : Always (Within R) (scanWindowPage s d) := by
  refine always_bind (h.looks (by simp)) fun va => always_ite ?_ ?_
  · exact always_bind (within_enqueueAny h _ d) fun _ => trivial
  · exact always_bind (within_enqueueAny h _ d) fun _ => trivial

theorem within_scanLoop {scan : PageId → Paging Bool} (hs : ∀ d, Always (Within R) (scan d))
    (n : Nat) : Always (Within R) (scanLoop scan n) := by
  refine always_loop fun x => always_bind (h.looks (by simp)) fun len =>
    always_ite (always_bind (within_dequeueAny h _) fun page => ?_) trivial
  cases page with
  | none => trivial
  | some page => exact always_bind (hs page) fun _ => trivial

theorem within_shrinkInactive (s n : Nat) :
    Always (Within R) (PageRank.shrinkInactiveList s n) := by
  refine always_bind (h.looks (by simp)) fun len =>
    always_bind (within_shrinking h true) fun _ => ?_
  refine always_bind (within_scanLoop h (fun d => ?_) _) fun _ =>
    always_bind (within_shrinking h false) fun _ => trivial
  split
  · exact within_scanInactivePage h d
  · exact within_scanWindowPage h s d

theorem within_reclaim (s : Nat) (n : Int) (priority : Nat) :
    Always (Within R) (PageRank.directAllocatePageAsynch s n priority) := by
  refine always_bind (h.looks (by simp)) fun inactive => ?_
  dsimp only
  generalize int32 _ = toScan
  refine always_loop fun x =>
    always_ite (always_bind (within_shrinkInactive h s _) fun ret => ?_) trivial
  exact always_bind (h.looks (by simp)) fun _ => always_bind (h.looks (by simp)) fun _ => trivial

end

/-- A round never brings in the head of its block, and something only if the page after it waits. -/
theorem after_prefetchworker {s : Nat}
    (hb : b + pagerankBlockSize + (corePrefetchRate + 1) * pageSize ≤ 2 ^ 64) :
    After (lrudiskPrefetchworker s b) e fun _ e' => ∃ l, e'.sh.broughtIn = e.sh.broughtIn ++ l ∧
      b ∉ l ∧ (l = [] ↔ e.sh.waits (b + pageSize) = false) := by
  have hpage : pageSize = 4096 := rfl
  have hrate : corePrefetchRate = 32 := rfl
  rw [hrate, hpage] at hb
  have hend : add64 b pagerankBlockSize = b + pagerankBlockSize := Nat.mod_eq_of_lt (by omega)
  refine after_loop (fun head e' => ∃ l, Chunks b e head l e') ?_
    ⟨[], ⟨0, by simp⟩, by simp, by simp, by simp, fun _ => ⟨rfl, rfl⟩⟩
  rintro head e₁ ⟨l, ⟨j, rfl⟩, hbr, hskip, hstart, hfresh⟩
  rw [hend]
  split
  · next hle =>
    refine after_check fun _ => (after_bind _ _ _ _).mpr ?_
    refine (after_coreTryPrefetchBy (within_lrudiskPagefaultBy vacating_spared
      (within_reclaim scanning_spared s))).mono
      fun n e₂ ⟨hb₂, hn, h0⟩ => ?_
    have hnext : add64 (b + j * pageSize) pageSize = b + j * pageSize + pageSize :=
      Nat.mod_eq_of_lt (by omega)
    rw [hnext] at h0
    split
    · next hz =>
      subst hz
      refine (after_pure _ _ _).mpr ⟨l, by simpa [ahead, hbr] using hb₂, hskip, ?_⟩
      have hw := h0.mp rfl
      constructor
      · intro hl
        obtain ⟨hj, rfl⟩ := hfresh hl
        rwa [hj] at hw
      · intro hw'
        by_contra hl
        rw [hstart hl] at hw'
        cases hw'
    · next hz =>
      have hsum : add64 (b + j * pageSize) (n * pageSize) = b + (j + n) * pageSize := by
        unfold add64
        rw [Nat.mod_eq_of_lt (by rw [hpage, hrate] at *; omega)]
        rw [Nat.add_mul]
        omega
      refine (after_pure _ _ _).mpr
        ⟨l ++ ahead (b + j * pageSize) n, ⟨j + n, hsum⟩, ?_, ?_, fun _ => ?_, fun h => ?_⟩
      · rw [hb₂, hbr, List.append_assoc]
      · rw [List.mem_append, not_or]
        refine ⟨hskip, fun hmem => ?_⟩
        obtain ⟨i, hi, hin, hx⟩ := mem_ahead hmem
        rw [Nat.mod_eq_of_lt (by rw [hpage, hrate] at *; omega)] at hx
        rw [hpage] at hx
        omega
      · by_cases hl : l = []
        · obtain ⟨hj, rfl⟩ := hfresh hl
          rw [hj] at h0
          exact Bool.not_eq_false _ ▸ fun hw => hz (h0.mpr hw)
        · exact hstart hl
      · exfalso
        have := (List.append_eq_nil_iff.mp h).2
        cases n with
        | zero => exact hz rfl
        | succ n => cases this
  · next hgt =>
    refine (after_pure _ _ _).mpr ⟨l, hbr, hskip, ?_⟩
    have hl : l ≠ [] := by
      intro hl
      rw [(hfresh hl).1] at hgt
      exact hgt (Nat.le_add_right _ _)
    simp [hl, hstart hl]

theorem blockRun_eq (s : Shared) (b : Nat) :
    blockRun s b = if s.waits b then b :: ((List.range (pagerankBlockSize / pageSize - 1)).map
      fun i => b + (i + 1) * pageSize).takeWhile s.waits else [] := by
  have hblock : pagerankBlockSize / pageSize = (pagerankBlockSize / pageSize - 1) + 1 := rfl
  unfold blockRun
  rw [hblock, List.range_succ_eq_map, List.map_cons, List.takeWhile_cons, Nat.zero_mul,
    Nat.add_zero, List.map_map]
  rfl

/-! A prefetch that finds nothing. -/

/-- The page at an address that nobody waits for is not claimed. -/
private theorem total_prefetchNone (hva : ∀ d, e.sh.pages a = some d → (e.sh.page d).va = a)
    (hw : e.sh.waits a = false) : Total (prefetchNext a) e fun o _ => o = none := by
  unfold prefetchNext
  cases hp : e.sh.pages a with
  | none =>
    have hlook : Total (lookUp a) e fun o _ => o = none := total_atomic ⟨none, e, by rw [hp], rfl⟩
    refine hlook.bind fun o e₁ ho => ?_
    subst ho
    exact .ret rfl
  | some d =>
    have hd : (!(e.sh.page d).migrating && (e.sh.page d).swappedOut) = false := by
      simpa [Shared.waits, hp] using hw
    have hlook : Total (lookUp a) e fun o e₁ => o = some d ∧ e₁ = e.startLook d a :=
      total_atomic ⟨some d, e.startLook d a, by rw [hp], rfl, rfl⟩
    have hclaim : Total (claimSwapin d (some (e.sh.page d).va)) (e.startLook d a) fun claim _ =>
        claim ≠ .mine := by
      refine total_atomic ?_
      have hpage : (e.startLook d a).sh.page = e.sh.page := rfl
      by_cases hm : (e.sh.page d).migrating = true
      · exact ⟨.busy, _, by simp only [hpage, hm, if_true]; rfl, by simp⟩
      · have hs : (e.sh.page d).swappedOut = false := by simpa [hm] using hd
        exact ⟨.handled, _, by simp only [hpage, hm, hs, if_true]; rfl, by simp⟩
    refine hlook.bind fun o e₁ ho => ?_
    obtain ⟨rfl, rfl⟩ := ho
    refine total_assert (beq_iff_eq.mpr (hva d hp))
      (.act rfl (hclaim.bind fun claim e₂ hne => .act rfl ?_))
    rw [if_neg hne]
    exact .ret rfl

/-- A prefetch up to its submission. -/
private def prefetchClaim (baseBoundry : Nat) : Paging (List PageId) := do
  Prog.check (baseBoundry != 0) .prefetchBase
  let list ← prefetchList corePrefetchRate baseBoundry
  traceEvent (.prefetching list)
  allocatePrefetchBuffer
  Prog.each prefetchSubmit list.zipIdx
  pure list

private theorem prefetchHead_eq (base : Nat) :
    prefetchHead base = prefetchClaim base >>= fun list =>
      ioringSubmitAllReads >>= fun _ => pure list := by
  simp only [prefetchHead, prefetchClaim, bind_assoc, pure_bind]

private theorem total_prefetchClaim (hb : b ≠ 0)
    (hva : ∀ d, e.sh.pages (add64 b pageSize) = some d → (e.sh.page d).va = add64 b pageSize)
    (hw : e.sh.waits (add64 b pageSize) = false) :
    Total (prefetchClaim b) e fun ds e' => ds = [] ∧ e'.loc.ring = e.loc.ring := by
  have hlist : Total (prefetchList corePrefetchRate b) e fun ds _ => ds = [] :=
    (total_prefetchNone hva hw).bind fun o e₁ ho => by
      subst ho
      exact .ret rfl
  have hring : After (prefetchList corePrefetchRate b) e fun _ e' => e'.loc.ring = e.loc.ring :=
    fun ds e' hr => (ringsKept_plain (within_prefetchList claiming_plain _ _)).runs (I := fun x =>
      x.loc.ring = e.loc.ring) (fun _ _ hf _ _ _ hx he => (hf.ok he).trans hx) hr rfl
  refine total_check (bne_iff_ne.mpr hb) ((hlist.strengthen (hlist.after.and hring)).bind ?_)
  rintro ds e₁ ⟨rfl, hring₁⟩
  have hbuffer : Total allocatePrefetchBuffer (e₁.record (.prefetching [])) fun _ e₂ =>
      e₂.loc.ring = e.loc.ring := by
    refine .act rfl ?_
    show Total (if e₁.loc.prefetchBufferAllocated then pure () else setLocal _) _ _
    split
    · exact .ret hring₁
    · exact .act rfl (.ret hring₁)
  exact .act rfl (hbuffer.bind fun _ e₂ hring₂ => .ret ⟨rfl, hring₂⟩)

/-- It ends, if the read ring was set up. -/
private theorem total_prefetchNothing (pagefault : Paging PageId) (hb : b ≠ 0)
    (hva : ∀ d, e.sh.pages (add64 b pageSize) = some d → (e.sh.page d).va = add64 b pageSize)
    (hw : e.sh.waits (add64 b pageSize) = false) (hinit : (e.loc.ring .ioReadRing).init = true) :
    Total (coreTryPrefetchBy pagefault b) e fun n _ => n = 0 := by
  rw [coreTryPrefetchBy_eq, prefetchHead_eq, bind_assoc]
  refine (total_prefetchClaim hb hva hw).bind ?_
  rintro ds e₁ ⟨rfl, hring⟩
  rw [bind_assoc]
  exact .act (if_pos (by rw [hring]; exact hinit)) (.ret rfl)

/-- If not, it submits to a ring that is not there. -/
theorem aborts_prefetchNothing (pagefault : Paging PageId) (hb : b ≠ 0)
    (hva : ∀ d, e.sh.pages (add64 b pageSize) = some d → (e.sh.page d).va = add64 b pageSize)
    (hw : e.sh.waits (add64 b pageSize) = false) (hinit : (e.loc.ring .ioReadRing).init = false) :
    ∃ e', Aborts (coreTryPrefetchBy pagefault b) e .uninitialisedSubmit e' := by
  rw [coreTryPrefetchBy_eq, prefetchHead_eq]
  obtain ⟨ds, e₁, hr, -, hring⟩ := (total_prefetchClaim hb hva hw).runs
  refine ⟨e₁, Aborts.bind_left (hr.bind_aborts (Aborts.bind_left (.here (if_neg ?_))))⟩
  rw [hring, hinit]
  simp

/-- On a machine of two pages of DRAM and eight of disk four pages are loaded from, the first of
them in the block after the others, and the second one again, for which the third is swapped out. -/
def blockStory : List (Nat × List Nat × Paging Unit) :=
  [mapStep, loadStep 8192, loadStep 0, loadStep 1, loadStep 2, loadStep 0]

/-- Then the last page is unmapped. -/
def waitingStory : List (Nat × List Nat × Paging Unit) := blockStory ++ [unmapStep 2]

/-- Or the page in the other block is brought in as well. -/
def arrivingStory : List (Nat × List Nat × Paging Unit) := blockStory ++ [loadStep 8192]

def waitingMachine : Env := roomyMachine.story waitingStory

def arrivedMachine : Env := roomyMachine.story arrivingStory

private theorem operation_waitingStory : ∀ x ∈ waitingStory, Operation x.2.2 := by
  simp [waitingStory, blockStory, operation_mapStep, operation_loadStep, operation_unmapStep]

private theorem operation_arrivingStory : ∀ x ∈ arrivingStory, Operation x.2.2 := by
  simp [arrivingStory, blockStory, operation_mapStep, operation_loadStep]

private theorem found_story {l : List (Nat × List Nat × Paging Unit)}
    (hops : ∀ x ∈ l, Operation x.2.2) (hends : roomyMachine.ends l = true)
    (he : e = roomyMachine.story l) (a d : Nat) (hd : e.sh.pages a = some d) :
    (e.sh.page d).va = a := by
  subst he
  exact (launched_roomyMachine.paused hops hends).settled.whole.va_of_hash hd

private theorem ends_waitingStory : roomyMachine.ends waitingStory = true := by decide +kernel

private theorem ends_arrivingStory : roomyMachine.ends arrivingStory = true := by decide +kernel

private theorem found_waiting :
    ∀ a d, waitingMachine.sh.pages a = some d → (waitingMachine.sh.page d).va = a :=
  found_story operation_waitingStory ends_waitingStory (by rw [waitingMachine])

private theorem found_arrived :
    ∀ a d, arrivedMachine.sh.pages a = some d → (arrivedMachine.sh.page d).va = a :=
  found_story operation_arrivingStory ends_arrivingStory (by rw [arrivedMachine])

/-- The block after the one of the first page. -/
def nextBlock : Nat := smallBase + pagerankBlockSize

private theorem head_waiting : waitingMachine.sh.waits nextBlock = true := by decide +kernel

private theorem ready_arrived :
    (arrivedMachine.loc.ring .ioReadRing).init = true ∧ arrivedMachine.sh.waits nextBlock = false ∧
    arrivedMachine.sh.waits (nextBlock + pageSize) = false := by
  decide +kernel

end PageRank
end ExtMem
