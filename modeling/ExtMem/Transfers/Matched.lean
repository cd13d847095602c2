import ExtMem.Operations
import ExtMem.Transfers.Prefetch

/-! The main results about transfers: completions are matched to the transfers that need
them, when rings are used uninitialised, and what a failed transfer does. -/
namespace ExtMem
open Threads Threads.Prog Threads.Outline
open Books (NoRead)
variable {strict : Prop} {t : Tid} {l : Local} {o : Books} {α β : Type}

/-- The operations of the system and the parts of it that transfer pages, each on its own. -/
inductive PagingOperation : Paging Unit → Prop where
  | operation {p : Paging Unit} : Operation p → PagingOperation p
  | fault (addr : Nat) : PagingOperation (uswapSigHandler addr)
  | swapin (page : PageId) : PagingOperation (lrudiskSwapinExternal page)
  | swapinAsync (page : PageId) : PagingOperation (lrudiskSwapinExternalAsync page)
  | fetchFree : PagingOperation (do let _ ← fetchFreeAsynch; pure ())

/-! The operations that are left. -/

private theorem neutral_of_plain {p : Paging α} (h : Always Plain p) : Always Neutral p :=
  h.mono fun _ _ => Plain.neutral

private theorem neutral_addPage (d : PageId) : Always Neutral (addPage d) := by
  refine always_atomic fun e => ?_
  dsimp only
  by_cases h : (e.sh.pages (e.sh.page d).va).isNone = true
  · rw [if_pos h]
    exact ⟨rfl, rfl, [], rfl, fun _ => rfl⟩
  · rw [if_neg h]
    exact ⟨by simp, by simp, by simp⟩

private theorem neutral_removePage (d : PageId) : Always Neutral (removePage d) :=
  always_atomic fun _ => ⟨rfl, rfl, [], rfl, fun _ => rfl⟩

private theorem neutral_copyZeros (d : PageId) : Always Neutral (copyIn d .pageCache) := by
  refine always_bind (neutral_of_plain (by simp)) fun va =>
    always_bind (always_atomic fun e => ?_) fun done => ?_
  · rw [show e.bufferBytes .pageCache = some fun _ => 0 from rfl]
    dsimp only
    by_cases h : e.sh.vma va = .uffd ∧ (e.sh.pte va).isNone = true
    · rw [if_pos h]
      exact ⟨rfl, rfl, [.copied va .pageCache], rfl, fun _ => rfl⟩
    · rw [if_neg h]
      exact ⟨rfl, rfl, [], rfl, fun _ => rfl⟩
  · exact neutral_of_plain (by simp)

private theorem neutral_libcMunmap (a n : Nat) : Always Neutral (libcMunmap a n) := by
  refine always_bind (by simp) fun refuse => always_atomic fun e => ?_
  by_cases h : refuse % 2 = 1 ∨ n = 0 ∨ a % pageSize ≠ 0 ∨ taskSize < a + n
  · rw [if_pos h]
    exact ⟨rfl, rfl, [.refused], rfl, fun _ => rfl⟩
  · rw [if_neg h]
    exact ⟨rfl, rfl, [], rfl, fun _ => rfl⟩

private theorem neutral_libcMmap (a n : Nat) (flags : BitVec 32) :
    Always Neutral (libcMmap a n flags) := by
  refine always_bind (by simp) fun refuse =>
    always_bind (by simp) fun pick => always_atomic fun e => ?_
  generalize (if hasFlag flags mapFixed = true then a else pick) = p
  dsimp only
  by_cases h : refuse % 2 = 1 ∨ n = 0 ∨ p = 0 ∨ p % pageSize ≠ 0 ∨ taskSize < p + n
  · rw [if_pos h]
    exact ⟨rfl, rfl, [.refused], rfl, fun _ => rfl⟩
  · rw [if_neg h]
    by_cases h' : hasFlag flags mapFixed = false ∧ e.sh.rangeFree p n = false
    · rw [if_pos h']
      exact ⟨rfl, rfl, [.refused], rfl, fun _ => rfl⟩
    · rw [if_neg h']
      exact ⟨rfl, rfl, [.mapped p n], rfl, fun _ => rfl⟩

/-- A part of a program that is neutral leaves the thread at rest. -/
private theorem rest_neutral {p : Paging α} {q : α → Paging β} {R : β → Local → Books → Prop}
    (h : Always Neutral p) (hl : AtRest l o)
    (hq : ∀ a l o, AtRest l o → (transfers strict).Safe t (q a) R l o) :
    (transfers strict).Safe t (p >>= q) R l o :=
  safe_bind ((own_neutral RingOnly.keep h hl).mono hq)

private theorem rest_fetch {Q : PageId → Local → Books → Prop} {p : Paging PageId}
    (hp : ∀ b rd l o, Resting b rd l o → (transfers strict).Safe t p (fun _ => Resting b rd) l o)
    (hl : AtRest l o) (hq : ∀ a l o, AtRest l o → Q a l o) : (transfers strict).Safe t p Q l o := by
  obtain ⟨b, hb, h⟩ := hl
  exact (hp b NoRead l o h).mono fun a l o h => hq a l o ⟨b, hb, h⟩

private theorem rest_handleFirstFault (va : Nat) (h : AtRest l o) :
    (transfers strict).Safe t (handleFirstFault va) (fun _ => AtRest) l o := by
  refine own_skip (by simp) h fun _ l o h =>
    own_skip (by simp) h fun _ l o h => safe_bind ?_
  refine rest_fetch (fun b rd l o h => own_lrudiskPagefault h) h fun newpage l o h => ?_
  refine own_skip (by simp) h fun _ l o h => own_skip (by simp) h fun page l o h => ?_
  cases page with
  | some page =>
    exact own_skip (by simp) h fun _ l o h =>
      own_skip (by simp) h fun _ l o h => own_last (by simp) h
  | none =>
    refine own_skip (plain_modify fun e =>
      (PlainStep.setPage e newpage _).trans (PlainStep.startWork _ _)) h fun _ l o h =>
      own_skip (by simp) h fun _ l o h => ?_
    refine own_skip (by simp) h fun _ l o h =>
      own_skip (by simp) h fun _ l o h => ?_
    refine own_skip (by simp) h fun _ l o h =>
      own_skip (by simp) h fun _ l o h => ?_
    refine rest_neutral (neutral_addPage _) h fun _ l o h => own_skip (by simp) h fun _ l o h => ?_
    refine own_skip (plain_setLocal (fun _ => rfl) fun _ => rfl) h fun _ l o h => ?_
    refine own_skip (plain_setShared (fun _ => rfl) (fun _ => rfl) (fun _ => rfl) fun _ => rfl) h
      fun _ l o h => ?_
    refine own_skip (by simp) h fun _ l o h =>
      rest_neutral (neutral_copyZeros _) h fun _ l o h => ?_
    refine own_skip (plain_modify fun e =>
      (PlainStep.setPage e newpage _).trans (PlainStep.endWork _ _)) h fun _ l o h =>
      own_skip (by simp) h fun _ l o h => own_skip (by simp) h fun _ l o h => ?_
    refine own_skip (by simp) h fun size l o h => own_skip (by simp) h fun _ l o h => ?_
    exact own_skip (by simp) h fun _ l o h =>
      own_skip (by simp) h fun _ l o h => own_last (by simp) h

private theorem rest_handleMissingFault (page : PageId) (h : AtRest l o) :
    (transfers strict).Safe t (handleMissingFault page) (fun _ => AtRest) l o := by
  refine own_skip (by simp) h fun _ l o h => own_skip (by simp) h fun va l o h => ?_
  refine own_skip (by simp) h fun claim l o h => ?_
  have hwait : (transfers strict).Safe t (waitMigratingThen page (·.record (.resumed page)))
      (fun _ => AtRest) l o :=
    own_last (plain_waitMigratingThen page fun e => PlainStep.record e rfl) h
  cases claim with
  | mine =>
    refine own_skip (by simp) h fun l' l o h => ?_
    refine own_skip (plain_setLocal (fun _ => rfl) fun _ => rfl) h fun _ l o h => safe_bind ?_
    refine (own_lrudiskSwapinExternalAsync h).mono fun _ l o h =>
      own_skip (by simp) h fun _ l o h => ?_
    refine own_skip (by simp) h fun _ l o h =>
      own_skip (by simp) h fun _ l o h => ?_
    refine own_skip (by simp) h fun _ l o h =>
      own_skip (by simp) h fun _ l o h => safe_ite (fun _ => ?_) fun _ => ?_
    · exact safe_bind ((own_coreTryPrefetch h).mono fun _ l o h => own_last (by simp) h)
    · exact own_last (by simp) h
  | busy => exact hwait
  | handled => exact hwait
  | moved => exact hwait

private theorem rest_uswapSigHandler (addr : Nat) (h : AtRest l o) :
    (transfers strict).Safe t (uswapSigHandler addr) (fun _ => AtRest) l o := by
  refine own_skip (by simp) h fun _ l o h => own_skip (by simp) h fun page l o h => ?_
  cases page with
  | none => exact safe_bind ((rest_handleFirstFault _ h).mono fun _ l o h => own_last (by simp) h)
  | some page =>
    refine own_skip (by simp) h fun swappedOut l o h => safe_ite (fun _ => ?_) fun _ => ?_
    · refine safe_bind ((rest_handleMissingFault page h).mono fun _ l o h => ?_)
      exact own_skip (by simp) h fun _ l o h => own_last (by simp) h
    · exact own_skip (by simp) h fun _ l o h =>
        own_skip (by simp) h fun _ l o h => own_last (by simp) h

private theorem rest_access {addr : Nat} {attempt : Env → Outcome Abort Env (Option α)}
    (hp : Plain (Option α) attempt) (h : AtRest l o) :
    (transfers strict).Safe t (access addr attempt) (fun _ => AtRest) l o := by
  refine safe_loop (fun _ => AtRest) h fun _ l o h =>
    own_skip (always_atomic hp) h fun r l o h => ?_
  cases r with
  | some a => exact h
  | none => exact safe_bind ((rest_uswapSigHandler addr h).mono fun _ l o h => h)

private theorem rest_extmemMmap (addr length : Nat) (flags : BitVec 32) (h : AtRest l o) :
    (transfers strict).Safe t (extmemMmap addr length flags) (fun _ => AtRest) l o := by
  refine own_skip (by simp) h fun _ l o h => own_skip (by simp) h fun _ l o h => ?_
  refine own_skip (by simp) h fun _ l o h =>
    rest_neutral (neutral_libcMmap _ _ _) h fun p l o h => ?_
  cases p with
  | none => exact safe_fail (by rintro (h | h | ⟨-, h⟩) <;> cases h)
  | some p =>
    refine own_skip (plain_setShared (fun _ => rfl) (fun _ => rfl) (fun _ => rfl) fun _ => rfl) h
      fun _ l o h => ?_
    refine rest_neutral (always_atomic fun e => ⟨rfl, rfl, [], rfl, fun _ => rfl⟩) h fun _ l o h =>
      ?_
    refine safe_ite (fun _ => ?_) fun _ => ?_
    · refine safe_bind (own_skip (by simp) h fun _ l o h =>
        own_skip (by simp) h fun _ l o h => ?_)
      refine safe_loop (fun _ => AtRest) h fun va l o h => safe_ite (fun _ => ?_) fun _ => ?_
      · exact safe_bind ((rest_handleFirstFault va h).mono fun _ l o h => h)
      · exact own_skip (by simp) h fun _ l o h => own_skip (by simp) h fun _ l o h => h
    · exact own_skip (by simp) h fun _ l o h => own_skip (by simp) h fun _ l o h => h

private theorem neutral_unmapWalk (addr length : Nat) : Always Neutral (unmapWalk addr length) := by
  refine always_loop fun va => always_ite (always_bind ?_ fun next => trivial) trivial
  refine always_bind (neutral_of_plain (by simp)) fun page => ?_
  cases page with
  | none => trivial
  | some page =>
    refine always_bind (neutral_of_plain (by simp)) fun _ =>
      always_bind (neutral_removePage page) fun _ => ?_
    refine always_bind (neutral_of_plain (by simp)) fun _ =>
      always_bind (neutral_of_plain (by simp)) fun _ => ?_
    refine always_bind (neutral_of_plain (by simp)) fun _ =>
      always_bind (neutral_of_plain (by simp)) fun _ => ?_
    exact always_bind (neutral_of_plain (by simp)) fun _ => trivial

private theorem rest_extmemMunmap (addr length : Nat) (h : AtRest l o) :
    (transfers strict).Safe t (extmemMunmap addr length) (fun _ => AtRest) l o := by
  refine own_skip (by simp) h fun _ l o h => own_skip (by simp) h fun _ l o h => ?_
  refine rest_neutral (neutral_unmapWalk _ _) h fun _ l o h => ?_
  refine rest_neutral (neutral_libcMunmap _ _) h fun done l o h => safe_bind ?_
  cases done with
  | true => exact own_skip (by simp) h fun _ l o h => own_last (by simp) h
  | false => exact safe_fail (by rintro (h | h | ⟨-, h⟩) <;> cases h)

private theorem rest_worker {p : Paging Unit}
    (hp : ∀ b rd l o, Resting b rd l o → (transfers strict).Safe t p (fun _ => Resting b rd) l o)
    (hl : AtRest l o) : (transfers strict).Safe t p (fun _ => AtRest) l o := by
  obtain ⟨b, hb, h⟩ := hl
  exact (hp b NoRead l o h).mono fun _ l o h => ⟨b, hb, h⟩

/-- Every operation that starts with nothing under way ends so. -/
theorem rest_pagingOperation {p : Paging Unit} (hp : PagingOperation p) (h : AtRest l o) :
    (transfers strict).Safe t p (fun _ => AtRest) l o := by
  cases hp with
  | fault addr => exact rest_uswapSigHandler addr h
  | swapin page =>
    obtain ⟨b, hb, h⟩ := h
    exact (own_lrudiskSwapinExternal hb h).mono fun _ l o h => ⟨b, hb, h⟩
  | swapinAsync page => exact own_lrudiskSwapinExternalAsync h
  | fetchFree =>
    exact safe_bind (rest_fetch (fun b rd l o h => own_fetchFreeAsynch h) h fun _ l o h => h)
  | operation hop =>
    cases hop with
    | load addr => exact safe_bind ((rest_access (plain_loadByte addr) h).mono fun _ l o h => h)
    | store addr byte => exact rest_access (plain_storeByte addr byte) h
    | prefetch base => exact safe_bind ((own_coreTryPrefetch h).mono fun _ l o h => h)
    | kswapd => exact own_last (by simp) h
    | shrinkActive n => exact own_last (by simp) h
    | shrinkInactive n => exact own_last (by simp) h
    | evictionworker => exact rest_worker (fun b rd l o h => own_lrudiskEvictionworker h) h
    | evictionworkerVector =>
      exact rest_worker (fun b rd l o h => own_lrudiskEvictionworkerVector h) h
    | mmap addr length flags =>
      refine safe_bind (safe_ite (fun _ => h) fun _ => safe_ite (fun _ => h) fun _ => ?_)
      refine own_skip (by simp) h fun internalCall l o h => safe_ite (fun _ => h) fun _ => ?_
      refine own_skip (by simp) h fun isInit l o h =>
        safe_ite (fun _ => h) fun _ => safe_ite (fun _ => h) fun _ => ?_
      exact safe_bind ((rest_extmemMmap addr length flags h).mono fun _ l o h => h)
    | munmap addr length =>
      refine safe_bind (own_skip (by simp) h fun internalCall l o h =>
        safe_ite (fun _ => h) fun _ => ?_)
      exact safe_bind ((rest_extmemMunmap addr length h).mono fun _ l o h => h)

/-! What holds in every configuration. -/

theorem initial_books {c : System} (h : Initial c) (t : Tid) : books t c.sh.log = Books.empty := by
  refine notes_plain (fun ev hev => ?_) _
  obtain ⟨x, hx, rfl⟩ := List.mem_map.mp hev
  exact h.log x (List.mem_of_mem_filter hx)

/-- The rule under which rings are ready whenever a thread goes on to submit. -/
def readyRings (t : Tid) (c : System) (s' : Shared) : Prop :=
  ∀ x ∈ newEvents c.sh s', ReadyRings (c.loc t).ring x.2

private theorem reach_transfers (strict : Prop) {rule : Tid → System → Shared → Prop}
    {c₀ c : System} (hrule : ∀ t c s', rule t c s' → strict → readyRings t c s') (h₀ : Initial c₀)
    (h : Conf.Reach PagingOperation rule c₀ c) :
    ∃ G, (transfers strict).inv c.sh c.loc G ∧
      ∀ t, (transfers strict).Safe t (c.thr t) (fun _ => AtRest) (c.loc t) (G t) := by
  have hrest (t : Tid) : AtRest (c₀.loc t) Books.empty :=
    ⟨(c₀.loc t).ring .ioReadRing, h₀.rings t _, h₀.rings t _, rfl, fun _ => rfl, rfl⟩
  refine reach_safe (Λ := transfers strict) (fun t c G s' hr _ => hrule t c s' hr)
    (fun t p hp l g hl => rest_pagingOperation hp hl)
    ⟨fun _ => Books.empty, fun t => ?_, fun t => ?_⟩ h
  · refine ⟨h₀.tid t, (initial_books h₀ t).symm, ?_⟩
    refine ⟨fun r => ?_, fun r _ => h₀.rings t r, ?_, ?_, rfl, ?_⟩
    · rw [(h₀.rings t r).1, (h₀.rings t r).2]
      exact Nat.zero_le _
    · rw [(h₀.rings t _).1, (h₀.rings t _).2]
      simp
    · rw [(h₀.rings t _).2, (h₀.rings t _).2]
      exact List.Perm.refl _
    · simp [Books.empty, Books.Owes]
  · rw [h₀.quiet t]
    exact hrest t

/-- A thread that has finished an operation has nothing on its rings. -/
theorem rings_at_rest {c₀ c : System} {t : Tid} (h₀ : Initial c₀)
    (h : Conf.Reach PagingOperation anyStep c₀ c) (hret : c.thr t = .ret ()) (r : RingName) :
    ((c.loc t).ring r).sq = [] ∧ ((c.loc t).ring r).outstanding = [] := by
  obtain ⟨G, -, hsafe⟩ := reach_transfers False (fun _ _ _ _ h => h.elim) h₀ h
  have hr := hsafe t
  rw [hret] at hr
  obtain ⟨b, hb, hr⟩ : AtRest (c.loc t) (G t) := hr
  exact forall_ringName (p := fun r => ((c.loc t).ring r).Idle) hr.idle (hr.readRing ▸ hb) r

/-- Completions are matched: on both rings at most the queue depth is prepared and outstanding,
no thread waits for a completion with nothing outstanding, no page is mapped from a buffer or
unmapped before its read or its write-back is done, and a thread that has finished an operation
has nothing under way. -/
theorem completions_matched {c₀ c : System} (h₀ : Initial c₀)
    (h : Conf.Reach PagingOperation anyStep c₀ c) (t : Tid) :
    (∀ r, ((c.loc t).ring r).sq.length + ((c.loc t).ring r).outstanding.length ≤ queueDepth) ∧
    ¬ c.CanAbort t .emptyWait ∧ ¬ c.CanAbort t .uninitialisedWait ∧
    (books t c.sh.log).late = false ∧ (c.thr t = .ret () →
        ∀ r, ((c.loc t).ring r).sq = [] ∧ ((c.loc t).ring r).outstanding = []) := by
  obtain ⟨G, hinv, hsafe⟩ := reach_transfers False (fun _ _ _ _ h => h.elim) h₀ h
  obtain ⟨-, hG, hs⟩ := hinv t
  refine ⟨hs.bounded, fun ha => ?_, fun ha => ?_, by rw [← hG]; exact hs.honest.timely,
    rings_at_rest h₀ h⟩
  · exact not_bad_of_canAbort hinv (hsafe t) ha (.inl rfl)
  · exact not_bad_of_canAbort hinv (hsafe t) ha (.inr (.inl rfl))

/-- The configuration that the eviction of a dirty page and its return lead to. -/
def evicted (faulty : Bool) : System := System.start ((smallMachine faulty).story evictingStory)

theorem reach_evicted (faulty : Bool) :
    Conf.Reach PagingOperation anyStep (System.start (smallMachine faulty)) (evicted faulty) := by
  refine (reach_story evictingStory .init
    (fun x hx => .operation (operation_evictingStory x hx)) ?_).mono fun _ _ _ _ => trivial
  cases faulty <;> decide +kernel

theorem completions_matched_evicted : ¬ (evicted false).CanAbort 0 .emptyWait ∧
    ∀ r, (((evicted false).loc 0).ring r).outstanding = [] := by
  obtain ⟨-, h, -, -, hr⟩ :=
    completions_matched (initial_smallMachine false) (reach_evicted false) 0
  exact ⟨h, fun r => (hr rfl r).2⟩

/-- With the rings ready, no thread submits to or waits on a ring that it has not initialised. -/
theorem uses_initialised {c₀ c : System} (h₀ : Initial c₀)
    (h : Conf.Reach PagingOperation readyRings c₀ c) (t : Tid) :
    ¬ c.CanAbort t .uninitialisedSubmit ∧ ¬ c.CanAbort t .uninitialisedWait := by
  obtain ⟨G, hinv, hsafe⟩ := reach_transfers True (fun _ _ _ h _ => h) h₀ h
  refine ⟨fun ha => ?_, fun ha => ?_⟩
  · exact not_bad_of_canAbort hinv (hsafe t) ha (.inr (.inr ⟨trivial, rfl⟩))
  · exact not_bad_of_canAbort hinv (hsafe t) ha (.inr (.inl rfl))

/-- Every transfer of the thread that completed reported its whole size. -/
def CompletedInFull (t : Tid) (log : List (Tid × Event)) : Prop :=
  ∀ sqe res, (t, .completed sqe res) ∈ log → res = sqe.size

private theorem short_notes (evs : List Event) (o : Books) (ho : o.short = false) :
    (Books.notes evs o).short = true ↔
    ∃ sqe res, Event.completed sqe res ∈ evs ∧ res ≠ sqe.size := by
  induction evs with
  | nil => simp [ho]
  | cons ev evs ih =>
    rw [Books.notes_cons]
    have hcons : (∃ sqe res, Event.completed sqe res ∈ ev :: evs ∧ res ≠ sqe.size) ↔
        (∃ sqe res, ev = .completed sqe res ∧ res ≠ sqe.size) ∨
          ∃ sqe res, Event.completed sqe res ∈ evs ∧ res ≠ sqe.size := by
      simp only [List.mem_cons, eq_comm (a := Event.completed _ _)]
      constructor
      · rintro ⟨sqe, res, he | he, hr⟩
        · exact .inl ⟨sqe, res, he, hr⟩
        · exact .inr ⟨sqe, res, he, hr⟩
      · rintro (⟨sqe, res, he, hr⟩ | ⟨sqe, res, he, hr⟩)
        · exact ⟨sqe, res, .inl he, hr⟩
        · exact ⟨sqe, res, .inr he, hr⟩
    rw [hcons, ← ih]
    by_cases hev : ∃ sqe res, ev = .completed sqe res
    · obtain ⟨sqe, res, rfl⟩ := hev
      have hs : (Books.note (.completed sqe res) (Books.notes evs o)).short =
          ((Books.notes evs o).short || !(res == sqe.size)) := by
        simp only [Books.note, Books.complete]
        split <;> rfl
      rw [hs]
      simp [or_comm]
    · have hs : (Books.note ev (Books.notes evs o)).short = (Books.notes evs o).short := by
        cases ev with
        | completed sqe res => exact absurd ⟨sqe, res, rfl⟩ hev
        | copied va src => cases src <;> rfl
        | submitted sqe =>
          simp only [Books.note]
          split <;> rfl
        | _ => rfl
      rw [hs]
      constructor
      · exact .inr
      · rintro (⟨sqe, res, rfl, -⟩ | h)
        · exact absurd ⟨sqe, res, rfl⟩ hev
        · exact h

private theorem short_iff (t : Tid) (log : List (Tid × Event)) :
    (books t log).short = false ↔ CompletedInFull t log := by
  have h := short_notes (ownEvents t log) Books.empty rfl
  rw [← Bool.not_eq_true, books, h]
  have hmem (ev : Event) : ev ∈ ownEvents t log ↔ (t, ev) ∈ log := by
    simp [ownEvents]
  simp only [hmem, CompletedInFull, not_exists, not_and, not_not, ne_eq]

/-- No page was mapped or unmapped on the strength of a transfer that was not complete, as long
as all transfers complete in full; and whenever the thread has finished an operation that is
exactly the case. -/
theorem transfers_trusted {c₀ c : System} (h₀ : Initial c₀)
    (h : Conf.Reach PagingOperation anyStep c₀ c) (t : Tid) :
    (CompletedInFull t c.sh.log → (books t c.sh.log).late = false ∧ (books t c.sh.log).damaged =
        false) ∧ (c.thr t = .ret () → ((books t c.sh.log).late = false ∧
        (books t c.sh.log).damaged = false ↔ CompletedInFull t c.sh.log)) := by
  obtain ⟨G, hinv, hsafe⟩ := reach_transfers False (fun _ _ _ _ h => h.elim) h₀ h
  obtain ⟨-, hG, hs⟩ := hinv t
  have hlate : (books t c.sh.log).late = false := by
    rw [← hG]
    exact hs.honest.timely
  have htraced := hs.honest.traced
  rw [hG] at htraced
  have hone (hf : CompletedInFull t c.sh.log) : (books t c.sh.log).damaged = false := by
    rw [← short_iff] at hf
    by_contra hd
    rw [htraced.mpr (.inl (by simpa using hd))] at hf
    cases hf
  refine ⟨fun hf => ⟨hlate, hone hf⟩, fun hret => ⟨fun hd => ?_, fun hf => ⟨hlate, hone hf⟩⟩⟩
  have hr := hsafe t
  rw [hret] at hr
  obtain ⟨b, hb, hr⟩ : AtRest (c.loc t) (G t) := hr
  rw [hG] at hr
  rw [← short_iff]
  by_contra hn
  rcases htraced.mp (by simpa using hn) with hd' | ⟨b', hb'⟩ | ⟨d, ho, -⟩
  · rw [hd.2] at hd'
    cases hd'
  · rw [hr.read] at hb'
    cases hb'
  · rw [hr.settled d] at ho
    cases ho

theorem transfers_trusted_evicted : (books 0 (evicted false).sh.log).late = false ∧
    (books 0 (evicted false).sh.log).damaged = false ↔ CompletedInFull 0 (evicted false).sh.log :=
  (transfers_trusted (initial_smallMachine false) (reach_evicted false) 0).2 rfl

/-- On a device that moves no byte a dirty page is unmapped all the same. -/
theorem failed_writeback_trusted :
    ∃ c₀ c : System, Initial c₀ ∧ Conf.Reach PagingOperation anyStep c₀ c ∧ c.thr 0 = .ret () ∧
      ¬ ((books 0 c.sh.log).late = false ∧ (books 0 c.sh.log).damaged = false) := by
  refine ⟨_, evicted true, initial_smallMachine true, reach_evicted true, rfl, fun h => ?_⟩
  have hd : (books 0 (evicted true).sh.log).damaged = true := by decide +kernel
  rw [h.2] at hd
  cases hd

end ExtMem
