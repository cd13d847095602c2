import ExtMem.Serial.OutOfMemory
import ExtMem.Serial.Ranges
import ExtMem.Threads.Rounds

/-! Where one operation ends before the next one starts, the pager is flat memory: what is loaded
is what was stored, whatever is evicted, brought back or prefetched in between. -/
namespace ExtMem
open Threads Threads.Prog

variable {n : Nat} {frames : List Frame} {dramsize disksize : Nat} {e e' : Env} {m : Nat → Bytes}
  {c : System}

/-- What the program asked for with what it got, and what the pager did by itself. -/
inductive Answer where
  | loaded (addr : Nat) (byte : UInt8)
  | stored (addr : Nat) (byte : UInt8)
  | mapped (addr length : Nat) (flags : BitVec 32) (result : Option Nat)
  | unmapped (addr length : Nat) (handled : Bool)
  | prefetched (base count : Nat)
  | reclaimed
  | shrunkActive (nrPages moved : Nat)
  | shrunkInactive (nrPages moved : Nat)
  | evicted
  | evictedVector
  deriving DecidableEq, Repr

namespace Answer

/-- A thread alone gets this answer. -/
def Given : Answer → Env → Env → Prop
  | loaded addr byte, e, e' => Runs (userLoad addr) e byte e'
  | stored addr byte, e, e' => Runs (userStore addr byte) e () e'
  | mapped addr length flags result, e, e' => Runs (mmapFilter addr length flags) e result e'
  | unmapped addr length handled, e, e' => Runs (munmapFilter addr length) e handled e'
  | prefetched base count, e, e' => Runs (coreTryPrefetch base) e count e'
  | reclaimed, e, e' => Runs lrudiskSynchkswapd e () e'
  | shrunkActive nrPages moved, e, e' => Runs (shrinkActiveList nrPages) e moved e'
  | shrunkInactive nrPages moved, e, e' => Runs (shrinkInactiveList nrPages) e moved e'
  | evicted, e, e' => Runs lrudiskEvictionworker e () e'
  | evictedVector, e, e' => Runs lrudiskEvictionworkerVector e () e'

theorem operation {x : Answer} (h : x.Given e e') : ∃ p, Operation p ∧ Runs p e () e' := by
  cases x with
  | loaded addr byte => exact ⟨_, .load addr, h.bind (.ret _ _)⟩
  | stored addr byte => exact ⟨_, .store addr byte, h⟩
  | mapped addr length flags result => exact ⟨_, .mmap addr length flags, h.bind (.ret _ _)⟩
  | unmapped addr length handled => exact ⟨_, .munmap addr length, h.bind (.ret _ _)⟩
  | prefetched base count => exact ⟨_, .prefetch base, h.bind (.ret _ _)⟩
  | reclaimed => exact ⟨_, .kswapd, h⟩
  | shrunkActive nrPages moved => exact ⟨_, .shrinkActive nrPages, h.bind (.ret _ _)⟩
  | shrunkInactive nrPages moved => exact ⟨_, .shrinkInactive nrPages, h.bind (.ret _ _)⟩
  | evicted => exact ⟨_, .evictionworker, h⟩
  | evictedVector => exact ⟨_, .evictionworkerVector, h⟩

/-- A mapping at a fixed place is asked for only where no page is tracked. A call that is left to
the kernel is not modelled beyond that: at a fixed place it replaces nothing that the pager
manages. -/
def Fresh : Answer → Shared → Prop
  | mapped addr length flags (some _), s => ExtMem.Fresh s addr length flags
  | mapped addr length flags none, s =>
    hasFlag flags mapFixed = true →
      ∀ a, inRange addr (pageRoundUp length) a = true → s.vma a ≠ .uffd
  | _, _ => True

/-- What flat memory, one byte for each address, does at a call, with the same answer. -/
def Flat : Answer → (Nat → UInt8) → (Nat → UInt8) → Prop
  | loaded addr byte, mem, mem' => byte = mem addr ∧ mem' = mem
  | stored addr byte, mem, mem' => mem' = Function.update mem addr byte
  | unmapped addr length true, mem, mem' =>
    mem' = fun a => if inRange addr (roundLength length) a then 0 else mem a
  | _, mem, mem' => mem' = mem

end Answer

/-- The byte of the program's memory at an address, wherever the pager keeps it. -/
def Shared.contents (s : Shared) (addr : Nat) : UInt8 :=
  match s.pages (pageBoundry addr) with
  | none => 0
  | some d =>
    if (s.page d).swappedOut then s.disk (s.page d).virtualOffset.offset (pageOffset addr)
    else match s.pte (pageBoundry addr) with
      | some p => p.bytes (pageOffset addr)
      | none => 0

/-- Calls by any threads, one after the other, of a process that has started. -/
def Played (dramsize disksize : Nat) (l : List (Tid × Answer)) (c : System) : Prop :=
  ∃ e, Launched dramsize disksize e ∧ e.sh.faulty = false ∧
    Conf.Rounds Answer.Given Answer.Fresh (System.start e) l c

/-! Bytes and pages. -/

private theorem addr_ext {a b : Nat} (h₁ : pageBoundry a = pageBoundry b)
    (h₂ : pageOffset a = pageOffset b) : a = b := by
  have h₂ : a % pageSize = b % pageSize := congrArg Fin.val h₂
  have h₁ : a / pageSize * pageSize = b / pageSize * pageSize := h₁
  rw [← Nat.div_add_mod' a pageSize, h₁, h₂, Nat.div_add_mod']

theorem byteAt_storeAt (m : Nat → Bytes) (addr : Nat) (byte : UInt8) :
    byteAt (storeAt m addr byte) = Function.update (byteAt m) addr byte := by
  funext a
  show storeAt m addr byte (pageBoundry a) (pageOffset a) = _
  unfold storeAt
  rw [Function.update_apply (byteAt m)]
  split
  · next ha =>
    rw [ha, Function.update_self, Function.update_self]
  · next ha =>
    by_cases hb : pageBoundry a = pageBoundry addr
    · rw [hb, Function.update_self, Function.update_of_ne fun hc => ha (addr_ext hb hc)]
      rw [byteAt, hb]
    · rw [Function.update_of_ne hb]
      rfl

/-- A page lies in a range of whole pages where its bytes do. -/
theorem inRange_pageBoundry {addr a : Nat} (length : Nat) (hal : addr % pageSize = 0) :
    inRange addr (roundLength length) (pageBoundry a) = inRange addr (roundLength length) a := by
  have hps : pageSize = 4096 := rfl
  simp only [inRange, roundLength, pageBoundry, hps] at hal ⊢
  rw [Bool.eq_iff_iff]
  simp only [Bool.and_eq_true, decide_eq_true_eq]
  omega

/-- The contents are what is held. -/
theorem Steady.contents (h : Steady m e) {addr : Nat} (hv : e.sh.vma (pageBoundry addr) = .uffd) :
    e.sh.contents addr = byteAt m addr := by
  have hs := h.holds
  have ha : pageBoundry addr ≠ 0 := by
    intro hc
    rw [hc] at hv
    exact hs.nowhere hv
  unfold Shared.contents byteAt
  cases hp : e.sh.pages (pageBoundry addr) with
  | none =>
    rw [hs.blank _ hp]
    rfl
  | some d =>
    dsimp only
    cases hout : (e.sh.page d).swappedOut with
    | true =>
      rw [if_pos rfl]
      exact congrFun (hs.away _ d ha hp hout).2 _
    | false =>
      rw [if_neg Bool.false_ne_true]
      obtain ⟨p, hpte, hb⟩ := hs.here _ d ha hp hout
      rw [hpte, ← hb]

/-! Every call is answered as flat memory answers it. -/

/-- Only a mapping that the pager makes must be fresh. -/
private theorem Steady.mmapFilter {addr length : Nat} {flags : BitVec 32} (h : Steady m e)
    (hset : Settled n frames e.sh.skeleton) (hf : frames.Nodup) :
    After (mmapFilter addr length flags) e fun r e' =>
        (r ≠ none → ExtMem.Fresh e.sh addr length flags) → Steady m e' := by
  have hno : After (pure none : Paging (Option Nat)) e fun r e' =>
      (r ≠ none → ExtMem.Fresh e.sh addr length flags) → Steady m e' :=
    (after_pure _ _ _).mpr fun _ => h
  unfold ExtMem.mmapFilter
  refine (after_ite _ _ _ _).mpr
    ⟨fun _ => hno, fun _ => (after_ite _ _ _ _).mpr ⟨fun _ => hno, fun _ => ?_⟩⟩
  refine (after_bind _ _ _ _).mpr
    ((after_read _ _ _).mpr ((after_ite _ _ _ _).mpr ⟨fun _ => hno, fun _ => ?_⟩))
  refine (after_bind _ _ _ _).mpr
    ((after_read _ _ _).mpr ((after_ite _ _ _ _).mpr ⟨fun _ => hno, fun _ => ?_⟩))
  refine (after_ite _ _ _ _).mpr ⟨fun _ => hno, fun _ => ?_⟩
  refine after_then (R := fun _ e' => ExtMem.Fresh e.sh addr length flags → Steady m e')
    (fun p e' hr hfresh => ?_) fun p e' h' => ?_
  · exact h.mmap hset hf hfresh p e' hr
  · exact (after_pure _ _ _).mpr fun hfresh => h' (hfresh nofun)

private theorem Steady.munmapFilter {addr length : Nat} (h : Steady m e)
    (hset : Settled n frames e.sh.skeleton) :
    After (munmapFilter addr length) e fun handled e' =>
        if handled then addr % pageSize = 0 ∧ Steady (fun a =>
        if inRange addr (roundLength length) a then zeroes else m a) e' else Steady m e' := by
  unfold ExtMem.munmapFilter
  refine (after_bind _ _ _ _).mpr ((after_read _ _ _).mpr
    ((after_ite _ _ _ _).mpr ⟨fun _ => (after_pure _ _ _).mpr h, fun _ => ?_⟩))
  refine after_then ((h.munmap hset).and (after_extmemMunmap rfl hset)) fun _ e' ⟨h', hu⟩ =>
    (after_pure _ _ _).mpr ?_
  exact ⟨hu.aligned, h'⟩

/-- One call: flat memory gives the same answer, and what it holds then is what the pager holds. -/
theorem Answer.Given.flat {x : Answer} (hx : x.Given e e') (h : Steady m e)
    (hset : Settled n frames e.sh.skeleton) (hf : frames.Nodup) (hfresh : x.Fresh e.sh) :
    ∃ m', x.Flat (byteAt m) (byteAt m') ∧ Steady m' e' := by
  cases x with
  | loaded addr byte =>
    obtain ⟨h', hb⟩ := h.load hset hf _ _ hx
    exact ⟨m, ⟨hb, rfl⟩, h'⟩
  | stored addr byte => exact ⟨_, byteAt_storeAt m addr byte, h.store hset hf _ _ hx⟩
  | mapped addr length flags result =>
    refine ⟨m, rfl, h.mmapFilter hset hf _ _ hx fun hsome => ?_⟩
    cases result with
    | some p => exact hfresh
    | none => exact absurd rfl hsome
  | unmapped addr length handled =>
    have h' := h.munmapFilter hset _ _ hx
    cases handled with
    | false => exact ⟨m, rfl, h'⟩
    | true =>
      obtain ⟨hal, h'⟩ := h'
      refine ⟨_, ?_, h'⟩
      funext a
      show (if inRange addr (roundLength length) (pageBoundry a) then zeroes else m (pageBoundry a))
        (pageOffset a) = _
      rw [inRange_pageBoundry length hal]
      split <;> rfl
  | prefetched base count => exact ⟨m, rfl, h.prefetch rfl hset.whole hf _ _ hx⟩
  | reclaimed => exact ⟨m, rfl, h.after (within_lrudiskSynchkswapd scanning_gentle) _ _ hx⟩
  | shrunkActive nrPages moved => exact ⟨m, rfl, h.after
      (within_shrinkActiveList scanning_gentle nrPages) _ _ hx⟩
  | shrunkInactive nrPages moved =>
    exact ⟨m, rfl, h.after (within_shrinkInactiveList scanning_gentle nrPages) _ _ hx⟩
  | evicted => exact ⟨m, rfl, h.sustained (h.start.lrudiskEvictionworker rfl hset.whole hf _ _ hx)⟩
  | evictedVector =>
    exact ⟨m, rfl, h.sustained (h.start.lrudiskEvictionworkerVector rfl hset.whole hf _ _ hx)⟩

/-! Whole runs. -/

theorem Played.paused {l : List (Tid × Answer)} (h : Played dramsize disksize l c) :
    Paused dramsize disksize c := by
  obtain ⟨e, he, -, hr⟩ := h
  refine ⟨⟨e, he, hr.reach (fun _ => rfl) fun x e e' hx => x.operation hx⟩, fun t => ?_⟩
  rw [hr.thr]
  rfl

/-- What all threads hold between operations, in pages. -/
private def Held (m : Nat → Bytes) (s : Shared) : Prop :=
  Stored m s.skeleton s.pte s.disk (fun a => ((s.pte a).map (·.dirty)).getD false = false) ∧
    s.faulty = false

private theorem Held.steady (h : Held m c.sh) (hp : Paused dramsize disksize c) (t : Tid) :
    Steady m ⟨c.sh, c.loc t⟩ := by
  obtain ⟨hsq, hout⟩ := hp.rings t .ioRing
  obtain ⟨hsq', hout'⟩ := hp.rings t .ioReadRing
  refine ⟨h.1, ⟨hsq, hout, h.2⟩, ?_⟩
  show (c.loc t).ring .ioReadRing = _ ∨ (c.loc t).ring .ioReadRing = _
  cases hr : (c.loc t).ring .ioReadRing with
  | mk init sq outstanding =>
    rw [hr] at hsq' hout'
    cases hsq'
    cases hout'
    cases init
    · exact .inl rfl
    · exact .inr rfl

private theorem Launched.pages (h : Launched dramsize disksize e) {a : Nat} (ha : a ≠ 0) :
    e.sh.pages a = none := by
  show e.sh.skeleton.pages a = none
  rw [h.skeleton]
  exact Function.update_of_ne (f := fun _ => none) ha _

private theorem held_start (h : Launched dramsize disksize e) (hf : e.sh.faulty = false) :
    Held (fun _ => zeroes) e.sh := by
  have hpages (a : Nat) (ha : a ≠ 0) : e.sh.skeleton.pages a = none := h.pages ha
  have hvma (a : Nat) : e.sh.skeleton.vma a ≠ .uffd := by
    rw [h.skeleton]
    show (Skeleton.fill _ _ _ _ _).vma a ≠ .uffd
    rw [(Skeleton.fill_frame _ _ _ _ _).2.1, (Skeleton.fill_frame _ _ _ _ _).2.1]
    nofun
  have hno {a : Nat} {d : PageId} (ha : a ≠ 0) (hd : e.sh.skeleton.pages a = some d) : False := by
    rw [hpages a ha] at hd
    cases hd
  exact ⟨⟨fun a d ha hd => (hno ha hd).elim, fun a d ha hd => (hno ha hd).elim, fun a d r ha hd =>
    (hno ha hd).elim, fun a hv => absurd hv (hvma a), fun _ _ => rfl, hvma 0⟩, hf⟩

/-- Flat memory goes along with every serial run and holds what the threads hold. -/
private theorem Played.held {l : List (Tid × Answer)} (h : Played dramsize disksize l c) :
    ∃ mem, Steps Answer.Flat (fun _ => 0) (l.map (·.2)) mem ∧
      ∃ m, Held m c.sh ∧ mem = byteAt m := by
  obtain ⟨e, he, hf, hr⟩ := h
  refine hr.simulated (fun c mem => ∃ m, Held m c.sh ∧ mem = byteAt m) ⟨_, held_start he hf, rfl⟩
    fun l c t x e' mem hl ⟨m, hm, hmem⟩ hfresh hx => ?_
  have hp : Paused dramsize disksize c := Played.paused ⟨e, he, hf, hl⟩
  obtain ⟨m', hflat, h'⟩ := hx.flat (hm.steady hp t) hp.settled (nodup_initFrames _ _) hfresh
  subst hmem
  exact ⟨_, hflat, m', ⟨h'.holds, h'.idle.sound⟩, rfl⟩

/-- Over every serial run flat memory gives the answers that the pager gives, and ends with the
contents that the pager's memory has. -/
theorem Played.transparent {l : List (Tid × Answer)} (h : Played dramsize disksize l c) :
    ∃ mem, Steps Answer.Flat (fun _ => 0) (l.map (·.2)) mem ∧
      ∀ addr, c.sh.vma (pageBoundry addr) = .uffd → c.sh.contents addr = mem addr := by
  obtain ⟨mem, hsteps, m, hheld, hmem⟩ := h.held
  refine ⟨mem, hsteps, fun addr hv => ?_⟩
  rw [hmem]
  exact (hheld.steady h.paused 0).contents hv

/-- In such a run a mapping holds zeros when mmap returns, also where the call has evicted what it
populated. -/
theorem Played.mapped_zero {l : List (Tid × Answer)} (h : Played dramsize disksize l c) (t : Tid)
    {addr length p : Nat} {flags : BitVec 32}
    (hr : Runs (mmapFilter addr length flags) ⟨c.sh, c.loc t⟩ (some p) e)
    (hfresh : ExtMem.Fresh c.sh addr length flags) {a : Nat}
    (ha : inRange p (pageRoundUp length) (pageBoundry a) = true) : e.sh.contents a = 0 := by
  obtain ⟨-, -, m, hheld, -⟩ := h.held
  have hset := h.paused.settled
  have hs := hheld.steady h.paused t
  have hmapped := (after_mmapFilter rfl hset _ _ hr).1
  have hnone : c.sh.pages (pageBoundry a) = none :=
    untracked_of_placed hset hmapped.placed hfresh _ ha
  have hv : e.sh.vma (pageBoundry a) = .uffd := by
    rw [show e.sh.vma = _ from hmapped.vma]
    exact if_pos ha
  rw [(hs.mmapFilter hset (nodup_initFrames _ _) _ _ hr fun _ => hfresh).contents hv, byteAt,
    hs.holds.blank _ hnone]
  rfl

/-! A played run of the roomy machine. -/

/-- The state after a program that ends within three thousand nodes. -/
def Threads.Ctx.past {α : Type} (e : Env) (p : Paging α) : Env :=
  ((exec 3000 [] p e).map (·.2)).getD e

theorem runs_past {α : Type} {p : Paging α} {a : α} (h : (exec 3000 [] p e).map (·.1) = some a) :
    Runs p e a (e.past p) := by
  obtain ⟨⟨b, e'⟩, he, hb⟩ := Option.map_eq_some_iff.mp h
  cases hb
  rw [Threads.Ctx.past, he]
  exact exec_runs he

theorem Played.start (h : Launched dramsize disksize e) (hf : e.sh.faulty = false) :
    Played dramsize disksize [] (System.start e) :=
  ⟨e, h, hf, .nil⟩

/-- The first thread goes on. -/
theorem Played.next {l : List (Tid × Answer)} (h : Played dramsize disksize l (System.start e))
    (x : Answer) (hx : x.Given e e') (hfresh : x.Fresh e.sh) :
    Played dramsize disksize (l ++ [(0, x)]) (System.start e') := by
  obtain ⟨e₀, he, hf, hr⟩ := h
  have hloc : (System.start e).loc 0 = e.loc := by simp [System.start, System.idle]
  have hup :
      Function.update (System.start e).loc 0 e'.loc = Function.update Local.fresh 0 e'.loc := by
    simp [System.start, System.idle]
  have hnext := hr.snoc (t := 0) (x := x) (e := e') hfresh (by rw [hloc]; exact hx)
  rw [hup] at hnext
  exact ⟨e₀, he, hf, hnext⟩

/-- The page that was stored to is evicted for the third one and comes back for the last load. -/
theorem transparent_roomyMachine :
    ∃ mem, Steps Answer.Flat
        (fun _ => 0) [.mapped smallBase minMmapLength (mapAnonymous ||| mapFixed ||| mapPrivate)
        (some smallBase), .stored smallBase 7, .loaded (smallBase + pageSize) 0,
        .loaded (smallBase + 2 * pageSize) 0, .loaded smallBase 7] mem := by
  have hfresh : ExtMem.Fresh roomyMachine.sh smallBase minMmapLength
      (mapAnonymous ||| mapFixed ||| mapPrivate) := by
    intro _ a ha
    refine launched_roomyMachine.pages fun h => ?_
    rw [h] at ha
    exact absurd ha (by decide)
  have hplay := Played.start launched_roomyMachine (by decide +kernel)
  have hplay := hplay.next
    (.mapped smallBase minMmapLength (mapAnonymous ||| mapFixed ||| mapPrivate) (some smallBase))
    (runs_past (by decide +kernel)) hfresh
  have hplay := hplay.next (.stored smallBase 7) (runs_past (by decide +kernel)) trivial
  have hplay :=
    hplay.next (.loaded (smallBase + pageSize) 0) (runs_past (by decide +kernel)) trivial
  have hplay :=
    hplay.next (.loaded (smallBase + 2 * pageSize) 0) (runs_past (by decide +kernel)) trivial
  have hplay := hplay.next (.loaded smallBase 7) (runs_past (by decide +kernel)) trivial
  obtain ⟨mem, hsteps, -⟩ := hplay.transparent
  exact ⟨mem, hsteps⟩

end ExtMem
