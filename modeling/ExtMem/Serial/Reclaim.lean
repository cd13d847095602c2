import ExtMem.Operations
import ExtMem.Serial.Examine

/-! A reclaim pass loses no page and duplicates none, and it does not overshoot. -/
namespace ExtMem
open Threads Threads.Prog

variable {d : PageId} {e e' e₁ e₂ : Env} {acc : Bool} {added added' : List PageId}
  {nr ret tries : Nat} {α : Type}

/-- The page is on one of the two lists of pages in use. -/
def Shared.inUse (s : Shared) (d : PageId) : Prop :=
  s.list d = some .activeList ∨ s.list d = some .inactiveList

/-- In a trace, newest event first, each page that goes to the eviction list does so right
after its accessed bit read as clear. -/
def EvictsUnaccessed (va : PageId → Nat) : List (Tid × Event) → Prop
  | [] => True
  | (_, .enqueued .evictionList d) :: evs =>
    (∃ t dirty rest, evs = (t, .flagsRead (va d) false dirty) :: rest) ∧ EvictsUnaccessed va evs
  | _ :: evs => EvictsUnaccessed va evs

/-- Pages in use were moved between their lists, and some of them to the eviction list. -/
structure Reclaims (e e' : Env) (added : List PageId) : Prop where
  evicted : e'.sh.fifos.seq .evictionList = e.sh.fifos.seq .evictionList ++ added
  inUse : ∀ d, e.sh.inUse d ↔ e'.sh.inUse d ∨ d ∈ added
  va : ∀ d, (e'.sh.page d).va = (e.sh.page d).va
  log : ∃ evs, e'.sh.log = evs ++ e.sh.log ∧ EvictsUnaccessed (fun d => (e.sh.page d).va) evs ∧
    ∀ d ∈ added, (e.loc.tid, .enqueued .evictionList d) ∈ evs
  tid : e'.loc.tid = e.loc.tid
  dramsize : e'.sh.dramsize = e.sh.dramsize
  spurious : e'.sh.spurious = e.sh.spurious

private theorem evictsUnaccessed_append {va : PageId → Nat} {evs evs' : List (Tid × Event)}
    (h : EvictsUnaccessed va evs) (h' : EvictsUnaccessed va evs') :
    EvictsUnaccessed va (evs ++ evs') := by
  fun_induction EvictsUnaccessed va evs with
  | case1 => exact h'
  | case2 t d evs ih =>
    obtain ⟨⟨u, dirty, rest, rfl⟩, h⟩ := h
    exact ⟨⟨u, dirty, rest ++ evs', rfl⟩, ih h⟩
  | case3 x evs hx ih =>
    rw [List.cons_append]
    unfold EvictsUnaccessed
    split
    · next heq =>
      cases heq
    · next heq =>
      cases heq
      exact (hx _ _ rfl).elim
    · next heq =>
      cases heq
      exact ih h

namespace Reclaims

theorem refl (e : Env) : Reclaims e e [] :=
  ⟨(List.append_nil _).symm, by simp, fun _ => rfl, ⟨[], rfl, trivial, by simp⟩, rfl, rfl, rfl⟩

theorem trans (h : Reclaims e e₁ added) (h' : Reclaims e₁ e' added') :
    Reclaims e e' (added ++ added') := by
  refine ⟨?_, fun d => ?_, fun d => (h'.va d).trans (h.va d), ?_, h'.tid.trans h.tid,
    h'.dramsize.trans h.dramsize, h'.spurious.trans h.spurious⟩
  · rw [h'.evicted, h.evicted, List.append_assoc]
  · rw [h.inUse, h'.inUse, List.mem_append]
    tauto
  · obtain ⟨evs, hl, hevs, hadd⟩ := h.log
    obtain ⟨evs', hl', hevs', hadd'⟩ := h'.log
    refine ⟨evs' ++ evs, by rw [hl', hl, List.append_assoc], evictsUnaccessed_append ?_ hevs,
      fun d hd => ?_⟩
    · rwa [funext h.va] at hevs'
    · rw [h.tid] at hadd'
      rcases List.mem_append.mp hd with hd | hd
      · exact List.mem_append_right _ (hadd d hd)
      · exact List.mem_append_left _ (hadd' d hd)

theorem flag (e : Env) (b : Bool) : Reclaims e (e.scanning b) [] :=
  ⟨(List.append_nil _).symm, fun d => by simp [Threads.Ctx.scanning, Shared.inUse, Shared.list],
    fun _ => rfl, ⟨[], rfl, trivial, by simp⟩, rfl, rfl, rfl⟩

/-- One page moves from a list of pages in use to another list. -/
theorem move {l l' : FifoList} (hd : e.sh.list d = some l)
    (hl : l = .activeList ∨ l = .inactiveList)
    (hf : e'.sh.fifos = (e.sh.fifos.unlink d).enqueue l' d)
    (hadd : l' = .evictionList ∧ added = [d] ∨ (l' = .activeList ∨ l' = .inactiveList) ∧ added = [])
    (hva : ∀ d, (e'.sh.page d).va = (e.sh.page d).va)
    (hlog : ∃ evs, e'.sh.log = evs ++ e.sh.log ∧ EvictsUnaccessed (fun d => (e.sh.page d).va) evs ∧
      ∀ d ∈ added, (e.loc.tid, .enqueued .evictionList d) ∈ evs) (hr : Unscanned e e') :
    Reclaims e e' added := by
  have hnone : (e.sh.fifos.unlink d).tag d = none := by simp
  have htag : e.sh.fifos.tag d = some l := hd
  have hlist : ∀ x, e'.sh.list x = if x = d then some l' else e.sh.list x := by
    intro x
    unfold Shared.list
    rw [hf, Queues.tag_enqueue hnone, Queues.tag_unlink]
    split <;> rfl
  refine ⟨?_, fun x => ?_, hva, hlog, congrArg _ hr.loc, hr.dramsize, hr.spurious⟩
  · have hev : (e.sh.fifos.unlink d).seq .evictionList = e.sh.fifos.seq .evictionList :=
      Queues.seq_unlink_of_ne htag (by rcases hl with rfl | rfl <;> simp)
    rw [hf, Queues.seq_enqueue hnone]
    rcases hadd with ⟨rfl, rfl⟩ | ⟨rfl | rfl, rfl⟩
    · rw [if_pos rfl, hev]
    · rw [if_neg (by simp), List.append_nil, hev]
    · rw [if_neg (by simp), List.append_nil, hev]
  · unfold Shared.inUse
    rw [hlist]
    by_cases hx : x = d
    · subst hx
      rw [if_pos rfl, hd]
      rcases hl with rfl | rfl <;> rcases hadd with ⟨rfl, rfl⟩ | ⟨rfl | rfl, rfl⟩ <;> simp
    · rw [if_neg hx]
      rcases hadd with ⟨rfl, rfl⟩ | ⟨-, rfl⟩ <;> simp [hx]

theorem of_examined {xs : List PageId} (hs : e.sh.fifos.seq .inactiveList = d :: xs)
    (h : Examined d acc e e') : Reclaims e e' (if acc then [] else [d]) := by
  obtain ⟨dirty, hlog⟩ := h.log
  refine move (e.sh.fifos.tag_of_head hs) (.inr rfl) h.fifos ?_ h.va
    ⟨[_, _, _], hlog, ?_, ?_⟩ h.rest
  · cases acc with
    | false => exact .inl ⟨rfl, rfl⟩
    | true =>
      refine .inr ⟨?_, rfl⟩
      unfold verdict
      rw [if_pos rfl]
      split
      · exact .inl rfl
      · exact .inr rfl
  · cases acc with
    | false => exact ⟨⟨_, dirty, _, rfl⟩, trivial⟩
    | true =>
      unfold verdict
      rw [if_pos rfl]
      split <;> exact trivial
  · cases acc <;> simp [verdict]

theorem of_demoted {xs : List PageId} (hs : e.sh.fifos.seq .activeList = d :: xs)
    (h : Demoted d e e') : Reclaims e e' [] := by
  exact move (e.sh.fifos.tag_of_head hs) (.inl rfl) h.fifos (.inr ⟨.inr rfl, rfl⟩) h.va
    ⟨[_, _], h.log, trivial, by simp⟩ h.rest

theorem of_inactiveScan (h : InactiveScan nr e ret tries e') :
    ∃ added, Reclaims e e' added ∧ ret = added.length ∧ ret ≤ nr := by
  induction h with
  | start => exact ⟨[], refl e, rfl, Nat.zero_le _⟩
  | @examine ret tries e₁ e₂ d xs acc _ hlt _ hs hex ih =>
    obtain ⟨added, hr, rfl, _⟩ := ih
    refine ⟨_, hr.trans (of_examined hs hex), ?_⟩
    cases acc with
    | true => exact ⟨by simp, hlt.le⟩
    | false => exact ⟨by simp, hlt⟩

theorem of_activeScan (h : ActiveScan nr e ret e') : Reclaims e e' [] := by
  induction h with
  | start => exact refl e
  | demote _ _ hs hd ih => exact ih.trans (of_demoted hs hd)

theorem of_shrunkInactive {n : Nat} (h : ShrunkInactive n e ret e') (hn : n ≠ 0) :
    ∃ added, Reclaims e e' added ∧ ret = added.length ∧ ret ≤ n ∧
      e'.sh.shrinkageRunning = false := by
  obtain ⟨tries, e₁, hscan, -, rfl⟩ := h
  obtain ⟨added, hr, hlen, hle⟩ := of_inactiveScan hscan
  refine ⟨_, ((flag e true).trans hr).trans (flag e₁ false), by simpa using hlen, hle.trans ?_, rfl⟩
  unfold inactiveTarget
  split <;> omega

theorem of_shrunkActive {n : Nat} (h : ShrunkActive n e e') (hn : n ≠ 0) :
    Reclaims e e' [] ∧ e'.sh.shrinkageRunning = false := by
  rcases h with ⟨h0, -⟩ | ⟨ret, e₁, hscan, -, rfl⟩
  · exact absurd h0 hn
  · exact ⟨((flag e true).trans (of_activeScan hscan)).trans (flag e₁ false), rfl⟩

end Reclaims

/-- A reclaim pass so far: the pages it has put on the eviction list, as many as it has
counted, and fewer than it was asked for before its last scan. -/
theorem after_directReclaim {nrPages : Int} {priority : Nat}
    (h0 : 0 ≤ nrPages) (hs : e.sh.shrinkageRunning = false) :
    After (directAllocatePageAsynch nrPages priority) e fun ret e' => ∃ added, Reclaims e e' added ∧
      ret = added.length ∧ ret < nrPages + swapClusterCount ∧ e'.sh.shrinkageRunning = false := by
  unfold directAllocatePageAsynch numentries
  rw [after_bind, after_read, after_bind, after_read]
  dsimp only
  generalize int32 _ = a, int32 _ = b
  refine after_loop (fun (x : Int × Int × Int) e₁ => ∃ added, Reclaims e e₁ added ∧
    x.1 = added.length ∧ x.1 < nrPages + swapClusterCount ∧ e₁.sh.shrinkageRunning = false) ?_
    ⟨[], .refl e, rfl, by simp [swapClusterCount]; omega, hs⟩
  rintro ⟨reclaimed, sa, si⟩ e₁ ⟨added, hr, hlen, hlt, hflag⟩
  dsimp only at hlen hlt ⊢
  split
  · next hc =>
    refine (after_bind _ _ _ _).mpr (after_shrinkInactive.mono fun ret e₂ hscan => ?_)
    obtain ⟨added', hr', hlen', hle, hflag'⟩ := Reclaims.of_shrunkInactive hscan (by decide)
    have hlen₂ : reclaimed + ret = (added ++ added').length := by
      rw [List.length_append, hlen, hlen', Int.natCast_add]
    have hlt₂ : reclaimed + ret < nrPages + swapClusterCount := by
      have := hc.2
      omega
    refine after_addInt fun _ => after_addInt fun _ => ?_
    split
    · refine (after_bind _ _ _ _).mpr
        (after_shrinkActive.mono fun _ e₃ hscan => after_addInt fun _ => ?_)
      obtain ⟨hr₃, hflag₃⟩ := Reclaims.of_shrunkActive hscan (by decide)
      exact (after_pure _ _ _).mpr ⟨_, by simpa using (hr.trans hr').trans hr₃, hlen₂, hlt₂, hflag₃⟩
    · exact (after_pure _ _ _).mpr ⟨_, hr.trans hr', hlen₂, hlt₂, hflag'⟩
  · exact (after_pure _ _ _).mpr ⟨added, hr, hlen, hlt, hflag⟩

/-- The pages on the lists of pages in use, and those on all three lists. -/
def Shared.used (s : Shared) : List PageId := s.fifos.seq .activeList ++ s.fifos.seq .inactiveList

def Shared.resident (s : Shared) : List PageId := s.used ++ s.fifos.seq .evictionList

theorem mem_used (s : Shared) (d : PageId) : d ∈ s.used ↔ s.inUse d := by
  simp only [Shared.used, Shared.inUse, Shared.list, List.mem_append, s.fifos.mem_iff]

private theorem nodup_seqs {s : Shared} {l l' : FifoList} (h : l ≠ l') :
    (s.fifos.seq l).Disjoint (s.fifos.seq l') := by
  intro d hd hd'
  rw [s.fifos.mem_iff] at hd hd'
  rw [hd] at hd'
  exact h (Option.some.inj hd')

theorem nodup_used (s : Shared) : s.used.Nodup :=
  List.nodup_append'.mpr ⟨s.fifos.nodup _, s.fifos.nodup _, nodup_seqs (by decide)⟩

theorem nodup_resident (s : Shared) : s.resident.Nodup := by
  refine List.nodup_append'.mpr ⟨nodup_used s, s.fifos.nodup _, ?_⟩
  exact List.disjoint_append_left.mpr ⟨nodup_seqs (by decide), nodup_seqs (by decide)⟩

namespace Reclaims

/-- The pages in use before are those in use after and those put on the eviction list. -/
theorem perm_used (h : Reclaims e e' added) : (e'.sh.used ++ added).Perm e.sh.used := by
  have hres := nodup_resident e'.sh
  rw [Shared.resident, h.evicted, ← List.append_assoc, List.append_assoc] at hres
  have hsub : (e'.sh.used ++ added).Nodup :=
    hres.sublist (List.Sublist.append_left (List.sublist_append_right _ _) _)
  refine (List.perm_ext_iff_of_nodup hsub (nodup_used _)).mpr fun d => ?_
  rw [List.mem_append, mem_used, mem_used]
  exact (h.inUse d).symm

theorem perm_resident (h : Reclaims e e' added) : e'.sh.resident.Perm e.sh.resident := by
  unfold Shared.resident
  rw [h.evicted]
  have hswap : (e'.sh.used ++ (e.sh.fifos.seq .evictionList ++ added)).Perm
      (e'.sh.used ++ (added ++ e.sh.fifos.seq .evictionList)) := List.perm_append_comm.append_left _
  rw [← List.append_assoc e'.sh.used added] at hswap
  exact hswap.trans (h.perm_used.append_right _)

theorem length_used (h : Reclaims e e' added) :
    e'.sh.used.length + added.length = e.sh.used.length := by
  rw [← h.perm_used.length_eq, List.length_append]

end Reclaims

/-- A pass that was asked for some pages: the pages of the three lists are the same, each on
one of them, and those it has put on the eviction list are as many as it returns, not too
many, and were not accessed when they were last read. -/
structure PassDone (nrPages : Int) (e : Env) (ret : Int) (e' : Env) : Prop where
  union : e'.sh.resident.Perm e.sh.resident
  once : e'.sh.resident.Nodup
  evicted : ∃ added evs, e'.sh.fifos.seq .evictionList = e.sh.fifos.seq .evictionList ++ added ∧
    ret = added.length ∧
    e'.sh.log = evs ++ e.sh.log ∧ (∀ d ∈ added, (e.loc.tid, .enqueued .evictionList d) ∈ evs) ∧
    EvictsUnaccessed (fun d => (e.sh.page d).va) evs
  bound : ret < nrPages + swapClusterCount
  idle : e'.sh.shrinkageRunning = false

theorem scanKeeps_aligned : ScanKeeps (fun _ => True) fun k => ∀ d,
    k.list d = some .activeList ∨ k.list d = some .inactiveList → (k.page d).va % pageSize = 0 where
  aligned h hl := h _ (.inr hl)
  move := by
    intro k d l l' f h hd hl _ hf x hx
    have hpage : ((((k.unlink d).write d f).link l' d).page x).va = (k.page x).va := by
      by_cases hxd : x = d
      · subst hxd
        obtain ⟨a, ha⟩ := hf (k.page x)
        simp [Skeleton.write, Skeleton.link, Skeleton.unlink, ha]
      · simp [Skeleton.write, Skeleton.link, Skeleton.unlink, Function.update_of_ne hxd]
    rw [hpage]
    by_cases hxd : x = d
    · subst hxd
      refine h x ?_
      rw [hd]
      exact hl.imp (congrArg some) (congrArg some)
    · refine h x ?_
      rwa [Skeleton.list_link (by simp), if_neg hxd, Skeleton.list_write, Skeleton.list_unlink,
        if_neg hxd] at hx
  flag _ h := h

/-- The number of pages by which the pages in use exceed the low watermark. -/
def excess (e : Env) : Int :=
  (e.sh.used.length : Int) - (watermark lowWaterThreshold e.sh.dramsize : Nat)

/-- kswapd notes that it runs and that it does not. -/
def Threads.Ctx.waking (e : Env) (b : Bool) : Env :=
  { e with sh := { e.sh with kswapdRunning := b } }

private theorem excess_eq (e : Env) :
    (((e.sh.fifos.seq .activeList).length + (e.sh.fifos.seq .inactiveList).length : Nat) : Int) -
      (watermark lowWaterThreshold e.sh.dramsize : Nat) = excess e := by
  rw [excess, Shared.used, List.length_append]

/-- One pass of kswapd asks for the excess, cut to C's `int`, where that is positive. -/
theorem after_kswapdPass {R : Env → Prop}
    (hR : ∀ e b, R e → R (e.waking b)) (hidle : int32 (excess e) ≤ 0 → R e)
    (hpass : 0 < int32 (excess e) →
      After (directAllocatePageAsynch (int32 (excess e)) 12) (e.waking true) fun _ e' => R e') :
    After lrudiskSynchkswapd e fun _ e' => R e' := by
  unfold lrudiskSynchkswapd numentries setShared
  rw [after_bind, after_modify, after_bind, after_read, after_bind, after_read, after_bind,
    after_read]
  dsimp only
  rw [excess_eq e]
  split
  · next hle => exact (after_modify _ _ _).mpr (hR (e.waking true) false (hR e true (hidle hle)))
  · next hgt =>
    refine (after_bind _ _ _ _).mpr ((hpass (by omega)).mono fun _ e' h => ?_)
    exact (after_modify _ _ _).mpr (hR e' false h)

/-- A pass of kswapd ends if its reclaim pass does. -/
theorem total_kswapdPass (hpass : 0 < int32 (excess e) →
    Total (directAllocatePageAsynch (int32 (excess e)) 12) (e.waking true) fun _ _ => True) :
    Total lrudiskSynchkswapd e fun _ _ => True := by
  unfold lrudiskSynchkswapd numentries
  refine .act rfl (.act rfl (.act rfl (.act rfl ?_)))
  rw [Prog.ret_bind]
  dsimp only
  rw [excess_eq e]
  split
  · exact .act rfl (.ret trivial)
  · next hpos => exact (hpass (by omega)).bind fun _ _ _ => .act rfl (.ret trivial)

theorem total_lrudiskSynchkswapd (hal : ∀ d, e.sh.inUse d → (e.sh.page d).va % pageSize = 0)
    (hfits : int32 (excess e) ≤ 0 ∨ e.sh.toScan 12 + swapClusterCount ≤ 2 ^ 31) :
    Total lrudiskSynchkswapd e fun _ _ => True := by
  refine total_kswapdPass fun _ => ?_
  have hpass : Total (directAllocatePageAsynch (int32 (excess e)) 12) (e.waking true) _ :=
    total_directAllocatePageAsynch scanKeeps_aligned (fun _ _ => trivial) hal hfits
  exact hpass.mono fun _ _ _ => trivial

theorem aborts_kswapdPass {why : Abort} (hpos : 0 < int32 (excess e))
    (h : Aborts (directAllocatePageAsynch (int32 (excess e)) 12) (e.waking true) why e') :
    Aborts lrudiskSynchkswapd e why e' := by
  unfold lrudiskSynchkswapd numentries
  refine .act rfl (.act rfl (.act rfl (.act rfl ?_)))
  rw [Prog.ret_bind]
  dsimp only
  rw [excess_eq e, if_neg (by omega)]
  exact Aborts.bind_left h

/-- A reclaim pass run alone ends, keeps the pages of the three lists and does not overshoot; a pass
of kswapd does not take the pages in use more than a cluster less one below the low watermark. -/
structure ReclaimConserves (nrPages : Int) (priority : Nat) (e : Env) : Prop where
  pass : Total (directAllocatePageAsynch nrPages priority) e (PassDone nrPages e)
  kswapd : After lrudiskSynchkswapd e fun _ e' =>
    watermark lowWaterThreshold e.sh.dramsize ≤ e.sh.used.length →
    watermark lowWaterThreshold e.sh.dramsize ≤ e'.sh.used.length + (swapClusterCount - 1)

theorem total_directReclaim {nrPages : Int} {priority : Nat} (h0 : 0 ≤ nrPages)
    (hs : e.sh.shrinkageRunning = false) (hal : ∀ d, e.sh.inUse d → (e.sh.page d).va % pageSize = 0)
    (hfits : nrPages ≤ 0 ∨ e.sh.toScan priority + swapClusterCount ≤ 2 ^ 31) :
    Total (directAllocatePageAsynch nrPages priority) e (PassDone nrPages e) := by
  have htotal : Total (directAllocatePageAsynch nrPages priority) e _ :=
    total_directAllocatePageAsynch scanKeeps_aligned (fun _ _ => trivial) hal hfits
  refine (htotal.strengthen (after_directReclaim h0 hs)).mono ?_
  rintro ret e' ⟨added, hr, hlen, hlt, hflag⟩
  obtain ⟨evs, hlog, hclear, hadd⟩ := hr.log
  exact ⟨hr.perm_resident, nodup_resident _, ⟨added, evs, hr.evicted, hlen, hlog, hadd, hclear⟩,
    hlt, hflag⟩

private theorem after_kswapdBound (hs : e.sh.shrinkageRunning = false) :
    After lrudiskSynchkswapd e fun _ e' =>
        watermark lowWaterThreshold e.sh.dramsize ≤ e.sh.used.length →
      watermark lowWaterThreshold e.sh.dramsize ≤ e'.sh.used.length + (swapClusterCount - 1) := by
  refine after_kswapdPass (fun _ _ h => h) (fun _ hlow => by omega) fun hpos => ?_
  have hafter : After (directAllocatePageAsynch (int32 (excess e)) 12) (e.waking true) _ :=
    after_directReclaim (Int.le_of_lt hpos) hs
  refine hafter.mono ?_
  rintro ret e' ⟨added, hr, hlen, hlt, -⟩ hlow
  have hused := hr.length_used
  rw [show (e.waking true).sh.used = e.sh.used from rfl] at hused
  have hbound : int32 (excess e) ≤ excess e := int32_le (by unfold excess; omega)
  unfold excess swapClusterCount at *
  omega

/-- With accessed bits that read as anything, a pass conserves if and only if it is asked for no
page, or the inactive list shifted by the priority leaves an int room for one more cluster. -/
theorem reclaim_conserves_iff {nrPages : Int} {priority : Nat}
    (h0 : 0 ≤ nrPages) (hs : e.sh.shrinkageRunning = false)
    (hal : ∀ d, e.sh.inUse d → (e.sh.page d).va % pageSize = 0) (hsp : e.sh.spurious = true) :
    ReclaimConserves nrPages priority e ↔ nrPages = 0 ∨ int32
        ((e.sh.fifos.seq .inactiveList).length >>> priority : Nat) + swapClusterCount ≤ 2 ^ 31 := by
  constructor
  · intro h
    by_contra hc
    rw [not_or, Int.not_le] at hc
    have hpos : 0 < nrPages := by omega
    have hover : 2 ^ 31 < e.sh.toScan priority + swapClusterCount := hc.2
    obtain ⟨e', ha⟩ :=
      aborts_directAllocatePageAsynch scanKeeps_aligned trivial trivial hal hsp hpos hover
    exact h.pass.not_aborts _ _ ha
  · intro h
    exact ⟨total_directReclaim h0 hs hal (h.imp_left Int.le_of_eq), after_kswapdBound hs⟩

/-- INT_MAX. -/
def intMax : Nat := 2 ^ 31 - 1

/-- So many pages on the inactive list that an int just holds their number. -/
def packedMachine : Env :=
  ⟨{ Shared.boot (2 ^ 43) (2 ^ 43) false true blankDisk with
      isInit := true
      fifos := .counting .inactiveList intMax
      page := fun d => { UserPage.zero with
        va := (d + 1) * pageSize, virtualOffset := ⟨true, d * pageSize⟩, inDram := true,
        pt := .basep }
      vma := fun _ => .uffd }, .fresh 0⟩

/-- Where all of them are found accessed each time, the counter runs over. -/
theorem not_reclaim_conserves :
    packedMachine.sh.spurious = true ∧ packedMachine.sh.shrinkageRunning = false ∧
    (∀ d, packedMachine.sh.inUse d → (packedMachine.sh.page d).va % pageSize = 0) ∧
    ¬ ReclaimConserves 1 0 packedMachine := by
  have hal (d : PageId) : (packedMachine.sh.page d).va % pageSize = 0 := Nat.mul_mod_left _ _
  refine ⟨rfl, rfl, fun d _ => hal d, fun h => ?_⟩
  rcases (reclaim_conserves_iff (by decide) rfl (fun d _ => hal d) rfl).mp h with h | h
  · cases h
  · have hlen : (packedMachine.sh.fifos.seq .inactiveList).length = intMax := by
      unfold packedMachine
      rw [Queues.seq_counting, List.length_range]
    rw [hlen] at h
    exact absurd h (by decide +kernel)

theorem reclaim_conserves_filled :
    crammedMachine.sh.used.length = 2 ∧ ReclaimConserves 1 0 crammedMachine := by
  have hs : crammedMachine.sh.shrinkageRunning = false := by decide +kernel
  have hal : ∀ d ∈ crammedMachine.sh.used, (crammedMachine.sh.page d).va % pageSize = 0 := by
    decide +kernel
  refine ⟨by decide +kernel,
    (reclaim_conserves_iff (by decide) hs (fun d hd => hal d ?_) (by decide +kernel)).mpr ?_⟩
  · exact (mem_used _ _).mpr hd
  · exact .inr (by decide +kernel)

end ExtMem
