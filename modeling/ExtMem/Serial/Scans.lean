import ExtMem.Serial.Returns

/-! Reclaim scans run alone: they come to an end, keep whatever single moves of pages
between the lists keep, and may find every page accessed. -/
namespace ExtMem
open Threads Threads.Prog

variable {k : Skeleton} {d : PageId} {e : Env} {α β : Type} {Q : β → Env → Prop}
  {P : Skeleton → Prop}
  {D D' : FifoList → Prop}

/-- What the scans keep when pages go to these lists only: a page leaves one of the two lists
of pages in use and its count changes, and the flag of the scans is raised and lowered. -/
structure ScanKeeps (D : FifoList → Prop) (P : Skeleton → Prop) : Prop where
  aligned : ∀ {k d}, P k → k.list d = some .inactiveList → (k.page d).va % pageSize = 0
  move : ∀ {k d l l'} {f : UserPage → UserPage}, P k → k.list d = some l →
    l = .activeList ∨ l = .inactiveList → D l' →
    (∀ p, ∃ a, f p = { p with naccesses := a }) → P (((k.unlink d).write d f).link l' d)
  flag : ∀ {k} b, P k → P { k with shrinking := b }

theorem total_numentries {l : FifoList} {q : Nat → Paging β} (hk : e.sh.skeleton = k)
    (hq : ∀ e, e.sh.skeleton = k → Total (q (k.fifos.seq l).length) e Q) :
    Total (numentries l >>= q) e Q := by
  subst hk
  exact .act rfl (hq e rfl)

theorem total_setShrinking {b : Bool} {q : Unit → Paging β} (hk : e.sh.skeleton = k)
    (hq : ∀ e, e.sh.skeleton = { k with shrinking := b } → Total (q ()) e Q) :
    Total (setShared (fun s => { s with shrinkageRunning := b }) >>= q) e Q := by
  subst hk
  exact .act rfl (hq _ rfl)

/-- Pages go from the active list to the inactive list. -/
theorem total_shrinkActiveList {nrPages : Nat} (hP : ScanKeeps D P) (hD : D .inactiveList)
    (h : P e.sh.skeleton) : Total (shrinkActiveList nrPages) e fun _ e' => P e'.sh.skeleton := by
  unfold shrinkActiveList
  split
  · exact .ret h
  refine total_setShrinking rfl fun e₁ hk => total_numentries hk fun e₁ hk => ?_
  generalize (if nrPages > List.length _ then List.length _ else nrPages) = nr
  refine Total.bind (Q := fun _ e' => P e'.sh.skeleton) ?_ fun ret e' he =>
    .act rfl (.ret (hP.flag false he))
  refine total_loop (fun _ e => P e.sh.skeleton)
    (fun x => nr * 100 - x.2) ?_ (by rw [hk]; exact hP.flag true h)
  rintro ⟨ret, tries⟩ e he
  refine total_numentries rfl fun e' hk => ?_
  rw [← hk] at he
  split
  · next hc =>
    refine total_dequeueThen hk (fun _ _ => rfl) (fun hs => ?_) fun d xs hs e'' hk' => ?_
    · rw [hs] at hc
      exact absurd hc.2.1 (Nat.lt_irrefl _)
    · refine total_setPage hk' fun e₁ hk₁ =>
        total_enqueue hk₁ (by simp) fun e₂ hk₂ => .ret (.inl ⟨_, rfl, ?_, ?_⟩)
      · rw [hk₂]
        rw [hk] at he
        exact hP.move he (Whole.list_of_seq hs) (.inl rfl) hD fun p => ⟨0, rfl⟩
      · show nr * 100 - (tries + 1) < nr * 100 - tries
        omega
  · exact .ret (.inr ⟨_, rfl, he⟩)

private theorem total_keepAccessed (hP : ScanKeeps D P)
    (hactive : D .activeList) (hinactive : D .inactiveList) (h : P k)
    (hl : k.list d = some .inactiveList) (hk : e.sh.skeleton = k.unlink d) :
    Total (keepAccessed d) e fun evicted e' => evicted = false ∧ P e'.sh.skeleton := by
  have hal := hP.aligned h hl
  refine total_setPage hk fun e hk => ?_
  refine Total.bind (Q := fun _ e' => e'.sh.skeleton = (k.unlink d).write d fun p =>
    { p with naccesses := add64 p.naccesses 1 }) ?_ fun _ e hk => total_field hk fun e hk => ?_
  · exact total_field hk fun e hk => total_check (by simpa using hal) (.act rfl (.ret hk))
  · split
    · refine total_setPage hk fun e hk => total_enqueue hk (by simp) fun e hk => .ret ⟨rfl, ?_⟩
      rw [hk, Skeleton.write_write]
      exact hP.move h hl (.inr rfl) hactive fun p => ⟨0, rfl⟩
    · refine total_enqueue hk (by simp) fun e hk => .ret ⟨rfl, ?_⟩
      rw [hk]
      exact hP.move h hl (.inr rfl) hinactive fun p => ⟨add64 p.naccesses 1, rfl⟩

theorem total_scanInactivePage {xs : List PageId} (hP : ScanKeeps D P)
    (hD : ∀ l, l.resident = true → D l) (h : P k)
    (hs : k.fifos.seq .inactiveList = d :: xs) (hk : e.sh.skeleton = k.unlink d) :
    Total (scanInactivePage d) e fun _ e' => P e'.sh.skeleton := by
  have hl : k.list d = some .inactiveList := Whole.list_of_seq hs
  unfold scanInactivePage
  refine (total_ptGetBits hk (by simpa using hP.aligned h hl)).bind fun bits e hk => ?_
  split
  · exact (total_keepAccessed hP (hD _ rfl) (hD _ rfl) h hl hk).mono fun _ _ he => he.2
  · refine total_setPage hk fun e hk => total_enqueue hk (by simp) fun e hk => .ret ?_
    rw [hk]
    exact hP.move h hl (.inr rfl) (hD _ rfl) fun p => ⟨0, rfl⟩

/-- The scan counts the pages it puts on the eviction list, no more than it was asked for. -/
theorem total_shrinkInactiveList {nrPages : Nat} (hP : ScanKeeps D P)
    (hD : ∀ l, l.resident = true → D l) (h : P e.sh.skeleton) :
    Total (shrinkInactiveList nrPages) e fun ret e' =>
        (nrPages ≠ 0 → ret ≤ nrPages) ∧ P e'.sh.skeleton := by
  unfold shrinkInactiveList
  refine total_numentries rfl fun e₁ hk => ?_
  have htarget (len : Nat) : nrPages ≠ 0 →
      (if nrPages = 0 ∨ nrPages > len then len else nrPages) ≤ nrPages := by
    intro hn
    split <;> omega
  specialize htarget (e.sh.skeleton.fifos.seq .inactiveList).length
  generalize (if nrPages = 0 ∨ nrPages > List.length _ then List.length _ else nrPages) =
    nr at htarget ⊢
  refine total_setShrinking hk fun e₁ hk => ?_
  refine Total.bind (Q := fun ret e' => ret ≤ nr ∧ P e'.sh.skeleton) ?_ fun ret e' he =>
    .act rfl (.ret ⟨fun hn => he.1.trans (htarget hn), hP.flag false he.2⟩)
  refine total_loop (fun x e => x.1 ≤ nr ∧ P e.sh.skeleton) (fun x => nr * 100 - x.2) ?_
    ⟨Nat.zero_le _, by rw [hk]; exact hP.flag true h⟩
  rintro ⟨ret, tries⟩ e ⟨hret, he⟩
  refine total_numentries rfl fun e' hk => ?_
  split
  · next hc =>
    refine total_dequeueThen hk (fun _ _ => rfl) (fun hs => ?_) fun d xs hs e'' hk' => ?_
    · rw [hs] at hc
      exact absurd hc.2.1 (Nat.lt_irrefl _)
    · refine (total_scanInactivePage hP hD he hs hk').bind fun evicted e₂ he₂ =>
        .ret (.inl ⟨_, rfl, ⟨?_, he₂⟩, ?_⟩)
      · cases evicted with
        | true => exact hc.1
        | false => exact hret
      · show nr * 100 - (tries + 1) < nr * 100 - tries
        omega
  · exact .ret (.inr ⟨_, rfl, hret, by rw [hk]; exact he⟩)

/-- The counters of a reclaim pass: as many pages are reclaimed as scanned, at most, and no more
are scanned on the active list than on the inactive one, in clusters. -/
structure Scanned (reclaimed sa si : Int) : Prop where
  reclaimed : 0 ≤ reclaimed ∧ reclaimed ≤ si
  active : 0 ≤ sa ∧ sa ≤ si
  clusters : si % swapClusterCount = 0

namespace Scanned
variable {reclaimed sa si a : Int}

theorem zero : Scanned 0 0 0 :=
  ⟨⟨Int.le_refl 0, Int.le_refl 0⟩, ⟨Int.le_refl 0, Int.le_refl 0⟩, rfl⟩

/-- The counters have room for one more cluster while less is scanned than is to be scanned. -/
theorem room (h : Scanned reclaimed sa si) (hfits : a + swapClusterCount ≤ 2 ^ 31) (hlt : si < a) :
    si + swapClusterCount < 2 ^ 31 := by
  have hc := h.clusters
  unfold swapClusterCount at *
  omega

private theorem clusters_next (h : Scanned reclaimed sa si) :
    (si + swapClusterCount) % swapClusterCount = 0 := by
  rw [Int.add_emod_right]
  exact h.clusters

theorem skip (h : Scanned reclaimed sa si) {ret : Nat} (hret : ret ≤ swapClusterCount) :
    Scanned (reclaimed + ret) sa (si + swapClusterCount) := by
  obtain ⟨hr, ha, -⟩ := id h
  exact ⟨⟨by omega, by omega⟩, ⟨ha.1, by omega⟩, h.clusters_next⟩

theorem both (h : Scanned reclaimed sa si) {ret : Nat} (hret : ret ≤ swapClusterCount) :
    Scanned (reclaimed + ret) (sa + swapClusterCount) (si + swapClusterCount) := by
  obtain ⟨hr, ha, -⟩ := id h
  exact ⟨⟨by omega, by omega⟩, ⟨by omega, by omega⟩, h.clusters_next⟩

end Scanned

/-- How much is left to scan falls with every pass. -/
theorem scans_fall {a m : Int} (hm : m < a) :
    (a - (m + swapClusterCount)).toNat < (a - m).toNat := by
  unfold swapClusterCount
  omega

/-- One round of `direct_allocate_page_asynch`. -/
def reclaimRound (nrPages toScanActive toScanInactive : Int) :
    Int × Int × Int → Paging ((Int × Int × Int) ⊕ Int) :=
  fun (reclaimed, nrScannedActive, nrScannedInactive) => do
  if nrScannedInactive < toScanInactive ∧ reclaimed < nrPages then do
    let ret ← shrinkInactiveList swapClusterCount
    let reclaimed ← addInt reclaimed ret
    let nrScannedInactive ← addInt nrScannedInactive swapClusterCount
    if nrScannedActive < toScanActive then do
      let _ ← shrinkActiveList swapClusterCount
      let nrScannedActive ← addInt nrScannedActive swapClusterCount
      pure (.inl (reclaimed, nrScannedActive, nrScannedInactive))
    else pure (.inl (reclaimed, nrScannedActive, nrScannedInactive))
  else pure (.inr reclaimed)

/-- The pages of the inactive list that a pass of this priority scans, as an int. -/
def Shared.toScan (s : Shared) (priority : Nat) : Int :=
  int32 ((s.fifos.seq .inactiveList).length >>> priority : Nat)

theorem int32_le {x : Int} (h : 0 ≤ x) : int32 x ≤ x := by
  unfold int32 Int.bmod
  dsimp only
  split <;> omega

/-- From priority one on a pass has room for its clusters if an int holds the length of the list. -/
theorem toScan_fits {s : Shared} {priority : Nat} (hp : 1 ≤ priority)
    (hlen : (s.fifos.seq .inactiveList).length < 2 ^ 31) :
    s.toScan priority + swapClusterCount ≤ 2 ^ 31 := by
  have hshift :
      (s.fifos.seq .inactiveList).length >>> priority ≤ (s.fifos.seq .inactiveList).length / 2 := by
    rw [Nat.shiftRight_eq_div_pow]
    have hpow : 2 ^ 1 ≤ 2 ^ priority := Nat.pow_le_pow_right (by decide) hp
    exact Nat.div_le_div_left hpow (by decide)
  have hle : s.toScan priority ≤ ((s.fifos.seq .inactiveList).length >>> priority : Nat) :=
    int32_le (Int.natCast_nonneg _)
  unfold swapClusterCount
  omega

theorem directAllocate_eq (nrPages : Int) (priority : Nat) :
    directAllocatePageAsynch nrPages priority = (do
      let active ← numentries .activeList
      let inactive ← numentries .inactiveList
      Prog.loop (reclaimRound nrPages (int32 (active >>> priority : Nat))
        (int32 (inactive >>> priority : Nat))) (0, 0, 0)) := rfl

/-- The pass ends if it has nothing to reclaim or its counters do not run over. -/
theorem total_directAllocatePageAsynch {nrPages : Int} {priority : Nat} (hP : ScanKeeps D P)
    (hD : ∀ l, l.resident = true → D l) (h : P e.sh.skeleton)
    (hfits : nrPages ≤ 0 ∨ e.sh.toScan priority + swapClusterCount ≤ 2 ^ 31) :
    Total (directAllocatePageAsynch nrPages priority) e fun _ e' => P e'.sh.skeleton := by
  rw [directAllocate_eq]
  refine .act rfl (.act rfl ?_)
  rw [Prog.ret_bind]
  show Total (Prog.loop (reclaimRound nrPages _ (e.sh.toScan priority)) _) e _
  generalize e.sh.toScan priority = a at hfits ⊢
  generalize int32 _ = b
  refine total_loop (fun x e => Scanned x.1 x.2.1 x.2.2 ∧ P e.sh.skeleton)
    (fun x => (a - x.2.2).toNat) ?_ ⟨.zero, h⟩
  rintro ⟨reclaimed, sa, si⟩ e ⟨hx, he⟩
  dsimp only [reclaimRound] at hx ⊢
  split
  · next hc =>
    obtain ⟨hr, ha, -⟩ := id hx
    have hnow := hx.room (hfits.resolve_left (by omega)) hc.1
    refine (total_shrinkInactiveList hP hD he).bind fun ret e ⟨hret, he⟩ => ?_
    specialize hret (by decide)
    refine total_addInt (by omega) (by omega) (total_addInt (by omega) hnow ?_)
    split
    · refine (total_shrinkActiveList hP (hD _ rfl) he).bind fun _ e he =>
        total_addInt (by omega) (by omega) ?_
      exact .ret (.inl ⟨_, rfl, ⟨hx.both hret, he⟩, scans_fall hc.1⟩)
    · exact .ret (.inl ⟨_, rfl, ⟨hx.skip hret, he⟩, scans_fall hc.1⟩)
  · exact .ret (.inr ⟨_, rfl, he⟩)

theorem total_fetchFreeScan {priority : Nat} (hP : ScanKeeps D P)
    (hD : ∀ l, l.resident = true → D l) (h : P e.sh.skeleton)
    (hfits : e.sh.toScan priority + swapClusterCount ≤ 2 ^ 31) :
    Total (fetchFreeScan priority) e fun _ e' => P e'.sh.skeleton := by
  refine .act rfl ?_
  show Total (if e.sh.shrinkageRunning = true then pure priority else _) e _
  split
  · exact .ret h
  refine .act rfl (.act rfl (.act rfl ?_))
  show Total (if _ then _ else pure priority) e _
  split
  · exact (total_directAllocatePageAsynch hP hD h (.inr hfits)).bind fun _ e he => .ret he
  · exact .ret h

/-! Scans that find every page accessed. -/

/-- Run alone, the program may come to such a state. -/
def May (p : Paging α) (e : Env) (R : α → Env → Prop) : Prop := ∃ a e', Runs p e a e' ∧ R a e'

theorem May.bind {p : Paging α} {q : α → Paging β} {R : α → Env → Prop} (h : May p e R)
    (hq : ∀ a e, R a e → May (q a) e Q) : May (p >>= q) e Q := by
  obtain ⟨a, e₁, hp, hR⟩ := h
  obtain ⟨b, e₂, hr, hQ⟩ := hq a e₁ hR
  exact ⟨b, e₂, hp.bind hr, hQ⟩

theorem May.pure {b : β} (h : Q b e) : May (pure b) e Q := ⟨b, e, .ret _ _, h⟩

/-- A step that leaves alone whether bits are set by themselves. -/
def SameSpurious (e e' : Env) : Prop := e'.sh.spurious = e.sh.spurious

abbrev SpuriousKept : (β : Type) → (Env → Outcome Abort Env β) → Prop := Within SameSpurious

private theorem scanning_spurious : Scanning SameSpurious where
  refl _ := rfl
  trans h₁ h₂ := h₂.trans h₁
  enqueue _ _ _ _ _ := rfl
  dequeue _ _ _ _ _ _ := rfl
  remove _ _ _ _ _ := rfl
  auxiliary _ _ _ _ := rfl
  record _ _ _ _ _ := rfl
  flag _ _ _ _ _ _ := rfl
  enqueueAny _ _ _ := rfl
  dequeueAny _ _ _ := rfl
  setPage _ _ _ _ _ := rfl
  setPte _ _ _ _ _ _ _ := rfl
  running _ _ _ := rfl
  waits _ _ := rfl

theorem Threads.Prog.Total.may {p : Paging β} (h : Total p e Q) (ha : Always SpuriousKept p)
    (hs : e.sh.spurious = true) : May p e fun b e' => Q b e' ∧ e'.sh.spurious = true := by
  obtain ⟨b, e', hr, hQ⟩ := h.runs
  have hkept := after_within ha scanning_spurious.refl scanning_spurious.trans b e' hr
  exact ⟨b, e', hr, hQ, hkept.trans hs⟩

private theorem may_modify {f : Env → Env} {q : Unit → Paging β} (h : May (q ()) (f e) Q) :
    May (Prog.modify f >>= q) e Q := by
  obtain ⟨b, e', hr, hQ⟩ := h
  exact ⟨b, e', .act rfl hr, hQ⟩

private theorem may_read {f : Env → α} {q : α → Paging β} (h : May (q (f e)) e Q) :
    May (Prog.read f >>= q) e Q := by
  obtain ⟨b, e', hr, hQ⟩ := h
  exact ⟨b, e', .act rfl hr, hQ⟩

private theorem may_check {c : Bool} {why : Abort} {q : Unit → Paging β} (hc : c = true)
    (h : May (q ()) e Q) : May (Prog.check c why >>= q) e Q := by
  rw [show Prog.check c why = (pure () : Paging Unit) from if_pos hc]
  exact h

private theorem may_answer {q : Nat → Paging β} (a : Nat) (h : May (q a) e Q) :
    May (Prog.answer >>= q) e Q := by
  obtain ⟨b, e', hr, hQ⟩ := h
  exact ⟨b, e', .ask a hr, hQ⟩

private theorem may_atomic {f : Env → Outcome Abort Env β} (h : ∃ b e', f e = .ok b e' ∧ Q b e') :
    May (Prog.atomic f) e Q := by
  obtain ⟨b, e', he, hQ⟩ := h
  exact ⟨b, e', .act he (.ret _ _), hQ⟩

/-- The bits of a page may read as accessed. -/
private theorem may_ptGetBits (hk : e.sh.skeleton = k)
    (hs : e.sh.spurious = true) (hal : (k.page d).va % pageSize = 0) :
    May (ptGetBits d) e fun bits e' =>
        bits.accessed = true ∧ e'.sh.skeleton = k ∧ e'.sh.spurious = true := by
  subst hk
  have hseen (bit : Bool) : seenBit e.sh bit 1 = true := by
    simp [seenBit, hs]
  refine may_read (may_check (beq_iff_eq.mpr hal) (may_answer 1 (may_answer 1 (may_atomic ?_))))
  split
  · exact ⟨_, _, rfl, hseen false, rfl, hs⟩
  · next p _ => exact ⟨_, _, rfl, hseen p.accessed, rfl, hs⟩

/-- The scans keep to the two lists of pages in use if every page is found accessed. -/
private theorem may_scanInactivePage {xs : List PageId} (hP : ScanKeeps D P)
    (hactive : D .activeList) (hinactive : D .inactiveList) (h : P k)
    (hs : k.fifos.seq .inactiveList = d :: xs)
    (hk : e.sh.skeleton = k.unlink d) (hsp : e.sh.spurious = true) :
    May (scanInactivePage d) e fun evicted e' =>
        (evicted = false ∧ P e'.sh.skeleton) ∧ e'.sh.spurious = true := by
  have hl : k.list d = some .inactiveList := Whole.list_of_seq hs
  refine (may_ptGetBits hk hsp (by simpa using hP.aligned h hl)).bind fun bits e ⟨hb, hk, hsp⟩ => ?_
  rw [if_pos hb]
  exact (total_keepAccessed hP hactive hinactive h hl hk).may
    (within_keepAccessed scanning_spurious d) hsp

private theorem may_dequeue {l : FifoList} {q : Option PageId → Paging β} {xs : List PageId}
    (hs : e.sh.fifos.seq l = d :: xs) (h : May (q (some d)) (e.dequeue l d) Q) :
    May (dequeueFifo l >>= q) e Q := by
  obtain ⟨b, e', hr, hQ⟩ := h
  exact ⟨b, e', .act (dequeue_cons hs) hr, hQ⟩

private theorem may_shrinkInactiveList (nrPages : Nat) (hP : ScanKeeps D P)
    (hactive : D .activeList) (hinactive : D .inactiveList)
    (h : P e.sh.skeleton) (hsp : e.sh.spurious = true) :
    May (shrinkInactiveList nrPages) e fun ret e' =>
        ret = 0 ∧ P e'.sh.skeleton ∧ e'.sh.spurious = true := by
  unfold shrinkInactiveList
  refine may_read ?_
  generalize (if nrPages = 0 ∨ nrPages > List.length _ then List.length _ else nrPages) = nr
  refine may_modify (May.bind (R := fun ret e' => ret = 0 ∧ P e'.sh.skeleton ∧ e'.sh.spurious =
    true) ?_ fun ret e' he => may_modify (May.pure ⟨he.1, hP.flag false he.2.1, he.2.2⟩))
  refine runs_loop (fun x e => x.1 = 0 ∧ P e.sh.skeleton ∧ e.sh.spurious = true)
    (fun x => nr * 100 - x.2) ?_ ⟨rfl, hP.flag true h, hsp⟩
  rintro ⟨ret, tries⟩ e ⟨rfl, he, hsp⟩
  refine may_read ?_
  dsimp only
  split
  · next hc =>
    cases hs : e.sh.fifos.seq .inactiveList with
    | nil =>
      rw [hs] at hc
      exact absurd hc.2.1 (Nat.lt_irrefl _)
    | cons d xs =>
      have hk : (e.dequeue .inactiveList d).sh.skeleton = e.sh.skeleton.unlink d := rfl
      refine may_dequeue hs
        ((may_scanInactivePage hP hactive hinactive he hs hk hsp).bind fun evicted e₂ he₂ => ?_)
      obtain ⟨⟨rfl, he₂⟩, hsp₂⟩ := he₂
      refine May.pure (.inl ⟨_, rfl, ⟨rfl, he₂, hsp₂⟩, ?_⟩)
      show nr * 100 - (tries + 1) < nr * 100 - tries
      omega
  · exact May.pure (.inr ⟨_, rfl, rfl, he, hsp⟩)

private theorem may_addInt {a b : Int} {q : Int → Paging β} (hlow : -2 ^ 31 ≤ a + b)
    (hhigh : a + b < 2 ^ 31) (h : May (q (a + b)) e Q) : May (addInt a b >>= q) e Q := by
  unfold addInt
  rw [bind_assoc]
  exact may_check
    (by rw [Bool.and_eq_true, decide_eq_true_eq, decide_eq_true_eq]; exact ⟨hlow, hhigh⟩) h

variable {nrPages a b sa si : Int}

/-- A round that finds every page accessed reclaims nothing and goes on. -/
private theorem may_reclaimRound (hP : ScanKeeps D P) (hactive : D .activeList)
    (hinactive : D .inactiveList) (hpos : 0 < nrPages) (hscan : si < a)
    (hroom : si + swapClusterCount < 2 ^ 31) (hx : Scanned 0 sa si)
    (he : P e.sh.skeleton) (hsp : e.sh.spurious = true) :
    May (reclaimRound nrPages b a (0, sa, si)) e fun r e' =>
        ∃ sa', r = .inl (0, sa', si + swapClusterCount) ∧ Scanned 0 sa' (si + swapClusterCount) ∧
      P e'.sh.skeleton ∧ e'.sh.spurious = true := by
  obtain ⟨hr, ha, -⟩ := id hx
  have hskip : Scanned (0 + (0 : Nat)) sa (si + swapClusterCount) := hx.skip (Nat.zero_le _)
  have hboth : Scanned (0 + (0 : Nat)) (sa + swapClusterCount) (si + swapClusterCount) :=
    hx.both (Nat.zero_le _)
  unfold reclaimRound
  dsimp only
  rw [if_pos ⟨hscan, hpos⟩]
  refine (may_shrinkInactiveList _ hP hactive hinactive he hsp).bind fun ret e ⟨hret, he, hsp⟩ => ?_
  subst hret
  refine may_addInt (by decide) (by decide) (may_addInt (by omega) hroom ?_)
  split
  · refine ((total_shrinkActiveList hP hinactive he).may
      (within_shrinkActiveList scanning_spurious _) hsp).bind
      fun _ e he => ?_
    exact may_addInt (by omega) (by omega) (May.pure ⟨_, rfl, hboth, he.1, he.2⟩)
  · exact May.pure ⟨_, rfl, hskip, he, hsp⟩

private theorem may_directAllocatePageAsynch {priority : Nat} (hP : ScanKeeps D P)
    (hactive : D .activeList) (hinactive : D .inactiveList)
    (h : P e.sh.skeleton) (hsp : e.sh.spurious = true)
    (hfits : e.sh.toScan priority + swapClusterCount ≤ 2 ^ 31) (hpos : 0 < nrPages) :
    May (directAllocatePageAsynch nrPages priority) e fun _ e' =>
        P e'.sh.skeleton ∧ e'.sh.spurious = true := by
  rw [directAllocate_eq]
  refine may_read (may_read ?_)
  show May (Prog.loop (reclaimRound nrPages _ (e.sh.toScan priority)) _) e _
  generalize e.sh.toScan priority = a at hfits ⊢
  generalize int32 _ = b
  refine runs_loop (fun x e => x.1 = 0 ∧ Scanned 0 x.2.1 x.2.2 ∧ P e.sh.skeleton ∧
    e.sh.spurious = true) (fun x => (a - x.2.2).toNat) ?_ ⟨rfl, .zero, h, hsp⟩
  rintro ⟨reclaimed, sa, si⟩ e ⟨hzero, hx, he, hsp⟩
  dsimp only at hzero hx ⊢
  subst hzero
  by_cases hscan : si < a
  · obtain ⟨r, e', hr, sa', rfl, hx', he', hsp'⟩ :=
      may_reclaimRound hP hactive hinactive hpos hscan (hx.room hfits hscan) hx he hsp
    exact ⟨_, e', hr, .inl ⟨_, rfl, ⟨rfl, hx', he', hsp'⟩, scans_fall hscan⟩⟩
  · unfold reclaimRound
    dsimp only
    rw [if_neg fun hc => hscan hc.1]
    exact May.pure (.inr ⟨_, rfl, he, hsp⟩)

private theorem runs_addInt (hlow : -2 ^ 31 ≤ a + b) (hhigh : a + b < 2 ^ 31) :
    Runs (addInt a b) e (a + b) e := by
  unfold addInt
  rw [show Prog.check (-2 ^ 31 ≤ a + b && a + b < 2 ^ 31) Abort.intOverflow =
    (pure () : Paging Unit) from
    if_pos (by rw [Bool.and_eq_true, decide_eq_true_eq, decide_eq_true_eq]; exact ⟨hlow, hhigh⟩)]
  exact .ret _ _

/-- A round that cannot count one more cluster aborts if it finds every page accessed. -/
private theorem aborts_reclaimRound (hP : ScanKeeps D P) (hactive : D .activeList)
    (hinactive : D .inactiveList) (hpos : 0 < nrPages) (hscan : si < a)
    (hover : 2 ^ 31 ≤ si + swapClusterCount) (he : P e.sh.skeleton) (hsp : e.sh.spurious = true) :
    ∃ e', Aborts (reclaimRound nrPages b a (0, sa, si)) e .intOverflow e' := by
  obtain ⟨ret, e', hr, rfl, -⟩ :=
    may_shrinkInactiveList swapClusterCount hP hactive hinactive he hsp
  unfold reclaimRound
  dsimp only
  rw [if_pos ⟨hscan, hpos⟩]
  have hzero : Runs (addInt 0 (0 : Nat)) e' (0 + (0 : Nat)) e' :=
    runs_addInt (by decide) (by decide)
  exact ⟨e', hr.bind_aborts (hzero.bind_aborts (Aborts.bind_left (aborts_addInt hover)))⟩

/-- Where more is to be scanned than the counters hold, a pass that finds every page accessed
runs over. -/
theorem aborts_directAllocatePageAsynch {priority : Nat} (hP : ScanKeeps D P)
    (hactive : D .activeList) (hinactive : D .inactiveList) (h : P e.sh.skeleton)
    (hsp : e.sh.spurious = true) (hpos : 0 < nrPages)
    (hover : 2 ^ 31 < e.sh.toScan priority + swapClusterCount) :
    ∃ e', Aborts (directAllocatePageAsynch nrPages priority) e .intOverflow e' := by
  suffices hrounds : ∃ e', Aborts (Prog.loop (reclaimRound nrPages
    (int32 ((e.sh.fifos.seq .activeList).length >>> priority : Nat)) (e.sh.toScan priority))
    (0, 0, 0)) e .intOverflow e' by
    obtain ⟨e', ha⟩ := hrounds
    exact ⟨e', .act rfl (.act rfl ha)⟩
  generalize e.sh.toScan priority = a at hover ⊢
  generalize int32 _ = b
  have hcast : ((swapClusterCount : Nat) : Int) = 32 := rfl
  rw [hcast] at hover
  refine aborts_loop (fun m (x : Int × Int × Int) e => x.1 = 0 ∧ x.2.2 = m * swapClusterCount ∧
    Scanned 0 x.2.1 x.2.2 ∧ P e.sh.skeleton ∧ e.sh.spurious = true) (2 ^ 26 - 1) ?_ ?_
    ⟨rfl, by simp, .zero, h, hsp⟩
  · rintro m ⟨reclaimed, sa, si⟩ e hm ⟨hzero, hsi, hx, he, hsp⟩
    dsimp only at hzero hsi hx
    subst hzero hsi
    rw [hcast] at hx
    have hscan : (m : Int) * 32 < a := by omega
    have hroom : (m : Int) * 32 + swapClusterCount < 2 ^ 31 := by
      rw [hcast]
      omega
    obtain ⟨r, e', hr, sa', rfl, hx', he', hsp'⟩ :=
      may_reclaimRound hP hactive hinactive hpos hscan hroom hx he hsp
    refine ⟨_, e', hr, rfl, ?_, hx', he', hsp'⟩
    rw [hcast]
    push_cast
    omega
  · rintro ⟨reclaimed, sa, si⟩ e ⟨hzero, hsi, hx, he, hsp⟩
    dsimp only at hzero hsi hx
    subst hzero hsi
    have hscan : ((2 ^ 26 - 1 : Nat) : Int) * swapClusterCount < a := by
      rw [hcast]
      omega
    have hfull :
        (2 : Int) ^ 31 ≤ ((2 ^ 26 - 1 : Nat) : Int) * swapClusterCount + swapClusterCount := by
      decide
    exact aborts_reclaimRound hP hactive hinactive hpos hscan hfull he hsp

/-- Long lists are scanned, and the priority falls, whatever is found. -/
theorem may_fetchFreeScan {priority : Nat} (hP : ScanKeeps D P) (hactive : D .activeList)
    (hinactive : D .inactiveList) (h : P e.sh.skeleton)
    (hsp : e.sh.spurious = true) (hrun : e.sh.shrinkageRunning = false)
    (hlong : (e.sh.fifos.seq .activeList).length + (e.sh.fifos.seq .inactiveList).length >
      e.sh.dramsize / (pageSize * 2)) (hfits : e.sh.toScan priority + swapClusterCount ≤ 2 ^ 31) :
    May (fetchFreeScan priority) e fun p e' =>
        p = priority - 1 ∧ P e'.sh.skeleton ∧ e'.sh.spurious = true := by
  refine may_read ?_
  rw [hrun, if_neg Bool.false_ne_true]
  refine may_read (may_read (may_read ?_))
  rw [if_pos hlong]
  exact (may_directAllocatePageAsynch hP hactive hinactive h hsp hfits (by decide)).bind
    fun _ e he => May.pure ⟨rfl, he⟩

end ExtMem
