import ExtMem.Serial.Walk

/-! What munmap leaves behind: it releases the pages of its range and nothing else. -/
namespace ExtMem
open Threads Threads.Prog

variable {n : Nat} {frames : List Frame} {k k' : Skeleton} {d r x : PageId} {a addr length m : Nat}
  {l : FifoList}

/-- A descriptor that stands for no page and has no reserve. -/
def UserPage.Cleared (p : UserPage) : Prop := p.va = 0 ∧ p.hasReserve = false ∧ p.reserve = none

/-- What one page does when it is forgotten: its list loses it, the free lists gain its frame
and that of its reserve, and the other pages stay as they are. -/
structure Forgets (n : Nat) (k : Skeleton) (d : PageId) (k' : Skeleton) : Prop where
  tracked : ∀ l : FifoList, l.tracked = true →
    k'.fifos.seq l = (k.fifos.seq l).filter fun x => decide (x ≠ d)
  dramFree : (k'.fifos.seq .dramFreeList).length =
    (k.fifos.seq .dramFreeList).length + if (k.page d).inDram then 1 else 0
  diskFree : (k'.fifos.seq .diskFreeList).length = (k.fifos.seq .diskFreeList).length +
    (if (k.page d).swappedOut then 1 else 0) + if (k.page d).inDram && (k.page d).hasReserve then 1
      else 0
  others : ∀ x, x ≠ d → (k.page x).va ≠ 0 ∨ n ≤ x → k'.page x = k.page x
  self : (k'.page d).Cleared
  reserve : ∀ r, (k.page d).reserve = some r → (k'.page r).Cleared
  cleared : ∀ x, (k.page x).Cleared → (k'.page x).Cleared

private theorem filter_ne_of_erase {xs : List PageId} (h : xs.Nodup) (d : PageId) :
    xs.erase d = xs.filter fun x => decide (x ≠ d) := by
  rw [h.erase_eq_filter]
  refine List.filter_congr fun x _ => ?_
  by_cases hx : x = d <;> simp [hx]

theorem Settled.forgets (h : Settled n frames k) (hd : d < n) (hva : (k.page d).va ≠ 0) :
    Forgets n k d (k.release d) := by
  obtain ⟨l, hl, hkind⟩ := h.whole.tracked hd hva
  have hltracked : l.tracked = true := by
    rcases hkind with ⟨hr, -⟩ | ⟨rfl, -⟩
    · unfold FifoList.tracked
      rw [hr]
      rfl
    · rfl
  have hl₁ : l ≠ .dramFreeList := by
    rintro rfl
    cases hltracked
  have hl₂ : l ≠ .diskFreeList := by
    rintro rfl
    cases hltracked
  cases hres : (k.page d).reserve with
  | none =>
    have hpd : (k.release d).page d = (k.page d).released := by simp [Skeleton.release, hres]
    have hpx (x : PageId) (hx : x ≠ d) : (k.release d).page x = k.page x := by
      simp [Skeleton.release, hres, hx]
    have htag : (k.fifos.unlink d).tag d = none := by simp
    have hf : (k.release d).fifos = (k.fifos.unlink d).enqueue
        (if (k.page d).inDram then .dramFreeList else .diskFreeList) d := by
      simp [Skeleton.release, hres]
    refine ⟨fun m hm => ?_, ?_, ?_, fun x hx _ => hpx x hx, ?_, fun r hr => ?_, fun x hx => ?_⟩
    · rw [hf, Queues.seq_enqueue htag, if_neg, Queues.seq_unlink,
        filter_ne_of_erase (k.fifos.nodup m)]
      rintro rfl
      cases hc : (k.page d).inDram <;> rw [hc] at hm <;> cases hm
    · rw [hf, Queues.seq_enqueue htag, Queues.seq_unlink_of_ne hl hl₁.symm]
      cases (k.page d).inDram
      · rw [if_neg (by simp), if_neg (by simp)]
        simp
      · simp only [if_true]
        rw [Queues.seq_unlink_of_ne hl hl₁.symm, List.length_append]
        rfl
    · rw [hf, Queues.seq_enqueue htag, Queues.seq_unlink_of_ne hl hl₂.symm]
      rcases hkind with ⟨-, hr⟩ | ⟨-, ha⟩
      · rw [hr.2.2.1, hr.2.2.2.2.1, hr.2.2.2.2.2.2, hres]
        simp
      · rw [ha.2.2.1, ha.2.2.2.2.1]
        simp only [Bool.false_eq_true, if_false, if_true]
        rw [Queues.seq_unlink_of_ne hl hl₂.symm, List.length_append]
        rfl
    · rw [hpd]
      exact ⟨rfl, rfl, rfl⟩
    · rw [hres] at hr
      cases hr
    · by_cases hxd : x = d
      · subst hxd
        exact absurd hx.1 hva
      · rw [hpx x hxd]
        exact hx
  | some r =>
    obtain ⟨hrn, hback, hcopy⟩ := h.whole.reserved d r hd hres
    have hdr : (k.page d).Resident := by
      rcases hkind with ⟨-, hr⟩ | ⟨-, ha⟩
      · exact hr
      · rw [ha.2.2.2.2.2.2] at hres
        cases hres
    have hld : k.list d ≠ some .diskReserveList := fun hc => hva (h.whole.fits hc).1
    have hlr : k.list r = some .diskReserveList := by
      by_contra hc
      exact hld (hcopy.mpr hc)
    have hrp : (k.page r).Copy := h.whole.fits hlr
    have hne : r ≠ d := by
      rintro rfl
      exact hld hlr
    have hpd : (k.release d).page d = (k.page d).released := by
      simp [Skeleton.release, hres, hne.symm]
    have hpr : (k.release d).page r = (k.page r).dropped := by simp [Skeleton.release, hres]
    have hpx (x : PageId) (h₁ : x ≠ d) (h₂ : x ≠ r) : (k.release d).page x = k.page x := by
      simp [Skeleton.release, hres, h₁, h₂]
    have htag : ((k.fifos.unlink d).unlink r).tag r = none := by simp
    have htag' : (((k.fifos.unlink d).unlink r).enqueue .diskFreeList r).tag d = none := by
      rw [Queues.tag_enqueue htag, if_neg hne.symm]
      simp
    have hf : (k.release d).fifos =
        (((k.fifos.unlink d).unlink r).enqueue .diskFreeList r).enqueue .dramFreeList d := by
      simp [Skeleton.release, hres]
    have hlr' : (k.fifos.unlink d).tag r = some .diskReserveList := by
      rw [Queues.tag_unlink, if_neg hne]
      exact hlr
    have hseq (m : FifoList) (hm : m ≠ .diskReserveList) : ((k.fifos.unlink d).unlink r).seq m =
        (k.fifos.unlink d).seq m := Queues.seq_unlink_of_ne hlr' hm
    refine ⟨fun m hm => ?_, ?_, ?_, fun x hx hx' => ?_, ?_, fun s hs => ?_, fun x hx => ?_⟩
    · rw [hf, Queues.seq_enqueue htag', if_neg (by rintro rfl; cases hm), Queues.seq_enqueue htag,
        if_neg (by rintro rfl; cases hm), hseq m (by rintro rfl; cases hm), Queues.seq_unlink,
        filter_ne_of_erase (k.fifos.nodup m)]
    · rw [hf, Queues.seq_enqueue htag', if_pos rfl, Queues.seq_enqueue htag, if_neg (by decide),
        hseq _ (by decide), Queues.seq_unlink_of_ne hl hl₁.symm, List.length_append, hdr.2.2.1]
      rfl
    · rw [hf, Queues.seq_enqueue htag', if_neg (by decide), Queues.seq_enqueue htag, if_pos rfl,
        hseq _ (by decide), Queues.seq_unlink_of_ne hl hl₂.symm, List.length_append, hdr.2.2.1,
        hdr.2.2.2.2.1, hdr.2.2.2.2.2.2, hres]
      rfl
    · refine hpx x hx ?_
      rintro rfl
      rcases hx' with hx' | hx'
      · exact hx' hrp.1
      · exact Nat.not_lt.mpr hx' hrn
    · rw [hpd]
      exact ⟨rfl, rfl, rfl⟩
    · rw [hres, Option.some.injEq] at hs
      rw [← hs, hpr]
      exact ⟨hrp.1, rfl, rfl⟩
    · by_cases hxd : x = d
      · subst hxd
        exact absurd hx.1 hva
      · by_cases hxr : x = r
        · subst hxr
          rw [hpr]
          exact ⟨hrp.1, rfl, rfl⟩
        · rw [hpx x hxd hxr]
          exact hx

/-- How many of so many page addresses have a tracked page of a kind. -/
def pagesWhere (k : Skeleton) (addr m : Nat) (p : UserPage → Bool) : Nat :=
  (List.range m).countP fun i => ((k.pages (addr + i * pageSize)).map k.page).any p

/-- Whether an address is among so many page addresses. -/
def visited (addr m a : Nat) : Bool := (List.range m).any fun i => a == addr + i * pageSize

private theorem visited_iff : visited addr m a = true ↔ ∃ i, i < m ∧ a = addr + i * pageSize := by
  simp [visited]

/-- What the pages of a range do when they are forgotten one after the other. -/
structure ForgetsPages (n : Nat) (k : Skeleton) (addr m : Nat) (k' : Skeleton) : Prop where
  tracked : ∀ l : FifoList, l.tracked = true →
    k'.fifos.seq l = (k.fifos.seq l).filter fun x => !visited addr m (k.page x).va
  dramFree : (k'.fifos.seq .dramFreeList).length =
    (k.fifos.seq .dramFreeList).length + pagesWhere k addr m (·.inDram)
  diskFree : (k'.fifos.seq .diskFreeList).length = (k.fifos.seq .diskFreeList).length +
    pagesWhere k addr m (·.swappedOut) + pagesWhere k addr m fun p => p.inDram && p.hasReserve
  others : ∀ x, visited addr m (k.page x).va = false → (k.page x).va ≠ 0 ∨ n ≤ x →
    k'.page x = k.page x
  released : ∀ i, i < m → ∀ d, k.pages (addr + i * pageSize) = some d →
    (k'.page d).Cleared ∧ ∀ r, (k.page d).reserve = some r → (k'.page r).Cleared

private theorem pagesWhere_succ (k : Skeleton) (addr m : Nat) (p : UserPage → Bool) :
    pagesWhere k addr (m + 1) p = pagesWhere k addr m p +
      if ((k.pages (addr + m * pageSize)).map k.page).any p then 1 else 0 := by
  unfold pagesWhere
  rw [List.range_succ, List.countP_append, List.countP_singleton]

private theorem visited_succ (addr m a : Nat) :
    visited addr (m + 1) a = (visited addr m a || a == addr + m * pageSize) := by
  unfold visited
  rw [List.range_succ, List.any_append, List.any_cons, List.any_nil, Bool.or_false]

theorem Settled.forgetsPages (h : Settled n frames k) (ha : addr ≠ 0) (m : Nat) :
    ForgetsPages n k addr m (k.forgetPages addr m) := by
  induction m with
  | zero =>
    refine ⟨fun l _ => ?_, rfl, rfl, fun _ _ _ => rfl, fun i hi => absurd hi (Nat.not_lt_zero i)⟩
    simp [Skeleton.forgetPages, visited]
  | succ m ih =>
    have hset := h.forgetPages ha m
    have hne : addr + m * pageSize ≠ 0 := Nat.ne_of_gt (Nat.add_pos_left (Nat.pos_of_ne_zero ha) _)
    have hnew : visited addr m (addr + m * pageSize) = false := by
      rw [Bool.eq_false_iff]
      intro hc
      obtain ⟨i, hi, he⟩ := visited_iff.mp hc
      have hps : pageSize = 4096 := rfl
      simp only [hps] at he
      omega
    have hpages :
        (k.forgetPages addr m).pages (addr + m * pageSize) = k.pages (addr + m * pageSize) := by
      rw [h.pages_forgetPages ha, if_neg]
      intro hc
      rw [visited_iff.mpr hc] at hnew
      cases hnew
    rw [Skeleton.forgetPages_succ]
    unfold Skeleton.forget
    rw [hpages]
    cases hp : k.pages (addr + m * pageSize) with
    | none =>
      have hnone (x : PageId) (hx : x < n) : (k.page x).va ≠ addr + m * pageSize := by
        intro hc
        rw [(h.whole.hash _ x hne).mpr ⟨hx, hc⟩] at hp
        cases hp
      refine ⟨fun l hl => ?_, ?_, ?_, fun x hx => ih.others x ?_, fun i hi d hd => ?_⟩
      · rw [ih.tracked l hl]
        refine List.filter_congr fun x hx => ?_
        have hxn := h.whole.lt_of_list ((k.fifos.mem_iff l x).mp hx)
        rw [visited_succ, beq_eq_false_iff_ne.mpr (hnone x hxn), Bool.or_false]
      · rw [ih.dramFree, pagesWhere_succ, hp]
        rfl
      · rw [ih.diskFree, pagesWhere_succ, pagesWhere_succ, hp]
        rfl
      · rw [visited_succ, Bool.or_eq_false_iff] at hx
        exact hx.1
      · refine ih.released i (Nat.lt_of_le_of_ne (Nat.le_of_lt_succ hi) ?_) d hd
        rintro rfl
        rw [hp] at hd
        cases hd
    | some d =>
      obtain ⟨hd, hva⟩ := h.of_hash hne hp
      have hsame : (k.forgetPages addr m).page d = k.page d :=
        ih.others d (by rw [hva]; exact hnew) (.inl (by rw [hva]; exact hne))
      have hf := hset.forgets hd (by rw [hsame, hva]; exact hne)
      have hother (x : PageId) (hx : x < n) (hxd : x ≠ d) :
          (k.page x).va ≠ addr + m * pageSize := by
        intro hc
        have hx' := (h.whole.hash _ x hne).mpr ⟨hx, hc⟩
        rw [hp, Option.some.injEq] at hx'
        exact hxd hx'.symm
      refine ⟨fun l hl => ?_, ?_, ?_, fun x hx hx' => ?_, fun i hi x hx => ?_⟩
      · rw [hf.tracked l hl, ih.tracked l hl, List.filter_filter]
        refine List.filter_congr fun x hx => ?_
        have hxn := h.whole.lt_of_list ((k.fifos.mem_iff l x).mp hx)
        rw [visited_succ]
        by_cases hxd : x = d
        · subst hxd
          simp [hva]
        · simp [hxd, hother x hxn hxd]
      · rw [hf.dramFree, ih.dramFree, pagesWhere_succ, hp, hsame, Nat.add_assoc]
        rfl
      · rw [hf.diskFree, ih.diskFree, pagesWhere_succ, pagesWhere_succ, hp, hsame]
        simp only [Option.map_some, Option.any_some]
        omega
      · rw [visited_succ, Bool.or_eq_false_iff] at hx
        have hxd : x ≠ d := by
          rintro rfl
          rw [hva, beq_self_eq_true] at hx
          cases hx.2
        have hi := ih.others x hx.1 hx'
        rw [hf.others x hxd (by rw [hi]; exact hx'), hi]
      · by_cases him : i = m
        · subst him
          rw [hp, Option.some.injEq] at hx
          subst hx
          exact ⟨hf.self, fun r hr => hf.reserve r (by rw [hsame, hr])⟩
        · obtain ⟨h₁, h₂⟩ := ih.released i (Nat.lt_of_le_of_ne (Nat.le_of_lt_succ hi) him) x hx
          exact ⟨hf.cleared x h₁, fun r hr => hf.cleared r (h₂ r hr)⟩

/-! The memory itself. -/

/-- A step that leaves the page table and the disk alone. -/
def Untouched (e e' : Env) : Prop := e'.sh.pte = e.sh.pte ∧ e'.sh.disk = e.sh.disk

private theorem releasing_untouched : Releasing Untouched where
  refl _ := ⟨rfl, rfl⟩
  trans h₁ h₂ := ⟨h₂.1.trans h₁.1, h₂.2.trans h₁.2⟩
  enqueue _ _ _ _ _ := ⟨rfl, rfl⟩
  dequeue _ _ _ _ _ _ := ⟨rfl, rfl⟩
  remove _ _ _ _ _ := ⟨rfl, rfl⟩
  removeAny _ _ _ := ⟨rfl, rfl⟩
  auxiliary _ _ _ _ := ⟨rfl, rfl⟩
  record _ _ _ _ _ := ⟨rfl, rfl⟩
  write _ _ _ _ := ⟨rfl, rfl⟩
  forget _ _ _ := ⟨rfl, rfl⟩

variable {e : Env}

/-- What munmap leaves of the memory. -/
private theorem after_memory :
    After (extmemMunmap addr length) e fun _ e' => e'.sh.disk = e.sh.disk ∧
      ∀ a, e'.sh.pte a = if inRange addr (roundLength length) a then none else e.sh.pte a := by
  have hkeep {p : Paging Unit} (h : Always (Within Untouched) p) (e₁ : Env)
      (he : Untouched e e₁) : After p e₁ fun _ e' => Untouched e e' :=
    (after_within h releasing_untouched.refl releasing_untouched.trans).mono fun _ _ h' =>
      releasing_untouched.trans he h'
  unfold extmemMunmap
  refine (after_bind _ _ _ _).mpr ((after_modify _ _ _).mpr ?_)
  refine after_then (hkeep (within_lockAllocator fun _ => ⟨rfl, rfl⟩) _ ⟨rfl, rfl⟩) fun _ e₁ h => ?_
  refine after_then (hkeep (within_unmapWalk releasing_untouched addr length) e₁ h)
    fun _ e₁ h => ?_
  refine after_then (R := fun ok e' => ok = true → e'.sh.disk = e.sh.disk ∧ ∀ a, e'.sh.pte a =
    if inRange addr (roundLength length) a then none else e.sh.pte a) ?_ fun ok e₁ hok => ?_
  · refine (after_bind _ _ _ _).mpr
      ((after_answer _ _).mpr fun refuse => (after_atomic _ _ _).mpr fun ok e' he => ?_)
    split at he
    · cases he
      exact fun h => absurd h Bool.false_ne_true
    · cases he
      refine fun _ => ⟨h.2, fun a => ?_⟩
      show (if inRange addr (roundLength length) a then none else e₁.sh.pte a) = _
      rw [h.1]
  · refine after_check fun hc =>
      (after_bind _ _ _ _).mpr ((after_modify _ _ _).mpr ((after_modify _ _ _).mpr (hok hc)))

/-! The whole call. -/

/-- After munmap no page of the range is tracked, every other page has its fields, its place among
the others and its contents, the free lists have gained the frames, and the descriptors that had
them are cleared. -/
structure ReleasesRange (s s' : Shared) (addr length : Nat) : Prop where
  gone : ∀ a d, inRange addr length a = true → s'.pages a ≠ some d
  kept : ∀ a d, s.pages a = some d → inRange addr length a = false →
    s'.pages a = some d ∧ s'.page d = s.page d ∧ s'.pte a = s.pte a
  old : ∀ a d, s'.pages a = some d → s.pages a = some d
  order : ∀ l : FifoList, l.tracked = true →
    s'.fifos.seq l = (s.fifos.seq l).filter fun d => !inRange addr length (s.page d).va
  disk : s'.disk = s.disk
  dramFree : (s'.fifos.seq .dramFreeList).length =
    (s.fifos.seq .dramFreeList).length + pagesWhere s.skeleton addr (walkLength length) (·.inDram)
  diskFree : (s'.fifos.seq .diskFreeList).length = (s.fifos.seq .diskFreeList).length +
    pagesWhere s.skeleton addr (walkLength length) (·.swappedOut) +
      pagesWhere s.skeleton addr (walkLength length) fun p => p.inDram && p.hasReserve
  released : ∀ a d, inRange addr length a = true → s.pages a = some d →
    (s'.page d).Cleared ∧ ∀ r, (s.page d).reserve = some r → (s'.page r).Cleared

private theorem visited_eq_inRange (haddr : addr % pageSize = 0) (ha : a % pageSize = 0) :
    visited addr (walkLength length) a = inRange addr length a := by
  have hps : pageSize = 4096 := rfl
  obtain ⟨q, rfl⟩ := Nat.dvd_of_mod_eq_zero haddr
  obtain ⟨b, rfl⟩ := Nat.dvd_of_mod_eq_zero ha
  rw [Bool.eq_iff_iff, visited_iff]
  simp only [inRange, Bool.and_eq_true, decide_eq_true_eq, walkLength, hps]
  constructor
  · rintro ⟨i, hi, he⟩
    omega
  · rintro ⟨h₁, h₂⟩
    exact ⟨b - q, by omega, by omega⟩

private theorem inRange_round (haddr : addr % pageSize = 0) (ha : a % pageSize = 0) :
    inRange addr (roundLength length) a = inRange addr length a := by
  have hps : pageSize = 4096 := rfl
  obtain ⟨q, rfl⟩ := Nat.dvd_of_mod_eq_zero haddr
  obtain ⟨b, rfl⟩ := Nat.dvd_of_mod_eq_zero ha
  rw [Bool.eq_iff_iff]
  simp only [inRange, Bool.and_eq_true, decide_eq_true_eq, roundLength, hps]
  omega

/-- munmap releases exactly its range, and returns where the kernel accepts to unmap it. -/
theorem munmap_releases {dramsize disksize : Nat} {c : System}
    (h : Paused dramsize disksize c) (t : Tid) (addr length : Nat) :
    (∀ e, Runs (extmemMunmap addr length) ⟨c.sh, c.loc t⟩ () e →
        ReleasesRange c.sh e.sh addr length) ∧ (addr ≠ 0 → addr % pageSize = 0 → length ≠ 0 →
        addr + length ≤ taskSize → ∃ e, Runs (extmemMunmap addr length) ⟨c.sh, c.loc t⟩ () e) := by
  have hset := h.settled
  constructor
  · intro e hr
    have hu := after_extmemMunmap (e := ⟨c.sh, c.loc t⟩) rfl hset _ _ hr
    obtain ⟨hdisk, hpte⟩ := after_memory _ _ hr
    have hf := hset.forgetsPages hu.ne.1 (walkLength length)
    have hk : e.sh.skeleton = (c.sh.skeleton.forgetPages addr (walkLength length)).remap addr
        (roundLength length) .none := hu.result
    have hpage : e.sh.page = (c.sh.skeleton.forgetPages addr (walkLength length)).page :=
      congrArg Skeleton.page hk
    have hfifos : e.sh.fifos = (c.sh.skeleton.forgetPages addr (walkLength length)).fifos :=
      congrArg Skeleton.fifos hk
    have hpages (a : Nat) :
        e.sh.pages a = if visited addr (walkLength length) a then none else c.sh.pages a := by
      rw [show e.sh.pages = _ from congrArg Skeleton.pages hk]
      refine (hset.pages_forgetPages hu.ne.1 _ a).trans (if_congr visited_iff.symm rfl rfl)
    have hzero : inRange addr length 0 = false := by
      simp only [inRange, Bool.and_eq_false_iff, decide_eq_false_iff_not]
      exact .inl (Nat.not_le.mpr (Nat.pos_of_ne_zero hu.ne.1))
    have hal (a : Nat) (d : PageId) (hd : c.sh.pages a = some d) : a % pageSize = 0 := by
      by_cases ha : a = 0
      · rw [ha, Nat.zero_mod]
      · exact hset.aligned ha hd
    have hvisited (a : Nat) (d : PageId) (hd : c.sh.pages a = some d) :
        visited addr (walkLength length) a = inRange addr length a :=
      visited_eq_inRange hu.aligned (hal a d hd)
    have hold (a : Nat) (d : PageId) (hd : e.sh.pages a = some d) : c.sh.pages a = some d := by
      rw [hpages] at hd
      split at hd
      · cases hd
      · exact hd
    refine ⟨fun a d ha hd => ?_, fun a d hd ha => ⟨?_, ?_, ?_⟩, hold, fun l hl => ?_, hdisk, ?_, ?_,
      fun a d ha hd => ?_⟩
    · have hd' := hold a d hd
      rw [hpages, hvisited a d hd', ha, if_pos rfl] at hd
      cases hd
    · rw [hpages, hvisited a d hd, ha]
      exact hd
    · rw [hpage]
      have hva : (c.sh.page d).va = a := hset.whole.va_of_hash hd
      refine hf.others d ?_ ?_
      · show visited addr (walkLength length) (c.sh.page d).va = false
        rw [hva, hvisited a d hd, ha]
      · by_cases ha0 : a = 0
        · rw [ha0, show c.sh.pages 0 = some _ from hset.whole.zero, Option.some.injEq] at hd
          exact .inr (Nat.le_of_eq hd)
        · refine .inl ?_
          show (c.sh.page d).va ≠ 0
          rw [hva]
          exact ha0
    · rw [hpte, inRange_round hu.aligned (hal a d hd), ha]
      rfl
    · rw [hfifos, hf.tracked l hl]
      refine List.filter_congr fun x hx => ?_
      show (!visited addr (walkLength length) (c.sh.page x).va) = _
      have hxl := (c.sh.fifos.mem_iff l x).mp hx
      have ht := hset.tracked_iff (l := l) hxl
      rw [if_pos hl] at ht
      have hmod : (c.sh.page x).va % pageSize = 0 := ht.2.1
      rw [visited_eq_inRange hu.aligned hmod]
    · rw [hfifos]
      exact hf.dramFree
    · rw [hfifos]
      exact hf.diskFree
    · have ha' := ha
      rw [← hvisited a d hd] at ha'
      obtain ⟨i, hi, rfl⟩ := visited_iff.mp ha'
      rw [hpage]
      exact hf.released i hi d hd
  · intro h0 hal hl hend
    have htask : taskSize = 140737488351232 := rfl
    have hps : pageSize = 4096 := rfl
    have hw : Walking (initTotal dramsize disksize) (initFrames dramsize disksize)
        (Threads.Ctx.unmapping ⟨c.sh, c.loc t⟩) := ⟨c.sh.skeleton, rfl, hset⟩
    have hadd : add64 addr length = addr + length := Nat.mod_eq_of_lt (by omega)
    have htop : add64 addr length ≤ 2 ^ 64 - pageSize + addr % pageSize := by
      rw [hadd]
      simp only [hps]
      omega
    obtain ⟨u, e₁, hr, -⟩ := (total_walk hw h0 htop).runs
    have hunlocked : ¬ c.sh.allocatorLock = true := by
      rw [show c.sh.allocatorLock = false from hset.lock]
      exact Bool.false_ne_true
    have hin : Runs (setInternalCall true) ⟨c.sh, c.loc t⟩ ()
        ⟨c.sh, { c.loc t with internalCall := true }⟩ := .act rfl (.ret _ _)
    have hlock : Runs (lockAllocator : Paging Unit) ⟨c.sh, { c.loc t with internalCall := true }⟩ ()
        (Threads.Ctx.unmapping ⟨c.sh, c.loc t⟩) := .act (if_neg hunlocked) (.ret _ _)
    have hcall : Runs (libcMunmap addr length) e₁ true
        { e₁ with sh := e₁.sh.remap addr (roundLength length) .none } := by
      refine .ask 0 (.act (if_neg ?_) (.ret _ _))
      simp only [not_or, Nat.not_lt]
      exact ⟨by decide, hl, by rw [hal]; simp, hend⟩
    exact ⟨_, hin.bind (hlock.bind (hr.bind (hcall.bind (.act rfl (.act rfl (.ret () _))))))⟩

/-- A page with a reserve and a page that was swapped out are released on the small machine. -/
theorem munmap_releases_smallMachine :
    ∃ e, Runs (extmemMunmap smallBase (3 * pageSize))
        ⟨(System.start ((smallMachine false).story evictingStory)).sh,
        (System.start ((smallMachine false).story evictingStory)).loc 0⟩ () e ∧
      ReleasesRange (System.start ((smallMachine false).story evictingStory)).sh e.sh smallBase
        (3 * pageSize) := by
  obtain ⟨hall, hsome⟩ :=
    munmap_releases (launched_smallMachine.paused operation_evictingStory (by decide +kernel))
      0 smallBase (3 * pageSize)
  obtain ⟨e, hr⟩ := hsome (by decide) (by decide) (by decide) (by decide)
  exact ⟨e, hr, hall e hr⟩

end ExtMem
