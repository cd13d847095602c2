import ExtMem.Serial.Batch
import ExtMem.Serial.Fault

/-! The calls of mmap and munmap and the workers, run alone; the state between operations. -/
namespace ExtMem
open Threads Threads.Prog

variable {n : Nat} {frames : List Frame} {k k' k₁ k₂ : Skeleton} {d r : PageId} {e : Env} {a : Nat}

/-! Mapping. -/

/-- The state with a new kind of mapping in a range. -/
def Skeleton.remap (k : Skeleton) (start length : Nat) (v : Vma) : Skeleton :=
  { k with vma := fun a => if inRange start length a then v else k.vma a }

/-- What a mapping that the kernel makes is like. -/
structure Placed (k : Skeleton) (addr length : Nat) (flags : BitVec 32) (p : Nat) : Prop where
  ne : p ≠ 0
  aligned : p % pageSize = 0
  bounded : p + length ≤ taskSize
  fixed : hasFlag flags mapFixed = true → p = addr
  free : hasFlag flags mapFixed = false →
    ∀ i, i < length / pageSize → k.vma (p + i * pageSize) = .none

theorem after_libcMmap {addr length : Nat} {flags : BitVec 32} (hk : e.sh.skeleton = k) :
    After (libcMmap addr length flags) e fun p e' => match p with
      | none => e'.sh.skeleton = k
      | some p => Placed k addr length flags p ∧ e'.sh.skeleton = k.remap p length .plain ∧
          ∀ b, inRange p length b = true → e'.sh.pte b = none := by
  subst hk
  unfold libcMmap
  rw [after_bind]
  refine (after_answer _ _).mpr fun refuse => ?_
  rw [after_bind]
  refine (after_answer _ _).mpr fun pick => (after_atomic _ _ _).mpr fun p e' he => ?_
  have hfix : hasFlag flags mapFixed = true →
      (if hasFlag flags mapFixed then addr else pick) = addr := fun h => if_pos h
  generalize (if hasFlag flags mapFixed then addr else pick) = q at he hfix
  dsimp only at he
  split at he
  · cases he
    rfl
  · next h₁ =>
    split at he
    · cases he
      rfl
    · next h₂ =>
      cases he
      simp only [not_or, Nat.not_lt, ne_eq, not_not] at h₁
      refine ⟨⟨h₁.2.2.1, h₁.2.2.2.1, h₁.2.2.2.2, hfix, fun hf i hi => ?_⟩, rfl,
        fun b hb => if_pos hb⟩
      have hfree : e.sh.rangeFree q length = true := by
        by_contra hc
        exact h₂ ⟨hf, Bool.eq_false_iff.mpr hc⟩
      simp only [Shared.rangeFree, List.all_eq_true, List.mem_range, decide_eq_true_eq] at hfree
      exact hfree i hi

theorem pageRoundUp_mod (x : Nat) : pageRoundUp x % pageSize = 0 := Nat.mul_mod_left _ _

/-- A page address in a range of whole pages is one of its pages. -/
theorem page_of_inRange {p length a : Nat} (hp : p % pageSize = 0) (ha : a % pageSize = 0)
    (hl : length % pageSize = 0) (h : inRange p length a = true) :
    ∃ i, i < length / pageSize ∧ a = p + i * pageSize := by
  simp only [inRange, Bool.and_eq_true, decide_eq_true_eq] at h
  have hps : pageSize = 4096 := rfl
  simp only [hps] at hp ha hl ⊢
  obtain ⟨q, rfl⟩ := Nat.dvd_of_mod_eq_zero hp
  obtain ⟨b, rfl⟩ := Nat.dvd_of_mod_eq_zero ha
  obtain ⟨m, rfl⟩ := Nat.dvd_of_mod_eq_zero hl
  exact ⟨b - q, by omega, by omega⟩

/-- What a call of mmap that returns an address leads to. -/
structure Mapped (n : Nat) (frames : List Frame) (k : Skeleton) (addr length : Nat)
    (flags : BitVec 32) (p : Nat) (k' : Skeleton) : Prop where
  placed : Placed k addr length flags p
  settled : Settled n frames k'
  vma : k'.vma = (k.remap p length .uffd).vma
  stays : ∀ b d, k.pages b = some d → k'.pages b = some d
  new : ∀ b, inRange p length b = false → k'.pages b = k.pages b

private theorem hasFlag_fixed (flags : BitVec 32) : hasFlag flags mapFixed = flags.getLsbD 4 := by
  have h : flags &&& mapFixed = mapFixed ↔ flags.getLsbD 4 = true := by
    constructor
    · intro h
      have h4 := congrArg (fun x => BitVec.getLsbD x 4) h
      simpa [mapFixed] using h4
    · intro h
      refine BitVec.eq_of_getLsbD_eq fun i hi => ?_
      by_cases h4 : i = 4
      · subst h4
        simp [h, mapFixed]
      · have hbit : ∀ j : Fin 32, j.val ≠ 4 → mapFixed.getLsbD j.val = false := by decide
        rw [BitVec.getLsbD_and, hbit ⟨i, hi⟩ h4, Bool.and_false]
  unfold hasFlag
  by_cases h4 : flags.getLsbD 4 = true
  · rw [h4, decide_eq_true (h.mpr h4)]
  · rw [decide_eq_false fun hc => h4 (h.mp hc), Bool.eq_false_iff.mpr h4]

theorem fixed_mmapFlags (flags : BitVec 32) :
    hasFlag (mmapFlags flags) mapFixed = hasFlag flags mapFixed := by
  rw [hasFlag_fixed, hasFlag_fixed]
  unfold mmapFlags
  dsimp only
  split <;> split <;> split <;>
    simp [mapShared, mapPrivate, mapNoreserve, mapAnonymous, mapPopulate, mapHugetlb]

/-- The later mapping of a range is the one that counts. -/
theorem Skeleton.remap_remap (k : Skeleton) (p length : Nat) (v w : Vma) :
    (k.remap p length v).remap p length w = k.remap p length w := by
  refine Skeleton.ext rfl rfl rfl (funext fun b => ?_) rfl rfl rfl
  show (if inRange p length b then w else if inRange p length b then v else k.vma b) =
    if inRange p length b then w else k.vma b
  split <;> rfl

theorem Settled.remap (h : Settled n frames k) (p length : Nat) :
    Settled n frames (k.remap p length .uffd) := by
  refine ⟨⟨h.whole.place, h.whole.outside, h.whole.dummy, h.whole.present, h.whole.pt, h.whole.room,
    h.whole.frames, h.whole.reserved, h.whole.hash, h.whole.zero⟩, h.lock, h.shrinking,
    fun b d hb hd => ?_⟩
  show (if inRange p length b then Vma.uffd else k.vma b) = .uffd
  split
  · rfl
  · exact h.mapped b d hb hd

/-- The pages up to an address are populated. -/
private structure Populating (n : Nat) (frames : List Frame) (k : Skeleton) (p length pb : Nat)
    (k' : Skeleton) : Prop where
  settled : Settled n frames k'
  vma : k'.vma = k.vma
  stays : ∀ b d, k.pages b = some d → k'.pages b = some d
  new : ∀ b, inRange p length b = false → k'.pages b = k.pages b
  start : p ≤ pb
  aligned : pb % pageSize = 0
  done : ∀ b, p ≤ b → b < pb → b % pageSize = 0 → k'.pages b ≠ none

private theorem tracked_of_touched (h : Touched n frames k a k') : k'.pages a ≠ none := by
  obtain ⟨r, k₁, -, hrec, -, ⟨-, -, -, -, rfl⟩ | ⟨⟨d, hd⟩, rfl⟩⟩ := h
  · simp [Skeleton.track]
  · show k₁.pages a ≠ none
    rw [hrec.pages, hd]
    simp

private theorem after_populate {p length : Nat} (hk : e.sh.skeleton = k) (h : Settled n frames k)
    (hp : p % pageSize = 0) (hend : p + length ≤ taskSize) :
    After (extmemMmapPopulate p length) e fun _ e' => ∃ pb, p + length ≤ pb ∧
      Populating n frames k p length pb e'.sh.skeleton := by
  unfold extmemMmapPopulate
  refine after_check fun _ => after_check fun _ => ?_
  have hadd : add64 p length = p + length := Nat.mod_eq_of_lt (by unfold taskSize at hend; omega)
  refine after_loop (fun pb e => Populating n frames k p length pb e.sh.skeleton)
    (fun pb e hJ => ?_) ⟨by rw [hk]; exact h, by rw [hk], fun b d hb => by rw [hk]; exact hb,
    fun b _ => by rw [hk], Nat.le_refl p, hp, fun b h₁ h₂ => absurd h₁ (Nat.not_le.mpr h₂)⟩
  rw [hadd]
  refine (after_ite _ _ _ _).mpr
    ⟨fun hlt => ?_, fun hge => (after_pure _ _ _).mpr ⟨pb, Nat.not_lt.mp hge, hJ⟩⟩
  refine after_then (after_handleFirstFault rfl hJ.settled.whole) fun _ e' ⟨ht, _⟩ =>
    (after_pure _ _ _).mpr ?_
  obtain ⟨hsettled, hserves⟩ := Leads.of_touched hJ.settled ht
  have hps : pageSize = 4096 := rfl
  have hnext : add64 pb pageSize = pb + pageSize :=
    Nat.mod_eq_of_lt (by unfold taskSize at hend; omega)
  show Populating n frames k p length (add64 pb pageSize) _
  rw [hnext]
  refine ⟨hsettled, hserves.vma.trans hJ.vma, fun b d hb => hserves.stays b d (hJ.stays b d hb),
    fun b hb => ?_, Nat.le_add_right_of_le hJ.start, by rw [Nat.add_mod_right]; exact hJ.aligned,
    fun b h₁ h₂ hal => ?_⟩
  · rw [hserves.new b fun he => ?_, hJ.new b hb]
    rw [← Option.some.inj he] at hb
    simp only [inRange, Bool.and_eq_false_iff, decide_eq_false_iff_not] at hb
    have := hJ.start
    omega
  · have hal' := hJ.aligned
    by_cases hb : b < pb
    · cases hd : e.sh.skeleton.pages b with
      | none => exact absurd hd (hJ.done b h₁ hb hal)
      | some d =>
        rw [hserves.stays b d hd]
        simp
    · have hbe : b = pb := by
        simp only [hps] at hal hal' h₂
        omega
      rw [hbe]
      exact tracked_of_touched ht

/-- A call of mmap that the pager serves: with MAP_POPULATE every page of the range is tracked
afterwards, without it none more than before and no page of the range is present. -/
theorem after_extmemMmap {addr length : Nat} {flags : BitVec 32}
    (hk : e.sh.skeleton = k) (h : Settled n frames k) :
    After (extmemMmap addr length flags) e fun p e' =>
        Mapped n frames k addr (pageRoundUp length) flags p e'.sh.skeleton ∧
      ((∀ b, b % pageSize = 0 → inRange p (pageRoundUp length) b = true → e'.sh.pages b ≠ none) ∨
        ∀ b, inRange p (pageRoundUp length) b = true → e'.sh.pte b = none) := by
  unfold extmemMmap
  refine after_still hk (by simp) fun _ e hk =>
    after_still hk (by simp) fun _ e hk => after_check fun _ => ?_
  dsimp only
  refine after_then (after_libcMmap hk) fun p e hp => ?_
  cases p with
  | none => exact (after_fail _ _ _).mpr trivial
  | some p =>
    obtain ⟨hp, hk, hpte⟩ := hp
    have hplaced : Placed k addr (pageRoundUp length) flags p :=
      ⟨hp.ne, hp.aligned, hp.bounded, fun hf => hp.fixed (by rw [fixed_mmapFlags, hf]),
        fun hf => hp.free (by rw [fixed_mmapFlags, hf])⟩
    have hset := h.remap p (pageRoundUp length)
    refine after_then (R := fun _ e' => e'.sh.skeleton = k.remap p (pageRoundUp length) .plain ∧
      ∀ b, inRange p (pageRoundUp length) b = true → e'.sh.pte b = none)
      ((after_modify _ _ _).mpr ⟨hk, hpte⟩) fun _ e ⟨hk, hpte⟩ => ?_
    refine after_then (R := fun _ e' => e'.sh.skeleton = k.remap p (pageRoundUp length) .uffd ∧
      ∀ b, inRange p (pageRoundUp length) b = true → e'.sh.pte b = none)
      ((after_modify _ _ _).mpr ⟨?_, hpte⟩) fun _ e ⟨hk, hpte⟩ => ?_
    · rw [← Skeleton.remap_remap k p (pageRoundUp length) .plain, ← hk]
      rfl
    · have hfin (e : Env) (hR : Mapped n frames k addr (pageRoundUp length) flags p e.sh.skeleton ∧
          ((∀ b, b % pageSize = 0 → inRange p (pageRoundUp length) b = true → e.sh.pages b ≠ none) ∨
            ∀ b, inRange p (pageRoundUp length) b = true → e.sh.pte b = none)) :
          After (do
            setStats fun t => { t with memMmaped := pageRoundUp length }
            setInternalCall false
            pure p : Paging Nat) e fun p e' =>
              Mapped n frames k addr (pageRoundUp length) flags p e'.sh.skeleton ∧
              ((∀ b, b % pageSize = 0 → inRange p (pageRoundUp length) b = true →
                  e'.sh.pages b ≠ none) ∨
                ∀ b, inRange p (pageRoundUp length) b = true → e'.sh.pte b = none) := by
        refine (after_bind _ _ _ _).mpr ((after_modify _ _ _).mpr ?_)
        exact (after_bind _ _ _ _).mpr ((after_modify _ _ _).mpr ((after_pure _ _ _).mpr hR))
      refine (after_ite _ _ _ _).mpr
        ⟨fun _ => ?_, fun _ => hfin e ⟨⟨hplaced, ?_, ?_, ?_, ?_⟩, .inr hpte⟩⟩
      · refine after_then (after_populate hk hset hp.aligned hp.bounded) fun _ e' ⟨pb, hpb, hpop⟩ =>
          hfin e' ?_
        refine ⟨⟨hplaced, hpop.settled, hpop.vma, hpop.stays, hpop.new⟩,
          .inl fun b hal hb => hpop.done b ?_ ?_ hal⟩
        · simp only [inRange, Bool.and_eq_true, decide_eq_true_eq] at hb
          exact hb.1
        · simp only [inRange, Bool.and_eq_true, decide_eq_true_eq] at hb
          exact Nat.lt_of_lt_of_le hb.2 hpb
      · rw [hk]
        exact hset
      · rw [hk]
      · rw [hk]
        exact fun _ _ hb => hb
      · rw [hk]
        exact fun _ _ => rfl

/-! Unmapping. -/

/-- The page of an address is forgotten if there is one. -/
def Skeleton.forget (k : Skeleton) (a : Nat) : Skeleton :=
  match k.pages a with
  | some d => k.release d
  | none => k

/-- The pages of so many page addresses are forgotten in order. -/
def Skeleton.forgetPages (k : Skeleton) (addr m : Nat) : Skeleton :=
  (List.range m).foldl (fun k i => k.forget (addr + i * pageSize)) k

theorem Skeleton.forgetPages_succ (k : Skeleton) (addr m : Nat) :
    k.forgetPages addr (m + 1) = (k.forgetPages addr m).forget (addr + m * pageSize) := by
  rw [forgetPages, List.range_succ, List.foldl_append]
  rfl

/-- The page addresses that a walk over a range visits. -/
def walkLength (length : Nat) : Nat := (length + (pageSize - 1)) / pageSize

namespace Settled

/-- What the hash names at an address other than zero is one of the descriptors. -/
theorem of_hash (h : Settled n frames k) (ha : a ≠ 0) (hd : k.pages a = some d) :
    d < n ∧ (k.page d).va = a :=
  (h.whole.hash a d ha).mp hd

theorem aligned (h : Settled n frames k) (ha : a ≠ 0) (hd : k.pages a = some d) :
    a % pageSize = 0 := by
  obtain ⟨hn, hva⟩ := h.of_hash ha hd
  obtain ⟨l, -, ⟨-, hr⟩ | ⟨-, hr⟩⟩ := h.whole.tracked hn (by rw [hva]; exact ha)
  · rw [← hva]
    exact hr.2.1
  · rw [← hva]
    exact hr.2.1

theorem release (h : Settled n frames k) (hd : d < n) (hva : (k.page d).va ≠ 0) :
    Settled n frames (k.release d) := by
  refine ⟨h.whole.release hd hva, h.lock, h.shrinking, fun b x hb hx => ?_⟩
  have hx' : (if k.pages b = some d then none else k.pages b) = some x := hx
  split at hx'
  · cases hx'
  · exact h.mapped b x hb hx'

theorem forget (h : Settled n frames k) (ha : a ≠ 0) : Settled n frames (k.forget a) := by
  unfold Skeleton.forget
  split
  · next d hd =>
    obtain ⟨hn, hva⟩ := h.of_hash ha hd
    exact h.release hn (by rw [hva]; exact ha)
  · exact h

/-- No other address loses its page when one is forgotten. -/
theorem pages_forget (h : Settled n frames k) (ha : a ≠ 0) (b : Nat) :
    (k.forget a).pages b = if b = a then none else k.pages b := by
  unfold Skeleton.forget
  split
  · next d hd =>
    show (if k.pages b = some d then none else k.pages b) = _
    by_cases hb : b = a
    · rw [if_pos hb, if_pos (by rw [hb, hd])]
    · rw [if_neg hb, if_neg]
      intro hbd
      by_cases hb0 : b = 0
      · rw [hb0, h.whole.zero, Option.some.injEq] at hbd
        exact Nat.lt_irrefl _ (hbd ▸ (h.of_hash ha hd).1)
      · exact hb (((h.of_hash hb0 hbd).2).symm.trans (h.of_hash ha hd).2)
  · next hd =>
    by_cases hb : b = a
    · rw [if_pos hb, hb, hd]
    · rw [if_neg hb]

end Settled

theorem Skeleton.vma_forget (k : Skeleton) (a : Nat) : (k.forget a).vma = k.vma := by
  unfold Skeleton.forget
  split <;> rfl

/-- The state while the allocator lock is held. -/
def Skeleton.locked (k : Skeleton) : Skeleton := { k with lock := true }

theorem Whole.locked (h : Whole n frames hand k) : Whole n frames hand k.locked :=
  ⟨h.place, h.outside, h.dummy, h.present, h.pt, h.room, h.frames, h.reserved, h.hash, h.zero⟩

private theorem total_countFreed (hk : e.sh.skeleton = k) : Total (do
    let pagesize ← pagesizeOf d
    setStats fun t => { t with memAllocated := sub64 t.memAllocated pagesize }
    setStats fun t => { t with memMmaped := sub64 t.memMmaped pagesize }
    setStats fun t => { t with pagesFreed := add64 t.pagesFreed 1 }
    pure (add64 a pagesize) : Paging Nat) e
      fun b e' => b = add64 a (ptToPagesize (k.page d).pt) ∧ e'.sh.skeleton = k := by
  refine total_field hk fun e hk => total_modify (fun _ => rfl) hk fun e hk => ?_
  exact total_modify (fun _ => rfl) hk fun e hk =>
    total_modify (fun _ => rfl) hk fun e hk => .ret ⟨rfl, hk⟩

theorem total_unmapPage (hk : e.sh.skeleton = k.locked) (h : Settled n frames k) (ha : a ≠ 0) :
    Total (unmapPage a) e fun b e' =>
        b = add64 a pageSize ∧ e'.sh.skeleton = (k.forget a).locked := by
  have hpages : e.sh.pages a = k.pages a := congrFun (congrArg Skeleton.pages hk) a
  cases hp : k.pages a with
  | none =>
    refine .act rfl ?_
    simp only [ret_bind, hpages, hp]
    refine .ret ⟨rfl, ?_⟩
    rw [hk, Skeleton.forget, hp]
  | some d =>
    obtain ⟨hd, hva⟩ := h.of_hash ha hp
    refine .act rfl ?_
    simp only [ret_bind, hpages, hp]
    have hrel :=
      total_removeTracked hk h.whole.locked hd (by show (k.page d).va ≠ 0; rw [hva]; exact ha)
    have hfor : (k.forget a).locked = k.locked.release d := by
      rw [Skeleton.forget, hp]
      rfl
    rw [← hfor] at hrel
    have hpt : ((k.forget a).locked.page d).pt = .basep := (h.forget ha).whole.pt d hd
    have hall := hrel.bind fun _ e hk => (total_countFreed hk).mono fun b e' hb =>
      And.intro (hb.1.trans (congrArg (add64 a) (congrArg ptToPagesize hpt))) hb.2
    simp only [bind_assoc] at hall
    exact hall

/-- At address zero the walk does not go on. -/
theorem not_ends_unmapPage (hk : e.sh.skeleton = k.locked) (h : Settled n frames k) :
    ¬ Ends (unmapPage 0) e := by
  intro he
  have hpages : e.sh.pages 0 = some n :=
    (congrFun (congrArg Skeleton.pages hk) 0).trans h.whole.zero
  have hl : e.sh.list n = none :=
    (congrFun (congrArg (fun k => k.fifos.tag) hk) n).trans (h.whole.outside n (Nat.le_refl n)).1
  have hfound := he.inv (.act rfl)
  simp only [ret_bind, hpages] at hfound
  by_cases hm : (e.sh.page n).migrating = true
  · have hbusy := Acc.inv hfound (.act (if_pos hm))
    have hwait (q : Unit → Paging Nat) : ¬ Ends
        (.act (fun e : Env => if (e.sh.page n).migrating then .wait else .ok () (id e)) q) e :=
      not_ends_wait (if_pos hm)
    exact hwait _ hbusy
  · have hclaim : Total (claimUnmap n) e fun _ e' =>
        e'.sh.list n = none := .act (if_neg hm) (.ret hl)
    obtain ⟨u, e₁, hl, he₁⟩ := Ends.rest (show Ends ((claimUnmap n).bind _) e from hfound) hclaim
    have hremove : Total (removePage n) e₁ fun _ e' => e'.sh.list n = none := .act rfl (.ret hl)
    obtain ⟨u, e₂, hl, he₂⟩ := Ends.rest (show Ends ((removePage n).bind _) e₁ from he₁) hremove
    have hstart : Total (setPage n fun p => { p with migrating := true }) e₂ fun _ e' =>
        e'.sh.list n = none := .act rfl (.ret hl)
    obtain ⟨u, e₃, hl, he₃⟩ :=
      Ends.rest (show Ends ((setPage n fun p => { p with migrating := true }).bind _) e₂ from
        Ends.left he₂) hstart
    exact not_ends_removeFromAnyList hl (Ends.left he₃)

theorem after_unmapPage (hk : e.sh.skeleton = k.locked) (h : Settled n frames k) :
    After (unmapPage a) e fun b e' =>
        a ≠ 0 ∧ b = add64 a pageSize ∧ e'.sh.skeleton = (k.forget a).locked := by
  by_cases ha : a = 0
  · subst ha
    have hpages : e.sh.pages 0 = some n :=
      (congrFun (congrArg Skeleton.pages hk) 0).trans h.whole.zero
    have hgone := after_removeUnlisted hk (h.whole.outside n (Nat.le_refl n)).1
    refine (after_bind _ _ _ _).mpr ((after_read _ _ _).mpr ?_)
    rw [hpages]
    simp only [after_bind] at hgone ⊢
    exact hgone.mono fun _ _ h => h.mono fun _ _ h => h.mono fun _ _ h => h.elim
  · exact (total_unmapPage hk h ha).after.mono fun b e' hb => ⟨ha, hb⟩

namespace Settled

theorem forgetPages (h : Settled n frames k) {addr : Nat} (ha : addr ≠ 0) (m : Nat) :
    Settled n frames (k.forgetPages addr m) := by
  induction m with
  | zero => exact h
  | succ m ih =>
    rw [Skeleton.forgetPages_succ]
    exact ih.forget (Nat.ne_of_gt (Nat.add_pos_left (Nat.pos_of_ne_zero ha) _))

theorem pages_forgetPages (h : Settled n frames k) {addr : Nat} (ha : addr ≠ 0) (m b : Nat) :
    (k.forgetPages addr m).pages b = if ∃ i, i < m ∧
      b = addr + i * pageSize then none else k.pages b := by
  induction m with
  | zero => simp [Skeleton.forgetPages]
  | succ m ih =>
    have hne : addr + m * pageSize ≠ 0 := Nat.ne_of_gt (Nat.add_pos_left (Nat.pos_of_ne_zero ha) _)
    rw [Skeleton.forgetPages_succ, (h.forgetPages ha m).pages_forget hne, ih]
    by_cases hb : b = addr + m * pageSize
    · rw [if_pos hb, if_pos ⟨m, Nat.lt_succ_self m, hb⟩]
    · rw [if_neg hb]
      have hiff : (∃ i, i < m ∧ b = addr + i * pageSize) ↔
          ∃ i, i < m + 1 ∧ b = addr + i * pageSize := by
        constructor
        · rintro ⟨i, hi, he⟩
          exact ⟨i, Nat.lt_succ_of_lt hi, he⟩
        · rintro ⟨i, hi, he⟩
          refine ⟨i, Nat.lt_of_le_of_ne (Nat.le_of_lt_succ hi) ?_, he⟩
          rintro rfl
          exact hb he
      rw [if_congr hiff rfl rfl]

end Settled

theorem after_unmapWalk {addr length : Nat} (hk : e.sh.skeleton = k.locked) (h : Settled n frames k)
    (hend : addr + length ≤ taskSize) :
    After (unmapWalk addr length) e fun _ e' => (length ≠ 0 → addr ≠ 0) ∧
      e'.sh.skeleton = (k.forgetPages addr (walkLength length)).locked := by
  unfold unmapWalk
  have hps : pageSize = 4096 := rfl
  have htask : taskSize = 140737488351232 := rfl
  have hadd : add64 addr length = addr + length := Nat.mod_eq_of_lt (by omega)
  refine after_loop (fun b e => ∃ i, i ≤ walkLength length ∧ b = addr + i * pageSize ∧
    (i ≠ 0 → addr ≠ 0) ∧ e.sh.skeleton = (k.forgetPages addr i).locked)
    (fun b e hJ => ?_) ⟨0, Nat.zero_le _, by simp, fun h => absurd rfl h, hk⟩
  obtain ⟨i, hi, rfl, h0, hk⟩ := hJ
  rw [hadd]
  refine (after_ite _ _ _ _).mpr ⟨fun hlt => ?_, fun hge => (after_pure _ _ _).mpr ?_⟩
  · have hset : Settled n frames (k.forgetPages addr i) := by
      by_cases hi0 : i = 0
      · subst hi0
        exact h
      · exact h.forgetPages (h0 hi0) i
    refine after_then (after_unmapPage hk hset) fun b e ⟨ha, hb, hk⟩ => (after_pure _ _ _).mpr ?_
    show ∃ j, j ≤ walkLength length ∧ b = addr + j * pageSize ∧ _
    refine ⟨i + 1, ?_, ?_, fun _ => ?_, ?_⟩
    · simp only [walkLength, hps] at hlt ⊢
      omega
    · rw [hb, add64, Nat.mod_eq_of_lt]
      · simp only [hps]
        omega
      · simp only [hps] at hlt ⊢
        omega
    · by_cases hi0 : i = 0
      · rw [hi0, Nat.zero_mul, Nat.add_zero] at ha
        exact ha
      · exact h0 hi0
    · rw [hk, Skeleton.forgetPages_succ]
  · have hie : i = walkLength length := by
      simp only [walkLength, hps] at hge hi ⊢
      omega
    subst hie
    refine ⟨fun hl => h0 ?_, hk⟩
    simp only [walkLength, hps]
    omega

theorem after_libcMunmap {addr length : Nat} (hk : e.sh.skeleton = k) :
    After (libcMunmap addr length) e fun ok e' => ok = true → length ≠ 0 ∧ addr % pageSize = 0 ∧
      addr + length ≤ taskSize ∧ e'.sh.skeleton = k.remap addr (roundLength length) .none := by
  subst hk
  unfold libcMunmap
  rw [after_bind]
  refine (after_answer _ _).mpr fun refuse => (after_atomic _ _ _).mpr fun ok e' he => ?_
  split at he
  · cases he
    exact fun h => absurd h Bool.false_ne_true
  · next h =>
    cases he
    simp only [not_or, Nat.not_lt, ne_eq, not_not] at h
    exact fun _ => ⟨h.2.1, h.2.2.1, h.2.2.2, rfl⟩

/-- What a call of munmap that returns has come to. -/
structure Unmapped (n : Nat) (frames : List Frame) (k : Skeleton) (addr length : Nat)
    (k' : Skeleton) : Prop where
  ne : addr ≠ 0 ∧ length ≠ 0
  aligned : addr % pageSize = 0
  bounded : addr + length ≤ taskSize
  result : k' = (k.forgetPages addr (walkLength length)).remap addr (roundLength length) .none
  settled : Settled n frames k'

theorem after_extmemMunmap {addr length : Nat} (hk : e.sh.skeleton = k) (h : Settled n frames k) :
    After (extmemMunmap addr length) e fun _ e' =>
      Unmapped n frames k addr length e'.sh.skeleton := by
  unfold extmemMunmap
  refine after_still hk (by simp) fun _ e hk => after_lockAllocator hk fun hlock e hk => ?_
  by_cases hend : addr + length ≤ taskSize
  · refine after_then (after_unmapWalk hk h hend) fun _ e ⟨h0, hk⟩ =>
      after_then (after_libcMunmap hk) fun ok e hok => ?_
    refine after_check fun hc => ?_
    obtain ⟨hl, hal, -, hk⟩ := hok hc
    refine after_unlockAllocator hk fun e hk =>
      (after_still_last hk (by simp)).mono fun _ e' hk' => ?_
    have hset := h.forgetPages (h0 hl) (walkLength length)
    have hk' : e'.sh.skeleton =
        (k.forgetPages addr (walkLength length)).remap addr (roundLength length) .none := by
      rw [hk']
      show { ((k.forgetPages addr (walkLength length)).remap addr (roundLength length) .none) with
        lock := false } = _
      rw [← hset.lock]
      rfl
    refine ⟨⟨h0 hl, hl⟩, hal, hend, hk', ?_⟩
    rw [hk']
    refine ⟨⟨hset.whole.place, hset.whole.outside, hset.whole.dummy, hset.whole.present,
      hset.whole.pt, hset.whole.room, hset.whole.frames, hset.whole.reserved, hset.whole.hash,
      hset.whole.zero⟩, hset.lock, hset.shrinking, fun b d hb hd => ?_⟩
    show (if inRange addr (roundLength length) b then Vma.none
      else (k.forgetPages addr (walkLength length)).vma b) = .uffd
    rw [if_neg, hset.mapped b d hb hd]
    intro hin
    have hin' : inRange addr (roundLength length) b = true := hin
    obtain ⟨i, hi, hbi⟩ := page_of_inRange hal (hset.aligned hb hd) (Nat.mul_mod_left _ _) hin'
    rw [Nat.mul_div_cancel _ (by decide)] at hi
    have hd' : (k.forgetPages addr (walkLength length)).pages b = some d := hd
    rw [h.pages_forgetPages (h0 hl), if_pos ⟨i, hi, hbi⟩] at hd'
    cases hd'
  · refine after_then (R := fun _ _ => True) (fun _ _ _ => trivial) fun _ e _ => ?_
    refine after_then (after_libcMunmap rfl) fun ok e hok => after_check fun hc => ?_
    exact absurd (hok hc).2.2.1 hend

/-! Every operation keeps the state between operations as it must be. -/

private theorem keeps_rested {p : Paging Unit} (h : Settled n frames k)
    (hp : After p e fun _ => Rested n frames (fun _ => none) k) :
    After p e fun _ e' => Settled n frames e'.sh.skeleton :=
  hp.mono fun _ _ hr => (Leads.of_rested (o := none) h hr).1

theorem after_mmapFilter {addr length : Nat} {flags : BitVec 32} (hk : e.sh.skeleton = k)
    (h : Settled n frames k) :
    After (mmapFilter addr length flags) e fun r e' => match r with
      | none => e'.sh.skeleton = k
      | some p => Mapped n frames k addr (pageRoundUp length) flags p e'.sh.skeleton ∧
        ((∀ b, b % pageSize = 0 → inRange p (pageRoundUp length) b = true → e'.sh.pages b ≠ none) ∨
          ∀ b, inRange p (pageRoundUp length) b = true → e'.sh.pte b = none) := by
  unfold mmapFilter
  have hno : After (pure none : Paging (Option Nat)) e fun r e' => match r with
      | none => e'.sh.skeleton = k
      | some p => Mapped n frames k addr (pageRoundUp length) flags p e'.sh.skeleton ∧
        ((∀ b, b % pageSize = 0 → inRange p (pageRoundUp length) b = true → e'.sh.pages b ≠ none) ∨
          ∀ b, inRange p (pageRoundUp length) b = true → e'.sh.pte b = none) := (after_pure _ _ _).mpr hk
  refine (after_ite _ _ _ _).mpr
    ⟨fun _ => hno, fun _ => (after_ite _ _ _ _).mpr ⟨fun _ => hno, fun _ => ?_⟩⟩
  refine (after_bind _ _ _ _).mpr
    ((after_read _ _ _).mpr ((after_ite _ _ _ _).mpr ⟨fun _ => hno, fun _ => ?_⟩))
  refine (after_bind _ _ _ _).mpr
    ((after_read _ _ _).mpr ((after_ite _ _ _ _).mpr ⟨fun _ => hno, fun _ => ?_⟩))
  refine (after_ite _ _ _ _).mpr ⟨fun _ => hno, fun _ => ?_⟩
  exact after_then (after_extmemMmap hk h) fun p e hp => (after_pure _ _ _).mpr hp

theorem after_munmapFilter {addr length : Nat} (hk : e.sh.skeleton = k) (h : Settled n frames k) :
    After (munmapFilter addr length) e fun r e' =>
      if r then Unmapped n frames k addr length e'.sh.skeleton else e'.sh.skeleton = k := by
  unfold munmapFilter
  refine after_still hk (by simp) fun b e hk =>
    (after_ite _ _ _ _).mpr ⟨fun _ => (after_pure _ _ _).mpr hk, fun _ => ?_⟩
  exact after_then (after_extmemMunmap hk h) fun _ e h => (after_pure _ _ _).mpr h

/-- An eviction, and a batch of them, leaves every page tracked. -/
theorem rested_lrudiskEvictionworker (h : Settled n frames e.sh.skeleton) :
    After lrudiskEvictionworker e fun _ => Rested n frames (fun _ => none) e.sh.skeleton := by
  refine (after_lrudiskEvictionworker rfl fun d xs => h.whole.bare).mono fun _ e' he => ?_
  obtain ⟨-, hk⟩ | ⟨d, xs, r, hs, hp, hk⟩ := he
  · unfold Rested
    rw [hk]
    exact ⟨.refl h.whole, id⟩
  · have hl := Whole.list_of_seq hs
    have hw := h.whole.evict hl hp true
    simp only [if_true] at hw
    unfold Rested
    rw [hk]
    obtain ⟨hrec, -⟩ := reclaim_evict h.whole hl hp
    exact ⟨⟨hw, hrec.pages, hrec.vma, hrec.lock, hrec.va, fun x hx => absurd rfl hx⟩, id⟩

theorem rested_lrudiskEvictionworkerVector (h : Settled n frames e.sh.skeleton) :
    After lrudiskEvictionworkerVector e fun _ => Rested n frames (fun _ => none) e.sh.skeleton := by
  refine (after_lrudiskEvictionworkerVector rfl h.whole).mono fun _ e' ⟨slots, hs, _, hk⟩ => ?_
  unfold Rested
  rw [hk]
  obtain ⟨hrec, hshrink⟩ := hs.whole h.whole
  exact ⟨hrec, fun hf => by rw [hshrink, hf]⟩

theorem operation_settled {p : Paging Unit}
    (hp : Operation p) (h : Settled n frames e.sh.skeleton) :
    After p e fun _ e' => Settled n frames e'.sh.skeleton := by
  cases hp with
  | load addr =>
    exact after_then (after_access (still_loadByte addr) rfl h) fun _ e' hl =>
      (after_pure _ _ _).mpr hl.1
  | store addr byte =>
    exact (after_access (still_storeByte addr byte) rfl h).mono fun _ _ hl => hl.1
  | prefetch base =>
    refine after_then (after_coreTryPrefetch rfl h.whole) fun _ e' hr => (after_pure _ _ _).mpr ?_
    exact (Leads.of_rested (o := none) h hr).1
  | kswapd => exact keeps_rested h (after_lrudiskSynchkswapd rfl h.whole)
  | shrinkActive k =>
    exact keeps_rested h (after_then (rested_shrinkActiveList h.whole) fun _ e' hr =>
      (after_pure _ _ _).mpr hr)
  | shrinkInactive k =>
    exact keeps_rested h (after_then (rested_shrinkInactiveList h.whole) fun _ e' hr =>
      (after_pure _ _ _).mpr hr)
  | evictionworker => exact keeps_rested h (rested_lrudiskEvictionworker h)
  | evictionworkerVector => exact keeps_rested h (rested_lrudiskEvictionworkerVector h)
  | mmap addr length flags =>
    refine after_then (after_mmapFilter rfl h) fun r e' hr => (after_pure _ _ _).mpr ?_
    cases r with
    | none =>
      have hr : e'.sh.skeleton = e.sh.skeleton := hr
      rw [hr]
      exact h
    | some p => exact hr.1.settled
  | munmap addr length =>
    refine after_then (after_munmapFilter rfl h) fun r e' hr => (after_pure _ _ _).mpr ?_
    cases r with
    | true => exact Unmapped.settled hr
    | false =>
      have hr : e'.sh.skeleton = e.sh.skeleton := hr
      rw [hr]
      exact h

end ExtMem
