import Mathlib.Data.List.Perm.Subperm
import ExtMem.FifoLinks
import ExtMem.Uthash

/-! The chains of the hash: what the operations of uthash.h do to the links of the handles and to an
array of buckets, and that the expansion of the buckets loses no item. -/
namespace ExtMem.Uthash

variable {α κ : Type} {p : Pairs α} {o n : Option α} {x y : α} {xs zs : List α}

/-- The chains in both directions, with the first item as the oldest one of a list of fifo.c. -/
def Pairs.links (p : Pairs α) : Links Unit α := { Links.empty with next := p.prev, prev := p.next }

/-- The items between these two are linked in this order. -/
def Pairs.Linked (p : Pairs α) (o : Option α) (xs : List α) (n : Option α) : Prop :=
  p.links.Linked o xs n

namespace Pairs
variable [DecidableEq α]

/-- An item is put before the head. -/
def push (p : Pairs α) (head : Option α) (x : α) : Pairs α where
  prev y := if head = some y then some x else if y = x then none else p.prev y
  next y := if y = x then head else p.next y

/-- An item is put behind the tail. -/
def snoc (p : Pairs α) (tail : Option α) (x : α) : Pairs α where
  prev y := if y = x then tail else p.prev y
  next y := if tail = some y then some x else if y = x then none else p.next y

/-- The neighbours of an item are linked to each other. -/
def cut (p : Pairs α) (x : α) : Pairs α where
  prev y := if p.next x = some y then p.prev x else p.prev y
  next y := if p.prev x = some y then p.next x else p.next y

private theorem ite_update {β : Type} (f : α → β) (x : α) (b : β) :
    Function.update f x b = fun y => if y = x then b else f y := by
  funext y
  rw [Function.update_apply]

private theorem update_some {o : Option α} (f : α → Option α) (b : Option α) (hz : o = some x) :
    Function.update f x b = fun y => if o = some y then b else f y := by
  subst hz
  funext y
  rw [Function.update_apply]
  simp only [Option.some.injEq, eq_comm]

theorem setPrevIf_eq (p : Pairs α) (o v : Option α) :
    p.setPrevIf o v = ⟨fun y => if o = some y then v else p.prev y, p.next⟩ := by
  cases ho : o with
  | none => simp [setPrevIf]
  | some z => exact congrArg (Pairs.mk · p.next) (update_some p.prev v rfl)

theorem setNextIf_eq (p : Pairs α) (o v : Option α) :
    p.setNextIf o v = ⟨p.prev, fun y => if o = some y then v else p.next y⟩ := by
  cases ho : o with
  | none => simp [setNextIf]
  | some z => exact congrArg (Pairs.mk p.prev ·) (update_some p.next v rfl)

/-- What ADD_TO_BKT and the expansion do to the links. -/
theorem push_eq (p : Pairs α) (head : Option α) (x : α) :
    ((p.setNext x head).setPrev x none).setPrevIf head (some x) = p.push head x := by
  rw [setPrevIf_eq, setNext, setPrev, ite_update, ite_update]
  rfl

theorem snoc_eq (p : Pairs α) (tail : Option α) (x : α) :
    ((p.setNext x none).setPrev x tail).setNextIf tail (some x) = p.snoc tail x := by
  rw [setNextIf_eq, setNext, setPrev, ite_update, ite_update]
  rfl

/-- What both removals do to the links. -/
theorem cut_eq (h : p.prev x ≠ some x) :
    (p.setNextIf (p.prev x) (p.next x)).setPrevIf ((p.setNextIf (p.prev x) (p.next x)).next x)
      ((p.setNextIf (p.prev x) (p.next x)).prev x) = p.cut x := by
  have hself : (p.setNextIf (p.prev x) (p.next x)).next x = p.next x := by
    rw [setNextIf_eq]
    exact if_neg h
  rw [hself, setPrevIf_eq, setNextIf_eq]
  rfl

omit [DecidableEq α] in
theorem Linked.congr {p' : Pairs α} (h : p.Linked o xs n) (hp : ∀ x ∈ xs, p'.prev x = p.prev x)
    (hn : ∀ x ∈ xs, p'.next x = p.next x) :
    p'.Linked o xs n := Links.Linked.congr h hp hn

theorem linked_push (h : p.Linked none xs none) (hd : xs.Nodup) (hx : x ∉ xs) :
    (p.push xs.head? x).Linked none (x :: xs) none := by
  refine ⟨?_, ?_, ?_⟩
  · exact (if_neg fun hh => hx (List.mem_of_mem_head? hh)).trans (if_pos rfl)
  · exact (if_pos rfl).trans (Option.or_none).symm
  · apply Links.Linked.older h hd
    · intro y hy
      show (if xs.head? = some y then some x else if y = x then none else p.prev y) = _
      rw [if_neg (ne_of_mem_of_not_mem hy hx)]
      rfl
    · intro y hy
      exact if_neg (ne_of_mem_of_not_mem hy hx)

theorem linked_push_other {head : Option α} (h : p.Linked o zs n) (hx : x ∉ zs)
    (hh : ∀ y, head = some y → y ∉ zs) : (p.push head x).Linked o zs n := by
  apply h.congr
  · intro y hy
    exact (if_neg fun hy' => hh y hy' hy).trans (if_neg (ne_of_mem_of_not_mem hy hx))
  · intro y hy
    exact if_neg (ne_of_mem_of_not_mem hy hx)

theorem linked_snoc (h : p.Linked none xs none) (hd : xs.Nodup) (hx : x ∉ xs) :
    (p.snoc xs.getLast? x).Linked none (xs ++ [x]) none := by
  refine Links.linked_append.mpr ⟨?_, ?_, ?_, trivial⟩
  · apply Links.Linked.newer h hd
    · intro y hy
      exact if_neg (ne_of_mem_of_not_mem hy hx)
    · intro y hy
      show (if xs.getLast? = some y then some x else if y = x then none else p.next y) = _
      rw [if_neg (ne_of_mem_of_not_mem hy hx)]
      rfl
  · exact (if_pos rfl).trans (Option.or_none).symm
  · exact (if_neg fun hl => hx (List.mem_of_getLast? hl)).trans (if_pos rfl)

omit [DecidableEq α] in
/-- What the neighbours of a linked item are. -/
theorem Linked.between {as bs : List α} (h : p.Linked none (as ++ x :: bs) none) :
    p.Linked none as (some x) ∧ p.prev x = as.getLast? ∧ p.next x = bs.head? ∧
    p.Linked (some x) bs none := by
  obtain ⟨h₁, h₂, h₃, h₄⟩ := Links.linked_append.mp h
  refine ⟨h₁, ?_, ?_, h₄⟩
  · rw [Option.or_none] at h₂
    exact h₂
  · rw [Option.or_none] at h₃
    exact h₃

theorem linked_cut {as bs : List α} (h : p.Linked none (as ++ x :: bs) none)
    (hd : (as ++ x :: bs).Nodup) : (p.cut x).Linked none (as ++ bs) none := by
  obtain ⟨hl, hprev, hnext, hr⟩ := h.between
  have has : as.Nodup := hd.of_append_left
  have hbs : bs.Nodup := (List.nodup_cons.mp hd.of_append_right).2
  have hdisj := List.disjoint_of_nodup_append hd
  refine Links.linked_append.mpr ⟨Links.Linked.newer hl has ?_ ?_, Links.Linked.older hr hbs ?_ ?_⟩
  · intro y hy
    refine if_neg fun hx => ?_
    rw [hnext] at hx
    exact hdisj hy (List.mem_cons_of_mem _ (List.mem_of_mem_head? hx))
  · intro y _
    rw [Option.or_none, ← hnext, ← hprev]
    rfl
  · intro y _
    rw [Option.or_none, ← hnext, ← hprev]
    rfl
  · intro y hy
    refine if_neg fun hx => ?_
    rw [hprev] at hx
    exact hdisj (List.mem_of_getLast? hx) (List.mem_cons_of_mem _ hy)

theorem linked_cut_other (h : p.Linked o zs n) (hp : ∀ y, p.prev x = some y → y ∉ zs)
    (hn : ∀ y, p.next x = some y → y ∉ zs) :
    (p.cut x).Linked o zs n := by
  apply h.congr
  · intro y hy
    exact if_neg fun hx => hn y hx hy
  · intro y hy
    exact if_neg fun hx => hp y hx hy

end Pairs

/-! One array of buckets. -/

/-- The chain of a bucket, with its count. -/
structure Chained (hh : Pairs α) (b : Bucket α) (xs : List α) : Prop where
  nodup : xs.Nodup
  linked : hh.Linked none xs none
  hhHead : b.hhHead = xs.head?
  count : b.count = BitVec.ofNat 32 xs.length

/-- Each of the items is in the bucket that its hash selects, and nothing else is in the buckets. -/
def Filled (hh : Pairs α) (hashv : α → BitVec 32) (buckets : Nat → Bucket α) (num : BitVec 32)
    (items : List α) : Prop :=
  ∀ i, ∃ xs, Chained hh (buckets i) xs ∧ ∀ x, x ∈ xs ↔ x ∈ items ∧ hashToBkt (hashv x) num = i

variable {hh : Pairs α} {hashv : α → BitVec 32} {buckets : Nat → Bucket α} {num : BitVec 32}
  {items done : List α}

theorem filled_zero : Filled hh hashv (fun _ => .zero) num [] := fun _ =>
  ⟨[], ⟨List.nodup_nil, trivial, rfl, rfl⟩, by simp⟩

namespace Filled

theorem of_mem (h : Filled hh hashv buckets num items) (hm : ∀ x, x ∈ done ↔ x ∈ items) :
    Filled hh hashv buckets num done := by
  intro i
  obtain ⟨xs, hc, hx⟩ := h i
  exact ⟨xs, hc, fun x => by rw [hx, hm]⟩

theorem rehash (h : Filled hh hashv buckets num items) {hashv' : α → BitVec 32}
    (hv : ∀ x ∈ items, hashv' x = hashv x) :
    Filled hh hashv' buckets num items := by
  intro i
  obtain ⟨xs, hc, hx⟩ := h i
  refine ⟨xs, hc, fun x => ?_⟩
  rw [hx]
  exact and_congr_right fun hm => by rw [hv x hm]

/-- The head of a bucket is one of the items. -/
theorem head_mem (h : Filled hh hashv buckets num items) {i : Nat}
    (hy : (buckets i).hhHead = some y) : y ∈ items ∧ hashToBkt (hashv y) num = i := by
  obtain ⟨xs, hc, hx⟩ := h i
  rw [hc.hhHead] at hy
  exact (hx y).mp (List.mem_of_mem_head? hy)

/-- The neighbours of an item in its chain. -/
theorem near (h : Filled hh hashv buckets num items) (hx : x ∈ items)
    {i : Nat} (hi : hashToBkt (hashv x) num = i) :
    hh.prev x ≠ some x ∧
    (∀ y, hh.prev x = some y ∨ hh.next x = some y → hashToBkt (hashv y) num = i) := by
  obtain ⟨xs, hc, hm⟩ := h i
  obtain ⟨as, bs, rfl⟩ := List.append_of_mem ((hm x).mpr ⟨hx, hi⟩)
  obtain ⟨-, hprev, hnext, -⟩ := hc.linked.between
  refine ⟨fun hp => ?_, fun y hy => ?_⟩
  · rw [hprev] at hp
    exact List.disjoint_of_nodup_append hc.nodup (List.mem_of_getLast? hp) List.mem_cons_self
  · apply And.right
    apply (hm y).mp
    rcases hy with hy | hy
    · rw [hprev] at hy
      exact List.mem_append_left _ (List.mem_of_getLast? hy)
    · rw [hnext] at hy
      exact List.mem_append_right _ (List.mem_cons_of_mem _ (List.mem_of_mem_head? hy))

variable [DecidableEq α]

theorem push (h : Filled hh hashv buckets num items) (hx : x ∉ items) {i : Nat}
    (hi : hashToBkt (hashv x) num = i) (mult : BitVec 32) :
    Filled (hh.push (buckets i).hhHead x) hashv
      (Function.update buckets i ⟨some x, (buckets i).count + 1, mult⟩) num (x :: items) := by
  intro j
  by_cases hj : j = i
  · subst hj
    obtain ⟨xs, hc, hm⟩ := h j
    have hxs : x ∉ xs := fun hxs => hx ((hm x).mp hxs).1
    rw [Function.update_self, hc.hhHead]
    refine ⟨x :: xs, ⟨List.nodup_cons.mpr ⟨hxs, hc.nodup⟩, Pairs.linked_push hc.linked hc.nodup hxs,
      rfl, ?_⟩, fun y => ?_⟩
    · rw [hc.count, List.length_cons, ← BitVec.ofNat_add_ofNat]
      rfl
    · rw [List.mem_cons, List.mem_cons, hm]
      constructor
      · rintro (rfl | hy)
        · exact ⟨.inl rfl, hi⟩
        · exact ⟨.inr hy.1, hy.2⟩
      · rintro ⟨rfl | hy, hb⟩
        · exact .inl rfl
        · exact .inr ⟨hy, hb⟩
  · obtain ⟨ys, hc, hm⟩ := h j
    rw [Function.update_of_ne hj]
    have hxy : x ∉ ys := fun hy => hx ((hm x).mp hy).1
    refine ⟨ys, ⟨hc.nodup, Pairs.linked_push_other hc.linked hxy fun y hy hys => ?_, hc.hhHead,
      hc.count⟩, fun y => ?_⟩
    · exact hj (((hm y).mp hys).2.symm.trans (h.head_mem hy).2)
    · rw [hm, List.mem_cons]
      constructor
      · exact fun hy => ⟨.inr hy.1, hy.2⟩
      · rintro ⟨rfl | hy, hb⟩
        · exact absurd (hb.symm.trans hi) hj
        · exact ⟨hy, hb⟩

theorem cut (h : Filled hh hashv buckets num items) (hx : x ∈ items) {i : Nat}
    (hi : hashToBkt (hashv x) num = i) (mult : BitVec 32)
    (hm' : ∀ y, y ∈ done ↔ y ∈ items ∧ y ≠ x) :
    Filled (hh.cut x) hashv (Function.update buckets i ⟨if (buckets i).hhHead = some x then
      hh.next x else (buckets i).hhHead, (buckets i).count - 1, mult⟩) num done := by
  intro j
  by_cases hj : j = i
  · subst hj
    obtain ⟨xs, hc, hm⟩ := h j
    obtain ⟨as, bs, rfl⟩ := List.append_of_mem ((hm x).mpr ⟨hx, hi⟩)
    obtain ⟨-, -, hnext, -⟩ := hc.linked.between
    have hnd := List.nodup_middle.mp hc.nodup
    rw [Function.update_self]
    refine ⟨as ++ bs, ⟨(List.nodup_cons.mp hnd).2, Pairs.linked_cut hc.linked hc.nodup, ?_, ?_⟩,
      fun y => ?_⟩
    · show (if (buckets j).hhHead = some x then hh.next x else (buckets j).hhHead) = _
      rw [hc.hhHead, hnext]
      cases as with
      | nil => exact if_pos rfl
      | cons a as =>
        apply if_neg
        intro ha
        cases ha
        exact (List.nodup_cons.mp hnd).1 List.mem_cons_self
    · show (buckets j).count - 1 = _
      rw [hc.count, List.length_append, List.length_append, List.length_cons, ← Nat.add_assoc,
        ← BitVec.ofNat_add_ofNat]
      exact BitVec.add_sub_cancel _ _
    · have hy := hm y
      rw [List.mem_append, List.mem_cons] at hy
      rw [List.mem_append, hm', and_right_comm, ← hy]
      constructor
      · intro hy'
        refine ⟨hy'.imp_right .inr, ?_⟩
        rintro rfl
        exact (List.nodup_cons.mp hnd).1 (List.mem_append.mpr hy')
      · rintro ⟨hy' | rfl | hy', hne⟩
        · exact .inl hy'
        · exact absurd rfl hne
        · exact .inr hy'
  · obtain ⟨ys, hc, hm⟩ := h j
    rw [Function.update_of_ne hj]
    have hout (y : α) (hy : hh.prev x = some y ∨ hh.next x = some y) : y ∉ ys := fun hys =>
      hj (((hm y).mp hys).2.symm.trans ((h.near hx hi).2 y hy))
    refine ⟨ys, ⟨hc.nodup, Pairs.linked_cut_other hc.linked (fun y hy => hout y (.inl hy))
      fun y hy => hout y (.inr hy), hc.hhHead, hc.count⟩, fun y => ?_⟩
    rw [hm, hm']
    constructor
    · rintro ⟨hy, hb⟩
      refine ⟨⟨hy, ?_⟩, hb⟩
      rintro rfl
      exact hj (hb.symm.trans hi)
    · exact fun hy => ⟨hy.1.1, hy.2⟩

end Filled

/-! The expansion. -/

theorem hashToBkt_lt (hashv : BitVec 32) {num : BitVec 32} (h : num ≠ 0) :
    hashToBkt hashv num < num.toNat := by
  have hle : (hashv &&& (num - 1)).toNat ≤ (num - 1).toNat := by
    rw [BitVec.toNat_and]
    exact Nat.and_le_right
  have hpos : num.toNat ≠ 0 := fun hz => h (BitVec.eq_of_toNat_eq hz)
  have hsub : (num - 1).toNat = num.toNat - 1 := by
    bv_omega
  rw [hsub] at hle
  exact Nat.lt_of_le_of_lt hle (Nat.sub_one_lt hpos)

variable [DecidableEq α] {w : Moving α}

/-- The chain that is left keeps its old links while its items move one after the other. -/
theorem moveChain_moves (ideal : BitVec 32) {old : Pairs α} {fuel : Nat}
    (hf : Filled w.hh hashv w.buckets num done) (hold : ∀ y, y ∉ done → w.hh.next y = old.next y)
    (hl : old.Linked o xs none) (hd : xs.Nodup)
    (hout : ∀ y ∈ xs, y ∉ done) (hfuel : xs.length ≤ fuel) :
    ∃ w', moveChain hashv num ideal fuel xs.head? w = .ok w' ∧
      Filled w'.hh hashv w'.buckets num (xs.reverse ++ done) ∧
      ∀ y, y ∉ xs.reverse ++ done → w'.hh.next y = old.next y := by
  induction xs generalizing fuel o w done with
  | nil =>
    refine ⟨w, ?_, hf, hold⟩
    cases fuel <;> rfl
  | cons x xs ih =>
    obtain ⟨fuel, rfl⟩ := Nat.exists_eq_add_of_le' (Nat.lt_of_lt_of_le (Nat.succ_pos _) hfuel)
    obtain ⟨hx, hd⟩ := List.nodup_cons.mp hd
    obtain ⟨-, hnext, hl⟩ := hl
    have hxd : x ∉ done := hout x List.mem_cons_self
    have hmoved : (moveItem hashv num ideal w x).hh =
        w.hh.push (w.buckets (hashToBkt (hashv x) num)).hhHead x := Pairs.push_eq ..
    have hfilled : Filled (moveItem hashv num ideal w x).hh hashv
        (moveItem hashv num ideal w x).buckets num (x :: done) := by
      rw [hmoved]
      exact hf.push hxd rfl _
    have hold' (y : α) (hy : y ∉ x :: done) :
        (moveItem hashv num ideal w x).hh.next y = old.next y := by
      rw [hmoved, ← hold y fun hyd => hy (List.mem_cons_of_mem _ hyd)]
      exact if_neg (List.ne_of_not_mem_cons hy)
    obtain ⟨w', hw, hf', hold''⟩ := ih hfilled hold' hl hd (fun y hy hyd =>
      (List.mem_cons.mp hyd).elim (ne_of_mem_of_not_mem hy hx) (hout y (List.mem_cons_of_mem _ hy)))
      (Nat.le_of_succ_le_succ hfuel)
    refine ⟨w', ?_, ?_, ?_⟩
    · show moveChain hashv num ideal fuel (w.hh.next x) (moveItem hashv num ideal w x) = _
      have hx' : w.hh.next x = xs.head? := by
        rw [hold x hxd]
        exact hnext.trans (Option.or_none)
      rw [hx']
      exact hw
    · rw [List.reverse_cons, List.append_assoc]
      exact hf'
    · rw [List.reverse_cons, List.append_assoc]
      exact hold''

/-- After the first buckets are done, their items and no others are in the new ones. -/
theorem moves_buckets (ideal num' : BitVec 32) {fuel : Nat} (hf : Filled hh hashv buckets num items)
    (hfuel : items.length ≤ fuel) (m : Nat) :
    ∃ w', (List.range m).foldlM (fun w i => moveChain hashv num' ideal fuel (buckets i).hhHead w)
        (⟨fun _ => .zero, hh, 0⟩ : Moving α) = .ok w' ∧
      ∃ done, Filled w'.hh hashv w'.buckets num' done ∧ (∀ y, y ∈ done ↔
        y ∈ items ∧ hashToBkt (hashv y) num < m) ∧ ∀ y, y ∉ done → w'.hh.next y = hh.next y := by
  induction m with
  | zero => exact ⟨_, rfl, [], filled_zero, by simp, fun _ _ => rfl⟩
  | succ m ih =>
    obtain ⟨w, hw, done, hdone, hm, hold⟩ := ih
    obtain ⟨xs, hc, hx⟩ := hf m
    have hout (y : α) (hy : y ∈ xs) : y ∉ done := by
      intro hyd
      have hlt := ((hm y).mp hyd).2
      rw [((hx y).mp hy).2] at hlt
      exact Nat.lt_irrefl _ hlt
    have hlen : xs.length ≤ fuel :=
      (hc.nodup.subperm fun y hy => ((hx y).mp hy).1).length_le.trans hfuel
    obtain ⟨w', hw', hf', hold'⟩ := moveChain_moves ideal hdone hold hc.linked hc.nodup hout hlen
    refine ⟨w', ?_, xs.reverse ++ done, hf', fun y => ?_, hold'⟩
    · rw [List.range_succ, List.foldlM_append, hw]
      rw [hc.hhHead.symm] at hw'
      show (List.foldlM (fun w i => moveChain hashv num' ideal fuel (buckets i).hhHead w) w [m] :
        Except Stop (Moving α)) = _
      rw [List.foldlM_cons, hw']
      rfl
    · rw [List.mem_append, List.mem_reverse, hx, hm, ← and_or_left, Nat.lt_succ_iff,
        Nat.le_iff_lt_or_eq, or_comm]

end ExtMem.Uthash
