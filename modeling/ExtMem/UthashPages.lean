import ExtMem.Operations
import ExtMem.UthashChains

/-! The hash of the pages against the map that the model has in its place. -/
namespace ExtMem.Uthash

variable {α κ : Type} {hashFcn : κ → BitVec 32} {va : α → κ} {s : Hash α} {items xs as bs : List α}
  {o : Option α} {x : α}

/-- A table with its size and count, and its buckets. -/
structure Table.Serves (tbl : Table α) (hh : Pairs α) (hashv : α → BitVec 32)
    (items : List α) : Prop where
  numItems : tbl.numItems = BitVec.ofNat 32 items.length
  size : ∃ k, k ≤ 31 ∧ tbl.numBuckets = BitVec.ofNat 32 (2 ^ k) ∧
    tbl.log2NumBuckets = BitVec.ofNat 32 k
  filled : Filled hh hashv tbl.buckets tbl.numBuckets items

/-- A hash has these items, the oldest one first: all that HASH_FSCK checks, and that the items have
the hash values of their keys and no key in common. -/
structure Keeps (hashFcn : κ → BitVec 32) (va : α → κ) (s : Hash α) (items : List α) : Prop where
  nodup : items.Nodup
  head : s.head = items.head?
  order : s.app.Linked none items none
  keys : ∀ x ∈ items, ∀ y ∈ items, va x = va y → x = y
  hashv : ∀ x ∈ items, s.hashv x = hashFcn (va x)
  tail : items ≠ [] → s.tbl.tail = items.getLast?
  table : items ≠ [] → s.tbl.Serves s.hh s.hashv items

/-! HASH_FIND. -/

theorem findInBkt_eq [DecidableEq κ] {k : κ} {hashval : BitVec 32} {fuel : Nat}
    (h : s.hh.Linked o xs none) (hf : xs.length ≤ fuel) :
    s.hashFindInBkt va k hashval fuel xs.head? =
      .ok (xs.find? fun x => s.hashv x = hashval ∧ va x = k) := by
  induction xs generalizing o fuel with
  | nil => cases fuel <;> rfl
  | cons x xs ih =>
    obtain ⟨fuel, rfl⟩ := Nat.exists_eq_add_of_le' (Nat.lt_of_lt_of_le (Nat.succ_pos _) hf)
    obtain ⟨-, hnext, h⟩ := h
    have hx : s.hh.next x = xs.head? := hnext.trans (Option.or_none)
    rw [List.find?_cons]
    show (if s.hashv x = hashval ∧ va x = k then pure (some x)
      else s.hashFindInBkt va k hashval fuel (s.hh.next x)) = _
    by_cases hk : s.hashv x = hashval ∧ va x = k
    · rw [if_pos hk, decide_eq_true hk]
      rfl
    · rw [if_neg hk, decide_eq_false hk, hx]
      exact ih h (Nat.le_of_succ_le_succ hf)

namespace Keeps

theorem find [DecidableEq κ] (h : Keeps hashFcn va s items) {fuel : Nat} (hf : items.length ≤ fuel)
    {pages : κ → Option α} (hp : ∀ a d, pages a = some d ↔ d ∈ items ∧ va d = a) (a : κ) :
    s.hashFind hashFcn va fuel a = .ok (pages a) := by
  unfold Hash.hashFind
  cases items with
  | nil =>
    have hnone : pages a = none := Option.eq_none_iff_forall_ne_some.mpr fun d hd => by
      cases ((hp a d).mp hd).1
    rw [h.head, hnone]
    rfl
  | cons y ys =>
    rw [h.head]
    show s.hashFindInBkt va a (hashFcn a) fuel
      (s.tbl.buckets (hashToBkt (hashFcn a) s.tbl.numBuckets)).hhHead = _
    obtain ⟨xs, hc, hm⟩ :=
      (h.table (List.cons_ne_nil _ _)).filled (hashToBkt (hashFcn a) s.tbl.numBuckets)
    have hlen := (hc.nodup.subperm fun x hx => ((hm x).mp hx).1).length_le.trans hf
    rw [hc.hhHead, findInBkt_eq hc.linked hlen]
    congr 1
    cases hd : pages a with
    | some d =>
      obtain ⟨hdm, rfl⟩ := (hp a d).mp hd
      have hdv := h.hashv d hdm
      have hdx : d ∈ xs := (hm d).mpr ⟨hdm, by rw [hdv]⟩
      cases hx : xs.find? fun x => s.hashv x = hashFcn (va d) ∧ va x = va d with
      | none =>
        have hno := List.find?_eq_none.mp hx d hdx
        simp [hdv] at hno
      | some x =>
        have hxs := List.find?_some hx
        have hxm := ((hm x).mp (List.mem_of_find?_eq_some hx)).1
        exact congrArg some (h.keys x hxm d hdm (of_decide_eq_true hxs).2)
    | none =>
      refine List.find?_eq_none.mpr fun x hx hxa => ?_
      have hsome := (hp a x).mpr ⟨((hm x).mp hx).1, (of_decide_eq_true hxa).2⟩
      rw [hd] at hsome
      cases hsome

end Keeps

/-! HASH_ADD. -/

variable [DecidableEq α] {malloc : Nat → Bool} {fuel : Nat}

private theorem toNat_size {k : Nat} (hk : k ≤ 31) : (BitVec.ofNat 32 (2 ^ k)).toNat = 2 ^ k := by
  rw [BitVec.toNat_ofNat]
  exact Nat.mod_eq_of_lt (Nat.pow_lt_pow_right (by decide) (Nat.lt_succ_of_le hk))

/-- The bucket of this hash value expands when it gets one more item. -/
def Hash.Full (s : Hash α) (hashval : BitVec 32) : Prop :=
  let head := s.tbl.buckets (hashToBkt hashval s.tbl.numBuckets)
  (head.expandMult + 1) * 10 ≤ head.count + 1 ∧ s.tbl.noexpand = false

instance (s : Hash α) (hashval : BitVec 32) : Decidable (s.Full hashval) :=
  inferInstanceAs (Decidable (_ ∧ _))

/-- The sizes in bytes that HASH_ADD asks `malloc` for: those of a table and of its buckets in an
empty hash, and that of twice the buckets where the item's bucket is full. -/
def Hash.asks (hashFcn : κ → BitVec 32) (key : α → κ) (s : Hash α) (add : α) : List Nat :=
  if s.head.isNone then [64, 2097152 * 16]
  else if s.Full (hashFcn (key add)) then [2 * s.tbl.numBuckets.toNat * 16]
  else []

/-- The expansion is refused the memory for twice as many buckets, or the table has the items as
before in so many. -/
theorem expandBuckets_serves (h : s.tbl.Serves s.hh s.hashv items)
    (hf : items.length ≤ fuel) (hm : malloc (2 ^ 36) = false) :
    (malloc (2 * s.tbl.numBuckets.toNat * 16) = false ∧
        s.hashExpandBuckets malloc fuel = .error .exit) ∨
    ∃ s', s.hashExpandBuckets malloc fuel = .ok s' ∧ s'.head = s.head ∧ s'.app = s.app ∧
      s'.hashv = s.hashv ∧ s'.tbl.tail = s.tbl.tail ∧ s'.tbl.Serves s'.hh s'.hashv items := by
  obtain ⟨k, hk, hnum, hlog⟩ := h.size
  have hsize := toNat_size hk
  rw [← hnum] at hsize
  by_cases hmal : malloc (2 * s.tbl.numBuckets.toNat * 16) = false
  · refine .inl ⟨hmal, ?_⟩
    unfold Hash.hashExpandBuckets
    dsimp only
    rw [if_pos hmal]
    rfl
  right
  have hlt : k ≤ 30 := by
    by_contra hge
    obtain rfl : k = 31 := by omega
    rw [hsize] at hmal
    exact hmal hm
  have hne : s.tbl.numBuckets ≠ 0 := by
    intro hz
    rw [hz] at hsize
    exact absurd hsize.symm (Nat.pos_iff_ne_zero.mp (Nat.two_pow_pos k))
  let ideal := (s.tbl.numItems >>> (s.tbl.log2NumBuckets + 1)) +
    if s.tbl.numItems &&& (s.tbl.numBuckets * 2 - 1) ≠ 0 then 1 else 0
  obtain ⟨w, hw, done, hdone, hmem, -⟩ :=
    moves_buckets ideal (s.tbl.numBuckets * 2) h.filled hf s.tbl.numBuckets.toNat
  have hitems : Filled w.hh s.hashv w.buckets (s.tbl.numBuckets * 2) items :=
    hdone.of_mem fun y => ((hmem y).trans (and_iff_left (hashToBkt_lt _ hne))).symm
  let ineffExpands := if s.tbl.numItems >>> 1 < w.nonidealItems then s.tbl.ineffExpands + 1 else 0
  let tbl : Table α := { s.tbl with
    buckets := w.buckets
    numBuckets := s.tbl.numBuckets * 2
    log2NumBuckets := s.tbl.log2NumBuckets + 1
    idealChainMaxlen := ideal
    nonidealItems := w.nonidealItems
    ineffExpands
    noexpand := if 1 < ineffExpands then true else s.tbl.noexpand }
  refine ⟨{ s with hh := w.hh, tbl }, ?_, rfl, rfl, rfl, rfl, h.numItems,
    ⟨k + 1, Nat.succ_le_succ hlt, ?_, ?_⟩, hitems⟩
  · unfold Hash.hashExpandBuckets
    dsimp only
    rw [if_neg hmal, hw]
    rfl
  · show s.tbl.numBuckets * 2 = _
    rw [hnum, pow_succ]
    exact BitVec.ofNat_mul_ofNat ..
  · show s.tbl.log2NumBuckets + 1 = _
    rw [hlog]
    exact BitVec.ofNat_add_ofNat ..

/-- An item that is in no bucket yet goes to the bucket that its hash selects, unless that bucket is
full and there is no memory for twice as many. -/
theorem addToTable_serves {hashval : BitVec 32} (h : s.tbl.Serves s.hh s.hashv items)
    (hx : x ∉ items) (hv : s.hashv x = hashval)
    (hf : items.length + 1 ≤ fuel) (hm : malloc (2 ^ 36) = false) :
    (s.Full hashval ∧ malloc (2 * s.tbl.numBuckets.toNat * 16) = false ∧
        s.hashAddToTable malloc fuel hashval x = .error .exit) ∨
    ∃ s', s.hashAddToTable malloc fuel hashval x = .ok s' ∧ s'.head = s.head ∧ s'.app = s.app ∧
      s'.hashv = s.hashv ∧ s'.tbl.tail = s.tbl.tail ∧
      s'.tbl.Serves s'.hh s'.hashv (items ++ [x]) := by
  let bkt := hashToBkt hashval s.tbl.numBuckets
  let t : Hash α := { s with
    hh := s.hh.push (s.tbl.buckets bkt).hhHead x
    tbl := { s.tbl with
      numItems := s.tbl.numItems + 1
      buckets := Function.update s.tbl.buckets bkt
        ⟨some x, (s.tbl.buckets bkt).count + 1, (s.tbl.buckets bkt).expandMult⟩ } }
  have hserves : t.tbl.Serves t.hh t.hashv (items ++ [x]) := by
    refine ⟨?_, h.size, ?_⟩
    · show s.tbl.numItems + 1 = _
      rw [h.numItems, List.length_append]
      exact BitVec.ofNat_add_ofNat ..
    · have hb : hashToBkt (s.hashv x) s.tbl.numBuckets = bkt := by rw [hv]
      exact (h.filled.push hx hb _).of_mem fun y => by
        rw [List.mem_append, List.mem_singleton, List.mem_cons, or_comm]
  have heq : s.hashAddToTable malloc fuel hashval x = if ((s.tbl.buckets bkt).expandMult + 1) * 10 ≤
    (s.tbl.buckets bkt).count + 1 ∧ s.tbl.noexpand = false then
        t.hashExpandBuckets malloc fuel
      else pure t := by
    unfold Hash.hashAddToTable Hash.hashAddToBkt
    dsimp only
    rw [Pairs.push_eq]
  rw [heq]
  split
  · next hfull =>
    exact (expandBuckets_serves hserves (by rw [List.length_append]; exact hf) hm).imp_left
      fun hx => ⟨hfull, hx⟩
  · exact .inr ⟨t, rfl, rfl, rfl, rfl, rfl, hserves⟩

namespace Keeps

/-- A new item is the last one of the hash, or a size that HASH_ADD asks for is refused. -/
theorem add (h : Keeps hashFcn va s items) (hx : x ∉ items) (hk : ∀ y ∈ items, va y ≠ va x)
    (hf : items.length + 1 ≤ fuel) (hm : malloc (2 ^ 36) = false) :
    ((∃ size ∈ s.asks hashFcn va x, malloc size = false) ∧
        s.hashAdd hashFcn va malloc fuel x = .error .exit) ∨
    ∃ s', s.hashAdd hashFcn va malloc fuel x = .ok s' ∧ Keeps hashFcn va s' (items ++ [x]) := by
  -- the item is in the list of all items, and its bucket does not have it yet
  suffices hfirst : ∀ t : Hash α, t.head = (items ++ [x]).head? →
    t.app.Linked none (items ++ [x]) none → t.hashv = Function.update s.hashv x (hashFcn (va x)) →
    t.tbl.tail = some x → t.tbl.Serves t.hh s.hashv items →
    (t.Full (hashFcn (va x)) ∧ malloc (2 * t.tbl.numBuckets.toNat * 16) = false ∧
    t.hashAddToTable malloc fuel (hashFcn (va x)) x = .error .exit) ∨ ∃ s',
    t.hashAddToTable malloc fuel (hashFcn (va x)) x = .ok s' ∧ Keeps hashFcn va s' (items ++ [x]) by
    unfold Hash.hashAdd Hash.asks
    dsimp only
    cases items with
    | nil =>
      have hnone : s.head.isNone = true := by rw [h.head]; rfl
      rw [if_pos hnone, if_pos hnone]
      unfold Hash.hashMakeTable
      by_cases h₁ : malloc 64 = false
      · refine .inl ⟨⟨64, List.mem_cons_self, h₁⟩, ?_⟩
        rw [if_pos h₁]
        rfl
      by_cases h₂ : malloc (2097152 * 16) = false
      · refine .inl ⟨⟨2097152 * 16, List.mem_cons_of_mem _ List.mem_cons_self, h₂⟩, ?_⟩
        rw [if_neg h₁, if_pos h₂]
        rfl
      rw [if_neg h₁, if_neg h₂]
      let t : Hash α := { s with
        head := some x
        tbl := ⟨fun _ => .zero, 2097152, 21, 0, some x, 0, 0, 0, false⟩
        app := (s.app.setNext x none).setPrev x none
        hashv := Function.update s.hashv x (hashFcn (va x)) }
      have hzero : ¬ ((0 : BitVec 32) + 1) * 10 ≤ 0 + 1 := by decide
      have hempty : ¬ t.Full (hashFcn (va x)) := fun hfull => hzero hfull.1
      refine (hfirst t rfl ⟨?_, ?_, trivial⟩ rfl rfl
        ⟨rfl, ⟨21, by decide, rfl, rfl⟩, filled_zero⟩).imp_left fun hx => absurd hx.1 hempty
      · exact Function.update_self ..
      · exact Function.update_self ..
    | cons y ys =>
      have hsome : ¬ s.head.isNone = true := by rw [h.head]; exact Bool.false_ne_true
      have htail := h.tail (List.cons_ne_nil _ _)
      have hserves := h.table (List.cons_ne_nil _ _)
      rw [if_neg hsome, if_neg hsome]
      refine (hfirst
        (Hash.hashAppendList { s with hashv := Function.update s.hashv x (hashFcn (va x)) } x)
        h.head ?_ rfl rfl ⟨hserves.numItems, hserves.size, hserves.filled⟩).imp_left fun hx =>
        ⟨⟨2 * s.tbl.numBuckets.toNat * 16, ?_, hx.2.1⟩, hx.2.2⟩
      rotate_left
      · have hfull : s.Full (hashFcn (va x)) := hx.1
        rw [if_pos hfull]
        exact List.mem_singleton_self _
      show (((s.app.setNext x none).setPrev x s.tbl.tail).setNextIf s.tbl.tail (some x)).Linked
        none (y :: ys ++ [x]) none
      rw [Pairs.snoc_eq, htail]
      exact Pairs.linked_snoc h.order h.nodup hx
  intro t hhead happ hhashv htail hserves
  have hsame (y : α) (hy : y ∈ items) : t.hashv y = s.hashv y := by
    rw [hhashv]
    exact Function.update_of_ne (ne_of_mem_of_not_mem hy hx) ..
  have hself : t.hashv x = hashFcn (va x) := by
    rw [hhashv]
    exact Function.update_self ..
  have hserves' : t.tbl.Serves t.hh t.hashv items :=
    ⟨hserves.numItems, hserves.size, hserves.filled.rehash hsame⟩
  refine (addToTable_serves hserves' hx hself hf hm).imp_right ?_
  rintro ⟨s', hs', hh', ha', hv', ht', hserves''⟩
  refine ⟨s', hs', ?_, hh'.trans hhead, ?_, fun a ha b hb hab => ?_, fun y hy => ?_, fun _ => ?_,
    fun _ => hserves''⟩
  · exact List.nodup_append.mpr ⟨h.nodup, List.nodup_singleton x, fun a ha b hb hab => by
      rw [List.mem_singleton.mp hb] at hab
      exact hx (hab ▸ ha)⟩
  · rw [ha']
    exact happ
  · rcases List.mem_append.mp ha with ha | ha <;> rcases List.mem_append.mp hb with hb | hb
    · exact h.keys a ha b hb hab
    · rw [List.mem_singleton.mp hb] at hab
      exact absurd hab (hk a ha)
    · rw [List.mem_singleton.mp ha] at hab
      exact absurd hab.symm (hk b hb)
    · rw [List.mem_singleton.mp ha, List.mem_singleton.mp hb]
  · rw [hv']
    rcases List.mem_append.mp hy with hy | hy
    · rw [hsame y hy, h.hashv y hy]
    · rw [List.mem_singleton.mp hy, hself]
  · rw [ht', htail, List.getLast?_concat]

/-! HASH_DEL. -/

/-- The other items stay, in their order. -/
theorem delete (h : Keeps hashFcn va s (as ++ x :: bs)) :
    Keeps hashFcn va (s.hashDelete x) (as ++ bs) := by
  have hne : as ++ x :: bs ≠ [] := List.append_ne_nil_of_right_ne_nil _ (List.cons_ne_nil _ _)
  have hxm : x ∈ as ++ x :: bs := List.mem_append_right _ List.mem_cons_self
  have hnd := List.nodup_cons.mp (List.nodup_middle.mp h.nodup)
  have hsub (y : α) (hy : y ∈ as ++ bs) : y ∈ as ++ x :: bs :=
    (List.mem_append.mp hy).elim (List.mem_append_left _) fun hy =>
      List.mem_append_right _ (List.mem_cons_of_mem _ hy)
  have hmem (y : α) : y ∈ as ++ bs ↔ y ∈ as ++ x :: bs ∧ y ≠ x := by
    refine ⟨fun hy => ⟨hsub y hy, ne_of_mem_of_not_mem hy hnd.1⟩, ?_⟩
    rintro ⟨hy, hyx⟩
    rcases List.mem_append.mp hy with hy | hy
    · exact List.mem_append_left _ hy
    · exact List.mem_append_right _ ((List.mem_cons.mp hy).resolve_left hyx)
  obtain ⟨-, hprev, hnext, -⟩ := h.order.between
  have hself : s.app.prev x ≠ some x := by
    rw [hprev]
    exact fun hl => hnd.1 (List.mem_append_left _ (List.mem_of_getLast? hl))
  unfold Hash.hashDelete
  by_cases hlast : s.app.prev x = none ∧ s.app.next x = none
  · obtain ⟨h₁, h₂⟩ := hlast
    rw [if_pos ⟨h₁, h₂⟩]
    rw [hprev, List.getLast?_eq_none_iff] at h₁
    rw [hnext, List.head?_eq_none_iff] at h₂
    subst h₁ h₂
    exact ⟨List.nodup_nil, rfl, trivial, fun _ hy => (List.not_mem_nil hy).elim,
      fun _ hy => (List.not_mem_nil hy).elim, fun hn => absurd rfl hn, fun hn => absurd rfl hn⟩
  have hserves := h.table hne
  have hnear := hserves.filled.near hxm rfl
  rw [if_neg hlast]
  refine ⟨hnd.2, ?_, ?_, fun a ha b hb => h.keys a (hsub a ha) b (hsub b hb),
    fun y hy => h.hashv y (hsub y hy), fun _ => ?_, fun _ => ⟨?_, hserves.size, ?_⟩⟩
  · show (if s.app.prev x = none then s.app.next x else s.head) = _
    rw [hprev, hnext, h.head]
    cases as with
    | nil => rfl
    | cons a as =>
      rw [if_neg (fun hl => List.cons_ne_nil _ _ (List.getLast?_eq_none_iff.mp hl))]; rfl
  · show ((s.app.setNextIf (s.app.prev x) (s.app.next x)).setPrevIf
      ((s.app.setNextIf (s.app.prev x) (s.app.next x)).next x)
      ((s.app.setNextIf (s.app.prev x) (s.app.next x)).prev x)).Linked none (as ++ bs) none
    rw [Pairs.cut_eq hself]
    exact Pairs.linked_cut h.order h.nodup
  · show (if s.tbl.tail = some x then s.app.prev x else s.tbl.tail) = _
    rw [h.tail hne, hprev]
    cases bs with
    | nil => rw [List.append_nil, List.getLast?_concat, if_pos rfl]
    | cons b bs =>
      have hl : (as ++ x :: b :: bs).getLast? = (as ++ b :: bs).getLast? := by
        rw [List.getLast?_append_cons, List.getLast?_cons_cons, List.getLast?_append_cons]
      rw [hl, if_neg]
      exact fun hx => hnd.1 (List.mem_of_getLast? hx)
  · show s.tbl.numItems - 1 = _
    rw [hserves.numItems, List.length_append, List.length_append, List.length_cons, ← Nat.add_assoc,
      ← BitVec.ofNat_add_ofNat]
    exact BitVec.add_sub_cancel _ _
  · have hcut := hserves.filled.cut hxm rfl
      (s.tbl.buckets (hashToBkt (s.hashv x) s.tbl.numBuckets)).expandMult hmem
    rw [← Pairs.cut_eq hnear.1] at hcut
    exact hcut

end Keeps

/-! Calls. -/

/-- A call of a function of core.c on the hash, with the addresses that the pages have then and the
memory there is. -/
inductive Call (α κ : Type) where
  | addPage (va : α → κ) (malloc : Nat → Bool) (page : α)
  | removePage (page : α)
  | findPage (va : α → κ) (a : κ)

/-- There is no memory for more buckets than an unsigned int can count. -/
def Call.Fits : Call α κ → Prop
  | .addPage _ malloc _ => malloc (2 ^ 36) = false
  | _ => True

namespace Hash
variable [DecidableEq κ]

/-- The static head is NULL, and no handle is in use. -/
def fresh : Hash α := ⟨none, ⟨fun _ => .zero, 0, 0, 0, none, 0, 0, 0, false⟩, ⟨fun _ => none, fun _ => none⟩,
  ⟨fun _ => none, fun _ => none⟩, fun _ => 0⟩

/-- A call with the page that it finds. -/
def exec (hashFcn : κ → BitVec 32) (fuel : Nat) (s : Hash α) :
    Call α κ → Except Stop (Hash α × Option α)
  | .addPage va malloc page => do
    let s ← s.addPage hashFcn va malloc fuel page
    pure (s, none)
  | .removePage page => pure (s.removePage page, none)
  | .findPage va a => do
    let page ← s.findPage hashFcn va fuel a
    pure (s, page)

/-- Calls one after the other, until one of them ends early. -/
def execAll (hashFcn : κ → BitVec 32) (fuel : Nat) (s : Hash α) : List (Call α κ) → Except Stop
    (Hash α × List (Option α))
  | [] => pure (s, [])
  | c :: calls => do
    let (s, page) ← s.exec hashFcn fuel c
    let (s, pages) ← s.execAll hashFcn fuel calls
    pure (s, page :: pages)

end Hash

/-- The addresses of the pages. -/
def vas (s : Shared) (page : PageId) : Nat := (s.page page).va

/-- HASH_JEN of an address. -/
def hashVa (va : Nat) : BitVec 32 := hashJen (BitVec.ofNat 64 va)

open Threads

/-- What the functions of the model do to its map, with the calls that they stand for and the pages
that they find. In between anything happens that leaves the map and the addresses of its pages
alone. -/
inductive History : Env → List (Call PageId Nat) → List (Option PageId) → Env → Prop where
  | nil (e : Env) : History e [] [] e
  | other {e e₁ e' : Env} {calls : List (Call PageId Nat)} {found : List (Option PageId)}
    (pages : e₁.sh.pages = e.sh.pages)
      (va : ∀ a d, e.sh.pages a = some d → vas e₁.sh d = vas e.sh d)
        (rest : History e₁ calls found e') : History e calls found e'
  | addPage {e e₁ e' : Env} {calls : List (Call PageId Nat)} {found : List (Option PageId)}
    {page : PageId} (malloc : Nat → Bool)
      (new : ∀ a, e.sh.pages a ≠ some page) (run : Prog.Runs (ExtMem.addPage page) e () e₁)
        (rest : History e₁ calls found e') :
      History e (.addPage (vas e.sh) malloc page :: calls) (none :: found) e'
  | removePage {e e₁ e' : Env} {calls : List (Call PageId Nat)} {found : List (Option PageId)}
    {page : PageId}
      (there : e.sh.pages (vas e.sh page) = some page)
        (run : Prog.Runs (ExtMem.removePage page) e () e₁)
      (rest : History e₁ calls found e') : History e (.removePage page :: calls) (none :: found) e'
  | findPage {e e₁ e' : Env} {calls : List (Call PageId Nat)} {found : List (Option PageId)}
    {a : Nat} {page : Option PageId}
      (run : Prog.Runs (ExtMem.findPage a) e page e₁ ∨ Prog.Runs (lookUp a) e page e₁)
        (rest : History e₁ calls found e') :
      History e (.findPage (vas e.sh) a :: calls) (page :: found) e'

/-- The hash has the pages of the map, each under its address. -/
def Mirrors (s : Hash PageId) (e : Shared) (items : List PageId) : Prop :=
  Keeps hashVa (vas e) s items ∧ ∀ a d, e.pages a = some d ↔ d ∈ items ∧ vas e d = a

namespace Mirrors
variable {s : Hash PageId} {e e₁ : Env} {items : List PageId} {page : PageId} {malloc : Nat → Bool}

theorem other (h : Mirrors s e.sh items) (hp : e₁.sh.pages = e.sh.pages)
    (hv : ∀ a d, e.sh.pages a = some d → vas e₁.sh d = vas e.sh d) :
    Mirrors s e₁.sh items := by
  obtain ⟨hk, hm⟩ := h
  have hva (d : PageId) (hd : d ∈ items) : vas e₁.sh d = vas e.sh d :=
    hv _ d ((hm _ d).mpr ⟨hd, rfl⟩)
  refine ⟨{ hk with keys := fun x hx y hy hxy => ?_, hashv := fun x hx => ?_ }, fun a d => ?_⟩
  · rw [hva x hx, hva y hy] at hxy
    exact hk.keys x hx y hy hxy
  · rw [hva x hx]
    exact hk.hashv x hx
  · rw [hp, hm]
    exact and_congr_right fun hd => by rw [hva d hd]

theorem find (h : Mirrors s e.sh items) (hf : items.length ≤ fuel) (a : Nat) :
    s.findPage hashVa (vas e.sh) fuel a = .ok (e.sh.pages a) := h.1.find hf h.2 a

theorem addPage (h : Mirrors s e.sh items) (hn : ∀ a, e.sh.pages a ≠ some page)
    (hr : Prog.Runs (ExtMem.addPage page) e () e₁)
    (hf : items.length + 1 ≤ fuel) (hm : malloc (2 ^ 36) = false) :
    ((∃ size ∈ s.asks hashVa (vas e.sh) page, malloc size = false) ∧
        s.addPage hashVa (vas e.sh) malloc fuel page = .error .exit) ∨
    ∃ s', s.addPage hashVa (vas e.sh) malloc fuel page = .ok s' ∧
      Mirrors s' e₁.sh (items ++ [page]) := by
  have hdoes : e.sh.pages (vas e.sh page) = none ∧ e₁ =
      { e with sh := { e.sh with pages := Function.update e.sh.pages (vas e.sh page) (some page) } } := by
    refine (Prog.after_atomic _ e fun _ e' => e.sh.pages (vas e.sh page) = none ∧ e' =
      { e with sh := { e.sh with pages := Function.update e.sh.pages (vas e.sh page) (some page) } }).mpr
      ?_ _ _ hr
    intro _ e' he
    dsimp only at he
    split at he
    · next hnone =>
      cases he
      exact ⟨Option.isNone_iff_eq_none.mp hnone, rfl⟩
    · cases he
  obtain ⟨hnone, rfl⟩ := hdoes
  have hout : page ∉ items := fun hp => hn _ ((h.2 _ page).mpr ⟨hp, rfl⟩)
  have hkey (y : PageId) (hy : y ∈ items) : vas e.sh y ≠ vas e.sh page := by
    intro hyp
    have hsome := (h.2 _ y).mpr ⟨hy, hyp⟩
    rw [hnone] at hsome
    cases hsome
  have hfind : s.hashFind hashVa (vas e.sh) fuel (vas e.sh page) = .ok none := by
    rw [← hnone]
    exact h.find (Nat.le_of_succ_le hf) _
  have heq : s.addPage hashVa (vas e.sh) malloc fuel page =
      s.hashAdd hashVa (vas e.sh) malloc fuel page := by
    unfold Hash.addPage
    rw [hfind]
    rfl
  rw [heq]
  refine (h.1.add hout hkey hf hm).imp_right ?_
  rintro ⟨s', hs', hk⟩
  refine ⟨s', hs', hk, fun a d => ?_⟩
  show Function.update e.sh.pages (vas e.sh page) (some page) a = some d ↔
    d ∈ items ++ [page] ∧ vas e.sh d = a
  rw [List.mem_append, List.mem_singleton]
  by_cases ha : a = vas e.sh page
  · subst ha
    rw [Function.update_self]
    constructor
    · intro hd
      cases hd
      exact ⟨.inr rfl, rfl⟩
    · rintro ⟨hd | rfl, hv⟩
      · exact absurd hv (hkey d hd)
      · rfl
  · rw [Function.update_of_ne ha, h.2]
    constructor
    · exact fun hd => ⟨.inl hd.1, hd.2⟩
    · rintro ⟨hd | rfl, hv⟩
      · exact ⟨hd, hv⟩
      · exact absurd hv.symm ha

theorem removePage (h : Mirrors s e.sh items) (ht : e.sh.pages (vas e.sh page) = some page)
    (hr : Prog.Runs (ExtMem.removePage page) e () e₁) :
    ∃ items', items'.length ≤ items.length ∧ Mirrors (s.removePage page) e₁.sh items' := by
  have hdoes : e₁ =
      { e with sh := { e.sh with
        pages := fun va => if e.sh.pages va = some page then none else e.sh.pages va } } :=
    (Prog.after_modify _ e fun _ e' => e' = _).mpr rfl _ _ hr
  subst hdoes
  obtain ⟨as, bs, rfl⟩ := List.append_of_mem ((h.2 _ page).mp ht).1
  have hnd := List.nodup_cons.mp (List.nodup_middle.mp h.1.nodup)
  refine ⟨as ++ bs, ?_, h.1.delete, fun a d => ?_⟩
  · rw [List.length_append, List.length_append, List.length_cons]
    exact Nat.add_le_add_left (Nat.le_succ _) _
  show (if e.sh.pages a = some page then none else e.sh.pages a) = some d ↔
    d ∈ as ++ bs ∧ vas e.sh d = a
  have hd := h.2 a d
  rw [List.mem_append, List.mem_cons] at hd
  rw [List.mem_append]
  split
  · next ha =>
    refine ⟨fun hx => (by cases hx), ?_⟩
    rintro ⟨hx, hv⟩
    have hsome := hd.mpr ⟨hx.imp_right .inr, hv⟩
    rw [ha] at hsome
    cases hsome
    exact absurd (List.mem_append.mpr hx) hnd.1
  · next ha =>
    rw [hd]
    constructor
    · rintro ⟨hx | rfl | hx, hv⟩
      · exact ⟨.inl hx, hv⟩
      · exact absurd ((h.2 a d).mpr ⟨List.mem_append_right _ List.mem_cons_self, hv⟩) ha
      · exact ⟨.inr hx, hv⟩
    · intro hx
      exact ⟨hx.1.imp_right .inr, hx.2⟩

end Mirrors

private theorem finds {a : Nat} {page : Option PageId} {e e₁ : Env}
    (h : Prog.Runs (ExtMem.findPage a) e page e₁ ∨ Prog.Runs (lookUp a) e page e₁) :
      page = e.sh.pages a ∧ e₁.sh = e.sh := by
  rcases h with h | h
  · exact (Prog.after_read _ e fun page e' => page = e.sh.pages a ∧ e'.sh = e.sh).mpr
      ⟨rfl, rfl⟩ _ _ h
  · refine (Prog.after_atomic _ e fun page e' => page = e.sh.pages a ∧ e'.sh = e.sh).mpr ?_ _ _ h
    intro page e' he
    cases hp : e.sh.pages a with
    | none =>
      rw [hp] at he
      cases he
      exact ⟨rfl, rfl⟩
    | some d =>
      rw [hp] at he
      cases he
      exact ⟨rfl, rfl⟩

/-- The calls end with an exit: those before one of `add_page` return, and there `malloc` refuses a
size that HASH_ADD asks for. -/
structure Hash.Exits (fuel : Nat) (s : Hash PageId) (calls : List (Call PageId Nat))
    (found : List (Option PageId)) : Prop where
  exit : s.execAll hashVa fuel calls = .error .exit
  refused : ∃ before va malloc page after s', calls = before ++ .addPage va malloc page :: after ∧
    s.execAll hashVa fuel before = .ok (s', found.take before.length) ∧
      ∃ size ∈ s'.asks hashVa va page, malloc size = false

private theorem execAll_ok {s s₁ s₂ : Hash PageId} {c : Call PageId Nat} {page : Option PageId}
    {calls : List (Call PageId Nat)} {found : List (Option PageId)}
    (hc : s.exec hashVa fuel c = .ok (s₁, page))
    (h : s₁.execAll hashVa fuel calls = .ok (s₂, found)) :
    s.execAll hashVa fuel (c :: calls) = .ok (s₂, page :: found) := by
  unfold Hash.execAll
  rw [hc]
  show (do
    let (s, pages) ← s₁.execAll hashVa fuel calls
    pure (s, page :: pages) : Except Stop _) = _
  rw [h]
  rfl

/-- A call that returns is followed by the others. -/
private theorem execAll_cons {s s₁ : Hash PageId} {c : Call PageId Nat} {page : Option PageId}
    {calls : List (Call PageId Nat)} {found : List (Option PageId)} {P : Hash PageId → Prop}
    (hc : s.exec hashVa fuel c = .ok (s₁, page))
    (h : s₁.Exits fuel calls found ∨ ∃ s', s₁.execAll hashVa fuel calls = .ok (s', found) ∧ P s') :
    s.Exits fuel (c :: calls) (page :: found) ∨
      ∃ s', s.execAll hashVa fuel (c :: calls) = .ok (s', page :: found) ∧ P s' := by
  rcases h with ⟨hexit, before, va, malloc, newpage, after, s', rfl, hbefore, hrefused⟩ | ⟨s', h,
    hp⟩
  · refine .inl ⟨?_, c :: before, va, malloc, newpage, after, s', rfl, execAll_ok hc hbefore,
      hrefused⟩
    unfold Hash.execAll
    rw [hc]
    show (do let (s, pages) ← s₁.execAll hashVa fuel _; pure (s, page :: pages) : Except Stop _) = _
    rw [hexit]
    rfl
  · exact .inr ⟨s', execAll_ok hc h, hp⟩

/-- Along a history the hash keeps to the map. -/
theorem History.mirrored {s : Hash PageId} {e e' : Env} {items : List PageId}
    {calls : List (Call PageId Nat)} {found : List (Option PageId)} (h : History e calls found e')
    (hs : Mirrors s e.sh items) (hm : ∀ c ∈ calls, c.Fits)
    (hf : items.length + calls.length ≤ fuel) :
    s.Exits fuel calls found ∨ ∃ s', s.execAll hashVa fuel calls = .ok (s', found) ∧
      ∃ items', Mirrors s' e'.sh items' ∧ items'.length ≤ items.length + calls.length := by
  induction h generalizing s items with
  | nil e => exact .inr ⟨s, rfl, items, hs, Nat.le_add_right ..⟩
  | other pages va _ ih => exact ih (hs.other pages va) hm hf
  | @addPage e e₁ e' calls found page malloc new run _ ih =>
    obtain ⟨hfit, hm⟩ := List.forall_mem_cons.mp hm
    rw [List.length_cons] at hf ⊢
    have hroom : items.length + 1 ≤ fuel := by omega
    rcases hs.addPage new run hroom hfit with ⟨hrefused, hx⟩ | ⟨s₁, hs₁, hs'⟩
    · have hexec : s.exec hashVa fuel (.addPage (vas e.sh) malloc page) = .error .exit := by
        show (do let s ← s.addPage hashVa (vas e.sh) malloc fuel page; pure (s, none) : Except Stop _) = _
        rw [hx]
        rfl
      refine .inl ⟨?_, [], vas e.sh, malloc, page, calls, s, rfl, rfl, hrefused⟩
      unfold Hash.execAll
      rw [hexec]
      rfl
    · have hlen : (items ++ [page]).length = items.length + 1 := by
        rw [List.length_append, List.length_singleton]
      have hrest := ih hs' hm (by rw [hlen]; omega)
      rw [hlen, Nat.add_assoc, Nat.add_comm 1] at hrest
      refine execAll_cons ?_ hrest
      show (do let s ← s.addPage hashVa (vas e.sh) malloc fuel page; pure (s, none) : Except Stop _) = _
      rw [hs₁]
      rfl
  | @removePage e e₁ e' calls found page there run _ ih =>
    rw [List.length_cons] at hf ⊢
    obtain ⟨items₁, hle, hs'⟩ := hs.removePage there run
    have hrest := ih hs' (List.forall_mem_cons.mp hm).2 (by omega)
    refine execAll_cons rfl (hrest.imp_right ?_)
    rintro ⟨s', hx, items', hs', hle'⟩
    exact ⟨s', hx, items', hs', by omega⟩
  | @findPage e e₁ e' calls found a page run _ ih =>
    rw [List.length_cons] at hf ⊢
    obtain ⟨rfl, he⟩ := finds run
    have hfind := hs.find (Nat.le_of_add_right_le hf) a
    rw [← he] at hs
    have hexec : s.exec hashVa fuel (.findPage (vas e.sh) a) = .ok (s, e.sh.pages a) := by
      show (do let page ← s.findPage hashVa (vas e.sh) fuel a; pure (s, page) : Except Stop _) = _
      rw [hfind]
      rfl
    have hrest := ih hs (List.forall_mem_cons.mp hm).2 (by omega)
    refine execAll_cons hexec (hrest.imp_right ?_)
    rintro ⟨s', hx, items', hs', hle'⟩
    exact ⟨s', hx, items', hs', by omega⟩

/-- Whatever the functions of core.c do to the hash, uthash gives them the pages that the map has,
unless it is refused memory that it asks for, and is left with the pages of the map, each of which
it finds by its address. -/
theorem hash_mirrors_pages {e e' : Env} {calls : List (Call PageId Nat)}
    {found : List (Option PageId)} (h : History e calls found e') (h₀ : ∀ a, e.sh.pages a = none)
    (hm : ∀ c ∈ calls, c.Fits) (hf : calls.length ≤ fuel) :
    Hash.fresh.Exits fuel calls found ∨
    ∃ s, Hash.fresh.execAll hashVa fuel calls = .ok (s, found) ∧ (∃ items, Mirrors s e'.sh items) ∧
      ∀ a, s.findPage hashVa (vas e'.sh) fuel a = .ok (e'.sh.pages a) := by
  have hfresh : Mirrors (Hash.fresh : Hash PageId) e.sh [] := by
    refine ⟨⟨List.nodup_nil, rfl, trivial, fun _ hy => (List.not_mem_nil hy).elim, fun _ hy =>
      (List.not_mem_nil hy).elim, fun hn => absurd rfl hn, fun hn => absurd rfl hn⟩, fun a d => ?_⟩
    rw [h₀]
    exact ⟨fun hx => (by cases hx), fun hx => (List.not_mem_nil hx.1).elim⟩
  refine (h.mirrored hfresh hm (by rw [List.length_nil, Nat.zero_add]; exact hf)).imp_right ?_
  rintro ⟨s, hs, items, hi, hle⟩
  rw [List.length_nil, Nat.zero_add] at hle
  exact ⟨s, hs, ⟨items, hi⟩, hi.find (hle.trans hf)⟩

/-- A machine whose hash is empty and whose pages have addresses already. -/
def placedMachine : Env :=
  { smallMachine false with sh := { (smallMachine false).sh with
      pages := fun _ => none
      page := fun d => { UserPage.zero with va := pageSize * (d + 1) } } }

/-- Two pages come and one of them goes. -/
def placedCalls : List (Call PageId Nat) :=
  let va := vas placedMachine.sh
  let malloc := fun n => decide (n < 2 ^ 36)
  [.addPage va malloc 1, .findPage va (2 * pageSize), .addPage va malloc 2, .removePage 1,
    .findPage va (2 * pageSize), .findPage va (3 * pageSize)]

private theorem fits_placedCalls : ∀ c ∈ placedCalls, c.Fits := by
  have hmem : decide (2 ^ 36 < 2 ^ 36) = false := by decide
  intro c hc
  simp only [placedCalls, List.mem_cons, List.not_mem_nil, or_false] at hc
  rcases hc with rfl | rfl | rfl | rfl | rfl | rfl
  · exact hmem
  · trivial
  · exact hmem
  · trivial
  · trivial
  · trivial

/-- The history in which the model answers these calls. -/
private theorem history_placedCalls :
    ∃ e', History placedMachine placedCalls [none, some 1, none, none, none, some 2] e' ∧
      vas e'.sh = vas placedMachine.sh ∧ e'.sh.pages (3 * pageSize) = some 2 := by
  refine ⟨_, .addPage _ nofun (.act rfl (.ret _ _)) (.findPage (.inl (.act rfl (.ret _ _)))
    (.addPage _ ?_ (.act rfl (.ret _ _)) (.removePage rfl (.act rfl (.ret _ _)) (.findPage
    (.inl (.act rfl (.ret _ _))) (.findPage (.inl (.act rfl (.ret _ _))) (.nil _)))))), rfl, rfl⟩
  intro a ha
  have ha : Function.update placedMachine.sh.pages (placedMachine.sh.page 1).va (some 1) a =
      some 2 := ha
  rw [Function.update_apply] at ha
  split at ha
  · cases ha
  · cases ha

theorem hash_mirrors_pages_placedMachine : ∃ s : Hash PageId,
    Hash.fresh.execAll hashVa 6 placedCalls = .ok (s, [none, some 1, none, none, none, some 2]) ∧
      s.findPage hashVa (vas placedMachine.sh) 6 (3 * pageSize) = .ok (some 2) := by
  have hreturns : (Hash.fresh.execAll hashVa 6 placedCalls).isOk = true := by decide +kernel
  obtain ⟨e', hist, hva, hpage⟩ := history_placedCalls
  have hroom : placedCalls.length ≤ 6 := by decide
  rcases hash_mirrors_pages hist (fun _ => rfl) fits_placedCalls hroom with hx | ⟨s, hs, -, hfind⟩
  · rw [hx.exit] at hreturns
    cases hreturns
  · refine ⟨s, hs, ?_⟩
    rw [← hva, hfind, hpage]

end ExtMem.Uthash
