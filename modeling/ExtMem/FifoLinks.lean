import ExtMem.Queues

/-! The lists of fifo.c with their links: the fields of the lists and of the pages as each
operation leaves them, and that a family of such lists is a family of queues. -/
namespace ExtMem

namespace Queues
variable {ι α : Type} [DecidableEq α]

/-- The oldest entry of a queue is taken. -/
def dequeue (q : Queues ι α) (l : ι) : Queues ι α × Option α :=
  match q.seq l with
  | [] => (q, none)
  | x :: _ => (q.unlink x, some x)

/-- Up to a number of the oldest entries of a queue are taken. -/
def dequeueVector (q : Queues ι α) (l : ι) (n : Nat) : Queues ι α × List α :=
  (((q.seq l).take n).foldl unlink q, (q.seq l).take n)

/-- An entry is taken from the given queue if it is there. -/
def tryremove [DecidableEq ι] (q : Queues ι α) (l : Option ι) (x : α) : Queues ι α × Int :=
  if l ≠ none ∧ q.tag x = l then (q.unlink x, 0) else (q, -1)

end Queues

/-- The fields of all lists `ι` and the link fields of all pages `α`. -/
structure Links (ι α : Type) where
  first : ι → Option α
  last : ι → Option α
  numentries : ι → Nat
  next : α → Option α
  prev : α → Option α
  list : α → Option ι

namespace Links
variable {ι α : Type}

/-- Lists fresh from static storage and pages fresh from calloc. -/
def empty : Links ι α :=
  ⟨fun _ => none, fun _ => none, fun _ => 0, fun _ => none, fun _ => none, fun _ => none⟩

section Operations
variable [DecidableEq ι] [DecidableEq α]

def setNext (s : Links ι α) (x : α) (v : Option α) : Links ι α :=
  { s with next := Function.update s.next x v }
def setPrev (s : Links ι α) (x : α) (v : Option α) : Links ι α :=
  { s with prev := Function.update s.prev x v }
def setList (s : Links ι α) (x : α) (v : Option ι) : Links ι α :=
  { s with list := Function.update s.list x v }
def setFirst (s : Links ι α) (l : ι) (v : Option α) : Links ι α :=
  { s with first := Function.update s.first l v }
def setLast (s : Links ι α) (l : ι) (v : Option α) : Links ι α :=
  { s with last := Function.update s.last l v }
def setCount (s : Links ι α) (l : ι) (n : Nat) : Links ι α :=
  { s with numentries := Function.update s.numentries l n }

/-- `enqueue_fifo`; a failed assertion gives no state. -/
def enqueueFifo (s : Links ι α) (queue : ι) (entry : α) : Option (Links ι α) := do
  guard (s.prev entry = none)
  let s := s.setNext entry (s.first queue)
  let s ← match s.first queue with
    | some x => do
      guard (s.prev x = none)
      pure (s.setPrev x (some entry))
    | none => do
      guard (s.last queue = none)
      guard (s.numentries queue = 0)
      pure (s.setLast queue (some entry))
  let s := s.setFirst queue (some entry)
  let s := s.setList entry (some queue)
  pure (s.setCount queue (s.numentries queue + 1))

/-- The oldest entry `ret` is unlinked, as `dequeue_fifo` and `dequeue_fifo_vector` do it. -/
def unlinkLast (s : Links ι α) (queue : ι) (ret : α) : Option (Links ι α) := do
  let s := s.setLast queue (s.prev ret)
  let s := match s.last queue with
    | some x => s.setNext x none
    | none => s.setFirst queue none
  let s := (s.setNext ret none).setPrev ret none
  let s := s.setList ret none
  guard (s.numentries queue > 0)
  pure (s.setCount queue (s.numentries queue - 1))

def dequeueFifo (s : Links ι α) (queue : ι) : Option (Links ι α × Option α) :=
  match s.last queue with
  | none => pure (s, none)
  | some ret => do
    let s ← s.unlinkLast queue ret
    pure (s, some ret)

/-- `dequeue_fifo_vector`: the pages it stores, in the order of the vector. Their number is
what it returns. -/
def dequeueFifoVector (s : Links ι α) (queue : ι) : Nat → Option (Links ι α × List α)
  | 0 => pure (s, [])
  | nrFetch + 1 =>
    match s.last queue with
    | none => pure (s, [])
    | some page => do
      let s ← s.unlinkLast queue page
      let (s, rest) ← s.dequeueFifoVector queue nrFetch
      pure (s, page :: rest)

/-- The common part of the two removals: the page is unlinked wherever it is. -/
def unlinkPage (s : Links ι α) (l : ι) (page : α) : Option (Links ι α) := do
  let s := if s.first l = some page then s.setFirst l (s.next page) else s
  let s := if s.last l = some page then s.setLast l (s.prev page) else s
  let s := match s.next page with
    | some x => s.setPrev x (s.prev page)
    | none => s
  let s := match s.prev page with
    | some x => s.setNext x (s.next page)
    | none => s
  guard (s.numentries l > 0)
  let s := s.setCount l (s.numentries l - 1)
  pure (((s.setNext page none).setPrev page none).setList page none)

def pageListRemovePage (s : Links ι α) (l : ι) (page : α) : Option (Links ι α) :=
  if s.first l = none then do
    guard (s.last l = none)
    guard (s.numentries l = 0)
    pure s
  else s.unlinkPage l page

/-- `page_list_tryremove_page`, with the number it returns. -/
def pageListTryremovePage (s : Links ι α) (list : Option ι) (page : α) : Option (Links ι α × Int) :=
  match list with
  | none => pure (s, -1)
  | some l =>
    if s.list page ≠ some l then pure (s, -1)
    else if s.first l = none then do
      guard (s.last l = none)
      guard (s.numentries l = 0)
      pure (s, -1)
    else do
      let s ← s.unlinkPage l page
      pure (s, 0)

/-- `next_page`: what it stores in its last argument. -/
def nextPage (s : Links ι α) (l : ι) (page : Option α) : Option (Option α) :=
  match page with
  | none => pure (s.last l)
  | some x => do
    guard (s.list x = some l)
    pure (s.prev x)

end Operations

/-- Some pages linked one after the other, the oldest first: its `next` is `o`, and the
`prev` of the newest is `n`. -/
def Linked (s : Links ι α) : Option α → List α → Option α → Prop
  | _, [], _ => True
  | o, x :: xs, n => s.next x = o ∧ s.prev x = xs.head?.or n ∧ s.Linked (some x) xs n

variable {s s' : Links ι α} {o n : Option α} {xs ys : List α} {x y : α} {l m : ι}

theorem linked_append :
    s.Linked o (xs ++ ys) n ↔ s.Linked o xs (ys.head?.or n) ∧ s.Linked (xs.getLast?.or o) ys n := by
  induction xs generalizing o with
  | nil => simp [Linked]
  | cons x xs ih =>
    have hhead : (xs ++ ys).head?.or n = xs.head?.or (ys.head?.or n) := by
      cases xs <;> simp
    have hlast : (x :: xs).getLast?.or o = xs.getLast?.or (some x) := by
      cases xs with
      | nil => simp
      | cons y xs => simp [List.getLast?_eq_some_getLast]
    rw [List.cons_append, Linked, Linked, ih, hhead, hlast]
    constructor
    · rintro ⟨h₁, h₂, h₃, h₄⟩
      exact ⟨⟨h₁, h₂, h₃⟩, h₄⟩
    · rintro ⟨⟨h₁, h₂, h₃⟩, h₄⟩
      exact ⟨h₁, h₂, h₃, h₄⟩

theorem Linked.congr (h : s.Linked o xs n) (hn : ∀ x ∈ xs, s'.next x = s.next x)
    (hp : ∀ x ∈ xs, s'.prev x = s.prev x) : s'.Linked o xs n := by
  induction xs generalizing o with
  | nil => trivial
  | cons x xs ih =>
    obtain ⟨h₁, h₂, h₃⟩ := h
    refine ⟨(hn x List.mem_cons_self).trans h₁, (hp x List.mem_cons_self).trans h₂, ih h₃ ?_ ?_⟩
    · exact fun y hy => hn y (List.mem_cons_of_mem _ hy)
    · exact fun y hy => hp y (List.mem_cons_of_mem _ hy)

/-- Following a link from page to page gives these pages and then NULL. -/
def Chain (link : α → Option α) : Option α → List α → Prop
  | none, [] => True
  | some x, y :: ys => x = y ∧ Chain link (link x) ys
  | _, _ => False

theorem Linked.backward (h : s.Linked o xs none) : Chain s.prev xs.head? xs := by
  induction xs generalizing o with
  | nil => trivial
  | cons x xs ih =>
    refine ⟨rfl, ?_⟩
    rw [h.2.1, Option.or_none]
    exact ih h.2.2

theorem Linked.forward (h : s.Linked none xs n) : Chain s.next xs.getLast? xs.reverse := by
  induction xs using List.reverseRecOn generalizing n with
  | nil => trivial
  | append_singleton xs x ih =>
    obtain ⟨hxs, hx, -, -⟩ := linked_append.mp h
    rw [List.getLast?_concat, List.reverse_append]
    refine ⟨rfl, ?_⟩
    rw [hx, Option.or_none]
    exact ih hxs

/-- The links and fields stand for a family of queues: the lists are linked in both
directions, and what is on no list has no links. -/
structure Refines (s : Links ι α) (q : Queues ι α) : Prop where
  linked : ∀ l, s.Linked none (q.seq l) none
  first : ∀ l, s.first l = (q.seq l).getLast?
  last : ∀ l, s.last l = (q.seq l).head?
  numentries : ∀ l, s.numentries l = (q.seq l).length
  list : ∀ x, s.list x = q.tag x
  off : ∀ x, q.tag x = none → s.next x = none ∧ s.prev x = none

variable {q : Queues ι α}

theorem refines_empty : Refines (empty : Links ι α) Queues.empty :=
  ⟨fun _ => trivial, fun _ => rfl, fun _ => rfl, fun _ => rfl, fun _ => rfl, fun _ _ => ⟨rfl, rfl⟩⟩

namespace Refines

theorem prev_newest (h : Refines s q) {ys : List α} (hs : q.seq l = ys ++ [y]) :
    s.prev y = none := by
  have hl := h.linked l
  rw [hs, linked_append] at hl
  exact hl.2.2.1

/-- A page on a list lies between its neighbours. -/
theorem between (h : Refines s q) {as bs : List α} (hs : q.seq l = as ++ x :: bs) :
    s.Linked none as (some x) ∧ s.next x = as.getLast? ∧ s.prev x = bs.head? ∧
    s.Linked (some x) bs none := by
  have hl := h.linked l
  rw [hs, linked_append, Linked, List.head?_cons, Option.some_or, Option.or_none,
    Option.or_none] at hl
  exact hl

/-- The links of a page lead to pages of its list. -/
theorem mem_of_next (h : Refines s q) (hx : x ∈ q.seq l) (hn : s.next x = some y) :
    y ∈ q.seq l ∧ y ≠ x := by
  obtain ⟨as, bs, hs⟩ := List.append_of_mem hx
  have hd := q.nodup l
  rw [(h.between hs).2.1] at hn
  have hy : y ∈ as := List.mem_of_getLast? hn
  rw [hs] at hd ⊢
  refine ⟨List.mem_append_left _ hy, ?_⟩
  rintro rfl
  exact List.disjoint_of_nodup_append hd hy List.mem_cons_self

theorem mem_of_prev (h : Refines s q) (hx : x ∈ q.seq l) (hp : s.prev x = some y) :
    y ∈ q.seq l ∧ y ≠ x := by
  obtain ⟨as, bs, hs⟩ := List.append_of_mem hx
  have hd := q.nodup l
  rw [(h.between hs).2.2.1] at hp
  have hy : y ∈ bs := List.mem_of_mem_head? hp
  rw [hs] at hd ⊢
  refine ⟨List.mem_append_right _ (List.mem_cons_of_mem _ hy), ?_⟩
  rintro rfl
  exact (List.nodup_cons.mp hd.of_append_right).1 hy

theorem first_ne_none (h : Refines s q) (hx : q.tag x = some l) : s.first l ≠ none := by
  rw [h.first]
  exact fun hn => List.ne_nil_of_mem ((q.mem_iff l x).mpr hx) (List.getLast?_eq_none_iff.mp hn)

end Refines

section
variable [DecidableEq α]

/-- The newest of some linked pages gets another page before it. -/
theorem Linked.newer {b : Option α} (h : s.Linked o xs n)
    (hd : xs.Nodup) (hn : ∀ y ∈ xs, s'.next y = s.next y)
    (hp : ∀ y ∈ xs, s'.prev y = if xs.getLast? = some y then b else s.prev y) :
    s'.Linked o xs b := by
  induction xs generalizing o with
  | nil => trivial
  | cons x xs ih =>
    obtain ⟨h₁, h₂, h₃⟩ := h
    obtain ⟨hx, hd⟩ := List.nodup_cons.mp hd
    have hlast : ∀ y ∈ xs, (x :: xs).getLast? = xs.getLast? := by
      intro y hy
      rw [List.getLast?_cons, List.getLast?_eq_some_getLast (List.ne_nil_of_mem hy),
        Option.getD_some]
    refine ⟨(hn x List.mem_cons_self).trans h₁, ?_,
      ih h₃ hd (fun y hy => hn y (List.mem_cons_of_mem _ hy)) fun y hy => ?_⟩
    · rw [hp x List.mem_cons_self]
      cases xs with
      | nil => simp
      | cons y ys =>
        rw [hlast y List.mem_cons_self, if_neg, h₂, List.head?_cons, Option.some_or, Option.some_or]
        exact fun hl => hx (List.mem_of_getLast? hl)
    · rw [hp y (List.mem_cons_of_mem _ hy), hlast y hy]

/-- The oldest of some linked pages gets another page behind it. -/
theorem Linked.older {a : Option α} (h : s.Linked o xs n) (hd : xs.Nodup)
    (hn : ∀ y ∈ xs, s'.next y = if xs.head? = some y then a else s.next y)
    (hp : ∀ y ∈ xs, s'.prev y = s.prev y) : s'.Linked a xs n := by
  cases xs with
  | nil => trivial
  | cons x xs =>
    obtain ⟨_, h₂, h₃⟩ := h
    obtain ⟨hx, _⟩ := List.nodup_cons.mp hd
    refine ⟨?_, (hp x List.mem_cons_self).trans h₂,
      h₃.congr (fun y hy => ?_) fun y hy => hp y (List.mem_cons_of_mem _ hy)⟩
    · rw [hn x List.mem_cons_self, if_pos List.head?_cons]
    · rw [hn y (List.mem_cons_of_mem _ hy), if_neg]
      rintro hxy
      cases hxy
      exact hx hy

variable [DecidableEq ι]

namespace Refines

/-- What `enqueue_fifo` leaves: no assertion of it fails for a page on no list. -/
theorem enqueueFifo_eq (h : Refines s q) (hx : q.tag x = none) :
    s.enqueueFifo l x = some
      { first := Function.update s.first l (some x)
        last := if q.seq l = [] then Function.update s.last l (some x) else s.last
        numentries := Function.update s.numentries l (s.numentries l + 1)
        next := Function.update s.next x (s.first l)
        prev := fun y => if s.first l = some y then some x else s.prev y
        list := Function.update s.list x (some l) } := by
  have hprev : s.prev x = none := (h.off x hx).2
  rcases List.eq_nil_or_concat' (q.seq l) with hs | ⟨ys, y, hs⟩
  · have hf : s.first l = none := by rw [h.first, hs]; rfl
    have hl : s.last l = none := by rw [h.last, hs]; rfl
    have hc : s.numentries l = 0 := by rw [h.numentries, hs]; rfl
    simp [enqueueFifo, setNext, setLast, setFirst, setList, setCount, hprev, hf, hl, hc, hs]
  · have hf : s.first l = some y := by rw [h.first, hs]; simp
    have hp : s.prev y = none := h.prev_newest hs
    have hne : q.seq l ≠ [] := by rw [hs]; simp
    have hpe :
        (fun z => if y = z then some x else s.prev z) = Function.update s.prev y (some x) := by
      funext z
      rw [Function.update_apply]
      simp only [eq_comm]
    simp [enqueueFifo, setNext, setPrev, setFirst, setList, setCount, hprev, hf, hp, hne, hpe]

theorem enqueueFifo (h : Refines s q) (hx : q.tag x = none) :
    ∃ s', s.enqueueFifo l x = some s' ∧ Refines s' (q.enqueue l x) := by
  refine ⟨_, h.enqueueFifo_eq hx, ?_, fun m => ?_, fun m => ?_, fun m => ?_, fun y => ?_,
    fun y hy => ?_⟩
  · intro m
    have hmem : ∀ m, x ∉ q.seq m := by
      intro m hm
      rw [q.tag_of_mem hm] at hx
      cases hx
    have hne : ∀ m, ∀ y ∈ q.seq m, Function.update s.next x (s.first l) y = s.next y := by
      intro m y hy
      refine Function.update_of_ne ?_ _ _
      rintro rfl
      exact hmem m hy
    rw [Queues.seq_enqueue hx]
    by_cases hm : m = l
    · subst hm
      rw [if_pos rfl]
      refine linked_append.mpr ⟨(h.linked m).newer (q.nodup m) ?_ fun y hy => ?_, ?_⟩
      · exact hne m
      · rw [h.first]
        rfl
      · refine ⟨(Function.update_self _ _ _).trans (by rw [h.first, Option.or_none]), ?_, trivial⟩
        refine (if_neg fun hf => ?_).trans (h.off x hx).2
        rw [h.first] at hf
        exact hmem m (List.mem_of_getLast? hf)
    · rw [if_neg hm]
      refine (h.linked m).congr ?_ fun y hy => ?_
      · exact hne m
      refine if_neg fun hf => hm ?_
      rw [h.first] at hf
      have hl := q.tag_of_mem (List.mem_of_getLast? hf)
      rw [q.tag_of_mem hy] at hl
      exact Option.some.inj hl
  · dsimp only
    rw [Queues.seq_enqueue hx, Function.update_apply]
    split
    · simp
    · exact h.first m
  · rw [Queues.seq_enqueue hx]
    by_cases hm : m = l
    · subst hm
      by_cases hs : q.seq m = []
      · simp [hs]
      · rw [if_neg hs, if_pos rfl, h.last, List.head?_append_of_ne_nil _ hs]
    · rw [if_neg hm, ← h.last]
      split
      · exact Function.update_of_ne hm _ _
      · rfl
  · dsimp only
    rw [Queues.seq_enqueue hx, Function.update_apply]
    split
    · rw [h.numentries, List.length_append, List.length_singleton]
    · exact h.numentries m
  · dsimp only
    rw [Queues.tag_enqueue hx, Function.update_apply, h.list]
  · rw [Queues.tag_enqueue hx] at hy
    split at hy
    · cases hy
    · next hyx =>
      obtain ⟨hn, hp⟩ := h.off y hy
      refine ⟨(Function.update_of_ne hyx _ _).trans hn, (if_neg fun hf => ?_).trans hp⟩
      rw [h.first] at hf
      rw [q.tag_of_mem (List.mem_of_getLast? hf)] at hy
      cases hy

/-- What a removal leaves of the fields when the page is on the list. -/
theorem unlinkPage_eq (h : Refines s q) (hx : x ∈ q.seq l) :
    s.unlinkPage l x = some
      { first := if s.first l = some x then Function.update s.first l (s.next x) else s.first
        last := if s.last l = some x then Function.update s.last l (s.prev x) else s.last
        numentries := Function.update s.numentries l (s.numentries l - 1)
        next := fun y => if y = x then none else if s.prev x = some y then s.next x else s.next y
        prev := fun y => if y = x then none else if s.next x = some y then s.prev x else s.prev y
        list := Function.update s.list x none } := by
  have hc : 0 < s.numentries l := by
    rw [h.numentries]
    exact List.length_pos_of_mem hx
  have hcut (f : α → Option α) (o v : Option α) (ho : ∀ y, o = some y → y ≠ x) :
      (fun y => if y = x then none else if o = some y then v else f y) =
        Function.update (match o with | some z => Function.update f z v | none => f) x none := by
    funext y
    rw [Function.update_apply]
    split
    · rfl
    · cases o with
      | none => simp
      | some z => simp [Function.update_apply, eq_comm]
  rw [hcut _ _ _ fun y hy => (h.mem_of_prev hx hy).2,
    hcut _ _ _ fun y hy => (h.mem_of_next hx hy).2]
  have hpx : ∀ y, s.next x = some y → x ≠ y := fun y hy => (h.mem_of_next hx hy).2.symm
  cases hn : s.next x with
  | none =>
    cases hp : s.prev x with
    | none =>
      split_ifs <;> simp_all [unlinkPage, setNext, setPrev, setFirst, setLast, setList, setCount]
    | some b =>
      split_ifs <;> simp_all [unlinkPage, setNext, setPrev, setFirst, setLast, setList, setCount]
  | some a =>
    have hax := hpx a hn
    cases hp : s.prev x with
    | none =>
      split_ifs <;> simp_all [unlinkPage, setNext, setPrev, setFirst, setLast, setList, setCount]
    | some b =>
      split_ifs <;> simp_all [unlinkPage, setNext, setPrev, setFirst, setLast, setList, setCount]

theorem unlinkPage (h : Refines s q) (hx : q.tag x = some l) :
    ∃ s', s.unlinkPage l x = some s' ∧ Refines s' (q.unlink x) := by
  have hmem : x ∈ q.seq l := (q.mem_iff l x).mpr hx
  refine ⟨_, h.unlinkPage_eq hmem, ?_⟩
  obtain ⟨as, bs, hs⟩ := List.append_of_mem hmem
  obtain ⟨hold, hnext, hprev, hnew⟩ := h.between hs
  have hd := q.nodup l
  rw [hs] at hd
  obtain ⟨has, hd', hdisj⟩ := List.nodup_append'.mp hd
  obtain ⟨hxb, hbs⟩ := List.nodup_cons.mp hd'
  have hxa : x ∉ as := fun hxa => hdisj hxa List.mem_cons_self
  have herase : (q.unlink x).seq l = as ++ bs := by
    rw [Queues.seq_unlink, hs, List.erase_append_right _ hxa, List.erase_cons_head]
  have hother : ∀ m, m ≠ l → (q.unlink x).seq m = q.seq m :=
    fun m hm => Queues.seq_unlink_of_ne hx hm
  have hna : ∀ y, q.tag y ≠ some l → s.next x ≠ some y :=
    fun y hy hn => hy (q.tag_of_mem (h.mem_of_next hmem hn).1)
  have hnb : ∀ y, q.tag y ≠ some l → s.prev x ≠ some y :=
    fun y hy hp => hy (q.tag_of_mem (h.mem_of_prev hmem hp).1)
  refine ⟨fun m => ?_, fun m => ?_, fun m => ?_, fun m => ?_, fun y => ?_, fun y hy => ?_⟩
  · by_cases hm : m = l
    · subst hm
      rw [herase]
      have hsplit : ∀ y ∈ as, y ≠ x ∧ s.prev x ≠ some y := by
        intro y hy
        rw [hprev]
        refine ⟨?_, fun hb => hdisj hy (List.mem_cons_of_mem _ (List.mem_of_mem_head? hb))⟩
        rintro rfl
        exact hxa hy
      have hsplit' : ∀ y ∈ bs, y ≠ x ∧ s.next x ≠ some y := by
        intro y hy
        rw [hnext]
        refine ⟨?_, fun ha => hdisj (List.mem_of_getLast? ha) (List.mem_cons_of_mem _ hy)⟩
        rintro rfl
        exact hxb hy
      refine linked_append.mpr ⟨hold.newer has (fun y hy => ?_) fun y hy => ?_,
        hnew.older hbs (fun y hy => ?_) fun y hy => ?_⟩
      · dsimp only
        rw [if_neg (hsplit y hy).1, if_neg (hsplit y hy).2]
      · dsimp only
        rw [if_neg (hsplit y hy).1, hnext, hprev, Option.or_none]
      · dsimp only
        rw [if_neg (hsplit' y hy).1, hnext, hprev, Option.or_none]
      · dsimp only
        rw [if_neg (hsplit' y hy).1, if_neg (hsplit' y hy).2]
    · rw [hother m hm]
      have hout : ∀ y ∈ q.seq m, y ≠ x ∧ q.tag y ≠ some l := by
        intro y hy
        rw [q.tag_of_mem hy]
        refine ⟨?_, fun he => hm (Option.some.inj he)⟩
        rintro rfl
        rw [q.tag_of_mem hy] at hx
        exact hm (Option.some.inj hx)
      refine (h.linked m).congr (fun y hy => ?_) fun y hy => ?_
      · exact (if_neg (hout y hy).1).trans (if_neg (hnb y (hout y hy).2))
      · exact (if_neg (hout y hy).1).trans (if_neg (hna y (hout y hy).2))
  · dsimp only
    by_cases hm : m = l
    · subst hm
      rw [herase, h.first, hs]
      cases bs with
      | nil => simp [hnext]
      | cons b bs =>
        have hne : (as ++ x :: b :: bs).getLast? ≠ some x := by
          rw [List.getLast?_append_cons, List.getLast?_cons_cons]
          exact fun hx => hxb (List.mem_of_getLast? hx)
        rw [if_neg hne, h.first, hs, List.getLast?_append_cons, List.getLast?_append_cons,
          List.getLast?_cons_cons]
    · rw [hother m hm, ← h.first m]
      split
      · exact Function.update_of_ne hm _ _
      · rfl
  · dsimp only
    by_cases hm : m = l
    · subst hm
      rw [herase, h.last, hs]
      cases as with
      | nil => simp [hprev]
      | cons a as =>
        have hne : (a :: as ++ x :: bs).head? ≠ some x := by
          rintro hx
          cases hx
          exact hxa List.mem_cons_self
        rw [if_neg hne, h.last, hs]
        rfl
    · rw [hother m hm, ← h.last m]
      split
      · exact Function.update_of_ne hm _ _
      · rfl
  · dsimp only
    rw [Function.update_apply]
    by_cases hm : m = l
    · subst hm
      rw [if_pos rfl, herase, h.numentries, hs]
      simp
    · rw [if_neg hm, hother m hm, h.numentries]
  · dsimp only
    rw [Function.update_apply, Queues.tag_unlink, h.list]
  · dsimp only
    rw [Queues.tag_unlink] at hy
    by_cases hyx : y = x
    · rw [if_pos hyx, if_pos hyx]
      exact ⟨rfl, rfl⟩
    · rw [if_neg hyx] at hy
      have hyl : q.tag y ≠ some l := by
        rw [hy]
        exact nofun
      rw [if_neg hyx, if_neg hyx, if_neg (hnb y hyl), if_neg (hna y hyl)]
      exact h.off y hy

/-- To unlink the oldest page is a removal of it. -/
theorem unlinkLast_eq (h : Refines s q) {xs : List α} (hs : q.seq l = x :: xs) :
    s.unlinkLast l x = s.unlinkPage l x := by
  have hd := q.nodup l
  rw [hs] at hd
  have hs' : q.seq l = [] ++ x :: xs := hs
  obtain ⟨-, hnext, hprev, -⟩ := h.between hs'
  have hlast : s.last l = some x := by rw [h.last, hs]; rfl
  have hfirst : s.first l = (x :: xs).getLast? := by rw [h.first, hs]
  cases xs with
  | nil =>
    simp [Links.unlinkLast, Links.unlinkPage, setNext, setPrev, setFirst, setLast, setList,
      setCount, hlast, hfirst, hnext, hprev]
  | cons y xs =>
    have hne : (y :: xs).getLast? ≠ some x :=
      fun hl => (List.nodup_cons.mp hd).1 (List.mem_of_getLast? hl)
    have hyx : x ≠ y := by
      rintro rfl
      exact (List.nodup_cons.mp hd).1 List.mem_cons_self
    simp_all [Links.unlinkLast, Links.unlinkPage, setNext, setPrev, setLast, setList, setCount]

theorem dequeueFifo (h : Refines s q) (l : ι) :
    ∃ s', s.dequeueFifo l = some (s', (q.dequeue l).2) ∧ Refines s' (q.dequeue l).1 := by
  have hlast := h.last l
  cases hs : q.seq l with
  | nil =>
    rw [hs] at hlast
    exact ⟨s, by simp [Links.dequeueFifo, Queues.dequeue, hlast, hs],
      by simpa [Queues.dequeue, hs] using h⟩
  | cons x xs =>
    rw [hs] at hlast
    obtain ⟨s', hu, hr⟩ := h.unlinkPage (q.tag_of_head hs)
    rw [← h.unlinkLast_eq hs] at hu
    exact ⟨s', by simp [Links.dequeueFifo, Queues.dequeue, hlast, hs, hu],
      by simpa [Queues.dequeue, hs] using hr⟩

theorem dequeueFifoVector (h : Refines s q) (l : ι) (n : Nat) :
    ∃ s', s.dequeueFifoVector l n = some (s', (q.dequeueVector l n).2) ∧
      Refines s' (q.dequeueVector l n).1 := by
  induction n generalizing s q with
  | zero =>
    exact ⟨s, by simp [Links.dequeueFifoVector, Queues.dequeueVector],
      by simpa [Queues.dequeueVector] using h⟩
  | succ n ih =>
    have hlast := h.last l
    cases hs : q.seq l with
    | nil =>
      rw [hs] at hlast
      exact ⟨s, by simp [Links.dequeueFifoVector, Queues.dequeueVector, hlast, hs],
        by simpa [Queues.dequeueVector, hs] using h⟩
    | cons x xs =>
      rw [hs] at hlast
      obtain ⟨s₁, hu, hr⟩ := h.unlinkPage (q.tag_of_head hs)
      obtain ⟨s', hv, hr'⟩ := ih hr
      rw [← h.unlinkLast_eq hs] at hu
      rw [Queues.dequeueVector, Queues.seq_unlink_head hs] at hv hr'
      refine ⟨s', ?_, by simpa [Queues.dequeueVector, hs] using hr'⟩
      simp [Links.dequeueFifoVector, Queues.dequeueVector, hlast, hs, hu, hv]

theorem pageListRemovePage (h : Refines s q) (hx : q.tag x = some l) :
    ∃ s', s.pageListRemovePage l x = some s' ∧ Refines s' (q.unlink x) := by
  rw [Links.pageListRemovePage, if_neg (h.first_ne_none hx)]
  exact h.unlinkPage hx

theorem pageListTryremovePage (h : Refines s q) (l : Option ι) (x : α) :
    ∃ s', s.pageListTryremovePage l x = some (s', (q.tryremove l x).2) ∧
      Refines s' (q.tryremove l x).1 := by
  cases l with
  | none => exact ⟨s, rfl, h⟩
  | some l =>
    by_cases hx : q.tag x = some l
    · obtain ⟨s', hu, hr⟩ := h.unlinkPage hx
      refine ⟨s', ?_, by simpa [Queues.tryremove, hx] using hr⟩
      simp [Links.pageListTryremovePage, Queues.tryremove, h.list, hx, h.first_ne_none hx, hu]
    · refine ⟨s, ?_, by simpa [Queues.tryremove, hx] using h⟩
      simp [Links.pageListTryremovePage, Queues.tryremove, h.list, hx]

end Refines

/-- Calls of `next_page`, each on the page before, give these pages and then NULL. -/
def Iterates (s : Links ι α) (l : ι) : Option α → List α → Prop
  | p, [] => s.nextPage l p = some none
  | p, y :: ys => s.nextPage l p = some (some y) ∧ s.Iterates l (some y) ys

/-- Calls of `dequeue_fifo` up to a number, or until it gives no page. -/
def dequeueTimes (s : Links ι α) (queue : ι) : Nat → Option (Links ι α × List α)
  | 0 => pure (s, [])
  | n + 1 => do
    match ← s.dequeueFifo queue with
    | (s, none) => pure (s, [])
    | (s, some page) =>
      let (s, rest) ← s.dequeueTimes queue n
      pure (s, page :: rest)

/-- What the lists are for: the two chains of each list are each other's reverse, its count
is right, a page names the list it is on, and iteration meets the oldest page first. -/
structure Represents (s : Links ι α) (seq : ι → List α) : Prop where
  forward : ∀ l, Chain s.next (s.first l) (seq l).reverse
  backward : ∀ l, Chain s.prev (s.last l) (seq l)
  numentries : ∀ l, s.numentries l = (seq l).length
  list : ∀ x l, s.list x = some l ↔ x ∈ seq l
  off : ∀ x, s.list x = none → s.next x = none ∧ s.prev x = none
  iterates : ∀ l, s.Iterates l none (seq l)
  vector : ∀ l n, s.dequeueFifoVector l n = s.dequeueTimes l n

omit [DecidableEq α] in
theorem Linked.iterates {p : Option α} (h : s.Linked o xs none) (hl : ∀ x ∈ xs, s.list x = some l)
    (hp : s.nextPage l p = some xs.head?) : s.Iterates l p xs := by
  induction xs generalizing o p with
  | nil => exact hp
  | cons x xs ih =>
    refine ⟨hp, ih h.2.2 (fun y hy => hl y (List.mem_cons_of_mem _ hy)) ?_⟩
    simp [nextPage, hl x List.mem_cons_self, h.2.1]

theorem dequeueFifoVector_eq_times (s : Links ι α) (l : ι) (n : Nat) :
    s.dequeueFifoVector l n = s.dequeueTimes l n := by
  induction n generalizing s with
  | zero => rfl
  | succ n ih =>
    cases hl : s.last l with
    | none => simp [dequeueFifoVector, dequeueTimes, dequeueFifo, hl]
    | some x =>
      cases hu : s.unlinkLast l x with
      | none => simp [dequeueFifoVector, dequeueTimes, dequeueFifo, hl, hu]
      | some s' => simp [dequeueFifoVector, dequeueTimes, dequeueFifo, hl, hu, ih s']

theorem Refines.represents (h : Refines s q) : s.Represents q.seq where
  forward l := by
    rw [h.first]
    exact (h.linked l).forward
  backward l := by
    rw [h.last]
    exact (h.linked l).backward
  numentries := h.numentries
  list x l := by rw [h.list, q.mem_iff]
  off x hx := h.off x (by rw [← h.list, hx])
  iterates l := by
    refine (h.linked l).iterates (fun x hx => ?_) ?_
    · rw [h.list, q.tag_of_mem hx]
    · exact congrArg some (h.last l)
  vector := s.dequeueFifoVector_eq_times

end

/-- One call on the lists. -/
inductive Call (ι α : Type) where
  | enqueue (queue : ι) (entry : α)
  | dequeue (queue : ι)
  | dequeueVector (queue : ι) (nrFetch : Nat)
  | tryremove (list : Option ι) (page : α)
  | remove (list : ι) (page : α)

/-- A page that is put on a list is on none, and one that is removed is on that list. -/
def Allowed (s : Links ι α) : Call ι α → Prop
  | .enqueue _ x => s.list x = none
  | .remove l x => s.list x = some l
  | _ => True

section
variable [DecidableEq α] [DecidableEq ι]

/-- A call with the pages it gives and the number it returns. -/
def exec (s : Links ι α) : Call ι α → Option (Links ι α × List α × Int)
  | .enqueue l x => (s.enqueueFifo l x).map fun s => (s, [], 0)
  | .dequeue l => (s.dequeueFifo l).map fun r => (r.1, r.2.toList, 0)
  | .dequeueVector l n => (s.dequeueFifoVector l n).map fun r => (r.1, r.2, r.2.length)
  | .tryremove l x => (s.pageListTryremovePage l x).map fun r => (r.1, [], r.2)
  | .remove l x => (s.pageListRemovePage l x).map fun s => (s, [], 0)

/-- Calls one after the other; none as soon as an assertion fails. -/
def execAll (s : Links ι α) : List (Call ι α) → Option (Links ι α × List (List α × Int))
  | [] => pure (s, [])
  | c :: calls => do
    let (s, a) ← s.exec c
    let (s, answers) ← s.execAll calls
    pure (s, a :: answers)

/-- Each call is allowed in the state in which it is made. -/
def Admissible (s : Links ι α) : List (Call ι α) → Prop
  | [] => True
  | c :: calls => s.Allowed c ∧ (s.exec c).elim True fun r => r.1.Admissible calls

end
end Links

namespace Queues
variable {ι α : Type} [DecidableEq α] [DecidableEq ι]

/-- What a call does to the queues and answers. -/
def exec (q : Queues ι α) : Links.Call ι α → Queues ι α × List α × Int
  | .enqueue l x => (q.enqueue l x, [], 0)
  | .dequeue l => ((q.dequeue l).1, (q.dequeue l).2.toList, 0)
  | .dequeueVector l n =>
    ((q.dequeueVector l n).1, (q.dequeueVector l n).2, (q.dequeueVector l n).2.length)
  | .tryremove l x => ((q.tryremove l x).1, [], (q.tryremove l x).2)
  | .remove _ x => (q.unlink x, [], 0)

def execAll (q : Queues ι α) : List (Links.Call ι α) → Queues ι α × List (List α × Int)
  | [] => (q, [])
  | c :: calls => (((q.exec c).1.execAll calls).1, (q.exec c).2 :: ((q.exec c).1.execAll calls).2)

end Queues

namespace Links
variable {ι α : Type} [DecidableEq α] [DecidableEq ι] {s : Links ι α} {q : Queues ι α}

/-- An allowed call fails no assertion, answers as the queues do and leaves such lists. -/
theorem Refines.exec (h : Refines s q) {c : Call ι α} (hc : s.Allowed c) :
    ∃ s', s.exec c = some (s', (q.exec c).2) ∧ Refines s' (q.exec c).1 := by
  cases c with
  | enqueue l x =>
    have hx : q.tag x = none := by rw [← h.list]; exact hc
    obtain ⟨s', he, hr⟩ := h.enqueueFifo (l := l) hx
    exact ⟨s', by simp [Links.exec, Queues.exec, he], hr⟩
  | dequeue l =>
    obtain ⟨s', he, hr⟩ := h.dequeueFifo l
    exact ⟨s', by simp [Links.exec, Queues.exec, he], hr⟩
  | dequeueVector l n =>
    obtain ⟨s', he, hr⟩ := h.dequeueFifoVector l n
    exact ⟨s', by simp [Links.exec, Queues.exec, he], hr⟩
  | tryremove l x =>
    obtain ⟨s', he, hr⟩ := h.pageListTryremovePage l x
    exact ⟨s', by simp [Links.exec, Queues.exec, he], hr⟩
  | remove l x =>
    have hx : q.tag x = some l := by rw [← h.list]; exact hc
    obtain ⟨s', he, hr⟩ := h.pageListRemovePage hx
    exact ⟨s', by simp [Links.exec, Queues.exec, he], hr⟩

theorem Refines.execAll (h : Refines s q) {calls : List (Call ι α)} (ha : s.Admissible calls) :
    ∃ s', s.execAll calls = some (s', (q.execAll calls).2) ∧ Refines s' (q.execAll calls).1 := by
  induction calls generalizing s q with
  | nil => exact ⟨s, rfl, h⟩
  | cons c calls ih =>
    obtain ⟨s₁, he, hr⟩ := h.exec ha.1
    obtain ⟨-, ha⟩ := ha
    rw [he] at ha
    obtain ⟨s', he', hr'⟩ := ih hr ha
    exact ⟨s', by simp [Links.execAll, Queues.execAll, he, he'], hr'⟩

/-- However the calls come, no assertion fails, the answers are those of a family of
queues, and the links represent these queues. -/
theorem fifo_lists_refine_queues {calls : List (Call ι α)}
    (h : (empty : Links ι α).Admissible calls) :
    ∃ s, (empty : Links ι α).execAll calls = some (s, (Queues.empty.execAll calls).2) ∧
      s.Represents (Queues.empty.execAll calls).1.seq := by
  obtain ⟨s, he, hr⟩ := refines_empty.execAll h
  exact ⟨s, he, hr.represents⟩

theorem fifo_lists_refine_queues_of_two :
    ∃ s, (empty : Links Bool Nat).execAll [.enqueue true 1, .enqueue true 2, .enqueue false 3,
        .dequeueVector true 5, .enqueue false 1, .remove false 3] =
        some (s, [([], 0), ([], 0), ([], 0), ([1, 2], 2), ([], 0), ([], 0)]) ∧ s.Represents fun l =>
        if l then [] else [1] := by
  have h : (empty : Links Bool Nat).Admissible [.enqueue true 1, .enqueue true 2, .enqueue false 3,
      .dequeueVector true 5, .enqueue false 1, .remove false 3] := by
    repeat'
      first
      | apply And.intro rfl
      | exact And.intro trivial trivial
      | apply And.intro trivial
      | exact trivial
  obtain ⟨s, he, hr⟩ := fifo_lists_refine_queues h
  refine ⟨s, he, ?_⟩
  convert hr with l
  cases l <;> rfl

end Links
end ExtMem
