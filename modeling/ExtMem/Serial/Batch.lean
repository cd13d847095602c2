import ExtMem.Serial.Fetch

/-! A batch of evictions, run alone, comes to single evictions one after the other. -/
namespace ExtMem
open Threads Threads.Prog

/-- Two passes over an array may be made as one if what the passes do to different elements
commutes. -/
theorem foldl_fuse {σ α : Type} {f g : σ → α → σ} {xs : List α} (s : σ)
    (h : xs.Pairwise fun x y => ∀ s, g (f s x) y = f (g s y) x) :
    xs.foldl f (xs.foldl g s) = xs.foldl (fun s x => f (g s x) x) s := by
  induction xs generalizing s with
  | nil => rfl
  | cons x xs ih =>
    obtain ⟨hx, hxs⟩ := List.pairwise_cons.mp h
    have hmove : ∀ (ys : List α), (∀ y ∈ ys, ∀ s, g (f s x) y = f (g s y) x) → ∀ s,
        f (ys.foldl g s) x = ys.foldl g (f s x) := by
      intro ys
      induction ys with
      | nil => exact fun _ _ => rfl
      | cons y ys ihy =>
        intro hy s
        rw [List.foldl_cons, List.foldl_cons, ihy (fun z hz => hy z (List.mem_cons_of_mem _ hz)),
          hy y List.mem_cons_self]
    rw [List.foldl_cons, List.foldl_cons, List.foldl_cons, hmove xs hx, ih _ hxs]

variable {n : Nat} {frames : List Frame} {hand : PageId → Option Hand} {k k' : Skeleton}
  {d r : PageId} {e : Env}

/-- What the first loop does to a victim, given that it is taken already. -/
def Skeleton.mark (k : Skeleton) (d : PageId) : Skeleton :=
  k.write d fun p => { p with migrating := true }

theorem after_dequeueVector {l : FifoList} {aux : PageId → Env → Env} {β : Type}
    {q : List PageId → Paging β} {Q : β → Env → Prop} (m : Nat) (hk : e.sh.skeleton = k)
    (haux : ∀ d e, (aux d e).sh.skeleton = e.sh.skeleton)
    (hq : ∀ e, e.sh.skeleton = ((k.fifos.seq l).take m).foldl Skeleton.unlink k →
      After (q ((k.fifos.seq l).take m)) e Q) :
    After (dequeueFifoVectorThen l m aux >>= q) e Q := by
  have hv : ∀ (m : Nat) (e : Env), let r := Threads.Ctx.dequeueVector l aux m e
      r.2 = (e.sh.skeleton.fifos.seq l).take m ∧
        r.1.sh.skeleton = ((e.sh.skeleton.fifos.seq l).take m).foldl Skeleton.unlink e.sh.skeleton := by
    intro m
    induction m with
    | zero =>
      exact fun e => ⟨by simp [Threads.Ctx.dequeueVector], by simp [Threads.Ctx.dequeueVector]⟩
    | succ m ih =>
      intro e
      unfold Threads.Ctx.dequeueVector
      split
      · next hs =>
        have hs' : e.sh.skeleton.fifos.seq l = [] := hs
        rw [hs']
        exact ⟨by simp, by simp⟩
      · next d xs hs =>
        have hs' : e.sh.skeleton.fifos.seq l = d :: xs := hs
        have hk' : (aux d (e.dequeue l d)).sh.skeleton = e.sh.skeleton.unlink d :=
          (haux _ _).trans rfl
        have hseq : (e.sh.skeleton.unlink d).fifos.seq l = xs := Queues.seq_unlink_head hs'
        obtain ⟨h₁, h₂⟩ := ih (aux d (e.dequeue l d))
        rw [hk', hseq] at h₁ h₂
        rw [hs']
        dsimp only
        rw [h₁, h₂]
        exact ⟨by simp, by simp⟩
  subst hk
  rw [after_bind]
  refine (after_atomic _ _ _).mpr fun xs e' he => ?_
  dsimp only at he
  cases he
  obtain ⟨h₁, h₂⟩ := hv m e
  rw [h₁]
  exact hq _ h₂

namespace Skeleton

/-- What the loops of the worker do to one victim and its disk descriptor. -/
def takeDisk (k : Skeleton) (x : Slot) : Skeleton := k.unlink x.diskpage

def move (k : Skeleton) (x : Slot) : Skeleton :=
  k.write x.victim fun p =>
    { p with virtualOffset := (k.page x.diskpage).virtualOffset, inDram := false }

def markOut (k : Skeleton) (x : Slot) : Skeleton :=
  k.write x.victim fun p => { p with swappedOut := true }

def finish (k : Skeleton) (x : Slot) : Skeleton :=
  (((k.write x.diskpage (·.emptied x.oldOffset)).write x.victim fun p => { p with
    migrating := false, swappedOut := true, hasReserve := false, reserve := none }).link
    .diskActiveList x.victim).link .dramFreeList x.diskpage

/-- All of it but for the end. -/
def depart (k : Skeleton) (x : Slot) : Skeleton :=
  ((((k.unlink x.victim).mark x.victim).takeDisk x).move x).markOut x

/-- The eviction of one victim by itself. -/
def evictSlot (k : Skeleton) (x : Slot) : Skeleton :=
  ((k.unlink x.victim).evict x.victim x.diskpage).link .dramFreeList x.diskpage

end Skeleton

/-- Two elements of a batch have no descriptor in common. -/
def Slot.Apart (x y : Slot) : Prop :=
  x.victim ≠ y.victim ∧ x.diskpage ≠ y.victim ∧ x.victim ≠ y.diskpage ∧ x.diskpage ≠ y.diskpage

section
variable {x y : Slot}

private theorem skeleton_ext {k k' : Skeleton} (hp : ∀ z, k.page z = k'.page z)
    (hf : k.fifos = k'.fifos) (h₁ : k.pages = k'.pages) (h₂ : k.vma = k'.vma)
    (h₃ : k.lock = k'.lock) (h₄ : k.shrinking = k'.shrinking)
    (h₅ : k.sizes = k'.sizes := by rfl) : k = k' := Skeleton.ext (funext hp) hf h₁ h₂ h₃ h₄ h₅

private theorem markOut_comm (h : x.Apart y) (k : Skeleton) :
    (((((k.markOut x).unlink y.victim).mark y.victim).takeDisk y).move y) =
      ((((k.unlink y.victim).mark y.victim).takeDisk y).move y).markOut x := by
  refine skeleton_ext (fun z => ?_) rfl rfl rfl rfl rfl
  by_cases h₁ : z = x.victim
  · subst h₁
    simp [Skeleton.markOut, Skeleton.mark, Skeleton.takeDisk, Skeleton.move, Skeleton.write,
      Skeleton.unlink, h.1]
  · by_cases h₂ : z = y.victim
    · subst h₂
      simp [Skeleton.markOut, Skeleton.mark, Skeleton.takeDisk, Skeleton.move, Skeleton.write,
        Skeleton.unlink, h.1.symm, Function.update_apply, h.2.2.1.symm]
    · simp [Skeleton.markOut, Skeleton.mark, Skeleton.takeDisk, Skeleton.move, Skeleton.write,
        Skeleton.unlink, h₁, h₂]

private theorem move_comm (h : x.Apart y) (k : Skeleton) :
    (((k.move x).unlink y.victim).mark y.victim).takeDisk y =
      (((k.unlink y.victim).mark y.victim).takeDisk y).move x := by
  refine skeleton_ext (fun z => ?_) rfl rfl rfl rfl rfl
  by_cases h₁ : z = x.victim
  · subst h₁
    simp [Skeleton.mark, Skeleton.takeDisk, Skeleton.move, Skeleton.write, Skeleton.unlink, h.1,
      h.2.1]
  · by_cases h₂ : z = y.victim
    · subst h₂
      simp [Skeleton.mark, Skeleton.takeDisk, Skeleton.move, Skeleton.write, Skeleton.unlink,
        h.1.symm]
    · simp [Skeleton.mark, Skeleton.takeDisk, Skeleton.move, Skeleton.write, Skeleton.unlink, h₁,
        h₂]

private theorem takeDisk_comm (k : Skeleton) :
    ((k.takeDisk x).unlink y.victim).mark y.victim =
      ((k.unlink y.victim).mark y.victim).takeDisk x :=
  skeleton_ext (fun _ => rfl) (Queues.unlink_comm k.fifos x.diskpage y.victim) rfl rfl rfl rfl

/-- The loops come to one pass over the batch. -/
theorem loops_depart (k : Skeleton) {slots : List Slot} (h : slots.Pairwise Slot.Apart) :
    slots.foldl Skeleton.markOut (slots.foldl Skeleton.move (slots.foldl Skeleton.takeDisk
      (slots.foldl (fun k x => k.mark x.victim) (slots.foldl (fun k x => k.unlink x.victim) k)))) =
      slots.foldl Skeleton.depart k := by
  rw [foldl_fuse (f := fun k x => Skeleton.mark k x.victim) k (h.imp fun _ _ => rfl),
    foldl_fuse (f := Skeleton.takeDisk) k (h.imp fun _ k => takeDisk_comm k),
    foldl_fuse (f := Skeleton.move) k (h.imp fun h k => move_comm h k),
    foldl_fuse (f := Skeleton.markOut) k (h.imp fun h k => markOut_comm h k)]
  rfl

/-- The end of one element does not meet what happened to another one. -/
private theorem finish_comm (h : x.Apart y) {k : Skeleton} (hv : k.list x.victim = none)
    (hr : k.list x.diskpage = none) (hne : x.diskpage ≠ x.victim) :
    (k.finish x).depart y = (k.depart y).finish x := by
  have hf : (k.finish x).fifos =
      (k.fifos.enqueue .diskActiveList x.victim).enqueue .dramFreeList x.diskpage := rfl
  refine skeleton_ext (fun z => ?_) ?_ rfl rfl rfl rfl
  · by_cases h₁ : z = x.victim
    · subst h₁
      simp [Skeleton.depart, Skeleton.markOut, Skeleton.mark, Skeleton.takeDisk, Skeleton.move,
        Skeleton.finish, Skeleton.write, Skeleton.unlink, Skeleton.link, h.1, hne.symm]
    · by_cases h₂ : z = x.diskpage
      · subst h₂
        simp [Skeleton.depart, Skeleton.markOut, Skeleton.mark, Skeleton.takeDisk, Skeleton.move,
          Skeleton.finish, Skeleton.write, Skeleton.unlink, Skeleton.link, h.2.1, hne]
      · by_cases h₃ : z = y.victim
        · subst h₃
          simp [Skeleton.depart, Skeleton.markOut, Skeleton.mark, Skeleton.takeDisk, Skeleton.move,
            Skeleton.finish, Skeleton.write, Skeleton.unlink, Skeleton.link, h.1.symm, h.2.1.symm,
            Function.update_apply, h.2.2.1.symm, h.2.2.2.symm]
        · simp [Skeleton.depart, Skeleton.markOut, Skeleton.mark, Skeleton.takeDisk, Skeleton.move,
            Skeleton.finish, Skeleton.write, Skeleton.unlink, Skeleton.link, h₁, h₂, h₃]
  · have hr' : (k.fifos.enqueue .diskActiveList x.victim).tag x.diskpage = none := by
      rw [Queues.tag_enqueue hv, if_neg hne]
      exact hr
    have hv₁ : (k.fifos.unlink y.victim).tag x.victim = none := by
      rw [Queues.tag_unlink, if_neg h.1]; exact hv
    have hr₁ :
        ((k.fifos.unlink y.victim).enqueue .diskActiveList x.victim).tag x.diskpage = none := by
      rw [Queues.tag_enqueue hv₁, if_neg hne, Queues.tag_unlink, if_neg h.2.1]
      exact hr
    show (((k.fifos.enqueue .diskActiveList x.victim).enqueue .dramFreeList x.diskpage).unlink
      y.victim).unlink y.diskpage =
      (((k.fifos.unlink y.victim).unlink y.diskpage).enqueue .diskActiveList x.victim).enqueue
      .dramFreeList x.diskpage
    rw [Queues.unlink_enqueue hr' h.2.1.symm, Queues.unlink_enqueue hv h.1.symm,
      Queues.unlink_enqueue hr₁ h.2.2.2.symm, Queues.unlink_enqueue hv₁ h.2.2.1.symm]

/-- One element from its start to its end is one eviction. -/
private theorem finish_depart {k : Skeleton} (hne : x.diskpage ≠ x.victim)
    (hoff : x.oldOffset = (k.page x.victim).virtualOffset) :
    (k.depart x).finish x = k.evictSlot x := by
  refine skeleton_ext (fun z => ?_) rfl rfl rfl rfl rfl
  by_cases h₁ : z = x.victim
  · subst h₁
    simp [Skeleton.depart, Skeleton.markOut, Skeleton.mark, Skeleton.takeDisk, Skeleton.move,
      Skeleton.finish, Skeleton.write, Skeleton.unlink, Skeleton.link, Skeleton.evictSlot,
      Skeleton.evict, UserPage.evicted, hne, hne.symm]
  · by_cases h₂ : z = x.diskpage
    · subst h₂
      simp [Skeleton.depart, Skeleton.markOut, Skeleton.mark, Skeleton.takeDisk, Skeleton.move,
        Skeleton.finish, Skeleton.write, Skeleton.unlink, Skeleton.link, Skeleton.evictSlot,
        Skeleton.evict, hne, hoff]
    · simp [Skeleton.depart, Skeleton.markOut, Skeleton.mark, Skeleton.takeDisk, Skeleton.move,
        Skeleton.finish, Skeleton.write, Skeleton.unlink, Skeleton.link, Skeleton.evictSlot,
        Skeleton.evict, h₁, h₂]

theorem page_depart (k : Skeleton) {z : PageId} (h : z ≠ x.victim) :
    (k.depart x).page z = k.page z := by
  simp [Skeleton.depart, Skeleton.markOut, Skeleton.mark, Skeleton.takeDisk, Skeleton.move,
    Skeleton.write, Skeleton.unlink, h]

theorem list_depart (k : Skeleton) (z : PageId) :
    (k.depart x).list z = if z = x.victim ∨ z = x.diskpage then none else k.list z := by
  show ((k.fifos.unlink x.victim).unlink x.diskpage).tag z = _
  rw [Queues.tag_unlink, Queues.tag_unlink]
  by_cases h₁ : z = x.diskpage
  · simp [h₁]
  · by_cases h₂ : z = x.victim
    · simp [h₂]
    · simp [h₁, h₂]
      rfl

end

/-- Evictions one after the other, each of the oldest page on the list. -/
inductive Evictions : Skeleton → List Slot → Prop where
  | nil (k : Skeleton) : Evictions k []
  | cons {k : Skeleton} {x : Slot} {l : List Slot} (ds : List PageId) :
    k.fifos.seq .evictionList = x.victim :: ds →
      Partner (k.unlink x.victim) x.victim x.diskpage → Evictions (k.evictSlot x) l →
        Evictions k (x :: l)

/-- What the second loop finds: a descriptor for one victim after the other. -/
inductive Partners : Skeleton → List Slot → Prop where
  | nil (k : Skeleton) : Partners k []
  | cons {k : Skeleton} {x : Slot} {l : List Slot} :
    Partner k x.victim x.diskpage → Partners (k.takeDisk x) l →
      Partners k (x :: l)

private theorem Partners.append {k : Skeleton} {l : List Slot} {x : Slot} (h : Partners k l)
    (hx : Partner (l.foldl Skeleton.takeDisk k) x.victim x.diskpage) : Partners k (l ++ [x]) := by
  induction h with
  | nil k => exact .cons hx (.nil _)
  | cons hp _ ih => exact .cons hp (ih hx)

/-- The descriptors found are on their lists and all different. -/
private theorem Partners.listed {k : Skeleton} {l : List Slot} (h : Partners k l) :
    (∀ x ∈ l, k.list x.diskpage ≠ none) ∧ (l.map (·.diskpage)).Nodup := by
  induction h with
  | nil k => exact ⟨by simp, List.nodup_nil⟩
  | @cons k x l hp _ ih =>
    have hx : k.list x.diskpage ≠ none := by
      rw [hp.list]
      split <;> simp
    have hl (y : Slot) (hy : y ∈ l) : y.diskpage ≠ x.diskpage ∧ k.list y.diskpage ≠ none := by
      have h := ih.1 y hy
      rw [Skeleton.takeDisk, Skeleton.list_unlink] at h
      by_cases he : y.diskpage = x.diskpage
      · rw [if_pos he] at h
        exact absurd rfl h
      · rw [if_neg he] at h
        exact ⟨he, h⟩
    refine ⟨fun y hy => ?_, List.nodup_cons.mpr ⟨fun hm => ?_, ih.2⟩⟩
    · rcases List.mem_cons.mp hy with rfl | hy
      · exact hx
      · exact (hl y hy).2
    · obtain ⟨y, hy, he⟩ := List.mem_map.mp hm
      exact (hl y hy).1 he

/-- What the loops read of the descriptors is what single evictions read. -/
private structure Agree (k k' : Skeleton) (l : List Slot) : Prop where
  victim : ∀ x ∈ l, (k.page x.victim).hasReserve = (k'.page x.victim).hasReserve ∧
    (k.page x.victim).reserve = (k'.page x.victim).reserve
  diskpage : ∀ x ∈ l, (k.page x.diskpage).reserve = (k'.page x.diskpage).reserve ∧
    k.list x.diskpage = k'.list x.diskpage
  free : k.fifos.seq .diskFreeList = k'.fifos.seq .diskFreeList

/-- A page on one list is on no other. -/
theorem not_mem_seq {l m : FifoList} (hl : k.list d = some l) (hne : l ≠ m) :
    d ∉ k.fifos.seq m := by
  intro hm
  have ht : k.list d = some m := Queues.tag_of_mem hm
  rw [hl] at ht
  exact hne (Option.some.inj ht)

theorem page_evictSlot {x : Slot} (k : Skeleton) {z : PageId} (h₁ : z ≠ x.victim)
    (h₂ : z ≠ x.diskpage) : (k.evictSlot x).page z = k.page z := by
  simp [Skeleton.evictSlot, Skeleton.evict, h₁, h₂]

private theorem fifos_evictSlot (k : Skeleton) (x : Slot) :
    (k.evictSlot x).fifos = (((k.fifos.unlink x.victim).unlink x.diskpage).enqueue .diskActiveList
      x.victim).enqueue .dramFreeList x.diskpage := rfl

theorem tags_evictSlot (k : Skeleton) {x : Slot} (hne : x.diskpage ≠ x.victim) :
    ((k.fifos.unlink x.victim).unlink x.diskpage).tag x.victim = none ∧
    (((k.fifos.unlink x.victim).unlink x.diskpage).enqueue .diskActiveList x.victim).tag
        x.diskpage = none := by
  have h : ((k.fifos.unlink x.victim).unlink x.diskpage).tag x.victim = none := by simp
  refine ⟨h, ?_⟩
  rw [Queues.tag_enqueue h, if_neg hne]
  simp

theorem list_evictSlot (k : Skeleton) {x : Slot} (hne : x.diskpage ≠ x.victim) (z : PageId) :
    (k.evictSlot x).list z = if z = x.diskpage then some .dramFreeList else if z = x.victim then
      some .diskActiveList else k.list z := by
  obtain ⟨h₁, h₂⟩ := tags_evictSlot k hne
  show (k.evictSlot x).fifos.tag z = _
  rw [fifos_evictSlot, Queues.tag_enqueue h₂, Queues.tag_enqueue h₁]
  by_cases hr : z = x.diskpage
  · rw [if_pos hr, if_pos hr]
  · rw [if_neg hr, if_neg hr]
    by_cases hv : z = x.victim
    · rw [if_pos hv, if_pos hv]
    · rw [if_neg hv, if_neg hv, Queues.tag_unlink, if_neg hr, Queues.tag_unlink, if_neg hv]
      rfl

theorem seq_evictSlot (k : Skeleton) {x : Slot} (hne : x.diskpage ≠ x.victim) (l : FifoList) :
    (k.evictSlot x).fifos.seq l = ((k.fifos.seq l).erase x.victim).erase x.diskpage ++
      (if l = .diskActiveList then [x.victim] else []) ++ if l = .dramFreeList then [x.diskpage]
      else [] := by
  obtain ⟨h₁, h₂⟩ := tags_evictSlot k hne
  rw [fifos_evictSlot, Queues.seq_enqueue h₂, Queues.seq_enqueue h₁]
  cases l <;> simp [Queues.seq_enqueue h₁, Queues.seq_unlink]

private theorem Agree.step {k k' : Skeleton} {x : Slot} {l : List Slot} (h : Agree k k' (x :: l))
    (hne : x.diskpage ≠ x.victim) (hv : k'.list x.victim = some .evictionList)
    (hapart : ∀ y ∈ l, x.Apart y) : Agree (k.takeDisk x) (k'.evictSlot x) l := by
  refine ⟨fun y hy => ?_, fun y hy => ?_, ?_⟩
  · obtain ⟨h₁, h₂, -, -⟩ := hapart y hy
    rw [page_evictSlot k' (Ne.symm h₁) (Ne.symm h₂)]
    exact h.victim y (List.mem_cons_of_mem _ hy)
  · obtain ⟨-, -, h₃, h₄⟩ := hapart y hy
    rw [page_evictSlot k' (Ne.symm h₃) (Ne.symm h₄), list_evictSlot k' hne, if_neg h₄.symm,
      if_neg h₃.symm, Skeleton.takeDisk, Skeleton.list_unlink, if_neg h₄.symm]
    exact h.diskpage y (List.mem_cons_of_mem _ hy)
  · have hnot : x.victim ∉ k'.fifos.seq .diskFreeList := not_mem_seq hv (by decide)
    rw [seq_evictSlot k' hne, if_neg (by decide), if_neg (by decide), List.append_nil,
      List.append_nil, List.erase_of_not_mem hnot, ← h.free]
    rfl

/-- The batch is a run of single evictions. -/
private theorem evictions_of_partners {k k' : Skeleton} {l : List Slot} {ds : List PageId}
    (hp : Partners k l) (hag : Agree k k' l) (hapart : l.Pairwise Slot.Apart)
    (hv : k'.fifos.seq .evictionList = l.map (·.victim) ++ ds) : Evictions k' l := by
  induction hp generalizing k' with
  | nil k => exact .nil k'
  | @cons k x l hx _ ih =>
    obtain ⟨hall, hl⟩ := List.pairwise_cons.mp hapart
    have hne := hx.ne
    have hv' : k'.fifos.seq .evictionList = x.victim :: (l.map (·.victim) ++ ds) := hv
    have hlv : k'.list x.victim = some .evictionList := Whole.list_of_seq hv'
    obtain ⟨hres, hresv⟩ := hag.victim x List.mem_cons_self
    obtain ⟨hresr, hlr⟩ := hag.diskpage x List.mem_cons_self
    have hseq (i : FifoList) (hi : i ≠ .evictionList) :
        (k'.unlink x.victim).fifos.seq i = k'.fifos.seq i := Queues.seq_unlink_of_ne hlv hi
    refine .cons (l.map (·.victim) ++ ds) hv' ⟨hne, ?_, fun h => ?_, fun h => ?_⟩
      (ih (hag.step hne hlv hall) hl ?_)
    · rw [Skeleton.list_unlink, if_neg hne, ← hlr, hx.list, hres]
      rfl
    · have h' : (k.page x.victim).hasReserve = true := by rw [hres]; exact h
      obtain ⟨h₁, h₂⟩ := hx.reserve h'
      exact ⟨by rw [← h₁, hresv]; rfl, by rw [← h₂, hresr]; rfl⟩
    · have h' : (k.page x.victim).hasReserve = false := by rw [hres]; exact h
      obtain ⟨xs, hxs⟩ := hx.oldest h'
      exact ⟨xs, by rw [hseq _ (by decide), ← hag.free, hxs]⟩
    · have hnot : x.diskpage ∉ l.map (·.victim) ++ ds := by
        intro hm
        have hm' : x.diskpage ∈ k'.fifos.seq .evictionList := by
          rw [hv']
          exact List.mem_cons_of_mem _ hm
        have ht : k'.list x.diskpage = some .evictionList := Queues.tag_of_mem hm'
        rw [← hlr, hx.list] at ht
        split at ht <;> cases ht
      rw [seq_evictSlot k' hne, hv', List.erase_cons_head, List.erase_of_not_mem hnot]
      simp

/-- The invariant over a run of evictions. -/
theorem Evictions.whole {l : List Slot} (h : Evictions k l) (hw : Whole n frames hand k) :
    Reclaimed n frames hand k (l.foldl Skeleton.evictSlot k) ∧
      (l.foldl Skeleton.evictSlot k).shrinking = k.shrinking := by
  induction h with
  | nil k => exact ⟨.refl hw, rfl⟩
  | @cons k x l ds hs hp _ ih =>
    have hl := Whole.list_of_seq hs
    have he := hw.evict hl hp true
    simp only [if_true] at he
    obtain ⟨hrec, -⟩ := reclaim_evict hw hl hp
    have hstep : Reclaimed n frames hand k (k.evictSlot x) :=
      ⟨he, hrec.pages, hrec.vma, hrec.lock, hrec.va, hrec.held⟩
    obtain ⟨h₁, h₂⟩ := ih he
    exact ⟨hstep.trans h₁, h₂.trans rfl⟩

/-! The program. -/

theorem page_marks (k : Skeleton) (ds : List PageId) (z : PageId) :
    ∃ b, (ds.foldl Skeleton.mark k).page z = { k.page z with migrating := b } := by
  induction ds generalizing k with
  | nil => exact ⟨(k.page z).migrating, rfl⟩
  | cons d ds ih =>
    obtain ⟨b, hb⟩ := ih (k.mark d)
    refine ⟨b, hb.trans ?_⟩
    by_cases hz : z = d
    · subst hz
      simp [Skeleton.mark]
    · rw [Skeleton.mark, Skeleton.page_write_of_ne _ _ hz]

private theorem list_unlinks (k : Skeleton) (ds : List PageId) (z : PageId) :
    (ds.foldl Skeleton.unlink k).list z = if z ∈ ds then none else k.list z := by
  induction ds generalizing k with
  | nil => simp
  | cons d ds ih =>
    rw [List.foldl_cons, ih, Skeleton.list_unlink]
    by_cases h₁ : z ∈ ds
    · simp [h₁]
    · by_cases h₂ : z = d
      · simp [h₂]
      · simp [h₁, h₂]

private theorem fifos_marks (k : Skeleton) (ds : List PageId) :
    (ds.foldl Skeleton.mark k).fifos = k.fifos := by
  induction ds generalizing k with
  | nil => rfl
  | cons d ds ih => exact ih (k.mark d)

theorem page_unlinks (k : Skeleton) (ds : List PageId) :
    (ds.foldl Skeleton.unlink k).page = k.page := by
  induction ds generalizing k with
  | nil => rfl
  | cons d ds ih => exact ih (k.unlink d)

theorem after_prepareVictim (hk : e.sh.skeleton = k) : After (prepareVictim d) e fun x e' =>
    x.1 = d ∧ x.2.1 = (k.page d).virtualOffset ∧ e'.sh.skeleton = k.mark d := by
  unfold prepareVictim
  refine after_setPage hk fun e hk =>
    after_field hk (after_still hk (by simp) fun wb e hk => (after_pure _ _ _).mpr ?_)
  exact ⟨rfl, by rw [Skeleton.page_write_self], hk⟩

theorem after_findDiskpage {x : PageId × Frame × Bool}
    (hk : e.sh.skeleton = k) (hv : k.list x.1 = none) :
    After (findDiskpage x) e fun y e' => y.victim = x.1 ∧ y.oldOffset = x.2.1 ∧
      Partner k x.1 y.diskpage ∧ e'.sh.skeleton = k.takeDisk y := by
  unfold findDiskpage
  refine after_field hk ?_
  have hne {r : PageId} {l : FifoList} (hl : k.list r = some l) : r ≠ x.1 := by
    rintro rfl
    rw [hv] at hl
    cases hl
  refine (after_ite _ _ _ _).mpr ⟨fun hres => ?_, fun hres => ?_⟩
  · refine after_then (after_takeReserve hk) fun r e' ⟨h₁, h₂, hl, hk'⟩ =>
      (after_pure _ _ _).mpr ⟨rfl, rfl, ?_, hk'⟩
    refine ⟨hne hl, ?_, fun _ => ⟨h₁, h₂⟩, fun h => ?_⟩
    · rw [if_pos hres, hl]
    · rw [h] at hres
      cases hres
  · refine after_then (after_takeDiskFree hk) fun r e' ⟨⟨xs, hs⟩, hk'⟩ =>
      (after_pure _ _ _).mpr ⟨rfl, rfl, ?_, hk'⟩
    have hl := Whole.list_of_seq hs
    exact ⟨hne hl, by rw [if_neg hres, hl], fun h => absurd h hres, fun _ => ⟨xs, hs⟩⟩

theorem after_moveSlot {x : Slot} (hk : e.sh.skeleton = k) :
    After (moveSlot x) e fun _ e' => e'.sh.skeleton = k.move x := by
  unfold moveSlot
  refine after_still hk (by simp) fun _ e hk =>
    after_field hk (after_setPage hk fun e hk => after_setPage hk fun e hk => ?_)
  refine (after_still_last hk (by simp)).mono fun _ e hk => ?_
  rw [hk, Skeleton.write_write]
  rfl

private theorem skeleton_markAllSwappedOut (l : List Slot) (e e' : Env)
    (h : markAllSwappedOut l e = .ok () e') :
    e'.sh.skeleton = l.foldl Skeleton.markOut e.sh.skeleton := by
  induction l generalizing e with
  | nil =>
    cases h
    rfl
  | cons x l ih =>
    unfold markAllSwappedOut at h
    have hx (e₁ : Env) (h₁ : markSwappedOut x.victim e = .ok () e₁) :
        e₁.sh.skeleton = e.sh.skeleton.markOut x := by
      unfold markSwappedOut at h₁
      split at h₁
      · cases h₁
      · split at h₁
        · cases h₁
          rfl
        · cases h₁
    split at h
    · next u e₁ he₁ =>
      rw [ih e₁ h, hx e₁ he₁]
      rfl
    · cases h
    · cases h

theorem after_downdiskVector {l : List Slot} (hk : e.sh.skeleton = k) :
    After (extmemMigrateDowndiskVector l) e fun _ e' =>
      e'.sh.skeleton = l.foldl Skeleton.markOut (l.foldl Skeleton.move k) := by
  unfold extmemMigrateDowndiskVector
  refine after_still hk (by simp) fun _ e hk => ?_
  refine after_still hk (always_collect fun x => still_prepareSlot x) fun written e hk => ?_
  refine after_still hk (within_submit transferring_still _) fun _ e hk =>
    after_still hk (always_each fun _ => within_wait transferring_still _) fun _ e hk => ?_
  refine after_still hk (always_each fun x => still_unmapSlot x) fun _ e hk => ?_
  refine after_then (after_each (fun todo e => ∃ done, done ++ todo = l ∧
    e.sh.skeleton = done.foldl Skeleton.move k) ⟨[], rfl, hk⟩ ?_) fun _ e ⟨done, hdone, hk⟩ => ?_
  · rintro x todo e ⟨done, hdone, hk⟩
    refine (after_moveSlot hk).mono fun _ e' hk' => ⟨done ++ [x], by simpa using hdone, ?_⟩
    rw [hk', List.foldl_append]
    rfl
  · rw [List.append_nil] at hdone
    subst hdone
    refine (after_atomic _ _ _).mpr fun u e' he => ?_
    rw [skeleton_markAllSwappedOut _ _ _ he, hk]

theorem after_finishSlot {x : Slot} (hk : e.sh.skeleton = k) (hne : x.diskpage ≠ x.victim)
    (hv : (k.page x.victim).hasReserve = false → (k.page x.victim).reserve = none)
    (hr : (k.page x.victim).hasReserve = false →
      (k.page x.diskpage).hasReserve = false ∧ (k.page x.diskpage).reserve = none) :
    After (finishSlot x) e fun _ e' => k.list x.victim = none ∧ k.list x.diskpage = none ∧
      e'.sh.skeleton = k.finish x := by
  unfold finishSlot
  refine after_field hk ((after_ite _ _ _ _).mpr ⟨fun hres => ?_, fun hres => ?_⟩)
  · refine after_then (after_giveFrame hk fun _ => rfl) fun _ e hk =>
      after_then (after_dropReserve hk) fun _ e hk => ?_
    refine after_enqueueThen hk (fun _ => rfl) fun hlr e hk =>
      after_enqueueThen hk (fun _ => rfl) fun hlv e hk => ?_
    rw [Skeleton.list_link hlr, if_neg hne.symm] at hlv
    refine (after_releaseVictim hk).mono fun _ e hk => ⟨hlv, hlr, ?_⟩
    have hlr' : k.fifos.tag x.diskpage = none := hlr
    have hlv' : k.fifos.tag x.victim = none := hlv
    rw [hk]
    refine skeleton_ext
      (fun z => ?_) (Queues.enqueue_comm hlr' hlv' hne (by decide)) rfl rfl rfl rfl
    by_cases h₁ : z = x.victim
    · subst h₁
      simp [Skeleton.write, Skeleton.link, Skeleton.finish, hne.symm]
    · by_cases h₂ : z = x.diskpage
      · subst h₂
        simp [Skeleton.write, Skeleton.link, Skeleton.finish, UserPage.emptied, hne]
      · simp [Skeleton.write, Skeleton.link, Skeleton.finish, h₁, h₂]
  · have hres' : (k.page x.victim).hasReserve = false := by simpa using hres
    obtain ⟨hr₁, hr₂⟩ := hr hres'
    refine after_still hk (by simp) fun _ e hk =>
      after_enqueueThen hk (fun _ => rfl) fun hlv e hk => ?_
    refine after_then (after_giveFrame hk fun _ => rfl) fun _ e hk =>
      after_enqueueThen hk (fun _ => rfl) fun hlr e hk => ?_
    rw [Skeleton.list_write, Skeleton.list_link hlv, if_neg hne] at hlr
    refine (after_releaseVictim hk).mono fun _ e hk => ⟨hlv, hlr, ?_⟩
    rw [hk]
    refine skeleton_ext (fun z => ?_) rfl rfl rfl rfl rfl
    by_cases h₁ : z = x.victim
    · subst h₁
      ext <;> simp [Skeleton.write, Skeleton.link, Skeleton.finish, hne.symm, hres', hv hres']
    · by_cases h₂ : z = x.diskpage
      · subst h₂
        ext <;>
          simp [Skeleton.write, Skeleton.link, Skeleton.finish, UserPage.emptied, hne, hr₁, hr₂]
      · simp [Skeleton.write, Skeleton.link, Skeleton.finish, h₁, h₂]

/-- Departures leave the reserves and the descriptors of the others alone. -/
theorem page_departs (k : Skeleton) (l : List Slot) (z : PageId) :
    ((l.foldl Skeleton.depart k).page z).hasReserve = (k.page z).hasReserve ∧
      ((l.foldl Skeleton.depart k).page z).reserve = (k.page z).reserve := by
  induction l generalizing k with
  | nil => exact ⟨rfl, rfl⟩
  | cons x l ih =>
    obtain ⟨h₁, h₂⟩ := ih (k.depart x)
    rw [List.foldl_cons, h₁, h₂]
    by_cases hz : z = x.victim
    · subst hz
      simp [Skeleton.depart, Skeleton.markOut, Skeleton.mark, Skeleton.takeDisk, Skeleton.move,
        Skeleton.write, Skeleton.unlink]
    · rw [page_depart k hz]
      exact ⟨rfl, rfl⟩

/-- The end of the first element may be moved to its start. -/
private theorem finish_departs {x : Slot} {l : List Slot} (hapart : ∀ y ∈ l, x.Apart y)
    (hne : x.diskpage ≠ x.victim) (hoff : x.oldOffset = (k.page x.victim).virtualOffset) :
    ((x :: l).foldl Skeleton.depart k).finish x = l.foldl Skeleton.depart (k.evictSlot x) := by
  have hmove : ∀ (l : List Slot) (k : Skeleton), (∀ y ∈ l, x.Apart y) →
      k.list x.victim = none → k.list x.diskpage = none →
      (l.foldl Skeleton.depart k).finish x = l.foldl Skeleton.depart (k.finish x) := by
    intro l
    induction l with
    | nil => exact fun _ _ _ _ => rfl
    | cons y l ih =>
      intro k hl hv hr
      have hy := hl y List.mem_cons_self
      rw [List.foldl_cons, List.foldl_cons, finish_comm hy hv hr hne]
      refine ih _ (fun z hz => hl z (List.mem_cons_of_mem _ hz)) ?_ ?_
      · rw [list_depart, hv]
        simp
      · rw [list_depart, hr]
        simp
  rw [List.foldl_cons, hmove l (k.depart x) hapart (by rw [list_depart]; simp)
    (by rw [list_depart]; simp), finish_depart hne hoff]

/-- What the last loop has still to do from a state in which the first victims are evicted. -/
structure Ending (n : Nat) (frames : List Frame) (hand : PageId → Option Hand) (k : Skeleton)
    (slots todo : List Slot) (e : Env) (k₁ : Skeleton) : Prop where
  whole : Whole n frames hand k₁
  evictions : Evictions k₁ todo
  apart : todo.Pairwise Slot.Apart
  offsets : ∀ x ∈ todo, x.oldOffset = (k₁.page x.victim).virtualOffset
  state : e.sh.skeleton = todo.foldl Skeleton.depart k₁
  whither : todo.foldl Skeleton.evictSlot k₁ = slots.foldl Skeleton.evictSlot k

theorem Ending.step {k₁ : Skeleton} {slots todo : List Slot} {x : Slot}
    (h : Ending n frames hand k slots (x :: todo) e k₁) :
    After (finishSlot x) e fun _ e' => ∃ k₂, Ending n frames hand k slots todo e' k₂ := by
  obtain ⟨hw, hev, hapart, hoff, hstate, hwhither⟩ := h
  cases hev with
  | @cons k x l ds hs hp hrest =>
  have hne := hp.ne
  have hlv := Whole.list_of_seq hs
  obtain ⟨hall, htail⟩ := List.pairwise_cons.mp hapart
  have hvp : (k₁.page x.victim).Resident := hw.fits hlv
  have hpage (z : PageId) := page_departs k₁ (x :: todo) z
  refine (after_finishSlot hstate hne (fun hr => ?_) fun hr => ?_).mono fun _ e' ⟨hv, hr, hk'⟩ =>
    ⟨k₁.evictSlot x, ?_⟩
  · rw [(hpage _).1, hvp.2.2.2.2.2.2] at hr
    rw [(hpage _).2]
    simpa using hr
  · rw [(hpage _).1] at hr
    have hlr : k₁.list x.diskpage = some .diskFreeList := by
      have hl := hp.list
      rw [Skeleton.list_unlink, if_neg hne, Skeleton.page_unlink, hr] at hl
      exact hl
    have hf : (k₁.page x.diskpage).Free false := hw.fits hlr
    rw [(hpage _).1, (hpage _).2]
    exact ⟨hf.2.2.2.1, hf.2.2.2.2⟩
  · have hwe := hw.evict hlv hp true
    simp only [if_true] at hwe
    refine ⟨hwe, hrest, htail, fun y hy => ?_, ?_, hwhither⟩
    · obtain ⟨h₁, h₂, -, -⟩ := hall y hy
      rw [page_evictSlot k₁ h₁.symm h₂.symm]
      exact hoff y (List.mem_cons_of_mem _ hy)
    · rw [hk', finish_departs hall hne (hoff x List.mem_cons_self)]

private theorem seq_marks_unlinks {ds : List PageId}
    {l : FifoList} (hds : ∀ d ∈ ds, k.list d ≠ some l) :
    (ds.foldl Skeleton.mark (ds.foldl Skeleton.unlink k)).fifos.seq l = k.fifos.seq l := by
  rw [fifos_marks]
  induction ds generalizing k with
  | nil => rfl
  | cons d ds ih =>
    rw [List.foldl_cons, ih fun x hx => ?_]
    · show (k.fifos.seq l).erase d = _
      refine List.erase_of_not_mem fun hm => hds d List.mem_cons_self (Queues.tag_of_mem hm)
    · rw [Skeleton.list_unlink]
      split
      · simp
      · exact hds x (List.mem_cons_of_mem _ hx)

/-- The first loop marks the victims and notes their frames. -/
theorem after_prepareVictims {vs : List PageId} (hk : e.sh.skeleton = vs.foldl Skeleton.unlink k) :
    After (Prog.collect prepareVictim vs) e fun prepared e' => prepared.map (·.1) = vs ∧
      (∀ x ∈ prepared, x.2.1 = (k.page x.1).virtualOffset) ∧
      e'.sh.skeleton = vs.foldl Skeleton.mark (vs.foldl Skeleton.unlink k) := by
  refine (after_collect (fun todo done e =>
    done.map (·.1) ++ todo = vs ∧ (∀ x ∈ done, x.2.1 = (k.page x.1).virtualOffset) ∧ e.sh.skeleton =
    (done.map (·.1)).foldl Skeleton.mark (vs.foldl Skeleton.unlink k)) ⟨rfl, by simp, hk⟩ ?_).mono
    fun prepared e' ⟨hvs, hoffs, hk⟩ => ?_
  · rintro d todo done e ⟨hd, hoff, hk⟩
    refine (after_prepareVictim hk).mono fun x e' ⟨hx₁, hx₂, hk'⟩ => ⟨?_, fun y hy => ?_, ?_⟩
    · rw [List.map_append, List.map_singleton, hx₁, List.append_assoc]
      exact hd
    · rcases List.mem_append.mp hy with hy | hy
      · exact hoff y hy
      · rw [List.mem_singleton] at hy
        subst hy
        obtain ⟨b, hb⟩ := page_marks (vs.foldl Skeleton.unlink k) (done.map (·.1)) d
        rw [hx₂, hx₁, hb, page_unlinks]
    · rw [hk', List.map_append, List.foldl_append, List.map_singleton, hx₁]
      rfl
  · rw [List.append_nil] at hvs
    rw [hvs] at hk
    exact ⟨hvs, hoffs, hk⟩

/-- The victims of a batch with the descriptors that were found for them. -/
structure Taken (k : Skeleton) (vs : List PageId) (slots : List Slot) (k' : Skeleton) : Prop where
  evictions : Evictions k slots
  victims : slots.map (·.victim) = vs
  apart : slots.Pairwise Slot.Apart
  offsets : ∀ x ∈ slots, x.oldOffset = (k.page x.victim).virtualOffset
  state : k' = slots.foldl Skeleton.takeDisk (vs.foldl Skeleton.mark (vs.foldl Skeleton.unlink k))

/-- The victims when they are marked. -/
theorem marked_of_unlinks {m : Nat} {vs : List PageId}
    (hvs : (k.fifos.seq .evictionList).take m = vs) :
    (∀ v ∈ vs, (vs.foldl Skeleton.mark (vs.foldl Skeleton.unlink k)).list v = none) ∧
    (∀ z, ∃ b, (vs.foldl Skeleton.mark (vs.foldl Skeleton.unlink k)).page z =
        { k.page z with migrating := b }) ∧
    (vs.foldl Skeleton.mark (vs.foldl Skeleton.unlink k)).fifos.seq .diskFreeList =
        k.fifos.seq .diskFreeList ∧ ∀ z, z ∉ vs →
      (vs.foldl Skeleton.mark (vs.foldl Skeleton.unlink k)).list z = k.list z := by
  have hlist (v : PageId) (hv : v ∈ vs) : k.list v = some .evictionList := by
    rw [← hvs] at hv
    exact Queues.tag_of_mem (List.mem_of_mem_take hv)
  refine ⟨fun v hv => ?_, fun z => ?_, seq_marks_unlinks fun d hd => by rw [hlist d hd]; simp,
    fun z hz => ?_⟩
  · show (vs.foldl Skeleton.mark (vs.foldl Skeleton.unlink k)).fifos.tag v = none
    rw [fifos_marks]
    show (vs.foldl Skeleton.unlink k).list v = none
    rw [list_unlinks, if_pos hv]
  · obtain ⟨b, hb⟩ := page_marks (vs.foldl Skeleton.unlink k) vs z
    exact ⟨b, by rw [hb, page_unlinks]⟩
  · show (vs.foldl Skeleton.mark (vs.foldl Skeleton.unlink k)).fifos.tag z = _
    rw [fifos_marks]
    show (vs.foldl Skeleton.unlink k).list z = _
    rw [list_unlinks, if_neg hz]

/-- The second loop finds a descriptor for each. -/
theorem after_findDiskpages {m : Nat} {vs : List PageId} {prepared : List (PageId × Frame × Bool)}
    (hvs : (k.fifos.seq .evictionList).take m = vs) (hvs' : prepared.map (·.1) = vs)
    (hoffs : ∀ x ∈ prepared, x.2.1 = (k.page x.1).virtualOffset)
    (hk : e.sh.skeleton = vs.foldl Skeleton.mark (vs.foldl Skeleton.unlink k)) :
    After (Prog.collect findDiskpage prepared) e fun slots e' =>
      Taken k vs slots e'.sh.skeleton := by
  have hnodup : vs.Nodup := by
    rw [← hvs]
    exact (k.fifos.nodup _).sublist (List.take_sublist _ _)
  obtain ⟨hout, hpage, hfree, hout'⟩ := marked_of_unlinks hvs
  generalize hk₂ :
    vs.foldl Skeleton.mark (vs.foldl Skeleton.unlink k) = k₂ at hk hout hpage hfree hout'
  refine (after_collect (fun todo done e =>
    done.map (·.victim) ++ todo.map (·.1) = vs ∧ (∀ x ∈ todo, x.2.1 = (k.page x.1).virtualOffset) ∧
    (∀ x ∈ done, x.oldOffset = (k.page x.victim).virtualOffset) ∧ Partners k₂ done ∧
    e.sh.skeleton = done.foldl Skeleton.takeDisk k₂) ⟨hvs', hoffs, by simp, .nil k₂, hk⟩ ?_).mono
    fun slots e' ⟨hvs₂, _, hold, hpart, hk⟩ => ?_
  · rintro x todo done e ⟨hd, hoff, hold, hpart, hk⟩
    have hxv : x.1 ∈ vs := by
      rw [← hd]
      simp
    have hnone : (done.foldl Skeleton.takeDisk k₂).list x.1 = none := by
      have hl : ∀ (l : List Slot) (k : Skeleton), k.list x.1 = none →
          (l.foldl Skeleton.takeDisk k).list x.1 = none := by
        intro l
        induction l with
        | nil => exact fun _ h => h
        | cons y l ih =>
          intro k hk
          refine ih _ ?_
          rw [Skeleton.takeDisk, Skeleton.list_unlink, hk]
          simp
      exact hl done k₂ (hout _ hxv)
    refine (after_findDiskpage hk hnone).mono fun y e' ⟨hy₁, hy₂, hp, hk'⟩ => ⟨?_, fun z hz =>
      hoff z (List.mem_cons_of_mem _ hz), fun z hz => ?_, hpart.append (by rw [hy₁]; exact hp), ?_⟩
    · rw [List.map_append, List.map_singleton, hy₁, List.append_assoc]
      exact hd
    · rcases List.mem_append.mp hz with hz | hz
      · exact hold z hz
      · rw [List.mem_singleton] at hz
        subst hz
        rw [hy₁, hy₂, hoff x List.mem_cons_self]
    · rw [hk', List.foldl_append]
      rfl
  rw [List.map_nil, List.append_nil] at hvs₂
  obtain ⟨hlisted, hrnodup⟩ := hpart.listed
  have hvmem (x : Slot) (hx : x ∈ slots) : x.victim ∈ vs := by
    rw [← hvs₂]
    exact List.mem_map_of_mem hx
  have hrv (x y : Slot) (hx : x ∈ slots) (hy : y ∈ slots) : x.diskpage ≠ y.victim := by
    intro he
    exact hlisted x hx (by rw [he]; exact hout _ (hvmem y hy))
  have hapart : slots.Pairwise Slot.Apart := by
    have hv : slots.Pairwise fun x y => x.victim ≠ y.victim := by
      rw [← hvs₂] at hnodup
      exact List.pairwise_map.mp hnodup
    have hr : slots.Pairwise fun x y => x.diskpage ≠ y.diskpage := List.pairwise_map.mp hrnodup
    refine (hv.and hr).imp_of_mem fun {x y} hx hy ⟨h₁, h₂⟩ =>
      ⟨h₁, hrv x y hx hy, (hrv y x hy hx).symm, h₂⟩
  have hev : Evictions k slots := by
    have hseq : k.fifos.seq .evictionList =
        slots.map (·.victim) ++ (k.fifos.seq .evictionList).drop m := by
      rw [hvs₂, ← hvs, List.take_append_drop]
    refine evictions_of_partners hpart ⟨fun x hx => ?_, fun x hx => ?_, hfree⟩ hapart hseq
    · obtain ⟨b, hb⟩ := hpage x.victim
      rw [hb]
      exact ⟨rfl, rfl⟩
    · obtain ⟨b, hb⟩ := hpage x.diskpage
      refine ⟨by rw [hb], hout' _ fun hm => ?_⟩
      exact hlisted x hx (hout _ hm)
  exact ⟨hev, hvs₂, hapart, hold, hk.trans (by rw [hk₂])⟩

/-- A batch evicts the oldest pages of the list one by one. -/
theorem after_lrudiskEvictionworkerVector (hk : e.sh.skeleton = k) (h : Whole n frames hand k) :
    After lrudiskEvictionworkerVector e fun _ e' => ∃ slots, Evictions k slots ∧
      slots.map (·.victim) = (k.fifos.seq .evictionList).take evictVectorSize ∧
      e'.sh.skeleton = slots.foldl Skeleton.evictSlot k := by
  unfold lrudiskEvictionworkerVector
  refine after_dequeueVector evictVectorSize hk (fun _ _ => rfl) fun e hk => ?_
  generalize hvs : (k.fifos.seq .evictionList).take evictVectorSize = vs at hk ⊢
  refine (after_ite _ _ _ _).mpr ⟨fun hnone => ?_, fun _ => ?_⟩
  · rw [List.isEmpty_iff.mp hnone] at hk ⊢
    exact (after_pure _ _ _).mpr ⟨[], .nil k, rfl, hk⟩
  refine after_then (after_prepareVictims hk) fun prepared e ⟨hvs', hoffs, hk⟩ => ?_
  refine after_then (after_findDiskpages hvs hvs' hoffs hk)
    fun slots e ⟨hev, hvs₂, hapart, hold, hk⟩ => ?_
  refine after_then (after_downdiskVector hk) fun _ e hk => ?_
  have hdep : e.sh.skeleton = slots.foldl Skeleton.depart k := by
    rw [hk, ← loops_depart k hapart, ← hvs₂]
    simp only [List.foldl_map]
  refine (after_each (fun todo e => ∃ k₁, Ending n frames hand k slots todo e k₁) ⟨k, h, hev,
    hapart, hold, hdep, rfl⟩ fun x todo e ⟨k₁, hk₁⟩ => hk₁.step).mono fun _ e' ⟨k₁, hk₁⟩ => ?_
  exact ⟨slots, hev, hvs₂, hk₁.state.trans hk₁.whither⟩

end ExtMem
