import ExtMem.Serial.Snapshots

/-! Rounds of the scalar worker and a batch of the vector worker: what they do to page table,
disk and counters. -/
namespace ExtMem
open Threads Threads.Prog

variable {n : Nat} {frames : List Frame} {hand : PageId → Option Hand} {S : Nat → Bool}
  {i : Snapshot} {k k' : Skeleton}
  {d r : PageId} {e e' : Env} {α β : Type}

theorem Partner.unique (h : Partner k d r) {r' : PageId} (h' : Partner k d r') : r = r' := by
  cases hres : (k.page d).hasReserve with
  | true =>
    have h₁ := (h.reserve hres).1
    rw [(h'.reserve hres).1, Option.some.injEq] at h₁
    exact h₁.symm
  | false =>
    obtain ⟨xs, hs⟩ := h.oldest hres
    obtain ⟨ys, hs'⟩ := h'.oldest hres
    rw [hs] at hs'
    injection hs'

namespace Snapshot

/-- The eviction of one victim of a batch, whose descriptors are as they were before it. -/
def evictSlot (k : Skeleton) (i : Snapshot) (x : Slot) : Snapshot :=
  i.evict k x.victim x.diskpage x.writeback

/-- The decision about one victim is one that could be made. -/
def AdmitsSlot (k : Skeleton) (i : Snapshot) (x : Slot) : Prop :=
  i.Admits (k.page x.victim).va (k.page x.victim).hasReserve x.writeback

/-- Evictions one after the other, each from what the one before has made. -/
def evicts : Skeleton → Snapshot → List Slot → Snapshot
  | _, i, [] => i
  | k, i, x :: l => evicts (k.evictSlot x) (i.evictSlot k x) l

def AdmitsAll : Skeleton → Snapshot → List Slot → Prop
  | _, _, [] => True
  | k, i, x :: l => i.AdmitsSlot k x ∧ AdmitsAll (k.evictSlot x) (i.evictSlot k x) l

/-- Writing a page back changes the disk only. -/
theorem store_eq (i : Snapshot) (va offset : Nat) :
    ∃ disk, i.store va offset = { i with disk := disk } := by
  unfold store
  split
  · exact ⟨i.disk, rfl⟩
  · exact ⟨_, rfl⟩

theorem leave_eq (i : Snapshot) (va offset : Nat) (w : Bool) :
    ∃ disk, i.leave va offset w = (({ i with disk := disk } : Snapshot).drop va).count := by
  cases w with
  | true =>
    obtain ⟨disk, h⟩ := i.store_eq va offset
    exact ⟨disk, by rw [leave, if_pos rfl, h]⟩
  | false => exact ⟨i.disk, rfl⟩

theorem idle_evict {w : Bool} (h : i.Idle) : (i.evict k d r w).Idle := by
  obtain ⟨disk, hd⟩ := (i.decide d w).leave_eq (k.page d).va (k.page r).virtualOffset.offset w
  unfold evict
  rw [hd]
  exact ⟨h.sq, h.outstanding, h.sound⟩

/-- An eviction at another address says nothing about a page. -/
theorem pte_evict {w : Bool} {a : Nat} (ha : a ≠ (k.page d).va) :
    (i.evict k d r w).pte a = i.pte a ∧ (i.evict k d r w).spurious = i.spurious := by
  obtain ⟨disk, hd⟩ := (i.decide d w).leave_eq (k.page d).va (k.page r).virtualOffset.offset w
  unfold evict
  rw [hd]
  exact ⟨Function.update_of_ne ha _ _, rfl⟩

end Snapshot

/-- A round of the scalar worker is one eviction of the oldest page. -/
theorem after_round {ds : List PageId} (hk : e.sh.skeleton = k) (h : Whole n frames hand k)
    (hs : k.fifos.seq .evictionList = d :: ds) (hS : S (k.page d).va = true)
    (hi : e.snapshot S = i) (hidle : i.Idle) :
    After lrudiskEvictionworker e fun _ e' =>
        ∃ x : Slot, x.victim = d ∧ Partner (k.unlink d) d x.diskpage ∧ i.AdmitsSlot k x ∧
      e'.sh.skeleton = k.evictSlot x ∧ e'.snapshot S = i.evictSlot k x := by
  have hd : k.list d = some .evictionList := Whole.list_of_seq hs
  refine ((after_lrudiskEvictionworker hk fun d xs => h.bare).and
    (leaves_lrudiskEvictionworker hk hs hS (h.pt d (h.lt_of_list hd)) hi hidle)).mono
    fun _ e' ⟨he, r, w, hp, hw, hi'⟩ => ?_
  rcases he with ⟨hnone, -⟩ | ⟨d', ys, r', hs', hp', hk'⟩
  · rw [hs] at hnone
    cases hnone
  · rw [hs] at hs'
    cases hs'
    have hr := hp'.unique hp
    subst hr
    exact ⟨⟨d, (k.page d).virtualOffset, w, r'⟩, rfl, hp', hw, hk', hi'⟩

/-- After the eviction of the oldest page the others wait as they did. -/
theorem rest_evictSlot {x : Slot} {ds : List PageId}
    (hs : k.fifos.seq .evictionList = x.victim :: ds)
    (hp : Partner (k.unlink x.victim) x.victim x.diskpage) :
    (k.evictSlot x).fifos.seq .evictionList = ds ∧ ∀ v ∈ ds, (k.evictSlot x).page v = k.page v := by
  have hnodup := k.fifos.nodup .evictionList
  rw [hs] at hnodup
  have hr : x.diskpage ∉ ds := by
    intro hm
    have hlr : k.list x.diskpage = some .evictionList :=
      Queues.tag_of_mem (by rw [hs]; exact List.mem_cons_of_mem _ hm)
    have hl := hp.list
    rw [Skeleton.list_unlink, if_neg hp.ne, hlr] at hl
    split at hl <;> cases hl
  refine ⟨?_, fun v hv =>
    page_evictSlot k (fun hc => (List.nodup_cons.mp hnodup).1 (hc ▸ hv)) fun hc => hr (hc ▸ hv)⟩
  rw [seq_evictSlot k hp.ne, hs, List.erase_cons_head, List.erase_of_not_mem hr]
  simp

/-- Rounds of the scalar worker evict the oldest pages one by one. -/
theorem after_rounds (xs : List Nat) (hk : e.sh.skeleton = k) (h : Whole n frames hand k)
    (hlen : xs.length ≤ (k.fifos.seq .evictionList).length)
    (hS : ∀ v ∈ (k.fifos.seq .evictionList).take xs.length, S (k.page v).va = true)
    (hi : e.snapshot S = i) (hidle : i.Idle) :
    After (Prog.each (fun _ => lrudiskEvictionworker) xs) e fun _ e' => ∃ slots, Evictions k slots ∧
      slots.map (·.victim) = (k.fifos.seq .evictionList).take xs.length ∧
      e'.sh.skeleton = slots.foldl Skeleton.evictSlot k ∧ e'.snapshot S = i.evicts k slots ∧
      i.AdmitsAll k slots := by
  induction xs generalizing e k i with
  | nil => exact (after_pure _ _ _).mpr ⟨[], .nil k, rfl, hk, hi, trivial⟩
  | cons c xs ih =>
    cases hs : k.fifos.seq .evictionList with
    | nil =>
      rw [hs] at hlen
      exact absurd hlen (Nat.not_succ_le_zero _)
    | cons d ds =>
      have hdS : S (k.page d).va = true := hS d (by rw [hs]; exact List.mem_cons_self)
      refine after_then (after_round hk h hs hdS hi hidle) fun _ e' ⟨x, hxv, hp, hw, hk', hi'⟩ => ?_
      subst hxv
      obtain ⟨hseq, hpage⟩ := rest_evictSlot hs hp
      have hwx : Whole n frames hand (k.evictSlot x) := h.evict (Whole.list_of_seq hs) hp true
      refine (ih hk' hwx ?_ ?_ hi' (Snapshot.idle_evict hidle)).mono fun _ e'' hx => ?_
      · rw [hseq]
        rw [hs] at hlen
        exact Nat.le_of_succ_le_succ hlen
      · intro v hv
        rw [hseq] at hv
        have hvs := List.mem_of_mem_take hv
        rw [hpage v hvs]
        refine hS v ?_
        rw [hs]
        exact List.mem_cons_of_mem _ hv
      · obtain ⟨slots, hev, hv, hk'', hi'', hadm⟩ := hx
        refine ⟨x :: slots, .cons ds hs hp hev, ?_, hk'', hi'', hw, hadm⟩
        rw [List.map_cons, hv, hseq]
        rfl

/-! What a batch does in loops comes to the same. -/

/-- Two victims of a batch have nothing in common: no descriptor, no address, no frame. -/
structure Slot.Separate (k : Skeleton) (x y : Slot) : Prop where
  apart : x.Apart y
  va : (k.page x.victim).va ≠ (k.page y.victim).va
  offset : (k.page x.diskpage).virtualOffset.offset ≠ (k.page y.diskpage).virtualOffset.offset

namespace Snapshot

theorem evictSlot_evictSlot {x y : Slot} (h : x.Apart y) (i : Snapshot) :
    i.evictSlot (k.evictSlot x) y = i.evictSlot k y := by
  obtain ⟨h₁, h₂, h₃, h₄⟩ := h
  unfold evictSlot evict
  rw [page_evictSlot k h₁.symm h₂.symm, page_evictSlot k h₃.symm h₄.symm]

/-- The descriptors may all be read before the first eviction. -/
theorem evicts_eq {slots : List Slot} (h : slots.Pairwise Slot.Apart) (k : Skeleton)
    (i : Snapshot) : i.evicts k slots = slots.foldl (Snapshot.evictSlot k) i := by
  induction slots generalizing k i with
  | nil => rfl
  | cons x l ih =>
    obtain ⟨hx, hl⟩ := List.pairwise_cons.mp h
    rw [evicts, ih hl, List.foldl_cons]
    exact List.foldl_ext _ _ _ fun i y hy => evictSlot_evictSlot (hx y hy) i

theorem admitsSlot_of_all {slots : List Slot} (h : slots.Pairwise (Slot.Separate k))
    (hi : i.AdmitsAll k slots) : ∀ x ∈ slots, i.AdmitsSlot k x := by
  suffices hgen :
    ∀ (k' : Skeleton) (i' : Snapshot), (∀ x ∈ slots, k'.page x.victim = k.page x.victim) →
    (∀ x ∈ slots, i'.pte (k.page x.victim).va = i.pte (k.page x.victim).va) →
    i'.spurious = i.spurious → i'.AdmitsAll k' slots →
    ∀ x ∈ slots, i.AdmitsSlot k x from hgen k i (fun _ _ => rfl) (fun _ _ => rfl) rfl hi
  clear hi
  induction slots with
  | nil => exact fun _ _ _ _ _ _ _ hx => absurd hx List.not_mem_nil
  | cons y l ih =>
    intro k' i' hk hp hsp hi
    obtain ⟨hy, hl⟩ := List.pairwise_cons.mp h
    obtain ⟨hi₁, hi₂⟩ := hi
    have hrest :=
      ih hl (k'.evictSlot y) (i'.evictSlot k' y) (fun x hx => ?_) (fun x hx => ?_) ?_ hi₂
    · intro x hx
      rcases List.mem_cons.mp hx with rfl | hx
      · intro hs
        have hw := hi₁ (hsp.trans hs)
        unfold dirty at hw ⊢
        rwa [hk _ List.mem_cons_self, hp _ List.mem_cons_self] at hw
      · exact hrest x hx
    · obtain ⟨h₁, h₂, -, -⟩ := (hy x hx).apart
      rw [page_evictSlot k' h₁.symm h₂.symm]
      exact hk x (List.mem_cons_of_mem _ hx)
    · have hne : (k.page x.victim).va ≠ (k'.page y.victim).va := by
        rw [hk _ List.mem_cons_self]
        exact (hy x hx).va.symm
      rw [evictSlot, (pte_evict hne).1]
      exact hp x (List.mem_cons_of_mem _ hx)
    · obtain ⟨disk, hd⟩ := (i'.decide y.victim y.writeback).leave_eq (k'.page y.victim).va
        (k'.page y.diskpage).virtualOffset.offset y.writeback
      rw [evictSlot, evict, hd]
      exact hsp

def storeSlot (k : Skeleton) (i : Snapshot) (x : Slot) : Snapshot :=
  if x.writeback then i.store (k.page x.victim).va (k.page x.diskpage).virtualOffset.offset else i

private theorem storeSlot_comm {x y : Slot} (h : x.Separate k y) (i : Snapshot) :
    ((i.drop (k.page x.victim).va).count).storeSlot k y =
      ((i.storeSlot k y).drop (k.page x.victim).va).count := by
  unfold storeSlot
  split
  · unfold store
    rw [show ((i.drop (k.page x.victim).va).count).pte (k.page y.victim).va =
      i.pte (k.page y.victim).va from Function.update_of_ne h.va.symm _ _]
    split <;> rfl
  · rfl

private theorem storeSlot_decide {x : Slot} {d : PageId} {w : Bool} (i : Snapshot) :
    (i.storeSlot k x).decide d w = (i.decide d w).storeSlot k x := by
  unfold storeSlot
  split
  · unfold store
    rw [show (i.decide d w).pte = i.pte from rfl]
    split <;> rfl
  · rfl

/-- The loops of a batch may be made one. -/
theorem batch_eq {slots : List Slot} (h : slots.Pairwise (Slot.Separate k)) (i : Snapshot) :
    slots.foldl (fun i _ => i.count) (slots.foldl (fun i x => i.drop (k.page x.victim).va)
      (slots.foldl (storeSlot k) (slots.foldl (fun i x => i.decide x.victim x.writeback) i))) =
    slots.foldl (Snapshot.evictSlot k) i := by
  rw [foldl_fuse (f := fun (i : Snapshot) (_ : Slot) => i.count)
    (g := fun i x => i.drop (k.page x.victim).va) _ (h.imp fun _ _ => rfl)]
  rw [foldl_fuse (f := fun (i : Snapshot) x => (i.drop (k.page x.victim).va).count)
    (g := storeSlot k) _ (h.imp fun hxy i => storeSlot_comm hxy i)]
  rw [foldl_fuse (f := fun (i : Snapshot) x => ((i.storeSlot k x).drop (k.page x.victim).va).count)
    (g := fun i x => i.decide x.victim x.writeback) _ (h.imp fun {x y} hxy i => ?_)]
  · refine List.foldl_ext _ _ _ fun i x _ => ?_
    unfold evictSlot evict leave storeSlot
    split <;> rfl
  · show ((((i.storeSlot k x).drop _).count).decide y.victim y.writeback) = _
    rw [← storeSlot_decide]
    rfl

end Snapshot

end ExtMem
