import Mathlib.Logic.Function.Basic
import Mathlib.Data.List.Nodup
import Mathlib.Data.List.Range
import Mathlib.Logic.Equiv.Basic
import Mathlib.Tactic.Common

/-! A family of queues over one set of entries in which every entry has a tag that
names the queue it is on. The agreement of tags and queues is part of the type. -/
namespace ExtMem

/-- Queues named by `ι`, each with its oldest entry first. -/
structure Queues (ι α : Type) where
  seq : ι → List α
  tag : α → Option ι
  mem_iff : ∀ l x, x ∈ seq l ↔ tag x = some l
  nodup : ∀ l, (seq l).Nodup

namespace Queues
variable {ι α : Type}

def empty : Queues ι α where
  seq _ := []
  tag _ := none
  mem_iff _ _ := by simp
  nodup _ := List.nodup_nil

/-- The first numbers in order on one of the queues. -/
def counting [DecidableEq ι] (l : ι) (n : Nat) : Queues ι Nat where
  seq m := if m = l then List.range n else []
  tag x := if x < n then some l else none
  mem_iff := by
    intro m x
    by_cases hm : m = l
    · simp [hm]
    · simp [hm, Ne.symm hm]
  nodup := by
    intro m
    split
    · exact List.nodup_range
    · exact List.nodup_nil

theorem seq_counting [DecidableEq ι] (l : ι) (n : Nat) : (counting l n).seq l = List.range n :=
  if_pos rfl

theorem tag_of_mem {q : Queues ι α} {l : ι} {x : α} (h : x ∈ q.seq l) : q.tag x = some l :=
  (q.mem_iff l x).mp h

theorem tag_of_head {q : Queues ι α} {l : ι} {x : α} {xs : List α} (h : q.seq l = x :: xs) :
    q.tag x = some l := tag_of_mem (by rw [h]; exact List.mem_cons_self)

/-- The queues determine the tags. -/
theorem ext_seq {p q : Queues ι α} (h : ∀ l, p.seq l = q.seq l) : p = q := by
  have hs : p.seq = q.seq := funext h
  have ht : p.tag = q.tag := by
    funext x
    cases hp : p.tag x with
    | some l => exact ((q.mem_iff l x).mp (by rw [← hs]; exact (p.mem_iff l x).mpr hp)).symm
    | none =>
      cases hq : q.tag x with
      | none => rfl
      | some l =>
        rw [(p.mem_iff l x).mp (by rw [hs]; exact (q.mem_iff l x).mpr hq)] at hp
        cases hp
  cases p
  cases q
  cases hs
  cases ht
  rfl

variable [DecidableEq α]

/-- Remove an entry from the queue it is on, if any. -/
def unlink (q : Queues ι α) (x : α) : Queues ι α where
  seq m := (q.seq m).erase x
  tag := Function.update q.tag x none
  mem_iff := by
    intro m y
    rw [(q.nodup m).mem_erase_iff]
    by_cases hy : y = x
    · subst hy; simp
    · simp [hy, q.mem_iff]
  nodup m := (q.nodup m).erase x

@[simp] theorem tag_unlink (q : Queues ι α) (x y : α) :
    (q.unlink x).tag y = if y = x then none else q.tag y := by
  simp [unlink, Function.update_apply]

theorem seq_unlink (q : Queues ι α) (x : α) (m : ι) : (q.unlink x).seq m = (q.seq m).erase x := rfl

/-- Only the queue an entry is on changes when it is removed. -/
theorem seq_unlink_of_ne {q : Queues ι α} {x : α} {l m : ι} (h : q.tag x = some l) (hm : m ≠ l) :
    (q.unlink x).seq m = q.seq m := by
  rw [seq_unlink, List.erase_of_not_mem]
  intro hx
  rw [tag_of_mem hx, Option.some.injEq] at h
  exact hm h

theorem seq_unlink_head {q : Queues ι α} {x : α} {xs : List α} {l : ι} (h : q.seq l = x :: xs) :
    (q.unlink x).seq l = xs := by
  rw [seq_unlink, h, List.erase_cons_head]

theorem unlink_comm (q : Queues ι α) (x y : α) : (q.unlink x).unlink y = (q.unlink y).unlink x :=
  ext_seq fun _ => List.erase_comm x y

variable [DecidableEq ι]

/-- Append an entry that is on no queue; an entry that is on one stays where it is. -/
def enqueue (q : Queues ι α) (l : ι) (x : α) : Queues ι α :=
  if h : q.tag x = none then
    { seq := Function.update q.seq l (q.seq l ++ [x])
      tag := Function.update q.tag x (some l)
      mem_iff := by
        intro m y
        have hx : ∀ m, x ∉ q.seq m := fun m hm => by simp [(q.mem_iff m x).mp hm] at h
        by_cases hm : m = l <;> by_cases hy : y = x
        · subst hm hy; simp
        · subst hm; simp [hy, q.mem_iff]
        · subst hy; simp [hm, hx, Ne.symm hm]
        · simp [hm, hy, q.mem_iff]
      nodup := by
        intro m
        have hx : x ∉ q.seq l := fun hm => by simp [(q.mem_iff l x).mp hm] at h
        by_cases hm : m = l
        · subst hm
          simpa using (q.nodup m).concat hx
        · simpa [hm] using q.nodup m }
  else q

theorem tag_enqueue {q : Queues ι α} {x : α} (h : q.tag x = none) (l : ι) (y : α) :
    (q.enqueue l x).tag y = if y = x then some l else q.tag y := by
  simp [enqueue, h, Function.update_apply]

theorem seq_enqueue {q : Queues ι α} {x : α} (h : q.tag x = none) (l m : ι) :
    (q.enqueue l x).seq m = if m = l then q.seq l ++ [x] else q.seq m := by
  simp [enqueue, h, Function.update_apply]

/-- An entry may be removed before or after another one is put on a queue. -/
theorem unlink_enqueue {q : Queues ι α} {x y : α} (hx : q.tag x = none) (hxy : y ≠ x) (l : ι) :
    (q.enqueue l x).unlink y = (q.unlink y).enqueue l x := by
  have hx' : (q.unlink y).tag x = none := by rw [tag_unlink, if_neg hxy.symm, hx]
  refine ext_seq fun i => ?_
  rw [seq_unlink, seq_enqueue hx, seq_enqueue hx', seq_unlink, seq_unlink]
  split
  · by_cases hy : y ∈ q.seq l
    · rw [List.erase_append_left _ hy]
    · rw [List.erase_append_right _ hy, List.erase_of_not_mem hy,
        List.erase_of_not_mem (by simpa using hxy)]
  · rfl

/-- Entries may be put on different queues in either order. -/
theorem enqueue_comm {q : Queues ι α} {x y : α} {l m : ι} (hx : q.tag x = none)
    (hy : q.tag y = none) (hxy : x ≠ y) (hlm : l ≠ m) :
    (q.enqueue l x).enqueue m y = (q.enqueue m y).enqueue l x := by
  have hy' : (q.enqueue l x).tag y = none := by rw [tag_enqueue hx, if_neg (Ne.symm hxy), hy]
  have hx' : (q.enqueue m y).tag x = none := by rw [tag_enqueue hy, if_neg hxy, hx]
  refine ext_seq fun i => ?_
  simp only [seq_enqueue hy', seq_enqueue hx', seq_enqueue hx, seq_enqueue hy]
  by_cases hil : i = l
  · subst hil
    simp [hlm]
  · simp [hil, Ne.symm hlm]

end Queues

/-- Two entries of a table may be exchanged. -/
theorem perm_swap {α : Type} {n : Nat} {σ τ : Nat → α} {d f : Nat} (hd : d < n) (hf : f < n)
    (hdf : τ d = σ f) (hfd : τ f = σ d) (he : ∀ e, e ≠ d → e ≠ f → τ e = σ e) :
    ((List.range n).map τ).Perm ((List.range n).map σ) := by
  have hτ : τ = σ ∘ Equiv.swap d f := by
    funext e
    by_cases h₁ : e = d
    · subst h₁
      simp [hdf]
    · by_cases h₂ : e = f
      · subst h₂
        simp [hfd]
      · simp [Equiv.swap_apply_of_ne_of_ne h₁ h₂, he e h₁ h₂]
  rw [hτ, ← List.map_map]
  refine List.Perm.map _ ((List.perm_ext_iff_of_nodup ?_ List.nodup_range).mpr fun e => ?_)
  · exact List.nodup_range.map (Equiv.swap d f).injective
  · simp only [List.mem_map, List.mem_range]
    constructor
    · rintro ⟨e, he, rfl⟩
      by_cases h₁ : e = d
      · subst h₁
        simpa using hf
      · by_cases h₂ : e = f
        · subst h₂
          simpa using hd
        · rwa [Equiv.swap_apply_of_ne_of_ne h₁ h₂]
    · intro he
      refine ⟨Equiv.swap d f e, ?_, Equiv.swap_apply_self d f e⟩
      by_cases h₁ : e = d
      · subst h₁
        simpa using hf
      · by_cases h₂ : e = f
        · subst h₂
          simpa using hd
        · rwa [Equiv.swap_apply_of_ne_of_ne h₁ h₂]

end ExtMem
