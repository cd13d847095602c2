import ExtMem.Serial.Conserved
import ExtMem.Serial.Reclaim

/-! Which accessed pages one scan of the inactive list puts on the eviction list. -/
namespace ExtMem
open Threads Threads.Prog

variable {d : PageId} {e e' e₁ e₂ : Env} {L : List PageId} {nr ret tries n : Nat}

/-- The page's accessed bit is set. -/
def Shared.accessed (s : Shared) (d : PageId) : Bool := s.accessedAt (s.page d).va

/-- The page is accessed, and its counter says that this is seen for the first time: the scan
puts it back on the inactive list. -/
def Shared.putBack (s : Shared) (d : PageId) : Bool :=
  s.accessed d && decide (add64 (s.page d).naccesses 1 ≤ 1)

/-- In its first round over the inactive list the scan has examined this many pages. -/
structure FirstRound (L : List PageId) (e : Env) (ret tries : Nat) (e' : Env) : Prop where
  queue : e'.sh.fifos.seq .inactiveList = L.drop tries ++ (L.take tries).filter e.sh.putBack
  count : ret = (L.take tries).countP fun d => !e.sh.accessed d
  va : ∀ d, (e'.sh.page d).va = (e.sh.page d).va
  fresh : ∀ d ∈ L.drop tries, e'.sh.accessed d = e.sh.accessed d ∧ e'.sh.page d = e.sh.page d
  cleared : ∀ d ∈ L.take tries, e'.sh.accessed d = false
  evicted : ∀ d, e'.sh.list d = some .evictionList →
    e.sh.list d = some .evictionList ∨ d ∈ L.take tries ∧ e.sh.accessed d = false
  spurious : e'.sh.spurious = false

private theorem seq_examined {acc : Bool} {xs : List PageId}
    (hs : e.sh.fifos.seq .inactiveList = d :: xs) (h : Examined d acc e e') :
    e'.sh.fifos.seq .inactiveList = xs ++ if verdict (e.sh.page d).naccesses acc =
      .inactiveList then [d] else [] := by
  rw [h.fifos, Queues.seq_enqueue (by simp), Queues.seq_unlink_head hs]
  by_cases hv : verdict (e.sh.page d).naccesses acc = .inactiveList
  · rw [if_pos hv.symm, if_pos hv, hv, Queues.seq_unlink_head hs]
  · rw [if_neg (Ne.symm hv), if_neg hv, List.append_nil]

private theorem list_examined {acc : Bool} (h : Examined d acc e e') (x : PageId) : e'.sh.list x =
    if x = d then some (verdict (e.sh.page d).naccesses acc) else e.sh.list x := by
  unfold Shared.list
  rw [h.fifos, Queues.tag_enqueue (by simp), Queues.tag_unlink]
  split <;> rfl

private theorem accessed_examined {acc : Bool} (h : Examined d acc e e') (x : PageId) :
    e'.sh.accessed x = if (e.sh.page x).va = (e.sh.page d).va then false else e.sh.accessed x := by
  unfold Shared.accessed
  rw [h.cleared, h.va]

/-- The examination of the next page of the first round. -/
theorem FirstRound.step {acc : Bool} {rest : List PageId} (h : FirstRound L e ret tries e₁)
    (hdrop : L.drop tries = d :: rest) (hnodup : L.Nodup)
    (hva : ∀ x ∈ L, ∀ y ∈ L, (e.sh.page x).va = (e.sh.page y).va → x = y)
    (hex : Examined d acc e₁ e₂) :
    FirstRound L e (if acc then ret else ret + 1) (tries + 1) e₂ := by
  have hdL : d ∈ L := List.mem_of_mem_drop (hdrop ▸ List.mem_cons_self)
  have htake : L.take (tries + 1) = L.take tries ++ [d] := by
    have hget : L[tries]? = some d := by
      rw [← List.head?_drop, hdrop, List.head?_cons]
    rw [List.take_add_one, hget]
    rfl
  have hrest : L.drop (tries + 1) = rest := by
    rw [← List.tail_drop, hdrop, List.tail_cons]
  obtain ⟨hfresh, hpage⟩ := h.fresh d (hdrop ▸ List.mem_cons_self)
  have hacc : acc = e.sh.accessed d := by
    rw [← hfresh]
    exact hex.exact h.spurious
  have hnac : (e₁.sh.page d).naccesses = (e.sh.page d).naccesses := by rw [hpage]
  have hout : ∀ x ∈ rest, x ≠ d := by
    rintro x hx rfl
    have hnd := hnodup.sublist (List.drop_sublist tries L)
    rw [hdrop] at hnd
    exact (List.nodup_cons.mp hnd).1 hx
  have hne : ∀ x ∈ rest, (e₁.sh.page x).va ≠ (e₁.sh.page d).va := by
    intro x hx heq
    rw [h.va, h.va] at heq
    exact hout x hx (hva x (List.mem_of_mem_drop (hrest ▸ hx)) d hdL heq)
  have hs := h.queue
  rw [hdrop, List.cons_append] at hs
  refine ⟨?_, ?_, fun x => (hex.va x).trans (h.va x), fun x hx => ?_, fun x hx => ?_,
    fun x hx => ?_, hex.rest.spurious.trans h.spurious⟩
  · rw [seq_examined hs hex, hrest, htake, List.filter_append, List.append_assoc, hnac]
    congr 2
    rw [hacc]
    unfold verdict Shared.putBack
    cases hb : e.sh.accessed d with
    | false => simp [hb]
    | true =>
      by_cases hgt : add64 (e.sh.page d).naccesses 1 > 1
      · simp [hb, hgt]
      · simp [hb, Nat.le_of_not_gt hgt, hgt]
  · rw [htake, List.countP_append, ← h.count, hacc]
    cases hb : e.sh.accessed d <;> simp [hb]
  · rw [hrest] at hx
    have hxd : x ∈ L.drop tries := by
      rw [hdrop]
      exact List.mem_cons_of_mem _ hx
    obtain ⟨h₁, h₂⟩ := h.fresh x hxd
    rw [accessed_examined hex, if_neg (hne x hx), hex.page, Function.update_of_ne (hout x hx)]
    exact ⟨h₁, h₂⟩
  · rw [htake, List.mem_append, List.mem_singleton] at hx
    rw [accessed_examined hex]
    rcases hx with hx | rfl
    · rw [h.cleared x hx]
      split <;> rfl
    · rw [if_pos rfl]
  · rw [list_examined hex] at hx
    rw [htake, List.mem_append, List.mem_singleton]
    by_cases hxd : x = d
    · subst hxd
      rw [if_pos rfl, hacc] at hx
      refine .inr ⟨.inr rfl, ?_⟩
      cases hb : e.sh.accessed x with
      | false => rfl
      | true =>
        rw [hb] at hx
        unfold verdict at hx
        split at hx
        · split at hx <;> cases hx
        · contradiction
    · rw [if_neg hxd] at hx
      rcases h.evicted x hx with h' | ⟨h₁, h₂⟩
      · exact .inl h'
      · exact .inr ⟨.inl h₁, h₂⟩

theorem FirstRound.start (hL : e.sh.fifos.seq .inactiveList = L) (hs : e.sh.spurious = false) :
    FirstRound L e 0 0 e where
  queue := by rw [hL, List.drop_zero, List.take_zero, List.filter_nil, List.append_nil]
  count := rfl
  va _ := rfl
  fresh _ _ := ⟨rfl, rfl⟩
  cleared _ h := by simp at h
  evicted _ h := .inl h
  spurious := hs

/-- What it takes for the scan to go round: after one examination of each page it still wants
pages, may still try and has put one back. -/
def GoesRound (L : List PageId) (nr : Nat) (s : Shared) : Prop :=
  (L.countP fun d => !s.accessed d) < nr ∧ L.length < nr * 100 ∧ ∃ d ∈ L, s.putBack d

/-- In its second round the scan has evicted a page that was put back in the first one. -/
def Denied (L : List PageId) (e e' : Env) : Prop :=
  ∃ d ∈ L, e.sh.accessed d ∧ e'.sh.list d = some .evictionList

private theorem FirstRound.denied {acc : Bool} {xs : List PageId}
    (h : FirstRound L e ret L.length e₁) (hret : ret < nr) (htries : L.length < nr * 100)
    (hs : e₁.sh.fifos.seq .inactiveList = d :: xs) (hex : Examined d acc e₁ e₂) :
    GoesRound L nr e.sh ∧ Denied L e e₂ := by
  have hq := h.queue
  rw [List.drop_length, List.take_length, List.nil_append, hs] at hq
  have hd : d ∈ L.filter e.sh.putBack := by
    rw [← hq]
    exact List.mem_cons_self
  obtain ⟨hdL, hback⟩ := List.mem_filter.mp hd
  have hcount := h.count
  rw [List.take_length] at hcount
  have hacc : acc = false := by
    have hclear := h.cleared d (by rwa [List.take_length])
    exact (hex.exact h.spurious).trans hclear
  refine ⟨⟨hcount ▸ hret, htries, d, hdL, hback⟩, d, hdL, ?_, ?_⟩
  · exact (Bool.and_eq_true_iff.mp hback).1
  · rw [list_examined hex, if_pos rfl, hacc]
    rfl

private theorem Denied.step {acc : Bool} {xs : List PageId} (h : Denied L e e₁)
    (hs : e₁.sh.fifos.seq .inactiveList = d :: xs) (hex : Examined d acc e₁ e₂) :
    Denied L e e₂ := by
  obtain ⟨x, hxL, hacc, hx⟩ := h
  have hne : x ≠ d := by
    rintro rfl
    have hin := e₁.sh.fifos.tag_of_head hs
    unfold Shared.list at hx
    rw [hin] at hx
    cases hx
  exact ⟨x, hxL, hacc, by rw [list_examined hex, if_neg hne, hx]⟩

/-- A scan is in its first round, or it has gone round and evicted a page it had put back. -/
theorem scan_rounds (h : InactiveScan nr e ret tries e₁)
    (hL : e.sh.fifos.seq .inactiveList = L) (hs : e.sh.spurious = false)
    (hva : ∀ x ∈ L, ∀ y ∈ L, (e.sh.page x).va = (e.sh.page y).va → x = y) :
    tries ≤ L.length ∧ FirstRound L e ret tries e₁ ∨ GoesRound L nr e.sh ∧ Denied L e e₁ := by
  induction h with
  | start => exact .inl ⟨Nat.zero_le _, .start hL hs⟩
  | @examine ret tries e₁ e₂ d xs acc _ hret htries hq hex ih =>
    rcases ih with ⟨hle, hfirst⟩ | ⟨hround, hdenied⟩
    · rcases Nat.lt_or_eq_of_le hle with hlt | heq
      · have hdrop : ∃ rest, L.drop tries = d :: rest := by
          have hqueue := hfirst.queue
          rw [hq] at hqueue
          cases hr : L.drop tries with
          | nil =>
            have := List.drop_eq_nil_iff.mp hr
            omega
          | cons y rest =>
            rw [hr, List.cons_append] at hqueue
            exact ⟨rest, by rw [(List.cons.inj hqueue).1]⟩
        obtain ⟨rest, hrest⟩ := hdrop
        have hnodup : L.Nodup := hL ▸ e.sh.fifos.nodup _
        exact .inl ⟨hlt, hfirst.step hrest hnodup hva hex⟩
      · subst heq
        exact .inr (hfirst.denied hret htries hq hex)
    · exact .inr ⟨hround, hdenied.step hq hex⟩

/-- A whole scan evicts an accessed page if and only if it goes round. -/
theorem shrunk_denies (h : ShrunkInactive n e ret e')
    (hL : e.sh.fifos.seq .inactiveList = L) (hs : e.sh.spurious = false)
    (hva : ∀ x ∈ L, ∀ y ∈ L, (e.sh.page x).va = (e.sh.page y).va → x = y) :
    (∀ d, e.sh.list d ≠ some .evictionList → e.sh.accessed d → e'.sh.list d ≠ some .evictionList) ↔
    ¬ GoesRound L (inactiveTarget n L.length) e.sh := by
  obtain ⟨tries, e₁, hscan, hover, rfl⟩ := h
  rw [hL] at hscan hover
  have hscanning : (e.scanning true).sh.fifos.seq .inactiveList = L := hL
  rcases scan_rounds hscan hscanning hs hva with ⟨hle, hfirst⟩ | ⟨hround, d, hdL, hacc, hd⟩
  · constructor
    · rintro - ⟨hcount, hlen, d, hdL, hback⟩
      have hret : ret ≤ L.countP fun d => !e.sh.accessed d := by
        rw [hfirst.count]
        exact (List.take_sublist tries L).countP_le
      rcases hover with h | h | h
      · omega
      · rw [hfirst.queue, List.append_eq_nil_iff, List.drop_eq_nil_iff] at h
        have hd : d ∈ (L.take tries).filter e.sh.putBack := by
          rw [List.take_of_length_le h.1]
          exact List.mem_filter.mpr ⟨hdL, hback⟩
        exact absurd (h.2 ▸ hd) List.not_mem_nil
      · omega
    · intro _ d hd hacc hev
      rcases hfirst.evicted d hev with h | ⟨-, h⟩
      · exact hd h
      · have hacc' : (e.scanning true).sh.accessed d = true := hacc
        rw [h] at hacc'
        cases hacc'
  · refine iff_of_false (fun h => ?_) (not_not_intro hround)
    refine h d ?_ hacc hd
    intro hev
    have hin := (e.sh.fifos.mem_iff _ _).mp (hL ▸ hdL)
    unfold Shared.list at hev
    rw [hin] at hev
    cases hev

/-- One call of the scan leaves every accessed page off the eviction list if and only if it does
not go round its list: the second look at a page finds the bit cleared by the first. -/
theorem second_chance_iff {nrPages : Nat} (hs : e.sh.spurious = false)
    (hal : ∀ d, e.sh.inUse d → (e.sh.page d).va % pageSize = 0)
    (hva : ∀ x ∈ e.sh.fifos.seq .inactiveList,
      ∀ y ∈ e.sh.fifos.seq .inactiveList, (e.sh.page x).va = (e.sh.page y).va → x = y) :
    Total (shrinkInactiveList nrPages) e (fun _ e' => ∀ d, e.sh.list d ≠ some .evictionList →
        e.sh.accessed d → e'.sh.list d ≠ some .evictionList) ↔
      ¬ GoesRound (e.sh.fifos.seq .inactiveList)
        (inactiveTarget nrPages (e.sh.fifos.seq .inactiveList).length) e.sh := by
  constructor
  · intro h
    obtain ⟨ret, e', hrun, hkeep⟩ := h.runs
    exact (shrunk_denies (after_shrinkInactive ret e' hrun) rfl hs hva).mp hkeep
  · intro h
    refine (total_shrinkInactiveList scanKeeps_aligned (fun _ _ => trivial) hal).strengthen ?_
    exact after_shrinkInactive.mono fun ret e' hscan => (shrunk_denies hscan rfl hs hva).mpr h

private theorem inj_of_nodup_va {L : List PageId} {s : Shared}
    (h : (L.map fun d => (s.page d).va).Nodup) :
    ∀ x ∈ L, ∀ y ∈ L, (s.page x).va = (s.page y).va → x = y :=
  fun _ hx _ hy => List.inj_on_of_nodup_map h hx hy

private theorem va_filled :
    ∀ x ∈ filledMachine.sh.fifos.seq .inactiveList, ∀ y ∈ filledMachine.sh.fifos.seq .inactiveList,
      (filledMachine.sh.page x).va = (filledMachine.sh.page y).va → x = y := by
  have hnodup : ((filledMachine.sh.fifos.seq .inactiveList).map fun d =>
      (filledMachine.sh.page d).va).Nodup := by
    decide +kernel
  exact inj_of_nodup_va hnodup

theorem second_chance_iff_filled :
    Total (shrinkInactiveList 1) filledMachine (fun _ e' => ∀ d, filledMachine.sh.list d ≠
        some .evictionList → filledMachine.sh.accessed d → e'.sh.list d ≠ some .evictionList) ↔
      ¬ GoesRound (filledMachine.sh.fifos.seq .inactiveList)
        (inactiveTarget 1 (filledMachine.sh.fifos.seq .inactiveList).length) filledMachine.sh := by
  have hs : filledMachine.sh.spurious = false := by decide +kernel
  have hal : ∀ d ∈ filledMachine.sh.used, (filledMachine.sh.page d).va % pageSize = 0 := by
    decide +kernel
  exact second_chance_iff hs (fun d hd => hal d ((mem_used _ _).mpr hd)) va_filled

/-- Two pages that were loaded from once are on the inactive list. A scan for one page puts both
back and evicts the first at its second look. -/
theorem accessed_page_evicted :
    filledMachine.sh.spurious = false ∧
    ∃ d e', filledMachine.sh.list d = some .inactiveList ∧ filledMachine.sh.accessed d = true ∧
      (∃ ret, Runs (shrinkInactiveList 1) filledMachine ret e') ∧
      e'.sh.list d = some .evictionList := by
  have hend : (exec 100 [] (shrinkInactiveList 1) filledMachine).any
      (fun r => decide (r.2.sh.list 0 = some .evictionList)) = true := by decide +kernel
  obtain ⟨⟨ret, e'⟩, he, hl⟩ := (Option.any_eq_true ..).mp hend
  refine ⟨by decide +kernel, 0, e', by decide +kernel, by decide +kernel, ⟨ret, exec_runs he⟩,
    of_decide_eq_true hl⟩

end ExtMem
