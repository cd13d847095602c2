import ExtMem.PageRank
import ExtMem.Serial.Reclaim

/-! Which pages one scan of the PageRank policy puts on the eviction list. -/
namespace ExtMem.PageRank
open Threads Threads.Prog

variable {s nr ret tries : Nat} {d : PageId} {L xs : List PageId} {k k₀ k' : Skeleton} {e e' : Env}

/-- The protection the policy is for: the addresses around the page at `s` and that page. -/
def Protected (s va : Nat) : Prop :=
  s < va + 32 * 4096 * 4096 ∧ va < s + pagerankWindowSize + 512 * 4096

/-- The scan's check misses one address of the protection. -/
theorem inWindow_iff {va : Nat} : inWindow s va = true ↔ Protected s va ∧ va ≠ s := by
  unfold inWindow Protected
  simp only [Bool.or_eq_true, Bool.and_eq_true, decide_eq_true_eq]
  unfold pagerankWindowSize
  omega

/-- The scan keeps this page. -/
def kept (s : Nat) (k : Skeleton) (d : PageId) : Bool := inWindow s (k.page d).va

/-- What the scan has done after some tries. All it still meets after its first round it keeps. -/
structure WindowScan (s nr : Nat) (L : List PageId) (k₀ : Skeleton) (ret tries : Nat)
    (k : Skeleton) : Prop where
  page : k.page = k₀.page
  queue : tries ≤ L.length ∧
    k.fifos.seq .inactiveList = L.drop tries ++ (L.take tries).filter (kept s k₀) ∧
      ret = (L.take tries).countP (fun d => !kept s k₀ d) ∨
    L.length ≤ tries ∧ ∀ d ∈ k.fifos.seq .inactiveList, kept s k₀ d = true
  evicted : ∀ d, k.list d = some .evictionList ↔
    k₀.list d = some .evictionList ∨ d ∈ L.take tries ∧ kept s k₀ d = false
  live : ∀ j < tries, j < L.length → (L.take j).countP (fun d => !kept s k₀ d) < nr ∧ j < nr * 100

theorem WindowScan.start (hL : k.fifos.seq .inactiveList = L) : WindowScan s nr L k 0 0 k where
  page := rfl
  queue := .inl ⟨Nat.zero_le _, by simp [hL], rfl⟩
  evicted d := by simp
  live j hj := absurd hj (Nat.not_lt_zero j)

/-- Where a page of the inactive list goes. -/
private def sent (s : Nat) (k : Skeleton) (d : PageId) : FifoList :=
  if kept s k d then .inactiveList else .evictionList

private theorem list_sent {l : FifoList} (x : PageId) :
    ((k.unlink d).link l d).list x = if x = d then some l else k.list x := by
  rw [Skeleton.list_link (by simp), Skeleton.list_unlink]
  split <;> rfl

private theorem seq_sent (hs : k.fifos.seq .inactiveList = d :: xs) (l : FifoList) :
    ((k.unlink d).link l d).fifos.seq .inactiveList = xs ++ if l = .inactiveList then [d]
      else [] := by
  have hnone : (k.fifos.unlink d).tag d = none := by simp
  show ((k.fifos.unlink d).enqueue l d).seq .inactiveList = _
  rw [Queues.seq_enqueue hnone, Queues.seq_unlink_head hs]
  by_cases hl : l = .inactiveList
  · rw [if_pos hl.symm, if_pos hl, hl, Queues.seq_unlink_head hs]
  · rw [if_neg (Ne.symm hl), if_neg hl, List.append_nil]

/-- The next page of the first round. -/
private theorem WindowScan.first {rest : List PageId} (h : WindowScan s nr L k₀ ret tries k)
    (hL : k₀.fifos.seq .inactiveList = L) (hdrop : L.drop tries = d :: rest)
    (hq : k.fifos.seq .inactiveList = L.drop tries ++ (L.take tries).filter (kept s k₀))
    (hcount : ret = (L.take tries).countP (fun d => !kept s k₀ d))
    (hret : ret < nr) (htries : tries < nr * 100) :
    WindowScan s nr L k₀ (if kept s k₀ d then ret else ret + 1) (tries + 1)
      ((k.unlink d).link (sent s k₀ d) d) := by
  have hget : L[tries]? = some d := by
    rw [← List.head?_drop, hdrop, List.head?_cons]
  have htake : L.take (tries + 1) = L.take tries ++ [d] := by
    rw [List.take_add_one, hget]
    rfl
  have hrest : L.drop (tries + 1) = rest := by
    rw [← List.tail_drop, hdrop, List.tail_cons]
  have hlt : tries < L.length := (List.getElem?_eq_some_iff.mp hget).1
  have hdL : k₀.list d = some .inactiveList :=
    (k₀.fifos.mem_iff _ _).mp (hL ▸ List.mem_of_mem_drop (hdrop ▸ List.mem_cons_self))
  rw [hdrop, List.cons_append] at hq
  refine ⟨h.page, .inl ⟨hlt, ?_, ?_⟩, fun x => ?_, fun j hj hjn => ?_⟩
  · rw [seq_sent hq, hrest, htake, List.filter_append, List.append_assoc]
    unfold sent
    cases hk : kept s k₀ d <;> simp [hk]
  · rw [htake, List.countP_append, ← hcount]
    cases hk : kept s k₀ d <;> simp [hk]
  · rw [list_sent, htake, List.mem_append, List.mem_singleton]
    by_cases hxd : x = d
    · subst hxd
      rw [if_pos rfl, hdL]
      unfold sent
      cases hk : kept s k₀ x <;> simp
    · rw [if_neg hxd, h.evicted]
      simp [hxd]
  · rcases Nat.lt_succ_iff_lt_or_eq.mp hj with hj | rfl
    · exact h.live j hj hjn
    · exact ⟨hcount ▸ hret, htries⟩

/-- A page met again is put back again. -/
private theorem WindowScan.again (h : WindowScan s nr L k₀ ret tries k)
    (hs : k.fifos.seq .inactiveList = d :: xs) (hle : L.length ≤ tries)
    (hall : ∀ x ∈ k.fifos.seq .inactiveList, kept s k₀ x = true) :
    WindowScan s nr L k₀ (if kept s k₀ d then ret else ret + 1) (tries + 1)
      ((k.unlink d).link (sent s k₀ d) d) := by
  have hkept : kept s k₀ d = true := hall d (hs ▸ List.mem_cons_self)
  have hsent : sent s k₀ d = .inactiveList := if_pos hkept
  have htake : L.take (tries + 1) = L.take tries := by
    rw [List.take_of_length_le hle, List.take_of_length_le (Nat.le_succ_of_le hle)]
  have hin : k.list d = some .inactiveList := k.fifos.tag_of_head hs
  rw [hsent]
  refine ⟨h.page, .inr ⟨Nat.le_succ_of_le hle, fun x hx => ?_⟩, fun x => ?_,
    fun j hj hjn => h.live j ?_ hjn⟩
  · rw [seq_sent hs, if_pos rfl, List.mem_append, List.mem_singleton] at hx
    rcases hx with hx | rfl
    · exact hall x (hs ▸ List.mem_cons_of_mem _ hx)
    · exact hkept
  · rw [list_sent, htake, ← h.evicted]
    by_cases hxd : x = d
    · rw [if_pos hxd, hxd, hin]
    · rw [if_neg hxd]
  · omega

/-- The examination of the next page. -/
theorem WindowScan.step (h : WindowScan s nr L k₀ ret tries k) (hL : k₀.fifos.seq .inactiveList = L)
    (hs : k.fifos.seq .inactiveList = d :: xs) (hret : ret < nr) (htries : tries < nr * 100) :
    WindowScan s nr L k₀ (if kept s k₀ d then ret else ret + 1) (tries + 1)
      ((k.unlink d).link (sent s k₀ d) d) := by
  rcases h.queue with ⟨hle, hq, hcount⟩ | ⟨hle, hall⟩
  · cases hdrop : L.drop tries with
    | nil =>
      have hlen := List.drop_eq_nil_iff.mp hdrop
      refine h.again hs hlen fun x hx => ?_
      rw [hq, hdrop, List.nil_append] at hx
      exact (List.mem_filter.mp hx).2
    | cons y rest =>
      have hy : y = d := by
        rw [hq, hdrop, List.cons_append] at hs
        exact (List.cons.inj hs).1
      subst hy
      exact h.first hL hdrop hq hcount hret htries
  · exact h.again hs hle hall

/-- The scan stops when it has enough pages, has run out of them or has tried too often. -/
def WindowScanned (s nr : Nat) (L : List PageId) (k₀ k : Skeleton) : Prop :=
  ∃ ret tries, WindowScan s nr L k₀ ret tries k ∧
    (nr ≤ ret ∨ k.fifos.seq .inactiveList = [] ∨ nr * 100 ≤ tries)

private theorem total_scanWindowPage (hpage : k.page = k₀.page)
    (hk : e.sh.skeleton = k.unlink d) : Total (scanWindowPage s d) e fun evicted e' =>
      evicted = !kept s k₀ d ∧ e'.sh.skeleton = (k.unlink d).link (sent s k₀ d) d := by
  unfold scanWindowPage
  refine total_field hk fun e hk => ?_
  have hva : inWindow s ((k.unlink d).page d).va = kept s k₀ d := by
    rw [kept, ← hpage]
    rfl
  rw [hva]
  have hsent : kept s k₀ d = true → sent s k₀ d = .inactiveList := fun h => if_pos h
  have hsent' : kept s k₀ d = false → sent s k₀ d = .evictionList := fun h => if_neg (by simp [h])
  cases hkept : kept s k₀ d with
  | false => exact total_enqueue hk (by simp) fun e hk => .ret ⟨rfl, by rw [hk, hsent' hkept]⟩
  | true => exact total_enqueue hk (by simp) fun e hk => .ret ⟨rfl, by rw [hk, hsent hkept]⟩

theorem total_scanLoop (hL : k₀.fifos.seq .inactiveList = L) (hk : e.sh.skeleton = k₀) :
    Total (scanLoop (scanWindowPage s) nr) e fun _ e' =>
      WindowScanned s nr L k₀ e'.sh.skeleton := by
  refine total_loop (fun x e => WindowScan s nr L k₀ x.1 x.2 e.sh.skeleton)
    (fun x => nr * 100 - x.2) ?_ (by rw [hk]; exact .start hL)
  rintro ⟨ret, tries⟩ e he
  refine total_numentries rfl fun e' hk => ?_
  split
  · next hc =>
    refine total_dequeueThen hk (fun _ _ => rfl) (fun hs => ?_) fun d xs hs e'' hk' => ?_
    · rw [hs] at hc
      exact absurd hc.2.1 (Nat.lt_irrefl _)
    · refine (total_scanWindowPage he.page hk').bind ?_
      rintro evicted e₂ ⟨rfl, hk₂⟩
      refine .ret (.inl ⟨_, rfl, ?_, ?_⟩)
      · rw [hk₂]
        have hstep := he.step hL hs hc.1 hc.2.2
        cases hkept : kept s k₀ d <;> (rw [hkept] at hstep; exact hstep)
      · show nr * 100 - (tries + 1) < nr * 100 - tries
        omega
  · next hc =>
    refine .ret (.inr ⟨_, rfl, ret, tries, by rw [hk]; exact he, ?_⟩)
    rw [hk, ← List.length_eq_zero_iff]
    omega

theorem total_shrinkInactiveList {nrPages : Nat} (h0 : s ≠ 0) :
    Total (shrinkInactiveList s nrPages) e fun _ e' =>
        ∃ k, WindowScanned s (inactiveTarget nrPages (e.sh.fifos.seq .inactiveList).length)
        (e.sh.fifos.seq .inactiveList) (e.scanning true).sh.skeleton k ∧
      e'.sh.skeleton = { k with shrinking := false } := by
  unfold shrinkInactiveList
  rw [if_neg h0]
  refine total_numentries rfl fun e₁ hk => total_setShrinking hk fun e₂ hk => ?_
  refine (total_scanLoop rfl hk).bind fun ret e' h => .act rfl (.ret ?_)
  exact ⟨e'.sh.skeleton, h, rfl⟩

/-- The scan meets a page with this address while it still wants pages and may still try. -/
def Meets (s nr : Nat) (L : List PageId) (k : Skeleton) : Prop :=
  ∃ j d, L[j]? = some d ∧ (k.page d).va = s ∧ (L.take j).countP (fun d => !kept s k d) < nr ∧
    j < nr * 100

/-- The pages that a scan evicts against the protection are those at `s` itself. -/
theorem scanned_protects (h : WindowScanned s nr L k₀ k) (hL : k₀.fifos.seq .inactiveList = L) :
    (∀ d, k₀.list d ≠ some .evictionList → Protected s (k₀.page d).va →
        k.list d ≠ some .evictionList) ↔ ¬ Meets s nr L k₀ := by
  obtain ⟨ret, tries, hscan, hover⟩ := h
  have hself : Protected s s := by
    unfold Protected pagerankWindowSize
    omega
  have hnot : inWindow s s = false := by
    rw [Bool.eq_false_iff]
    intro h
    exact (inWindow_iff.mp h).2 rfl
  constructor
  · rintro hprot ⟨j, d, hget, hva, hcount, hj⟩
    obtain ⟨hjn, hd⟩ := List.getElem?_eq_some_iff.mp hget
    have hdL : d ∈ L := List.mem_of_getElem? hget
    have hin : k₀.list d = some .inactiveList := (k₀.fifos.mem_iff _ _).mp (hL ▸ hdL)
    have hlate : tries ≤ j := by
      by_contra hlt
      refine hprot d (by simp [hin]) (hva ▸ hself) ((hscan.evicted d).mpr (.inr ⟨?_, ?_⟩))
      · exact List.mem_take_iff_getElem.mpr ⟨j, by omega, hd⟩
      · unfold kept
        rwa [hva]
    rcases hscan.queue with ⟨-, hq, hret⟩ | ⟨hn, -⟩
    · have hmono : (L.take tries).countP (fun d => !kept s k₀ d) ≤
          (L.take j).countP (fun d => !kept s k₀ d) := (List.take_sublist_take_left hlate).countP_le
      rcases hover with h | h | h
      · omega
      · rw [hq, List.append_eq_nil_iff, List.drop_eq_nil_iff] at h
        omega
      · omega
    · omega
  · intro hmeets d hd hprot hev
    rcases (hscan.evicted d).mp hev with h | ⟨hmem, hkept⟩
    · exact hd h
    · obtain ⟨j, hj, hget⟩ := List.mem_take_iff_getElem.mp hmem
      have hva : (k₀.page d).va = s := by
        by_contra hne
        have hin := inWindow_iff.mpr ⟨hprot, hne⟩
        unfold kept at hkept
        rw [hin] at hkept
        cases hkept
      have hlive := hscan.live j (by omega) (by omega)
      exact hmeets ⟨j, d, List.getElem?_eq_some_iff.mpr ⟨by omega, hget⟩, hva, hlive⟩

/-- One call of the scan keeps all of the protection if and only if it does not meet a page at
`safe_to_free` itself: both comparisons of the check are strict. -/
theorem window_kept_iff {nrPages : Nat} (h0 : s ≠ 0) :
    Total (shrinkInactiveList s nrPages) e (fun _ e' => ∀ d, e.sh.list d ≠ some .evictionList →
        Protected s (e.sh.page d).va → e'.sh.list d ≠ some .evictionList) ↔
      ¬ Meets s (inactiveTarget nrPages (e.sh.fifos.seq .inactiveList).length)
        (e.sh.fifos.seq .inactiveList) e.sh.skeleton := by
  have hdone : Total (shrinkInactiveList s nrPages) e _ := total_shrinkInactiveList h0
  constructor
  · intro h
    obtain ⟨ret, e', hrun, hprot⟩ := h.runs
    obtain ⟨k, hscan, hk⟩ := hdone.after ret e' hrun
    have hlist : ∀ d, e'.sh.list d = k.list d := fun d => congrArg (fun k => Skeleton.list k d) hk
    refine (scanned_protects hscan rfl).mp fun d hd hp => ?_
    rw [← hlist]
    exact hprot d hd hp
  · intro h
    refine hdone.mono fun ret e' he d hd hp => ?_
    obtain ⟨k, hscan, hk⟩ := he
    have hlist : e'.sh.list d = k.list d := congrArg (fun k => Skeleton.list k d) hk
    rw [hlist]
    exact (scanned_protects hscan rfl).mpr h d hd hp

theorem window_kept_iff_filled :
    Total (shrinkInactiveList 65536 1) filledMachine
        (fun _ e' => ∀ d, filledMachine.sh.list d ≠ some .evictionList →
        Protected 65536 (filledMachine.sh.page d).va → e'.sh.list d ≠ some .evictionList) ↔
      ¬ Meets 65536 (inactiveTarget 1 (filledMachine.sh.fifos.seq .inactiveList).length)
        (filledMachine.sh.fifos.seq .inactiveList) filledMachine.sh.skeleton :=
  window_kept_iff (by decide)

/-- With the first page of the inactive list at `safe_to_free`, a scan for one page evicts it. -/
theorem safe_page_evicted :
    ∃ d e', filledMachine.sh.list d = some .inactiveList ∧ (filledMachine.sh.page d).va = 65536 ∧
      (∃ ret, Runs (shrinkInactiveList 65536 1) filledMachine ret e') ∧
      e'.sh.list d = some .evictionList := by
  have hend : (exec 100 [] (shrinkInactiveList 65536 1) filledMachine).any
      (fun r => decide (r.2.sh.list 0 = some .evictionList)) = true := by decide +kernel
  obtain ⟨⟨ret, e'⟩, he, hl⟩ := (Option.any_eq_true ..).mp hend
  exact ⟨0, e', by decide +kernel, by decide +kernel, ⟨ret, exec_runs he⟩, of_decide_eq_true hl⟩

end ExtMem.PageRank
