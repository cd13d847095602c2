import ExtMem.Serial.Rounds

/-! The loops of the vector worker: decisions, writes that complete in any order, and the rest. -/
namespace ExtMem
open Threads Threads.Prog

variable {n : Nat} {frames : List Frame} {hand : PageId → Option Hand} {S : Nat → Bool}
  {i : Snapshot} {k k' : Skeleton}
  {d r : PageId} {e e' : Env} {α β : Type}

/-! The first two loops. -/

private theorem snapshot_prepareVictim (hk : e.sh.skeleton = k)
    (hS : S (k.page d).va = true) (hi : e.snapshot S = i) :
    After (prepareVictim d) e fun x e' => e'.sh.skeleton = k.mark d ∧ x.1 = d ∧
      e'.snapshot S = i.decide d x.2.2 ∧ i.Admits (k.page d).va (k.page d).hasReserve x.2.2 := by
  unfold prepareVictim
  refine after_unseen_setPage hk hi fun e hk hi => after_unseen_field hk hi fun hk hi => ?_
  refine after_then (after_protectVictim hk (by rw [Skeleton.page_write_self]; exact hS) hi)
    fun w e ⟨hk, hi, hw⟩ => ?_
  simp only [Skeleton.page_write_self] at hw
  exact (after_pure _ _ _).mpr ⟨hk, rfl, hi, hw⟩

/-- Decisions leave what later ones are made from. -/
private theorem admits_decided (l : List (PageId × Frame × Bool)) (i : Snapshot) :
    (l.foldl (fun i x => i.decide x.1 x.2.2) i).pte = i.pte ∧
    (l.foldl (fun i x => i.decide x.1 x.2.2) i).spurious = i.spurious := by
  induction l generalizing i with
  | nil => exact ⟨rfl, rfl⟩
  | cons x l ih => exact ih (i.decide x.1 x.2.2)

/-- The first loop decides about each victim. -/
theorem snapshot_prepareVictims {vs : List PageId} (hk : e.sh.skeleton = vs.foldl Skeleton.unlink k)
    (hS : ∀ v ∈ vs, S (k.page v).va = true) (hi : e.snapshot S = i) :
    After (Prog.collect prepareVictim vs) e fun prepared e' =>
      e'.snapshot S = prepared.foldl (fun i x => i.decide x.1 x.2.2) i ∧
      ∀ x ∈ prepared, i.Admits (k.page x.1).va (k.page x.1).hasReserve x.2.2 := by
  refine (after_collect (fun todo done e => (∀ v ∈ todo, S (k.page v).va = true) ∧
    (∃ ds : List PageId, e.sh.skeleton = ds.foldl Skeleton.mark (vs.foldl Skeleton.unlink k)) ∧
    e.snapshot S = done.foldl (fun i x => i.decide x.1 x.2.2) i ∧ ∀ x ∈ done,
    i.Admits (k.page x.1).va (k.page x.1).hasReserve x.2.2) ⟨hS, ⟨[], hk⟩, hi, by simp⟩ ?_).mono
    fun prepared e' he => he.2.2
  rintro d todo done e ⟨hS, ⟨ds, hk⟩, hi, hadm⟩
  obtain ⟨b, hb⟩ := page_marks (vs.foldl Skeleton.unlink k) ds d
  rw [page_unlinks] at hb
  refine (snapshot_prepareVictim hk (by rw [hb]; exact hS d List.mem_cons_self) hi).mono
    fun x e' ⟨hk', hx, hi', hw⟩ => ?_
  refine ⟨fun v hv => hS v (List.mem_cons_of_mem _ hv), ⟨ds ++ [d], ?_⟩, ?_, fun y hy => ?_⟩
  · rw [hk', List.foldl_append]
    rfl
  · rw [hi', List.foldl_append, ← hx]
    rfl
  · rcases List.mem_append.mp hy with hy | hy
    · exact hadm y hy
    · rw [List.mem_singleton] at hy
      subst hy
      obtain ⟨hp, hs⟩ := admits_decided done i
      rw [hb] at hw
      rw [hx]
      intro hsp
      have hw := hw (hs.trans hsp)
      unfold Snapshot.dirty at hw ⊢
      rwa [hp] at hw

/-- The second loop keeps the decisions. -/
theorem snapshot_findDiskpages {prepared : List (PageId × Frame × Bool)} (hi : e.snapshot S = i) :
    After (Prog.collect findDiskpage prepared) e fun slots e' => e'.snapshot S = i ∧
      slots.map (fun x => (x.victim, x.writeback)) = prepared.map fun x => (x.1, x.2.2) := by
  have hunseen : Always (Unseen S) (Prog.collect findDiskpage prepared) :=
    always_collect (within_findDiskpage relinking_unseen.toLinking)
  refine (after_unseen hunseen hi).and ?_
  refine (after_collect (fun todo done _ => (done.map fun x => (x.victim, x.writeback)) ++ todo.map
    (fun x => (x.1, x.2.2)) = prepared.map fun x => (x.1, x.2.2)) rfl ?_).mono fun slots e' he => ?_
  · intro x todo done e hd
    have hslot {p : Paging PageId} :
        After (do let diskpage ← p; pure (⟨x.1, x.2.1, x.2.2, diskpage⟩ : Slot)) e
        fun y _ => (y.victim, y.writeback) = (x.1, x.2.2) :=
      after_then (R := fun _ _ => True) (fun _ _ _ => trivial) fun r e _ => (after_pure _ _ _).mpr rfl
    have hfind : After (findDiskpage x) e fun y _ =>
        (y.victim, y.writeback) = (x.1, x.2.2) := (after_bind _ _ _ _).mpr
      ((after_read _ _ _).mpr ((after_ite _ _ _ _).mpr ⟨fun _ => hslot, fun _ => hslot⟩))
    refine hfind.mono fun y e' hy => ?_
    rw [List.map_append, List.map_singleton, hy, List.append_assoc]
    exact hd
  · rwa [List.map_nil, List.append_nil] at he

/-! The writes. -/

namespace Snapshot

theorem perform_outstanding (i : Snapshot) (o : List Sqe) (q : Sqe) :
    ({ i with outstanding := o } : Snapshot).perform q = { i.perform q with outstanding := o } := by
  unfold perform
  split
  · unfold store
    dsimp only
    split <;> rfl
  · rfl

theorem outstanding_perform (i : Snapshot) (q : Sqe) :
    (i.perform q).outstanding = i.outstanding ∧ (i.perform q).faulty = i.faulty := by
  unfold perform
  split
  · next va _ =>
    obtain ⟨disk, hd⟩ := i.store_eq va q.offset
    rw [hd]
    exact ⟨rfl, rfl⟩
  · exact ⟨rfl, rfl⟩

/-- Writes to different places can be carried out in any order. -/
theorem perform_comm {q q' : Sqe} (h : q.offset ≠ q'.offset) (i : Snapshot) :
    (i.perform q).perform q' = (i.perform q').perform q := by
  unfold perform
  cases q.buffer with
  | user va =>
    cases q'.buffer with
    | user va' =>
      dsimp only
      unfold store
      cases hp : i.pte va with
      | none =>
        dsimp only
        cases hp' : i.pte va' with
        | none => simp only [hp]
        | some p' => simp only [hp]
      | some p =>
        dsimp only
        cases hp' : i.pte va' with
        | none => simp only [hp]
        | some p' => simp only [hp, Function.update_comm h]
    | _ => rfl
  | _ => rfl

end Snapshot

/-- All requests under way are carried out, in whatever order they complete. -/
theorem after_waitWrites {γ : Type} {todo : List γ} (hi : e.snapshot S = i)
    (hlen : todo.length = i.outstanding.length) (hback : ∀ q ∈ i.outstanding, q.Back S)
    (hoff : (i.outstanding.map (·.offset)).Nodup) (hf : i.faulty = false) :
    After (Prog.each (fun _ => ioringFinishWrite) todo) e fun _ e' =>
      e'.snapshot S = i.outstanding.foldl Snapshot.perform { i with outstanding := [] } := by
  refine (after_each (fun todo e => ∃ j : Snapshot, e.snapshot S = j ∧ todo.length =
    j.outstanding.length ∧ (∀ q ∈ j.outstanding, q.Back S) ∧ (j.outstanding.map (·.offset)).Nodup ∧
    j.faulty = false ∧ j.outstanding.foldl Snapshot.perform { j with outstanding := [] } =
    i.outstanding.foldl Snapshot.perform { i with outstanding := [] })
    ⟨i, hi, hlen, hback, hoff, hf, rfl⟩ ?_).mono ?_
  · rintro c todo e ⟨j, hj, hlen, hback, hoff, hf, hres⟩
    refine (after_waitWrite hj hf hback).mono fun _ e' ⟨q, hq, hi'⟩ => ⟨_, hi', ?_, ?_, ?_, ?_, ?_⟩
    · rw [(Snapshot.outstanding_perform _ q).1]
      show _ = (j.outstanding.erase q).length
      rw [List.length_erase_of_mem hq, ← hlen, List.length_cons, Nat.add_sub_cancel]
    · rw [(Snapshot.outstanding_perform _ q).1]
      exact fun q' hq' => hback q' (List.mem_of_mem_erase hq')
    · rw [(Snapshot.outstanding_perform _ q).1]
      exact hoff.sublist ((List.erase_sublist ..).map _)
    · rw [(Snapshot.outstanding_perform _ q).2]
      exact hf
    · rw [← hres, (Snapshot.outstanding_perform _ q).1]
      have hperm : j.outstanding.Perm (q :: j.outstanding.erase q) := List.perm_cons_erase hq
      have hcomm : ∀ x ∈ j.outstanding, ∀ y ∈ j.outstanding,
          ∀ z : Snapshot, (z.perform x).perform y = (z.perform y).perform x := by
        intro x hx y hy z
        by_cases hxy : x = y
        · rw [hxy]
        · exact Snapshot.perform_comm (fun ho => hxy (List.inj_on_of_nodup_map hoff hx hy ho)) z
      rw [hperm.foldl_eq' hcomm, List.foldl_cons,
        Snapshot.perform_outstanding j (j.outstanding.erase q), Snapshot.perform_outstanding j []]
  · rintro _ e' ⟨j, hj, hlen, -, -, -, hres⟩
    have hnil : j.outstanding = [] := List.eq_nil_of_length_eq_zero hlen.symm
    rw [← hres, hj, hnil, List.foldl_nil, ← hnil]

/-- The request that writes a victim back. -/
def Slot.request (k : Skeleton) (x : Slot) : Sqe :=
  ⟨true, (k.page x.diskpage).virtualOffset.offset, .user (k.page x.victim).va, pageSize⟩

def requests (k : Skeleton) (l : List Slot) : List Sqe :=
  (l.filter (·.writeback)).map (Slot.request k)

private theorem foldl_requests (l : List Slot) (i : Snapshot) :
    (requests k l).foldl Snapshot.perform i = l.foldl (Snapshot.storeSlot k) i := by
  unfold requests
  rw [List.foldl_map, List.foldl_filter]
  exact List.foldl_ext _ _ _ fun i x _ => rfl

private theorem requests_append (l : List Slot) (x : Slot) :
    requests k (l ++ [x]) = requests k l ++ if x.writeback then [x.request k] else [] := by
  unfold requests
  rw [List.filter_append, List.map_append]
  cases hw : x.writeback <;> simp [hw]

theorem snapshot_prepareSlot {x : Slot} (hk : e.sh.skeleton = k) (hi : e.snapshot S = i)
    (hinit : (e.loc.ring .ioRing).init = true ∨ i.sq = [] ∧ i.outstanding = []) :
    After (prepareSlot x) e fun w e' => w = x.writeback ∧ e'.sh.skeleton = k ∧
      e'.snapshot S = { i with sq := i.sq ++ if x.writeback then [x.request k] else [] } ∧
      ((e'.loc.ring .ioRing).init = true ∨ (e.loc.ring .ioRing).init = false ∧
        x.writeback = false) := by
  have hstill : After (prepareSlot x) e fun _ e' =>
      e'.sh.skeleton = k := after_still_last hk (still_prepareSlot x)
  suffices h : After (prepareSlot x) e fun w e' => w = x.writeback ∧
    e'.snapshot S = { i with sq := i.sq ++ if x.writeback then [x.request k] else [] } ∧
    ((e'.loc.ring .ioRing).init = true ∨ (e.loc.ring .ioRing).init = false ∧
    x.writeback = false) from (hstill.and h).mono fun w e' ⟨hk, hw, hrest⟩ => ⟨hw, hk, hrest⟩
  unfold prepareSlot
  refine (after_bind _ _ _ _).mpr ((after_atomic _ _ _).mpr fun b e₁ he => ?_)
  have he₁ : e₁ = e := by
    by_cases hc : (e.sh.page x.victim).inDram = true
    · rw [if_pos hc] at he
      cases he
      rfl
    · rw [if_neg hc] at he
      cases he
  subst he₁
  refine (after_ite _ _ _ _).mpr ⟨fun hw => ?_, fun hw => (after_pure _ _ _).mpr ?_⟩
  · refine after_unseen_field hk hi fun hk hi => after_unseen_field hk hi fun hk hi => ?_
    refine (after_bind _ _ _ _).mpr ((after_modify _ _ _).mpr ?_)
    unfold ioringPrepareWrite
    refine after_then (R := fun _ e' => e'.snapshot S = { i with sq := i.sq ++ [x.request k] } ∧
      (e'.loc.ring .ioRing).init = true) ?_ fun _ e' ⟨hi, hinit⟩ =>
      (after_pure _ _ _).mpr ⟨hw.symm, ?_, .inl hinit⟩
    · refine after_then (after_initWrites hi hinit) fun _ e' ⟨hi, hinit⟩ => ?_
      refine (after_prepWrite _ hi).mono fun _ e' ⟨hi, h⟩ => ⟨hi, h.trans hinit⟩
    · rw [hi, if_pos hw]
  · have hw' : x.writeback = false := Bool.eq_false_iff.mpr hw
    rw [hw', if_neg Bool.false_ne_true, List.append_nil]
    refine ⟨rfl, hi, ?_⟩
    cases (e₁.loc.ring .ioRing).init with
    | true => exact .inl rfl
    | false => exact .inr ⟨rfl, rfl⟩

/-- What the first loop of the migration has done. -/
def PreparedUpTo (S : Nat → Bool) (k : Skeleton) (i : Snapshot) (init : Bool) (l todo : List Slot)
    (done : List Bool) (e : Env) : Prop :=
  ∃ past : List Slot, past ++ todo = l ∧ done = past.map (·.writeback) ∧ e.sh.skeleton = k ∧
    e.snapshot S = { i with sq := requests k past } ∧
    ((e.loc.ring .ioRing).init = true ∨ init = false ∧ ∀ x ∈ past, x.writeback = false)

theorem preparedUpTo_start {l : List Slot} (hk : e.sh.skeleton = k) (hi : e.snapshot S = i)
    (hidle : i.Idle) : PreparedUpTo S k i (e.loc.ring .ioRing).init l l [] e := by
  have hnone : i = { i with sq := requests k [] } := by
    show i = { i with sq := [] }
    rw [← hidle.sq]
  refine ⟨[], rfl, rfl, hk, hi.trans hnone, ?_⟩
  cases (e.loc.ring .ioRing).init with
  | true => exact .inl rfl
  | false => exact .inr ⟨rfl, by simp⟩

theorem PreparedUpTo.step {l todo : List Slot} {done : List Bool} {x : Slot} {init : Bool}
    (h : PreparedUpTo S k i init l (x :: todo) done e) (hidle : i.Idle) :
    After (prepareSlot x) e fun w e' => PreparedUpTo S k i init l todo (done ++ [w]) e' := by
  obtain ⟨past, hl, rfl, hk, hi, hinit⟩ := h
  have hempty : (∀ x ∈ past, x.writeback = false) → requests k past = [] := by
    intro hall
    unfold requests
    rw [List.filter_eq_nil_iff.mpr fun x hx => by rw [hall x hx]; exact Bool.false_ne_true,
      List.map_nil]
  refine (snapshot_prepareSlot hk hi (hinit.imp id fun h => ⟨hempty h.2, hidle.outstanding⟩)).mono
    fun w e' ⟨hw, hk, hi', hinit'⟩ => ?_
  refine ⟨past ++ [x], by simpa using hl, by rw [hw, List.map_append]; rfl, hk, ?_, ?_⟩
  · rw [hi', requests_append]
  · rcases hinit' with h | ⟨h₁, h₂⟩
    · exact .inl h
    · rcases hinit with h | ⟨h₃, h₄⟩
      · rw [h] at h₁
        cases h₁
      · refine .inr ⟨h₃, fun y hy => ?_⟩
        rcases List.mem_append.mp hy with hy | hy
        · exact h₄ y hy
        · rw [List.mem_singleton.mp hy]
          exact h₂

/-- The first loop of the migration prepares the writes, and the ring with the first of them. -/
theorem snapshot_prepareSlots {l : List Slot} (hk : e.sh.skeleton = k)
    (hi : e.snapshot S = i) (hidle : i.Idle) :
    After (Prog.collect prepareSlot l) e fun written e' => written = l.map (·.writeback) ∧
      e'.snapshot S = { i with sq := requests k l } ∧ ((e'.loc.ring .ioRing).init = true ∨
        (e.loc.ring .ioRing).init = false ∧ ∀ x ∈ l, x.writeback = false) := by
  refine (after_collect (PreparedUpTo S k i (e.loc.ring .ioRing).init l)
    (preparedUpTo_start hk hi hidle) ?_).mono ?_
  · intro x todo done e h
    exact h.step hidle
  · rintro written e' ⟨past, hl, hw, -, hi, hinit⟩
    rw [List.append_nil] at hl
    subst hl
    exact ⟨hw, hi, hinit⟩

private theorem snapshot_unmapSlots {l : List Slot} (hk : e.sh.skeleton = k)
    (hS : ∀ x ∈ l, S (k.page x.victim).va = true) (hi : e.snapshot S = i) :
    After (Prog.each unmapSlot l) e fun _ e' => e'.sh.skeleton = k ∧
      e'.snapshot S = l.foldl (fun i x => i.drop (k.page x.victim).va) i := by
  refine (after_still_last hk (always_each fun x => still_unmapSlot x)).and ?_
  induction l generalizing e i with
  | nil => exact (after_pure _ _ _).mpr hi
  | cons x l ih =>
    refine after_then (R := fun _ e' =>
      e'.sh.skeleton = k ∧ e'.snapshot S = i.drop (k.page x.victim).va) ?_ fun _ e' ⟨hk, hi⟩ =>
      ih hk (fun y hy => hS y (List.mem_cons_of_mem _ hy)) hi
    refine (after_still_last hk (still_unmapSlot x)).and ?_
    unfold unmapSlot
    refine after_unseen_field hk hi fun hk hi =>
      (after_bind _ _ _ _).mpr ((after_modify _ _ _).mpr ?_)
    exact after_drop (hS x List.mem_cons_self) hi

private theorem snapshot_moveSlots {l : List Slot} (hi : e.snapshot S = i) :
    After (Prog.each moveSlot l) e fun _ e' => e'.snapshot S = l.foldl (fun i _ => i.count) i := by
  induction l generalizing e i with
  | nil => exact (after_pure _ _ _).mpr hi
  | cons x l ih =>
    refine after_then (R := fun _ e' => e'.snapshot S = i.count) ?_ fun _ e' hi => ih hi
    unfold moveSlot
    refine (after_bind _ _ _ _).mpr
      ((after_modify _ _ _).mpr ((after_bind _ _ _ _).mpr ((after_read _ _ _).mpr ?_)))
    refine (after_bind _ _ _ _).mpr
      ((after_modify _ _ _).mpr ((after_bind _ _ _ _).mpr ((after_modify _ _ _).mpr ?_)))
    refine (after_modify _ _ _).mpr ?_
    rw [← hi]
    rfl

/-- The migration of a batch writes back, unmaps and counts its victims. -/
theorem snapshot_downdiskVector {l : List Slot} (hk : e.sh.skeleton = k)
    (hS : ∀ x ∈ l, S (k.page x.victim).va = true)
    (hoff : l.Pairwise fun x y =>
      (k.page x.diskpage).virtualOffset.offset ≠ (k.page y.diskpage).virtualOffset.offset)
    (hi : e.snapshot S = i) (hidle : i.Idle) :
    After (extmemMigrateDowndiskVector l) e fun _ e' => e'.snapshot S = l.foldl (fun i _ => i.count)
      (l.foldl (fun i x => i.drop (k.page x.victim).va) (l.foldl (Snapshot.storeSlot k) i)) := by
  unfold extmemMigrateDowndiskVector
  refine after_unseen_still hk hi (by simp) (within_modify fun _ => rfl) fun _ e hk hi => ?_
  refine after_then ((after_still_last hk (always_collect fun x => still_prepareSlot x)).and
    (snapshot_prepareSlots hk hi hidle)) fun written e ⟨hk, hw, hi, _⟩ => ?_
  refine after_then ((after_still_last hk (within_submit transferring_still _)).and
    (after_submitWrites hi))
    fun _ e ⟨hk, hi⟩ => ?_
  have hout : i.outstanding ++ requests k l = requests k l := by
    rw [hidle.outstanding, List.nil_append]
  dsimp only at hi
  rw [hout] at hi
  have hlen : (written.filter id).length = (requests k l).length := by
    rw [hw]
    unfold requests
    rw [List.length_map, List.filter_map, List.length_map]
    rfl
  have hback : ∀ q ∈ requests k l, q.Back S := by
    intro q hq
    obtain ⟨x, hx, rfl⟩ := List.mem_map.mp hq
    exact ⟨_, hS x (List.mem_of_mem_filter hx), rfl⟩
  have hnodup : ((requests k l).map (·.offset)).Nodup := by
    unfold requests
    rw [List.map_map]
    exact List.pairwise_map.mpr (hoff.filter _)
  refine after_then ((after_still_last hk (always_each fun _ => within_wait transferring_still _)).and
    (after_waitWrites hi hlen hback hnodup hidle.sound)) fun _ e ⟨hk, hi⟩ => ?_
  dsimp only at hi
  have hstart : ({ i with sq := [], outstanding := [] } : Snapshot) = i := by
    obtain ⟨pte, disk, moved, faulty, spurious, sq, outstanding, decided⟩ := i
    have h₁ : sq = [] := hidle.sq
    have h₂ : outstanding = [] := hidle.outstanding
    subst h₁ h₂
    rfl
  rw [foldl_requests] at hi
  refine after_then (snapshot_unmapSlots hk hS hi) fun _ e ⟨hk, hi⟩ =>
    after_then (snapshot_moveSlots hi) fun _ e hi => ?_
  refine (after_unseen (within_markAll relinking_unseen l) hi).mono fun _ e' hi => ?_
  rw [hi, hstart]

/-! The whole batch. -/

theorem Evictions.diskpage {l : List Slot} (h : Evictions k l) : ∀ x ∈ l,
    k.list x.diskpage = some .diskReserveList ∨ k.list x.diskpage = some .diskFreeList := by
  induction h with
  | nil k => exact fun x hx => absurd hx List.not_mem_nil
  | @cons k x l ds hs hp hl ih =>
    intro y hy
    rcases List.mem_cons.mp hy with rfl | hy
    · have hlist := hp.list
      rw [Skeleton.list_unlink, if_neg hp.ne] at hlist
      rw [hlist]
      split
      · exact .inl rfl
      · exact .inr rfl
    · have h := ih y hy
      rw [list_evictSlot k hp.ne] at h
      split at h
      · rcases h with h | h <;> cases h
      · split at h
        · rcases h with h | h <;> cases h
        · exact h

/-- Different descriptors have different addresses and frames. -/
theorem separate_of_apart {l : List Slot} (h : Whole n frames hand k) (hf : frames.Nodup)
    (hev : Evictions k l) (hv : ∀ x ∈ l, k.list x.victim = some .evictionList)
    (hl : l.Pairwise Slot.Apart) : l.Pairwise (Slot.Separate k) := by
  refine hl.imp_of_mem fun {x y} hx hy hxy => ⟨hxy, fun hva => ?_, fun hoff => ?_⟩
  · have hrx : (k.page x.victim).Resident := h.fits (hv x hx)
    have h₁ := (h.hash _ x.victim hrx.1).mpr ⟨h.lt_of_list (hv x hx), rfl⟩
    have h₂ := (h.hash _ y.victim hrx.1).mpr ⟨h.lt_of_list (hv y hy), hva.symm⟩
    rw [h₁, Option.some.injEq] at h₂
    exact hxy.1 h₂
  · have hdisk (z : Slot) (hz : z ∈ l) :
        z.diskpage < n ∧ (k.page z.diskpage).virtualOffset.dram = false := by
      rcases hev.diskpage z hz with hlz | hlz
      · have hc : (k.page z.diskpage).Copy := h.fits hlz
        exact ⟨h.lt_of_list hlz, hc.2.2.1⟩
      · have hc : (k.page z.diskpage).Free false := h.fits hlz
        exact ⟨h.lt_of_list hlz, hc.2.2.1⟩
    obtain ⟨hxn, hxd⟩ := hdisk x hx
    obtain ⟨hyn, hyd⟩ := hdisk y hy
    have hframe : (k.page x.diskpage).virtualOffset = (k.page y.diskpage).virtualOffset := by
      cases hfx : (k.page x.diskpage).virtualOffset
      cases hfy : (k.page y.diskpage).virtualOffset
      rw [hfx] at hxd hoff
      rw [hfy] at hyd hoff
      dsimp only at hxd hyd hoff
      rw [hxd, hyd, hoff]
    exact hxy.2.2.2 (List.inj_on_of_nodup_map (h.frames.nodup_iff.mpr hf) (List.mem_range.mpr hxn)
      (List.mem_range.mpr hyn) hframe)

/-- The victims are taken off the list. -/
theorem after_take {vs : List PageId} (hk : e.sh.skeleton = k)
    (hvs : (k.fifos.seq .evictionList).take evictVectorSize = vs) (hi : e.snapshot S = i) :
    After (dequeueFifoVectorThen .evictionList evictVectorSize takeVictim) e fun victims e' =>
        (victims = vs ∧ e'.sh.skeleton = vs.foldl Skeleton.unlink k) ∧ e'.snapshot S = i := by
  refine After.and ?_
    (after_unseen (within_takeVictims relinking_unseen.toLinking (by decide) _) hi)
  rw [← bind_pure (dequeueFifoVectorThen .evictionList evictVectorSize takeVictim)]
  refine after_dequeueVector evictVectorSize hk (fun _ _ => rfl) fun e hk => ?_
  rw [hvs] at hk ⊢
  exact (after_pure _ _ _).mpr ⟨rfl, hk⟩

/-- Decisions start no request. -/
theorem idle_decides (l : List (PageId × Frame × Bool)) (h : i.Idle) :
    (l.foldl (fun i x => i.decide x.1 x.2.2) i).Idle := by
  induction l generalizing i with
  | nil => exact h
  | cons x l ih => exact ih ⟨h.sq, h.outstanding, h.sound⟩

/-- A batch does to page table, disk and counters what evictions of its victims one by one do. -/
theorem after_batch (hk : e.sh.skeleton = k) (h : Whole n frames hand k) (hf : frames.Nodup)
    (hS : ∀ v ∈ (k.fifos.seq .evictionList).take evictVectorSize, S (k.page v).va = true)
    (hi : e.snapshot S = i) (hidle : i.Idle) :
    After lrudiskEvictionworkerVector e fun _ e' =>
        ∃ slots, Evictions k slots ∧ slots.Pairwise (Slot.Separate k) ∧
      slots.map (·.victim) = (k.fifos.seq .evictionList).take evictVectorSize ∧
      e'.snapshot S = slots.foldl (Snapshot.evictSlot k) i ∧ ∀ x ∈ slots, i.AdmitsSlot k x := by
  unfold lrudiskEvictionworkerVector
  generalize hvs : (k.fifos.seq .evictionList).take evictVectorSize = vs at hS
  refine after_then (after_take hk hvs hi) fun victims e ⟨⟨hvictims, hk⟩, hi⟩ => ?_
  subst victims
  refine (after_ite _ _ _ _).mpr ⟨fun hnone => ?_, fun _ => ?_⟩
  · rw [List.isEmpty_iff.mp hnone]
    exact (after_pure _ _ _).mpr ⟨[], .nil k, .nil, rfl, hi, by simp⟩
  refine after_then ((after_prepareVictims hk).and (snapshot_prepareVictims hk hS hi))
    fun prepared e ⟨⟨hvs', hoffs, hk⟩, hi, hadm⟩ => ?_
  refine after_then ((after_findDiskpages hvs hvs' hoffs hk).and (snapshot_findDiskpages hi))
    fun slots e ⟨ht, hi, hmap⟩ => ?_
  obtain ⟨hout, hpage, hfree, hout'⟩ := marked_of_unlinks hvs
  have hdecided : prepared.foldl (fun i x => i.decide x.1 x.2.2) i =
      slots.foldl (fun i x => i.decide x.victim x.writeback) i := by
    have hfold : ∀ l : List (PageId × Frame × Bool), l.foldl (fun i x => i.decide x.1 x.2.2) i =
        (l.map fun x => (x.1, x.2.2)).foldl (fun i x => i.decide x.1 x.2) i := fun l => by
      rw [List.foldl_map]
    rw [hfold, ← hmap, List.foldl_map]
  have hadmits : ∀ x ∈ slots, i.AdmitsSlot k x := by
    intro x hx
    have hm : (x.victim, x.writeback) ∈ prepared.map fun x => (x.1, x.2.2) := by
      rw [← hmap]
      exact List.mem_map_of_mem hx
    obtain ⟨y, hy, hxy⟩ := List.mem_map.mp hm
    have h₁ := hadm y hy
    obtain ⟨hv, hw⟩ := Prod.mk.inj hxy
    rw [hv, hw] at h₁
    exact h₁
  have hvictim : ∀ x ∈ slots, x.victim ∈ vs := by
    intro x hx
    rw [← ht.victims]
    exact List.mem_map_of_mem hx
  have hsep : slots.Pairwise (Slot.Separate k) := by
    refine separate_of_apart h hf ht.evictions (fun x hx => ?_) ht.apart
    have hv := hvictim x hx
    rw [← hvs] at hv
    exact Queues.tag_of_mem (List.mem_of_mem_take hv)
  -- What the loops read of the descriptors is as it was before them.
  have hsame (z : PageId) : (e.sh.skeleton.page z).va = (k.page z).va ∧
      (e.sh.skeleton.page z).virtualOffset = (k.page z).virtualOffset := by
    have htaken :
        ∀ (l : List Slot) (k : Skeleton), (l.foldl Skeleton.takeDisk k).page = k.page := by
      intro l
      induction l with
      | nil => exact fun _ => rfl
      | cons x l ih => exact fun k => ih (k.takeDisk x)
    obtain ⟨b, hb⟩ := hpage z
    rw [ht.state, htaken, hb]
    exact ⟨rfl, rfl⟩
  have hdown := snapshot_downdiskVector (l := slots) rfl
    (fun x hx => by rw [(hsame _).1]; exact hS _ (hvictim x hx)) (hsep.imp fun hxy =>
    by rw [(hsame _).2, (hsame _).2]; exact hxy.offset) hi (idle_decides prepared hidle)
  refine after_then hdown fun _ e' hi' => ?_
  refine (after_unseen (always_each (within_finishSlot relinking_unseen)) hi').mono fun _ e'' hi'' =>
    ⟨slots, ht.evictions, hsep, ht.victims, ?_, hadmits⟩
  rw [hi'', hdecided, ← Snapshot.batch_eq hsep]
  have hstore : (fun i x => Snapshot.storeSlot e.sh.skeleton i x) = fun i x =>
      Snapshot.storeSlot k i x := by
    funext i x
    unfold Snapshot.storeSlot
    rw [(hsame _).1, (hsame _).2]
  have hdrop : (fun (i : Snapshot) (x : Slot) => i.drop (e.sh.skeleton.page x.victim).va) =
      fun i x => i.drop (k.page x.victim).va := by
    funext i x
    rw [(hsame _).1]
  rw [hdrop]
  exact congrArg (fun f : Snapshot → Slot → Snapshot =>
    slots.foldl (fun i _ => i.count) (slots.foldl _ (slots.foldl f _))) hstore

end ExtMem
