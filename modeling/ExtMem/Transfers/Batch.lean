import ExtMem.Transfers.Evict

/-! The batches of the vector worker: all write-backs are prepared, submitted together
and waited for one by one before the first victim is unmapped. -/
namespace ExtMem
open Threads Threads.Prog Threads.Outline
variable {strict : Prop} {t : Tid} {l : Local} {o : Books} {α β : Type} {b : Ring}
  {rd : Buffer → Option Bool}

/-! The victims of one batch are different pages. -/

private theorem dequeueVector_mem {q : FifoList} {aux : PageId → Env → Env}
    (haux : ∀ d e, (aux d e).sh.fifos = e.sh.fifos) (n : Nat) (e : Env) :
    ∀ d ∈ (Threads.Ctx.dequeueVector q aux n e).2, d ∈ e.sh.fifos.seq q := by
  induction n generalizing e with
  | zero => simp [Threads.Ctx.dequeueVector]
  | succ n ih =>
    unfold Threads.Ctx.dequeueVector
    split
    · simp
    · next d ds hq =>
      intro x hx
      rw [hq]
      rcases List.mem_cons.mp hx with rfl | hx
      · exact List.mem_cons_self
      · have hm := ih _ x hx
        rw [haux] at hm
        have hs : (e.dequeue q d).sh.fifos.seq q = ds := Queues.seq_unlink_head hq
        rw [hs] at hm
        exact List.mem_cons_of_mem _ hm

private theorem dequeueVector_nodup {q : FifoList} {aux : PageId → Env → Env}
    (haux : ∀ d e, (aux d e).sh.fifos = e.sh.fifos) (n : Nat) (e : Env) :
    (Threads.Ctx.dequeueVector q aux n e).2.Nodup ∧
    (Threads.Ctx.dequeueVector q aux n e).2.length ≤ n := by
  induction n generalizing e with
  | zero => simp [Threads.Ctx.dequeueVector]
  | succ n ih =>
    unfold Threads.Ctx.dequeueVector
    split
    · simp
    · next d ds hq =>
      obtain ⟨hn, hl⟩ := ih (aux d (e.dequeue q d))
      refine ⟨List.nodup_cons.mpr ⟨fun hd => ?_, hn⟩, by simpa using hl⟩
      have hm := dequeueVector_mem haux _ _ d hd
      rw [haux] at hm
      have hs : (e.dequeue q d).sh.fifos.seq q = ds := Queues.seq_unlink_head hq
      rw [hs] at hm
      have hnd := e.sh.fifos.nodup q
      rw [hq] at hnd
      exact (List.nodup_cons.mp hnd).1 hm

theorem own_takeVictims {J : Local → Books → Prop} [hJ : RingOnly J]
    {Q : List PageId → Local → Books → Prop} (n : Nat) (h : J l o)
    (hq : ∀ ds l o, ds.Nodup → ds.length ≤ n → J l o → Q ds l o) :
    (transfers strict).Safe t (dequeueFifoVectorThen .evictionList n takeVictim) Q l o := by
  refine safe_atomic.mpr (own_action fun hs s => ?_)
  have hplain : Always Plain (dequeueFifoVectorThen .evictionList n takeVictim) := by simp
  have hp := hplain.1 ⟨s, l⟩
  obtain ⟨evs, hlog, hev⟩ := hp.log
  obtain ⟨hn, hlen⟩ := dequeueVector_nodup (q := .evictionList)
    (fun d e => (rfl : (takeVictim d e).sh.fifos = _)) n ⟨s, l⟩
  refine ⟨evs, hlog, hp.tid, fun _ => ?_⟩
  rw [notes_plain hev]
  refine ⟨?_, hq _ _ _ hn hlen (hJ.keep _ _ _ hp.ring h)⟩
  rw [hp.ring]
  exact hs

/-- The decision for one more victim. -/
theorem own_decide {J : Local → Books → Prop} [hJ : RingOnly J] {victim : PageId} (h : J l o)
    (ho : ∀ l o, J l o → o.owed victim = false) :
    (transfers strict).Safe t (protectVictim victim)
      (fun wb l o => ∃ o', J l o' ∧ o = Books.note (.decided victim wb) o') l o := by
  refine own_skip (by simp) h fun _ l o h => own_skip (by simp) h fun flags l o h => ?_
  refine own_skip (by simp) h fun hasReserve l o h =>
    safe_bind (own_traceEvent rfl (fun hs => ?_) fun _ => ?_)
  · exact hs.honest.decided (ho l o h) _
  · exact ⟨o, h, rfl⟩

/-- The decisions made so far are those in the books, and nothing is written back yet. -/
structure Decided (done : List (PageId × Bool)) (b : Ring) (rd : Buffer → Option Bool) (l : Local)
    (o : Books) : Prop where
  idle : (l.ring .ioRing).Idle
  readRing : l.ring .ioReadRing = b
  owed : ∀ x ∈ done, o.owed x.1 = x.2
  write : ∀ x ∈ done, o.write x.1 = none
  others : ∀ d, d ∉ done.map (·.1) → o.owed d = false
  read : o.read = rd

instance {done : List (PageId × Bool)} : RingOnly (Decided done b rd) :=
  ⟨fun _ _ _ h j =>
    ⟨by rw [h]; exact j.idle, by rw [h]; exact j.readRing, j.owed, j.write, j.others, j.read⟩⟩

theorem Decided.more {done : List (PageId × Bool)} (h : Decided done b rd l o) {victim : PageId}
    (hv : victim ∉ done.map (·.1)) (wb : Bool) :
    Decided (done ++ [(victim, wb)]) b rd l (Books.note (.decided victim wb) o) := by
  have hne {x : PageId × Bool} (hx : x ∈ done) : x.1 ≠ victim :=
    fun he => hv (he ▸ List.mem_map_of_mem hx)
  refine ⟨h.idle, h.readRing, fun x hx => ?_, fun x hx => ?_, fun d hd => ?_, h.read⟩
  · rcases List.mem_append.mp hx with hx | hx
    · simpa [Books.note, hne hx] using h.owed x hx
    · obtain rfl := List.mem_singleton.mp hx
      simp [Books.note]
  · rcases List.mem_append.mp hx with hx | hx
    · simpa [Books.note, hne hx] using h.write x hx
    · obtain rfl := List.mem_singleton.mp hx
      simp [Books.note]
  · simp only [List.map_append, List.map_cons, List.map_nil, List.mem_append, List.mem_singleton,
      not_or] at hd
    simpa [Books.note, hd.2] using h.others d hd.1

/-- The first loop of a batch decides for each victim. -/
theorem own_prepareVictims {victims : List PageId} (hn : victims.Nodup) (h : Resting b rd l o) :
    (transfers strict).Safe t (Prog.collect prepareVictim victims) (fun xs l o =>
      xs.map (·.1) = victims ∧ Decided (xs.map fun x => (x.1, x.2.2)) b rd l o) l o := by
  have hmap (xs : List (PageId × Frame × Bool)) :
      (xs.map fun x => (x.1, x.2.2)).map (·.1) = xs.map (·.1) := by
    rw [List.map_map]
    rfl
  refine safe_collect (fun todo done l o => done.map (·.1) ++ todo = victims ∧
    Decided (done.map fun x => (x.1, x.2.2)) b rd l o) ?_ ?_ ?_
  · exact ⟨rfl, h.idle, h.readRing, by simp, by simp, fun d _ => h.settled d, h.read⟩
  · rintro victim todo done l o ⟨hv, h⟩
    have hnot : victim ∉ (done.map fun x => (x.1, x.2.2)).map (·.1) := by
      rw [hmap]
      intro hm
      rw [← hv] at hn
      exact (List.nodup_append.mp hn).2.2 _ hm _ List.mem_cons_self rfl
    refine own_skip (by simp) h fun _ l o h => own_skip (by simp) h fun old l o h => ?_
    refine safe_bind ((own_decide h fun l o h => h.others victim hnot).mono ?_)
    rintro wb l o ⟨o', h, rfl⟩
    refine ⟨by simpa using hv, ?_⟩
    rw [List.map_append]
    exact h.more hnot wb
  · rintro done l o ⟨hv, h⟩
    exact ⟨by simpa using hv, h⟩

/-- The second loop finds a disk descriptor for each and keeps the decisions. -/
theorem own_findDiskpages {J : Local → Books → Prop}
    [hJ : RingOnly J] {xs : List (PageId × Frame × Bool)}
    (h : J l o) : (transfers strict).Safe t (Prog.collect findDiskpage xs) (fun batch l o =>
    (batch.map fun x => (x.victim, x.writeback)) = (xs.map fun x => (x.1, x.2.2)) ∧ J l o) l o := by
  refine safe_collect (fun todo done l o => (done.map fun x => (x.victim, x.writeback)) ++
    (todo.map fun x => (x.1, x.2.2)) = (xs.map fun x => (x.1, x.2.2)) ∧ J l o) ⟨rfl, h⟩ ?_ ?_
  · rintro x todo done l o ⟨hx, h⟩
    refine own_skip (by simp) h fun hasReserve l o h => ?_
    have hslot (d : PageId) :
        (List.map (fun x : Slot => (x.victim, x.writeback)) (done ++ [⟨x.1, x.2.1, x.2.2, d⟩])) ++
        todo.map (fun x => (x.1, x.2.2)) = xs.map fun x => (x.1, x.2.2) := by
      rw [← hx]
      simp
    refine safe_ite (fun _ => ?_) fun _ => ?_
    · exact own_skip (by simp) h fun d l o h => ⟨hslot d, h⟩
    · exact safe_bind (own_takeDiskFree h fun d l o h => ⟨hslot d, h⟩)
  · rintro done l o ⟨hx, h⟩
    exact ⟨by simpa using hx, h⟩

/-- What is known while the write-backs of a batch are prepared: the slots done and to do,
and a request for each victim done that needs one. -/
structure Preparing (strict : Prop) (done todo : List Slot) (b : Ring) (rd : Buffer → Option Bool)
    (l : Local) (o : Books) : Prop where
  outstanding : (l.ring .ioRing).outstanding = []
  count : (l.ring .ioRing).sq.length ≤ done.length
  ready : strict → (l.ring .ioRing).init = true ∨ ∃ x ∈ todo, x.writeback = true
  readRing : l.ring .ioReadRing = b
  owed : ∀ x ∈ done ++ todo, o.owed x.victim = x.writeback
  write : ∀ x ∈ done ++ todo, o.write x.victim = none
  others : ∀ d, d ∉ (done ++ todo).map (·.victim) → o.owed d = false
  made : ∀ s ∈ (l.ring .ioRing).sq, s.isWrite = true ∧
    ∃ x ∈ done, x.writeback = true ∧ o.request x.victim = some s
  asked : ∀ x ∈ done, x.writeback = true → ∃ s ∈ (l.ring .ioRing).sq, o.request x.victim = some s
  read : o.read = rd

instance {done todo : List Slot} : RingOnly (Preparing strict done todo b rd) :=
  ⟨fun _ _ _ h j => ⟨by rw [h]; exact j.outstanding, by rw [h]; exact j.count,
    by rw [h]; exact j.ready, by rw [h]; exact j.readRing, j.owed, j.write, j.others,
    by rw [h]; exact j.made, by rw [h]; exact j.asked, j.read⟩⟩

private theorem Preparing.skip {x : Slot} {done todo : List Slot}
    (h : Preparing strict done (x :: todo) b rd l o) (hx : x.writeback = false) :
    Preparing strict (done ++ [x]) todo b rd l o := by
  have happ : (done ++ [x]) ++ todo = done ++ x :: todo := by simp
  refine ⟨h.outstanding, by simpa using Nat.le_succ_of_le h.count, fun hst => ?_, h.readRing,
    by rw [happ]; exact h.owed, by rw [happ]; exact h.write, by rw [happ]; exact h.others,
    fun s hs => ?_, fun y hy hw => ?_, h.read⟩
  · rcases h.ready hst with hi | ⟨y, hy, hw⟩
    · exact .inl hi
    · rcases List.mem_cons.mp hy with rfl | hy
      · rw [hx] at hw
        cases hw
      · exact .inr ⟨y, hy, hw⟩
  · obtain ⟨hw, y, hy, hr⟩ := h.made s hs
    exact ⟨hw, y, List.mem_append_left _ hy, hr⟩
  · rcases List.mem_append.mp hy with hy | hy
    · exact h.asked y hy hw
    · obtain rfl := List.mem_singleton.mp hy
      rw [hx] at hw
      cases hw

private theorem Preparing.ask {x : Slot} {done todo : List Slot}
    (h : Preparing strict done (x :: todo) b rd l o)
    (hn : ((done ++ x :: todo).map (·.victim)).Nodup) (hx : x.writeback = true)
    {sqe : Sqe} (hs : sqe.isWrite = true) {l' : Local}
    (hsq : l'.ring .ioRing = ⟨true, (l.ring .ioRing).sq ++ [sqe], []⟩)
    (hb : l'.ring .ioReadRing = l.ring .ioReadRing) :
    Preparing strict (done ++ [x]) todo b rd l' (Books.note (.writing x.victim sqe) o) := by
  have happ : (done ++ [x]) ++ todo = done ++ x :: todo := by simp
  have hne {y : Slot} (hy : y ∈ done) : y.victim ≠ x.victim := by
    intro he
    rw [List.map_append, List.map_cons] at hn
    exact (List.nodup_append.mp hn).2.2 _ (List.mem_map_of_mem hy) _ List.mem_cons_self he
  refine ⟨by rw [hsq], ?_, fun _ => .inl (by rw [hsq]), hb.trans h.readRing,
    by rw [happ]; exact h.owed, fun y hy => ?_, by rw [happ]; exact h.others, fun s hs' => ?_,
    fun y hy hw => ?_, h.read⟩
  · rw [hsq]
    simpa using h.count
  · rw [happ] at hy
    by_cases he : y.victim = x.victim
    · simp [Books.note, he]
    · simpa [Books.note, he] using h.write y hy
  · rw [hsq] at hs'
    rcases List.mem_append.mp hs' with hs' | hs'
    · obtain ⟨hw, y, hy, hyw, hr⟩ := h.made s hs'
      exact ⟨hw, y, List.mem_append_left _ hy, hyw, by simpa [Books.note, hne hy] using hr⟩
    · obtain rfl := List.mem_singleton.mp hs'
      exact ⟨hs, x, by simp, hx, by simp [Books.note]⟩
  · rw [hsq]
    rcases List.mem_append.mp hy with hy | hy
    · obtain ⟨s, hs', hr⟩ := h.asked y hy hw
      exact ⟨s, List.mem_append_left _ hs', by simpa [Books.note, hne hy] using hr⟩
    · obtain rfl := List.mem_singleton.mp hy
      exact ⟨sqe, by simp, by simp [Books.note]⟩

/-- The same with the number of requests. -/
structure PreparingSome (n : Nat) (strict : Prop) (done todo : List Slot)
    (b : Ring) (rd : Buffer → Option Bool) (l : Local)
    (o : Books) : Prop extends Preparing strict done todo b rd l o where
  number : (l.ring .ioRing).sq.length = n

instance {n : Nat} {done todo : List Slot} : RingOnly (PreparingSome n strict done todo b rd) :=
  ⟨fun l l' o h j => ⟨RingOnly.keep l l' o h j.toPreparing, by rw [h]; exact j.number⟩⟩

theorem own_prepareSlot {x : Slot} {done todo : List Slot}
    (hn : ((done ++ x :: todo).map (·.victim)).Nodup) (hlen : done.length < queueDepth) {n : Nat}
    (h : PreparingSome n strict done (x :: todo) b rd l o) :
    (transfers strict).Safe t (prepareSlot x)
      (fun w => PreparingSome (n + if w then 1 else 0) strict (done ++ [x]) todo b rd) l o := by
  refine own_skip (by simp) h fun _ l o h => safe_ite (fun hw => ?_) fun hw => ?_
  · refine own_skip (by simp) h fun new l o h => own_skip (by simp) h fun va l o h => ?_
    refine safe_bind
      (own_traceEvent rfl (fun hs => hs.honest.writing (h.write x (by simp)) _) fun _ => ?_)
    refine safe_bind (safe_bind (own_initOnce fun l₁ h₁ => ?_))
    have hring₁ : l₁.ring .ioRing = ⟨true, (l.ring .ioRing).sq, []⟩ := by
      rw [h₁]
      simp [h.outstanding]
    have hle := h.count
    refine own_prep (by rw [hring₁]) (by rw [hring₁]; simp; omega) (by simp) fun l₂ h₂ => ?_
    have hring₂ : l₂.ring .ioRing =
        ⟨true, (l.ring .ioRing).sq ++ [⟨true, new.offset, .user va, pageSize⟩], []⟩ := by
      rw [h₂]
      simp [hring₁]
    refine ⟨h.toPreparing.ask hn hw rfl hring₂ ?_, ?_⟩
    · rw [h₂, h₁]
      simp
    · rw [hring₂]
      simpa using h.number
  · exact ⟨h.toPreparing.skip (by simpa using hw), by simpa using h.number⟩

/-- What is known while a batch waits for its write-backs. -/
structure Awaiting (batch : List Slot) (n : Nat) (b : Ring) (rd : Buffer → Option Bool) (l : Local)
    (o : Books) : Prop where
  sq : (l.ring .ioRing).sq = []
  init : n ≠ 0 → (l.ring .ioRing).init = true
  count : (l.ring .ioRing).outstanding.length = n
  readRing : l.ring .ioReadRing = b
  owed : ∀ x ∈ batch, o.owed x.victim = x.writeback
  others : ∀ d, d ∉ batch.map (·.victim) → o.owed d = false
  made : ∀ s ∈ (l.ring .ioRing).outstanding,
    s.isWrite = true ∧ ∃ x ∈ batch, x.writeback = true ∧ o.request x.victim = some s
  asked : ∀ x ∈ batch, x.writeback = true → ∃ s, o.request x.victim = some s ∧
    (s ∈ (l.ring .ioRing).outstanding ∨ o.write x.victim ≠ none)
  read : o.read = rd

/-- Each wait settles one request. -/
theorem own_finishWrite {batch : List Slot} {n : Nat} (h : Awaiting batch (n + 1) b rd l o) :
    (transfers strict).Safe t ioringFinishWrite (fun _ => Awaiting batch n b rd) l o := by
  have hinit := h.init (Nat.succ_ne_zero n)
  have hne : (l.ring .ioRing).outstanding ≠ [] := by
    intro he
    have hc := h.count
    rw [he] at hc
    cases hc
  refine own_wait hinit hne fun hs sqe hsqe res => ?_
  obtain ⟨hw, x, hx, hxw, hreq⟩ := h.made sqe hsqe
  refine ⟨hs.honest.wrote hw (by rw [h.owed x hx, hxw]) hreq res, fun l' hl' => ?_⟩
  have hwrite := Books.write_complete (o := o) hw (res == sqe.size)
  have hring : l'.ring .ioRing = ⟨true, [], (l.ring .ioRing).outstanding.erase sqe⟩ := by
    rw [hl']
    simp [h.sq]
  have hrest : (Books.note (.completed sqe res) o).owed = o.owed ∧
      (Books.note (.completed sqe res) o).request = o.request ∧
      (Books.note (.completed sqe res) o).read = o.read := by
    simp [Books.note, Books.complete, hw]
  obtain ⟨h₁, h₂, h₃⟩ := hrest
  refine ⟨by rw [hring], fun _ => by rw [hring], ?_, ?_, by rw [h₁]; exact h.owed,
    by rw [h₁]; exact h.others, fun s hs' => ?_, fun y hy hyw => ?_, h₃.trans h.read⟩
  · rw [hring]
    have hl := List.length_erase_of_mem hsqe
    have hc := h.count
    dsimp only
    omega
  · rw [hl']
    simpa using h.readRing
  · rw [hring] at hs'
    rw [h₂]
    exact h.made s (List.mem_of_mem_erase hs')
  · obtain ⟨s, hr, hor⟩ := h.asked y hy hyw
    refine ⟨s, by rw [h₂]; exact hr, ?_⟩
    rw [hring, show (Books.note (.completed sqe res) o).write = _ from hwrite]
    by_cases he : s = sqe
    · subst he
      exact .inr (by simp [hr])
    · rcases hor with hm | hw'
      · exact .inl ((List.mem_erase_of_ne he).mpr hm)
      · refine .inr ?_
        have hns : o.request y.victim ≠ some sqe := by
          rw [hr]
          simpa using he
        simpa [hns] using hw'

/-- What is known while the victims of a batch are unmapped. -/
structure Unmapping (todo : List Slot) (b : Ring) (rd : Buffer → Option Bool) (l : Local)
    (o : Books) : Prop where
  idle : (l.ring .ioRing).Idle
  readRing : l.ring .ioReadRing = b
  owed : ∀ d, o.owed d = true → (∃ x ∈ todo, x.victim = d) ∧ o.write d ≠ none
  read : o.read = rd

instance {todo : List Slot} : RingOnly (Unmapping todo b rd) :=
  ⟨fun _ _ _ h j => ⟨by rw [h]; exact j.idle, by rw [h]; exact j.readRing, j.owed, j.read⟩⟩

theorem own_unmapSlot {x : Slot} {todo : List Slot} (h : Unmapping (x :: todo) b rd l o) :
    (transfers strict).Safe t (unmapSlot x) (fun _ => Unmapping todo b rd) l o := by
  refine own_skip (by simp) h fun va l o h =>
    safe_bind (own_traceEvent rfl (fun hs => ?_) fun _ => ?_)
  · exact hs.honest.dropping (hs.no_write h.idle) fun ho => (h.owed _ ho).2
  · refine own_last (J := Unmapping todo b rd) (by simp)
      ⟨h.idle, h.readRing, fun d hd => ?_, h.read⟩
    have hdx : d ≠ x.victim := by
      rintro rfl
      simp [Books.note, Books.drop] at hd
    obtain ⟨⟨y, hy, hyd⟩, hw⟩ := h.owed d (by simpa [Books.note, Books.drop, hdx] using hd)
    refine ⟨?_, by simpa [Books.note, Books.drop, hdx] using hw⟩
    rcases List.mem_cons.mp hy with rfl | hy
    · exact absurd hyd.symm hdx
    · exact ⟨y, hy, hyd⟩

/-- A whole batch through the disk. -/
theorem own_extmemMigrateDowndiskVector {batch : List Slot} (hn : (batch.map (·.victim)).Nodup)
    (hlen : batch.length ≤ evictVectorSize)
    (h : Decided (batch.map fun x => (x.victim, x.writeback)) b rd l o) :
    (transfers strict).Safe t (extmemMigrateDowndiskVector batch) (fun _ => Resting b rd) l o := by
  have hvictims :
      (batch.map fun x => (x.victim, x.writeback)).map (·.1) = batch.map (·.victim) := by
    rw [List.map_map]
    rfl
  have howed : ∀ x ∈ batch, o.owed x.victim = x.writeback := fun x hx =>
    h.owed (x.victim, x.writeback) (List.mem_map.mpr ⟨x, hx, rfl⟩)
  have hwrite : ∀ x ∈ batch, o.write x.victim = none := fun x hx =>
    h.write (x.victim, x.writeback) (List.mem_map.mpr ⟨x, hx, rfl⟩)
  have hothers : ∀ d, d ∉ batch.map (·.victim) → o.owed d = false :=
    fun d hd => h.others d (by rwa [hvictims])
  refine safe_bind (own_traceEvent rfl (fun hs => hs.honest) fun hr => safe_bind ?_)
  refine safe_collect (fun todo written l o => ∃ done, done ++ todo = batch ∧
    PreparingSome (written.filter id).length strict done todo b rd l o) ?_ ?_ ?_
  · refine ⟨[], rfl, ⟨⟨h.idle.2, by rw [h.idle.1]; simp, fun hst => ?_, h.readRing, howed, hwrite,
      hothers, by rw [h.idle.1]; simp, by simp, h.read⟩, by rw [h.idle.1]; rfl⟩⟩
    rcases hr hst with hw | hi
    · obtain ⟨x, hx, hxw⟩ := List.mem_map.mp hw
      exact .inr ⟨x, hx, hxw⟩
    · exact .inl hi
  · rintro x todo written l o ⟨done, rfl, hp⟩
    have hdone : done.length < queueDepth := by
      have : done.length + (todo.length + 1) ≤ evictVectorSize := by simpa using hlen
      have : evictVectorSize < queueDepth := by decide
      omega
    refine (own_prepareSlot hn hdone hp).mono fun w l o hw => ⟨done ++ [x], by simp, ?_⟩
    rw [List.filter_append, List.length_append]
    cases w <;> exact hw
  · rintro written l o ⟨done, hdone, hp⟩
    rw [List.append_nil] at hdone
    subst hdone
    have hall : ∀ s ∈ (l.ring .ioRing).sq.reverse, s.isWrite = true :=
      fun s hs => (hp.made s (List.mem_reverse.mp hs)).1
    have hsub := Books.notes_submitted_writes _ hall o
    refine safe_bind (own_submit (fun hst => ?_) (fun hs => ?_) fun l' hl' => ?_)
    · rcases hp.ready hst with hi | ⟨x, hx, -⟩
      · exact hi
      · cases hx
    · rw [hsub]
      exact hs.honest.inFlight _
    · rw [hsub]
      have hring : l'.ring .ioRing = ⟨true, [], (l.ring .ioRing).sq⟩ := by
        rw [hl']
        simp [hp.outstanding]
      refine safe_bind (safe_each (fun xs => Awaiting done xs.length b rd) ?_ ?_ ?_)
      · refine ⟨by rw [hring], fun _ => by rw [hring], by rw [hring]; exact hp.number, ?_, ?_, ?_,
          ?_, ?_, hp.read⟩
        · rw [hl']
          simpa using hp.readRing
        · simpa using hp.owed
        · simpa using hp.others
        · rw [hring]
          exact hp.made
        · rw [hring]
          intro x hx hxw
          obtain ⟨s, hs, hreq⟩ := hp.asked x hx hxw
          exact ⟨s, hreq, .inl hs⟩
      · intro x xs l o h
        exact own_finishWrite h
      · intro l o h
        have hout : (l.ring .ioRing).outstanding = [] := List.length_eq_zero_iff.mp h.count
        refine safe_bind (safe_each (fun todo => Unmapping todo b rd) ?_ ?_ ?_)
        · refine ⟨⟨h.sq, hout⟩, h.readRing, fun d hd => ?_, h.read⟩
          have hd' : d ∈ done.map (·.victim) := by
            by_contra hn
            rw [h.others d hn] at hd
            cases hd
          obtain ⟨x, hx, rfl⟩ := List.mem_map.mp hd'
          rw [h.owed x hx] at hd
          obtain ⟨s, -, hs⟩ := h.asked x hx hd
          rw [hout] at hs
          exact ⟨⟨x, hx, rfl⟩, hs.resolve_left (by simp)⟩
        · intro x todo l o h
          exact own_unmapSlot h
        · intro l o h
          have hrest : Resting b rd l o := by
            refine ⟨h.idle, h.readRing, fun d => ?_, h.read⟩
            by_contra hd
            obtain ⟨⟨x, hx, -⟩, -⟩ := h.owed d (by simpa using hd)
            cases hx
          refine own_skip (always_each fun x => by simp) hrest fun _ l o h => ?_
          exact own_last (within_markAll relinking_plain done) h

/-- One round of the vector worker leaves no transfer behind. -/
theorem own_lrudiskEvictionworkerVector (h : Resting b rd l o) :
    (transfers strict).Safe t lrudiskEvictionworkerVector (fun _ => Resting b rd) l o := by
  refine safe_bind (own_takeVictims evictVectorSize h fun victims l o hn hlen h => ?_)
  refine safe_ite (fun _ => h) fun _ => safe_bind ((own_prepareVictims hn h).mono ?_)
  rintro xs l o ⟨hxs, h⟩
  refine safe_bind ((own_findDiskpages h).mono ?_)
  rintro batch l o ⟨hb, h⟩
  have hvictims : batch.map (·.victim) = victims := by
    have hfst := congrArg (List.map (·.1)) hb
    rw [List.map_map, List.map_map] at hfst
    exact hfst.trans hxs
  rw [← hb] at h
  refine safe_bind
    ((own_extmemMigrateDowndiskVector (by rw [hvictims]; exact hn) ?_ h).mono fun _ l o h => ?_)
  · rw [← hvictims, List.length_map] at hlen
    exact hlen
  · exact own_last (always_each (within_finishSlot relinking_plain)) h

end ExtMem
