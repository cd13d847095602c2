import ExtMem.Transfers.Swapin

/-! Prefetching: as many reads as pages, a slot of the buffer for each, all of them
waited for before the first slot is copied out. -/
namespace ExtMem
open Threads Threads.Prog Threads.Outline
open Books (NoRead)
variable {strict : Prop} {t : Tid} {l : Local} {o : Books} {α β : Type} {b : Ring}
  {rd : Buffer → Option Bool}

/-- The pages to prefetch are no more than the rate allows. -/
theorem own_prefetchList {J : Local → Books → Prop} [RingOnly J] (left va : Nat) (h : J l o) :
    (transfers strict).Safe t (prefetchList left va)
      (fun list l o => list.length ≤ left ∧ J l o) l o := by
  induction left generalizing va l o with
  | zero => exact ⟨Nat.le_refl _, h⟩
  | succ left ih =>
    refine own_skip (by simp) h fun page l o h => ?_
    cases page with
    | none => exact ⟨Nat.zero_le _, h⟩
    | some page =>
      refine safe_bind ((ih _ h).mono ?_)
      rintro rest l o ⟨hlen, h⟩
      exact ⟨Nat.succ_le_succ hlen, h⟩

/-- What is known while the reads of a prefetch are prepared. -/
structure Requesting (strict : Prop) (done todo : List (PageId × Nat)) (l : Local)
    (o : Books) : Prop where
  idle : (l.ring .ioRing).Idle
  outstanding : (l.ring .ioReadRing).outstanding = []
  ready : strict → (l.ring .ioReadRing).init = true ∨ todo ≠ []
  buffers : (l.ring .ioReadRing).sq.map (·.buffer) = done.map fun x => Buffer.prefetchSlot x.2
  reads : ∀ s ∈ (l.ring .ioReadRing).sq, s.isWrite = false
  settled : o.Settled
  read : o.read = NoRead

instance {done todo : List (PageId × Nat)} : RingOnly (Requesting strict done todo) :=
  ⟨fun _ _ _ h j => ⟨by rw [h]; exact j.idle, by rw [h]; exact j.outstanding, by rw [h]; exact j.ready,
    by rw [h]; exact j.buffers, by rw [h]; exact j.reads, j.settled, j.read⟩⟩

theorem own_prefetchSubmit {x : PageId × Nat} {done todo : List (PageId × Nat)}
    (hlen : done.length < queueDepth) (h : Requesting strict done (x :: todo) l o) :
    (transfers strict).Safe t (prefetchSubmit x)
      (fun _ => Requesting strict (done ++ [x]) todo) l o := by
  refine own_skip (by simp) h fun disk l o h => safe_bind (own_initOnce fun l₁ h₁ => ?_)
  have hring₁ : l₁.ring .ioReadRing = ⟨true, (l.ring .ioReadRing).sq, []⟩ := by
    rw [h₁]
    simp [h.outstanding]
  have hsq : (l.ring .ioReadRing).sq.length = done.length := by
    have hb := congrArg List.length h.buffers
    simpa using hb
  refine own_prep (by rw [hring₁]) (by rw [hring₁]; simp; omega) (fun _ => rfl) fun l₂ h₂ => ?_
  have hring₂ : l₂.ring .ioReadRing = ⟨true,
      (l.ring .ioReadRing).sq ++ [⟨false, disk.offset, .prefetchSlot x.2, pageSize⟩], []⟩ := by
    rw [h₂]
    simp [hring₁]
  refine ⟨?_, by rw [hring₂], fun _ => .inl (by rw [hring₂]), ?_, ?_, h.settled, h.read⟩
  · rw [h₂, h₁]
    simpa using h.idle
  · rw [hring₂]
    simp [h.buffers]
  · rw [hring₂]
    intro s hs
    rcases List.mem_append.mp hs with hs | hs
    · exact h.reads s hs
    · obtain rfl := List.mem_singleton.mp hs
      rfl

/-- What is known while a prefetch waits for its reads into the given slots. -/
structure Collecting (slots : List Buffer) (n : Nat) (l : Local) (o : Books) : Prop where
  idle : (l.ring .ioRing).Idle
  sq : (l.ring .ioReadRing).sq = []
  init : n ≠ 0 → (l.ring .ioReadRing).init = true
  count : (l.ring .ioReadRing).outstanding.length = n
  reads : ∀ s ∈ (l.ring .ioReadRing).outstanding, s.isWrite = false
  distinct : ((l.ring .ioReadRing).outstanding.map (·.buffer)).Nodup
  pending : ∀ s ∈ (l.ring .ioReadRing).outstanding, o.read s.buffer = none
  filled : ∀ b ∈ slots, o.read b ≠ none ∨ b ∈ (l.ring .ioReadRing).outstanding.map (·.buffer)
  within : ∀ s ∈ (l.ring .ioReadRing).outstanding, s.buffer ∈ slots
  others : ∀ b, b ∉ slots → o.read b = none
  settled : o.Settled

instance {slots : List Buffer} {n : Nat} : RingOnly (Collecting slots n) :=
  ⟨fun _ _ _ h j => ⟨by rw [h]; exact j.idle, by rw [h]; exact j.sq, by rw [h]; exact j.init,
    by
      rw [h]; exact j.count, by
        rw [h]; exact j.reads, by rw [h]; exact j.distinct, by rw [h]; exact j.pending,
    by rw [h]; exact j.filled, by rw [h]; exact j.within, j.others, j.settled⟩⟩

theorem own_finishRead {slots : List Buffer} {n : Nat} (h : Collecting slots (n + 1) l o) :
    (transfers strict).Safe t ioringFinishRead (fun _ => Collecting slots n) l o := by
  refine own_skip (by simp) h fun _ l o h => ?_
  have hne : (l.ring .ioReadRing).outstanding ≠ [] := by
    intro he
    have hc := h.count
    rw [he] at hc
    cases hc
  refine own_wait (h.init (Nat.succ_ne_zero n)) hne fun hs sqe hsqe res => ?_
  have hw := h.reads sqe hsqe
  refine ⟨hs.honest.filled hw (h.pending sqe hsqe) res, fun l' hl' => ?_⟩
  have hring : l'.ring .ioReadRing = ⟨true, [], (l.ring .ioReadRing).outstanding.erase sqe⟩ := by
    rw [hl']
    simp [h.sq]
  have hread : (Books.note (.completed sqe res) o).read =
      Function.update o.read sqe.buffer (some (res == sqe.size)) := by
    simp [Books.note, Books.complete, hw]
  have howed : (Books.note (.completed sqe res) o).owed = o.owed := by
    simp [Books.note, Books.complete, hw]
  have hnd : ((sqe :: (l.ring .ioReadRing).outstanding.erase sqe).map (·.buffer)).Nodup :=
    ((List.perm_cons_erase hsqe).map (·.buffer)).nodup_iff.mp h.distinct
  rw [List.map_cons, List.nodup_cons] at hnd
  refine ⟨?_, by rw [hring], fun _ => by rw [hring], ?_, ?_, by rw [hring]; exact hnd.2, ?_, ?_, ?_,
    ?_, ?_⟩
  · rw [hl']
    simpa using h.idle
  · rw [hring]
    have hl := List.length_erase_of_mem hsqe
    have hc := h.count
    dsimp only
    omega
  · rw [hring]
    exact fun s hs' => h.reads s (List.mem_of_mem_erase hs')
  · rw [hring, hread]
    intro s hs'
    have hne : s.buffer ≠ sqe.buffer := fun he => hnd.1 (he ▸ List.mem_map_of_mem hs')
    rw [Function.update_of_ne hne]
    exact h.pending s (List.mem_of_mem_erase hs')
  · rw [hring, hread]
    intro b' hb'
    by_cases he : b' = sqe.buffer
    · subst he
      exact .inl (by simp)
    · rw [Function.update_of_ne he]
      rcases h.filled b' hb' with hr | hm
      · exact .inl hr
      · obtain ⟨s, hs', rfl⟩ := List.mem_map.mp hm
        have hss : s ≠ sqe := fun hse => he (by rw [hse])
        exact .inr (List.mem_map_of_mem ((List.mem_erase_of_ne hss).mpr hs'))
  · rw [hring]
    exact fun s hs' => h.within s (List.mem_of_mem_erase hs')
  · rw [hread]
    intro b' hb'
    have hne : b' ≠ sqe.buffer := fun he => hb' (he ▸ h.within sqe hsqe)
    rw [Function.update_of_ne hne]
    exact h.others b' hb'
  · intro d
    rw [howed]
    exact h.settled d

/-- What is known while the pages of a prefetch are put into place. -/
structure Placing (todo : List ((PageId × Nat) × PageId)) (l : Local) (o : Books) : Prop where
  resting : ∃ b : Ring, b.Idle ∧ Resting b o.read l o
  filled : ∀ x ∈ todo, o.read (.prefetchSlot x.1.2) ≠ none
  others : ∀ b, o.read b ≠ none → ∃ x ∈ todo, b = .prefetchSlot x.1.2

theorem own_prefetchFinish {x : (PageId × Nat) × PageId} {todo : List ((PageId × Nat) × PageId)}
    (hn : ((x :: todo).map (·.1.2)).Nodup) (h : Placing (x :: todo) l o) :
    (transfers strict).Safe t (prefetchFinish x) (fun _ => Placing todo) l o := by
  obtain ⟨b, hb, hr⟩ := h.resting
  obtain ⟨rd, hrd⟩ : ∃ rd, rd = o.read := ⟨_, rfl⟩
  rw [← hrd] at hr
  refine safe_bind
    ((own_copyIn rfl hb.2 hr (by rw [hrd]; exact h.filled x (by simp))).mono fun _ l o hr' => ?_)
  refine own_skip (by simp) hr' fun _ l o hr' => own_skip (by simp) hr' fun _ l o hr' => ?_
  refine (own_last (by simp) hr').mono fun _ l o hr' => ?_
  have hread := hr'.read
  refine ⟨⟨b, hb, hr'.idle, hr'.readRing, hr'.settled, rfl⟩, fun y hy => ?_, fun b' hb' => ?_⟩
  · have hne : y.1.2 ≠ x.1.2 := by
      rw [List.map_cons, List.nodup_cons] at hn
      exact fun he => hn.1 (he ▸ List.mem_map.mpr ⟨y, hy, rfl⟩)
    rw [hread, Function.update_of_ne (by simpa using hne), hrd]
    exact h.filled y (List.mem_cons_of_mem _ hy)
  · rw [hread] at hb'
    have hne : b' ≠ .prefetchSlot x.1.2 := by
      rintro rfl
      simp at hb'
    rw [Function.update_of_ne hne, hrd] at hb'
    obtain ⟨y, hy, rfl⟩ := h.others b' hb'
    rcases List.mem_cons.mp hy with rfl | hy
    · exact absurd rfl hne
    · exact ⟨y, hy, rfl⟩

/-- A prefetch of any number of pages. -/
theorem own_coreTryPrefetch {base : Nat} (h : AtRest l o) :
    (transfers strict).Safe t (coreTryPrefetch base) (fun _ => AtRest) l o := by
  refine own_skip (by simp) h fun _ l o h => safe_bind ((own_prefetchList _ _ h).mono ?_)
  rintro list l o ⟨hlen, b, hb, h⟩
  refine safe_bind (own_traceEvent rfl (fun hs => hs.honest) fun hready => ?_)
  have h₀ : Requesting strict [] list.zipIdx l o := by
    refine ⟨h.idle, by rw [h.readRing]; exact hb.2, fun hst => ?_, by rw [h.readRing, hb.1]; rfl,
      by rw [h.readRing, hb.1]; simp, h.settled, h.read⟩
    rcases hready hst with hne | hi
    · exact .inr (by simpa using hne)
    · exact .inl hi
  refine own_skip (J := Requesting strict [] list.zipIdx) (by simp) h₀ fun _ l o h₀ => safe_bind ?_
  refine safe_each (fun todo l o =>
    ∃ done, done ++ todo = list.zipIdx ∧ Requesting strict done todo l o) ⟨[], rfl, h₀⟩ ?_ ?_
  · rintro x todo l o ⟨done, hdone, h⟩
    have hlt : done.length < queueDepth := by
      have hl := congrArg List.length hdone
      rw [List.length_append, List.length_cons, List.length_zipIdx] at hl
      have : corePrefetchRate < queueDepth := by decide
      omega
    exact (own_prefetchSubmit hlt h).mono fun _ l o h => ⟨done ++ [x], by simpa using hdone, h⟩
  rintro l o ⟨done, hdone, h⟩
  rw [List.append_nil] at hdone
  subst hdone
  have hsub := Books.notes_submitted_reads (l.ring .ioReadRing).sq.reverse o h.read
  refine safe_bind
    (own_submit (fun hst => (h.ready hst).resolve_right (by simp)) (fun hs => ?_) fun l' hl' => ?_)
  · rw [hsub]
    exact hs.honest.inFlight _
  rw [hsub]
  obtain ⟨reqs, hreqs⟩ : ∃ reqs, reqs = (l.ring .ioReadRing).sq := ⟨_, rfl⟩
  have hbuf : reqs.map (·.buffer) = list.zipIdx.map fun x => Buffer.prefetchSlot x.2 := by
    rw [hreqs]
    exact h.buffers
  have hreads : ∀ s ∈ reqs, s.isWrite = false := by
    rw [hreqs]
    exact h.reads
  have h₁ : Resting ⟨true, [], reqs⟩ NoRead l'
      { o with inFlight := (l.ring .ioReadRing).sq.reverse ++ o.inFlight } := by
    refine ⟨?_, ?_, h.settled, h.read⟩
    · rw [hl']
      simpa using h.idle
    · rw [hl', hreqs]
      simp [h.outstanding]
  clear hl' hsub h
  refine safe_bind (safe_collect (fun todo done l o => done.length + todo.length = list.length ∧
    Resting ⟨true, [], reqs⟩ NoRead l o) ⟨by simp, h₁⟩ ?_ ?_)
  · rintro x todo done l o ⟨hl, h⟩
    refine (own_lrudiskPagefault h).mono fun page l o h => ⟨?_, h⟩
    simp only [List.length_append, List.length_cons, List.length_nil] at hl ⊢
    omega
  rintro freepages l o ⟨hfree, h⟩
  have hidx : (list.zipIdx.map fun x => Buffer.prefetchSlot x.2).Nodup := by
    have hs : (list.zipIdx.map fun x => x.2) = List.range list.length := by
      simp [List.zipIdx_map_snd, List.range_eq_range']
    have hmap : (list.zipIdx.map fun x => Buffer.prefetchSlot x.2) =
        (list.zipIdx.map fun x => x.2).map Buffer.prefetchSlot := by
      rw [List.map_map]
      rfl
    rw [hmap, hs]
    exact List.nodup_range.map fun i j hij => by simpa using hij
  have hcount : reqs.length = list.length := by
    have hl := congrArg List.length hbuf
    simpa using hl
  refine safe_bind (safe_each (fun rest => Collecting (reqs.map (·.buffer)) rest.length) ?_ ?_ ?_)
  · have hring : l.ring .ioReadRing = ⟨true, [], reqs⟩ := h.readRing
    refine ⟨h.idle, by rw [hring], fun _ => by rw [hring], by rw [hring]; exact hcount,
      by rw [hring]; exact hreads, by rw [hring, hbuf]; exact hidx, fun s _ => by rw [h.read]; rfl,
      fun b' hb' => .inr (by rw [hring]; exact hb'), fun s hs => ?_,
      fun b' _ => by rw [h.read]; rfl, h.settled⟩
    rw [hring] at hs
    exact List.mem_map_of_mem hs
  · intro x rest l o h
    exact own_finishRead h
  intro l o h
  have hout : (l.ring .ioReadRing).outstanding = [] := List.length_eq_zero_iff.mp h.count
  have hsnd : ((list.zipIdx.zip freepages).map (·.1)) = list.zipIdx := by
    refine List.map_fst_zip ?_
    rw [List.length_zipIdx]
    simp only [List.length_nil, Nat.add_zero] at hfree
    omega
  refine safe_bind
    (safe_each (fun todo l o => (todo.map (·.1.2)).Nodup ∧ Placing todo l o) ⟨?_, ?_⟩ ?_ ?_)
  · have hs : (list.zipIdx.zip freepages).map (·.1.2) = List.range list.length := by
      have hm : (list.zipIdx.zip freepages).map (·.1.2) =
          ((list.zipIdx.zip freepages).map (·.1)).map (·.2) := by
        rw [List.map_map]
        rfl
      rw [hm, hsnd]
      simp [List.zipIdx_map_snd, List.range_eq_range']
    rw [hs]
    exact List.nodup_range
  · have hslot : ∀ b' : Buffer, b' ∈ reqs.map (·.buffer) ↔
        ∃ x ∈ list.zipIdx.zip freepages, b' = .prefetchSlot x.1.2 := by
      intro b'
      rw [hbuf]
      constructor
      · intro hm
        obtain ⟨x, hx, rfl⟩ := List.mem_map.mp hm
        rw [← hsnd] at hx
        obtain ⟨y, hy, rfl⟩ := List.mem_map.mp hx
        exact ⟨y, hy, rfl⟩
      · rintro ⟨y, hy, rfl⟩
        refine List.mem_map.mpr ⟨y.1, ?_, rfl⟩
        rw [← hsnd]
        exact List.mem_map_of_mem hy
    refine ⟨⟨l.ring .ioReadRing, ⟨h.sq, hout⟩, h.idle, rfl, h.settled, rfl⟩, fun x hx => ?_,
      fun b' hb' => ?_⟩
    · refine (h.filled _ ((hslot _).mpr ⟨x, hx, rfl⟩)).resolve_right ?_
      rw [hout]
      simp
    · by_contra hn
      exact hb' (h.others b' fun hm => hn ((hslot b').mp hm))
  · rintro x todo l o ⟨hn, h⟩
    exact (own_prefetchFinish hn h).mono fun _ l o h => ⟨(List.nodup_cons.mp hn).2, h⟩
  · rintro l o ⟨-, h⟩
    obtain ⟨b, hb, hr⟩ := h.resting
    refine ⟨b, hb, hr.idle, hr.readRing, hr.settled, funext fun b' => ?_⟩
    by_contra hn
    obtain ⟨x, hx, -⟩ := h.others b' hn
    cases hx

end ExtMem
