import ExtMem.Transfers.Own

/-! What the operations on a ring do to the rings and the books of the thread. -/
namespace ExtMem
open Threads Threads.Prog Threads.Outline
variable {strict : Prop} {t : Tid} {l : Local} {o : Books} {α : Type}

/-- A ring with nothing prepared and nothing outstanding. -/
def Ring.Idle (q : Ring) : Prop := q.sq = [] ∧ q.outstanding = []

/-- Events that change neither what is in flight nor, for the sake of the rings, anything else. -/
def Event.offRing : Event → Bool
  | .submitted _ | .completed _ _ => false
  | _ => true

theorem note_inFlight {ev : Event} (h : ev.offRing = true) (o : Books) :
    (Books.note ev o).inFlight = o.inFlight := by
  cases ev with
  | submitted sqe => cases h
  | completed sqe res => cases h
  | copied va src => cases src <;> rfl
  | _ => rfl

theorem Sound.note {ring : RingName → Ring} (h : Sound ring o) {ev : Event}
    (hev : ev.offRing = true) (hh : (Books.note ev o).Honest) : Sound ring (Books.note ev o) :=
  ⟨h.bounded, h.unused, h.reads, by rw [note_inFlight hev]; exact h.counted, hh⟩

/-- A traced event that the books can bear. -/
theorem own_traceEvent {ev : Event} {Q : Unit → Local → Books → Prop} (hev : ev.offRing = true)
    (hh : Sound l.ring o → (Books.note ev o).Honest)
    (h : (strict → ReadyRings l.ring ev) → Q () l (Books.note ev o)) :
    (transfers strict).Safe t (traceEvent ev) Q l o := by
  refine safe_atomic.mpr (own_action fun hs s => ⟨[ev], rfl, rfl, fun hr => ?_⟩)
  exact ⟨hs.note hev (hh hs), h fun hst => hr hst ev List.mem_cons_self⟩

/-- Initialising a ring on first use loses nothing. -/
theorem own_initOnce {r : RingName} {Q : Unit → Local → Books → Prop}
    (h : ∀ l', l'.ring = Function.update l.ring r ⟨true, (l.ring r).sq, (l.ring r).outstanding⟩ →
      Q () l' o) : (transfers strict).Safe t (initOnce r) Q l o := by
  refine safe_bind (safe_atomic.mpr (own_action fun hs s => ⟨[], rfl, rfl, fun _ => ⟨hs, ?_⟩⟩))
  rw [threadInit_eq]
  show (transfers strict).Safe t (if (l.ring r).init then pure () else ioUringQueueInit r) Q l o
  cases hi : (l.ring r).init with
  | true =>
    refine h l ?_
    rw [← hi]
    exact (Function.update_eq_self r l.ring).symm
  | false =>
    obtain ⟨hsq, hout⟩ := hs.unused r hi
    refine safe_atomic.mpr (own_action fun hs s => ?_)
    refine ⟨[], rfl, rfl, fun _ => ?_⟩
    have hring : (l.setRing r fun _ => ⟨true, [], []⟩).ring =
        Function.update l.ring r ⟨true, (l.ring r).sq, (l.ring r).outstanding⟩ := by
      rw [hsq, hout]
      rfl
    refine ⟨?_, h _ hring⟩
    show Sound (l.setRing r fun _ => ⟨true, [], []⟩).ring o
    rw [hring]
    refine ⟨fun r' => ?_, fun r' hr' => ?_, ?_, ?_, hs.honest⟩
    · by_cases hrr : r' = r
      · subst hrr
        simpa using hs.bounded r'
      · simpa [hrr] using hs.bounded r'
    · by_cases hrr : r' = r
      · subst hrr
        simp at hr'
      · simp only [Function.update_of_ne hrr] at hr' ⊢
        exact hs.unused r' hr'
    · cases r <;> simpa [Function.update] using hs.reads
    · cases r <;> simpa [Function.update] using hs.counted

/-- A request is prepared while there is room. -/
theorem own_prep {r : RingName} {sqe : Sqe}
    {Q : Unit → Local → Books → Prop} (hinit : (l.ring r).init = true)
    (hroom : (l.ring r).sq.length + (l.ring r).outstanding.length < queueDepth)
    (hread : r = .ioReadRing → sqe.isWrite = false) (h : ∀ l', l'.ring =
      Function.update l.ring r ⟨true, (l.ring r).sq ++ [sqe], (l.ring r).outstanding⟩ → Q () l' o) :
    (transfers strict).Safe t (ioUringPrep r sqe) Q l o := by
  refine safe_atomic.mpr (own_action fun hs s => ?_)
  rw [if_pos (show (l.ring r).sq.length < queueDepth by omega)]
  refine ⟨[], rfl, rfl, fun _ => ⟨?_, h _ (by rw [← hinit]; rfl)⟩⟩
  refine ⟨fun r' => ?_, fun r' hr' => ?_, ?_, ?_, hs.honest⟩
  · by_cases hrr : r' = r
    · subst hrr
      simp [Local.setRing]
      omega
    · simpa [Local.setRing, hrr] using hs.bounded r'
  · by_cases hrr : r' = r
    · subst hrr
      simp [Local.setRing, hinit] at hr'
    · simp only [Local.setRing, Function.update_of_ne hrr] at hr' ⊢
      exact hs.unused r' hr'
  · have hreads := hs.reads
    cases r with
    | ioRing => simpa [Local.setRing, Function.update] using hreads
    | ioReadRing =>
      intro x hx
      simp only [Local.setRing, Function.update_self, List.mem_append, List.mem_singleton] at hx
      rcases hx with (hx | rfl) | hx
      · exact hreads x (List.mem_append_left _ hx)
      · exact hread rfl
      · exact hreads x (List.mem_append_right _ hx)
  · cases r <;> simpa [Local.setRing, Function.update] using hs.counted

private theorem foldl_submitted (l : Local) (sqes : List Sqe) (e : Env) (hl : e.loc = l) :
    sqes.foldl (fun e sqe => e.record (.submitted sqe)) e =
      ⟨{ e.sh with log := (sqes.reverse.map fun q => (l.tid, Event.submitted q)) ++ e.sh.log },
      l⟩ := by
  induction sqes generalizing e with
  | nil =>
    subst hl
    rfl
  | cons q sqes ih =>
    rw [List.foldl_cons, ih _ (by exact hl)]
    simp [Threads.Ctx.record, hl]

/-- The books after requests were submitted, the last one first in the list. -/
theorem notes_submitted_inFlight (sqes : List Sqe) (o : Books) :
    (Books.notes (sqes.map Event.submitted) o).inFlight = sqes ++ o.inFlight := by
  induction sqes with
  | nil => rfl
  | cons q sqes ih =>
    rw [List.map_cons, Books.notes_cons, Books.note]
    dsimp only
    split
    · simp [ih]
    · simp [ih]

/-- Everything that is prepared becomes outstanding. -/
theorem own_submit {r : RingName} {Q : Unit → Local → Books → Prop}
    (hinit : strict → (l.ring r).init = true)
    (hh : Sound l.ring o → (Books.notes ((l.ring r).sq.reverse.map Event.submitted) o).Honest)
    (h : ∀ l', l'.ring = Function.update l.ring r ⟨true, [], (l.ring r).outstanding ++
      (l.ring r).sq⟩ → Q () l' (Books.notes ((l.ring r).sq.reverse.map Event.submitted) o)) :
    (transfers strict).Safe t (ioUringSubmit r) Q l o := by
  refine safe_atomic.mpr (own_action fun hs s => ?_)
  dsimp only
  cases hi : (l.ring r).init with
  | false =>
    rw [if_neg (by simp)]
    rintro (h | h | ⟨hst, -⟩)
    · cases h
    · cases h
    · rw [hinit hst] at hi
      cases hi
  | true =>
    rw [if_pos rfl, foldl_submitted
      (l.setRing r fun q => { q with sq := [], outstanding := q.outstanding ++ q.sq }) _ _ rfl]
    have hring :
        (l.setRing r fun q => { q with sq := [], outstanding := q.outstanding ++ q.sq }).ring =
        Function.update l.ring r ⟨true, [], (l.ring r).outstanding ++ (l.ring r).sq⟩ := by
      rw [Local.setRing, ← hi]
    refine ⟨(l.ring r).sq.reverse.map Event.submitted, by simp [Local.setRing, List.map_map], rfl,
      fun _ => ?_⟩
    refine ⟨?_, h _ hring⟩
    dsimp only
    rw [hring]
    refine ⟨fun r' => ?_, fun r' hr' => ?_, ?_, ?_, hh hs⟩
    · by_cases hrr : r' = r
      · subst hrr
        have hb := hs.bounded r'
        simp only [Function.update_self, List.length_nil, List.length_append]
        omega
      · simpa [hrr] using hs.bounded r'
    · by_cases hrr : r' = r
      · subst hrr
        simp at hr'
      · simp only [Function.update_of_ne hrr] at hr' ⊢
        exact hs.unused r' hr'
    · have hreads := hs.reads
      cases r with
      | ioRing => simpa [Function.update] using hreads
      | ioReadRing =>
        intro x hx
        simp only [Function.update_self, List.nil_append, List.mem_append] at hx hreads
        exact hreads x hx.symm
    · rw [notes_submitted_inFlight]
      have hc := hs.counted
      rw [List.perm_iff_count] at hc ⊢
      intro x
      have hx := hc x
      cases r <;> simp [Function.update, List.count_append] at hx ⊢ <;> omega

/-- A completion is that of some outstanding request, with any result. -/
theorem own_wait {r : RingName} {Q : Unit → Local → Books → Prop} (hinit : (l.ring r).init = true)
    (hout : (l.ring r).outstanding ≠ []) (h : Sound l.ring o →
      ∀ sqe ∈ (l.ring r).outstanding, ∀ res : Int, (Books.note (.completed sqe res) o).Honest ∧
      ∀ l', l'.ring = Function.update l.ring r ⟨true, (l.ring r).sq,
      (l.ring r).outstanding.erase sqe⟩ → Q () l' (Books.note (.completed sqe res) o)) :
    (transfers strict).Safe t (ioUringWaitCqe r) Q l o := by
  refine safe_bind (safe_answer fun pick => safe_bind (safe_answer fun code => ?_))
  refine safe_atomic.mpr (own_action fun hs s => ?_)
  dsimp only
  rw [if_pos hinit]
  have hlt : pick % (l.ring r).outstanding.length < (l.ring r).outstanding.length :=
    Nat.mod_lt _ (List.length_pos_iff.mpr hout)
  rw [List.getElem?_eq_getElem hlt]
  dsimp only
  obtain ⟨sqe, hsqe⟩ : ∃ sqe, sqe = (l.ring r).outstanding[pick % (l.ring r).outstanding.length] :=
    ⟨_, rfl⟩
  have hmem : sqe ∈ (l.ring r).outstanding := hsqe ▸ List.getElem_mem hlt
  rw [← hsqe]
  obtain ⟨res, hres⟩ : ∃ res, res = Threads.Ctx.transferResult ⟨s, l⟩ sqe code := ⟨_, rfl⟩
  rw [← hres]
  obtain ⟨hh, hq⟩ := h hs sqe hmem res
  have hloc (e : Env) (b : Buffer) (f : Bytes → Bytes) :
      (e.setBuffer b f).loc.ring = e.loc.ring ∧ (e.setBuffer b f).loc.tid = e.loc.tid ∧
        (e.setBuffer b f).sh = e.sh := by
    unfold Threads.Ctx.setBuffer
    split <;> exact ⟨rfl, rfl, rfl⟩
  have htr (e : Env) : (e.transfer sqe res).loc.ring = e.loc.ring ∧
      (e.transfer sqe res).loc.tid = e.loc.tid ∧ (e.transfer sqe res).sh.log = e.sh.log := by
    unfold Threads.Ctx.transfer
    split
    · split <;> exact ⟨rfl, rfl, rfl⟩
    · obtain ⟨h₁, h₂, h₃⟩ := hloc e sqe.buffer fun old =>
        splice res.toNat (e.sh.disk sqe.offset) old
      exact ⟨h₁, h₂, by rw [h₃]⟩
  obtain ⟨h₁, h₂, h₃⟩ :=
    htr ⟨s, l.setRing r fun q => { q with outstanding := q.outstanding.erase sqe }⟩
  refine ⟨[.completed sqe res], ?_, h₂, fun _ => ⟨?_, hq _ (by rw [← hinit]; exact h₁)⟩⟩
  · show (_, _) :: (Threads.Ctx.transfer _ sqe res).sh.log = _
    rw [h₂, h₃]
    rfl
  · show Sound (Threads.Ctx.transfer _ sqe res).loc.ring _
    rw [h₁]
    refine ⟨fun r' => ?_, fun r' hr' => ?_, ?_, ?_, hh⟩
    · by_cases hrr : r' = r
      · subst hrr
        have hb := hs.bounded r'
        have he := List.length_erase_of_mem hmem
        simp only [Local.setRing, Function.update_self, he]
        omega
      · simpa [Local.setRing, hrr] using hs.bounded r'
    · by_cases hrr : r' = r
      · subst hrr
        simp [Local.setRing, hinit] at hr'
      · simp only [Local.setRing, Function.update_of_ne hrr] at hr' ⊢
        exact hs.unused r' hr'
    · have hreads := hs.reads
      cases r with
      | ioRing => simpa [Local.setRing, Function.update] using hreads
      | ioReadRing =>
        intro x hx
        simp only [Local.setRing, Function.update_self, List.mem_append] at hx
        rcases hx with hx | hx
        · exact hreads x (List.mem_append_left _ hx)
        · exact hreads x (List.mem_append_right _ (List.mem_of_mem_erase hx))
    · have hc := hs.counted
      have hin : (Books.note (.completed sqe res) o).inFlight = o.inFlight.erase sqe := by
        unfold Books.note Books.complete
        dsimp only
        split <;> rfl
      rw [Books.notes_cons, Books.notes_nil, hin]
      rw [List.perm_iff_count] at hc ⊢
      intro x
      have hx := hc x
      have hpos : 0 < (l.ring r).outstanding.count sqe := List.count_pos_iff.mpr hmem
      by_cases hxs : sqe = x
      · subst hxs
        cases r <;> simp [Local.setRing, Function.update, List.count_append,
          List.count_erase_self] at hx ⊢ <;> omega
      · cases r <;> simp [Local.setRing, Function.update, List.count_append,
          List.count_erase_of_ne (Ne.symm hxs)] at hx ⊢ <;> omega

end ExtMem
