import ExtMem.Transfers.Batch

/-! Swap-ins: a page is mapped from a buffer only after the read into it is done. -/
namespace ExtMem
open Threads Threads.Prog Threads.Outline

namespace Books
variable {o : Books} {sqe : Sqe}

/-- The books with no buffer read into or waiting to be copied. -/
def NoRead : Buffer → Option Bool := fun _ => none

theorem Honest.filled (h : o.Honest) (hw : sqe.isWrite = false) (hb : o.read sqe.buffer = none)
    (res : Int) : (note (.completed sqe res) o).Honest := by
  show (o.complete sqe (res == sqe.size)).Honest
  generalize (res == (sqe.size : Int)) = full
  refine ⟨by simp [complete, hw, h.timely], ?_⟩
  have hshort : (o.complete sqe full).short = true ↔ o.short = true ∨ full = false := by
    simp [complete, hw]
  have hread : (o.complete sqe full).read = Function.update o.read sqe.buffer (some full) := by
    simp [complete, hw]
  have hrest : (o.complete sqe full).damaged = o.damaged ∧ (o.complete sqe full).owed = o.owed ∧
      (o.complete sqe full).write = o.write := by
    simp [complete, hw]
  obtain ⟨h₁, h₂, h₃⟩ := hrest
  rw [hshort, h₁, h.traced, Owes, Owes, hread, h₂, h₃]
  constructor
  · rintro ((hs | ⟨b, hb'⟩ | hd) | rfl)
    · exact .inl hs
    · refine .inr (.inl ⟨b, ?_⟩)
      have hne : b ≠ sqe.buffer := by
        rintro rfl
        rw [hb] at hb'
        cases hb'
      rw [Function.update_of_ne hne]
      exact hb'
    · exact .inr (.inr hd)
    · exact .inr (.inl ⟨sqe.buffer, Function.update_self _ _ _⟩)
  · rintro (hs | ⟨b, hb'⟩ | hd)
    · exact .inl (.inl hs)
    · by_cases hne : b = sqe.buffer
      · subst hne
        rw [Function.update_self, Option.some.injEq] at hb'
        exact .inr hb'
      · rw [Function.update_of_ne hne] at hb'
        exact .inl (.inr (.inl ⟨b, hb'⟩))
    · exact .inl (.inr (.inr hd))

/-- Copying out a buffer whose read is done is not late, and passes a failure on. -/
theorem Honest.copyOut (h : o.Honest) (hf : o.inFlight = []) {b : Buffer} (hb : o.read b ≠ none) :
    (o.copyOut b).Honest := by
  refine ⟨?_, h.traced.trans ?_⟩
  · have hn : (o.read b).isNone = false := by
      cases hr : o.read b with
      | none => exact absurd hr hb
      | some full => rfl
    simp [Books.copyOut, h.timely, hf, hn]
  · have hdam : (o.copyOut b).damaged = true ↔ o.damaged = true ∨ o.read b = some false := by
      simp [Books.copyOut]
    have hread : (o.copyOut b).read = Function.update o.read b none := rfl
    rw [hdam, Owes, Owes, hread]
    constructor
    · rintro (hs | ⟨b', hb'⟩ | hd)
      · exact .inl (.inl hs)
      · by_cases hbb : b' = b
        · exact .inl (.inr (hbb ▸ hb'))
        · exact .inr (.inl ⟨b', by rw [Function.update_of_ne hbb]; exact hb'⟩)
      · exact .inr (.inr hd)
    · rintro ((hs | hr) | ⟨b', hb'⟩ | hd)
      · exact .inl hs
      · exact .inr (.inl ⟨b, hr⟩)
      · by_cases hbb : b' = b
        · subst hbb
          rw [Function.update_self] at hb'
          cases hb'
        · rw [Function.update_of_ne hbb] at hb'
          exact .inr (.inl ⟨b', hb'⟩)
      · exact .inr (.inr hd)

/-- Submitting reads while no buffer is read into changes nothing but what is in flight. -/
theorem notes_submitted_reads (sqes : List Sqe) (o : Books) (h : o.read = NoRead) :
    notes (sqes.map Event.submitted) o = { o with inFlight := sqes ++ o.inFlight } := by
  induction sqes with
  | nil => rfl
  | cons s sqes ih =>
    rw [List.map_cons, notes_cons, ih]
    have hu : Function.update o.read s.buffer none = o.read := by
      rw [h]
      exact Function.update_eq_self _ _
    simp [note, hu]

end Books

open Books (NoRead)

/-- A buffer of the thread's own. -/
def Buffer.own : Buffer → Bool
  | .bufferSpace | .prefetchSlot _ => true
  | _ => false

theorem note_copied {b : Buffer} (hb : b.own = true) (va : Nat) (o : Books) :
    Books.note (.copied va b) o = o.copyOut b := by
  cases b <;> first | rfl | cases hb

variable {strict : Prop} {t : Tid} {l : Local} {o : Books} {α β : Type} {b : Ring}
  {rd : Buffer → Option Bool}

theorem not_bad_copyFailed : ¬ (transfers strict).bad .copyFailed := by
  rintro (h | h | ⟨-, h⟩) <;> cases h

/-- The copy out of one of the thread's own buffers. -/
theorem own_copyIn {page : PageId} {src : Buffer} (hsrc : src.own = true) (hb : b.outstanding = [])
    (h : Resting b rd l o) (hrd : rd src ≠ none) :
    (transfers strict).Safe t (copyIn page src)
      (fun _ => Resting b (Function.update rd src none)) l o := by
  refine own_skip (by simp) h fun va l o h =>
    safe_bind (safe_atomic.mpr (own_action fun hs s => ?_))
  have hfl : o.inFlight = [] := by
    have hc := hs.counted
    rw [h.idle.2, h.readRing, hb] at hc
    exact List.perm_nil.mp hc
  have hfail : (transfers strict).Safe t (Prog.check false .copyFailed : Paging Unit)
      (fun _ => Resting b (Function.update rd src none)) l o := safe_fail not_bad_copyFailed
  rcases hbytes : Threads.Ctx.bufferBytes ⟨s, l⟩ src with _ | bytes
  · exact ⟨[], rfl, rfl, fun _ => ⟨hs, hfail⟩⟩
  · dsimp only
    by_cases hv : s.vma va = .uffd ∧ (s.pte va).isNone = true
    · rw [if_pos hv]
      refine ⟨[.copied va src], rfl, rfl, fun _ => ?_⟩
      have hnote : Books.notes [.copied va src] o = o.copyOut src := note_copied hsrc va o
      rw [hnote]
      have hh := hs.honest.copyOut hfl (b := src) (by rw [h.read]; exact hrd)
      exact ⟨⟨hs.bounded, hs.unused, hs.reads, hs.counted, hh⟩,
        h.idle, h.readRing, h.settled, by rw [← h.read]; rfl⟩
    · rw [if_neg hv]
      exact ⟨[], rfl, rfl, fun _ => ⟨hs, hfail⟩⟩

/-! Reading one page. -/

/-- The books once the read into the one-page buffer is done. -/
def Filled (full : Bool) : Buffer → Option Bool := Function.update NoRead .bufferSpace (some full)

private theorem update_filled (full : Bool) :
    Function.update (Filled full) .bufferSpace none = NoRead := by
  rw [Filled, Function.update_idem]
  exact Function.update_eq_self _ _

private theorem filled_ne (full : Bool) : Filled full .bufferSpace ≠ none := by
  simp [Filled]

/-- A copy of the one-page buffer ends the read. -/
private theorem own_copyBuffer {page : PageId} (hb : b.outstanding = [])
    (h : ∃ full, Resting b (Filled full) l o) :
    (transfers strict).Safe t (copyIn page .bufferSpace) (fun _ => Resting b NoRead) l o := by
  obtain ⟨full, h⟩ := h
  rw [← update_filled full]
  exact own_copyIn rfl hb h (filled_ne full)

theorem own_ioringReadStore (h : Resting b NoRead l o) (offset size : Nat) :
    (transfers strict).Safe t (ioringReadStore offset .bufferSpace size)
      (fun _ l o => ∃ full, Resting b (Filled full) l o) l o := by
  refine safe_bind (own_initOnce fun l₁ h₁ => safe_bind ?_)
  have hring₁ : l₁.ring .ioRing = ⟨true, [], []⟩ := by
    rw [h₁]
    simp [h.idle.1, h.idle.2]
  refine own_prep (by rw [hring₁]) (by rw [hring₁]; decide) (by simp) fun l₂ h₂ => safe_bind ?_
  have hring₂ : l₂.ring .ioRing = ⟨true, [⟨false, offset, .bufferSpace, size⟩], []⟩ := by
    rw [h₂]
    simp [hring₁]
  have hsub := Books.notes_submitted_reads [⟨false, offset, .bufferSpace, size⟩] o h.read
  refine own_submit (fun _ => by rw [hring₂]) (fun hs => ?_) fun l₃ h₃ => ?_
  · rw [hring₂]
    simp only [List.reverse_singleton]
    rw [hsub]
    exact hs.honest.inFlight _
  · rw [hring₂]
    simp only [List.reverse_singleton]
    rw [hsub]
    have hring₃ : l₃.ring .ioRing = ⟨true, [], [⟨false, offset, .bufferSpace, size⟩]⟩ := by
      rw [h₃]
      simp [hring₂]
    refine own_wait (by rw [hring₃]) (by rw [hring₃]; simp) fun hs sqe hsqe res => ?_
    rw [hring₃] at hsqe
    obtain rfl := List.mem_singleton.mp hsqe
    refine ⟨hs.honest.filled rfl (by rw [h.read]; rfl) res,
      fun l₄ h₄ => ⟨res == size, ?_, ?_, ?_, ?_⟩⟩
    · rw [h₄]
      simp [hring₃, Ring.Idle]
    · rw [h₄, h₃, h₂, h₁]
      simpa using h.readRing
    · intro d
      simpa [Books.note, Books.complete] using h.settled d
    · simp [Books.note, Books.complete, h.read, Filled]

theorem own_extmemMigrateUpdisk {page : PageId} (hb : b.Idle)
    (h : Resting b NoRead l o) (f : Frame) :
    (transfers strict).Safe t (extmemMigrateUpdisk page f) (fun _ => Resting b NoRead) l o := by
  refine own_skip (by simp) h fun _ l o h => own_skip (by simp) h fun _ l o h => ?_
  refine own_skip (by simp) h fun size l o h => own_skip (by simp) h fun disk l o h => ?_
  refine own_skip (by simp) h fun _ l o h =>
    own_skip (by simp) h fun _ l o h => ?_
  refine safe_bind ((own_ioringReadStore h _ _).mono fun _ l o h => ?_)
  refine safe_bind ((own_copyBuffer hb.2 h).mono fun _ l o h => ?_)
  refine own_skip (by simp) h fun _ l o h => own_skip (by simp) h fun _ l o h => ?_
  exact own_skip (by simp) h fun _ l o h => own_skip (by simp) h fun _ l o h => own_last (by simp) h

theorem own_lrudiskSwapinExternal {page : PageId} (hb : b.Idle) (h : Resting b NoRead l o) :
    (transfers strict).Safe t (lrudiskSwapinExternal page) (fun _ => Resting b NoRead) l o := by
  refine own_skip (by simp) h fun file l o h =>
    safe_bind ((own_fetchFreeAsynch h).mono fun freepage l o h => ?_)
  refine own_skip (by simp) h fun offset l o h =>
    own_skip (within_detach linking_plain _ rfl rfl) h fun _ l o h => ?_
  refine safe_bind ((own_extmemMigrateUpdisk hb h _).mono fun _ l o h => ?_)
  exact own_skip (by simp) h fun _ l o h => own_last (by simp) h

/-- The read ring while the read of one page is under way. -/
def Ring.reading (sqe : Sqe) : Ring := ⟨true, [], [sqe]⟩

theorem own_coreMigrateUpAsyncStart {page : PageId} (hb : b.Idle) (h : Resting b NoRead l o) :
    (transfers strict).Safe t (coreMigrateUpAsyncStart page) (fun _ l o =>
      ∃ offset size, Resting (.reading ⟨false, offset, .bufferSpace, size⟩) NoRead l o) l o := by
  refine own_skip (by simp) h fun _ l o h => own_skip (by simp) h fun _ l o h => ?_
  refine own_skip (by simp) h fun size l o h => own_skip (by simp) h fun disk l o h => ?_
  refine own_skip (by simp) h fun _ l o h => ?_
  refine safe_bind (own_initOnce fun l₁ h₁ => safe_bind ?_)
  have hring₁ : l₁.ring .ioReadRing = ⟨true, [], []⟩ := by
    rw [h₁]
    simp [h.readRing, hb.1, hb.2]
  refine own_prep (by rw [hring₁]) (by rw [hring₁]; decide) (fun _ => rfl) fun l₂ h₂ => ?_
  have hring₂ : l₂.ring .ioReadRing = ⟨true, [⟨false, disk.offset, .bufferSpace, size⟩], []⟩ := by
    rw [h₂]
    simp [hring₁]
  have hsub := Books.notes_submitted_reads [⟨false, disk.offset, .bufferSpace, size⟩] o h.read
  refine own_submit (fun _ => by rw [hring₂]) (fun hs => ?_) fun l₃ h₃ => ?_
  · rw [hring₂]
    simp only [List.reverse_singleton]
    rw [hsub]
    exact hs.honest.inFlight _
  · rw [hring₂]
    simp only [List.reverse_singleton]
    rw [hsub]
    refine ⟨disk.offset, size, ?_, ?_, h.settled, h.read⟩
    · rw [h₃, h₂, h₁]
      simpa using h.idle
    · rw [h₃]
      simp [hring₂, Ring.reading]

theorem own_coreMigrateUpAsyncFinish {page : PageId} {offset size : Nat}
    (h : Resting (.reading ⟨false, offset, .bufferSpace, size⟩) NoRead l o) (f : Frame) :
    (transfers strict).Safe t (coreMigrateUpAsyncFinish page f)
      (fun _ => Resting ⟨true, [], []⟩ NoRead) l o := by
  refine own_skip (by simp) h fun _ l o h =>
    own_skip (by simp) h fun _ l o h => ?_
  refine own_skip (by simp) h fun size' l o h => own_skip (by simp) h fun disk l o h => ?_
  refine own_skip (by simp) h fun _ l o h =>
    own_skip (by simp) h fun _ l o h => ?_
  have hrest : ∀ l o, Resting ⟨true, [], []⟩ NoRead l o → (transfers strict).Safe t (do
      assertPage page (·.va % pageSize == 0) .updiskAddress
      setStats fun t => { t with migrationsUp := add64 t.migrationsUp 1 }
      setPage page fun p => { p with virtualOffset := f }
      setPage page fun p => { p with inDram := true }
      setStats fun t => { t with bytesMigrated := add64 t.bytesMigrated size' })
        (fun _ => Resting ⟨true, [], []⟩ NoRead) l o := by
    intro l o h
    refine own_skip (by simp) h fun _ l o h =>
      own_skip (by simp) h fun _ l o h => ?_
    exact own_skip (by simp) h fun _ l o h =>
      own_skip (by simp) h fun _ l o h => own_last (by simp) h
  refine safe_bind (own_skip (by simp) h fun _ l o h => ?_)
  have hring : l.ring .ioReadRing = ⟨true, [], [⟨false, offset, .bufferSpace, size⟩]⟩ := h.readRing
  refine own_wait (by rw [hring]) (by rw [hring]; simp) fun hs sqe hsqe res => ?_
  rw [hring] at hsqe
  obtain rfl := List.mem_singleton.mp hsqe
  refine ⟨hs.honest.filled rfl (by rw [h.read]; rfl) res, fun l₄ h₄ => ?_⟩
  refine safe_bind ((own_copyBuffer rfl ⟨res == size, ?_, ?_, ?_, ?_⟩).mono fun _ l o h =>
    hrest l o h)
  · rw [h₄]
    simpa using h.idle
  · rw [h₄]
    simp [hring]
  · intro d
    simpa [Books.note, Books.complete] using h.settled d
  · simp [Books.note, Books.complete, h.read, Filled]

/-- The thread has no transfer under way. -/
def AtRest (l : Local) (o : Books) : Prop := ∃ b : Ring, b.Idle ∧ Resting b NoRead l o

theorem Resting.atRest (h : Resting ⟨true, [], []⟩ NoRead l o) : AtRest l o := ⟨_, ⟨rfl, rfl⟩, h⟩

instance : RingOnly AtRest :=
  ⟨fun l l' o h ⟨b, hb, j⟩ => ⟨b, hb, RingOnly.keep l l' o h j⟩⟩

/-- The asynchronous swap-in, the read under way while a frame is fetched. -/
theorem own_lrudiskSwapinExternalAsync {page : PageId} (h : AtRest l o) :
    (transfers strict).Safe t (lrudiskSwapinExternalAsync page) (fun _ => AtRest) l o := by
  obtain ⟨b, hb, h⟩ := h
  refine own_skip (by simp) h fun file l o h =>
    own_skip (within_detach linking_plain _ rfl rfl) h fun _ l o h => ?_
  refine safe_bind ((own_coreMigrateUpAsyncStart hb h).mono ?_)
  rintro _ l o ⟨offset, size, h⟩
  refine safe_bind ((own_fetchFreeAsynch h).mono fun freepage l o h =>
    own_skip (by simp) h fun f l o h => ?_)
  refine safe_bind ((own_coreMigrateUpAsyncFinish h f).mono fun _ l o h => ?_)
  refine own_skip (by simp) h fun _ l o h => (own_last (by simp) h).mono fun _ l o h => h.atRest

end ExtMem
