import ExtMem.Transfers.Rings

/-! Evictions: every write-back that is prepared is submitted and waited for before its
page is unmapped. -/
namespace ExtMem
open Threads Threads.Prog Threads.Outline

/-! How single events change the books. -/

namespace Books
variable {o : Books} {d : PageId} {sqe : Sqe}

private theorem owes_congr (o o' : Books) (hr : o'.read = o.read)
    (hw : ∀ d, (o'.owed d = true ∧ o'.write d = some false) ↔
      (o.owed d = true ∧ o.write d = some false)) : o'.Owes ↔ o.Owes := by
  unfold Owes
  rw [hr]
  simp only [hw]

theorem Honest.decided (h : o.Honest) (hd : o.owed d = false) (wb : Bool) :
    (note (.decided d wb) o).Honest := by
  refine ⟨h.timely,
    h.traced.trans (or_congr_right (owes_congr o (note (.decided d wb) o) rfl fun d' => ?_).symm)⟩
  by_cases hdd : d' = d
  · subst hdd
    simp [note, hd]
  · simp [note, hdd]

theorem Honest.writing (h : o.Honest) (hd : o.write d = none) (sqe : Sqe) :
    (note (.writing d sqe) o).Honest := by
  refine ⟨h.timely,
    h.traced.trans (or_congr_right (owes_congr o (note (.writing d sqe) o) rfl fun d' => ?_).symm)⟩
  by_cases hdd : d' = d
  · subst hdd
    simp [note, hd]
  · simp [note, hdd]

/-- Unmapping a victim whose write-back is done is not late, and passes a failure on. -/
theorem Honest.dropping (h : o.Honest) (hf : ∀ s ∈ o.inFlight, s.isWrite = false)
    (hd : o.owed d = true → o.write d ≠ none) : (note (.dropping d) o).Honest := by
  refine ⟨?_, h.traced.trans ?_⟩
  · have h₁ : o.inFlight.any (·.isWrite) = false := by simpa using hf
    have h₂ : (o.owed d && (o.write d).isNone) = false := by
      cases ho : o.owed d with
      | false => rfl
      | true =>
        cases hw : o.write d with
        | none => exact absurd hw (hd ho)
        | some b => rfl
    simp [note, drop, h.timely, h₁, h₂]
  · have hne (d' : PageId) :
        ((note (.dropping d) o).owed d' = true ∧ (note (.dropping d) o).write d' = some false) ↔
        d' ≠ d ∧ o.owed d' = true ∧ o.write d' = some false := by
      by_cases hdd : d' = d
      · subst hdd
        simp [note, drop]
      · simp [note, drop, hdd]
    have hdam : (note (.dropping d) o).damaged = true ↔
        o.damaged = true ∨ o.owed d = true ∧ o.write d = some false := by
      simp [note, drop]
    rw [hdam]
    constructor
    · rintro (hs | ⟨b, hb⟩ | ⟨d', hw⟩)
      · exact .inl (.inl hs)
      · exact .inr (.inl ⟨b, hb⟩)
      · by_cases hdd : d' = d
        · exact .inl (.inr (hdd ▸ hw))
        · exact .inr (.inr ⟨d', (hne d').mpr ⟨hdd, hw⟩⟩)
    · rintro ((hs | hw) | ⟨b, hb⟩ | ⟨d', hw⟩)
      · exact .inl hs
      · exact .inr (.inr ⟨d, hw⟩)
      · exact .inr (.inl ⟨b, hb⟩)
      · exact .inr (.inr ⟨d', ((hne d').mp hw).2⟩)

/-- A completed write settles the requests of the victims it was made for. -/
theorem write_complete (hw : sqe.isWrite = true) (full : Bool) :
    (o.complete sqe full).write = fun d =>
      if o.request d = some sqe then some ((o.write d).getD true && full) else o.write d := by
  simp [complete, hw]

theorem Honest.wrote (h : o.Honest) (hw : sqe.isWrite = true) (hd : o.owed d = true)
    (hreq : o.request d = some sqe) (res : Int) : (note (.completed sqe res) o).Honest := by
  show (o.complete sqe (res == sqe.size)).Honest
  generalize (res == (sqe.size : Int)) = full
  have hw' := write_complete (o := o) hw full
  refine ⟨by simp [complete, hw, h.timely], ?_⟩
  have hshort : (o.complete sqe full).short = true ↔ o.short = true ∨ full = false := by
    simp [complete, hw]
  have hdam : (o.complete sqe full).damaged = o.damaged := by simp [complete, hw]
  have hread : (o.complete sqe full).read = o.read := by simp [complete, hw]
  have howed : (o.complete sqe full).owed = o.owed := by simp [complete, hw]
  rw [hshort, hdam, h.traced, Owes, Owes, hread, howed, hw']
  constructor
  · rintro ((hs | hb | ⟨d', ho, hf⟩) | rfl)
    · exact .inl hs
    · exact .inr (.inl hb)
    · refine .inr (.inr ⟨d', ho, ?_⟩)
      by_cases hr : o.request d' = some sqe <;> simp [hr, hf]
    · exact .inr (.inr ⟨d, hd, by simp [hreq]⟩)
  · rintro (hs | hb | ⟨d', ho, hf⟩)
    · exact .inl (.inl hs)
    · exact .inl (.inr (.inl hb))
    · by_cases hr : o.request d' = some sqe
      · simp only [hr, if_true, Option.some.injEq, Bool.and_eq_false_iff] at hf
        rcases hf with hf | hf
        · refine .inl (.inr (.inr ⟨d', ho, ?_⟩))
          cases hwd : o.write d' with
          | none => simp [hwd] at hf
          | some b => simpa [hwd] using hf
        · exact .inr hf
      · exact .inl (.inr (.inr ⟨d', ho, by simpa [hr] using hf⟩))

/-- Submitting writes changes nothing but what is in flight. -/
theorem notes_submitted_writes (sqes : List Sqe) (h : ∀ s ∈ sqes, s.isWrite = true) (o : Books) :
    notes (sqes.map Event.submitted) o = { o with inFlight := sqes ++ o.inFlight } := by
  induction sqes with
  | nil => rfl
  | cons s sqes ih =>
    rw [List.map_cons, notes_cons, ih fun x hx => h x (List.mem_cons_of_mem _ hx)]
    simp [note, h s List.mem_cons_self]

theorem Honest.inFlight (h : o.Honest) (fl : List Sqe) :
    ({ o with inFlight := fl } : Books).Honest :=
  ⟨h.timely, h.traced.trans
    (or_congr_right (owes_congr o { o with inFlight := fl } rfl fun _ => Iff.rfl).symm)⟩

end Books

/-- What a thread knows of its rings and books and says through them alone. -/
class RingOnly (J : Local → Books → Prop) : Prop where
  keep : ∀ l l' o, l'.ring = l.ring → J l o → J l' o

variable {strict : Prop} {t : Tid} {l : Local} {o : Books} {α β : Type}

/-- Pass over a plain part of a program. -/
theorem own_skip {J : Local → Books → Prop} [hJ : RingOnly J] {p : Paging α} {q : α → Paging β}
    {R : β → Local → Books → Prop} (h : Always Plain p) (hl : J l o)
    (hq : ∀ a l o, J l o → (transfers strict).Safe t (q a) R l o) :
    (transfers strict).Safe t (p >>= q) R l o :=
  safe_bind ((own_plain hJ.keep h hl).mono hq)

theorem own_last {J : Local → Books → Prop} [hJ : RingOnly J] {p : Paging α} (h : Always Plain p)
    (hl : J l o) : (transfers strict).Safe t p (fun _ => J) l o := own_plain hJ.keep h hl

/-- No eviction of the thread is under way; its read ring and the state of its buffers are given. -/
structure Resting (b : Ring) (rd : Buffer → Option Bool) (l : Local) (o : Books) : Prop where
  idle : (l.ring .ioRing).Idle
  readRing : l.ring .ioReadRing = b
  settled : o.Settled
  read : o.read = rd

/-- One victim is being evicted: whether it is to be written back is decided, and it is not yet. -/
structure Evicting (victim : PageId) (wb : Bool) (b : Ring) (rd : Buffer → Option Bool) (l : Local)
    (o : Books) : Prop where
  idle : (l.ring .ioRing).Idle
  readRing : l.ring .ioReadRing = b
  others : ∀ d, d ≠ victim → o.owed d = false
  owed : o.owed victim = wb
  write : o.write victim = none
  read : o.read = rd

instance {b : Ring} {rd : Buffer → Option Bool} : RingOnly (Resting b rd) :=
  ⟨fun _ _ _ h j => ⟨by rw [h]; exact j.idle, by rw [h]; exact j.readRing, j.settled, j.read⟩⟩

instance {victim : PageId} {wb : Bool} {b : Ring} {rd : Buffer → Option Bool} :
    RingOnly (Evicting victim wb b rd) :=
  ⟨fun _ _ _ h j =>
    ⟨by rw [h]; exact j.idle, by rw [h]; exact j.readRing, j.others, j.owed, j.write, j.read⟩⟩

section
variable {b : Ring} {rd : Buffer → Option Bool}

/-- With the write ring idle nothing that is in flight is a write. -/
theorem Sound.no_write (h : Sound l.ring o) (hi : (l.ring .ioRing).Idle) :
    ∀ s ∈ o.inFlight, s.isWrite = false := by
  intro s hs
  have hm := h.counted.mem_iff.mp hs
  rw [hi.2, List.nil_append] at hm
  exact h.reads s (List.mem_append_right _ hm)

theorem own_protectVictim {victim : PageId} (h : Resting b rd l o) :
    (transfers strict).Safe t (protectVictim victim) (fun wb => Evicting victim wb b rd) l o := by
  refine own_skip (by simp) h fun _ l o h => own_skip (by simp) h fun flags l o h => ?_
  refine own_skip (by simp) h fun hasReserve l o h =>
    safe_bind (own_traceEvent rfl (fun hs => ?_) fun _ => ?_)
  · exact hs.honest.decided (h.settled victim) _
  · refine ⟨h.idle, h.readRing, fun d hd => ?_, ?_, ?_, h.read⟩
    · simpa [Books.note, hd] using h.settled d
    · simp [Books.note]
    · simp [Books.note]

/-- The write of one victim through its own request, up to the completion. -/
private theorem own_writeVictim {victim : PageId} {wb : Bool} (h : Evicting victim wb b rd l o)
    (offset : Nat) (data : Buffer) (size : Nat) {R : Unit → Local → Books → Prop}
    {q : Unit → Paging Unit} (hwb : wb = true)
    (hq : ∀ l o, (l.ring .ioRing).Idle → l.ring .ioReadRing = b →
      (∀ d, d ≠ victim → o.owed d = false) → (o.owed victim = true → o.write victim ≠ none) →
      o.read = rd → (transfers strict).Safe t (q ()) R l o) :
    (transfers strict).Safe t (traceEvent (.writing victim ⟨true, offset, data, size⟩) >>= fun _ =>
      ioringWriteStore offset data size >>= q) R l o := by
  refine safe_bind (own_traceEvent rfl (fun hs => hs.honest.writing h.write _) fun _ =>
    safe_bind ?_)
  refine safe_bind (own_initOnce fun l₁ h₁ => safe_bind ?_)
  have hring₁ : l₁.ring .ioRing = ⟨true, [], []⟩ := by
    rw [h₁]
    simp [h.idle.1, h.idle.2]
  refine own_prep (by rw [hring₁]) (by rw [hring₁]; decide) (by simp) fun l₂ h₂ => safe_bind ?_
  have hring₂ : l₂.ring .ioRing = ⟨true, [⟨true, offset, data, size⟩], []⟩ := by
    rw [h₂]
    simp [hring₁]
  have hsub := Books.notes_submitted_writes [⟨true, offset, data, size⟩] (by simp)
    (Books.note (.writing victim ⟨true, offset, data, size⟩) o)
  refine own_submit (fun _ => by rw [hring₂]) (fun hs => ?_) fun l₃ h₃ => ?_
  · rw [hring₂]
    simp only [List.reverse_singleton]
    rw [hsub]
    exact hs.honest.inFlight _
  · rw [hring₂]
    simp only [List.reverse_singleton]
    rw [hsub]
    have hring₃ : l₃.ring .ioRing = ⟨true, [], [⟨true, offset, data, size⟩]⟩ := by
      rw [h₃]
      simp [hring₂]
    refine own_wait (by rw [hring₃]) (by rw [hring₃]; simp) fun hs sqe hsqe res => ?_
    rw [hring₃] at hsqe
    obtain rfl := List.mem_singleton.mp hsqe
    refine ⟨hs.honest.wrote (d := victim) rfl ?_ ?_ res, fun l₄ h₄ => ?_⟩
    · simp [Books.note, h.owed, hwb]
    · simp [Books.note]
    · refine hq l₄ _ ?_ ?_ (fun d hd => ?_) (fun _ => ?_) ?_
      · rw [h₄]
        simp [hring₃, Ring.Idle]
      · rw [h₄, h₃, h₂, h₁]
        simpa using h.readRing
      · simpa [Books.note, Books.complete] using h.others d hd
      · simp [Books.note, Books.complete]
      · simpa [Books.note, Books.complete] using h.read

/-- The unmapping of one victim whose write-back, if it needs one, is done. -/
private theorem own_dropVictim {victim : PageId} {R : Unit → Local → Books → Prop}
    {q : Unit → Paging Unit} (hi : (l.ring .ioRing).Idle) (hb : l.ring .ioReadRing = b)
    (ho : ∀ d, d ≠ victim → o.owed d = false) (hw : o.owed victim = true → o.write victim ≠ none)
    (hr : o.read = rd) (hq : ∀ l o, Resting b rd l o → (transfers strict).Safe t (q ()) R l o) :
    (transfers strict).Safe t (traceEvent (.dropping victim) >>= q) R l o := by
  refine safe_bind (own_traceEvent rfl (fun hs => hs.honest.dropping (hs.no_write hi) hw) fun _ =>
    ?_)
  refine hq l _ ⟨hi, hb, fun d => ?_, hr⟩
  by_cases hd : d = victim
  · subst hd
    simp [Books.note, Books.drop]
  · simpa [Books.note, Books.drop, hd] using ho d hd

theorem own_extmemMigrateDowndisk {victim : PageId} {wb : Bool}
    (h : Evicting victim wb b rd l o) (f : Frame) :
    (transfers strict).Safe t (extmemMigrateDowndisk victim f wb) (fun _ => Resting b rd) l o := by
  refine own_skip (by simp) h fun _ l o h => own_skip (by simp) h fun _ l o h => ?_
  refine own_skip (by simp) h fun size l o h => own_skip (by simp) h fun old l o h => ?_
  refine own_skip (by simp) h fun _ l o h =>
    own_skip (by simp) h fun _ l o h => ?_
  refine own_skip (by simp) h fun va l o h => ?_
  have hdrop {l o} (hi : (l.ring .ioRing).Idle) (hb : l.ring .ioReadRing = b)
      (ho : ∀ d, d ≠ victim → o.owed d = false) (hw : o.owed victim = true → o.write victim ≠ none)
      (hr : o.read = rd) : (transfers strict).Safe t (do
        traceEvent (.dropping victim)
        dropMapping va
        setStats fun t => { t with migrationsDown := add64 t.migrationsDown 1 }
        setPage victim fun p => { p with virtualOffset := f }
        setPage victim fun p => { p with inDram := false }
        setStats fun t => { t with bytesMigrated := add64 t.bytesMigrated size }
        Prog.atomic (markSwappedOut victim)) (fun _ => Resting b rd) l o := by
    refine own_dropVictim hi hb ho hw hr fun l o h => ?_
    refine own_skip (by simp) h fun _ l o h => ?_
    refine own_skip (by simp) h fun _ l o h => own_skip (by simp) h fun _ l o h => ?_
    refine own_skip (by simp) h fun _ l o h => own_skip (by simp) h fun _ l o h => ?_
    exact own_last (within_markSwappedOut relinking_plain victim) h
  refine safe_ite (fun hwb => ?_) fun hwb => ?_
  · refine own_writeVictim h _ _ _ hwb fun l o hi hb ho hw hr => ?_
    exact hdrop hi hb ho hw hr
  · refine hdrop h.idle h.readRing h.others (fun ho => ?_) h.read
    rw [h.owed] at ho
    exact absurd ho hwb

theorem own_lrudiskMigrateDown {victim : PageId} {wb : Bool}
    (h : Evicting victim wb b rd l o) (f : Frame) (needWp : Bool) :
    (transfers strict).Safe t (lrudiskMigrateDown victim f needWp wb)
      (fun _ => Resting b rd) l o := by
  refine own_skip (by simp) h fun _ l o h =>
    safe_ite (fun _ => ?_) fun _ => own_extmemMigrateDowndisk h f
  exact own_skip (by simp) h fun _ l o h => own_extmemMigrateDowndisk h f

/-- A free disk descriptor is taken; that there is none is no matter of the rings. -/
theorem own_takeDiskFree {J : Local → Books → Prop} [hJ : RingOnly J]
    {Q : PageId → Local → Books → Prop} (h : J l o) (hq : ∀ d l o, J l o → Q d l o) :
    (transfers strict).Safe t takeDiskFree Q l o := by
  refine own_skip (within_dequeueAux linking_plain (by decide) fun _ e => .joinExchange e _) h
    fun page l o h => ?_
  cases page with
  | none => exact safe_fail (by rintro (h | h | ⟨-, h⟩) <;> cases h)
  | some d => exact own_skip (by simp) h fun _ l o h => hq d l o h

theorem own_lrudiskEvictionworker (h : Resting b rd l o) :
    (transfers strict).Safe t lrudiskEvictionworker (fun _ => Resting b rd) l o := by
  refine own_skip (within_takeVictim linking_plain (by decide)) h fun victim l o h => ?_
  cases victim with
  | none => exact h
  | some victim =>
    refine own_skip (by simp) h fun _ l o h =>
      safe_bind ((own_protectVictim h).mono fun wb l o h => ?_)
    refine own_skip (by simp) h fun hasReserve l o h => safe_ite (fun _ => ?_) fun _ => ?_
    · refine own_skip (by simp) h fun diskpage l o h => own_skip (by simp) h fun old l o h => ?_
      refine own_skip (by simp) h fun disk l o h => ?_
      exact safe_bind ((own_lrudiskMigrateDown h _ _).mono fun _ l o h =>
        own_last (within_swapReserve relinking_plain victim diskpage old) h)
    · refine safe_bind (own_takeDiskFree h fun diskpage l o h =>
        own_skip (by simp) h fun old l o h => ?_)
      refine own_skip (by simp) h fun disk l o h => ?_
      exact safe_bind ((own_lrudiskMigrateDown h _ _).mono fun _ l o h =>
        own_last (within_swapFree relinking_plain victim diskpage old) h)

theorem own_fetchFreeEvict {page : PageId} (h : Resting b rd l o) :
    (transfers strict).Safe t (fetchFreeEvict page) (fun _ => Resting b rd) l o := by
  refine own_skip (by simp) h fun _ l o h =>
    safe_bind ((own_protectVictim h).mono fun wb l o h => ?_)
  refine own_skip (by simp) h fun hasReserve l o h => safe_ite (fun _ => ?_) fun _ => ?_
  · refine own_skip (by simp) h fun diskpage l o h => own_skip (by simp) h fun old l o h => ?_
    refine own_skip (by simp) h fun disk l o h => ?_
    exact safe_bind ((own_lrudiskMigrateDown h _ _).mono fun _ l o h =>
      own_last (within_keepReserve relinking_plain page diskpage old) h)
  · refine safe_bind (own_takeDiskFree h fun diskpage l o h =>
      own_skip (by simp) h fun old l o h => ?_)
    refine own_skip (by simp) h fun disk l o h => ?_
    exact safe_bind ((own_lrudiskMigrateDown h _ _).mono fun _ l o h =>
      own_last (within_keepFree relinking_plain page diskpage old) h)

/-- A frame is fetched, whatever evictions that takes; the read ring is left alone. -/
theorem own_fetchFreeAsynch (h : Resting b rd l o) :
    (transfers strict).Safe t fetchFreeAsynch (fun _ => Resting b rd) l o := by
  refine safe_loop (fun _ => Resting b rd) h fun priority l o h => ?_
  refine safe_ite (fun _ => ?_) fun _ => safe_fail (by rintro (h | h | ⟨-, h⟩) <;> cases h)
  refine own_skip (by simp) h fun page l o h => ?_
  cases page with
  | some page => exact h
  | none =>
    refine own_skip (by simp) h fun priority l o h => ?_
    refine own_skip (within_takeVictim linking_plain (by decide)) h fun victim l o h => ?_
    cases victim with
    | none => exact h
    | some victim => exact safe_bind ((own_fetchFreeEvict h).mono fun _ l o h => h)

theorem own_lrudiskPagefault (h : Resting b rd l o) :
    (transfers strict).Safe t lrudiskPagefault (fun _ => Resting b rd) l o :=
  safe_bind ((own_fetchFreeAsynch h).mono fun _ l o h => own_skip (by simp) h fun _ l o h => h)

end
end ExtMem
