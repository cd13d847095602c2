import ExtMem.Serial.Scans

/-! What the reclaim scans do page by page, run alone: which list each examined page goes to
and what becomes of its counter and its accessed bit. -/
namespace ExtMem
open Threads Threads.Prog

variable {d : PageId} {e e' e₁ : Env} {acc : Bool} {α : Type}

/-- The accessed bit of a page's mapping. -/
def Shared.accessedAt (s : Shared) (va : Nat) : Bool := (s.pte va).any (·.accessed)

/-- Where the inactive scan puts a page, by its counter and its accessed bit. -/
def verdict (naccesses : Nat) (acc : Bool) : FifoList :=
  if acc then (if add64 naccesses 1 > 1 then .activeList else .inactiveList) else .evictionList

/-- The counter of a page after the inactive scan has examined it. -/
def counted (naccesses : Nat) (acc : Bool) : Nat :=
  if acc then (if add64 naccesses 1 > 1 then 0 else add64 naccesses 1) else 0

/-- What no scan touches. -/
structure Unscanned (e e' : Env) : Prop where
  shrinking : e'.sh.shrinkageRunning = e.sh.shrinkageRunning
  dramsize : e'.sh.dramsize = e.sh.dramsize
  spurious : e'.sh.spurious = e.sh.spurious
  loc : e'.loc = e.loc

/-- One page of the inactive list was taken off, read as accessed or not, and put on a list. -/
structure Examined (d : PageId) (acc : Bool) (e e' : Env) : Prop where
  fifos : e'.sh.fifos = (e.sh.fifos.unlink d).enqueue (verdict (e.sh.page d).naccesses acc) d
  page : e'.sh.page = Function.update e.sh.page d
    { e.sh.page d with naccesses := counted (e.sh.page d).naccesses acc }
  read : e.sh.accessedAt (e.sh.page d).va = true → acc = true
  exact : e.sh.spurious = false → acc = e.sh.accessedAt (e.sh.page d).va
  cleared : ∀ a, e'.sh.accessedAt a = if a = (e.sh.page d).va then false else e.sh.accessedAt a
  log : ∃ dirty, e'.sh.log = (e.loc.tid, .enqueued (verdict (e.sh.page d).naccesses acc) d) ::
    (e.loc.tid, .flagsRead (e.sh.page d).va acc dirty) :: (e.loc.tid, .dequeued .inactiveList d) ::
      e.sh.log
  rest : Unscanned e e'

/-- One page of the active list was moved to the inactive list. -/
structure Demoted (d : PageId) (e e' : Env) : Prop where
  fifos : e'.sh.fifos = (e.sh.fifos.unlink d).enqueue .inactiveList d
  page : e'.sh.page = Function.update e.sh.page d { e.sh.page d with naccesses := 0 }
  pte : e'.sh.pte = e.sh.pte
  log : e'.sh.log = (e.loc.tid, .enqueued .inactiveList d) ::
    (e.loc.tid, .dequeued .activeList d) :: e.sh.log
  rest : Unscanned e e'

private theorem va_update {p : PageId → UserPage} {q : UserPage} (hq : q.va = (p d).va)
    (x : PageId) : (Function.update p d q x).va = (p x).va := by
  rw [Function.update_apply]
  split
  · next hx => rw [hx, hq]
  · rfl

/-- The scans leave the addresses of all pages alone. -/
theorem Examined.va (h : Examined d acc e e') (x : PageId) :
    (e'.sh.page x).va = (e.sh.page x).va := by
  rw [h.page, va_update]
  rfl

theorem Demoted.va (h : Demoted d e e') (x : PageId) : (e'.sh.page x).va = (e.sh.page x).va := by
  rw [h.page, va_update]
  rfl

/-- A mapping's bits as they were read. -/
structure BitsRead (va : Nat) (bits : PtBits) (e e' : Env) : Prop where
  read : e.sh.accessedAt va = true → bits.accessed = true
  exact : e.sh.spurious = false → bits.accessed = e.sh.accessedAt va
  at_va : bits.accessed = false → e'.sh.accessedAt va = false
  other : ∀ a, a ≠ va → e'.sh.accessedAt a = e.sh.accessedAt a
  fifos : e'.sh.fifos = e.sh.fifos
  page : e'.sh.page = e.sh.page
  log : e'.sh.log = (e.loc.tid, .flagsRead va bits.accessed bits.dirty) :: e.sh.log
  rest : Unscanned e e'

theorem after_readBits :
    After (ptGetBits d) e fun bits e' => BitsRead (e.sh.page d).va bits e e' := by
  unfold ptGetBits field
  rw [after_bind, after_read]
  refine after_check fun _ => ?_
  rw [after_bind, after_answer]
  intro a
  rw [after_bind, after_answer]
  intro b
  refine (after_atomic _ _ _).mpr fun bits e' he => ?_
  split at he
  · next hp =>
    cases he
    refine ⟨fun h => ?_, fun hs => ?_, fun _ => ?_, fun _ _ => rfl, rfl, rfl, rfl,
      ⟨rfl, rfl, rfl, rfl⟩⟩
    · simp [Shared.accessedAt, hp] at h
    · simp [seenBit, hs, Shared.accessedAt, hp]
    · show Shared.accessedAt e.sh _ = false
      simp [Shared.accessedAt, hp]
  · next p hp =>
    cases he
    refine ⟨fun h => ?_, fun hs => ?_, fun h => ?_, fun x hx => ?_, rfl, rfl, rfl,
      ⟨rfl, rfl, rfl, rfl⟩⟩
    · have hacc : p.accessed = true := by simpa [Shared.accessedAt, hp] using h
      simp [seenBit, hacc]
    · simp [seenBit, hs, Shared.accessedAt, hp]
    · simpa [Shared.accessedAt, Shared.setPte, Threads.Ctx.record] using h
    · simp [Shared.accessedAt, Shared.setPte, Threads.Ctx.record, Function.update_of_ne hx]

theorem after_enqueueFifo {l : FifoList} {Q : Unit → Env → Prop} (h : Q () (e.enqueue l d)) :
    After (enqueueFifo l d) e Q := by
  refine (after_atomic _ _ _).mpr fun a e' he => ?_
  split at he
  · cases he
    exact h
  · cases he

theorem after_examine :
    After (scanInactivePage d) (e.dequeue .inactiveList d) fun evicted e' =>
      Examined d (!evicted) e e' := by
  unfold scanInactivePage
  refine (after_bind _ _ _ _).mpr (after_readBits.mono fun bits e₁ hb => ?_)
  obtain ⟨hread, hexact, hat, hother, hf, hp, hl, hr⟩ := hb
  have hp : e₁.sh.page = e.sh.page := hp
  have hf : e₁.sh.fifos = e.sh.fifos.unlink d := hf
  have hread : e.sh.accessedAt (e.sh.page d).va = true → bits.accessed = true := hread
  have hexact : e.sh.spurious = false → bits.accessed = e.sh.accessedAt (e.sh.page d).va := hexact
  have hother : ∀ a, a ≠ (e.sh.page d).va → e₁.sh.accessedAt a = e.sh.accessedAt a := hother
  have hl : e₁.sh.log = (e.loc.tid, .flagsRead (e.sh.page d).va bits.accessed bits.dirty) ::
    (e.loc.tid, .dequeued .inactiveList d) :: e.sh.log := hl
  have hr : Unscanned e e₁ := ⟨hr.shrinking, hr.dramsize, hr.spurious, hr.loc⟩
  split
  · next hacc =>
    have hcleared : ∀ a, (e₁.sh.clearAccessed (e.sh.page d).va).accessedAt a =
        if a = (e.sh.page d).va then false else e.sh.accessedAt a := by
      intro a
      by_cases ha : a = (e.sh.page d).va
      · rw [if_pos ha, ha]
        cases hq : e₁.sh.pte (e.sh.page d).va <;>
          simp [Shared.accessedAt, Shared.clearAccessed, Shared.setPte, hq]
      · rw [if_neg ha, ← hother a ha]
        simp [Shared.accessedAt, Shared.clearAccessed, Shared.setPte, Function.update_of_ne ha]
    unfold setPage ptClearAccessedFlag field setShared
    rw [after_bind, after_modify, after_bind, after_bind, after_read]
    refine after_check fun _ => ?_
    rw [after_modify, after_bind, after_read]
    have hcount : (e₁.setPage d fun p => { p with naccesses := add64 p.naccesses 1 }).sh.page =
        Function.update e.sh.page d
        { e.sh.page d with naccesses := add64 (e.sh.page d).naccesses 1 } := by
      simp [Threads.Ctx.setPage, Shared.setPage, hp]
    have hva : ((e₁.setPage d fun p => { p with naccesses := add64 p.naccesses 1 }).sh.page d).va =
        (e.sh.page d).va := by
      rw [hcount, Function.update_self]
    have hn :
        ((e₁.setPage d fun p => { p with naccesses := add64 p.naccesses 1 }).sh.page d).naccesses =
        add64 (e.sh.page d).naccesses 1 := by
      rw [hcount, Function.update_self]
    dsimp only [Shared.clearAccessed, Shared.setPte]
    simp only [hva, hn]
    split
    · next hgt =>
      rw [after_bind, after_modify, after_bind]
      refine after_enqueueFifo ((after_pure _ _ _).mpr ?_)
      have hv : verdict (e.sh.page d).naccesses true = .activeList := by simp [verdict, hgt]
      have hc : counted (e.sh.page d).naccesses true = 0 := by simp [counted, hgt]
      refine ⟨?_, ?_, fun _ => rfl, fun hs => ?_, hcleared, ⟨bits.dirty, ?_⟩, ?_⟩
      · rw [Bool.not_false, hv, ← hf]
        rfl
      · rw [Bool.not_false, hc]
        simp [Threads.Ctx.setPage, Shared.setPage, Threads.Ctx.enqueue, Threads.Ctx.record, hp]
      · rw [← hexact hs, hacc]
        rfl
      · rw [Bool.not_false, hv, ← hacc, ← hl, ← hr.loc]
        rfl
      · exact ⟨hr.shrinking, hr.dramsize, hr.spurious, hr.loc⟩
    · next hgt =>
      rw [after_bind]
      refine after_enqueueFifo ((after_pure _ _ _).mpr ?_)
      have hv : verdict (e.sh.page d).naccesses true = .inactiveList := by simp [verdict, hgt]
      have hc : counted (e.sh.page d).naccesses true = add64 (e.sh.page d).naccesses 1 := by
        simp [counted, hgt]
      refine ⟨?_, ?_, fun _ => rfl, fun hs => ?_, hcleared, ⟨bits.dirty, ?_⟩, ?_⟩
      · rw [Bool.not_false, hv, ← hf]
        rfl
      · rw [Bool.not_false, hc, ← hcount]
        rfl
      · rw [← hexact hs, hacc]
        rfl
      · rw [Bool.not_false, hv, ← hacc, ← hl, ← hr.loc]
        rfl
      · exact ⟨hr.shrinking, hr.dramsize, hr.spurious, hr.loc⟩
  · next hacc =>
    unfold setPage
    rw [after_bind, after_modify, after_bind]
    refine after_enqueueFifo ((after_pure _ _ _).mpr ?_)
    have hacc : bits.accessed = false := by simpa using hacc
    refine ⟨?_, ?_, fun h => ?_, fun hs => ?_, fun a => ?_, ⟨bits.dirty, ?_⟩, ?_⟩
    · exact congrArg (Queues.enqueue · .evictionList d) hf
    · simp [Threads.Ctx.setPage, Shared.setPage, Threads.Ctx.enqueue, Threads.Ctx.record, hp,
        counted]
    · exact absurd (hread h) (by simp [hacc])
    · exact hacc.symm.trans (hexact hs)
    · by_cases ha : a = (e.sh.page d).va
      · rw [if_pos ha, ha]
        exact hat hacc
      · rw [if_neg ha]
        exact hother a ha
    · rw [hacc] at hl
      rw [Bool.not_true, ← hl, ← hr.loc]
      rfl
    · exact ⟨hr.shrinking, hr.dramsize, hr.spurious, hr.loc⟩

/-- The scans raise and lower their flag. -/
def Threads.Ctx.scanning (e : Env) (b : Bool) : Env :=
  { e with sh := { e.sh with shrinkageRunning := b } }

/-- The pages a scan of the inactive list has examined so far: how many went to the eviction
list and how many tries it took. -/
inductive InactiveScan (nr : Nat) (e : Env) : Nat → Nat → Env → Prop where
  | start : InactiveScan nr e 0 0 e
  | examine {ret tries : Nat} {e₁ e₂ : Env} {d : PageId} {xs : List PageId} {acc : Bool} :
      InactiveScan nr e ret tries e₁ → ret < nr → tries < nr * 100 →
        e₁.sh.fifos.seq .inactiveList = d :: xs →
      Examined d acc e₁ e₂ → InactiveScan nr e (if acc then ret else ret + 1) (tries + 1) e₂

/-- The pages a scan of the active list has moved so far. -/
inductive ActiveScan (nr : Nat) (e : Env) : Nat → Env → Prop where
  | start : ActiveScan nr e 0 e
  | demote {ret : Nat} {e₁ e₂ : Env} {d : PageId} {xs : List PageId} :
      ActiveScan nr e ret e₁ → ret < nr → e₁.sh.fifos.seq .activeList = d :: xs → Demoted d e₁ e₂ →
      ActiveScan nr e (ret + 1) e₂

/-- A scan stops when it has enough pages, has run out of them or has tried too often. -/
def ScanOver (l : FifoList) (nr ret tries : Nat) (e : Env) : Prop :=
  nr ≤ ret ∨ e.sh.fifos.seq l = [] ∨ nr * 100 ≤ tries

/-- The number of pages a scan of the inactive list asks for. -/
def inactiveTarget (nrPages len : Nat) : Nat := if nrPages = 0 ∨ nrPages > len then len else nrPages

/-- A whole scan of the inactive list. -/
def ShrunkInactive (nrPages : Nat) (e : Env) (ret : Nat) (e' : Env) : Prop :=
  ∃ tries e₁, InactiveScan (inactiveTarget nrPages (e.sh.fifos.seq .inactiveList).length)
    (e.scanning true) ret tries e₁ ∧
    ScanOver .inactiveList (inactiveTarget nrPages (e.sh.fifos.seq .inactiveList).length)
      ret tries e₁ ∧
    e' = e₁.scanning false

/-- A whole scan of the active list. -/
def ShrunkActive (nrPages : Nat) (e : Env) (e' : Env) : Prop :=
  nrPages = 0 ∧ e' = e ∨
  ∃ ret e₁, ActiveScan (min nrPages (e.sh.fifos.seq .activeList).length) (e.scanning true) ret e₁ ∧
    ScanOver .activeList (min nrPages (e.sh.fifos.seq .activeList).length) ret ret e₁ ∧
      e' = e₁.scanning false

theorem after_dequeueNext {l : FifoList} {q : Option PageId → Paging α}
    {Q : α → Env → Prop} (hs : e.sh.fifos.seq l ≠ [])
    (hq : ∀ d xs, e.sh.fifos.seq l = d :: xs → After (q (some d)) (e.dequeue l d) Q) :
    After (dequeueFifo l >>= q) e Q := by
  rw [after_bind]
  refine (after_atomic _ _ _).mpr fun a e' he => ?_
  split at he
  · next hn => exact absurd hn hs
  · next d xs hn =>
    cases he
    exact hq d xs hn

theorem after_shrinkInactive {nrPages : Nat} : After (shrinkInactiveList nrPages) e fun ret e' =>
    ShrunkInactive nrPages e ret e' := by
  unfold shrinkInactiveList numentries ShrunkInactive inactiveTarget
  rw [after_bind, after_read]
  dsimp only
  generalize (if nrPages = 0 ∨ nrPages > List.length _ then List.length _ else nrPages) = nr
  unfold setShared
  rw [after_bind, after_modify, after_bind]
  refine (after_loop (Q := fun ret e₁ => ∃ tries, InactiveScan nr (e.scanning true) ret tries e₁ ∧
    ScanOver .inactiveList nr ret tries e₁)
    (fun x e₁ => InactiveScan nr (e.scanning true) x.1 x.2 e₁) ?_ .start).mono ?_
  · rintro ⟨ret, tries⟩ e₁ h
    rw [after_bind, after_read]
    dsimp only
    split
    · next hc =>
      have hne : e₁.sh.fifos.seq .inactiveList ≠ [] := List.length_pos_iff.mp hc.2.1
      refine after_dequeueNext hne fun d xs hs => (after_bind _ _ _ _).mpr (after_examine.mono ?_)
      intro evicted e₂ he
      refine (after_pure _ _ _).mpr ?_
      have := InactiveScan.examine h hc.1 hc.2.2 hs he
      cases evicted <;> exact this
    · next hc =>
      refine (after_pure _ _ _).mpr ⟨tries, h, ?_⟩
      unfold ScanOver
      rw [← List.length_eq_zero_iff]
      omega
  · rintro ret e₁ ⟨tries, h, hover⟩
    rw [after_bind, after_modify]
    exact (after_pure _ _ _).mpr ⟨tries, e₁, h, hover, rfl⟩

theorem after_shrinkActive {nrPages : Nat} :
    After (shrinkActiveList nrPages) e fun _ e' => ShrunkActive nrPages e e' := by
  unfold shrinkActiveList numentries ShrunkActive
  split
  · next h0 => exact (after_pure _ _ _).mpr (.inl ⟨h0, rfl⟩)
  unfold setShared
  rw [after_bind, after_modify, after_bind, after_read]
  have hmin :
      (if nrPages > (e.sh.fifos.seq .activeList).length then (e.sh.fifos.seq .activeList).length
      else nrPages) = min nrPages (e.sh.fifos.seq .activeList).length := by
    split <;> omega
  dsimp only
  rw [hmin]
  generalize min nrPages _ = nr
  rw [after_bind]
  refine (after_loop (Q := fun _ e₁ =>
    ∃ ret, ActiveScan nr (e.scanning true) ret e₁ ∧ ScanOver .activeList nr ret ret e₁)
    (fun x e₁ => x.2 = x.1 ∧ ActiveScan nr (e.scanning true) x.1 e₁) ?_ ⟨rfl, .start⟩).mono ?_
  · rintro ⟨ret, tries⟩ e₁ ⟨heq, h⟩
    have heq : tries = ret := heq
    subst heq
    rw [after_bind, after_read]
    dsimp only
    split
    · next hc =>
      have hne : e₁.sh.fifos.seq .activeList ≠ [] := List.length_pos_iff.mp hc.2.1
      refine after_dequeueNext hne fun d xs hs => ?_
      unfold setPage
      rw [after_bind, after_modify, after_bind]
      exact after_enqueueFifo
        ((after_pure _ _ _).mpr ⟨rfl, .demote h hc.1 hs ⟨rfl, rfl, rfl, rfl, ⟨rfl, rfl, rfl, rfl⟩⟩⟩)
    · next hc =>
      refine (after_pure _ _ _).mpr ⟨tries, h, ?_⟩
      unfold ScanOver
      rw [← List.length_eq_zero_iff]
      omega
  · rintro ret e₁ ⟨ret, h, hover⟩
    rw [after_bind, after_modify]
    exact (after_pure _ _ _).mpr (.inr ⟨ret, e₁, h, hover, rfl⟩)

end ExtMem
