import ExtMem.Serial.Skeleton
import ExtMem.Walks

/-! What scans and evictions leave alone of the memory of the program: they map nothing, they
change no byte, and no page becomes clean by them. Scans do not unmap or move a page either. -/
namespace ExtMem
open Threads Threads.Prog

/-- What a thread reads from the disk with: its read ring, its buffers and whether transfers may
fail. -/
structure Intake where
  ring : Ring
  space : Bytes
  slots : Nat → Bytes
  allocated : Bool × Bool
  faulty : Bool

def Threads.Ctx.intake (e : Env) : Intake where
  ring := e.loc.ring .ioReadRing
  space := e.loc.bufferSpace
  slots := e.loc.prefetchBuffer
  allocated := (e.loc.bufferAllocated, e.loc.prefetchBufferAllocated)
  faulty := e.sh.faulty

/-- The thread's requests on its other ring are all writes. -/
def Threads.Ctx.WritesOnly (e : Env) : Prop :=
  ∀ q ∈ (e.loc.ring .ioRing).sq ++ (e.loc.ring .ioRing).outstanding, q.isWrite = true

/-- A step that maps nothing: what is mapped after it was mapped before, with the same bytes and
no cleaner. Unless `u` is true no page is unmapped or moved and nothing is written. -/
structure Gentle (u : Bool) (e e' : Env) : Prop where
  intake : e.WritesOnly → e'.WritesOnly ∧ e'.intake = e.intake
  pages : e'.sh.pages = e.sh.pages
  vma : e'.sh.vma = e.sh.vma
  mapped : ∀ a p', e'.sh.pte a = some p' →
    ∃ p, e.sh.pte a = some p ∧ p.bytes = p'.bytes ∧ (p'.dirty = false → p.dirty = false)
  present : u = false → ∀ a, e'.sh.pte a = none → e.sh.pte a = none
  place : u = false → ∀ d, (e'.sh.page d).whereabouts = (e.sh.page d).whereabouts
  disk : u = false → e'.sh.disk = e.sh.disk
  writing : u = false → e'.loc.ring .ioRing = e.loc.ring .ioRing

/-- Every action is such a step. -/
abbrev Gently (u : Bool) : (β : Type) → (Env → Outcome Abort Env β) → Prop := Within (Gentle u)

variable {u : Bool} {e e₁ e₂ : Env} {α β : Type}

namespace Gentle

@[simp] theorem refl (e : Env) : Gentle u e e :=
  ⟨fun h => ⟨h, rfl⟩, rfl, rfl, fun _ p' h => ⟨p', h, rfl, id⟩, fun _ _ => id, fun _ _ => rfl,
    fun _ => rfl, fun _ => rfl⟩

theorem trans (h₁ : Gentle u e e₁) (h₂ : Gentle u e₁ e₂) : Gentle u e e₂ := by
  refine ⟨fun hw =>
    ⟨(h₂.intake (h₁.intake hw).1).1, (h₂.intake (h₁.intake hw).1).2.trans (h₁.intake hw).2⟩,
    h₂.pages.trans h₁.pages, h₂.vma.trans h₁.vma, fun a p₂ hp => ?_, fun hu a h =>
    h₁.present hu a (h₂.present hu a h), fun hu d => (h₂.place hu d).trans (h₁.place hu d),
    fun hu => (h₂.disk hu).trans (h₁.disk hu), fun hu => (h₂.writing hu).trans (h₁.writing hu)⟩
  obtain ⟨p₁, hp₁, hb₁, hd₁⟩ := h₂.mapped a p₂ hp
  obtain ⟨p, hp, hb, hd⟩ := h₁.mapped a p₁ hp₁
  exact ⟨p, hp, hb.trans hb₁, fun h => hd (hd₁ h)⟩

/-- A step that touches neither the page table nor the disk, nor the rings and buffers. -/
theorem of_eq (hi : e₁.intake = e.intake) (hp : e₁.sh.pages = e.sh.pages)
    (hv : e₁.sh.vma = e.sh.vma) (ht : e₁.sh.pte = e.sh.pte) (hd : e₁.sh.disk = e.sh.disk)
    (hr : e₁.loc.ring .ioRing = e.loc.ring .ioRing)
    (hx : u = false → ∀ d, (e₁.sh.page d).whereabouts = (e.sh.page d).whereabouts) :
    Gentle u e e₁ := by
  refine ⟨fun hw => ⟨?_, hi⟩, hp, hv, fun a p' h => ?_, fun _ a h => ?_, hx, fun _ => hd,
    fun _ => hr⟩
  · unfold Threads.Ctx.WritesOnly
    rwa [hr]
  · rw [ht] at h
    exact ⟨p', h, rfl, id⟩
  · rwa [ht] at h

theorem setPage (e : Env) (d : PageId) {f : UserPage → UserPage}
    (h : u = false → ∀ p, (f p).whereabouts = p.whereabouts) : Gentle u e (e.setPage d f) := by
  refine of_eq rfl rfl rfl rfl rfl rfl fun hu x => ?_
  by_cases hx : x = d
  · subst hx
    simp [Threads.Ctx.setPage, Shared.setPage, h hu]
  · simp [Threads.Ctx.setPage, Shared.setPage, Function.update_of_ne hx]

@[simp] theorem record (e : Env) (ev : Event) : Gentle u e (e.record ev) :=
  of_eq rfl rfl rfl rfl rfl rfl fun _ _ => rfl

theorem recorded (h : Gentle u e e₁) (ev : Event) : Gentle u e (e₁.record ev) :=
  h.trans (record e₁ ev)

@[simp] theorem enqueue (e : Env) (q : FifoList) (d : PageId) : Gentle u e (e.enqueue q d) :=
  of_eq rfl rfl rfl rfl rfl rfl fun _ _ => rfl

@[simp] theorem dequeue (e : Env) (q : FifoList) (d : PageId) : Gentle u e (e.dequeue q d) :=
  of_eq rfl rfl rfl rfl rfl rfl fun _ _ => rfl

@[simp] theorem remove (e : Env) (q : FifoList) (d : PageId) : Gentle u e (e.remove q d) :=
  of_eq rfl rfl rfl rfl rfl rfl fun _ _ => rfl

@[simp] theorem takeVictim (d : PageId) (e : Env) : Gentle u e (takeVictim d e) :=
  of_eq rfl rfl rfl rfl rfl rfl fun _ _ => rfl

@[simp] theorem joinExchange (e : Env) (d : PageId) : Gentle u e (e.joinExchange d) :=
  of_eq rfl rfl rfl rfl rfl rfl fun _ _ => rfl

@[simp] theorem settleExchange (e : Env) (d f : PageId) : Gentle u e (e.settleExchange d f) :=
  of_eq rfl rfl rfl rfl rfl rfl fun _ _ => rfl

@[simp] theorem leaveExchange (e : Env) (d : PageId) : Gentle u e (e.leaveExchange d) :=
  of_eq rfl rfl rfl rfl rfl rfl fun _ _ => rfl

@[simp] theorem endWork (e : Env) (d : PageId) : Gentle u e (e.endWork d) :=
  of_eq rfl rfl rfl rfl rfl rfl fun _ _ => rfl

/-- One entry of the page table is rewritten with the same bytes and no cleaner. -/
theorem setPte {va : Nat} {p q : Pte} (hp : e.sh.pte va = some p) (hb : p.bytes = q.bytes)
    (hd : q.dirty = false → p.dirty = false) :
    Gentle u e { e with sh := e.sh.setPte va (some q) } := by
  refine ⟨fun hw => ⟨hw, rfl⟩, rfl, rfl, fun a p' h => ?_, fun _ a h => ?_, fun _ _ => rfl,
    fun _ => rfl, fun _ => rfl⟩
  · by_cases ha : a = va
    · subst ha
      simp only [Shared.setPte, Function.update_self, Option.some.injEq] at h
      subst h
      exact ⟨p, hp, hb, hd⟩
    · simp only [Shared.setPte, Function.update_of_ne ha] at h
      exact ⟨p', h, rfl, id⟩
  · by_cases ha : a = va
    · subst ha
      simp [Shared.setPte] at h
    · simpa [Shared.setPte, Function.update_of_ne ha] using h

end Gentle

theorem gently_setPage (d : PageId) {f : UserPage → UserPage}
    (h : u = false → ∀ p, (f p).whereabouts = p.whereabouts) : Always (Gently u) (setPage d f) :=
  within_modify fun e => .setPage e d h

/-- Where evictions are allowed any field of a descriptor may be written. -/
@[simp] theorem gently_setPage_any (d : PageId) (f : UserPage → UserPage) :
    Always (Gently true) (setPage d f) :=
  gently_setPage d fun h => by cases h

@[simp] theorem gently_setStats (f : Stats → Stats) : Always (Gently u) (setStats f) :=
  within_modify fun _ => .of_eq rfl rfl rfl rfl rfl rfl fun _ _ => rfl

@[simp] theorem gently_setInternalCall (b : Bool) : Always (Gently u) (setInternalCall b) :=
  within_modify fun _ => .of_eq rfl rfl rfl rfl rfl rfl fun _ _ => rfl

@[simp] theorem gently_traceEvent (ev : Event) : Always (Gently u) (traceEvent ev) :=
  within_modify fun e => .record e ev

@[simp] theorem linking_gentle : Linking (Gentle u) where
  refl := .refl
  trans := .trans
  enqueue e l d _ _ := .enqueue e l d
  dequeue e l d _ _ _ := .dequeue e l d
  remove e l d _ _ := .remove e l d
  auxiliary _ _ _ _ := .of_eq rfl rfl rfl rfl rfl rfl fun _ _ => rfl
  record e ev _ _ _ := .record e ev

@[simp] theorem claiming_gentle : Claiming (Gentle u) where
  toLinking := linking_gentle
  flag e d _ _ hw _ := .setPage e d fun _ => hw
  setPte _ _ _ _ hp hb hd := .setPte hp hb hd
  waits _ _ := .of_eq rfl rfl rfl rfl rfl rfl fun _ _ => rfl

@[simp] theorem scanning_gentle : Scanning (Gentle u) where
  toClaiming := claiming_gentle
  enqueueAny := .enqueue
  dequeueAny := .dequeue
  setPage e d _ _ hw := .setPage e d fun _ => hw
  running _ _ _ := .of_eq rfl rfl rfl rfl rfl rfl fun _ _ => rfl

/-! Evictions. -/

/-- Code that evicts may use its write ring, write to the disk and unmap pages. -/
theorem Gentle.of_evicting (hw : e.WritesOnly → e₁.WritesOnly ∧ e₁.intake = e.intake)
    (hp : e₁.sh.pages = e.sh.pages) (hv : e₁.sh.vma = e.sh.vma)
    (ht : ∀ a, e₁.sh.pte a = none ∨ e₁.sh.pte a = e.sh.pte a) : Gentle true e e₁ := by
  refine ⟨hw, hp, hv, fun a p' h => ?_, nofun, nofun, nofun, nofun⟩
  rcases ht a with hn | hn
  · rw [hn] at h
    cases h
  · rw [hn] at h
    exact ⟨p', h, rfl, id⟩

private theorem intake_setRing (e : Env) (f : Ring → Ring) :
    ({ e with loc := e.loc.setRing .ioRing f } : Env).intake = e.intake := by
  simp [Threads.Ctx.intake, Local.setRing]

private theorem gently_initWrites : Always (Gently true) (initOnce .ioRing) := by
  refine always_bind (by simp) fun b =>
    always_ite trivial (within_modify fun e => .of_evicting ?_ rfl rfl fun _ => .inr rfl)
  refine fun _ => ⟨?_, intake_setRing e _⟩
  simp [Threads.Ctx.WritesOnly, Local.setRing]

private theorem gently_prepWrite {q : Sqe} (hq : q.isWrite = true) :
    Always (Gently true) (ioUringPrep .ioRing q) := by
  refine always_atomic (within_of_ok fun e b e' he => ?_)
  split at he
  · cases he
    refine .of_evicting (fun hw => ⟨?_, intake_setRing e _⟩) rfl rfl fun _ => .inr rfl
    intro x hx
    simp only [Local.setRing, Function.update_self, List.mem_append, List.mem_singleton] at hx
    rcases hx with (hx | hx) | hx
    · exact hw x (List.mem_append_left _ hx)
    · rw [hx]
      exact hq
    · exact hw x (List.mem_append_right _ hx)
  · cases he

private theorem gentle_submitted (l : List Sqe) (e : Env) :
    Gentle u e (l.foldl (fun e q => Threads.Ctx.record e (.submitted q)) e) := by
  induction l generalizing e with
  | nil => exact .refl e
  | cons q l ih => exact (Gentle.record e _).trans (ih _)

private theorem gently_submitWrites : Always (Gently true) (ioUringSubmit .ioRing) := by
  refine always_atomic (within_of_ok fun e b e' he => ?_)
  dsimp only at he
  split at he
  · cases he
    refine Gentle.trans (.of_evicting (fun hw => ⟨?_, intake_setRing e _⟩) rfl rfl fun _ => .inr rfl)
      (gentle_submitted _ _)
    intro x hx
    simp only [Local.setRing, Function.update_self, List.nil_append, List.mem_append] at hx
    exact hw x (List.mem_append.mpr hx.symm)
  · cases he

/-- A completion of the write ring moves no byte but to the disk. -/
private theorem gently_waitWrite : Always (Gently true) (ioUringWaitCqe .ioRing) := by
  refine always_bind (by simp) fun pick =>
    always_bind (by simp) fun code => always_atomic (within_of_ok fun e b e' he => ?_)
  dsimp only at he
  split at he
  · split at he
    · cases he
    · next q hq =>
      cases he
      have hm : q ∈ (e.loc.ring .ioRing).outstanding := List.mem_of_getElem? hq
      refine Gentle.recorded ?_ _
      have hkeep : ∀ x ∈ (e.loc.ring .ioRing).sq ++ (e.loc.ring .ioRing).outstanding.erase q,
          x ∈ (e.loc.ring .ioRing).sq ++ (e.loc.ring .ioRing).outstanding := by
        intro x hx
        rcases List.mem_append.mp hx with hx | hx
        · exact List.mem_append_left _ hx
        · exact List.mem_append_right _ (List.mem_of_mem_erase hx)
      unfold Threads.Ctx.transfer
      split
      · split
        · refine .of_evicting (fun hw => ⟨fun x hx => hw x (hkeep x ?_), intake_setRing e _⟩) rfl rfl
            fun _ => .inr rfl
          simpa [Local.setRing] using hx
        · refine .of_evicting (fun hw => ⟨fun x hx => hw x (hkeep x ?_), intake_setRing e _⟩) rfl rfl
            fun _ => .inr rfl
          simpa [Local.setRing] using hx
      · next hread =>
        refine .of_evicting (fun hw => absurd (hw q (List.mem_append_right _ hm)) hread) ?_ ?_
          fun a =>
          .inr ?_
        · unfold Threads.Ctx.setBuffer
          split <;> rfl
        · unfold Threads.Ctx.setBuffer
          split <;> rfl
        · unfold Threads.Ctx.setBuffer
          split <;> rfl
  · cases he

private theorem gentle_drop (e : Env) (va : Nat) :
    Gentle true e ({ e with sh := e.sh.setPte va none }.record (.unmapped va)) := by
  have hset : Gentle true e { e with sh := e.sh.setPte va none } := by
    refine .of_evicting (fun hw => ⟨hw, rfl⟩) rfl rfl fun a => ?_
    by_cases ha : a = va
    · exact .inl (by simp [Shared.setPte, ha])
    · exact .inr (by simp [Shared.setPte, Function.update_of_ne ha])
  exact hset.recorded _

@[simp] theorem vacating_gentle : Vacating (Gentle true) where
  toClaiming := claiming_gentle
  anyPage e d _ _ _ := .setPage e d nofun
  traced e ev _ _ _ _ := .record e ev
  counts _ _ _ _ := .of_eq rfl rfl rfl rfl rfl rfl nofun
  drop := gentle_drop
  initWrites := gently_initWrites
  prepWrite _ := gently_prepWrite
  submitWrites := gently_submitWrites
  waitWrite := gently_waitWrite
  decided e _ _ := .record e _

/-- What every action keeps, a run keeps. -/
theorem after_gently {p : Paging α} (h : Always (Gently u) p) :
    After p e fun _ e' => Gentle u e e' := after_within h .refl .trans

end ExtMem
