import ExtMem.Ownership.Flags
import ExtMem.Transfers.Rings

/-! The requests of a thread's rings: each goes to a disk frame that is in the thread's hands, and
no two of them to the same one. -/
namespace ExtMem
open Threads Threads.Prog Threads.Outline

variable {n : Nat} {frames : List Frame} {s : Shared} {ls : Tid → Local} {G : Ledger} {e : Env}
  {t : Tid} {l l' : Local} {g : Share}
  {d : PageId} {x : Hold} {r : RingName} {sqe : Sqe} {α β : Type}

/-- The other ring of a thread. -/
def RingName.other : RingName → RingName
  | .ioRing => .ioReadRing
  | .ioReadRing => .ioRing

/-- The requests of one ring. -/
def Ring.requests (q : Ring) : List Sqe := q.sq ++ q.outstanding

theorem Local.requests_perm (l : Local) (r : RingName) :
    l.requests.Perm ((l.ring r).requests ++ (l.ring r.other).requests) := by
  cases r with
  | ioRing => exact List.Perm.refl _
  | ioReadRing => exact List.perm_append_comm

theorem Ring.Idle.requests {q : Ring} (h : q.Idle) : q.requests = [] := by
  unfold Ring.requests
  rw [h.1, h.2]
  rfl

/-- A ring that changes, and nothing else of what ownership rests on. -/
structure Rung (l : Local) (r : RingName) (q : Ring) (l' : Local) : Prop where
  ring : l'.ring r = q
  other : l'.ring r.other = l.ring r.other

theorem Rung.requests (h : Rung l r q l') :
    l'.requests.Perm (q.requests ++ (l.ring r.other).requests) := by
  have hp := l'.requests_perm r
  rwa [h.ring, h.other] at hp

theorem Rung.spares {q : Ring} (h : Rung l r q l') {fr : Frame}
    (hs : ∀ p ∈ q.requests, p ∈ (l.ring r).requests) (hf : l.Spares fr) : l'.Spares fr := by
  intro p hp
  apply hf p
  rw [(l.requests_perm r).mem_iff, List.mem_append]
  exact (List.mem_append.mp (h.requests.mem_iff.mp hp)).imp_left (hs p)

/-- A frame that the new request does not go to is still none of a request's. -/
theorem Rung.spares_more {q : Ring} (h : Rung l r q l')
    (hs : ∀ p ∈ q.requests, p = sqe ∨ p ∈ (l.ring r).requests) {fr : Frame} (hf : l.Spares fr)
    (hne : fr ≠ ⟨false, sqe.offset⟩) : l'.Spares fr := by
  intro p hp
  rcases List.mem_append.mp (h.requests.mem_iff.mp hp) with hp | hp
  · rcases hs p hp with rfl | hp
    · exact hne
    · exact hf p ((l.requests_perm r).mem_iff.mpr (List.mem_append_left _ hp))
  · exact hf p ((l.requests_perm r).mem_iff.mpr (List.mem_append_right _ hp))

theorem Ring.mem_requests_append {i : Bool} {sq out : List Sqe} {p : Sqe}
    (hp : p ∈ (Ring.mk i (sq ++ [sqe]) out).requests) :
    p = sqe ∨ p ∈ sq ++ out := by
  simp only [Ring.requests, List.mem_append, List.mem_singleton] at hp ⊢
  tauto

/-- The requests as before, but for some that are gone. -/
theorem Local.Ok.fewer {m : Local} (h : l.Ok g) (he : m.exchange = l.exchange) {k : List Sqe}
    (hp : l.requests.Perm (k ++ m.requests)) : m.Ok g where
  exchange d f := by rw [he, h.exchange]
  keys := by
    rw [he]
    exact h.keys
  backed q hq := h.backed q (hp.mem_iff.mpr (List.mem_append_right k hq))
  apart := by
    have hn := (hp.map (·.offset)).nodup_iff.mp h.apart
    rw [List.map_append] at hn
    exact hn.of_append_right

/-- One request more, to a frame in hand that no other request goes to. -/
theorem Local.Ok.more (h : l.Ok g) (he : l'.exchange = l.exchange)
    (hp : l'.requests.Perm (sqe :: l.requests)) (hb : g.Backs sqe.offset)
    (hs : l.Spares ⟨false, sqe.offset⟩) : l'.Ok g where
  exchange d f := by rw [he, h.exchange]
  keys := by
    rw [he]
    exact h.keys
  backed q hq := by
    rcases List.mem_cons.mp (hp.mem_iff.mp hq) with rfl | hq
    · exact hb
    · exact h.backed q hq
  apart := by
    apply (hp.map _).nodup_iff.mpr
    rw [List.map_cons, List.nodup_cons]
    refine ⟨fun hm => ?_, h.apart⟩
    obtain ⟨q, hq, hqo⟩ := List.mem_map.mp hm
    exact hs q hq (by rw [hqo])

/-- The frames of the descriptors in a thread's hands. -/
def Share.Distinct (g : Share) : Prop :=
  ∀ d e x y, g.held d = some x → g.held e = some y → x.frame = y.frame → d = e

theorem Owned.distinct (h : Owned n frames s ls G) (t : Tid) : (G.share t).Distinct := by
  intro d e x y hx hy hf
  have hxt := Owned.held_of_share hx
  have hyt := Owned.held_of_share hy
  apply h.inj d e (h.lt_of_held hxt) (h.lt_of_held hyt)
  unfold entryOf Entry.frame
  rw [hxt, hyt]
  exact hf

/-- Before any action a thread may take it that the descriptors in its hands stand for different
frames. -/
theorem safe_learn {f : Env → Outcome Abort Env β} {k : β → Paging α} {Q : α → Local → Share → Prop}
    (h : g.Distinct → (owning n frames).Safe t (Prog.atomic f >>= k) Q l g) :
    (owning n frames).Safe t (Prog.atomic f >>= k) Q l g := by
  intro s ls G hi hl hg
  subst hg
  exact h (hi.distinct t) s ls G hi hl rfl

/-! The actions on rings. -/

/-- A step that changes a thread's rings only. -/
private theorem safe_ring {f : Env → Outcome Abort Env β} {Q : β → Local → Share → Prop}
    (h : ∀ s, l.Ok g → match f ⟨s, l⟩ with
      | .ok b e => e.sh.fifos = s.fifos ∧ e.sh.page = s.page ∧ e.sh.pages = s.pages ∧
          e.sh.allocatorLock = s.allocatorLock ∧ e.loc.examining = l.examining ∧ e.loc.Ok g ∧
          Q b e.loc g
      | .wait => True
      | .abort why => ¬ why.Guarded) : (owning n frames).Action t f Q l g := by
  apply owned_action
  intro s ls G hi hl hg
  subst hl hg
  have hs := h s (hi.locals t)
  cases he : f ⟨s, ls t⟩ with
  | wait => trivial
  | abort why =>
    rw [he] at hs
    exact hs
  | ok b e =>
    rw [he] at hs
    obtain ⟨h₁, h₂, h₃, h₄, h₅, h₆, h₇⟩ := hs
    exact ⟨G, hi.own h₁ h₂ h₃ h₄ (by rw [h₅]; exact hi.look t) h₆, fun _ _ => rfl, h₇⟩

private theorem rung_setRing (l : Local) (r : RingName) (f : Ring → Ring) :
    Rung l r (f (l.ring r)) (l.setRing r f) := by
  refine ⟨Function.update_self .., Function.update_of_ne ?_ ..⟩
  cases r <;> nofun

/-- A ring on first use: it is idle, or it was initialised before. -/
theorem safe_initOnce (hr : (l.ring r).init = true ∨ (l.ring r).Idle)
    {Q : Unit → Local → Share → Prop}
    (hq : ∀ l', Rung l r ⟨true, (l.ring r).sq, (l.ring r).outstanding⟩ l' → Q () l' g) :
    (owning n frames).Safe t (initOnce r) Q l g := by
  apply safe_bind
  apply safe_atomic.mpr
  apply safe_ring
  intro s hok
  refine ⟨rfl, rfl, rfl, rfl, rfl, hok, ?_⟩
  rw [threadInit_eq]
  show (owning n frames).Safe t (if (l.ring r).init then pure () else ioUringQueueInit r) Q l g
  cases hi : (l.ring r).init with
  | true => exact hq l ⟨by rw [← hi], rfl⟩
  | false =>
    have hidle : (l.ring r).Idle := hr.resolve_left (by rw [hi]; nofun)
    have hrung := rung_setRing l r fun _ => ⟨true, [], []⟩
    apply safe_atomic.mpr
    apply safe_ring
    intro s hok
    refine ⟨rfl, rfl, rfl, rfl, rfl, ?_, hq _ ?_⟩
    · apply hok.fewer (k := []) (by rfl)
      apply (l.requests_perm r).trans
      apply List.Perm.trans _ hrung.requests.symm
      rw [hidle.requests]
      exact List.Perm.refl _
    · rw [hidle.1, hidle.2]
      exact hrung

theorem safe_prep (hb : g.Backs sqe.offset)
    (hs : l.Spares ⟨false, sqe.offset⟩) {Q : Unit → Local → Share → Prop}
    (hq : ∀ l', Rung l r ⟨(l.ring r).init, (l.ring r).sq ++ [sqe], (l.ring r).outstanding⟩ l' →
      Q () l' g) : (owning n frames).Safe t (ioUringPrep r sqe) Q l g := by
  apply safe_atomic.mpr
  apply safe_ring
  intro s hok
  by_cases hroom : (l.ring r).sq.length < queueDepth
  · rw [if_pos hroom]
    have hrung := rung_setRing l r fun q => { q with sq := q.sq ++ [sqe] }
    refine ⟨rfl, rfl, rfl, rfl, rfl, hok.more rfl ?_ hb hs, hq _ hrung⟩
    apply hrung.requests.trans
    apply List.Perm.trans _ ((l.requests_perm r).symm.cons sqe)
    unfold Ring.requests
    simp only [List.append_assoc]
    exact List.perm_middle
  · rw [if_neg hroom]
    exact nofun

theorem safe_submit {Q : Unit → Local → Share → Prop}
    (hq : ∀ l', Rung l r ⟨(l.ring r).init, [], (l.ring r).outstanding ++ (l.ring r).sq⟩ l' →
      Q () l' g) : (owning n frames).Safe t (ioUringSubmit r) Q l g := by
  have hfold (qs : List Sqe) (e : Env) :
      Beside e (qs.foldl (fun e sqe => e.record (.submitted sqe)) e) ∧
      (qs.foldl (fun e sqe => e.record (.submitted sqe)) e).loc = e.loc := by
    induction qs generalizing e with
    | nil => exact ⟨Beside.refl e, rfl⟩
    | cons q qs ih => exact ⟨(Beside.record e _).trans (ih _).1, (ih _).2⟩
  apply safe_atomic.mpr
  apply safe_ring
  intro s hok
  dsimp only
  by_cases hinit : (l.ring r).init = true
  · rw [if_pos hinit]
    have hrung := rung_setRing l r fun q =>
      { q with sq := [], outstanding := q.outstanding ++ q.sq }
    obtain ⟨hb, hl⟩ := hfold (l.ring r).sq
      ⟨s, l.setRing r fun q => { q with sq := [], outstanding := q.outstanding ++ q.sq }⟩
    refine ⟨hb.fifos, hb.page, hb.pages, hb.lock, hb.examining, ?_, ?_⟩
    · rw [hl]
      apply hok.fewer (k := []) (by rfl)
      apply (l.requests_perm r).trans
      apply List.Perm.trans _ hrung.requests.symm
      exact List.perm_append_comm.append_right _
    · rw [hl]
      exact hq _ hrung
  · rw [if_neg hinit]
    exact nofun

/-- Some outstanding request is done. -/
theorem safe_wait {Q : Unit → Local → Share → Prop}
    (hq : ∀ p ∈ (l.ring r).outstanding, ∀ l',
      Rung l r ⟨(l.ring r).init, (l.ring r).sq, (l.ring r).outstanding.erase p⟩ l' → Q () l' g) :
    (owning n frames).Safe t (ioUringWaitCqe r) Q l g := by
  have htransfer (e : Env) (p : Sqe) (res : Int) : Beside e (e.transfer p res) ∧
    (e.transfer p res).loc.exchange = e.loc.exchange := by
    unfold Threads.Ctx.transfer Threads.Ctx.setBuffer
    split
    · split
      · exact ⟨Beside.refl e, rfl⟩
      · exact ⟨⟨rfl, rfl, rfl, rfl, rfl, rfl⟩, rfl⟩
    · split
      · exact ⟨⟨rfl, rfl, rfl, rfl, rfl, rfl⟩, rfl⟩
      · exact ⟨⟨rfl, rfl, rfl, rfl, rfl, rfl⟩, rfl⟩
      · exact ⟨Beside.refl e, rfl⟩
  refine safe_bind (safe_answer fun pick => safe_bind (safe_answer fun code => ?_))
  apply safe_atomic.mpr
  apply safe_ring
  intro s hok
  dsimp only
  by_cases hinit : (l.ring r).init = true
  · rw [if_pos hinit]
    cases hp : (l.ring r).outstanding[pick % (l.ring r).outstanding.length]? with
    | none => exact nofun
    | some p =>
      dsimp only
      have hmem : p ∈ (l.ring r).outstanding := List.mem_of_getElem? hp
      have hrung := rung_setRing l r fun q => { q with outstanding := q.outstanding.erase p }
      obtain ⟨hb, hx⟩ :=
        htransfer ⟨s, l.setRing r fun q => { q with outstanding := q.outstanding.erase p }⟩ p
          (Threads.Ctx.transferResult ⟨s, l⟩ p code)
      have hkept (l' : Local) (hr : l'.ring =
          (l.setRing r fun q => { q with outstanding := q.outstanding.erase p }).ring) :
          Rung l r ⟨(l.ring r).init, (l.ring r).sq, (l.ring r).outstanding.erase p⟩ l' :=
        ⟨by rw [hr]; exact hrung.ring, by rw [hr]; exact hrung.other⟩
      refine ⟨hb.fifos, hb.page, hb.pages, hb.lock, hb.examining, ?_, hq p hmem _ (hkept _ hb.ring)⟩
      apply hok.fewer (k := [p]) hx
      apply (l.requests_perm r).trans
      apply List.Perm.trans _ ((hkept _ hb.ring).requests.symm.cons p)
      exact (((List.perm_cons_erase hmem).append_left _).trans List.perm_middle).append_right _
  · rw [if_neg hinit]
    exact nofun

/-! The transfers. -/

/-- The rings of a thread that is at no write, with a given read ring. -/
structure Calls (b : Ring) (l : Local) : Prop where
  write : (l.ring .ioRing).Idle
  read : l.ring .ioReadRing = b

/-- A write that is waited for at once. -/
theorem safe_writeStore {offset : Nat} {data : Buffer} {size : Nat} {b : Ring} (hc : Calls b l)
    (hk : g.Backs offset) (hs : l.Spares ⟨false, offset⟩)
    {Q : Unit → Local → Share → Prop} (hq : ∀ l', Calls b l' → Q () l' g) :
    (owning n frames).Safe t (ioringWriteStore offset data size) Q l g := by
  refine safe_bind (safe_initOnce (.inr hc.write) fun l₁ h₁ => ?_)
  have hs₁ : l₁.Spares ⟨false, offset⟩ := h₁.spares (fun p hp => hp) hs
  refine safe_bind (safe_prep hk hs₁ fun l₂ h₂ =>
    safe_bind (safe_submit fun l₃ h₃ => safe_wait fun p hp l₄ h₄ => ?_))
  have hring₃ : l₃.ring .ioRing = ⟨true, [], [⟨true, offset, data, size⟩]⟩ := by
    rw [h₃.ring, h₂.ring, h₁.ring, hc.write.1, hc.write.2]
    rfl
  rw [hring₃] at hp
  obtain rfl := List.mem_singleton.mp hp
  apply hq
  constructor
  · rw [h₄.ring, hring₃]
    exact ⟨rfl, List.erase_cons_head ..⟩
  · exact h₄.other.trans (h₃.other.trans (h₂.other.trans (h₁.other.trans hc.read)))

/-- A read is started; it stays under way. -/
theorem safe_startRead {offset : Nat} {buffer : Buffer} {size : Nat}
    (hi : (l.ring .ioReadRing).Idle) (hk : g.Backs offset)
    (hs : l.Spares ⟨false, offset⟩) {Q : Unit → Local → Share → Prop}
    (hq : ∀ l', Rung l .ioReadRing ⟨true, [], [⟨false, offset, buffer, size⟩]⟩ l' → Q () l' g) :
    (owning n frames).Safe t (ioringStartRead offset buffer size) Q l g := by
  refine safe_bind (safe_initOnce (.inr hi) fun l₁ h₁ => ?_)
  have hs₁ : l₁.Spares ⟨false, offset⟩ := h₁.spares (fun p hp => hp) hs
  refine safe_bind (safe_prep hk hs₁ fun l₂ h₂ => safe_submit fun l₃ h₃ => hq l₃ ⟨?_, ?_⟩)
  · rw [h₃.ring, h₂.ring, h₁.ring, hi.1, hi.2]
    rfl
  · exact h₃.other.trans (h₂.other.trans h₁.other)

/-- The one read that is under way is waited for. -/
theorem safe_finishRead {p : Sqe} (hr : l.ring .ioReadRing = ⟨true, [], [p]⟩)
    {Q : Unit → Local → Share → Prop}
    (hq : ∀ l', (l'.ring .ioReadRing).Idle → l'.ring .ioRing = l.ring .ioRing → Q () l' g) :
    (owning n frames).Safe t ioringFinishRead Q l g := by
  refine safe_skip (calm_assert nofun) fun _ l₁ h₁ => safe_wait fun q hq' l₂ h₂ => ?_
  rw [h₁.ring, hr] at hq' h₂
  obtain rfl := List.mem_singleton.mp hq'
  apply hq l₂
  · rw [h₂.ring]
    exact ⟨rfl, List.erase_cons_head ..⟩
  · exact h₂.other.trans (congrFun h₁.ring _)

end ExtMem
