import ExtMem.Walks

/-! What the code that moves pages between DRAM and disk leaves alone: the last fault addresses of
its thread, the rings that it has initialised, the addresses of the descriptors, the page hash and,
but for the code that copies a page in or drops its mapping, the counts of these. -/
namespace ExtMem
open Threads Threads.Prog

/-- The addresses of the last two faults of a thread. -/
def Local.streak (l : Local) : Nat × Nat := (l.prevFault1, l.prevFault2)

/-- A step of code that copies no page in unless `c` is true and drops none unless `u` is. -/
structure Spared (c u : Bool) (e e' : Env) : Prop where
  streak : e'.loc.streak = e.loc.streak
  tid : e'.loc.tid = e.loc.tid
  init : ∀ r, (e.loc.ring r).init = true → (e'.loc.ring r).init = true
  va : ∀ d, (e'.sh.page d).va = (e.sh.page d).va
  pages : e'.sh.pages = e.sh.pages
  vma : e'.sh.vma = e.sh.vma
  held : e'.sh.stats.held = e.sh.stats.held
  up : c = false → e'.sh.stats.migrationsUp = e.sh.stats.migrationsUp
  down : u = false → e'.sh.stats.migrationsDown = e.sh.stats.migrationsDown
  bytes : c = false → u = false → e'.sh.stats.bytesMigrated = e.sh.stats.bytesMigrated
  log : ∃ evs : List Event, e'.sh.log = evs.map (Prod.mk e.loc.tid) ++ e.sh.log ∧
    ∀ ev ∈ evs, (ev.brings = true → c = true) ∧ (ev.drops = true → u = true)

/-- Every action is such a step. -/
abbrev Sparing (c u : Bool) : (β : Type) → (Env → Outcome Abort Env β) → Prop := Within (Spared c u)

namespace Spared
variable {c u : Bool} {e e₁ e₂ : Env}

@[simp] theorem refl (e : Env) : Spared c u e e :=
  ⟨rfl, rfl, fun _ => id, fun _ => rfl, rfl, rfl, rfl, fun _ => rfl, fun _ => rfl, fun _ _ => rfl,
    [], rfl, by simp⟩

theorem trans (h₁ : Spared c u e e₁) (h₂ : Spared c u e₁ e₂) : Spared c u e e₂ := by
  obtain ⟨evs₁, hl₁, hp₁⟩ := h₁.log
  obtain ⟨evs₂, hl₂, hp₂⟩ := h₂.log
  refine ⟨h₂.streak.trans h₁.streak, h₂.tid.trans h₁.tid, fun r h => h₂.init r (h₁.init r h),
    fun d => (h₂.va d).trans (h₁.va d), h₂.pages.trans h₁.pages, h₂.vma.trans h₁.vma, h₂.held.trans
    h₁.held, fun h => (h₂.up h).trans (h₁.up h), fun h => (h₂.down h).trans (h₁.down h),
    fun h h' => (h₂.bytes h h').trans (h₁.bytes h h'), evs₂ ++ evs₁, ?_, ?_⟩
  · rw [hl₂, hl₁, h₁.tid]
    simp
  · intro ev hev
    rcases List.mem_append.mp hev with h | h
    · exact hp₂ ev h
    · exact hp₁ ev h

/-- A step that records nothing and changes no counter. -/
theorem of_eq (hk : e₁.loc.streak = e.loc.streak) (ht : e₁.loc.tid = e.loc.tid)
    (hi : ∀ r, (e.loc.ring r).init = true → (e₁.loc.ring r).init = true)
    (hv : ∀ d, (e₁.sh.page d).va = (e.sh.page d).va) (hp : e₁.sh.pages = e.sh.pages)
    (hm : e₁.sh.vma = e.sh.vma) (hs : e₁.sh.stats = e.sh.stats) (hl : e₁.sh.log = e.sh.log) :
    Spared c u e e₁ :=
  ⟨hk, ht, hi, hv, hp, hm, by rw [hs], fun _ => by rw [hs], fun _ => by rw [hs],
    fun _ _ => by rw [hs], [], hl, by simp⟩

/-- A step that records one event. -/
theorem of_record (ev : Event) (hk : e₁.loc.streak = e.loc.streak) (ht : e₁.loc.tid = e.loc.tid)
    (hi : ∀ r, (e.loc.ring r).init = true → (e₁.loc.ring r).init = true)
    (hv : ∀ d, (e₁.sh.page d).va = (e.sh.page d).va) (hp : e₁.sh.pages = e.sh.pages)
    (hm : e₁.sh.vma = e.sh.vma) (hs : e₁.sh.stats = e.sh.stats)
    (hl : e₁.sh.log = (e.loc.tid, ev) :: e.sh.log) (hc : ev.brings = true → c = true)
    (hu : ev.drops = true → u = true) : Spared c u e e₁ :=
  ⟨hk, ht, hi, hv, hp, hm, by rw [hs], fun _ => by rw [hs], fun _ => by rw [hs],
    fun _ _ => by rw [hs], [ev], hl, by simpa using ⟨hc, hu⟩⟩

theorem setPage (e : Env) (d : PageId) {f : UserPage → UserPage} (h : ∀ p, (f p).va = p.va) :
    Spared c u e (e.setPage d f) := by
  refine of_eq rfl rfl (fun _ => id) (fun x => ?_) rfl rfl rfl rfl
  by_cases hx : x = d
  · subst hx
    simp [Threads.Ctx.setPage, Shared.setPage, h]
  · simp [Threads.Ctx.setPage, Shared.setPage, Function.update_of_ne hx]

@[simp] theorem enqueue (e : Env) (q : FifoList) (d : PageId) : Spared c u e (e.enqueue q d) :=
  of_record (.enqueued q d) rfl rfl (fun _ => id)
    (fun _ => rfl) rfl rfl rfl rfl (by simp [Event.brings]) (by simp [Event.drops])

@[simp] theorem dequeue (e : Env) (q : FifoList) (d : PageId) : Spared c u e (e.dequeue q d) :=
  of_record (.dequeued q d) rfl rfl (fun _ => id)
    (fun _ => rfl) rfl rfl rfl rfl (by simp [Event.brings]) (by simp [Event.drops])

@[simp] theorem remove (e : Env) (q : FifoList) (d : PageId) : Spared c u e (e.remove q d) :=
  of_record (.removed q d) rfl rfl (fun _ => id)
    (fun _ => rfl) rfl rfl rfl rfl (by simp [Event.brings]) (by simp [Event.drops])

theorem record (e : Env) {ev : Event} (hc : ev.brings = false) (hu : ev.drops = false) :
    Spared c u e (e.record ev) :=
  of_record ev rfl rfl (fun _ => id) (fun _ => rfl) rfl rfl rfl rfl (by simp [hc]) (by simp [hu])

@[simp] theorem joinExchange (e : Env) (d : PageId) : Spared c u e (e.joinExchange d) :=
  of_eq rfl rfl (fun _ => id) (fun _ => rfl) rfl rfl rfl rfl

@[simp] theorem settleExchange (e : Env) (d f : PageId) : Spared c u e (e.settleExchange d f) :=
  of_eq rfl rfl (fun _ => id) (fun _ => rfl) rfl rfl rfl rfl

@[simp] theorem leaveExchange (e : Env) (d : PageId) : Spared c u e (e.leaveExchange d) :=
  of_eq rfl rfl (fun _ => id) (fun _ => rfl) rfl rfl rfl rfl

@[simp] theorem startWork (e : Env) (d : PageId) : Spared c u e (e.startWork d) :=
  of_eq rfl rfl (fun _ => id) (fun _ => rfl) rfl rfl rfl rfl

@[simp] theorem endWork (e : Env) (d : PageId) : Spared c u e (e.endWork d) :=
  of_eq rfl rfl (fun _ => id) (fun _ => rfl) rfl rfl rfl rfl

@[simp] theorem takeVictim (d : PageId) (e : Env) : Spared c u e (takeVictim d e) :=
  of_eq rfl rfl (fun _ => id) (fun _ => rfl) rfl rfl rfl rfl

end Spared

variable {c u : Bool} {α : Type} {f : Env → Env} {aux : PageId → Env → Env}

theorem after_sparing {e : Env} {p : Paging α} (h : Always (Sparing c u) p) :
    After p e fun _ e' => Spared c u e e' := after_within h .refl .trans

/-- A ring that is changed stays initialised. -/
private theorem init_setRing (l : Local) (r : RingName) {f : Ring → Ring}
    (h : ∀ q, q.init = true → (f q).init = true) :
    ∀ r', (l.ring r').init = true → ((l.setRing r f).ring r').init = true := by
  intro r' hr'
  by_cases hr : r' = r
  · subst hr
    simpa [Local.setRing] using h _ hr'
  · simpa [Local.setRing, hr] using hr'

theorem sparing_setLocal {f : Local → Local}
    (hs : ∀ l, (f l).streak = l.streak) (ht : ∀ l, (f l).tid = l.tid)
    (hi : ∀ l r, (l.ring r).init = true → ((f l).ring r).init = true) :
    Always (Sparing c u) (setLocal f) :=
  within_modify fun e => .of_eq (hs e.loc) (ht e.loc) (hi e.loc) (fun _ => rfl) rfl rfl rfl rfl

@[simp] theorem sparing_setPage (d : PageId) {f : UserPage → UserPage} (h : ∀ p, (f p).va = p.va) :
    Always (Sparing c u) (setPage d f) := within_modify fun e => .setPage e d h

theorem sparing_setStats {f : Stats → Stats} (hh : ∀ t, (f t).held = t.held)
    (hu : c = false → ∀ t, (f t).migrationsUp = t.migrationsUp)
    (hd : u = false → ∀ t, (f t).migrationsDown = t.migrationsDown)
    (hb : c = false → u = false → ∀ t, (f t).bytesMigrated = t.bytesMigrated) :
    Always (Sparing c u) (setStats f) :=
  within_modify fun e => ⟨rfl, rfl, fun _ => id, fun _ => rfl, rfl, rfl, hh _, fun h => hu h _,
    fun h => hd h _, fun h h' => hb h h' _, [], rfl, by simp⟩

theorem sparing_traceEvent {ev : Event} (hc : ev.brings = false) (hu : ev.drops = false) :
    Always (Sparing c u) (traceEvent ev) := within_modify fun e => .record e hc hu

@[simp] theorem sparing_setInternalCall (b : Bool) : Always (Sparing c u) (setInternalCall b) :=
  sparing_setLocal (fun _ => rfl) (fun _ => rfl) fun _ _ => id

/-! The kernel and the rings. -/

@[simp] theorem sparing_copyIn (d : PageId) (src : Buffer) :
    Always (Sparing true u) (copyIn d src) :=
  within_copyIn d src .refl fun e va bytes => .of_record (.copied va src) rfl rfl (fun _ => id)
    (fun _ => rfl) rfl rfl rfl rfl (fun _ => rfl) (by simp [Event.drops])

@[simp] theorem transferring_spared : Transferring (Spared c u) where
  refl := .refl
  trans := .trans
  submitted e _ := .record e rfl rfl
  completed e _ _ := .record e rfl rfl
  transfer e sqe res := by
    unfold Threads.Ctx.transfer
    split
    · split
      · exact .refl e
      · exact .of_eq rfl rfl (fun _ => id) (fun _ => rfl) rfl rfl rfl rfl
    · unfold Threads.Ctx.setBuffer
      split <;> exact .of_eq rfl rfl (fun _ => id) (fun _ => rfl) rfl rfl rfl rfl
  setRing e r _ h := .of_eq rfl rfl (init_setRing e.loc r h) (fun _ => rfl) rfl rfl rfl rfl
  space _ _ := .of_eq rfl rfl (fun _ => id) (fun _ => rfl) rfl rfl rfl rfl
  slots _ _ := .of_eq rfl rfl (fun _ => id) (fun _ => rfl) rfl rfl rfl rfl

@[simp] theorem linking_spared : Linking (Spared c u) where
  refl := .refl
  trans := .trans
  enqueue e l d _ _ := .enqueue e l d
  dequeue e l d _ _ _ := .dequeue e l d
  remove e l d _ _ := .remove e l d
  auxiliary _ _ _ _ := .of_eq rfl rfl (fun _ => id) (fun _ => rfl) rfl rfl rfl rfl
  record e _ hp hd _ := .record e (Event.brings_of_plain hp) hd

@[simp] theorem claiming_spared : Claiming (Spared c u) where
  toLinking := linking_spared
  flag e d _ hv _ _ := .setPage e d hv
  setPte _ _ _ _ _ _ _ := .of_eq rfl rfl (fun _ => id) (fun _ => rfl) rfl rfl rfl rfl
  waits _ _ := ⟨rfl, rfl, fun _ => id, fun _ => rfl, rfl, rfl, rfl, fun _ => rfl, fun _ => rfl,
    fun _ _ => rfl, [], rfl, by simp⟩

@[simp] theorem scanning_spared : Scanning (Spared c u) where
  toClaiming := claiming_spared
  enqueueAny := .enqueue
  dequeueAny := .dequeue
  setPage e d _ hv _ := .setPage e d hv
  running _ _ _ := .of_eq rfl rfl (fun _ => id) (fun _ => rfl) rfl rfl rfl rfl

@[simp] theorem relinking_spared : Relinking (Spared c u) where
  toLinking := linking_spared
  anyPage e d _ hv _ := .setPage e d hv

@[simp] theorem vacating_spared : Vacating (Spared c true) where
  toClaiming := claiming_spared
  anyPage e d _ hv _ := .setPage e d hv
  traced e _ hb hd _ _ := .record e hb hd
  counts e f hh hu := ⟨rfl, rfl, fun _ => id, fun _ => rfl, rfl, rfl, hh _, fun _ => hu _, nofun,
    nofun, [], rfl, by simp⟩
  drop _ va := .of_record (.unmapped va) rfl rfl (fun _ => id) (fun _ => rfl) rfl rfl rfl rfl
    (by simp [Event.brings]) fun _ => rfl
  initWrites := within_initOnce transferring_spared _
  prepWrite sqe _ := within_prep transferring_spared _ sqe
  submitWrites := within_submit transferring_spared _
  waitWrite := within_wait transferring_spared _
  decided e _ _ := .record e rfl rfl

/-! Swap-in and prefetch. -/

/-- A page that is brought in is counted, as are its bytes. -/
private theorem sparing_counted {f : Stats → Stats} (h : ∀ t, (f t).held = t.held) :
    Always (Sparing true true) (setStats f) :=
  sparing_setStats h (fun h => by simp at h) (fun h => by simp at h) fun h => by simp at h

theorem sparing_upAsyncFinish (d : PageId) (f : Frame) :
    Always (Sparing true true) (coreMigrateUpAsyncFinish d f) := by
  refine always_bind (by simp) fun _ =>
    always_bind (by simp) fun _ => always_bind (by simp) fun pagesize => ?_
  refine always_bind (by simp) fun _ =>
    always_bind (by simp) fun _ => always_bind (by simp) fun _ => ?_
  refine always_bind (by simp) fun _ =>
    always_bind (by simp) fun _ => always_bind (by simp) fun _ => ?_
  refine always_bind (sparing_counted fun _ => rfl) fun _ =>
    always_bind (by simp) fun _ => always_bind (by simp) fun _ => ?_
  exact sparing_counted fun _ => rfl

theorem sparing_swapinAsync (d : PageId) :
    Always (Sparing true true) (lrudiskSwapinExternalAsync d) := by
  refine always_bind (by simp) fun _ =>
    always_bind (by simp) fun _ => always_bind (by simp) fun _ => ?_
  refine always_bind (by simp) fun r =>
    always_bind (by simp) fun offset => always_bind (sparing_upAsyncFinish _ _) fun _ => ?_
  exact always_bind (by simp) fun _ => by simp

@[simp] theorem sparing_prefetchFinish (x : (PageId × Nat) × PageId) :
    Always (Sparing true u) (prefetchFinish x) :=
  always_bind (by simp) fun _ => always_bind (by simp) fun _ => always_bind (by simp) fun _ => by
    simp

theorem sparing_coreTryPrefetchBy {pagefault : Paging PageId}
    (hp : Always (Sparing true true) pagefault) (base : Nat) :
    Always (Sparing true true) (coreTryPrefetchBy pagefault base) := by
  refine always_bind (by simp) fun _ =>
    always_bind (by simp) fun list => always_bind (sparing_traceEvent rfl rfl) fun _ => ?_
  refine always_bind (by simp) fun _ => always_bind (always_each fun x => by simp) fun _ => ?_
  refine always_bind (by simp) fun _ => always_bind (always_collect fun x => hp) fun freepages => ?_
  refine always_bind (always_each fun x => by simp) fun _ => ?_
  exact always_bind (always_each fun x => by simp) fun _ => trivial

theorem sparing_coreTryPrefetch (base : Nat) : Always (Sparing true true) (coreTryPrefetch base) :=
  sparing_coreTryPrefetchBy (by simp) base

end ExtMem
