import ExtMem.Ownership.Scans

/-! The evictions of single victims: the victim and the disk descriptor exchange their frames. -/
namespace ExtMem
open Threads Threads.Prog Threads.Outline

variable {n : Nat} {frames : List Frame} {t : Tid} {l l' : Local} {g : Share} {d f : PageId}
  {x y : Hold} {b : Ring} {α β : Type}

namespace Calls

theorem kept (h : Calls b l) (hk : Kept l l') : Calls b l' := by
  constructor
  · rw [hk.ring]
    exact h.write
  · rw [hk.ring]
    exact h.read

/-- The requests under way are those of the read ring. -/
theorem requests (h : Calls b l) : l.requests.Perm b.requests := by
  have hp := l.requests_perm .ioRing
  rw [h.write.requests, show l.ring RingName.ioRing.other = b from h.read] at hp
  exact hp

end Calls

/-- No request of the ring goes to this frame. -/
def Ring.Spares (b : Ring) (fr : Frame) : Prop := ∀ q ∈ b.requests, fr ≠ ⟨false, q.offset⟩

theorem Calls.spares_iff (h : Calls b l) {fr : Frame} : l.Spares fr ↔ b.Spares fr :=
  forall_congr' fun _ => imp_congr_left h.requests.mem_iff

theorem Calls.spares (h : Calls b l) (h' : Calls b l') {fr : Frame} (hf : l.Spares fr) :
    l'.Spares fr :=
  h'.spares_iff.mpr (h.spares_iff.mp hf)

theorem frame_of_disk {fr : Frame} (h : fr.dram = false) : (⟨false, fr.offset⟩ : Frame) = fr := by
  cases fr
  cases h
  rfl

/-- A victim that was taken off the eviction list. -/
structure Hold.Victim (x : Hold) : Prop where
  va : x.va ≠ 0
  dram : x.offset.dram = true
  stake : x.stake = some x.offset
  clear : x.clear = false
  hashed : x.hashed = true

/-- A descriptor that was taken for its disk frame. -/
structure Hold.Disk (y : Hold) : Prop where
  va : y.va = 0
  disk : y.offset.dram = false
  stake : y.stake = some y.offset
  clear : y.clear = false
  hashed : y.hashed = true

/-- A descriptor that holds a free DRAM frame. -/
structure Hold.Spare (y : Hold) : Prop where
  va : y.va = 0
  dram : y.offset.dram = true
  stake : y.stake = none
  inDram : y.inDram = true
  hashed : y.hashed = true

theorem Hold.Disk.frame (h : y.Disk) : y.frame = y.offset := by
  rw [Hold.frame, h.stake]
  rfl

theorem TakenOff.victim (h : TakenOff true .evictionList x) :
    x.Victim := ⟨h.fits.1, h.fits.2, h.stake, h.clear, h.hashed⟩

theorem TakenOff.disk {q : FifoList} (hq : q = .diskFreeList ∨ q = .diskReserveList)
    (h : TakenOff true q y) :
    y.Disk := by
  rcases hq with rfl | rfl
  · exact ⟨h.fits.1, h.fits.2, h.stake, h.clear, h.hashed⟩
  · exact ⟨h.fits.1, h.fits.2, h.stake, h.clear, h.hashed⟩

theorem TakenOff.spare (h : TakenOff false .dramFreeList y) :
    y.Spare := ⟨h.fits.1, h.fits.2, h.stake, h.inDram rfl, h.hashed⟩

theorem Share.backs_of (hy : g.held f = some y) (h : y.Disk) : g.Backs y.offset.offset :=
  ⟨f, y, hy, by rw [h.stake, frame_of_disk h.disk]⟩

/-! The parts of an eviction. -/

/-- The victim after its bytes went to disk. -/
def Hold.moved (x : Hold) (offset : Frame) : Hold := { x with offset := offset, inDram := false }

theorem safe_moveFrame (hx : g.held d = some x) (hs : x.stake ≠ none) (offset : Frame)
    {k : Unit → Paging α} {Q : α → Local → Share → Prop}
    (hq : ∀ l', Kept l l' →
      (owning n frames).Safe t (k ()) Q l' (g.put d (some (x.moved offset)))) :
    (owning n frames).Safe t (do
      setPage d fun p => { p with virtualOffset := offset }
      setPage d fun p => { p with inDram := false }
      k ()) Q l g := by
  have hfst (p : UserPage) (hp : x.Knows p) :
      Revised x { x with offset := offset } p { p with virtualOffset := offset } := ⟨hp.va, rfl,
    hp.inDram, .inr (.inr ⟨rfl, id, id⟩), fun hc => ⟨.inr hc, hp.clear hc⟩, .inl ⟨rfl, rfl⟩⟩
  have hsnd (p : UserPage) (hp : ({ x with offset := offset } : Hold).Knows p) :
      Revised { x with offset := offset } (x.moved offset) p { p with inDram := false } := ⟨hp.va,
    hp.offset, nofun, .inr (.inr ⟨rfl, id, id⟩), fun hc => ⟨.inr hc, hp.clear hc⟩, .inl ⟨rfl, rfl⟩⟩
  refine safe_bind
    (safe_setPage hx { x with offset := offset } rfl (fun h => absurd h hs) hfst fun l₁ h₁ => ?_)
  refine safe_bind (safe_setPage (x := { x with offset := offset }) (Share.held_put_self ..)
    (x.moved offset) rfl (fun h => absurd h hs) hsnd fun l₂ h₂ => ?_)
  rw [Share.put_put]
  exact hq l₂ (h₁.trans h₂)

theorem safe_lrudiskMigrateDown (hx : g.held d = some x) (hv : x.Victim) {offset : Frame}
    (ho : offset.dram = false) (hb : g.Backs offset.offset) (hs : l.Spares offset) (hc : Calls b l)
    (wp wb : Bool) {Q : Unit → Local → Share → Prop}
    (hq : ∀ l', g.busy d = none → Calls b l' →
      Q () l' ((g.put d (some (x.moved offset))).mark d (some .marked))) :
    (owning n frames).Safe t (lrudiskMigrateDown d offset wp wb) Q l g := by
  have hdrop (va size : Nat) {l₁ : Local} (h₁ : Calls b l₁) : (owning n frames).Safe t (do
      traceEvent (.dropping d)
      dropMapping va
      setStats fun t => { t with migrationsDown := add64 t.migrationsDown 1 }
      setPage d fun p => { p with virtualOffset := offset }
      setPage d fun p => { p with inDram := false }
      setStats fun t => { t with bytesMigrated := add64 t.bytesMigrated size }
      Prog.atomic (markSwappedOut d)) Q l₁ g := by
    refine safe_skip (by simp) fun _ l₂ h₂ =>
      safe_skip (by simp) fun _ l₃ h₃ => safe_skip (by simp) fun _ l₄ h₄ => ?_
    let k (_ : Unit) : Paging Unit := do
      setStats fun t => { t with bytesMigrated := add64 t.bytesMigrated size }
      Prog.atomic (markSwappedOut d)
    refine safe_moveFrame (k := k) hx (by rw [hv.stake]; nofun) offset fun l₅ h₅ => ?_
    refine safe_skip (calm_setStats _) fun _ l₆ h₆ => safe_atomic.mpr ?_
    refine does_markSwappedOut (x := x.moved offset) (Share.held_put_self ..) hv.va hv.clear
      fun l₇ hn h₇ => ?_
    exact hq l₇ hn ((((((h₁.kept h₂).kept h₃).kept h₄).kept h₅).kept h₆).kept h₇)
  have hmove {l₁ : Local} (h₁ : Calls b l₁) :
      (owning n frames).Safe t (extmemMigrateDowndisk d offset wb) Q l₁ g := by
    refine safe_skip (by simp) fun _ l₂ h₂ =>
      safe_skip (calm_assertPage _ _ nofun) fun _ l₃ h₃ => ?_
    refine safe_skip (calm_field _ _) fun size l₄ h₄ =>
      safe_skip (calm_field _ _) fun old l₅ h₅ => ?_
    refine safe_skip (calm_assert nofun) fun _ l₆ h₆ =>
      safe_skip (calm_assert nofun) fun _ l₇ h₇ => ?_
    refine safe_skip (calm_field _ _) fun va l₈ h₈ => ?_
    have hc₈ := ((((((h₁.kept h₂).kept h₃).kept h₄).kept h₅).kept h₆).kept h₇).kept h₈
    refine safe_ite (fun _ => ?_) fun _ => hdrop va size hc₈
    refine safe_skip (by simp) fun _ l₉ h₉ => ?_
    have hc₉ := hc₈.kept h₉
    refine safe_bind (safe_writeStore hc₉ hb ?_ fun l₁₀ h₁₀ => hdrop va size h₁₀)
    rw [frame_of_disk ho]
    exact hc.spares hc₉ hs
  refine safe_skip (by simp) fun _ l₁ h₁ => safe_ite (fun _ => ?_) fun _ => hmove (hc.kept h₁)
  exact safe_skip (by simp) fun _ l₂ h₂ => hmove ((hc.kept h₁).kept h₂)

/-- The disk descriptor of a victim is taken. -/
theorem safe_takeReserve {Q : PageId → Local → Share → Prop}
    (hq : ∀ f y l', g.held f = none → y.Disk → l.Spares y.offset → Kept l l' →
      Q f l' (g.put f (some y))) : (owning n frames).Safe t (takeReserve d) Q l g := by
  refine safe_skip (calm_field _ _) fun reserve l₁ h₁ => ?_
  cases reserve with
  | none => exact safe_fail nofun
  | some f =>
    refine safe_skip (calm_assertPage _ _ nofun) fun _ l₂ h₂ =>
      safe_skip (calm_assertList _ _ nofun) fun _ l₃ h₃ => ?_
    have hk := (h₁.trans h₂).trans h₃
    refine safe_bind
      (safe_tryremove (taking_join f) (safe_bind (safe_fail nofun)) fun y l₄ hf hy hs _ h₄ => ?_)
    exact hq f y l₄ hf (hy.disk (.inr rfl)) (hs.congr hk.ring.symm) (hk.trans h₄)

theorem safe_takeDiskFree {Q : PageId → Local → Share → Prop}
    (hq : ∀ f y l', g.held f = none → y.Disk → l.Spares y.offset → Kept l l' →
      Q f l' (g.put f (some y))) : (owning n frames).Safe t takeDiskFree Q l g := by
  refine safe_bind (safe_dequeue taking_join (safe_fail nofun) fun f y l₁ hf hy hs h₁ => ?_)
  exact safe_skip (calm_assertPage _ _ nofun) fun _ l₂ h₂ =>
    hq f y l₂ hf (hy.disk (.inl rfl)) hs (h₁.trans h₂)

/-- The disk descriptor gets the victim's frame. -/
theorem safe_giveFrame (hy : g.held f = some y) (hv : y.va = 0) (hs : y.stake ≠ none) (old : Frame)
    {Q : Unit → Local → Share → Prop} (hq : ∀ l', Kept l l' →
      Q () l' (g.put f (some { y with offset := old, inDram := true, clear := false }))) :
    (owning n frames).Safe t (giveFrame f old id) Q l g := by
  apply safe_revise id
    (fun e => ⟨Beside.refl e, rfl⟩) hy { y with offset := old, inDram := true, clear := false } rfl
    (fun h => absurd h hs) (fun p hp => ?_) hq
  exact ⟨hp.va, rfl, fun _ => rfl, .inl hv, nofun, .inl ⟨rfl, rfl⟩⟩

/-- The two sides of an eviction when the victim's bytes are on disk. -/
structure Moved (g : Share) (d : PageId) (x : Hold) (f : PageId) (y : Hold) : Prop where
  victim : g.held d = some (x.moved y.offset)
  disk : g.held f = some y
  ne : f ≠ d
  isVictim : x.Victim
  isDisk : y.Disk
  busy : g.busy d = some .marked
  late : g.late d = false

/-- The share when the eviction is over. -/
def Share.drop (g : Share) (d f : PageId) : Share := ((g.put d none).put f none).mark d none

/-- The disk descriptor with the victim's frame. -/
def Hold.given (y : Hold) (old : Frame) : Hold :=
  { y with offset := old, inDram := true, clear := false }

/-- The end of an eviction that used the victim's reserve. -/
theorem safe_settleReserve (h : Moved g d x f y) (hs : l.Spares y.offset)
    {Q : Unit → Local → Share → Prop}
    (hq : ∀ l', Kept l l' → Q () l' (g.drop d f)) : (owning n frames).Safe t (do
      giveFrame f x.offset id
      dropReserve d f
      enqueueFifoThen .dramFreeList f (·.settleExchange f d)
      enqueueFifoThen .diskActiveList d (·.leaveExchange d)
      releaseVictim d) Q l g := by
  refine safe_bind
    (safe_giveFrame h.disk h.isDisk.va (by rw [h.isDisk.stake]; nofun) x.offset fun l₁ h₁ => ?_)
  refine safe_skip (by simp) fun _ l₂ h₂ => ?_
  have hgives : Gives (g.put f (some (y.given x.offset))) .dramFreeList f (y.given x.offset) :=
    ⟨Share.held_put_self .., ⟨h.isDisk.va, h.isVictim.dram⟩, h.isDisk.hashed, fun _ => rfl, nofun⟩
  have hsettles : Settles l₂ (g.put f (some (y.given x.offset))) .dramFreeList f d
      (y.given x.offset) (x.moved y.offset) y.offset := by
    refine ⟨hgives, ?_, h.ne, h.isDisk.stake, h.isVictim.stake, hs.congr (h₁.trans h₂).ring,
      l₂.spares_dram h.isVictim.dram⟩
    rw [Share.held_put_ne _ h.ne.symm]
    exact h.victim
  refine safe_bind (safe_enqueue_settle hsettles fun l₃ h₃ => safe_bind ?_)
  have hleaves : Gives (((g.put f (some (y.given x.offset))).put f none).put d
      (some { x.moved y.offset with stake := some y.offset })) .diskActiveList d
      { x.moved y.offset with stake := some y.offset } := ⟨Share.held_put_self ..,
    ⟨h.isVictim.va, h.isDisk.disk⟩, h.isVictim.hashed, nofun, fun _ => h.busy⟩
  refine safe_enqueue_leave hleaves rfl (hs.congr ((h₁.trans h₂).trans h₃).ring) fun l₄ h₄ => ?_
  apply safe_releaseVictim
  · exact h.busy
  · exact h.late
  intro l₅ h₅
  rw [Share.put_put, Share.put_put, Share.put_comm g h.ne]
  exact hq l₅ ((((h₁.trans h₂).trans h₃).trans h₄).trans h₅)

/-- The end of an eviction that took a free disk descriptor. -/
theorem safe_settleFree (h : Moved g d x f y) (hs : l.Spares y.offset)
    {Q : Unit → Local → Share → Prop}
    (hq : ∀ l', Kept l l' → Q () l' (g.drop d f)) : (owning n frames).Safe t (do
      enqueueFifoThen .diskActiveList d (·.settleExchange d f)
      giveFrame f x.offset id
      enqueueFifoThen .dramFreeList f (·.leaveExchange f)
      releaseVictim d) Q l g := by
  have hgives : Gives g .diskActiveList d (x.moved y.offset) :=
    ⟨h.victim, ⟨h.isVictim.va, h.isDisk.disk⟩, h.isVictim.hashed, nofun, fun _ => h.busy⟩
  have hsettles : Settles l g .diskActiveList d f (x.moved y.offset) y x.offset :=
    ⟨hgives, h.disk, h.ne.symm, h.isVictim.stake, h.isDisk.stake, l.spares_dram h.isVictim.dram, hs⟩
  refine safe_bind (safe_enqueue_settle hsettles fun l₁ h₁ => safe_bind ?_)
  refine safe_giveFrame (y := { y with stake := some x.offset })
    (Share.held_put_self ..) h.isDisk.va nofun x.offset fun l₂ h₂ => safe_bind ?_
  rw [Share.put_put]
  let z : Hold :=
    { y with offset := x.offset, stake := some x.offset, inDram := true, clear := false }
  have hleaves : Gives ((g.put d none).put f (some z)) .dramFreeList f z :=
    ⟨Share.held_put_self .., ⟨h.isDisk.va, h.isVictim.dram⟩, h.isDisk.hashed, fun _ => rfl, nofun⟩
  refine safe_enqueue_leave hleaves rfl (l₂.spares_dram h.isVictim.dram) fun l₃ h₃ => ?_
  rw [Share.put_put]
  apply safe_releaseVictim
  · exact h.busy
  · exact h.late
  intro l₄ h₄
  exact hq l₄ (((h₁.trans h₂).trans h₃).trans h₄)

/-- The end of an eviction whose disk descriptor is the free page that was asked for. -/
theorem safe_keepReserve (h : Moved g d x f y) (hs : l.Spares y.offset)
    {Q : PageId → Local → Share → Prop}
    (hq : ∀ z l', z.Spare → Kept l l' → Q f l' ((g.drop d f).put f (some z))) :
    (owning n frames).Safe t (do
      giveFrame f x.offset id
      dropReserve d f
      enqueueFifoThen .diskActiveList d fun e => (e.settleExchange d f).leaveExchange f
      releaseVictim d
      pure f) Q l g := by
  refine safe_bind
    (safe_giveFrame h.disk h.isDisk.va (by rw [h.isDisk.stake]; nofun) x.offset fun l₁ h₁ => ?_)
  refine safe_skip (by simp) fun _ l₂ h₂ => ?_
  have hd : (g.put f (some (y.given x.offset))).held d = some (x.moved y.offset) := by
    rw [Share.held_put_ne _ h.ne.symm]
    exact h.victim
  have hsettles : Settles l₂ (g.put f (some (y.given x.offset))) .diskActiveList d f
      (x.moved y.offset) (y.given x.offset) x.offset :=
    ⟨⟨hd, ⟨h.isVictim.va, h.isDisk.disk⟩, h.isVictim.hashed, nofun, fun _ => h.busy⟩,
      Share.held_put_self .., h.ne.symm, h.isVictim.stake, h.isDisk.stake,
      l₂.spares_dram h.isVictim.dram, hs.congr (h₁.trans h₂).ring⟩
  refine safe_bind (safe_enqueue_settle_leave hsettles rfl fun l₃ h₃ => safe_bind ?_)
  apply safe_releaseVictim
  · exact h.busy
  · exact h.late
  intro l₄ h₄
  have hz : ({ y.given x.offset with stake := none } : Hold).Spare :=
    ⟨h.isDisk.va, h.isVictim.dram, rfl, rfl, h.isDisk.hashed⟩
  have hshare : ((((g.put f (some (y.given x.offset))).put d none).put f
    (some { y.given x.offset with stake := none })).mark d none) =
      (g.drop d f).put f (some { y.given x.offset with stake := none }) := by
    rw [Share.put_comm _ h.ne, Share.put_put]
    exact congrArg (Share.mark · d none) (Share.put_put ..).symm
  rw [hshare]
  exact hq _ l₄ hz (((h₁.trans h₂).trans h₃).trans h₄)

theorem safe_keepFree (h : Moved g d x f y) (hs : l.Spares y.offset)
    {Q : PageId → Local → Share → Prop}
    (hq : ∀ z l', z.Spare → Kept l l' → Q f l' ((g.drop d f).put f (some z))) :
    (owning n frames).Safe t (do
      assertPage d (·.swappedOut) .victimSwappedOut
      enqueueFifoThen .diskActiveList d (·.settleExchange d f)
      giveFrame f x.offset (·.leaveExchange f)
      Prog.modify fun e => (e.setPage d fun p => { p with migrating := false }).endWork d
      pure f) Q l g := by
  refine safe_assertBusy h.busy (fun _ hp => hp.2.1) ?_
  have hgives : Gives g .diskActiveList d (x.moved y.offset) :=
    ⟨h.victim, ⟨h.isVictim.va, h.isDisk.disk⟩, h.isVictim.hashed, nofun, fun _ => h.busy⟩
  have hsettles : Settles l g .diskActiveList d f (x.moved y.offset) y x.offset :=
    ⟨hgives, h.disk, h.ne.symm, h.isVictim.stake, h.isDisk.stake, l.spares_dram h.isVictim.dram, hs⟩
  refine safe_bind (safe_enqueue_settle hsettles fun l₁ h₁ => safe_bind ?_)
  let z : Hold := { y.given x.offset with stake := none }
  have hgive (p : UserPage) (hp : ({ y with stake := some x.offset } : Hold).Knows p) :
      Revised { y with stake := some x.offset } z p
      { p with virtualOffset := x.offset, inDram := true, present := false } :=
    ⟨hp.va, rfl, fun _ => rfl, .inl h.isDisk.va, nofun, .inl ⟨rfl, rfl⟩⟩
  refine safe_revise_leave (Share.held_put_self ..) z rfl rfl (l₁.spares_dram h.isVictim.dram) hgive
    fun l₂ h₂ => safe_bind ?_
  rw [Share.put_put]
  apply safe_unmark (F := fun p => { p with migrating := false })
  · exact h.busy
  · exact fun _ => ⟨rfl, rfl, rfl⟩
  intro l₃ h₃
  have hz : z.Spare := ⟨h.isDisk.va, h.isVictim.dram, rfl, rfl, h.isDisk.hashed⟩
  have hshare : ((g.put d none).put f (some z)).mark d none = (g.drop d f).put f (some z) :=
    congrArg (Share.mark · d none) (Share.put_put ..).symm
  rw [hshare]
  exact hq z l₃ hz ((h₁.trans h₂).trans h₃)

/-! Whole evictions. -/

/-- What the disk descriptor of a victim may come from. -/
def TakesDisk (n : Nat) (frames : List Frame) (t : Tid) (take : Paging PageId) : Prop :=
  ∀ l g Q, (∀ f y l', g.held f = none → y.Disk → l.Spares y.offset → Kept l l' →
    Q f l' (g.put f (some y))) →
    (owning n frames).Safe t take Q l g

/-- The share while a victim's bytes are on disk and its flags are the thread's. -/
def Share.evicting (g : Share) (d : PageId) (x : Hold) (f : PageId) (y : Hold) : Share :=
  ((g.put d (some (x.moved y.offset))).put f (some y)).mark d (some .marked)

theorem Share.moved_evicting (hv : x.Victim) (hy : y.Disk) (hne : f ≠ d)
    (hlate : g.late d = false) : Moved (g.evicting d x f y) d x f y := by
  refine ⟨?_, Share.held_put_self .., hne, hv, hy, Share.busy_mark_self .., hlate⟩
  exact (Share.held_put_ne _ hne.symm _).trans (Share.held_put_self ..)

/-- After the eviction the share is what it was before it. -/
theorem Share.drop_evicting (hd : g.held d = none) (hf : g.held f = none) (hb : g.busy d = none)
    (hne : f ≠ d) : (g.evicting d x f y).drop d f = g := by
  apply Share.ext
  · funext e
    unfold drop evicting
    by_cases hef : e = f
    · subst hef
      exact (Share.held_put_self ..).trans hf.symm
    · by_cases hed : e = d
      · subst hed
        exact ((Share.held_put_ne _ hef _).trans (Share.held_put_self ..)).trans hd.symm
      · have hput (g : Share) (c : PageId) (o : Option Hold) (hc : e ≠ c) :
          (g.put c o).held e = g.held e := Share.held_put_ne _ hc _
        calc
          _ = (g.evicting d x f y).held e := (hput _ f _ hef).trans (hput _ d _ hed)
          _ = g.held e := (hput _ f _ hef).trans (hput _ d _ hed)
  · funext e
    by_cases hed : e = d
    · subst hed
      exact (Share.busy_mark_self ..).trans hb.symm
    · exact (Share.busy_mark_ne _ hed _).trans (Share.busy_mark_ne _ hed _)
  · rfl
  · rfl

/-- The first half of an eviction: the disk descriptor is taken and the victim's bytes go to its
frame. -/
theorem safe_vacate {take : Paging PageId} (htake : TakesDisk n frames t take)
    (hx : g.held d = none) (hv : x.Victim) (hc : Calls b l) (wp wb : Bool)
    {k : PageId → Frame → Paging α} {Q : α → Local → Share → Prop}
    (hq : ∀ f y l', f ≠ d → g.held f = none → g.busy d = none → y.Disk → l'.Spares y.offset →
      Calls b l' → (owning n frames).Safe t (k f x.offset) Q l' (g.evicting d x f y)) :
    (owning n frames).Safe t (do
      let diskpage ← take
      let oldOffset ← field d (·.virtualOffset)
      let diskOffset ← field diskpage (·.virtualOffset)
      lrudiskMigrateDown d diskOffset wp wb
      k diskpage oldOffset) Q l (g.put d (some x)) := by
  refine safe_bind (htake _ _ _ fun f y l₁ hf hy hs h₁ => ?_)
  have hne : f ≠ d := by
    rintro rfl
    rw [Share.held_put_self] at hf
    cases hf
  have hf' : g.held f = none := (Share.held_put_ne _ hne _).symm.trans hf
  have hd₁ : ((g.put d (some x)).put f (some y)).held d = some x :=
    (Share.held_put_ne _ hne.symm _).trans (Share.held_put_self ..)
  have hf₁ : ((g.put d (some x)).put f (some y)).held f = some y := Share.held_put_self ..
  refine safe_bind (safe_offset hd₁ (safe_bind (safe_offset hf₁ (safe_bind ?_))))
  have hc₁ := hc.kept h₁
  have hs₁ := hc.spares hc₁ hs
  refine safe_lrudiskMigrateDown hd₁ hv hy.disk (Share.backs_of hf₁ hy) hs₁ hc₁ wp wb
    fun l₂ hbusy h₂ => ?_
  have hshare : (((g.put d (some x)).put f (some y)).put d (some (x.moved y.offset))).mark d
    (some .marked) = g.evicting d x f y := by
    rw [Share.put_comm _ hne, Share.put_put]
    rfl
  rw [hshare]
  exact hq f y l₂ hne hf' hbusy hy (hc₁.spares h₂ hs₁) h₂

theorem takesDisk_takeReserve (d : PageId) : TakesDisk n frames t (takeReserve d) :=
  fun _ _ _ => safe_takeReserve

theorem takesDisk_takeDiskFree : TakesDisk n frames t takeDiskFree := fun _ _ _ => safe_takeDiskFree

/-- The share after a program is the one before it, and nothing is being written. -/
def Idled (b : Ring) (g : Share) (l : Local) (g' : Share) : Prop := Calls b l ∧ g' = g

theorem safe_lrudiskEvictionworker (hc : Calls b l) (hlate : ∀ d, g.late d = false) :
    (owning n frames).Safe t lrudiskEvictionworker (fun _ => Idled b g) l g := by
  refine safe_bind (safe_dequeue taking_victim ⟨hc, rfl⟩ fun d x l₁ hd hx _ h₁ => ?_)
  have hv := hx.victim
  refine safe_skip (by simp) fun _ l₂ h₂ =>
    safe_skip (by simp) fun wb l₃ h₃ => safe_skip (by simp) fun hasReserve l₄ h₄ => ?_
  have hc₄ := (((hc.kept h₁).kept h₂).kept h₃).kept h₄
  refine safe_ite (fun _ => ?_) fun _ => ?_
  · refine safe_vacate (takesDisk_takeReserve d) hd hv hc₄ false wb fun f y l₅ hne hf hb hy hs h₅ =>
      ?_
    refine safe_settleReserve (Share.moved_evicting hv hy hne (hlate d)) hs fun l₆ h₆ =>
      ⟨h₅.kept h₆, ?_⟩
    exact Share.drop_evicting hd hf hb hne
  · refine safe_vacate takesDisk_takeDiskFree hd hv hc₄ false wb fun f y l₅ hne hf hb hy hs h₅ => ?_
    refine safe_settleFree (Share.moved_evicting hv hy hne (hlate d)) hs fun l₆ h₆ =>
      ⟨h₅.kept h₆, ?_⟩
    exact Share.drop_evicting hd hf hb hne

/-- A thread gets a descriptor with a free DRAM frame, and nothing else changes for it. -/
def Obtained (b : Ring) (g : Share) (f : PageId) (l : Local) (g' : Share) : Prop :=
  ∃ z, g.held f = none ∧ z.Spare ∧ Calls b l ∧ g' = g.put f (some z)

theorem safe_fetchFreeEvict (hc : Calls b l) (hlate : ∀ d, g.late d = false)
    (hd : g.held d = none) (hv : x.Victim) :
    (owning n frames).Safe t (fetchFreeEvict d) (Obtained b g) l (g.put d (some x)) := by
  refine safe_skip (by simp) fun _ l₂ h₂ =>
    safe_skip (by simp) fun wb l₃ h₃ => safe_skip (by simp) fun hasReserve l₄ h₄ => ?_
  have hc₄ := ((hc.kept h₂).kept h₃).kept h₄
  refine safe_ite (fun _ => ?_) fun _ => ?_
  · refine safe_vacate (takesDisk_takeReserve d) hd hv hc₄ false wb fun f y l₅ hne hf hb hy hs h₅ =>
      ?_
    refine safe_keepReserve (Share.moved_evicting hv hy hne (hlate d)) hs fun z l₆ hz h₆ =>
      ⟨z, hf, hz, h₅.kept h₆, ?_⟩
    rw [Share.drop_evicting hd hf hb hne]
  · refine safe_vacate takesDisk_takeDiskFree hd hv hc₄ true wb fun f y l₅ hne hf hb hy hs h₅ => ?_
    refine safe_keepFree (Share.moved_evicting hv hy hne (hlate d)) hs fun z l₆ hz h₆ =>
      ⟨z, hf, hz, h₅.kept h₆, ?_⟩
    rw [Share.drop_evicting hd hf hb hne]

theorem safe_fetchFreeAsynch (hc : Calls b l) (hlate : ∀ d, g.late d = false) :
    (owning n frames).Safe t fetchFreeAsynch (Obtained b g) l g := by
  refine safe_loop (fun _ => Idled b g) ⟨hc, rfl⟩ fun priority l₁ g₁ h₁ => ?_
  obtain ⟨hc₁, rfl⟩ := h₁
  refine safe_ite (fun _ => safe_bind (safe_dequeue taking_id ?_ ?_)) fun _ => safe_fail nofun
  · refine safe_bind ((safe_fetchFreeScan priority).mono fun priority l₂ g₂ h₂ => ?_)
    obtain ⟨hk₂, rfl⟩ := h₂
    have hc₂ := hc₁.kept hk₂
    refine safe_bind (safe_dequeue taking_victim ⟨hc₂, rfl⟩ fun d x l₃ hd hx _ h₃ => ?_)
    have hc₃ := hc₂.kept h₃
    refine safe_bind ((safe_fetchFreeEvict hc₃ hlate hd hx.victim).mono fun f l₄ g₄ h₄ => ?_)
    obtain ⟨z, hf, hz, h₄, rfl⟩ := h₄
    exact ⟨z, hf, hz, h₄, rfl⟩
  · intro f z l₂ hf hz _ h₂
    exact ⟨z, hf, hz.spare, hc₁.kept h₂, rfl⟩

theorem safe_lrudiskPagefault (hc : Calls b l) (hlate : ∀ d, g.late d = false) :
    (owning n frames).Safe t lrudiskPagefault (Obtained b g) l g := by
  refine safe_bind ((safe_fetchFreeAsynch hc hlate).mono fun f l₁ g₁ h₁ => ?_)
  obtain ⟨z, hf, hz, h₁, rfl⟩ := h₁
  exact safe_skip (by simp) fun _ l₂ h₂ => ⟨z, hf, hz, h₁.kept h₂, rfl⟩

end ExtMem
