import ExtMem.Serial.Vacate

/-! A page that is swapped in has the bytes again that it had when it went to disk. -/
namespace ExtMem
open Threads Threads.Prog

variable {n : Nat} {frames : List Frame} {hand : PageId → Option Hand} {k : Skeleton} {d r : PageId}
  {e e₀ e' : Env}
  {m : Nat → Bytes} {α β : Type}

/-- What bytes are in and what they pass through on the way from disk. -/
structure Ground where
  pte : Nat → Option Pte
  disk : Nat → Bytes
  writes : Ring
  reads : Ring
  space : Bytes
  slots : Nat → Bytes
  faulty : Bool

def Threads.Ctx.ground (e : Env) : Ground where
  pte := e.sh.pte
  disk := e.sh.disk
  writes := e.loc.ring .ioRing
  reads := e.loc.ring .ioReadRing
  space := e.loc.bufferSpace
  slots := e.loc.prefetchBuffer
  faulty := e.sh.faulty

/-- Steps that touch none of it. -/
def SameGround (e e' : Env) : Prop := e'.ground = e.ground

/-- Actions that touch none of it. -/
abbrev Grounded : (β : Type) → (Env → Outcome Abort Env β) → Prop := Within SameGround

theorem linking_ground : Linking SameGround where
  refl _ := rfl
  trans h₁ h₂ := h₂.trans h₁
  enqueue _ _ _ _ _ := rfl
  dequeue _ _ _ _ _ _ := rfl
  remove _ _ _ _ _ := rfl
  auxiliary _ _ _ _ := rfl
  record _ _ _ _ _ := rfl

@[simp] theorem relinking_ground : Relinking SameGround where
  toLinking := linking_ground
  anyPage _ _ _ _ _ := rfl

theorem after_grounded {p : Paging α} (h : Always Grounded p) :
    After p e fun _ e' => e'.ground = e.ground :=
  after_within h linking_ground.refl linking_ground.trans

@[simp] theorem grounded_of_looks {p : Paging α} (h : Always Looks p) : Always Grounded p :=
  h.within linking_ground.refl

@[simp] theorem grounded_setPage (d : PageId) (f : UserPage → UserPage) :
    Always Grounded (setPage d f) :=
  within_modify fun _ => rfl

@[simp] theorem grounded_setStats (f : Stats → Stats) : Always Grounded (setStats f) :=
  within_modify fun _ => rfl

@[simp] theorem grounded_setInternalCall (b : Bool) : Always Grounded (setInternalCall b) :=
  within_modify fun _ => rfl

/-! Reading from the disk. -/

theorem ground_record (e : Env) (ev : Event) : (e.record ev).ground = e.ground := rfl

private theorem ground_submitted (l : List Sqe) (e : Env) :
    (l.foldl (fun e q => Threads.Ctx.record e (.submitted q)) e).ground = e.ground := by
  induction l generalizing e with
  | nil => rfl
  | cons q l ih => exact ih _

private theorem ground_setReads (e : Env) (f : Ring → Ring) :
    ({ e with loc := e.loc.setRing .ioReadRing f } : Env).ground =
      { e.ground with reads := f e.ground.reads } := by
  simp [Threads.Ctx.ground, Local.setRing]

theorem after_initReads (hr : e.ground.reads = ⟨false, [], []⟩ ∨ e.ground.reads.init = true) :
    After (initOnce .ioReadRing) e fun _ e' =>
      e'.ground = { e.ground with reads := { e.ground.reads with init := true } } := by
  unfold initOnce
  refine (after_bind _ _ _ _).mpr
    ((after_read _ _ _).mpr ((after_ite _ _ _ _).mpr ⟨fun hi => ?_, fun hi => ?_⟩))
  · refine (after_pure _ _ _).mpr ?_
    have hi : e.ground.reads.init = true := hi
    rw [← hi]
  · refine (after_modify _ _ _).mpr ?_
    rw [ground_setReads]
    rcases hr with hr | hr
    · rw [hr]
    · exact absurd hr hi

theorem after_prepRead (q : Sqe) :
    After (ioUringPrep .ioReadRing q) e fun _ e' => e'.ground =
      { e.ground with reads := { e.ground.reads with sq := e.ground.reads.sq ++ [q] } } := by
  refine (after_atomic _ _ _).mpr fun _ e' he => ?_
  split at he
  · cases he
    exact ground_setReads e _
  · cases he

theorem after_submitReads :
    After (ioUringSubmit .ioReadRing) e fun _ e' => e'.ground = { e.ground with
        reads := { e.ground.reads with
          sq := [], outstanding := e.ground.reads.outstanding ++ e.ground.reads.sq } } ∧
      e.ground.reads.init = true := by
  refine (after_atomic _ _ _).mpr fun _ e' he => ?_
  dsimp only at he
  split at he
  · next hi =>
    cases he
    exact ⟨(ground_submitted _ _).trans (ground_setReads e _), hi⟩
  · cases he

/-- The buffer that a read fills. -/
def Ground.fill (g : Ground) (q : Sqe) : Ground :=
  match q.buffer with
  | .bufferSpace => { g with space := g.disk q.offset }
  | .prefetchSlot i => { g with slots := Function.update g.slots i (g.disk q.offset) }
  | _ => g

private theorem splice_whole (new old : Bytes) : splice pageSize new old = new := by
  funext i
  exact if_pos i.isLt

/-- A read that ends has filled its buffer, whichever of them it is. -/
theorem after_waitRead (hf : e.sh.faulty = false)
    (hq : ∀ q ∈ e.ground.reads.outstanding, q.isWrite = false ∧ q.size = pageSize) :
    After (ioUringWaitCqe .ioReadRing) e fun _ e' => ∃ q ∈ e.ground.reads.outstanding,
      e'.ground = { e.ground with reads := { e.ground.reads with
        outstanding := e.ground.reads.outstanding.erase q } }.fill q := by
  refine (after_bind _ _ _ _).mpr ((after_answer _ _).mpr fun pick => (after_bind _ _ _ _).mpr
    ((after_answer _ _).mpr fun code => (after_atomic _ _ _).mpr fun _ e' he => ?_))
  dsimp only at he
  split at he
  · split at he
    · cases he
    · next q hm =>
      cases he
      have hmem : q ∈ e.ground.reads.outstanding := List.mem_of_getElem? hm
      obtain ⟨hw, hsz⟩ := hq q hmem
      refine ⟨q, hmem, ?_⟩
      have hres : e.transferResult q code = (pageSize : Nat) := by
        unfold Threads.Ctx.transferResult
        rw [if_neg (fun hc => by rw [hw] at hc; exact Bool.false_ne_true hc.1), hf,
          if_neg Bool.false_ne_true, hsz]
      rw [ground_record, hres, Threads.Ctx.transfer, hw, if_neg Bool.false_ne_true,
        Int.toNat_natCast]
      simp only [splice_whole]
      cases hb : q.buffer with
      | bufferSpace =>
        simp [Threads.Ctx.setBuffer, Threads.Ctx.ground, Ground.fill, hb, Local.setRing]
      | prefetchSlot i =>
        simp [Threads.Ctx.setBuffer, Threads.Ctx.ground, Ground.fill, hb, Local.setRing]
      | pageCache =>
        simp [Threads.Ctx.setBuffer, Threads.Ctx.ground, Ground.fill, hb, Local.setRing]
      | user va => simp [Threads.Ctx.setBuffer, Threads.Ctx.ground, Ground.fill, hb, Local.setRing]
  · cases he

/-- The copy into place maps the page with the bytes of its buffer, not dirty. -/
theorem after_copyBytes {b : Buffer} :
    After (copyIn d b) e fun _ e' => ∃ bytes, e.bufferBytes b = some bytes ∧
      e'.ground = { e.ground with
        pte := Function.update e.sh.pte (e.sh.page d).va (some ⟨bytes, false, false, false⟩) } := by
  refine (after_bind _ _ _ _).mpr ((after_read _ _ _).mpr ?_)
  refine after_then (R := fun c e' => c = true → ∃ bytes, e.bufferBytes b = some bytes ∧ e'.ground =
    { e.ground with
      pte := Function.update e.sh.pte (e.sh.page d).va (some ⟨bytes, false, false, false⟩) })
    ((after_atomic _ _ _).mpr fun c e' he => ?_) fun c e' hc => ?_
  · split at he
    · cases he
      exact fun h => absurd h Bool.false_ne_true
    · next bytes hb =>
      split at he
      · cases he
        exact fun _ => ⟨bytes, hb, rfl⟩
      · cases he
        exact fun h => absurd h Bool.false_ne_true
  · rw [← bind_pure (Prog.check c Abort.copyFailed)]
    exact after_check fun h => (after_pure _ _ _).mpr (hc h)

/-! The swap-in of one page. -/

/-- Between operations a thread's requests are done, and the bytes are where they belong. -/
structure Steady (m : Nat → Bytes) (e : Env) : Prop where
  holds : e.Holds m
  idle : e.shot.Idle
  reads : e.ground.reads = ⟨false, [], []⟩ ∨ e.ground.reads = ⟨true, [], []⟩

theorem Steady.start (h : Steady m e) : Sustained m e e := ⟨h.holds, h.idle, rfl⟩

theorem Steady.sustained (h : Steady m e) (hs : Sustained m e e') : Steady m e' := by
  have hr : e'.ground.reads = e.ground.reads := congrArg Intake.ring hs.intake
  refine ⟨hs.holds, hs.idle, ?_⟩
  rw [hr]
  exact h.reads

theorem Steady.gentle (h : Steady m e) (hg : Gentle false e e') : Steady m e' :=
  h.sustained (h.start.gentle hg)

theorem Steady.after {p : Paging α} (h : Steady m e) (hp : Always (Gently false) p) :
    After p e fun _ e' => Steady m e' :=
  (after_gently hp).mono fun _ _ hg => h.gentle hg

/-- The bytes are told by lists and descriptors, page table and disk. -/
theorem Steady.of_ground (hs : Stored m e.sh.skeleton e.ground.pte e.ground.disk fun a =>
      e.dirty a = false) (hw : e.ground.writes.sq = [] ∧ e.ground.writes.outstanding = [])
    (hf : e.ground.faulty = false)
    (hr : e.ground.reads = ⟨false, [], []⟩ ∨ e.ground.reads = ⟨true, [], []⟩) : Steady m e :=
  ⟨hs, ⟨hw.1, hw.2, hf⟩, hr⟩

theorem Steady.congr (h : Steady m e) (hk : e'.sh.skeleton = e.sh.skeleton)
    (hg : e'.ground = e.ground) : Steady m e' := by
  have hd : (fun a => e'.dirty a = false) = fun a => e.dirty a = false := by
    have hp : e'.sh.pte = e.sh.pte := congrArg Ground.pte hg
    unfold Threads.Ctx.dirty
    rw [hp]
  refine .of_ground ?_ ?_ ?_ ?_
  · rw [hk, hg, hd]
    exact h.holds
  · rw [hg]
    exact ⟨h.idle.sq, h.idle.outstanding⟩
  · rw [hg]
    exact h.idle.sound
  · rw [hg]
    exact h.reads

/-- A detached page has its bytes in its disk frame. -/
theorem Stored.of_detached {pte : Nat → Option Pte} {disk : Nat → Bytes} {clean : Nat → Prop}
    (h : Stored m k pte disk clean) (hw : Whole n frames hand k) (hd : hand d = some .detached) :
    disk (k.page d).virtualOffset.offset = m (k.page d).va := by
  have hda : (k.page d).Away := hw.inHand hd
  exact (h.away _ d hda.1 ((hw.hash _ d hda.1).mpr ⟨hw.lt_of_hand hd, rfl⟩) hda.2.2.2.2.1).2

/-- A page with the bytes that it had is mapped for a detached one, and its frames are exchanged. -/
theorem Steady.bringIn {g : Ground} {bytes : Bytes} (h : Sustained m e₀ e) (hk : e.sh.skeleton = k)
    (hw : Whole n frames hand k) (hd : hand d = some .detached) (hr : hand r = some .spare)
    (hb : bytes = m (k.page d).va) (hk' : e'.sh.skeleton = k.bringIn d r)
    (hg : g.disk = e.sh.disk ∧ g.writes = e.ground.writes ∧ g.faulty = e.sh.faulty)
    (hreads : g.reads = ⟨false, [], []⟩ ∨ g.reads = ⟨true, [], []⟩) (hg' : e'.ground =
      { g with pte := Function.update e.sh.pte (k.page d).va (some ⟨bytes, false, false, false⟩) }) :
    Steady m e' := by
  have hp : e'.sh.pte = Function.update e.sh.pte (k.page d).va
      (some ⟨bytes, false, false, false⟩) := congrArg Ground.pte hg'
  have hold : Stored m k e.sh.pte e.sh.disk fun a => e.dirty a = false := by
    rw [← hk]
    exact h.holds
  refine .of_ground ?_ ?_ ?_ ?_
  · rw [hk', hg', hg.1]
    refine hold.bringIn hw hd hr hb fun a ha hc => ?_
    unfold Threads.Ctx.dirty at hc ⊢
    rwa [hp, Function.update_of_ne ha] at hc
  · rw [hg', hg.2.1]
    exact ⟨h.idle.sq, h.idle.outstanding⟩
  · rw [hg', hg.2.2]
    exact h.idle.sound
  · rw [hg']
    exact hreads

/-- Code that changes neither descriptors nor bytes may be passed over. -/
theorem Steady.passes {p : Paging α} {q : α → Paging β} {Q : β → Env → Prop} (h : Steady m e)
    (hk : e.sh.skeleton = k) (hs : Always Still p) (hg : Always (Gently false) p)
    (hq : ∀ a e, e.sh.skeleton = k → Steady m e → After (q a) e Q) : After (p >>= q) e Q :=
  after_then ((after_still_last hk hs).and (h.after hg)) fun a e ⟨hk, h⟩ => hq a e hk h

/-- Requests that are under way change no byte that counts. -/
theorem Steady.request {l : List Sqe} (h : Steady m e) (hk : e'.sh.skeleton = e.sh.skeleton)
    (hg : e'.ground = { e.ground with reads := ⟨true, [], l⟩ }) : Sustained m e' e' := by
  have hd : (fun a => e'.dirty a = false) = fun a => e.dirty a = false := by
    have hp : e'.sh.pte = e.sh.pte := congrArg Ground.pte hg
    unfold Threads.Ctx.dirty
    rw [hp]
  have hp : e'.ground.pte = e.ground.pte := by rw [hg]
  have hdisk : e'.ground.disk = e.ground.disk := by rw [hg]
  refine ⟨?_, ⟨?_, ?_, ?_⟩, rfl⟩
  · show Stored m e'.sh.skeleton e'.ground.pte e'.ground.disk _
    rw [hk, hp, hdisk, hd]
    exact h.holds
  · exact (congrArg (·.writes.sq) hg).trans h.idle.sq
  · exact (congrArg (·.writes.outstanding) hg).trans h.idle.outstanding
  · exact (congrArg (·.faulty) hg).trans h.idle.sound

/-- The read of a page is under way. -/
private theorem Steady.startRead (h : Steady m e)
    (hk : e.sh.skeleton = k) (hpt : (k.page d).pt = .basep) :
    After (coreMigrateUpAsyncStart d) e fun _ e' =>
        e'.sh.skeleton = k ∧ Sustained m e' e' ∧ e'.ground.reads = ⟨true, [],
        [⟨false, (k.page d).virtualOffset.offset, .bufferSpace, pageSize⟩]⟩ := by
  unfold coreMigrateUpAsyncStart ioringStartRead pagesizeOf
  refine h.passes hk (by simp) (by simp) fun _ e hk h => ?_
  refine after_then (R := fun _ e' => e'.sh.skeleton = k ∧ Steady m e') ?_ fun _ e ⟨hk, h⟩ => ?_
  · refine (after_bind _ _ _ _).mpr ((after_read _ _ _).mpr
      ((after_ite _ _ _ _).mpr ⟨fun _ => (after_pure _ _ _).mpr ⟨hk, h⟩, fun _ => ?_⟩))
    exact (after_modify _ _ _).mpr ⟨hk, h.holds, h.idle, h.reads⟩
  refine after_field hk (after_field hk (h.passes hk (by simp) (by simp) fun _ e hk h => ?_))
  rw [hpt]
  have hinit : e.ground.reads = ⟨false, [], []⟩ ∨ e.ground.reads.init = true :=
    h.reads.imp id fun hr => by
    rw [hr]
  refine after_then ((after_still_last hk (by simp)).and (after_initReads hinit))
    fun _ e₁ ⟨hk₁, hg₁⟩ => ?_
  refine after_then ((after_still_last hk₁ (by simp)).and (after_prepRead _)) fun _ e₂ ⟨hk₂, hg₂⟩ =>
    ?_
  refine ((after_still_last hk₂ (by simp)).and after_submitReads).mono fun _ e₃ ⟨hk₃, hg₃, _⟩ => ?_
  have hg : e₃.ground = { e.ground with
      reads := ⟨true, [], [⟨false, (k.page d).virtualOffset.offset, .bufferSpace, pageSize⟩]⟩ } := by
    rw [hg₃, hg₂, hg₁]
    rcases h.reads with hr | hr
    · rw [hr]
      rfl
    · rw [hr]
      rfl
  exact ⟨hk₃, h.request (hk₃.trans hk.symm) hg, by rw [hg]⟩

/-- The end of a swap-in, from the state with its page detached and a frame fetched. -/
private theorem after_swapinTail (hk : e.sh.skeleton = k) (hne : r ≠ d) : After (do
    coreMigrateUpAsyncFinish d (k.page r).virtualOffset
    takeDiskFrame r (k.page d).virtualOffset
    publishSwapin d r) e fun _ e' => (e'.setPage d (·.settled)).sh.skeleton = k.bringIn d r := by
  refine after_then (after_upFinish hk) fun _ e₂ hk₂ => ?_
  refine after_setPage hk₂ fun e₃ hk₃ =>
    (after_publishSwapin hk₃ hne).mono fun _ e₄ ⟨hrl, hdl, hk₄⟩ => ?_
  show e₄.sh.skeleton.write d (·.settled) = _
  rw [hk₄]
  refine bringIn_eq ?_ ?_ (fun x h₁ h₂ => ?_) rfl rfl rfl rfl rfl
  · simp [Skeleton.write, Skeleton.link, UserPage.broughtIn, UserPage.settled, hne, hne.symm]
  · simp [Skeleton.write, Skeleton.link, UserPage.kept, hne]
  · simp [Skeleton.write, Skeleton.link, h₁, h₂]

private theorem after_passed {g : Ground} {p : Paging α} {q : α → Paging β} {Q : β → Env → Prop}
    (hk : e.sh.skeleton = k) (hg : e.ground = g) (hs : Always Still p) (hp : Always Grounded p)
    (hq : ∀ a e, e.sh.skeleton = k → e.ground = g → After (q a) e Q) : After (p >>= q) e Q :=
  after_then ((after_still_last hk hs).and (after_grounded hp)) fun a e' ⟨hk', hg'⟩ =>
    hq a e' hk' (hg'.trans hg)

/-- What the end of the copy does to the bytes. -/
private theorem ground_upFinish {g : Ground} {offset : Frame} {off : Nat}
    (hk : e.sh.skeleton = k) (hg : e.ground = g) (hf : g.faulty = false)
    (hr : g.reads = ⟨true, [], [⟨false, off, .bufferSpace, pageSize⟩]⟩) :
    After (coreMigrateUpAsyncFinish d offset) e fun _ e' => e'.ground = { g with
      reads := ⟨true, [], []⟩, space := g.disk off,
      pte := Function.update g.pte (k.page d).va (some ⟨g.disk off, false, false, false⟩) } := by
  unfold coreMigrateUpAsyncFinish
  refine after_passed hk hg (by simp) (by simp) fun _ e hk hg =>
    after_passed hk hg (by simp) (by simp) fun _ e hk hg => ?_
  refine after_passed hk hg (by simp) (by simp) fun _ e hk hg =>
    after_passed hk hg (by simp) (by simp) fun _ e hk hg => ?_
  refine after_passed hk hg (by simp) (by simp) fun _ e hk hg =>
    after_passed hk hg (by simp) (by simp) fun _ e hk hg => ?_
  refine after_then (R := fun _ e' => e'.sh.skeleton = k ∧
    e'.ground = { g with reads := ⟨true, [], []⟩, space := g.disk off }) ?_ fun _ e ⟨hk, hg⟩ => ?_
  · refine after_passed hk hg (by simp) (by simp) fun _ e hk hg => ?_
    have hrg : e.ground.reads = ⟨true, [], [⟨false, off, .bufferSpace, pageSize⟩]⟩ := by rw [hg, hr]
    have hfaulty : e.sh.faulty = false := (congrArg Ground.faulty hg).trans hf
    refine ((after_still_last hk (by simp)).and (after_waitRead hfaulty fun q hq => ?_)).mono
      fun _ e' ⟨hk', q, hq, hg'⟩ => ⟨hk', ?_⟩
    · rw [hrg, List.mem_singleton] at hq
      rw [hq]
      exact ⟨rfl, rfl⟩
    · rw [hrg, List.mem_singleton] at hq
      rw [hg', hrg, hq, hg]
      simp [Ground.fill]
  refine after_then ((after_still_last hk (by simp)).and after_copyBytes)
    fun _ e' ⟨hk', bytes, hb, hg'⟩ => ?_
  have hbytes : g.disk off = bytes := by
    have hspace : e.loc.bufferSpace = g.disk off := (congrArg Ground.space hg :)
    rw [← hspace]
    exact Option.some.inj hb
  have hpte : e.sh.pte = g.pte := (congrArg Ground.pte hg :)
  have hva : (e.sh.page d).va = (k.page d).va := by
    rw [← hk]
    rfl
  have hlast {p : Paging Unit} (hp : Always Grounded p) : After p e' fun _ e₂ =>
      e₂.ground = _ := (after_grounded hp).mono fun _ _ h => h.trans hg'
  rw [hg, hva, hpte, ← hbytes] at hlast
  exact hlast (always_bind (by simp) fun _ => always_bind (by simp) fun _ =>
    always_bind (by simp) fun _ => always_bind (by simp) fun _ => by simp)

private theorem ground_swapinTail {g : Ground} {offset f : Frame} {off : Nat}
    (hk : e.sh.skeleton = k) (hg : e.ground = g) (hf : g.faulty = false)
    (hr : g.reads = ⟨true, [], [⟨false, off, .bufferSpace, pageSize⟩]⟩) : After (do
    coreMigrateUpAsyncFinish d offset
    takeDiskFrame r f
    publishSwapin d r) e fun _ e' => e'.ground = { g with
      reads := ⟨true, [], []⟩, space := g.disk off,
      pte := Function.update g.pte (k.page d).va (some ⟨g.disk off, false, false, false⟩) } := by
  refine after_then (ground_upFinish hk hg hf hr) fun _ e₁ hg₁ => ?_
  exact (after_grounded (always_bind (by simp) fun _ =>
    within_publishSwapin relinking_ground d r)).mono fun _ _ h => h.trans hg₁

/-- The swap-in of a claimed page brings its bytes back. -/
theorem Steady.swapin (h : Steady m e) (hw : Whole n frames hand k) (hf : frames.Nodup)
    (hk : e.sh.skeleton = k.write d fun p => { p with migrating := true }) :
    After (lrudiskSwapinExternalAsync d) e fun _ e' => Steady m (e'.setPage d (·.settled)) := by
  unfold lrudiskSwapinExternalAsync
  have hdetach : Always (Gently false) (detach d (.swapinList d) (.swapinRemoved d)) :=
    within_detach linking_gentle d rfl rfl
  refine after_field hk
    (after_then ((after_detach hk).and (h.after hdetach)) fun _ e ⟨⟨hl, hk⟩, h⟩ => ?_)
  rw [Skeleton.list_write] at hl
  have hw := hw.detach hl
  generalize hk₁ : (k.write d fun p => { p with migrating := true }).unlink d = k₁ at hk hw
  have hpage : k₁.page d = { k.page d with migrating := true } := by simp [← hk₁]
  have hhd : Function.update hand d (some Hand.detached) d = some .detached :=
    Function.update_self ..
  refine after_then (h.startRead hk (hw.pt d (hw.lt_of_hand hhd))) fun _ e₁ ⟨hk₁', hs₁, hreads⟩ =>
    ?_
  refine after_then ((after_fetchFreeAsynch hk₁' hw).and (hs₁.fetchFreeAsynch hk₁' hw hf))
    fun r e₂ ⟨⟨hw₂, hr, hrec, _⟩, hs₂⟩ => ?_
  have hne : r ≠ d := by
    rintro rfl
    rw [hhd] at hr
    cases hr
  have hpd : e₂.sh.skeleton.page d = k₁.page d := hrec.held d (by simp)
  refine after_then (R := fun offset e' => offset = (e₂.sh.skeleton.page r).virtualOffset ∧
    e'.sh.skeleton = e₂.sh.skeleton ∧ Sustained m e₁ e') ?_ fun offset e₃ ⟨hoff, hk₃, hs₃⟩ => ?_
  · refine After.and (Q := fun offset e' => offset = _ ∧ e'.sh.skeleton = _) ?_
      (hs₂.after (always_bind (within_modify fun e => .joinExchange e r) fun _ =>
      always_bind (by simp) fun _ => by simp)) |>.mono fun offset e' ⟨⟨h₁, h₂⟩, h₃⟩ => ⟨h₁, h₂, h₃⟩
    refine after_still rfl (within_modify fun _ => .of_eq rfl rfl) fun _ e₃ hk₃ =>
      after_still hk₃ (by simp) fun _ e₃ hk₃ => ?_
    refine (after_read _ _ _).mpr ⟨?_, hk₃⟩
    rw [← hk₃]
    rfl
  subst hoff
  have hfile : ((k.write d fun p => { p with migrating := true }).page d).virtualOffset =
      (e₂.sh.skeleton.page d).virtualOffset := by
    rw [hpd, hpage, Skeleton.page_write_self]
  rw [hfile]
  have hreads₃ : e₃.ground.reads = ⟨true, [],
      [⟨false, (e₂.sh.skeleton.page d).virtualOffset.offset, .bufferSpace, pageSize⟩]⟩ := by
    rw [show e₃.ground.reads = e₁.ground.reads from congrArg Intake.ring hs₃.intake, hreads, hpd]
  have hd₂ : Function.update (Function.update hand d (some Hand.detached)) r (some Hand.spare) d =
      some .detached := by
    rw [Function.update_of_ne hne.symm, hhd]
  have hstored : Stored m e₂.sh.skeleton e₃.sh.pte e₃.sh.disk fun a => e₃.dirty a = false := by
    rw [← hk₃]
    exact hs₃.holds
  have hbytes := hstored.of_detached hw₂ hd₂
  refine ((after_swapinTail hk₃ hne).and (ground_swapinTail hk₃ rfl hs₃.idle.sound hreads₃)).mono
    fun _ e' ⟨hk', hg'⟩ => ?_
  exact Steady.bringIn (g := { e₃.ground with
    reads := ⟨true, [], []⟩, space := e₃.sh.disk (e₂.sh.skeleton.page d).virtualOffset.offset })
    hs₃ hk₃ hw₂ hd₂
    (Function.update_self ..) hbytes hk' ⟨rfl, rfl, rfl⟩ (.inr rfl) hg'

end ExtMem
