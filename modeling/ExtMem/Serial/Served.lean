import ExtMem.Serial.BatchReturns
import ExtMem.Serial.Calls
import ExtMem.Sparing
import ExtMem.Threads.Excused

/-! Why an operation that runs alone aborts: when it takes victims for which the disk is ready and
finds that its thread has the rings that it needs, it neither misses a disk frame nor submits to a
ring that is not initialised. -/
namespace ExtMem
open Threads Threads.Prog

/-- An action that neither finds that there is no disk page nor submits to a ring that is not
there. -/
def Unfailing (β : Type) (f : Env → Outcome Abort Env β) : Prop :=
  ∀ e why, f e = .abort why → why ≠ .noDiskPage ∧ why ≠ .uninitialisedSubmit

theorem unfailing_of_within {α : Type} {R : Env → Env → Prop} {p : Paging α}
    (h : Always (Within R False) p) : Always Unfailing p := by
  refine h.mono fun β f hf e why he => ?_
  have hplain : why.plain = true := (hf.abort he).resolve_right id
  constructor <;> rintro rfl <;> exact absurd hplain nofun

theorem unfailing_of_plain {α : Type} {p : Paging α} (h : Always Plain p) : Always Unfailing p :=
  unfailing_of_within h

/-! Actions that fail for other reasons. -/

private theorem unfailing_fail {α : Type} {why : Abort}
    (h : why ≠ .noDiskPage ∧ why ≠ .uninitialisedSubmit) :
    Always Unfailing (Prog.fail why : Paging α) := by
  refine ⟨fun _ w hw => ?_, fun b => b.elim⟩
  cases hw
  exact h

private theorem unfailing_check {c : Bool} {why : Abort}
    (h : why ≠ .noDiskPage ∧ why ≠ .uninitialisedSubmit) :
    Always Unfailing (Prog.check c why : Paging Unit) := by
  unfold Prog.check
  exact always_ite trivial (unfailing_fail h)

private theorem unfailing_modify (f : Env → Env) : Always Unfailing (Prog.modify f : Paging Unit) :=
  always_atomic fun _ _ he => by cases he

private theorem unfailing_initOnce (r : RingName) : Always Unfailing (initOnce r) :=
  always_bind (unfailing_of_plain (by simp)) fun _ =>
    always_ite trivial (by rw [threadInit_eq]; exact unfailing_modify _)

private theorem unfailing_prep (r : RingName) (sqe : Sqe) :
    Always Unfailing (ioUringPrep r sqe) := by
  refine always_atomic fun e why he => ?_
  split at he
  · cases he
  · cases he
    decide

private theorem unfailing_wait (r : RingName) : Always Unfailing (ioUringWaitCqe r) := by
  refine always_bind (by simp) fun pick =>
    always_bind (by simp) fun code => always_atomic fun e why he => ?_
  dsimp only at he
  split at he
  · split at he
    · cases he
      decide
    · cases he
  · cases he
    decide

private theorem unfailing_copyIn (d : PageId) (b : Buffer) : Always Unfailing (copyIn d b) :=
  unfailing_of_within (R := fun _ _ => True) (within_copyIn d b (fun _ => trivial)
    fun _ _ _ => trivial)

private theorem unfailing_upFinish (d : PageId) (f : Frame) :
    Always Unfailing (coreMigrateUpAsyncFinish d f) := by
  refine always_bind (unfailing_of_plain (by simp)) fun _ => ?_
  refine always_bind (unfailing_of_plain (by simp)) fun _ =>
    always_bind (unfailing_of_plain (by simp)) fun _ => ?_
  refine always_bind (unfailing_of_plain (by simp)) fun _ =>
    always_bind (unfailing_of_plain (by simp)) fun _ => ?_
  refine always_bind (unfailing_of_plain (by simp)) fun _ => ?_
  refine always_bind (always_bind (unfailing_of_plain (by simp)) fun _ => unfailing_wait _)
    fun _ => ?_
  refine always_bind (unfailing_copyIn _ _) fun _ =>
    unfailing_of_plain (always_bind (by simp) fun _ => ?_)
  exact always_bind (by simp) fun _ =>
    always_bind (by simp) fun _ => always_bind (by simp) fun _ => by
    simp

private theorem unfailing_addPage (d : PageId) : Always Unfailing (addPage d) :=
  unfailing_of_within (R := fun _ _ => True) (within_addPage d fun _ _ => trivial)

private theorem unfailing_removePage (d : PageId) : Always Unfailing (removePage d) :=
  unfailing_modify _

private theorem unfailing_libcMmap (a n : Nat) (flags : BitVec 32) :
    Always Unfailing (libcMmap a n flags) := by
  refine always_bind (by simp) fun refuse =>
    always_bind (by simp) fun pick => always_atomic fun e why he => ?_
  generalize (if hasFlag flags mapFixed = true then a else pick) = p at he
  dsimp only at he
  split at he
  · cases he
  · split at he <;> cases he

private theorem unfailing_libcMunmap (a n : Nat) : Always Unfailing (libcMunmap a n) := by
  refine always_bind (by simp) fun refuse => always_atomic fun e why he => ?_
  split at he <;> cases he

private theorem unfailing_extmemMunmap (addr length : Nat) :
    Always Unfailing (extmemMunmap addr length) := by
  refine always_bind (unfailing_modify _) fun _ =>
    always_bind (unfailing_of_plain (by simp)) fun _ => ?_
  refine always_bind (always_loop fun va => always_ite (always_bind ?_ fun next => trivial) trivial)
    fun _ => ?_
  · refine always_bind (unfailing_of_plain (by simp)) fun page => ?_
    cases page with
    | none => trivial
    | some page =>
      refine always_bind (unfailing_of_plain (by simp)) fun _ =>
        always_bind (unfailing_removePage page) fun _ => ?_
      refine always_bind (unfailing_of_plain (by simp)) fun _ =>
        always_bind (unfailing_of_plain (by simp)) fun _ => ?_
      refine always_bind (unfailing_modify _) fun _ => always_bind (unfailing_modify _) fun _ => ?_
      exact always_bind (unfailing_modify _) fun _ => trivial
  · refine always_bind (unfailing_libcMunmap _ _) fun done =>
      always_bind (unfailing_check (by decide)) fun _ => ?_
    exact always_bind (unfailing_modify _) fun _ => unfailing_modify _

/-! The condition on the state in which victims are taken. -/

/-- How many of some victims have no reserve. -/
def needy (s : Shared) (victims : List PageId) : Nat :=
  victims.countP fun d => !(s.page d).hasReserve

/-- How many tracked pages are swapped out, of those among the first descriptors. -/
def swappedOutPages (n : Nat) (s : Shared) : Nat :=
  (List.range n).countP fun d =>
    (s.page d).va != 0 && s.pages (s.page d).va == some d && (s.page d).swappedOut

/-- The disk has a free frame for each of the next victims that has no reserve, or all of it is
taken by swapped-out pages. -/
def DiskReady (count : Nat) (s : Shared) : Prop :=
  needy s ((s.fifos.seq .evictionList).take count) ≤ (s.fifos.seq .diskFreeList).length ∨
    s.fifos.seq .diskFreeList = [] ∧ s.fifos.seq .diskReserveList = []

instance (count : Nat) (s : Shared) : Decidable (DiskReady count s) :=
  inferInstanceAs (Decidable (_ ∨ _))

/-- The victims that a step takes off the eviction list. -/
def takenVictims (s s' : Shared) : List PageId :=
  (newEvents s s').filterMap fun
    | (_, .dequeued .evictionList d) => some d
    | _ => none

/-- So many victims are taken only in a state in which the disk is ready for them. -/
def EvictsReady (s s' : Shared) : Prop := DiskReady (takenVictims s s').length s

instance (s s' : Shared) : Decidable (EvictsReady s s') :=
  inferInstanceAs (Decidable (DiskReady _ _))

/-- What an operation may abort for: for want of a disk frame only when so many pages are swapped
out, for want of a ring never, as far as each is asked for. -/
def Allowed (n D : Nat) (disk ring : Prop) (why : Abort) (e : Env) : Prop :=
  (disk → why = .noDiskPage → D ≤ swappedOutPages n e.sh) ∧ (ring → why ≠ .uninitialisedSubmit)

/-- The operation aborts only for what is allowed; as far as disk frames are asked for, victims are
taken only when the disk is ready for them. -/
abbrev Served (n D : Nat) (disk ring : Prop) {α : Type} (p : Paging α) (e : Env)
    (Q : α → Env → Prop) : Prop :=
  Excused (fun e e' : Env => disk → EvictsReady e.sh e'.sh) (Allowed n D disk ring) p e Q

variable {n D : Nat} {disk ring : Prop} {frames : List Frame} {hand : PageId → Option Hand}
  {k : Skeleton} {e : Env}
  {α β : Type} {Q : β → Env → Prop} {victims : List PageId} {d : PageId} {s s' : Shared}

/-! Programs that evict nothing. -/

private theorem allowed_of_ne {why : Abort} (h : why ≠ .noDiskPage ∧ why ≠ .uninitialisedSubmit) :
    Allowed n D disk ring why e := ⟨fun _ hw => absurd hw h.1, fun _ => h.2⟩

private theorem served_rest {p : Paging α} (h : Always Unfailing p) :
    Served n D disk ring p e fun _ _ => True :=
  h.excused (fun _ _ hf s why ha => allowed_of_ne (hf s why ha)) e

private theorem served_fail {why : Abort} (h : why ≠ .noDiskPage ∧ why ≠ .uninitialisedSubmit) :
    Served n D disk ring (Prog.fail why : Paging β) e Q :=
  ⟨fun w hw => Outcome.abort.inj hw ▸ allowed_of_ne h, fun _ _ he => by cases he⟩

private theorem served_after {p : Paging α} {q : α → Paging β} {R : α → Env → Prop}
    (h : Served n D disk ring p e fun _ _ => True) (ha : After p e R)
    (hq : ∀ a e', R a e' → Served n D disk ring (q a) e' Q) : Served n D disk ring (p >>= q) e Q :=
  Excused.bind ((h.strengthen ha).mono fun a e' hr => hq a e' hr.2)

private theorem served_then {p : Paging α} {q : α → Paging β} {R : α → Env → Prop}
    (h : Always Unfailing p) (ha : After p e R)
    (hq : ∀ a e', R a e' → Served n D disk ring (q a) e' Q) : Served n D disk ring (p >>= q) e Q :=
  served_after (served_rest h) ha hq

private theorem served_still {p : Paging α} {q : α → Paging β} (hk : e.sh.skeleton = k)
    (h : Always Unfailing p) (hs : Always Still p)
    (hq : ∀ a e', e'.sh.skeleton = k → Served n D disk ring (q a) e' Q) :
    Served n D disk ring (p >>= q) e Q := served_then h (after_still_last hk hs) hq

private theorem served_plain {p : Paging α} {q : α → Paging β} (hk : e.sh.skeleton = k)
    (h : Always Plain p) (hs : Always Still p)
    (hq : ∀ a e', e'.sh.skeleton = k → Served n D disk ring (q a) e' Q) :
    Served n D disk ring (p >>= q) e Q := served_still hk (unfailing_of_plain h) hs hq

/-- Before anything else comes what neither evicts nor submits. -/
private theorem served_next {p : Paging α} {q : α → Paging β} (h : Always Unfailing p)
    (hq : ∀ a e', Served n D disk ring (q a) e' Q) : Served n D disk ring (p >>= q) e Q :=
  served_then h (R := fun _ _ => True) (fun _ _ _ => trivial) fun a e' _ => hq a e'

/-- After an operation that evicts or submits comes what does neither. -/
private theorem served_last {p : Paging α} {q : α → Paging β}
    (hp : Served n D disk ring p e fun _ _ => True) (hq : ∀ a, Always Unfailing (q a)) :
    Served n D disk ring (p >>= q) e fun _ _ => True :=
  Excused.bind (hp.mono fun a _ _ => served_rest (hq a))

/-! The rings. -/

/-- The thread has initialised the ring. -/
def Threads.Ctx.ringInit (e : Env) (r : RingName) : Prop := (e.loc.ring r).init = true

/-- What is plain leaves the ring as it is. -/
private theorem served_ready {p : Paging α} {q : α → Paging β} {r : RingName}
    (hk : e.sh.skeleton = k) (hi : e.ringInit r) (h : Always Plain p) (hs : Always Still p)
    (hq : ∀ a e', e'.sh.skeleton = k → e'.ringInit r → Served n D disk ring (q a) e' Q) :
    Served n D disk ring (p >>= q) e Q := by
  refine served_then (unfailing_of_plain h)
    ((after_still_last hk hs).and (after_ringsKept (ringsKept_plain h))) fun a e' ⟨hk', hr⟩ =>
    hq a e' hk' ?_
  unfold Threads.Ctx.ringInit
  rw [hr]
  exact hi

private theorem served_initOnce {r : RingName} {q : Paging β}
    (hq : ∀ e', e'.ringInit r → Served n D disk ring q e' Q) :
    Served n D disk ring (initOnce r >>= fun _ => q) e Q := by
  refine served_then (unfailing_initOnce r) (R := fun _ e' => e'.ringInit r) ?_ fun _ e' h =>
    hq e' h
  refine (after_bind _ _ _ _).mpr ((after_read _ _ _).mpr ?_)
  rw [threadInit_eq]
  refine (after_ite _ _ _ _).mpr
    ⟨fun hi => (after_pure _ _ _).mpr hi, fun _ => (after_modify _ _ _).mpr ?_⟩
  simp [Threads.Ctx.ringInit, Local.setRing]

private theorem served_prep {r : RingName} {sqe : Sqe} {q : Paging β} (h : e.ringInit r)
    (hq : ∀ e', e'.ringInit r → Served n D disk ring q e' Q) :
    Served n D disk ring (ioUringPrep r sqe >>= fun _ => q) e Q :=
  served_then (unfailing_prep r sqe) (after_sparing (c := false) (u := false) (by simp))
    fun _ e' hs => hq e' (hs.init r h)

private theorem served_submit {r : RingName} (h : ring → e.ringInit r) :
    Served n D disk ring (ioUringSubmit r) e fun _ _ => True := by
  refine excused_atomic (fun why ha => ?_) fun _ _ _ _ => trivial
  dsimp only at ha
  split at ha
  · cases ha
  · next hinit =>
    cases ha
    exact ⟨fun _ hw => (by cases hw), fun hring => absurd (h hring) hinit⟩

private theorem served_writeStore (a : Nat) (b : Buffer) (m : Nat) :
    Served n D disk ring (ioringWriteStore a b m) e fun _ _ => True :=
  served_initOnce fun _ h =>
    served_prep h fun _ h => served_last (served_submit fun _ => h) fun _ => unfailing_wait _

private theorem served_downdisk (d : PageId) (f : Frame) (wb : Bool) :
    Served n D disk ring (extmemMigrateDowndisk d f wb) e fun _ _ => True := by
  have hrest (va size : Nat) : Always Unfailing (do
      traceEvent (.dropping d)
      dropMapping va
      setStats fun t => { t with migrationsDown := add64 t.migrationsDown 1 }
      setPage d fun p => { p with virtualOffset := f }
      setPage d fun p => { p with inDram := false }
      setStats fun t => { t with bytesMigrated := add64 t.bytesMigrated size }
      Prog.atomic (markSwappedOut d)) := by
    refine always_bind (unfailing_modify _) fun _ => unfailing_of_plain ?_
    refine always_bind (by simp) fun _ =>
      always_bind (by simp) fun _ => always_bind (by simp) fun _ => ?_
    exact always_bind (by simp) fun _ =>
      always_bind (by simp) fun _ => within_markSwappedOut relinking_plain d
  refine served_next (unfailing_modify _) fun _ e =>
    served_next (unfailing_of_plain (by simp)) fun _ e => ?_
  refine served_next (unfailing_of_plain (by simp)) fun size e =>
    served_next (unfailing_of_plain (by simp)) fun _ e => ?_
  refine served_next (unfailing_of_plain (by simp)) fun _ e => ?_
  refine served_next (unfailing_of_plain (by simp)) fun _ e => ?_
  refine served_next (unfailing_of_plain (by simp)) fun va e =>
    excused_ite (fun _ => ?_) fun _ => served_rest (hrest va size)
  exact served_next (unfailing_modify _) fun _ e =>
    served_last (served_writeStore _ _ _) fun _ => hrest va size

private theorem served_migrateDown (d : PageId) (f : Frame) (wp wb : Bool) :
    Served n D disk ring (lrudiskMigrateDown d f wp wb) e fun _ _ => True := by
  refine served_next (unfailing_modify _) fun _ e =>
    excused_ite (fun _ => ?_) fun _ => served_downdisk _ _ _
  exact served_next (unfailing_of_plain (by simp)) fun _ e => served_downdisk _ _ _

/-- A batch is submitted to a ring that was initialised before or for its first write-back. -/
private theorem served_downdiskVector {batch : List Slot}
    (h : ring → e.ringInit .ioRing ∨ ∃ x ∈ batch, x.writeback = true) :
    Served n D disk ring (extmemMigrateDowndiskVector batch) e fun _ _ => True := by
  refine served_then (unfailing_modify _)
    (after_sparing (c := false) (u := false) (sparing_traceEvent rfl rfl)) fun _ e₁ hs =>
    Excused.bind ?_
  refine excused_collect
    (fun todo _ e' => ring → e'.ringInit .ioRing ∨ ∃ x ∈ todo, x.writeback = true)
    (fun hr => (h hr).imp (hs.init _) id) (fun x todo written e h => ?_) fun written e h => ?_
  · refine served_then (unfailing_of_plain (by simp))
      (after_sparing (c := false) (u := false) (by simp)) fun _ e₁ hs =>
      excused_ite (fun hw => ?_) fun hw => ?_
    · refine served_next (unfailing_of_plain (by simp)) fun _ e =>
        served_next (unfailing_of_plain (by simp)) fun _ e => ?_
      refine served_next (unfailing_modify _) fun _ e => Excused.bind ?_
      exact served_initOnce fun _ h => ((served_rest (unfailing_prep _ _)).strengthen (after_sparing
        (c := false) (u := false) (by simp))).mono fun _ _ hs _ => .inl (hs.2.init _ h)
    · refine fun hr => (h hr).imp (hs.init _) fun ⟨y, hy, hyw⟩ => ⟨y, ?_, hyw⟩
      refine (List.mem_cons.mp hy).resolve_left ?_
      rintro rfl
      exact hw hyw
  · have hinit : ring → e.ringInit .ioRing := fun hr => (h hr).resolve_right (by simp)
    refine served_last (served_submit hinit) fun _ =>
      always_bind (always_each fun _ => unfailing_wait _) fun _ => ?_
    refine always_bind (always_each fun x => ?_) fun _ => unfailing_of_plain ?_
    · refine always_bind (unfailing_of_plain (by simp)) fun _ =>
        always_bind (unfailing_modify _) fun _ => ?_
      exact unfailing_of_plain (by simp)
    · exact always_bind (always_each fun x => by simp) fun _ =>
        within_markAll relinking_plain batch

/-- A swap-in starts by initialising the read ring. -/
private theorem served_upStart (d : PageId) :
    Served n D disk ring (coreMigrateUpAsyncStart d) e fun _ e' => e'.ringInit .ioReadRing := by
  refine served_next (unfailing_of_plain (by simp)) fun _ e => ?_
  refine served_next (unfailing_of_plain (by simp)) fun _ e =>
    served_next (unfailing_of_plain (by simp)) fun _ e => ?_
  refine served_next (unfailing_of_plain (by simp)) fun _ e =>
    served_next (unfailing_of_plain (by simp)) fun _ e => ?_
  refine served_initOnce fun _ h => served_prep h fun e h => ?_
  exact ((served_submit fun _ => h).strengthen
    (after_sparing (c := false) (u := false) (by simp))).mono fun _ _ hs => hs.2.init _ h

/-! The disk frames. -/

/-- If none is free and none a reserve, all of them hold swapped-out pages, also in the middle of an
operation that has descriptors in hand. -/
theorem Whole.swappedOut (h : Whole n frames hand s.skeleton)
    (hfree : s.fifos.seq .diskFreeList = []) (hreserve : s.fifos.seq .diskReserveList = []) :
    frames.countP (!·.dram) ≤ swappedOutPages n s := by
  rw [← h.frames.countP_eq, List.countP_map]
  refine List.countP_mono_left fun d hd hdisk => ?_
  have hlt : d < n := List.mem_range.mp hd
  have hdisk : (s.page d).virtualOffset.dram = false := by
    simpa [show s.skeleton.page = s.page from rfl] using hdisk
  have haway : (s.page d).Away := by
    have hp := h.place d hlt
    unfold Skeleton.Place at hp
    cases hl : s.skeleton.list d with
    | none =>
      rw [hl] at hp
      cases hx : hand d with
      | none =>
        rw [hx] at hp
        exact hp.elim
      | some x =>
        rw [hx] at hp
        cases x with
        | spare => exact absurd (hp.2.2.1.symm.trans hdisk) (by decide)
        | detached => exact hp
    | some l =>
      have hmem : d ∈ s.fifos.seq l := (s.fifos.mem_iff l d).mpr hl
      have hfit := h.fits hl
      cases l with
      | diskFreeList =>
        rw [hfree] at hmem
        cases hmem
      | diskReserveList =>
        rw [hreserve] at hmem
        cases hmem
      | diskActiveList => exact hfit.1
      | dramFreeList => exact absurd (hfit.2.2.1.symm.trans hdisk) (by decide)
      | _ => exact absurd (hfit.2.2.2.1.symm.trans hdisk) (by decide)
  have hhash : s.pages (s.page d).va = some d := (h.hash _ _ haway.1).mpr ⟨hlt, rfl⟩
  simp [haway.1, hhash, haway.2.2.2.2.1]

/-- While victims are in hand: a free disk frame for each that is sure to need one, or none at
all. -/
def Room (n D : Nat) (disk : Prop) (victims : List PageId) (s : Shared) : Prop := disk →
  needy s victims ≤ (s.fifos.seq .diskFreeList).length ∨ s.fifos.seq .diskFreeList = [] ∧
    D ≤ swappedOutPages n s

private theorem Room.of_eq (h : Room n D disk victims s)
    (hr : ∀ d, (s'.page d).hasReserve = (s.page d).hasReserve)
    (hv : ∀ d, (s'.page d).va = (s.page d).va)
    (ho : ∀ d, (s'.page d).swappedOut = (s.page d).swappedOut) (hp : s'.pages = s.pages)
    (hf : s'.fifos.seq .diskFreeList = s.fifos.seq .diskFreeList) : Room n D disk victims s' := by
  unfold Room needy swappedOutPages at *
  simpa only [hr, hv, ho, hp, hf] using h

private theorem Room.same (h : Room n D disk victims s) (hk : s'.skeleton = s.skeleton) :
    Room n D disk victims s' := by
  have hpage : s'.page = s.page := congrArg Skeleton.page hk
  have hfifos : s'.fifos = s.fifos := congrArg Skeleton.fifos hk
  exact h.of_eq (fun _ => by rw [hpage]) (fun _ => by rw [hpage])
    (fun _ => by rw [hpage]) (congrArg Skeleton.pages hk) (by rw [hfifos])

private theorem room_of_ready {count : Nat} (h : Whole n frames hand s.skeleton)
    (hD : frames.countP (!·.dram) = D) (hr : disk → DiskReady count s) :
    Room n D disk ((s.fifos.seq .evictionList).take count) s :=
  fun hdisk => (hr hdisk).imp id fun ⟨hf, hc⟩ => ⟨hf, hD ▸ h.swappedOut hf hc⟩

/-! Evictions. -/

private theorem unfailing_takeReserve (d : PageId) : Always Unfailing (takeReserve d) :=
  unfailing_of_plain (within_takeReserve linking_plain d)

/-- A victim that needs a free frame finds one, or there is none because of swapped-out pages. -/
private theorem served_takeDiskFree {ds : List PageId} {q : PageId → Paging β}
    (h : Room n D disk (d :: ds) e.sh) (hd : (e.sh.page d).hasReserve = false)
    (hq : ∀ r e', Room n D disk ds e'.sh → Served n D disk ring (q r) e' Q) :
    Served n D disk ring (takeDiskFree >>= q) e Q := by
  unfold takeDiskFree
  rw [bind_assoc]
  have hneedy : needy e.sh (d :: ds) = needy e.sh ds + 1 := by simp [needy, hd]
  refine Excused.bind (excused_atomic (fun why ha => ?_) fun o e₁ he _ => ?_)
  · split at ha <;> cases ha
  split at he
  · next hfree =>
    cases he
    refine ⟨fun why ha => ?_, fun _ _ he => by cases he⟩
    cases ha
    refine ⟨fun hdisk _ => ?_, fun _ => by decide⟩
    rcases h hdisk with h | ⟨-, h⟩
    · rw [hfree, hneedy] at h
      exact absurd h (Nat.not_succ_le_zero _)
    · exact h
  · next r xs hfree =>
    cases he
    have hroom : Room n D disk ds (Threads.Ctx.joinExchange (e.dequeue .diskFreeList r) r).sh := by
      intro hdisk
      rcases h hdisk with h | ⟨h, -⟩
      · refine .inl ?_
        rw [hfree, hneedy, List.length_cons] at h
        have hseq : (Threads.Ctx.joinExchange (e.dequeue .diskFreeList r) r).sh.fifos.seq
            .diskFreeList = xs := Queues.seq_unlink_head hfree
        rw [hseq]
        exact Nat.le_of_succ_le_succ h
      · rw [hfree] at h
        cases h
    refine Excused.bind ?_
    exact served_plain rfl (by simp) (by simp) fun _ e' hk =>
      hq r e' (hroom.same hk)

/-- One victim finds its disk frame: the one of its reserve, or a free one. -/
private theorem served_diskpage {ds : List PageId} {q₁ q₂ : PageId → Paging β}
    (h : Room n D disk (d :: ds) e.sh)
    (h₁ : ∀ r e', Room n D disk ds e'.sh → Served n D disk ring (q₁ r) e' Q)
    (h₂ : ∀ r e', Room n D disk ds e'.sh → Served n D disk ring (q₂ r) e' Q) :
    Served n D disk ring (do
      let hasReserve ← field d (·.hasReserve)
      if hasReserve then takeReserve d >>= q₁ else takeDiskFree >>= q₂) e Q := by
  refine Excused.bind (excused_atomic (fun _ ha => by cases ha) fun b e' he _ => ?_)
  cases he
  refine excused_ite (fun hb => ?_) fun hb => served_takeDiskFree h (Bool.eq_false_iff.mpr hb) h₂
  refine served_then (unfailing_takeReserve d) (after_takeReserve rfl) fun r e' ⟨_, _, hl, hk⟩ =>
    h₁ r e' ?_
  have hroom : Room n D disk ds e.sh := by
    refine fun hdisk => (h hdisk).imp (fun h => ?_) id
    have hb : (e.sh.page d).hasReserve = true := hb
    simpa [needy, hb] using h
  have hpage : e'.sh.page = e.sh.page := congrArg Skeleton.page hk
  have hfifos : e'.sh.fifos = e.sh.fifos.unlink r := congrArg Skeleton.fifos hk
  refine hroom.of_eq (fun _ => by rw [hpage]) (fun _ => by rw [hpage])
    (fun _ => by rw [hpage]) (congrArg Skeleton.pages hk) ?_
  rw [hfifos]
  exact Queues.seq_unlink_of_ne hl (by decide)

private theorem Room.marked (h : Room n D disk victims e.sh) {e' : Env}
    (hk : e'.sh.skeleton = e.sh.skeleton.write d fun p => { p with migrating := true }) :
    Room n D disk victims e'.sh := by
  have hpage : e'.sh.page = Function.update e.sh.page d { e.sh.page d with migrating := true } :=
    congrArg Skeleton.page hk
  have hsame {γ : Type} (f : UserPage → γ)
      (hf : f { e.sh.page d with migrating := true } = f (e.sh.page d)) (x : PageId) :
      f (e'.sh.page x) = f (e.sh.page x) := by
    rw [hpage]
    by_cases hx : x = d
    · rw [hx, Function.update_self, hf]
    · rw [Function.update_of_ne hx]
  have hfifos : e'.sh.fifos = e.sh.fifos := congrArg Skeleton.fifos hk
  exact h.of_eq (hsame (·.hasReserve) rfl) (hsame (·.va) rfl) (hsame (·.swappedOut) rfl)
    (congrArg Skeleton.pages hk) (by rw [hfifos])

private theorem unfailing_protectVictim (d : PageId) : Always Unfailing (protectVictim d) :=
  always_bind (unfailing_of_plain (by simp)) fun _ =>
    always_bind (unfailing_of_plain (by simp)) fun _ => always_bind (unfailing_of_plain (by simp))
    fun _ => always_bind (unfailing_modify _) fun _ => trivial

/-- The victim is marked and write-protected first. -/
private theorem served_protected {q : Bool → Paging β} (h : Room n D disk victims e.sh)
    (hq : ∀ w e', Room n D disk victims e'.sh → Served n D disk ring (q w) e' Q) :
    Served n D disk ring (do
      setPage d fun p => { p with migrating := true }
      let writeback ← protectVictim d
      q writeback) e Q := by
  refine served_then (R := fun _ e' => Room n D disk victims e'.sh) (unfailing_of_plain (by simp))
    ?_ fun _ e₁ hr => ?_
  · exact (after_modify _ _ _).mpr (h.marked rfl)
  · exact served_still rfl (unfailing_protectVictim d) (by simp) fun w e' hk => hq w e' (hr.same hk)

private theorem takenVictims_of_append {evs : List (Tid × Event)} (h : s'.log = evs ++ s.log) :
    takenVictims s s' = evs.filterMap fun
      | (_, .dequeued .evictionList d) => some d
      | _ => none := by
  rw [takenVictims, newEvents_of_append h]

/-- A step that changes nothing shared takes none. -/
theorem evictsReady_self (s : Shared) : EvictsReady s s := by
  have hnone : takenVictims s s = [] := takenVictims_of_append (show s.log = [] ++ s.log from rfl)
  unfold EvictsReady
  rw [hnone]
  exact .inl (Nat.zero_le _)

/-- The rule speaks of the victims when they are taken. -/
private theorem served_takeVictim {q : Option PageId → Paging β}
    (h : Whole n frames hand e.sh.skeleton) (hD : frames.countP (!·.dram) = D)
    (hnone : e.sh.fifos.seq .evictionList = [] → Served n D disk ring (q none) e Q)
    (hsome : ∀ d xs e', e.sh.fifos.seq .evictionList = d :: xs → e'.sh.skeleton =
      e.sh.skeleton.unlink d → Room n D disk [d] e'.sh → Served n D disk ring (q (some d)) e' Q) :
    Served n D disk ring (dequeueFifoThen .evictionList takeVictim >>= q) e Q := by
  refine Excused.bind (excused_atomic (fun why ha => ?_) fun o e₁ he hr => ?_)
  · split at ha <;> cases ha
  split at he
  · next hs =>
    cases he
    exact hnone hs
  · next d xs hs =>
    cases he
    have hlog : (takeVictim d (e.dequeue .evictionList d)).sh.log =
        [(e.loc.tid, Event.dequeued .evictionList d)] ++ e.sh.log := rfl
    rw [EvictsReady, takenVictims_of_append hlog] at hr
    have hroom := room_of_ready h hD hr
    rw [hs] at hroom
    refine hsome d xs _ hs rfl (hroom.of_eq (fun _ => rfl) (fun _ => rfl) (fun _ => rfl) rfl ?_)
    exact Queues.seq_unlink_of_ne (Queues.tag_of_head hs) (by decide)

/-! What evicts. -/

private theorem served_fetchFreeEvict (h : Room n D disk [d] e.sh) :
    Served n D disk ring (fetchFreeEvict d) e fun _ _ => True := by
  refine served_protected h fun wb e hr => served_diskpage hr (fun r e _ => ?_) fun r e _ => ?_
  · refine served_next (unfailing_of_plain (by simp)) fun old e =>
      served_next (unfailing_of_plain (by simp)) fun new e => ?_
    exact served_last (served_migrateDown _ _ _ _) fun _ =>
      unfailing_of_plain (within_keepReserve relinking_plain d r old)
  · refine served_next (unfailing_of_plain (by simp)) fun old e =>
      served_next (unfailing_of_plain (by simp)) fun new e => ?_
    exact served_last (served_migrateDown _ _ _ _) fun _ =>
      unfailing_of_plain (within_keepFree relinking_plain d r old)

/-- `fetch_free_asynch` evicts one page at most, from a state in which all is in its place. -/
private theorem served_fetchFreeAsynch (hD : frames.countP (!·.dram) = D)
    (h : Whole n frames hand e.sh.skeleton) :
    Served n D disk ring fetchFreeAsynch e fun _ _ => True := by
  unfold fetchFreeAsynch
  refine excused_loop (fun _ e' => Rested n frames hand e.sh.skeleton e') ⟨.refl h, id⟩
    fun priority e₁ he => ?_
  refine excused_ite (fun _ => ?_) fun _ => served_fail (by decide)
  refine served_then (unfailing_of_plain (by simp))
    (R := fun o e' => o = none → Rested n frames hand e.sh.skeleton e') ?_ fun page e₂ he₂ => ?_
  · refine (after_atomic _ _ _).mpr fun o e' ho => ?_
    split at ho
    · cases ho
      exact fun _ => he
    · cases ho
      exact fun h => by cases h
  cases page with
  | some page => trivial
  | none =>
    refine served_then (unfailing_of_plain (by simp)) (after_fetchFreeScan (he₂ rfl))
      fun priority e₃ he₃ => ?_
    refine served_takeVictim he₃.1.1 hD (fun _ => he₃) fun d xs e₄ _ _ hroom => ?_
    exact Excused.bind ((served_fetchFreeEvict hroom).mono fun _ _ _ => trivial)

private theorem served_lrudiskEvictionworker (hD : frames.countP (!·.dram) = D)
    (h : Whole n frames hand e.sh.skeleton) :
    Served n D disk ring lrudiskEvictionworker e fun _ _ => True := by
  refine served_takeVictim h hD (fun _ => trivial) fun d xs e _ _ hroom => ?_
  refine served_protected hroom fun wb e hr => served_diskpage hr (fun r e _ => ?_) fun r e _ => ?_
  · refine served_next (unfailing_of_plain (by simp)) fun old e =>
      served_next (unfailing_of_plain (by simp)) fun new e => ?_
    exact served_last (served_migrateDown _ _ _ _) fun _ =>
      unfailing_of_plain (within_swapReserve relinking_plain d r old)
  · refine served_next (unfailing_of_plain (by simp)) fun old e =>
      served_next (unfailing_of_plain (by simp)) fun new e => ?_
    exact served_last (served_migrateDown _ _ _ _) fun _ =>
      unfailing_of_plain (within_swapFree relinking_plain d r old)

private theorem dequeueVector_taken (m : Nat) (e : Env) :
    let r := Threads.Ctx.dequeueVector .evictionList takeVictim m e
    r.2 = (e.sh.fifos.seq .evictionList).take m ∧ r.1.sh.page = e.sh.page ∧
      r.1.sh.pages = e.sh.pages ∧
      r.1.sh.fifos.seq .diskFreeList = e.sh.fifos.seq .diskFreeList ∧
      r.1.sh.log = (r.2.reverse.map fun d => (e.loc.tid, Event.dequeued .evictionList d))
        ++ e.sh.log := by
  induction m generalizing e with
  | zero => exact ⟨rfl, rfl, rfl, rfl, rfl⟩
  | succ m ih =>
    unfold Threads.Ctx.dequeueVector
    split
    · next hq =>
      rw [hq]
      exact ⟨rfl, rfl, rfl, rfl, rfl⟩
    · next d ds hq =>
      obtain ⟨h₁, h₂, h₃, h₄, h₅⟩ := ih (takeVictim d (e.dequeue .evictionList d))
      have hfree : (takeVictim d (e.dequeue .evictionList d)).sh.fifos.seq .diskFreeList =
          e.sh.fifos.seq .diskFreeList :=
        Queues.seq_unlink_of_ne (Queues.tag_of_head hq) (by decide)
      have htail : (takeVictim d (e.dequeue .evictionList d)).sh.fifos.seq .evictionList = ds :=
        Queues.seq_unlink_head hq
      rw [htail] at h₁
      refine ⟨?_, h₂, h₃, h₄.trans hfree, ?_⟩
      · dsimp only
        rw [hq, List.take_succ_cons, h₁]
      · dsimp only
        rw [h₅]
        simp [takeVictim, Threads.Ctx.dequeue, Threads.Ctx.record, Threads.Ctx.joinExchange,
          Threads.Ctx.startWork]

private theorem served_takeVictims {q : List PageId → Paging β} {vs : List PageId}
    (hD : frames.countP (!·.dram) = D) (h : Whole n frames hand e.sh.skeleton)
    (hvs : (e.sh.fifos.seq .evictionList).take evictVectorSize = vs)
    (hq : ∀ e', e'.sh.skeleton = vs.foldl Skeleton.unlink e.sh.skeleton → e'.sh.pte = e.sh.pte →
      e'.loc.ring = e.loc.ring → Room n D disk vs e'.sh → Served n D disk ring (q vs) e' Q) :
    Served n D disk ring (dequeueFifoVectorThen .evictionList evictVectorSize takeVictim >>= q)
      e Q := by
  have htake : Served n D disk ring (dequeueFifoVectorThen .evictionList evictVectorSize takeVictim)
      e fun _ e' => e'.sh.pte = e.sh.pte ∧ e'.loc.ring = e.loc.ring ∧ Room n D disk vs e'.sh := by
    refine excused_atomic (fun why ha => by cases ha) fun o e₁ he hr => ?_
    cases he
    obtain ⟨h₁, h₂, h₃, h₄, h₅⟩ := dequeueVector_taken evictVectorSize e
    refine ⟨(takes_keep _ e).1, (takes_keep _ e).2, ?_⟩
    have hid : ((fun x : Tid × Event => match x with
        | (_, .dequeued .evictionList d) => some d
        | _ => none) ∘ fun d : PageId => (e.loc.tid, Event.dequeued .evictionList d)) = some := rfl
    have hlen : (e.sh.fifos.seq .evictionList).take vs.length = vs := by
      rw [← hvs, List.length_take, List.take_eq_take_iff]
      omega
    rw [EvictsReady, takenVictims_of_append h₅, List.filterMap_map, hid, List.filterMap_some,
      List.length_reverse, h₁, hvs] at hr
    have hroom := room_of_ready h hD hr
    rw [hlen] at hroom
    exact hroom.of_eq (fun _ => by rw [h₂]) (fun _ => by rw [h₂]) (fun _ => by rw [h₂]) h₃ h₄
  refine Excused.bind ((htake.strengthen (after_take (S := fun _ => true) rfl hvs rfl)).mono ?_)
  rintro victims e' ⟨⟨hpte, hring, hroom⟩, ⟨rfl, hk⟩, -⟩
  exact hq e' hk hpte hring hroom

private theorem served_findDiskpage {x : PageId × Frame × Bool}
    {ds : List PageId} (h : Room n D disk (x.1 :: ds) e.sh) :
    Served n D disk ring (findDiskpage x) e fun _ e' => Room n D disk ds e'.sh := by
  have hsplit : findDiskpage x = (do
      let hasReserve ← field x.1 (·.hasReserve)
      if hasReserve then takeReserve x.1 >>= fun r => pure ⟨x.1, x.2.1, x.2.2, r⟩
      else takeDiskFree >>= fun r => pure ⟨x.1, x.2.1, x.2.2, r⟩) := by
    unfold findDiskpage
    congr 1
  rw [hsplit]
  exact served_diskpage h (fun _ _ hr => hr) fun _ _ hr => hr

/-- In the first loop the victims stay the same and one is found to be written back, in the second
each finds its frame. -/
private theorem served_lrudiskEvictionworkerVector (hD : frames.countP (!·.dram) = D)
    (h : Whole n frames hand e.sh.skeleton) (hring : ring → RingReady e e.batch) :
    Served n D disk ring lrudiskEvictionworkerVector e fun _ _ => True := by
  refine served_takeVictims hD h (show _ = e.batch from rfl) fun e₁ hk hpte hloc hroom => ?_
  refine excused_ite (fun _ => trivial) fun hne => ?_
  have hinit : ring → e₁.ringInit .ioRing ∨ ∃ v ∈ e.batch,
      (e.sh.skeleton.page v).hasReserve = false ∨ e₁.dirty (e.sh.skeleton.page v).va = true := by
    intro hr
    unfold Threads.Ctx.ringInit Threads.Ctx.dirty
    rw [hloc, hpte]
    exact (hring hr).imp id fun hd => hd.resolve_left (by simpa using hne)
  generalize e.batch = victims at *
  have hprepare : Served n D disk ring (Prog.collect prepareVictim victims) e₁ fun prepared e' =>
      Room n D disk (prepared.map (·.1)) e'.sh := by
    refine excused_collect (fun todo done e' => Room n D disk (done.map (·.1) ++ todo) e'.sh) hroom
      ?_ fun prepared e hr => ?_
    · intro d todo done e hr
      refine served_then (R := fun _ e' => Room n D disk (done.map (·.1) ++ d :: todo) e'.sh)
        (unfailing_of_plain (by simp)) ((after_modify _ _ _).mpr (hr.marked rfl)) fun _ e hr => ?_
      refine served_plain rfl (by simp) (by simp) fun old e' hk => ?_
      refine served_still rfl (unfailing_protectVictim d) (by simp) fun w e₂ hk₂ => ?_
      show Room n D disk _ _
      rw [List.map_append, List.append_assoc]
      exact hr.same (hk₂.trans hk)
    · rwa [List.append_nil] at hr
  have hwrite : After (Prog.collect prepareVictim victims) e₁ fun prepared e' =>
      ring → e'.ringInit .ioRing ∨ ∃ x ∈ prepared, x.2.2 = true := fun prepared e' hr hring =>
    (hinit hring).imp (fun hi => by
      unfold Threads.Ctx.ringInit
      rw [after_ringsKept (always_collect ringsKept_prepareVictim) prepared e' hr]
      exact hi) fun hd => after_prepareVictims_dirty hk hd prepared e' hr
  refine Excused.bind ((hprepare.strengthen hwrite).mono fun prepared e₂ ⟨hroom, hinit⟩ => ?_)
  have hfind : Served n D disk ring (Prog.collect findDiskpage prepared) e₂ fun _ _ => True :=
    excused_collect (fun todo _ e' => Room n D disk (todo.map (·.1)) e'.sh) hroom
      (fun x todo done e hr => served_findDiskpage hr) fun _ _ _ => trivial
  refine Excused.bind ((hfind.strengthen ((snapshot_findDiskpages (S := fun _ => true) rfl).and
    (after_ringsKept (always_collect ringsKept_findDiskpage)))).mono
    fun batch e₃ ⟨_, ⟨_, hmap⟩, hloc⟩ => ?_)
  refine served_last (served_downdiskVector fun hr => ?_) fun _ =>
    always_each fun x => unfailing_of_plain (within_finishSlot relinking_plain x)
  refine (hinit hr).imp (fun hi => by unfold Threads.Ctx.ringInit; rw [hloc]; exact hi) ?_
  rintro ⟨y, hy, hw⟩
  have hm : (y.1, y.2.2) ∈ batch.map fun x => (x.victim, x.writeback) := by
    rw [hmap]
    exact List.mem_map_of_mem hy
  obtain ⟨x, hx, hxy⟩ := List.mem_map.mp hm
  exact ⟨x, hx, (Prod.mk.inj hxy).2.trans hw⟩

/-! Faults. -/

private theorem served_lrudiskPagefault (hD : frames.countP (!·.dram) = D)
    (h : Whole n frames hand e.sh.skeleton) :
    Served n D disk ring lrudiskPagefault e fun _ _ => True :=
  served_last (served_fetchFreeAsynch hD h) fun _ =>
    unfailing_of_plain (always_bind (by simp) fun _ => trivial)

private theorem unfailing_wonFirstFault (d : PageId) (a : Nat) :
    Always Unfailing (wonFirstFault d a) := by
  refine always_bind (unfailing_modify _) fun _ => always_bind (unfailing_modify _) fun _ => ?_
  refine always_bind (unfailing_of_plain (by simp)) fun _ =>
    always_bind (unfailing_modify _) fun _ => ?_
  refine always_bind (unfailing_of_plain (by simp)) fun _ => ?_
  refine always_bind (unfailing_of_plain (by simp)) fun _ =>
    always_bind (unfailing_addPage _) fun _ => ?_
  refine always_bind (unfailing_modify _) fun _ => always_bind (unfailing_modify _) fun _ => ?_
  refine always_bind (unfailing_modify _) fun _ =>
    always_bind (unfailing_of_plain (by simp)) fun _ => ?_
  refine always_bind (unfailing_copyIn _ _) fun _ => always_bind (unfailing_modify _) fun _ => ?_
  refine always_bind (unfailing_modify _) fun _ =>
    always_bind (unfailing_of_plain (by simp)) fun _ => ?_
  refine always_bind (unfailing_of_plain (by simp)) fun _ =>
    always_bind (unfailing_modify _) fun _ => ?_
  exact always_bind (unfailing_modify _) fun _ =>
    always_bind (unfailing_modify _) fun _ => unfailing_modify _

private theorem served_handleFirstFault {a : Nat} (hD : frames.countP (!·.dram) = D)
    (h : Whole n frames hand e.sh.skeleton) :
    Served n D disk ring (handleFirstFault a) e fun _ _ => True := by
  refine served_plain rfl (by simp) (by simp) fun _ e hk =>
    served_plain hk (by simp) (by simp) fun _ e hk => ?_
  rw [← hk] at h
  refine served_last (served_lrudiskPagefault hD h) fun r => ?_
  refine always_bind (unfailing_of_plain (by simp)) fun _ =>
    always_bind (unfailing_of_plain (by simp)) fun page => ?_
  cases page with
  | some d =>
    exact unfailing_of_plain (always_bind (by simp) fun _ => always_bind (by simp) fun _ => by simp)
  | none => exact unfailing_wonFirstFault r a

/-- The read ring is ready, or the first page is there to be prefetched, or the base is refused. -/
def PrefetchReady (base : Nat) (e : Env) : Prop :=
  base = 0 ∨ (e.loc.ring .ioReadRing).init = true ∨ e.sh.waits (add64 base pageSize) = true

private theorem waits_iff {a : Nat} {s : Shared} :
    s.waits a = true ↔ ∃ d, s.skeleton.Waits a d := by
  simp only [Shared.waits, Option.any_eq_true, Bool.and_eq_true, Bool.not_eq_true']
  exact Iff.rfl

private theorem not_waits_of_nil {left a : Nat} {k k' : Skeleton} (h : Run (left + 1) a k [] k') :
    ∀ d, ¬ k.Waits (add64 a pageSize) d := by
  cases h with
  | stop hno => exact hno

/-- A prefetch fetches its frames with the pages that it claimed in hand. -/
private theorem served_coreTryPrefetch {base : Nat} (hD : frames.countP (!·.dram) = D)
    (h : Whole n frames hand e.sh.skeleton) (hring : ring → PrefetchReady base e) :
    Served n D disk ring (coreTryPrefetch base) e fun _ _ => True := by
  have hcheck : After (Prog.check (base != 0) .prefetchBase : Paging Unit) e fun _ e' =>
      base ≠ 0 ∧ e' = e := by
    rw [← bind_pure (Prog.check (base != 0) .prefetchBase : Paging Unit)]
    exact after_check fun hb => (after_pure _ _ _).mpr ⟨by simpa using hb, rfl⟩
  refine served_then (unfailing_of_plain (by simp)) hcheck fun _ e₀ ⟨hb, he⟩ => ?_
  subst he
  refine served_then (unfailing_of_plain (by simp)) ((after_prefetchList rfl h).and
    (after_sparing (c := false) (u := false) (by simp))) fun ds e ⟨hr, hs⟩ => ?_
  have hready : ring → e.ringInit .ioReadRing ∨ ds.zipIdx ≠ [] := by
    intro hr'
    refine ((hring hr').resolve_left hb).imp (hs.init _) fun hw hnone => ?_
    obtain rfl : ds = [] := by simpa using hnone
    obtain ⟨d, hd⟩ := waits_iff.mp hw
    exact not_waits_of_nil (show Run (corePrefetchRate - 1 + 1) _ _ [] _ from hr) d hd
  have h₀ : Whole n frames (holding hand [] []) e₀.sh.skeleton := by rwa [holding_nil]
  have hw : Whole n frames (holding hand ds []) e.sh.skeleton := by simpa using (hr.whole h₀).1
  refine served_then (unfailing_modify _) ((after_still_last rfl (by simp)).and
    (after_sparing (c := false) (u := false) (sparing_traceEvent rfl rfl))) fun _ e₁ ⟨hk, hs₁⟩ => ?_
  refine served_then (unfailing_of_plain (by simp)) ((after_still_last hk (by simp)).and
    (after_sparing (c := false) (u := false) (by simp))) fun _ e₂ ⟨hk, hs₂⟩ => ?_
  have hsubmits : Served n D disk ring (Prog.each prefetchSubmit ds.zipIdx) e₂ fun _ e' =>
      ring → e'.ringInit .ioReadRing := by
    refine excused_each (fun todo e' => ring → e'.ringInit .ioReadRing ∨ todo ≠ [])
      (fun hr => (hready hr).imp (fun hi => hs₂.init _ (hs₁.init _ hi)) id) (fun x todo e _ => ?_)
      fun e hr hring => (hr hring).resolve_right (by simp)
    refine served_next (unfailing_of_plain (by simp)) fun _ e => ?_
    exact served_initOnce fun _ h => ((served_rest (unfailing_prep _ _)).strengthen
      (after_sparing (c := false) (u := false) (by simp))).mono fun _ _ hs _ => .inl (hs.2.init _ h)
  refine Excused.bind
    ((hsubmits.strengthen (after_still_last hk (always_each fun x => by simp))).mono ?_)
  rintro _ e₃ ⟨hinit, hk⟩
  refine served_after (served_submit hinit)
    (after_still_last hk (within_submit transferring_still _)) fun _ e₁ hk => Excused.bind ?_
  refine excused_collect (fun _ rs e' => Fetching n frames hand ds e.sh.skeleton rs e') ?_
    (fun x todo rs e hf => ?_) fun rs e _ => served_rest ?_
  · exact ⟨by rwa [hk], ⟨List.nodup_nil, by simp⟩, by rw [hk]; exact .refl _ _,
      by rw [hk]; exact id⟩
  · exact ((served_lrudiskPagefault hD hf.whole).strengthen hf.step).mono fun _ _ hf => hf.2
  · refine always_bind (always_each fun _ =>
      always_bind (unfailing_of_plain (by simp)) fun _ => unfailing_wait _) fun _ =>
      always_bind (always_each fun x => ?_) fun _ => trivial
    refine always_bind (unfailing_copyIn _ _) fun _ => unfailing_of_plain ?_
    exact always_bind (by simp) fun _ => always_bind (by simp) fun _ => by simp

/-- A swap-in leaves the read ring initialised. -/
private theorem served_lrudiskSwapinExternalAsync (hD : frames.countP (!·.dram) = D)
    {k : Skeleton} (h : Whole n frames hand k)
    (hk : e.sh.skeleton = k.write d fun p => { p with migrating := true }) :
    Served n D disk ring (lrudiskSwapinExternalAsync d) e fun _ e' => e'.ringInit .ioReadRing := by
  refine served_plain hk (by simp) (by simp) fun offset e hk => ?_
  refine served_then (unfailing_of_plain (within_detach linking_plain d rfl rfl)) (after_detach hk)
    fun _ e ⟨hl, hk⟩ => ?_
  refine Excused.bind
    (((served_upStart d).strengthen (after_still_last hk (by simp))).mono fun _ e ⟨hinit, hk⟩ => ?_)
  have hw := h.detach (by rwa [Skeleton.list_write] at hl)
  rw [← hk] at hw
  refine ((served_last (served_fetchFreeAsynch hD hw) fun r => ?_).strengthen
    (after_sparing (c := true) (u := true) (always_bind (by simp) fun r => ?_))).mono fun _ _ hs =>
    hs.2.init _ hinit
  · refine always_bind (unfailing_of_plain (by simp)) fun _ =>
      always_bind (unfailing_upFinish _ _) fun _ => ?_
    exact unfailing_of_plain (always_bind (by simp) fun _ => by simp)
  · exact always_bind (by simp) fun _ =>
      always_bind (sparing_upAsyncFinish _ _) fun _ => always_bind (by simp) fun _ => by
      simp

private theorem served_handleMissingFault (hD : frames.countP (!·.dram) = D)
    (h : Whole n frames hand e.sh.skeleton) :
    Served n D disk ring (handleMissingFault d) e fun _ _ => True := by
  refine served_plain rfl (by simp) (by simp) fun _ e hk =>
    served_plain hk (by simp) (by simp) fun va e hk => ?_
  refine served_then (unfailing_of_plain (by simp)) (after_claimSwapin hk) fun c e hc => ?_
  have hwait : Always Unfailing (waitMigratingThen d (·.record (.resumed d))) :=
    unfailing_of_plain (plain_waitMigratingThen d fun e => PlainStep.record e rfl)
  cases c with
  | mine =>
    unfold Claimed at hc
    rw [if_pos rfl] at hc
    obtain ⟨-, -, -, hk⟩ := hc
    refine served_plain hk (by simp) (by simp) fun l e hk =>
      served_still hk (unfailing_modify _) (by simp) fun _ e hk => ?_
    refine Excused.bind (((served_lrudiskSwapinExternalAsync hD h hk).strengthen
      (after_lrudiskSwapinExternalAsync h hk)).mono fun _ e ⟨hinit, hb⟩ => ?_)
    refine served_ready rfl hinit (by simp) (by simp) fun _ e₁ hk hi => ?_
    refine served_ready hk hi (by simp) (by simp) fun _ e₁ hk hi => ?_
    refine served_ready hk hi (by simp) (by simp) fun _ e₁ hk hi => ?_
    refine served_then (unfailing_of_plain (by simp)) ((after_finishSwapin hk).and
      (after_sparing (c := false) (u := false) (by simp))) fun _ e₂ ⟨hk, hs⟩ => ?_
    refine served_ready hk (hs.init _ hi) (by simp) (by simp) fun _ e₃ hk hi => ?_
    refine excused_ite (fun _ => ?_) fun _ => served_rest (unfailing_modify _)
    have hw : Whole n frames hand e₃.sh.skeleton := by
      rw [hk]
      exact (hb.whole h).1.1
    exact Excused.bind ((served_coreTryPrefetch hD hw fun _ => .inr (.inl hi)).mono fun _ _ _ =>
      served_rest (unfailing_modify _))
  | busy => exact served_rest hwait
  | handled => exact served_rest hwait
  | moved => exact served_rest hwait

private theorem served_uswapSigHandler {a : Nat} (hD : frames.countP (!·.dram) = D)
    (h : Whole n frames hand e.sh.skeleton) :
    Served n D disk ring (uswapSigHandler a) e fun _ _ => True := by
  refine served_plain rfl (by simp) (by simp) fun _ e hk =>
    served_plain hk (by simp) (by simp) fun page e hk => ?_
  rw [← hk] at h
  cases page with
  | none => exact served_last (served_handleFirstFault hD h) fun _ => unfailing_modify _
  | some d =>
    refine served_plain rfl (by simp) (by simp) fun swappedOut e hk => ?_
    rw [← hk] at h
    refine excused_ite (fun _ => ?_) fun _ => served_rest ?_
    · exact served_last (served_handleMissingFault hD h) fun _ =>
        unfailing_of_plain (always_bind (by simp) fun _ => by simp)
    · exact unfailing_of_plain
        (always_bind (by simp) fun _ => always_bind (by simp) fun _ => by simp)

/-! Operations. -/

private theorem served_access {addr : Nat} {attempt : Env → Outcome Abort Env (Option α)}
    (hp : Plain (Option α) attempt) (hs : Still (Option α) attempt)
    (hD : frames.countP (!·.dram) = D) (h : Settled n frames e.sh.skeleton) :
    Served n D disk ring (access addr attempt) e fun _ _ => True := by
  unfold access
  refine excused_loop (fun _ e' => Settled n frames e'.sh.skeleton) h fun _ e he => ?_
  refine served_plain rfl (always_atomic hp) (always_atomic hs) fun r e hk => ?_
  rw [← hk] at he
  cases r with
  | some a => trivial
  | none =>
    refine Excused.bind
      (((served_uswapSigHandler hD he.whole).strengthen (after_uswapSigHandler rfl he)).mono ?_)
    exact fun _ _ hl => hl.2.1

private theorem served_extmemMmap {addr length : Nat} {flags : BitVec 32}
    (hD : frames.countP (!·.dram) = D) (h : Settled n frames e.sh.skeleton) :
    Served n D disk ring (extmemMmap addr length flags) e fun _ _ => True := by
  refine served_plain rfl (by simp) (by simp) fun _ e hk =>
    served_plain hk (by simp) (by simp) fun _ e hk => ?_
  refine served_plain hk (by simp) (by simp) fun _ e hk => ?_
  refine served_then (unfailing_libcMmap _ _ _) (after_libcMmap hk) fun p e hp => ?_
  cases p with
  | none => exact served_fail (by decide)
  | some p =>
    have hset : Settled n frames (e.sh.skeleton.remap p (pageRoundUp length) .uffd) := by
      rw [hp.2.1, Skeleton.remap_remap]
      exact h.remap _ _
    refine served_then (R := fun _ e' => e'.sh.skeleton = e.sh.skeleton) (unfailing_modify _)
      ((after_modify _ _ _).mpr rfl) fun _ e₁ hk => ?_
    rw [← hk] at hset
    refine served_then (R := fun _ e' => Settled n frames e'.sh.skeleton) (unfailing_modify _)
      ((after_modify _ _ _).mpr hset) fun _ e₁ he => ?_
    have hend : Always Unfailing (do
        setStats fun t => { t with memMmaped := pageRoundUp length }
        setInternalCall false
        pure p : Paging Nat) :=
      unfailing_of_plain (always_bind (by simp) fun _ => always_bind (by simp) fun _ => trivial)
    refine excused_ite (fun _ => served_last ?_ fun _ => hend) fun _ => served_rest hend
    unfold extmemMmapPopulate
    refine served_plain rfl (by simp) (by simp) fun _ e hk =>
      served_plain hk (by simp) (by simp) fun _ e hk => ?_
    rw [← hk] at he
    refine excused_loop (fun _ e' => Settled n frames e'.sh.skeleton) he fun va e he => ?_
    refine excused_ite (fun _ => Excused.bind ?_) fun _ => trivial
    refine ((served_handleFirstFault hD he.whole).strengthen
      (after_handleFirstFault rfl he.whole)).mono ?_
    exact fun _ _ ht => (Leads.of_touched he ht.2.1).1

/-- What an operation finds when it starts: a batch that its ring is ready, a prefetch likewise. -/
structure RingsReady (p : Paging Unit) (e : Env) : Prop where
  batch : p = lrudiskEvictionworkerVector → RingReady e e.batch
  prefetch : ∀ base, p = (do let _ ← coreTryPrefetch base; pure ()) → PrefetchReady base e

/-- Every operation is served that starts between two operations and finds its rings ready. -/
theorem served_operation (disk ring : Prop) (hD : frames.countP (!·.dram) = D) {p : Paging Unit}
    (hp : Operation p) (h : Settled n frames e.sh.skeleton) (hring : ring → RingsReady p e) :
    Served n D disk ring p e fun _ _ => True := by
  cases hp with
  | load addr =>
    exact served_last (served_access (plain_loadByte addr) (still_loadByte addr) hD h) fun _ =>
      trivial
  | store addr byte =>
    exact served_access (plain_storeByte addr byte) (still_storeByte addr byte) hD h
  | prefetch base =>
    exact served_last (served_coreTryPrefetch hD h.whole fun hr => (hring hr).prefetch base rfl)
      fun _ => trivial
  | kswapd => exact served_rest (unfailing_of_plain (by simp))
  | shrinkActive n => exact served_rest (unfailing_of_plain (by simp))
  | shrinkInactive n => exact served_rest (unfailing_of_plain (by simp))
  | evictionworker => exact served_lrudiskEvictionworker hD h.whole
  | evictionworkerVector =>
    exact served_lrudiskEvictionworkerVector hD h.whole fun hr => (hring hr).batch rfl
  | mmap addr length flags =>
    refine served_last (excused_ite (fun _ => trivial) fun _ =>
      excused_ite (fun _ => trivial) fun _ => ?_) fun _ => trivial
    refine served_plain rfl (by simp) (by simp) fun internalCall e hk =>
      excused_ite (fun _ => trivial) fun _ => ?_
    refine served_plain hk (by simp) (by simp) fun isInit e hk =>
      excused_ite (fun _ => trivial) fun _ => ?_
    rw [← hk] at h
    exact excused_ite (fun _ => trivial) fun _ =>
      served_last (served_extmemMmap hD h) fun _ => trivial
  | munmap addr length =>
    refine served_rest (always_bind
      (always_bind (unfailing_of_plain (by simp)) fun _ => always_ite trivial ?_) fun _ => trivial)
    exact always_bind (unfailing_extmemMunmap addr length) fun _ => trivial

end ExtMem
