import ExtMem.Serial.Conserved
import ExtMem.Sparing
import ExtMem.Threads.Amid

/-! Which major faults of a thread prefetch, over all the faults that the thread resolves and
whatever the other threads do meanwhile. -/
namespace ExtMem
open Threads Threads.Prog

variable {α : Type} {l l' l₁ : Local} {a b : Nat} {must : Bool}

/-- The last two fault addresses of the thread stay what they are. -/
def SameStreak (e e' : Env) : Prop := e'.loc.streak = e.loc.streak

abbrev Streaked : (β : Type) → (Env → Outcome Abort Env β) → Prop := Within SameStreak

theorem streaked_of_sparing {c u : Bool} {p : Paging α} (h : Always (Sparing c u) p) :
    Always Streaked p :=
  within_mono h fun _ _ hs => hs.streak

theorem linking_streak : Linking SameStreak where
  refl _ := rfl
  trans h₁ h₂ := h₂.trans h₁
  enqueue _ _ _ _ _ := rfl
  dequeue _ _ _ _ _ _ := rfl
  remove _ _ _ _ _ := rfl
  auxiliary _ _ _ _ := rfl
  record _ _ _ _ _ := rfl

@[simp] theorem streaked_of_looks {p : Paging α} (h : Always Looks p) : Always Streaked p :=
  h.within linking_streak.refl

@[simp] theorem streaked_setPage (d : PageId) (f : UserPage → UserPage) :
    Always Streaked (setPage d f) :=
  within_modify fun _ => rfl

@[simp] theorem streaked_setStats (f : Stats → Stats) : Always Streaked (setStats f) :=
  within_modify fun _ => rfl

@[simp] theorem streaked_setShared (f : Shared → Shared) : Always Streaked (setShared f) :=
  within_modify fun _ => rfl

@[simp] theorem streaked_setInternalCall (b : Bool) : Always Streaked (setInternalCall b) :=
  within_modify fun _ => rfl

@[simp] theorem streaked_unlockAllocator : Always Streaked unlockAllocator := streaked_setShared _

@[simp] theorem streaked_copyIn (d : PageId) (src : Buffer) : Always Streaked (copyIn d src) :=
  within_copyIn d src (fun _ => rfl) fun _ _ _ => rfl

@[simp] theorem streaked_addPage (d : PageId) : Always Streaked (addPage d) :=
  within_addPage d fun _ _ => rfl

@[simp] theorem streaked_lrudiskTrackPage (d : PageId) : Always Streaked (lrudiskTrackPage d) :=
  within_lrudiskTrackPage linking_streak d

/-- A major fault up to the place where the code tests `must_prefetch`, and the value there. -/
def swapMissing (page : PageId) (pageBoundry : Nat) : Paging Bool := do
  let l ← Prog.read (·.loc)
  let mustPrefetch := wantPrefetch pageBoundry l.prevFault1 l.prevFault2 false
  setLocal fun l => { l with prevFault2 := l.prevFault1, prevFault1 := pageBoundry }
  lrudiskSwapinExternalAsync page
  assertPage page (·.va == pageBoundry) .missingFaultVa
  assertPage page (·.va != 0) .missingFaultVa
  assertPage page (·.va % pageSize == 0) .missingFaultVa
  finishSwapin page
  setStats fun t => { t with majorFaultsHandled := add64 t.majorFaultsHandled 1 }
  pure mustPrefetch

/-- A major fault from that test on. -/
def afterMissing (pageBoundry : Nat) (mustPrefetch : Bool) : Paging Unit :=
  if mustPrefetch then do
    let _ ← coreTryPrefetch pageBoundry
    setInternalCall false
  else setInternalCall false

theorem resolveMissingFault_eq (page : PageId) (b : Nat) :
    resolveMissingFault page b = swapMissing page b >>= afterMissing b := by
  unfold resolveMissingFault swapMissing
  simp only [bind_assoc, pure_bind]
  rfl

/-- A fault that a thread resolves itself: a major fault with the value of its `must_prefetch`,
or a first fault. -/
inductive Fault where
  | major (page : Nat) (prefetches : Bool)
  | first (page : Nat)
  deriving DecidableEq

def Fault.page : Fault → Nat
  | .major b _ => b
  | .first b => b

/-- The faults that a thread resolves between two of its states, each a run of the code among
other threads. In between it runs code that does not touch its last two fault addresses. -/
inductive History : Local → List Fault → Local → Prop where
  | nil (l : Local) : History l [] l
  | major {l l₁ l₂ l₃ : Local} {h : List Fault} {page : PageId} {b : Nat} {must : Bool} :
    History l h l₁ →
      Amid (swapMissing page b) l₁ must l₂ → Amid (afterMissing b must) l₂ () l₃ →
        History l (h ++ [.major b must]) l₃
  | first {l l₁ l₂ : Local} {h : List Fault} {page : PageId} {b : Nat} : History l h l₁ →
      Amid (wonFirstFault page b) l₁ () l₂ → History l (h ++ [.first b]) l₂
  | other {α : Type} {l l₁ l₂ : Local} {h : List Fault} {p : Paging α} {a : α} : History l h l₁ →
      Always Streaked p → Amid p l₁ a l₂ → History l h l₂

theorem Amid.streak {p : Paging α} {a : α} (h : Always Streaked p) (hr : Amid p l a l') :
    l'.streak = l.streak :=
  h.amid (I := fun x => x.streak = l.streak)
    (fun _ _ hf _ _ _ hs he => (hf.ok he).trans hs) hr rfl

/-- An action that changes the thread's own state in one way whatever the others do. -/
theorem Amid.setLocal_inv {f : Local → Local} {u : Unit} (h : Amid (setLocal f) l u l') :
    l' = f l := by
  cases h with
  | act s he hr =>
    cases he
    cases hr
    rfl

theorem Amid.readLocal_inv {x : Local} (h : Amid (Prog.read (·.loc) : Paging Local) l x l') :
    x = l ∧ l' = l := by
  cases h with
  | act s he hr =>
    cases he
    cases hr
    exact ⟨rfl, rfl⟩

/-- The code that a fault runs once it has noted its address. -/
private theorem sparing_rest (page : PageId) (b : Nat) : Always (Sparing true true) (do
    lrudiskSwapinExternalAsync page
    assertPage page (·.va == b) .missingFaultVa
    assertPage page (·.va != 0) .missingFaultVa
    assertPage page (·.va % pageSize == 0) .missingFaultVa
    finishSwapin page
    setStats fun t => { t with majorFaultsHandled := add64 t.majorFaultsHandled 1 }
    pure must) := by
  refine always_bind (sparing_swapinAsync page) fun _ => always_bind (by simp) fun _ => ?_
  refine always_bind (by simp) fun _ =>
    always_bind (by simp) fun _ => always_bind (by simp) fun _ => ?_
  exact always_bind (sparing_setStats (fun _ => rfl) (fun _ _ => rfl) (fun _ _ => rfl) fun _ _ _ =>
    rfl) fun _ => trivial

private theorem ret_of_amid {β : Type} {p : Paging β} {x y : α}
    (h : Amid (p >>= fun _ => pure x) l y l') : y = x := by
  obtain ⟨z, l₁, -, hr⟩ := Amid.bind_inv h
  cases hr
  rfl

/-- A major fault decides by the last two faults alone: the local variable is false before. -/
theorem swapMissing_spec {page : PageId} (h : Amid (swapMissing page b) l must l') :
    must = consecutive b l.prevFault1 l.prevFault2 ∧ l'.streak = (b, l.prevFault1) := by
  obtain ⟨x, l₁, hread, hnote⟩ := Amid.bind_inv h
  obtain ⟨rfl, rfl⟩ := Amid.readLocal_inv hread
  obtain ⟨u, l₂, hset, hrest⟩ := Amid.bind_inv hnote
  have hl := Amid.setLocal_inv hset
  subst hl
  constructor
  · have hr : Amid ((do
        lrudiskSwapinExternalAsync page
        assertPage page (·.va == b) .missingFaultVa
        assertPage page (·.va != 0) .missingFaultVa
        assertPage page (·.va % pageSize == 0) .missingFaultVa
        finishSwapin page
        setStats fun t => { t with majorFaultsHandled := add64 t.majorFaultsHandled 1 }) >>= fun _ =>
          pure (wantPrefetch b l₁.prevFault1 l₁.prevFault2 false))
        { l₁ with prevFault2 := l₁.prevFault1, prevFault1 := b } must l' := by
      simpa only [bind_assoc] using hrest
    rw [ret_of_amid hr]
    simp [wantPrefetch]
  · exact Amid.streak (streaked_of_sparing (sparing_rest page b)) hrest

theorem afterMissing_spec (h : Amid (afterMissing b must) l () l') : l'.streak = l.streak := by
  refine Amid.streak ?_ h
  exact always_ite (always_bind (streaked_of_sparing (sparing_coreTryPrefetch b)) fun _ => by simp)
    (by simp)

/-- A first fault notes its address as a major fault does. -/
theorem wonFirstFault_spec {page : PageId} (h : Amid (wonFirstFault page b) l () l') :
    l'.streak = (b, l.prevFault1) := by
  have hnote {p : Paging Unit} {q : Unit → Paging Unit} {l : Local} (hp : Always Streaked p)
      (hq : ∀ l₁, l₁.streak = l.streak → Amid (q ()) l₁ () l' → l'.streak = (b, l₁.prevFault1))
      (hr : Amid (p >>= q) l () l') : l'.streak = (b, l.prevFault1) := by
    obtain ⟨u, l₁, h₁, h₂⟩ := Amid.bind_inv hr
    have hs := Amid.streak hp h₁
    rw [hq l₁ hs h₂, show l₁.prevFault1 = l.prevFault1 from congrArg Prod.fst hs]
  unfold wonFirstFault at h
  refine hnote (by exact within_modify fun _ => rfl) (fun l _ => ?_) h
  refine hnote (by simp) fun l _ => hnote (by simp) fun l _ => hnote (by simp) fun l _ => ?_
  refine hnote (by simp) fun l _ =>
    hnote (by simp) fun l _ => hnote (by simp) fun l _ => hnote (by simp) fun l _ h => ?_
  obtain ⟨u, l₂, hset, hrest⟩ := Amid.bind_inv h
  have hl := Amid.setLocal_inv hset
  subst hl
  refine Amid.streak ?_ hrest
  refine always_bind (by simp) fun _ =>
    always_bind (by simp) fun _ => always_bind (by simp) fun _ => ?_
  refine always_bind (by exact within_modify fun _ => rfl) fun _ =>
    always_bind (by simp) fun _ => ?_
  refine always_bind (by simp) fun _ =>
    always_bind (by simp) fun _ => always_bind (by simp) fun _ => ?_
  refine always_bind (by simp) fun _ => ?_
  exact always_bind (by simp) fun _ => by simp

/-- The last two fault addresses after some more faults. -/
def noteFaults (s : Nat × Nat) (h : List Fault) : Nat × Nat := h.foldl (fun s f => (f.page, s.1)) s

/-- Every major fault of a history decides by the two faults before it. -/
def Decides (s : Nat × Nat) (h : List Fault) : Prop :=
  ∀ pre b must post, h = pre ++ .major b must :: post →
    must = consecutive b (noteFaults s pre).1 (noteFaults s pre).2

private theorem noteFaults_snoc (s : Nat × Nat) (h : List Fault) (f : Fault) :
    noteFaults s (h ++ [f]) = (f.page, (noteFaults s h).1) := List.foldl_append ..

private theorem Decides.snoc {s : Nat × Nat} {h : List Fault} {f : Fault} (hd : Decides s h)
    (hf : ∀ b must, f = .major b must →
      must = consecutive b (noteFaults s h).1 (noteFaults s h).2) : Decides s (h ++ [f]) := by
  intro pre b must post heq
  rcases List.eq_nil_or_concat post with rfl | ⟨post, g, rfl⟩
  · obtain ⟨rfl, hlast⟩ := List.append_inj' heq rfl
    exact hf b must (List.cons.inj hlast).1
  · refine hd pre b must post ?_
    have heq' : h ++ [f] = (pre ++ .major b must :: post) ++ [g] := by simpa using heq
    exact (List.append_inj' heq' rfl).1

theorem history_inv {h : List Fault} (hh : History l h l') :
    l'.streak = noteFaults l.streak h ∧ Decides l.streak h := by
  induction hh with
  | nil l => exact ⟨rfl, fun pre b must post h => by simp at h⟩
  | @major l l₁ l₂ l₃ h page b must _ hswap hafter ih =>
    obtain ⟨hs, hd⟩ := ih
    obtain ⟨hmust, hnote⟩ := swapMissing_spec hswap
    have hfst : l₁.prevFault1 = (noteFaults l.streak h).1 := congrArg Prod.fst hs
    have hsnd : l₁.prevFault2 = (noteFaults l.streak h).2 := congrArg Prod.snd hs
    refine ⟨?_, hd.snoc fun b' must' hf => ?_⟩
    · rw [afterMissing_spec hafter, hnote, noteFaults_snoc, hfst]
      rfl
    · cases hf
      rw [hmust, hfst, hsnd]
  | @first l l₁ l₂ h page b _ hfirst ih =>
    obtain ⟨hs, hd⟩ := ih
    refine ⟨?_, hd.snoc fun b' must' hf => by cases hf⟩
    rw [wonFirstFault_spec hfirst, noteFaults_snoc,
      show l₁.prevFault1 = _ from congrArg Prod.fst hs]
    rfl
  | other _ hp hr ih => exact ⟨(Amid.streak hp hr).trans ih.1, ih.2⟩

/-- What the code asks of the fault at `b` after one at `a` that prefetched and the first faults
in between: the last two faults of the thread were on the two pages before `b`. -/
def Continues (a : Nat) (fs : List Nat) (b : Nat) : Prop :=
  match fs.reverse with
  | [] => b = add64 a pageSize
  | [f] => consecutive b f a
  | f :: g :: _ => consecutive b f g

/-- In the history `b` is the next major fault after one at `a` that prefetched, and it is ahead
of it by at most the prefetch rate. -/
def NextAhead (h : List Fault) (a : Nat) (fs : List Nat) (b : Nat) (must : Bool) : Prop :=
  (∃ pre post, h = pre ++ .major a true :: (fs.map .first ++ .major b must :: post)) ∧
    a < b ∧ b ≤ a + corePrefetchRate * pageSize

theorem noteFaults_first (s : Nat × Nat) (fs : List Nat) : noteFaults s (fs.map .first) =
    match fs.reverse with
    | [] => s
    | [f] => (f, s.1)
    | f :: g :: _ => (f, g) := by
  rw [← List.reverse_reverse fs]
  generalize fs.reverse = r
  rw [List.reverse_reverse]
  cases r with
  | nil => rfl
  | cons f r =>
    rw [List.reverse_cons, List.map_append, List.map_singleton, noteFaults_snoc]
    cases r with
    | nil => rfl
    | cons g r =>
      rw [List.reverse_cons, List.map_append, List.map_singleton, noteFaults_snoc]
      rfl

/-- The next fault prefetches if and only if it continues the last two faults. -/
theorem next_prefetches_iff {h : List Fault} {fs : List Nat} (hh : History l h l')
    (hn : NextAhead h a fs b must) : must = true ↔ Continues a fs b := by
  obtain ⟨⟨pre, post, rfl⟩, -, -⟩ := hn
  obtain ⟨-, hd⟩ := history_inv hh
  have hfirst := hd pre a true _ rfl
  have hnext := hd (pre ++ .major a true :: fs.map .first) b must post (by simp)
  have hnote : noteFaults l.streak (pre ++ .major a true :: fs.map .first) =
      noteFaults (a, (noteFaults l.streak pre).1) (fs.map .first) := List.foldl_append ..
  rw [hnote, noteFaults_first] at hnext
  rw [hnext]
  unfold Continues
  split
  · unfold consecutive at hfirst ⊢
    obtain ⟨ha, -⟩ := Bool.and_eq_true_iff.mp hfirst.symm
    have hp : a = add64 (noteFaults l.streak pre).1 pageSize := beq_iff_eq.mp ha
    have htwo : add64 (noteFaults l.streak pre).1 (pageSize * 2) = add64 a pageSize := by
      rw [hp]
      unfold add64
      omega
    rw [htwo, Bool.and_self, beq_iff_eq]
  · rfl
  · rfl

/-! What a thread does adds the faults that it resolves to its history. -/

/-- A run of the program among others continues a history. -/
def Resolves (p : Paging α) : Prop :=
  ∀ ⦃l h l₁ a l₂⦄, History l h l₁ → Amid p l₁ a l₂ → ∃ h', History l (h ++ h') l₂

theorem resolves_of_streaked {p : Paging α} (hp : Always Streaked p) : Resolves p :=
  fun _ _ _ _ _ hh hr => ⟨[], by simpa using hh.other hp hr⟩

theorem Resolves.bind {β : Type} {p : Paging α} {g : α → Paging β} (hp : Resolves p)
    (hg : ∀ a, Resolves (g a)) : Resolves (p >>= g) := by
  intro l h l₁ b l₂ hh hr
  obtain ⟨a, l₃, hr₁, hr₂⟩ := Amid.bind_inv hr
  obtain ⟨h₁, hh₁⟩ := hp hh hr₁
  obtain ⟨h₂, hh₂⟩ := hg a hh₁ hr₂
  exact ⟨h₁ ++ h₂, by rwa [← List.append_assoc]⟩

theorem Resolves.ite {c : Prop} [Decidable c] {p q : Paging α} (hp : Resolves p) (hq : Resolves q) :
    Resolves (if c then p else q) := by
  split
  · exact hp
  · exact hq

theorem resolves_loop {ι : Type} {body : ι → Paging (ι ⊕ α)} {i : ι} (hb : ∀ j, Resolves (body j)) :
    Resolves (Prog.loop body i) := by
  intro l h l₁ a l₂ hh hr
  rw [Prog.loop] at hr
  generalize hq : Prog.iter body i .ret = q at hr
  induction hr generalizing i h with
  | next hpass _ _ ih =>
    cases hq
    obtain ⟨h₁, hh₁⟩ := hb _ hh hpass
    obtain ⟨h₂, hh₂⟩ := ih hb hh₁ rfl
    exact ⟨h₁ ++ h₂, by rwa [← List.append_assoc]⟩
  | done hpass hk _ _ =>
    cases hq
    cases hk
    exact hb _ hh hpass
  | _ => cases hq

theorem resolves_resolveMissingFault (d : PageId) (b : Nat) :
    Resolves (resolveMissingFault d b) := by
  intro l h l₁ a l₂ hh hr
  rw [resolveMissingFault_eq] at hr
  obtain ⟨must, l₃, hswap, hafter⟩ := Amid.bind_inv hr
  exact ⟨[.major b must], hh.major hswap hafter⟩

theorem resolves_wonFirstFault (d : PageId) (b : Nat) : Resolves (wonFirstFault d b) :=
  fun _ _ _ _ _ hh hr => ⟨[.first b], hh.first hr⟩

private theorem resolves_sparing {p : Paging α} (hp : Always (Sparing true true) p) : Resolves p :=
  resolves_of_streaked (streaked_of_sparing hp)

private theorem resolves_internal (b : Bool) : Resolves (setInternalCall b) :=
  resolves_of_streaked (by simp)

private theorem streaked_waitMigratingThen (d : PageId) {f : Env → Env}
    (h : ∀ e, (f e).loc = e.loc) : Always Streaked (waitMigratingThen d f) :=
  within_waitMigratingThen d fun e => congrArg Local.streak (h e)

theorem resolves_handleMissingFault (d : PageId) : Resolves (handleMissingFault d) := by
  refine (resolves_internal true).bind fun _ => (resolves_sparing (by simp)).bind fun b => ?_
  refine (resolves_sparing (by simp)).bind fun claim => ?_
  cases claim with
  | mine => exact resolves_resolveMissingFault d b
  | _ => exact resolves_of_streaked (streaked_waitMigratingThen d fun _ => rfl)

theorem resolves_handleFirstFault (b : Nat) : Resolves (handleFirstFault b) := by
  have hlock : Always Streaked lockAllocator := within_lockAllocator fun _ => rfl
  refine (resolves_internal true).bind fun _ => (resolves_sparing (by simp)).bind fun _ => ?_
  refine (resolves_sparing (by simp)).bind fun newpage =>
    (resolves_of_streaked hlock).bind fun _ => ?_
  refine (resolves_sparing ((looks_read _).within .refl)).bind fun page => ?_
  cases page with
  | none => exact resolves_wonFirstFault newpage b
  | some page =>
    refine (resolves_of_streaked (by simp)).bind fun _ => Resolves.bind ?_ fun _ => ?_
    · exact resolves_sparing (always_bind (by simp) fun _ => always_bind (by simp) fun _ => by simp)
    · exact resolves_of_streaked (streaked_waitMigratingThen page fun _ => rfl)

theorem resolves_uswapSigHandler (a : Nat) : Resolves (uswapSigHandler a) := by
  refine (resolves_internal true).bind fun _ => (resolves_sparing (by simp)).bind fun page => ?_
  cases page with
  | none => exact (resolves_handleFirstFault _).bind fun _ => resolves_internal false
  | some page =>
    have hlast : Resolves (do lookAway page; setInternalCall false) :=
      resolves_sparing (always_bind (by simp) fun _ => by simp)
    refine (resolves_sparing (by simp)).bind fun swappedOut => Resolves.ite ?_ ?_
    · exact (resolves_handleMissingFault page).bind fun _ => hlast
    · refine Resolves.bind ?_ fun _ => hlast
      exact (resolves_of_streaked (by simp)).bind fun _ =>
        resolves_of_streaked (streaked_waitMigratingThen page fun _ => rfl)

/-- An access of the program, with every fault that it takes, continues the history of its
thread. -/
theorem resolves_access (addr : Nat) {attempt : Env → Outcome Abort Env (Option α)}
    (h : Streaked (Option α) attempt) : Resolves (access addr attempt) := by
  refine resolves_loop fun _ => (resolves_of_streaked (always_atomic h)).bind fun r => ?_
  cases r with
  | some b => exact resolves_of_streaked trivial
  | none => exact (resolves_uswapSigHandler addr).bind fun _ => resolves_of_streaked trivial

private theorem resolves_userLoad (addr : Nat) :
    Resolves (do let _ ← userLoad addr; pure () : Paging Unit) := by
  refine Resolves.bind (resolves_access addr ?_) fun _ => resolves_of_streaked trivial
  exact within_loadByte addr (fun _ => rfl) fun _ _ _ => rfl

private theorem resolves_userStore (addr : Nat) (byte : UInt8) :
    Resolves (userStore addr byte) :=
  resolves_access addr (within_storeByte addr byte (fun _ => rfl) fun _ _ _ => rfl)

/-- A thread that has made a load or a store in a pool has continued its history by the faults that
the access took, whatever the other threads did meanwhile. -/
theorem history_of_access {ops : Paging Unit → Prop} {t : Tid} {c c' : System} {h : List Fault}
    {addr : Nat}
    (hp : c.thr t = (do let _ ← userLoad addr; pure ()) ∨ ∃ byte, c.thr t = userStore addr byte)
    (hh : History l h (c.loc t)) (hw : Conf.Working ops t c c') (hdone : c'.thr t = .ret ()) :
    ∃ h', History l (h ++ h') (c'.loc t) := by
  have hresolves : Resolves (c.thr t) := by
    rcases hp with hp | ⟨byte, hp⟩
    · rw [hp]
      exact resolves_userLoad addr
    · rw [hp]
      exact resolves_userStore addr byte
  exact hresolves hh (hw.amid hdone)

/-- The stream stays in prefetch mode. -/
def Streams (h : List Fault) : Prop := ∀ a fs b must, NextAhead h a fs b must → must = true

/-- Every fault that should prefetch continues the last two. -/
def Unbroken (h : List Fault) : Prop := ∀ a fs b must, NextAhead h a fs b must → Continues a fs b

/-- Over every history of a thread, a detected stream stays in prefetch mode if and only if each
of its faults is on the page after the last two faults of the thread. -/
theorem streams_iff {h : List Fault} (hh : History l h l') : Streams h ↔ Unbroken h :=
  forall_congr' fun _ => forall_congr' fun _ =>
    forall_congr' fun _ => forall_congr' fun _ => forall_congr' fun hn => next_prefetches_iff hh hn

/-! On a machine of two pages of DRAM and eight of disk, the pages zero, one, two and four are
loaded from, and then the first two again, which are swapped out by then. -/

def streamStory : List (Nat × List Nat × Paging Unit) :=
  [mapStep, loadStep 0, loadStep 1, loadStep 2, loadStep 4, loadStep 0, loadStep 1]

def streamMachine : Env := roomyMachine.story streamStory

/-- A major fault of a page from its claim on, for as long as it decides as given. -/
def faultStep (d : PageId) (b : Nat) (must : Bool) : Paging Unit := do
  let claim ← claimSwapin d none
  if claim = .mine then do
    let x ← swapMissing d b
    if x = must then afterMissing b must else Prog.fail .outOfMemory
  else Prog.fail .outOfMemory

private theorem not_amid_fail {why : Abort} {a : α} (h : Amid (Prog.fail why : Paging α) l a l') :
    False := by
  cases h with
  | act s he _ => cases he

private theorem History.fault {h : List Fault} {d : PageId} {e : Env} (hh : History l h e.loc)
    (hrun : (exec 3000 [] (faultStep d b must) e).isSome = true) :
    History l (h ++ [.major b must]) (e.after 3000 [] (faultStep d b must)).loc := by
  obtain ⟨claim, l₁, hclaim, hrest⟩ := Amid.bind_inv (runs_after hrun).amid
  have hclaimed : History l h l₁ :=
    .other hh (streaked_of_sparing
      (within_claim (claiming_spared (c := true) (u := true)) d none)) hclaim
  split at hrest
  · obtain ⟨x, l₂, hswap, hafter⟩ := Amid.bind_inv hrest
    by_cases hx : x = must
    · rw [if_pos hx] at hafter
      exact .major hclaimed (hx ▸ hswap) hafter
    · rw [if_neg hx] at hafter
      exact (not_amid_fail hafter).elim
  · exact (not_amid_fail hrest).elim

/-- A program that leaves the fault addresses alone runs between two faults. -/
private theorem History.between {h : List Fault} {p : Paging Unit} {e : Env} {n : Nat}
    (hh : History l h e.loc) (hp : Always (Sparing true true) p)
    (hrun : (exec n [] p e).isSome = true) : History l h (e.after n [] p).loc :=
  .other hh (streaked_of_sparing hp) (runs_after hrun).amid

private theorem reach_streamMachine :
    Conf.Reach Operation Conf.serial (System.start roomyMachine) (System.start streamMachine) := by
  refine reach_story streamStory .init ?_ (by decide +kernel)
  simp only [streamStory, List.forall_mem_cons]
  exact ⟨operation_mapStep, operation_loadStep 0, operation_loadStep 1, operation_loadStep 2,
    operation_loadStep 4, operation_loadStep 0, operation_loadStep 1, by simp⟩

/-- The pages zero to three are loaded from in the same machine; the first two are swapped out
then. -/
def sweptMachine : Env :=
  roomyMachine.story [mapStep, loadStep 0, loadStep 1, loadStep 2, loadStep 3]

/-- Four major faults in a row: the third one prefetches the fourth page, and so that this page
faults too, both pages of DRAM are evicted in between. -/
def sweptFaults : List Fault :=
  [.major smallBase false, .major (smallBase + pageSize) false,
    .major (smallBase + 2 * pageSize) true, .major (smallBase + 3 * pageSize) true]

private theorem history_sweptFaults : ∃ l', History sweptMachine.loc sweptFaults l' := by
  have hends : sweptMachine.ends [(3000, [], faultStep 0 smallBase false),
      (3000, [], faultStep 1 (smallBase + pageSize) false),
      (3000, [], faultStep 2 (smallBase + 2 * pageSize) true), shrinkStep 2,
      (3000, [], lrudiskEvictionworkerVector),
      (3000, [], faultStep 3 (smallBase + 3 * pageSize) true)] = true := by
    decide +kernel
  simp only [Threads.Ctx.ends, Bool.and_eq_true] at hends
  obtain ⟨h₀, h₁, h₂, hshrink, hevict, h₃, -⟩ := hends
  have hstart := (((History.nil sweptMachine.loc).fault h₀).fault h₁).fault h₂
  have hshrunk := hstart.between (p := (shrinkStep 2).2.2)
    (always_bind (within_shrinkInactiveList scanning_spared 2) fun _ => trivial) hshrink
  exact ⟨_, (hshrunk.between (within_lrudiskEvictionworkerVector vacating_spared) hevict).fault h₃⟩

/-- The fourth fault is the next one after the third, and it goes on prefetching. -/
theorem streams_iff_sweptFaults :
    NextAhead sweptFaults (smallBase + 2 * pageSize) [] (smallBase + 3 * pageSize) true ∧
    Unbroken sweptFaults ∧ Streams sweptFaults := by
  obtain ⟨l', hh⟩ := history_sweptFaults
  have hstreams : Streams sweptFaults := by
    rintro a fs b must ⟨⟨pre, post, heq⟩, -, -⟩
    rcases pre with _ | ⟨f₀, _ | ⟨f₁, _ | ⟨f₂, _ | ⟨f₃, pre⟩⟩⟩⟩
    case cons.cons.nil => cases fs <;> simp_all [sweptFaults]
    all_goals simp [sweptFaults] at heq
  exact ⟨⟨⟨[.major smallBase false, .major (smallBase + pageSize) false], [], rfl⟩, by decide,
    by decide⟩, (streams_iff hh).mp hstreams, hstreams⟩

/-- The third major fault in a row prefetches and the next one, two pages on, does not. -/
theorem stream_interrupted :
    Conf.Reach Operation Conf.serial (System.start roomyMachine) (System.start streamMachine) ∧
    ∃ l', History streamMachine.loc [.major (smallBase + 2 * pageSize) true,
        .major (smallBase + 4 * pageSize) false] l' ∧ ¬ Streams
        [.major (smallBase + 2 * pageSize) true, .major (smallBase + 4 * pageSize) false] := by
  have hfirst :
      (exec 3000 [] (faultStep 2 (smallBase + 2 * pageSize) true) streamMachine).isSome = true := by
    decide +kernel
  have hnext : (exec 3000 [] (faultStep 3 (smallBase + 4 * pageSize) false)
      (streamMachine.after 3000 [] (faultStep 2 (smallBase + 2 * pageSize) true))).isSome =
      true := by
    decide +kernel
  refine ⟨reach_streamMachine, _, ((History.nil streamMachine.loc).fault hfirst).fault hnext,
    fun h => ?_⟩
  have hahead : NextAhead [.major (smallBase + 2 * pageSize) true, .major (smallBase + 4 * pageSize)
      false] (smallBase + 2 * pageSize) [] (smallBase + 4 * pageSize) false :=
    ⟨⟨[], [], rfl⟩, by decide, by decide⟩
  exact absurd (h _ _ _ _ hahead) (by decide)

end ExtMem
