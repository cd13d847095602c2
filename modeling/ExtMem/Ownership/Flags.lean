import ExtMem.Ownership.Lists

/-! Who may swap a page in or out, the allocator lock with the hash, and the pages that a thread has
looked up. -/
namespace ExtMem
open Threads Threads.Prog Threads.Outline

variable {n : Nat} {frames : List Frame} {s : Shared} {ls : Tid → Local} {G G' : Ledger} {e : Env}
  {t : Tid} {l : Local} {g : Share}
  {d : PageId} {x : Hold} {α β : Type}

/-! The flags of a page. -/

/-- What must hold of a page's flags and of their owners. -/
structure Flagged (s : Shared) (G' : Ledger) (d : PageId) (p : UserPage) : Prop where
  kept : p.va = (s.page d).va ∧ p.virtualOffset = (s.page d).virtualOffset ∧
    p.inDram = (s.page d).inDram
  flags : G'.busy d ≠ none → p.migrating = true ∧ p.swappedOut = true ∧ p.va ≠ 0
  late : ∀ u, G'.late d u = true → p.va ≠ 0
  clear : ∀ u x, G'.held d = some (u, x) → x.clear = true →
    p.swappedOut = false ∧ G'.busy d = none ∧ ∀ v, G'.late d v = false
  claim : ∀ u o, G'.busy d = some (u, .claim (some o)) → s.list d = some .diskActiveList →
    p.virtualOffset = o

/-- The step that changes a page's flags and who owns them. -/
theorem Owned.reflag (h : Owned n frames s ls G) (hd : d < n) {p : UserPage} (hp : Flagged s G' d p)
    (hf : e.sh.fifos = s.fifos) (hpage : e.sh.page = Function.update s.page d p)
    (hpages : e.sh.pages = s.pages) (hl : e.sh.allocatorLock = s.allocatorLock)
    (hr : e.loc.ring = (ls t).ring) (hm : e.loc.examining = (ls t).examining)
    (he : e.loc.exchange = (ls t).exchange) (hheld : G'.held = G.held) (hhash : G'.hash = G.hash)
    (same : ∀ c, c ≠ d → G.Same G' c) (others : ∀ u, u ≠ t → G'.share u = G.share u) :
    Owned n frames e.sh (Function.update ls t e.loc) G' := by
  have hlist (c : PageId) : e.sh.list c = s.list c := congrArg (·.tag c) hf
  have hpd : e.sh.page d = p := by rw [hpage, Function.update_self]
  have hT : Touch d s (ls t) e :=
    ⟨fun c hc => by rw [hpage, Function.update_of_ne hc], fun c _ => hlist c, hpages, hl, hr, hm⟩
  have hg := h.good d hd
  have hgood : (entryOf e.sh G' d).Good := by
    have hplace := hg.place
    unfold entryOf at hplace ⊢
    rw [hlist, hpd]
    refine ⟨?_, fun hi => ?_, hp.flags, hp.late, hp.clear, hp.claim⟩
    · dsimp only [UserPage.marks] at hplace ⊢
      rw [hheld, hp.kept.1, hp.kept.2.1]
      exact hplace
    · rw [hheld] at hi
      exact hp.kept.2.2.trans (hg.inDram hi)
  have hframe : (entryOf e.sh G' d).frame = (entryOf s G d).frame := by
    unfold entryOf Entry.frame
    rw [hheld, hpd, show p.marks.offset = (s.page d).marks.offset from hp.kept.2.1]
  have hhashed : (entryOf e.sh G' d).hashed = (entryOf s G d).hashed := by
    unfold entryOf Entry.hashed
    rw [hheld]
  have hok : e.loc.Ok (G'.share t) := by
    apply (h.locals t).congr he hr
    intro c fr
    unfold Ledger.share
    rw [hheld]
  exact h.one hT hd same hgood hframe (.inl ⟨by rw [hpd, hp.kept.1], hhashed⟩) hhash others hok

/-- The claim of a page that the thread has looked up. -/
theorem safe_claimSwapin {a : Nat} (hm : (d, a) ∈ l.examining) (old : Option Nat)
    {Q : Claim → Local → Share → Prop} (hno : ∀ c l', c ≠ .mine → Kept l l' → Q c l' g)
    (hq : ∀ l', g.busy d = none → Kept l l' → Q .mine l' (g.mark d (some (.claim none)))) :
    (owning n frames).Safe t (claimSwapin d old) Q l g := by
  apply safe_atomic.mpr
  apply owned_action
  intro s ls G hi hl hg
  subst hl hg
  have hstay (e : Env) (h : CalmStep ⟨s, ls t⟩ e) (c : Claim) (hc : c ≠ .mine) : ∃ G',
      Owned n frames e.sh (Function.update ls t e.loc) G' ∧ (∀ u, u ≠ t → G'.share u = G.share u) ∧
      Q c e.loc (G'.share t) := ⟨G, h.owned hi, fun _ _ => rfl, hno c _ hc ⟨h.ring, h.examining⟩⟩
  dsimp only
  by_cases hmig : (s.page d).migrating = true
  · rw [if_pos hmig]
    refine hstay _ ?_ .busy nofun
    exact CalmStep.of_eq rfl rfl rfl rfl rfl rfl rfl
  · rw [if_neg hmig]
    by_cases hout : (s.page d).swappedOut = false
    · rw [if_pos hout]
      refine hstay _ ?_ .handled nofun
      exact CalmStep.of_eq rfl rfl rfl rfl rfl rfl rfl
    · rw [if_neg hout]
      by_cases hv : Option.any (· != (s.page d).va) old = true
      · rw [if_pos hv]
        exact hstay _ (CalmStep.refl _) .moved nofun
      · rw [if_neg hv]
        have hd : d < n := by
          by_contra hd
          exact hout (hi.outside d (Nat.not_lt.mp hd)).2.2.2.2.2
        obtain ⟨hva, hz⟩ := hi.look t d a hm
        have hva0 : (s.page d).va ≠ 0 :=
          fun h0 => absurd (hz (hva.symm.trans h0)) (Nat.not_le.mpr hd)
        have hgd := hi.good d hd
        have hbusy : G.busy d = none := by
          by_contra hb
          exact hmig (hgd.flags hb).1
        have hself : (G.mark t d (some (.claim none))).busy d = some (t, .claim none) :=
          Function.update_self ..
        have hothers (u : Tid) (hu : u ≠ t) : (G.mark t d (some (.claim none))).share u =
            G.share u := Ledger.share_mark_ne hu (mine_of_none hbusy) _
        have hp :
            Flagged s (G.mark t d (some (.claim none))) d { s.page d with migrating := true } := by
          refine ⟨⟨rfl, rfl, rfl⟩, fun _ => ⟨rfl, ?_, hva0⟩, fun _ _ => hva0, fun u y hy hc => ?_,
            fun u o hb => ?_⟩
          · simpa using hout
          · exact absurd (hgd.clear u y hy hc).1 hout
          · rw [hself] at hb
            cases hb
        refine ⟨G.mark t d (some (.claim none)), ?_, hothers, ?_⟩
        · exact hi.reflag hd hp rfl rfl rfl rfl rfl rfl rfl rfl rfl
            (fun c hc => Ledger.Same.mark G hc _) hothers
        · rw [G.share_mark]
          refine hq _ ?_ ⟨rfl, rfl⟩
          rw [show (G.share t).busy d = mine t (G.busy d) from rfl, hbusy]
          rfl

/-- The owner of a claim reads the page's offset. -/
theorem safe_claimOffset {c : Option Frame} (hb : g.busy d = some (.claim c))
    {Q : Frame → Local → Share → Prop} (hq : ∀ o, Q o l (g.mark d (some (.claim (some o))))) :
    (owning n frames).Safe t (field d (·.virtualOffset)) Q l g := by
  apply safe_atomic.mpr
  apply owned_action
  intro s ls G hi hl hg
  subst hl hg
  have hbt : G.busy d = some (t, .claim c) := Owned.busy_of_share hb
  have hd : d < n := hi.lt_of_busy hbt
  have hgd := hi.good d hd
  obtain ⟨o, ho⟩ : ∃ o, (s.page d).virtualOffset = o := ⟨_, rfl⟩
  have hself : (G.mark t d (some (.claim (some o)))).busy d = some (t, .claim (some o)) :=
    Function.update_self ..
  have hothers (u : Tid) (hu : u ≠ t) : (G.mark t d (some (.claim (some o)))).share u = G.share u :=
    Ledger.share_mark_ne hu (mine_of_some hb) _
  have hflags := hgd.flags (ne_of_eq_of_ne hbt nofun)
  have hp : Flagged s (G.mark t d (some (.claim (some o)))) d (s.page d) := by
    refine ⟨⟨rfl, rfl, rfl⟩, fun _ => hflags, hgd.late, fun u y hy hc => ?_, fun u o' hb' _ => ?_⟩
    · have hn : G.busy d = none := (hgd.clear u y hy hc).2.1
      rw [hbt] at hn
      cases hn
    · rw [hself] at hb'
      cases hb'
      exact ho
  refine ⟨G.mark t d (some (.claim (some o))), ?_, hothers, ?_⟩
  · exact hi.reflag hd hp rfl (Function.update_eq_self ..).symm rfl rfl rfl rfl rfl rfl rfl
      (fun c hc => Ledger.Same.mark G hc _) hothers
  · rw [G.share_mark]
    show Q (s.page d).virtualOffset (ls t) _
    rw [ho]
    exact hq o

/-- A victim in hand is marked as swapped out; nobody else is at work on its flags. -/
theorem does_markSwappedOut (hx : g.held d = some x) (hva : x.va ≠ 0) (hc : x.clear = false)
    {Q : Unit → Local → Share → Prop}
    (hq : ∀ l', g.busy d = none → Kept l l' → Q () l' (g.mark d (some .marked))) :
    (owning n frames).Action t (markSwappedOut d) Q l g := by
  apply owned_action
  intro s ls G hi hl hg
  subst hl hg
  have hxt := Owned.held_of_share hx
  have hd : d < n := hi.lt_of_held hxt
  have hgd := hi.good d hd
  have hv : (s.page d).va ≠ 0 := by
    rw [(hi.knows hxt).va]
    exact hva
  unfold markSwappedOut
  by_cases hout : (s.page d).swappedOut = true
  · simp only [hout, if_true]
    exact nofun
  · by_cases hmig : (s.page d).migrating = true
    · simp only [hout, hmig, if_true, Bool.false_eq_true, if_false]
      have hbusy : G.busy d = none := by
        by_contra hb
        exact hout (hgd.flags hb).2.1
      have hself : (G.mark t d (some .marked)).busy d = some (t, .marked) := Function.update_self ..
      have hothers (u : Tid) (hu : u ≠ t) : (G.mark t d (some .marked)).share u = G.share u :=
        Ledger.share_mark_ne hu (mine_of_none hbusy) _
      have hp : Flagged s (G.mark t d (some .marked)) d { s.page d with swappedOut := true } := by
        refine ⟨⟨rfl, rfl, rfl⟩, fun _ => ⟨hmig, rfl, hv⟩, fun _ _ => hv, fun u y hy hyc => ?_,
          fun u o hb => ?_⟩
        · rw [show (G.mark t d (some .marked)).held d = some (t, x) from hxt] at hy
          cases hy
          rw [hc] at hyc
          cases hyc
        · rw [hself] at hb
          cases hb
      refine ⟨G.mark t d (some .marked), ?_, hothers, ?_⟩
      · exact hi.reflag hd hp rfl rfl rfl rfl rfl rfl rfl rfl rfl
          (fun c hc => Ledger.Same.mark G hc _) hothers
      · rw [G.share_mark]
        refine hq _ ?_ ⟨rfl, rfl⟩
        rw [show (G.share t).busy d = mine t (G.busy d) from rfl, hbusy]
        rfl
    · simp only [hout, hmig, if_false, Bool.false_eq_true]
      exact nofun

/-- The flags of a page are as their owner knows them. -/
theorem safe_assertBusy {b : Busy} (hb : g.busy d = some b) {c : UserPage → Bool} {why : Abort}
    (hc : ∀ p : UserPage, p.migrating = true ∧ p.swappedOut = true ∧ p.va ≠ 0 → c p = true)
    {k : Unit → Paging α} {Q : α → Local → Share → Prop}
    (hq : (owning n frames).Safe t (k ()) Q l g) :
    (owning n frames).Safe t (assertPage d c why >>= k) Q l g := by
  refine safe_bind (safe_assert (fun s ls G hi hl hg => ?_) hq)
  rw [← hg] at hb
  have hbt := Owned.busy_of_share hb
  exact hc _ ((hi.good d (hi.lt_of_busy hbt)).flags (ne_of_eq_of_ne hbt nofun))

/-- The owner of a page's flags gives them up; it may still owe a write of `swapped_out`. -/
theorem Owned.unmark (h : Owned n frames s ls G) {b : Busy}
    (hb : (G.share t).busy d = some b) {p : UserPage}
    (hp : p.va = (s.page d).va ∧ p.virtualOffset = (s.page d).virtualOffset ∧
      p.inDram = (s.page d).inDram) (hf : e.sh.fifos = s.fifos)
    (hpage : e.sh.page = Function.update s.page d p) (hpages : e.sh.pages = s.pages)
    (hl : e.sh.allocatorLock = s.allocatorLock) (hr : e.loc.ring = (ls t).ring)
    (hm : e.loc.examining = (ls t).examining) (he : e.loc.exchange = (ls t).exchange) :
    (∀ c, c = true ∨ (G.share t).late d = c →
      ∃ G', Owned n frames e.sh (Function.update ls t e.loc) G' ∧
      (∀ u, u ≠ t → G'.share u = G.share u) ∧ G'.share t = ((G.share t).mark d none).owe d c) := by
  intro c hlate
  have hbt : G.busy d = some (t, b) := Owned.busy_of_share hb
  have hd : d < n := h.lt_of_busy hbt
  have hgd := h.good d hd
  have hflags := hgd.flags (ne_of_eq_of_ne hbt nofun)
  let G' := (G.mark t d none).owe t d c
  have hself : G'.busy d = none := Function.update_self ..
  have hothers (u : Tid) (hu : u ≠ t) : G'.share u = G.share u := by
    rw [Ledger.share_owe_ne hu, Ledger.share_mark_ne hu (mine_of_some hb)]
  have hP : Flagged s G' d p := by
    refine ⟨hp, fun hn => absurd hself hn, fun u hu => ?_, fun u y hy hyc => ?_, fun u o hbo => ?_⟩
    · rw [hp.1]
      exact hflags.2.2
    · have hn : G.busy d = none := (hgd.clear u y hy hyc).2.1
      rw [hbt] at hn
      cases hn
    · rw [hself] at hbo
      cases hbo
  refine ⟨G', ?_, hothers, by rw [Ledger.share_owe, Ledger.share_mark]⟩
  exact h.reflag hd hP hf hpage hpages hl hr hm he rfl rfl
    (fun e he => (Ledger.Same.mark G he _).trans (Ledger.Same.owe _ he _)) hothers

theorem Share.owe_self {c : Bool} (h : g.late d = c) : g.owe d c = g := by
  subst h
  exact Share.ext rfl rfl (Function.update_eq_self ..) rfl

/-- The owner of a page's flags writes them for the last time. -/
theorem safe_unmark {b : Busy} (hb : g.busy d = some b) {F : UserPage → UserPage}
    (hF : ∀ p, (F p).va = p.va ∧ (F p).virtualOffset = p.virtualOffset ∧ (F p).inDram = p.inDram)
    {Q : Unit → Local → Share → Prop} (hq : ∀ l', Kept l l' → Q () l' (g.mark d none)) :
    (owning n frames).Safe t (Prog.modify fun e => (e.setPage d F).endWork d) Q l g := by
  apply safe_atomic.mpr
  apply owned_action
  intro s ls G hi hl hg
  subst hl hg
  obtain ⟨G', hi', hothers, hput⟩ := hi.unmark (e := (Threads.Ctx.setPage ⟨s, ls t⟩ d F).endWork d)
    hb (hF _) rfl rfl rfl rfl rfl rfl rfl _ (.inr rfl)
  refine ⟨G', hi', hothers, ?_⟩
  rw [hput, Share.owe_self (show ((G.share t).mark d none).late d = (G.share t).late d from rfl)]
  exact hq _ ⟨rfl, rfl⟩

theorem safe_finishSwapin {c : Option Frame} (hb : g.busy d = some (.claim c))
    {Q : Unit → Local → Share → Prop} (hq : ∀ l', Kept l l' → Q () l' (g.mark d none)) :
    (owning n frames).Safe t (finishSwapin d) Q l g :=
  safe_unmark (F := fun p => { p with swappedOut := false, migrating := false }) hb
    (fun _ => ⟨rfl, rfl, rfl⟩) hq

/-- The write of `swapped_out` that an evictor still owes. -/
private theorem safe_payLate (hlate : g.late d = true) {Q : Unit → Local → Share → Prop}
    (hq : ∀ l', Kept l l' → Q () l' (g.owe d false)) :
    (owning n frames).Safe t (Prog.modify fun e =>
      (e.setPage d fun p => { p with swappedOut := true }).endWork d) Q l g := by
  apply safe_atomic.mpr
  apply owned_action
  intro s ls G hi hl hg
  subst hl hg
  have hlt : G.late d t = true := hlate
  have hd : d < n := by
    by_contra hd
    rw [(hi.outside d (Nat.not_lt.mp hd)).2.2.2.1 t] at hlt
    cases hlt
  have hgd := hi.good d hd
  have hva : (s.page d).va ≠ 0 := hgd.late t hlt
  have hothers (u : Tid) (hu : u ≠ t) : (G.owe t d false).share u = G.share u :=
    Ledger.share_owe_ne hu _
  have hP : Flagged s (G.owe t d false) d { s.page d with swappedOut := true } := by
    refine ⟨⟨rfl, rfl, rfl⟩, fun hb => ⟨(hgd.flags hb).1, rfl, hva⟩, fun _ _ => hva,
      fun u y hy hyc => ?_, hgd.claim⟩
    have hn : G.late d t = false := (hgd.clear u y hy hyc).2.2 t
    rw [hlt] at hn
    cases hn
  refine ⟨G.owe t d false, ?_, hothers, ?_⟩
  · exact hi.reflag hd hP rfl rfl rfl rfl rfl rfl rfl rfl rfl
      (fun c hc => Ledger.Same.owe G hc _) hothers
  · rw [G.share_owe]
    exact hq _ ⟨rfl, rfl⟩

theorem safe_releaseVictim (hb : g.busy d = some .marked) (hlate : g.late d = false)
    {Q : Unit → Local → Share → Prop} (hq : ∀ l', Kept l l' → Q () l' (g.mark d none)) :
    (owning n frames).Safe t (releaseVictim d) Q l g := by
  refine safe_assertBusy hb (fun _ hp => hp.1) (safe_assertBusy hb (fun _ hp => hp.2.1) ?_)
  refine safe_bind (safe_atomic.mpr (owned_action fun s ls G hi hl hg => ?_))
  subst hl hg
  obtain ⟨G', hi', hothers, hput⟩ := hi.unmark (e := Threads.Ctx.setPage ⟨s, ls t⟩ d fun p =>
    { p with migrating := false }) hb (p := { s.page d with migrating := false })
    ⟨rfl, rfl, rfl⟩ rfl rfl rfl rfl rfl rfl rfl true (.inl rfl)
  refine ⟨G', hi', hothers, ?_⟩
  rw [hput]
  refine safe_payLate (Function.update_self ..) fun l₂ h₂ => ?_
  have howe : (((G.share t).mark d none).owe d true).owe d false = (G.share t).mark d none := by
    refine Share.ext rfl rfl ?_ rfl
    exact (Function.update_idem ..).trans (by rw [← hlate]; exact Function.update_eq_self ..)
  rw [howe]
  exact hq l₂ (Kept.trans ⟨rfl, rfl⟩ h₂)

/-! The allocator lock and the hash. -/

theorem safe_lockAllocator {Q : Unit → Local → Share → Prop}
    (hq : ∀ P l', g.hash = none → Kept l l' → Q () l' (g.lock (some P))) :
    (owning n frames).Safe t lockAllocator Q l g := by
  apply safe_atomic.mpr
  apply owned_action
  intro s ls G hi hl hg
  subst hl hg
  by_cases hlock : s.allocatorLock = true
  · simp [hlock]
  · have hnone : G.hash = none := by
      rw [hi.lock] at hlock
      simpa using hlock
    have hothers (u : Tid) (hu : u ≠ t) : (G.lock t (some s.pages)).share u = G.share u :=
      Ledger.share_lock_ne hu (mine_of_none hnone) _
    simp only [hlock]
    refine ⟨G.lock t (some s.pages), ?_, hothers, ?_⟩
    · exact hi.beside rfl rfl rfl ⟨rfl, rfl, rfl⟩ rfl (fun u P hP => by cases hP; rfl) hothers
        (hi.look t) ((hi.locals t).congr rfl rfl fun _ _ => Iff.rfl)
    · rw [G.share_lock]
      refine hq s.pages _ ?_ ⟨rfl, rfl⟩
      rw [show (G.share t).hash = mine t G.hash from rfl, hnone]
      rfl

theorem safe_unlockAllocator {P : Nat → Option PageId} (hP : g.hash = some P)
    {Q : Unit → Local → Share → Prop} (hq : ∀ l', Kept l l' → Q () l' (g.lock none)) :
    (owning n frames).Safe t unlockAllocator Q l g := by
  apply safe_atomic.mpr
  apply owned_action
  intro s ls G hi hl hg
  subst hl hg
  have hothers (u : Tid) (hu : u ≠ t) : (G.lock t none).share u = G.share u :=
    Ledger.share_lock_ne hu (mine_of_some hP) _
  refine ⟨G.lock t none, ?_, hothers, ?_⟩
  · exact hi.beside rfl rfl rfl ⟨rfl, rfl, rfl⟩ rfl (fun u P hP => by cases hP) hothers (hi.look t)
      ((hi.locals t).congr rfl rfl fun _ _ => Iff.rfl)
  · rw [G.share_lock]
    exact hq _ ⟨rfl, rfl⟩

theorem safe_findPage {P : Nat → Option PageId} (hP : g.hash = some P) {a : Nat}
    {Q : Option PageId → Local → Share → Prop}
    (hq : Q (P a) l g) : (owning n frames).Safe t (findPage a) Q l g := by
  apply safe_atomic.mpr
  apply owned_action
  intro s ls G hi hl hg
  subst hl hg
  refine ⟨G, by rw [Function.update_eq_self]; exact hi, fun _ _ => rfl, ?_⟩
  show Q (s.pages a) (ls t) (G.share t)
  rw [hi.pages t P (mine_eq_some.mp hP)]
  exact hq

/-- The owner of the lock enters a descriptor under an address that the hash does not know. -/
theorem safe_addPage {P : Nat → Option PageId} (hP : g.hash = some P) (hx : g.held d = some x)
    (hva : x.va ≠ 0) (hnew : P x.va = none) {Q : Unit → Local → Share → Prop}
    (hq : ∀ P' l', Kept l l' →
      Q () l' ((g.put d (some { x with hashed := true })).lock (some P'))) :
    (owning n frames).Safe t (addPage d) Q l g := by
  apply safe_atomic.mpr
  apply owned_action
  intro s ls G hi hl hg
  subst hl hg
  have hxt := Owned.held_of_share hx
  have hlt := hi.lt_of_held hxt
  have hk := hi.knows hxt
  have hGP : G.hash = some (t, P) := mine_eq_some.mp hP
  have hnone : s.pages (s.page d).va = none := by rw [hi.pages t P hGP, hk.va, hnew]
  have hd0 : (s.page d).va ≠ 0 := by
    rw [hk.va]
    exact hva
  let y : Hold := { x with hashed := true }
  let P' := Function.update s.pages (s.page d).va (some d)
  let G' := (G.put t d (some y)).lock t (some P')
  have hothers (u : Tid) (hu : u ≠ t) : G'.share u = G.share u := by
    rw [Ledger.share_lock_ne hu (mine_of_some (a := P) (by exact hP)),
      Ledger.share_put_ne hu (mine_of_some hx)]
  have hself : G'.held d = some (t, y) := Function.update_self ..
  have hne (c : PageId) (hc : c ≠ d) : entryOf { s with pages := P' } G' c = entryOf s G c := by
    unfold entryOf
    rw [show G'.held c = G.held c from Function.update_of_ne hc ..]
    rfl
  have hgd := hi.good d hlt
  have hframe (c : PageId) :
      (entryOf { s with pages := P' } G' c).frame = (entryOf s G c).frame := by
    by_cases hc : c = d
    · subst hc
      unfold entryOf Entry.frame
      rw [hself, hxt]
      rfl
    · rw [hne c hc]
  have hshare : G'.share t = ((G.share t).put d (some y)).lock (some P') := by
    rw [Ledger.share_lock, Ledger.share_put]
  dsimp only
  rw [if_pos (show (s.pages (s.page d).va).isNone = true by rw [hnone]; rfl)]
  refine ⟨G', ⟨fun c hc => ?_, fun c hc => ?_, fun c c' hc hc' hf => ?_, fun c hc => ?_,
    fun a c ha => ?_, fun c hc => ?_, ?_, fun u R hR => ?_, fun u c a hm => ?_, fun u => ?_⟩,
    hothers, ?_⟩
  · by_cases hcd : c = d
    · subst hcd
      have hplace := hgd.place
      unfold entryOf at hplace
      rw [hxt, (hi.inHand hxt).1] at hplace
      unfold entryOf
      rw [hself, show Shared.list { s with pages := P' } c = none from (hi.inHand hxt).1]
      refine ⟨hplace, fun hin => ?_, hgd.flags, hgd.late, fun u w hw hc' => ?_,
        fun _ _ _ hq => by cases hq⟩
      · rcases hin with hin | ⟨u, w, hw, hin⟩
        · cases hin
        · cases hw
          exact hk.inDram hin
      · cases hw
        exact hgd.clear t x hxt hc'
    · rw [hne c hcd]
      exact hi.good c hc
  · have hcd : c ≠ d := fun hcd => absurd (hcd ▸ hlt) (Nat.not_lt.mpr hc)
    rw [show G'.held c = G.held c from Function.update_of_ne hcd ..]
    exact hi.outside c hc
  · rw [hframe, hframe] at hf
    exact hi.inj c c' hc hc' hf
  · rw [hframe]
    exact hi.mem c hc
  · show P' a = some c ↔ (s.page c).va = a ∧ _
    by_cases haa : a = (s.page d).va
    · rw [show P' a = some d by rw [haa]; exact Function.update_self ..]
      constructor
      · intro hdc
        cases hdc
        refine ⟨haa.symm, ?_⟩
        unfold entryOf Entry.hashed
        rw [hself]
      · rintro ⟨hv, hh⟩
        by_cases hcd : c = d
        · rw [hcd]
        · rw [hne c hcd] at hh
          have hin := (hi.hash a c ha).mpr ⟨hv, hh⟩
          rw [haa, hnone] at hin
          cases hin
    · rw [show P' a = s.pages a from Function.update_of_ne haa .., hi.hash a c ha]
      by_cases hcd : c = d
      · subst hcd
        exact ⟨fun hx => absurd hx.1.symm haa, fun hx => absurd hx.1.symm haa⟩
      · rw [hne c hcd]
  · have hz : P' 0 = s.pages 0 := Function.update_of_ne (Ne.symm hd0) ..
    exact hi.zero c (hz.symm.trans hc)
  · show s.allocatorLock = true
    rw [hi.lock, hGP]
    rfl
  · cases hR
    rfl
  · apply hi.look u c a
    rwa [Function.update_eq_self] at hm
  · rw [Function.update_eq_self]
    by_cases hu : u = t
    · subst hu
      rw [hshare]
      exact ((hi.locals u).put_same (y := y) hx rfl rfl rfl).congr rfl rfl fun _ _ => Iff.rfl
    · rw [hothers u hu]
      exact hi.locals u
  · rw [hshare]
    exact hq P' _ ⟨rfl, rfl⟩

/-! The pages that a thread has looked up. -/

theorem safe_lookUp {a : Nat} {Q : Option PageId → Local → Share → Prop} (hno : Q none l g)
    (hq : ∀ d l', l'.ring = l.ring → l'.examining = (d, a) :: l.examining → Q (some d) l' g) :
    (owning n frames).Safe t (lookUp a) Q l g := by
  apply safe_atomic.mpr
  apply owned_action
  intro s ls G hi hl hg
  subst hl hg
  cases hp : s.pages a with
  | none => exact ⟨G, by rw [Function.update_eq_self]; exact hi, fun _ _ => rfl, hno⟩
  | some d =>
    have hfound : (s.page d).va = a ∧ (a = 0 → n ≤ d) := by
      by_cases ha : a = 0
      · rw [ha] at hp ⊢
        exact ⟨(hi.outside d (hi.zero d hp)).2.2.2.2.1, fun _ => hi.zero d hp⟩
      · exact ⟨((hi.hash a d ha).mp hp).1, fun h0 => absurd h0 ha⟩
    refine ⟨G, hi.own rfl rfl rfl rfl (fun c b hm => ?_) ((hi.locals t).congr rfl rfl
      fun _ _ => Iff.rfl), fun _ _ => rfl, hq d _ rfl rfl⟩
    rcases List.mem_cons.mp hm with hm | hm
    · cases hm
      exact hfound
    · exact hi.look t c b hm

/-- A page that was looked up has the address by which it was found. -/
theorem safe_assertFound {a : Nat} (hm : (d, a) ∈ l.examining) {c : UserPage → Bool} {why : Abort}
    (hc : ∀ p : UserPage, p.va = a → c p = true) {k : Unit → Paging α}
    {Q : α → Local → Share → Prop} (hq : (owning n frames).Safe t (k ()) Q l g) :
    (owning n frames).Safe t (assertPage d c why >>= k) Q l g := by
  refine safe_bind (safe_assert (fun s ls G hi hl hg => ?_) hq)
  rw [← hl] at hm
  exact hc _ (hi.look t d a hm).1

theorem safe_lookAway {Q : Unit → Local → Share → Prop} (hq : ∀ l', l'.ring = l.ring → Q () l' g) :
    (owning n frames).Safe t (lookAway d) Q l g := by
  apply safe_atomic.mpr
  apply owned_action
  intro s ls G hi hl hg
  subst hl hg
  have hlook (c : PageId) (b : Nat) (hm : (c, b) ∈ (ls t).examining.filter (·.1 != d)) :=
    hi.look t c b (List.mem_filter.mp hm).1
  exact ⟨G, hi.own rfl rfl rfl rfl hlook ((hi.locals t).congr rfl rfl fun _ _ => Iff.rfl),
    fun _ _ => rfl, hq _ rfl⟩

end ExtMem
