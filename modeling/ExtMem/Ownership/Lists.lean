import ExtMem.Ownership.Calm

/-! Descriptors that a thread takes off a list, changes while it has them, and puts on a list. -/
namespace ExtMem
open Threads Threads.Prog Threads.Outline

variable {n : Nat} {frames : List Frame} {s : Shared} {ls : Tid → Local} {G : Ledger} {e : Env}
  {t : Tid} {l : Local} {g : Share}
  {d f : PageId} {x y z : Hold} {α β : Type}

/-- Nothing changes between two states but what ownership does not rest on, and the exchange. -/
structure Beside (e₀ e : Env) : Prop where
  fifos : e.sh.fifos = e₀.sh.fifos
  page : e.sh.page = e₀.sh.page
  pages : e.sh.pages = e₀.sh.pages
  lock : e.sh.allocatorLock = e₀.sh.allocatorLock
  ring : e.loc.ring = e₀.loc.ring
  examining : e.loc.examining = e₀.loc.examining

theorem Beside.refl (e : Env) : Beside e e := ⟨rfl, rfl, rfl, rfl, rfl, rfl⟩

theorem Beside.record (e : Env) (ev : Event) : Beside e (e.record ev) :=
  ⟨rfl, rfl, rfl, rfl, rfl, rfl⟩

theorem Beside.trans {e e₁ e₂ : Env} (h₁ : Beside e e₁) (h₂ : Beside e₁ e₂) : Beside e e₂ where
  fifos := h₂.fifos.trans h₁.fifos
  page := h₂.page.trans h₁.page
  pages := h₂.pages.trans h₁.pages
  lock := h₂.lock.trans h₁.lock
  ring := h₂.ring.trans h₁.ring
  examining := h₂.examining.trans h₁.examining

/-- No request under way goes to this frame. -/
def Local.Spares (l : Local) (fr : Frame) : Prop := ∀ q ∈ l.requests, fr ≠ ⟨false, q.offset⟩

theorem Local.spares_dram (l : Local) {fr : Frame} (h : fr.dram = true) : l.Spares fr := by
  rintro q - rfl
  cases h

theorem Local.Spares.congr {l l' : Local} {fr : Frame} (h : l.Spares fr) (hr : l'.ring = l.ring) :
    l'.Spares fr := by
  unfold Local.Spares
  rw [Local.requests_congr hr]
  exact h

/-- An action is judged by what it does to one thread's share. -/
theorem owned_action {f : Env → Outcome Abort Env β} {Q : β → Local → Share → Prop}
    (h : ∀ s ls G, Owned n frames s ls G → ls t = l → G.share t = g → match f ⟨s, l⟩ with
      | .ok b e => ∃ G', Owned n frames e.sh (Function.update ls t e.loc) G' ∧
          (∀ u, u ≠ t → G'.share u = G.share u) ∧ Q b e.loc (G'.share t)
      | .wait => True
      | .abort why => ¬ why.Guarded) : (owning n frames).Action t f Q l g := by
  intro s ls G hi hl hg
  have hs := h s ls G hi hl hg
  cases he : f ⟨s, l⟩ with
  | wait => trivial
  | abort why =>
    rw [he] at hs
    exact hs
  | ok b e =>
    rw [he] at hs
    exact fun _ => hs

/-- An assertion that the invariant bears out. -/
theorem safe_assert {c : Env → Bool} {why : Abort} {Q : Unit → Local → Share → Prop}
    (hc : ∀ s ls G, Owned n frames s ls G → ls t = l → G.share t = g → c ⟨s, l⟩ = true)
    (hq : Q () l g) : (owning n frames).Safe t (Prog.assert c why : Paging Unit) Q l g := by
  apply safe_atomic.mpr
  apply owned_action
  intro s ls G hi hl hg
  rw [hc s ls G hi hl hg]
  subst hl hg
  exact ⟨G, by rw [Function.update_eq_self]; exact hi, fun _ _ => rfl, hq⟩

/-! Taking descriptors off lists. -/

/-- What happens to the exchange at the moment a descriptor leaves its list. -/
def Taking (join : Bool) (aux : PageId → Env → Env) : Prop :=
  ∀ d e, Beside e (aux d e) ∧
    (aux d e).loc.exchange = if join then (d, (e.sh.page d).virtualOffset) :: e.loc.exchange
      else e.loc.exchange

theorem taking_id : Taking false fun _ => id := fun _ e => ⟨Beside.refl e, rfl⟩

theorem taking_join : Taking true fun d e => e.joinExchange d :=
  fun _ _ => ⟨⟨rfl, rfl, rfl, rfl, rfl, rfl⟩, rfl⟩

theorem taking_victim : Taking true takeVictim := fun _ _ => ⟨⟨rfl, rfl, rfl, rfl, rfl, rfl⟩, rfl⟩

/-- What a thread knows of a descriptor that it has just taken off a list. -/
structure TakenOff (join : Bool) (q : FifoList) (x : Hold) : Prop where
  fits : q.Fits x.va x.offset
  stake : x.stake = if join then some x.offset else none
  clear : x.clear = false
  hashed : x.hashed = true
  inDram : q = .dramFreeList → x.inDram = true

private theorem Owned.none_of_listed (h : Owned n frames s ls G) {q : FifoList}
    (hd : s.list d = some q) : (G.share t).held d = none := by
  rw [show (G.share t).held d = mine t (G.held d) from rfl, (h.listed hd).1]
  rfl

/-- The frame of a descriptor on a list is none that a request of a thread goes to. -/
theorem Owned.spares (h : Owned n frames s ls G) {q : FifoList} (hd : s.list d = some q) :
    (ls t).Spares (s.page d).virtualOffset := by
  intro r hr hf
  obtain ⟨c, x, hx, hs⟩ := (h.locals t).backed r hr
  have hxt : G.held c = some (t, x) := Owned.held_of_share hx
  have hheld := (h.listed hd).1
  have hcd : c = d := by
    apply h.inj c d (h.lt_of_held hxt) (h.lt_of_list hd)
    unfold entryOf Entry.frame
    rw [hxt, hheld]
    show x.frame = (s.page d).virtualOffset
    rw [hf, Hold.frame, hs]
    rfl
  rw [hcd, hheld] at hxt
  cases hxt

/-- The step that takes a descriptor off a list. -/
theorem Owned.take (h : Owned n frames s ls G) {q : FifoList} (hd : s.list d = some q) {join : Bool}
    (hf : e.sh.fifos = s.fifos.unlink d) (hpage : e.sh.page = s.page) (hp : e.sh.pages = s.pages)
    (hl : e.sh.allocatorLock = s.allocatorLock) (hr : e.loc.ring = (ls t).ring)
    (hm : e.loc.examining = (ls t).examining)
    (he : e.loc.exchange = if join then
      (d, (s.page d).virtualOffset) :: (ls t).exchange else (ls t).exchange) :
    ∃ x G', TakenOff join q x ∧ x.offset = (s.page d).virtualOffset ∧
      Owned n frames e.sh (Function.update ls t e.loc) G' ∧ (∀ u, u ≠ t → G'.share u = G.share u) ∧
      G'.share t = (G.share t).put d (some x) := by
  obtain ⟨hheld, hfits⟩ := h.listed hd
  have hlist (c : PageId) : e.sh.list c = if c = d then none else s.list c := by
    unfold Shared.list
    rw [hf, Queues.tag_unlink]
  let x : Hold := ⟨(s.page d).va, (s.page d).virtualOffset,
    if join then some (s.page d).virtualOffset else none, decide (q = .dramFreeList), false, true⟩
  have hmine : (G.share t).held d = none := h.none_of_listed hd
  have hself : (G.put t d (some x)).held d = some (t, x) := Function.update_self ..
  have hothers (u : Tid) (hu : u ≠ t) : (G.put t d (some x)).share u = G.share u :=
    Ledger.share_put_ne hu (mine_of_none hheld) _
  have hT : Touch d s (ls t) e :=
    ⟨fun c _ => by rw [hpage], fun c hc => by rw [hlist, if_neg hc], hp, hl, hr, hm⟩
  have hg := h.good d (h.lt_of_list hd)
  have hgood : (entryOf e.sh (G.put t d (some x)) d).Good := by
    unfold entryOf
    rw [hlist, if_pos rfl, hself, hpage]
    refine ⟨⟨rfl, rfl⟩, fun hi => ?_, hg.flags, hg.late, fun u y hy hc => ?_,
      fun _ _ _ hq => by cases hq⟩
    · rcases hi with hi | ⟨u, y, hy, hi⟩
      · cases hi
      · cases hy
        exact hg.inDram (.inl (hd.trans (congrArg some (of_decide_eq_true hi))))
    · cases hy
      cases hc
  have hok : e.loc.Ok ((G.put t d (some x)).share t) := by
    rw [G.share_put]
    cases join with
    | true => exact (h.locals t).join (fun y hy => by rw [hmine] at hy; cases hy) rfl he hr
    | false =>
      apply (h.locals t).put_free (fun y hy => by rw [hmine] at hy; cases hy) (fun y hy => ?_) he hr
      cases hy
      rfl
  have hframe : (entryOf e.sh (G.put t d (some x)) d).frame = (entryOf s G d).frame := by
    unfold entryOf Entry.frame
    rw [hself, hheld]
    cases join <;> rfl
  have hhashed : (entryOf e.sh (G.put t d (some x)) d).hashed = (entryOf s G d).hashed := by
    unfold entryOf Entry.hashed
    rw [hself, hheld]
  refine ⟨x, G.put t d (some x), ⟨hfits, rfl, rfl, rfl, fun hq => decide_eq_true hq⟩, rfl, ?_,
    hothers, G.share_put _⟩
  exact h.one hT (h.lt_of_list hd) (fun c hc => Ledger.Same.put G hc _) hgood hframe
    (.inl ⟨by rw [hpage], hhashed⟩) rfl hothers hok

theorem safe_dequeue {q : FifoList} {join : Bool} {aux : PageId → Env → Env}
    (haux : Taking join aux) {Q : Option PageId → Local → Share → Prop} (hno : Q none l g)
    (hq : ∀ d x l', g.held d = none → TakenOff join q x → l.Spares x.offset →
      Kept l l' → Q (some d) l' (g.put d (some x))) :
    (owning n frames).Safe t (dequeueFifoThen q aux) Q l g := by
  apply safe_atomic.mpr
  apply owned_action
  intro s ls G hi hl hg
  subst hl hg
  cases hs : s.fifos.seq q with
  | nil => exact ⟨G, by rw [Function.update_eq_self]; exact hi, fun _ _ => rfl, hno⟩
  | cons d ds =>
    have hd : s.list d = some q := Queues.tag_of_head hs
    obtain ⟨hb, hx⟩ := haux d (Threads.Ctx.dequeue ⟨s, ls t⟩ q d)
    obtain ⟨x, G', htaken, hoff, hi', hothers, hput⟩ :=
      hi.take hd hb.fifos hb.page hb.pages hb.lock hb.ring hb.examining hx
    refine ⟨G', hi', hothers, ?_⟩
    rw [hput]
    exact hq d x _ (hi.none_of_listed hd) htaken (by rw [hoff]; exact hi.spares hd)
      ⟨hb.ring, hb.examining⟩

theorem safe_tryremove {q : FifoList} {join : Bool} {aux : Env → Env}
    (haux : ∀ e, Beside e (aux e) ∧ (aux e).loc.exchange = if join then
      (d, (e.sh.page d).virtualOffset) :: e.loc.exchange else e.loc.exchange)
    {Q : Bool → Local → Share → Prop} (hno : Q false l g)
    (hq : ∀ x l', g.held d = none → TakenOff join q x → l.Spares x.offset →
      (∀ o, g.busy d = some (.claim (some o)) → q = .diskActiveList → x.offset = o) →
      Kept l l' → Q true l' (g.put d (some x))) :
    (owning n frames).Safe t (pageListTryremovePageThen (some q) d aux) Q l g := by
  apply safe_atomic.mpr
  apply owned_action
  intro s ls G hi hl hg
  subst hl hg
  by_cases hd : s.list d = some q
  · simp only [hd, if_true]
    obtain ⟨hb, hx⟩ := haux (Threads.Ctx.remove ⟨s, ls t⟩ q d)
    obtain ⟨x, G', htaken, hoff, hi', hothers, hput⟩ :=
      hi.take hd hb.fifos hb.page hb.pages hb.lock hb.ring hb.examining hx
    refine ⟨G', hi', hothers, ?_⟩
    rw [hput]
    apply hq x _ (hi.none_of_listed hd) htaken (by rw [hoff]; exact hi.spares hd)
      (fun o hbusy hqd => ?_) ⟨hb.ring, hb.examining⟩
    have hg := hi.good d (hi.lt_of_list hd)
    exact hoff.trans (hg.claim t o (Owned.busy_of_share hbusy) (hqd ▸ hd))
  · simp only [hd, if_false]
    exact ⟨G, by rw [Function.update_eq_self]; exact hi, fun _ _ => rfl, hno⟩

/-! Putting descriptors on lists. -/

private theorem list_enqueue {q : FifoList} (hf : e.sh.fifos = s.fifos.enqueue q d)
    (hd : s.list d = none) (c : PageId) : e.sh.list c = if c = d then some q else s.list c := by
  unfold Shared.list at hd ⊢
  rw [hf, Queues.tag_enqueue hd]

/-- What must hold of a descriptor in hand that goes on a list. -/
structure Gives (g : Share) (q : FifoList) (d : PageId) (x : Hold) : Prop where
  held : g.held d = some x
  fits : q.Fits x.va x.offset
  hashed : x.hashed = true
  inDram : q = .dramFreeList → x.inDram = true
  busy : q = .diskActiveList → g.busy d = some .marked

private theorem Owned.good_given (h : Owned n frames s ls G) {q : FifoList}
    (hx : Gives (G.share t) q d x) (hpage : e.sh.page = s.page) {G' : Ledger}
    (hlist : e.sh.list d = some q) (hheld : G'.held d = none) (hbusy : G'.busy d = G.busy d)
    (hlate : G'.late d = G.late d) : (entryOf e.sh G' d).Good := by
  have hxt : G.held d = some (t, x) := Owned.held_of_share hx.held
  have hg := h.good d (h.lt_of_held hxt)
  obtain ⟨-, hva, hoff⟩ := h.inHand hxt
  unfold entryOf
  rw [hlist, hheld, hbusy, hlate, hpage]
  refine ⟨?_, fun hi => ?_, hg.flags, hg.late, fun u y hy => (by cases hy), fun u o hb hq => ?_⟩
  · show q.Fits (s.page d).va (s.page d).virtualOffset
    rw [hva, hoff]
    exact hx.fits
  · rcases hi with hi | ⟨u, y, hy, -⟩
    · cases hi
      exact h.inDram hxt (hx.inDram rfl)
    · cases hy
  · cases hq
    rw [Owned.busy_of_share (hx.busy rfl)] at hb
    cases hb

/-- The step that puts a descriptor on a list; it is in no exchange, or leaves it with its final
frame. -/
theorem Owned.give (h : Owned n frames s ls G) {q : FifoList} (hx : Gives (G.share t) q d x)
    (hf : e.sh.fifos = s.fifos.enqueue q d) (hpage : e.sh.page = s.page) (hp : e.sh.pages = s.pages)
    (hl : e.sh.allocatorLock = s.allocatorLock) (hr : e.loc.ring = (ls t).ring)
    (hm : e.loc.examining = (ls t).examining)
    (he : x.stake = none ∧ e.loc.exchange = (ls t).exchange ∨ x.stake = some x.offset ∧
      (ls t).Spares x.offset ∧ e.loc.exchange = (ls t).exchange.filter (·.1 != d)) :
    ∃ G', Owned n frames e.sh (Function.update ls t e.loc) G' ∧
      (∀ u, u ≠ t → G'.share u = G.share u) ∧ G'.share t = (G.share t).put d none := by
  have hxt : G.held d = some (t, x) := Owned.held_of_share hx.held
  obtain ⟨hnone, -, hoff⟩ := h.inHand hxt
  have hlist := list_enqueue hf hnone
  have hself : (G.put t d none).held d = none := Function.update_self ..
  have hothers (u : Tid) (hu : u ≠ t) : (G.put t d none).share u = G.share u :=
    Ledger.share_put_ne hu (mine_of_some hx.held) _
  have hT : Touch d s (ls t) e :=
    ⟨fun c _ => by rw [hpage], fun c hc => by rw [hlist, if_neg hc], hp, hl, hr, hm⟩
  have hgood : (entryOf e.sh (G.put t d none) d).Good :=
    h.good_given hx hpage (by rw [hlist, if_pos rfl]) hself rfl rfl
  have hstake : x.frame = x.offset := by
    rcases he with ⟨hs, -⟩ | ⟨hs, -⟩ <;> rw [Hold.frame, hs] <;> rfl
  have hframe : (entryOf e.sh (G.put t d none) d).frame = (entryOf s G d).frame := by
    unfold entryOf Entry.frame
    rw [hself, hxt, hpage]
    exact hoff.trans hstake.symm
  have hhashed : (entryOf e.sh (G.put t d none) d).hashed = (entryOf s G d).hashed := by
    unfold entryOf Entry.hashed
    rw [hself, hxt]
    exact hx.hashed.symm
  have hok : e.loc.Ok ((G.put t d none).share t) := by
    rw [G.share_put]
    rcases he with ⟨hs, he⟩ | ⟨hs, hsp, he⟩
    · apply (h.locals t).put_free (fun y hy => ?_) (fun y hy => by cases hy) he hr
      rw [hx.held] at hy
      cases hy
      exact hs
    · apply (h.locals t).leave (fun y hy => by cases hy) he hr
      intro r hq
      obtain ⟨c, y, hy, hys⟩ := (h.locals t).backed r hq
      refine ⟨c, y, ?_, hys⟩
      rw [Share.held_put_ne]
      · exact hy
      · rintro rfl
        rw [hx.held] at hy
        cases hy
        rw [hs] at hys
        exact hsp r hq (Option.some.inj hys)
  refine ⟨G.put t d none, ?_, hothers, G.share_put _⟩
  exact h.one hT (h.lt_of_held hxt) (fun c hc => Ledger.Same.put G hc _) hgood hframe
    (.inl ⟨by rw [hpage], hhashed⟩) rfl hothers hok

/-- A descriptor goes on a list that no exchange knows of. -/
theorem safe_enqueue {q : FifoList} {aux : Env → Env}
    (haux : ∀ e, Beside e (aux e) ∧ (aux e).loc.exchange = e.loc.exchange) (hx : Gives g q d x)
    (hs : x.stake = none) {Q : Unit → Local → Share → Prop}
    (hq : ∀ l', Kept l l' → Q () l' (g.put d none)) :
    (owning n frames).Safe t (enqueueFifoThen q d aux) Q l g := by
  apply safe_atomic.mpr
  apply owned_action
  intro s ls G hi hl hg
  subst hl hg
  obtain ⟨hnone, -⟩ := hi.inHand (Owned.held_of_share hx.held)
  obtain ⟨hb, he⟩ := haux (Threads.Ctx.enqueue ⟨s, ls t⟩ q d)
  rw [show (s.list d).isNone = true by rw [hnone]; rfl, if_pos rfl]
  obtain ⟨G', hi', hothers, hput⟩ :=
    hi.give hx hb.fifos hb.page hb.pages hb.lock hb.ring hb.examining (.inl ⟨hs, he⟩)
  refine ⟨G', hi', hothers, ?_⟩
  rw [hput]
  exact hq _ ⟨hb.ring, hb.examining⟩

/-- A descriptor leaves its exchange with its final frame. -/
theorem safe_enqueue_leave {q : FifoList} (hx : Gives g q d x) (hs : x.stake = some x.offset)
    (hsp : l.Spares x.offset)
    {Q : Unit → Local → Share → Prop} (hq : ∀ l', Kept l l' → Q () l' (g.put d none)) :
    (owning n frames).Safe t (enqueueFifoThen q d (·.leaveExchange d)) Q l g := by
  apply safe_atomic.mpr
  apply owned_action
  intro s ls G hi hl hg
  subst hl hg
  obtain ⟨hnone, -⟩ := hi.inHand (Owned.held_of_share hx.held)
  rw [show (s.list d).isNone = true by rw [hnone]; rfl, if_pos rfl]
  obtain ⟨G', hi', hothers, hput⟩ :=
    hi.give (e := (Threads.Ctx.enqueue ⟨s, ls t⟩ q d).leaveExchange d) hx rfl rfl rfl rfl rfl rfl
      (.inr ⟨hs, hsp, rfl⟩)
  refine ⟨G', hi', hothers, ?_⟩
  rw [hput]
  exact hq _ ⟨rfl, rfl⟩

/-- What must hold of the two sides of an exchange when one of them goes on a list: it has the other
one's frame. -/
structure Settles (l : Local) (g : Share) (q : FifoList) (d f : PageId) (x z : Hold)
    (fr : Frame) : Prop where
  gives : Gives g q d x
  held : g.held f = some z
  ne : d ≠ f
  stake : x.stake = some fr
  other : z.stake = some x.offset
  spares : l.Spares fr ∧ l.Spares x.offset

/-- The step in which a descriptor leaves the exchange for a list, and the other one stands for its
frame. -/
theorem Owned.settle (h : Owned n frames s ls G) {q : FifoList} {fr : Frame}
    (hx : Settles (ls t) (G.share t) q d f x z fr)
    (hy : y.va = z.va ∧ y.offset = z.offset ∧ y.inDram = z.inDram ∧ y.clear = z.clear ∧
      y.hashed = z.hashed) (hfr : y.frame = fr) (hf : e.sh.fifos = s.fifos.enqueue q d)
    (hpage : e.sh.page = s.page) (hp : e.sh.pages = s.pages)
    (hl : e.sh.allocatorLock = s.allocatorLock) (hr : e.loc.ring = (ls t).ring)
    (hm : e.loc.examining = (ls t).examining)
    (hok : e.loc.Ok (((G.share t).put d none).put f (some y))) :
    ∃ G', Owned n frames e.sh (Function.update ls t e.loc) G' ∧
      (∀ u, u ≠ t → G'.share u = G.share u) ∧
      G'.share t = ((G.share t).put d none).put f (some y) := by
  have hxt : G.held d = some (t, x) := Owned.held_of_share hx.gives.held
  have hzt : G.held f = some (t, z) := Owned.held_of_share hx.held
  obtain ⟨hnone, -, -⟩ := h.inHand hxt
  obtain ⟨hnonef, hvaf, hofff⟩ := h.inHand hzt
  have hlist := list_enqueue hf hnone
  let G' := (G.put t d none).put t f (some y)
  have hd' : G'.held d = none := by
    rw [show G'.held d = (G.put t d none).held d from Function.update_of_ne hx.ne ..]
    exact Function.update_self ..
  have hf' : G'.held f = some (t, y) := Function.update_self ..
  have hshare : G'.share t = ((G.share t).put d none).put f (some y) := by
    rw [Ledger.share_put, Ledger.share_put]
  have hothers (u : Tid) (hu : u ≠ t) : G'.share u = G.share u := by
    rw [Ledger.share_put_ne hu, Ledger.share_put_ne hu (mine_of_some hx.gives.held)]
    apply mine_of_some (a := z)
    rw [show (G.put t d none).held f = G.held f from Function.update_of_ne (Ne.symm hx.ne) ..]
    exact hx.held
  have hT : Touch d s (ls t) e :=
    ⟨fun c _ => by rw [hpage], fun c hc => by rw [hlist, if_neg hc], hp, hl, hr, hm⟩
  have hgood₁ : (entryOf e.sh G' d).Good :=
    h.good_given hx.gives hpage (by rw [hlist, if_pos rfl]) hd' rfl rfl
  have hg := h.good f (h.lt_of_held hzt)
  have hgood₂ : (entryOf e.sh G' f).Good := by
    unfold entryOf
    rw [hf', hlist, if_neg (Ne.symm hx.ne), hpage, hnonef]
    refine ⟨⟨hvaf.trans hy.1.symm, hofff.trans hy.2.1.symm⟩, fun hi => ?_, hg.flags, hg.late,
      fun u w hw hc => ?_, fun _ _ _ hq => by cases hq⟩
    · rcases hi with hi | ⟨u, w, hw, hi⟩
      · cases hi
      · cases hw
        exact h.inDram hzt (hy.2.2.1.symm.trans hi)
    · cases hw
      exact hg.clear t z hzt (hy.2.2.2.1.symm.trans hc)
  have hframe₁ : (entryOf e.sh G' d).frame = (entryOf s G f).frame := by
    unfold entryOf Entry.frame
    rw [hd', hzt, hpage]
    show (s.page d).virtualOffset = z.frame
    rw [(h.inHand hxt).2.2, Hold.frame, hx.other]
    rfl
  have hframe₂ : (entryOf e.sh G' f).frame = (entryOf s G d).frame := by
    unfold entryOf Entry.frame
    rw [hf', hxt]
    show y.frame = x.frame
    rw [hfr, Hold.frame, hx.stake]
    rfl
  have hhashed₁ : (entryOf e.sh G' d).hashed = (entryOf s G d).hashed := by
    unfold entryOf Entry.hashed
    rw [hd', hxt]
    exact hx.gives.hashed.symm
  have hhashed₂ : (entryOf e.sh G' f).hashed = (entryOf s G f).hashed := by
    unfold entryOf Entry.hashed
    rw [hf', hzt]
    exact hy.2.2.2.2
  refine ⟨G', ?_, hothers, hshare⟩
  exact h.two hT hx.ne (h.lt_of_held hxt) (h.lt_of_held hzt)
    (fun c hcd hcf => (Ledger.Same.put G hcd _).trans (Ledger.Same.put _ hcf _)) hgood₁ hgood₂
    hframe₁ hframe₂ ⟨by rw [hpage], hhashed₁⟩ hhashed₂ rfl hothers (by rw [hshare]; exact hok)

/-- The requests under way do not go to the frames of an exchange that ends. -/
private theorem Owned.backed_settled (h : Owned n frames s ls G) {q : FifoList} {fr : Frame}
    (hx : Settles (ls t) (G.share t) q d f x z fr) (o : Option Hold) :
    ∀ r ∈ (ls t).requests, (((G.share t).put d none).put f o).Backs r.offset := by
  intro r hr
  obtain ⟨c, w, hw, hws⟩ := (h.locals t).backed r hr
  have hcd : c ≠ d := by
    rintro rfl
    rw [hx.gives.held] at hw
    cases hw
    rw [hx.stake] at hws
    exact hx.spares.1 r hr (Option.some.inj hws)
  have hcf : c ≠ f := by
    rintro rfl
    rw [hx.held] at hw
    cases hw
    rw [hx.other] at hws
    exact hx.spares.2 r hr (Option.some.inj hws)
  refine ⟨c, w, ?_, hws⟩
  rw [Share.held_put_ne _ hcf, Share.held_put_ne _ hcd]
  exact hw

theorem safe_enqueue_settle {q : FifoList} {fr : Frame} (hx : Settles l g q d f x z fr)
    {Q : Unit → Local → Share → Prop}
    (hq : ∀ l', Kept l l' → Q () l' ((g.put d none).put f (some { z with stake := some fr }))) :
    (owning n frames).Safe t (enqueueFifoThen q d (·.settleExchange d f)) Q l g := by
  apply safe_atomic.mpr
  apply owned_action
  intro s ls G hi hl hg
  subst hl hg
  obtain ⟨hnone, -⟩ := hi.inHand (Owned.held_of_share hx.gives.held)
  rw [show (s.list d).isNone = true by rw [hnone]; rfl, if_pos rfl]
  have hok := (hi.locals t).settle
    (m := ((Threads.Ctx.enqueue ⟨s, ls t⟩ q d).settleExchange d f).loc)
    (y := { z with stake := some fr }) hx.ne hx.gives.held hx.stake hx.held (by rw [hx.other]; rfl)
    (o := none) (fun w hw => by cases hw) rfl rfl rfl (hi.backed_settled hx _)
  obtain ⟨G', hi', hothers, hput⟩ := hi.settle
    (e := (Threads.Ctx.enqueue ⟨s, ls t⟩ q d).settleExchange d f)
    (y := { z with stake := some fr }) hx ⟨rfl, rfl, rfl, rfl, rfl⟩ rfl rfl rfl rfl rfl rfl rfl hok
  refine ⟨G', hi', hothers, ?_⟩
  rw [hput]
  exact hq _ ⟨rfl, rfl⟩

/-- Both sides of an exchange leave it at once. -/
theorem safe_enqueue_settle_leave {q : FifoList} {fr : Frame} (hx : Settles l g q d f x z fr)
    (hz : z.offset = fr) {Q : Unit → Local → Share → Prop}
    (hq : ∀ l', Kept l l' → Q () l' ((g.put d none).put f (some { z with stake := none }))) :
    (owning n frames).Safe t (enqueueFifoThen q d fun e => (e.settleExchange d f).leaveExchange f)
      Q l g := by
  apply safe_atomic.mpr
  apply owned_action
  intro s ls G hi hl hg
  subst hl hg
  obtain ⟨hnone, -⟩ := hi.inHand (Owned.held_of_share hx.gives.held)
  rw [show (s.list d).isNone = true by rw [hnone]; rfl, if_pos rfl]
  have hok₁ := (hi.locals t).settle
    (m := ((Threads.Ctx.enqueue ⟨s, ls t⟩ q d).settleExchange d f).loc)
    (y := { z with stake := some fr }) hx.ne hx.gives.held hx.stake hx.held (by rw [hx.other]; rfl)
    (o := none) (fun w hw => by cases hw) rfl rfl rfl (hi.backed_settled hx _)
  have hput₂ : (((G.share t).put d none).put f (some { z with stake := some fr })).put f
      (some { z with stake := none }) =
      ((G.share t).put d none).put f (some { z with stake := none }) := Share.put_put ..
  have hok := hok₁.leave
    (m := (((Threads.Ctx.enqueue ⟨s, ls t⟩ q d).settleExchange d f).leaveExchange f).loc) (d := f)
    (o := some { z with stake := none }) (fun w hw => by cases hw; rfl) rfl rfl (fun r hr => by
      rw [hput₂]
      exact hi.backed_settled hx _ r hr)
  rw [hput₂] at hok
  obtain ⟨G', hi', hothers, hput⟩ :=
    hi.settle (e := ((Threads.Ctx.enqueue ⟨s, ls t⟩ q d).settleExchange d f).leaveExchange f)
      (y := { z with stake := none }) hx ⟨rfl, rfl, rfl, rfl, rfl⟩ hz rfl rfl rfl rfl rfl rfl hok
  refine ⟨G', hi', hothers, ?_⟩
  rw [hput]
  exact hq _ ⟨rfl, rfl⟩

/-! Changing descriptors in hand. -/

/-- A change of a descriptor in hand that fits what its thread knows before and after it. -/
structure Revised (x y : Hold) (p p' : UserPage) : Prop where
  va : p'.va = y.va
  offset : p'.virtualOffset = y.offset
  inDram : y.inDram = true → p'.inDram = true
  /-- The flags of a page that others may know stay set. -/
  flags : x.va = 0 ∨ x.clear = true ∨ p'.va = p.va ∧ (p.migrating = true → p'.migrating = true) ∧
    (p.swappedOut = true → p'.swappedOut = true)
  clear : y.clear = true → (x.va = 0 ∨ x.clear = true) ∧ p'.swappedOut = false
  addr : y.va = x.va ∧ y.hashed = x.hashed ∨ y.hashed = false ∧ x.va = 0

/-- What is known of a descriptor in hand. -/
structure Hold.Knows (x : Hold) (p : UserPage) : Prop where
  va : p.va = x.va
  offset : p.virtualOffset = x.offset
  inDram : x.inDram = true → p.inDram = true
  clear : x.clear = true → p.swappedOut = false

theorem Owned.knows (h : Owned n frames s ls G) (hx : G.held d = some (t, x)) :
    x.Knows (s.page d) :=
  ⟨(h.inHand hx).2.1, (h.inHand hx).2.2, h.inDram hx,
    fun hc => ((h.good d (h.lt_of_held hx)).clear t x hx hc).1⟩

/-- The step that changes a descriptor in hand. -/
theorem Owned.revise (h : Owned n frames s ls G) (hx : (G.share t).held d = some x) {p' : UserPage}
    (hr : Revised x y (s.page d) p') (hframe : y.frame = x.frame) (hf : e.sh.fifos = s.fifos)
    (hpage : e.sh.page = Function.update s.page d p') (hp : e.sh.pages = s.pages)
    (hl : e.sh.allocatorLock = s.allocatorLock) (hring : e.loc.ring = (ls t).ring)
    (hm : e.loc.examining = (ls t).examining) (hok : e.loc.Ok ((G.share t).put d (some y))) :
    ∃ G', Owned n frames e.sh (Function.update ls t e.loc) G' ∧
      (∀ u, u ≠ t → G'.share u = G.share u) ∧ G'.share t = (G.share t).put d (some y) := by
  have hxt : G.held d = some (t, x) := Owned.held_of_share hx
  obtain ⟨hnone, hva, -⟩ := h.inHand hxt
  have hlist (c : PageId) : e.sh.list c = s.list c := congrArg (·.tag c) hf
  have hself : (G.put t d (some y)).held d = some (t, y) := Function.update_self ..
  have hpd : e.sh.page d = p' := by rw [hpage, Function.update_self]
  have hothers (u : Tid) (hu : u ≠ t) : (G.put t d (some y)).share u = G.share u :=
    Ledger.share_put_ne hu (mine_of_some hx) _
  have hT : Touch d s (ls t) e :=
    ⟨fun c hc => by rw [hpage, Function.update_of_ne hc], fun c _ => hlist c, hp, hl, hring, hm⟩
  have hlt := h.lt_of_held hxt
  have hg := h.good d hlt
  have hfree (hq : x.va = 0 ∨ x.clear = true) : G.busy d = none ∧ ∀ u, G.late d u = false := by
    rcases hq with hz | hc
    · exact h.blank hlt (hva.trans hz)
    · exact (hg.clear t x hxt hc).2
  have hgood : (entryOf e.sh (G.put t d (some y)) d).Good := by
    unfold entryOf
    rw [hlist, hnone, hself, hpd]
    refine ⟨⟨hr.va, hr.offset⟩, fun hi => ?_, fun hb => ?_, fun u hu => ?_, fun u w hw hc => ?_,
      fun _ _ _ hq => by cases hq⟩
    · rcases hi with hi | ⟨u, w, hw, hi⟩
      · cases hi
      · cases hw
        exact hr.inDram hi
    · rcases hr.flags with hz | hc | ⟨hv, hmig, hout⟩
      · exact absurd (hfree (.inl hz)).1 hb
      · exact absurd (hfree (.inr hc)).1 hb
      · obtain ⟨h₁, h₂, h₃⟩ := hg.flags hb
        exact ⟨hmig h₁, hout h₂, fun hz => h₃ (hv.symm.trans hz)⟩
    · rcases hr.flags with hz | hc | ⟨hv, -⟩
      · exact absurd ((hfree (.inl hz)).2 u).symm (by rw [show G.late d u = true from hu]; decide)
      · exact absurd ((hfree (.inr hc)).2 u).symm (by rw [show G.late d u = true from hu]; decide)
      · exact fun hz => hg.late u hu (hv.symm.trans hz)
    · cases hw
      obtain ⟨hq, hout⟩ := hr.clear hc
      exact ⟨hout, (hfree hq).1, (hfree hq).2⟩
  have hframe' : (entryOf e.sh (G.put t d (some y)) d).frame = (entryOf s G d).frame := by
    unfold entryOf Entry.frame
    rw [hself, hxt]
    exact hframe
  have haddr : (e.sh.page d).va = (s.page d).va ∧
      (entryOf e.sh (G.put t d (some y)) d).hashed = (entryOf s G d).hashed ∨
      (entryOf e.sh (G.put t d (some y)) d).hashed = false ∧ (s.page d).va = 0 := by
    unfold entryOf Entry.hashed
    rw [hself, hxt, hpd, hr.va, hva]
    exact hr.addr
  refine ⟨G.put t d (some y), ?_, hothers, G.share_put _⟩
  exact h.one hT hlt (fun c hc => Ledger.Same.put G hc _) hgood hframe' haddr rfl hothers
    (by rw [G.share_put]; exact hok)

/-- A descriptor in hand is rewritten; its place in the exchange stays. -/
theorem safe_revise {F : UserPage → UserPage} (aux : Env → Env)
    (haux : ∀ e, Beside e (aux e) ∧ (aux e).loc.exchange = e.loc.exchange) (hx : g.held d = some x)
    (y : Hold) (hs : y.stake = x.stake) (ho : x.stake = none → y.offset = x.offset)
    (hF : ∀ p, x.Knows p → Revised x y p (F p)) {Q : Unit → Local → Share → Prop}
    (hq : ∀ l', Kept l l' → Q () l' (g.put d (some y))) :
    (owning n frames).Safe t (Prog.modify fun e => aux (e.setPage d F)) Q l g := by
  apply safe_atomic.mpr
  apply owned_action
  intro s ls G hi hl hg
  subst hl hg
  obtain ⟨hb, he⟩ := haux (Threads.Ctx.setPage ⟨s, ls t⟩ d F)
  have hframe : y.frame = x.frame := by
    unfold Hold.frame
    rw [hs]
    cases hxs : x.stake with
    | none => exact ho hxs
    | some fr => rfl
  obtain ⟨G', hi', hothers, hput⟩ := hi.revise hx (hF _ (hi.knows (Owned.held_of_share hx))) hframe
    hb.fifos hb.page hb.pages hb.lock hb.ring hb.examining ((hi.locals t).put_same hx hs he hb.ring)
  refine ⟨G', hi', hothers, ?_⟩
  rw [hput]
  exact hq _ ⟨hb.ring, hb.examining⟩

theorem safe_setPage {F : UserPage → UserPage} (hx : g.held d = some x) (y : Hold)
    (hs : y.stake = x.stake) (ho : x.stake = none → y.offset = x.offset)
    (hF : ∀ p, x.Knows p → Revised x y p (F p)) {Q : Unit → Local → Share → Prop}
    (hq : ∀ l', Kept l l' → Q () l' (g.put d (some y))) :
    (owning n frames).Safe t (setPage d F) Q l g :=
  safe_revise id (fun e => ⟨Beside.refl e, rfl⟩) hx y hs ho hF hq

/-- A descriptor in hand gets its final frame and leaves the exchange. -/
theorem safe_revise_leave {F : UserPage → UserPage} (hx : g.held d = some x) (y : Hold)
    (hs : y.stake = none) (ho : x.stake = some y.offset) (hsp : l.Spares y.offset)
    (hF : ∀ p, x.Knows p → Revised x y p (F p)) {Q : Unit → Local → Share → Prop}
    (hq : ∀ l', Kept l l' → Q () l' (g.put d (some y))) :
    (owning n frames).Safe t (Prog.modify fun e => (e.setPage d F).leaveExchange d) Q l g := by
  apply safe_atomic.mpr
  apply owned_action
  intro s ls G hi hl hg
  subst hl hg
  have hframe : y.frame = x.frame := by rw [Hold.frame, Hold.frame, hs, ho]; rfl
  have hok := (hi.locals t).leave
    (m := ((Threads.Ctx.setPage ⟨s, ls t⟩ d F).leaveExchange d).loc) (d := d) (o := some y)
    (fun w hw => by cases hw; exact hs) rfl rfl (fun r hr => by
      obtain ⟨c, w, hw, hws⟩ := (hi.locals t).backed r hr
      refine ⟨c, w, ?_, hws⟩
      rw [Share.held_put_ne]
      · exact hw
      · rintro rfl
        rw [hx] at hw
        cases hw
        rw [ho] at hws
        exact hsp r hr (Option.some.inj hws))
  obtain ⟨G', hi', hothers, hput⟩ :=
    hi.revise (e := (Threads.Ctx.setPage ⟨s, ls t⟩ d F).leaveExchange d) hx
      (hF _ (hi.knows (Owned.held_of_share hx))) hframe rfl rfl rfl rfl rfl rfl hok
  refine ⟨G', hi', hothers, ?_⟩
  rw [hput]
  exact hq _ ⟨rfl, rfl⟩

/-- A descriptor in hand joins the exchange. -/
theorem safe_joinExchange (hx : g.held d = some x)
    (hs : x.stake = none) {Q : Unit → Local → Share → Prop}
    (hq : ∀ l', Kept l l' → Q () l' (g.put d (some { x with stake := some x.offset }))) :
    (owning n frames).Safe t (Prog.modify (·.joinExchange d)) Q l g := by
  apply safe_atomic.mpr
  apply owned_action
  intro s ls G hi hl hg
  subst hl hg
  have hk := hi.knows (Owned.held_of_share hx)
  have hok := (hi.locals t).join (m := (Threads.Ctx.joinExchange ⟨s, ls t⟩ d).loc) (d := d)
    (y := { x with stake := some x.offset })
    (fun w hw => by rw [hx] at hw; cases hw; exact hs) rfl (by rw [← hk.offset]; rfl) rfl
  have hrev : Revised x { x with stake := some x.offset } (s.page d) (s.page d) :=
    ⟨hk.va, hk.offset, hk.inDram, .inr (.inr ⟨rfl, id, id⟩), fun hc => ⟨.inr hc, hk.clear hc⟩,
      .inl ⟨rfl, rfl⟩⟩
  obtain ⟨G', hi', hothers, hput⟩ := hi.revise (e := Threads.Ctx.joinExchange ⟨s, ls t⟩ d) hx hrev
    (by rw [Hold.frame, Hold.frame, hs]; rfl) rfl
    (by rw [Function.update_eq_self]; rfl) rfl rfl rfl rfl hok
  refine ⟨G', hi', hothers, ?_⟩
  rw [hput]
  exact hq _ ⟨rfl, rfl⟩

/-- A descriptor in hand has the fields that its thread knows. -/
theorem safe_assertKnown {c : UserPage → Bool} {why : Abort} (hx : g.held d = some x)
    (hc : ∀ p, x.Knows p → c p = true) {k : Unit → Paging α} {Q : α → Local → Share → Prop}
    (hq : (owning n frames).Safe t (k ()) Q l g) :
    (owning n frames).Safe t (assertPage d c why >>= k) Q l g := by
  refine safe_bind (safe_assert (fun s ls G hi hl hg => ?_) hq)
  rw [← hg] at hx
  exact hc _ (hi.knows (Owned.held_of_share hx))

/-- A descriptor in hand is on no list. -/
theorem safe_assertUnlisted {why : Abort} (hx : g.held d = some x) {k : Unit → Paging α}
    {Q : α → Local → Share → Prop} (hq : (owning n frames).Safe t (k ()) Q l g) :
    (owning n frames).Safe t (assertList d (·.isNone) why >>= k) Q l g := by
  refine safe_bind (safe_assert (fun s ls G hi hl hg => ?_) hq)
  rw [← hg] at hx
  show (s.list d).isNone = true
  rw [(hi.inHand (Owned.held_of_share hx)).1]
  rfl

/-- The offset of a descriptor in hand is as its thread knows it. -/
theorem safe_offset (hx : g.held d = some x) {Q : Frame → Local → Share → Prop}
    (hq : Q x.offset l g) : (owning n frames).Safe t (field d (·.virtualOffset)) Q l g := by
  apply safe_atomic.mpr
  apply owned_action
  intro s ls G hi hl hg
  subst hl hg
  refine ⟨G, by rw [Function.update_eq_self]; exact hi, fun _ _ => rfl, ?_⟩
  have hoff : (s.page d).virtualOffset = x.offset := (hi.knows (Owned.held_of_share hx)).offset
  show Q (s.page d).virtualOffset (ls t) (G.share t)
  rw [hoff]
  exact hq

end ExtMem
