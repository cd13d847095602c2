import ExtMem.Ownership.Evict

/-! The eviction of a batch: the victims and the disk descriptors of a batch are all in the thread's
hands at once. -/
namespace ExtMem
open Threads Threads.Prog Threads.Outline

variable {n : Nat} {frames : List Frame} {s : Shared} {ls : Tid → Local} {G : Ledger} {t : Tid}
  {l l' : Local} {g g₀ : Share}
  {d f : PageId} {b : Ring} {S : List PageId} {α β γ : Type}

/-- An action that does one thing and then another. -/
structure InTurn (F : Env → Outcome Abort Env γ) (f : Env → Outcome Abort Env β)
    (f' : Env → Outcome Abort Env γ) : Prop where
  ok : ∀ e c e', f e = .ok c e' → F e = f' e'
  wait : ∀ e, f e = .wait → F e = .wait
  abort : ∀ e why, f e = .abort why → F e = .abort why

theorem InTurn.action {F : Env → Outcome Abort Env γ} {f : Env → Outcome Abort Env β}
    {f' : Env → Outcome Abort Env γ} (hF : InTurn F f f') {Q : γ → Local → Share → Prop}
    (h : (owning n frames).Action t f (fun _ l g => (owning n frames).Action t f' Q l g) l g) :
    (owning n frames).Action t F Q l g := by
  intro s ls G hi hl hg
  have hs := h s ls G hi hl hg
  cases hf : f ⟨s, l⟩ with
  | wait =>
    rw [hF.wait _ hf]
    trivial
  | abort why =>
    rw [hF.abort _ why hf]
    rw [hf] at hs
    exact hs
  | ok c e =>
    rw [hF.ok _ c e hf]
    rw [hf] at hs
    obtain ⟨G₁, hi₁, hothers₁, hq₁⟩ := hs trivial
    have hs' := hq₁ e.sh (Function.update ls t e.loc) G₁ hi₁ (Function.update_self ..) rfl
    rw [show (⟨e.sh, e.loc⟩ : Env) = e from rfl] at hs'
    cases hf' : f' e with
    | wait => trivial
    | abort why =>
      rw [hf'] at hs'
      exact hs'
    | ok c' e₂ =>
      rw [hf'] at hs'
      obtain ⟨G₂, hi₂, hothers₂, hq₂⟩ := hs' trivial
      rw [Function.update_idem] at hi₂
      exact fun _ => ⟨G₂, hi₂, fun u hu => (hothers₂ u hu).trans (hothers₁ u hu), hq₂⟩

/-- The first page of a batch is marked, and then the others. -/
theorem inTurn_markAllSwappedOut (x : Slot) (batch : List Slot) :
    InTurn (markAllSwappedOut (x :: batch)) (markSwappedOut x.victim)
      (markAllSwappedOut batch) := by
  refine ⟨fun e c e' h => ?_, fun e h => ?_, fun e why h => ?_⟩ <;> rw [markAllSwappedOut, h]

/-! Several descriptors in hand. -/

/-- A share has some descriptors more in hand than another one, and differs from it in these
alone. -/
structure Collected (g₀ : Share) (S : List PageId) (g : Share) : Prop where
  nodup : S.Nodup
  free : ∀ e ∈ S, g₀.held e = none
  held : ∀ e, e ∉ S → g.held e = g₀.held e
  busy : g.busy = g₀.busy
  late : g.late = g₀.late
  hash : g.hash = g₀.hash

namespace Collected

theorem nil (g : Share) : Collected g [] g := ⟨List.nodup_nil, nofun, fun _ _ => rfl, rfl, rfl, rfl⟩

theorem perm {S' : List PageId} (h : Collected g₀ S g) (hp : S.Perm S') : Collected g₀ S' g :=
  ⟨hp.nodup_iff.mp h.nodup, fun e he => h.free e (hp.mem_iff.mpr he),
    fun e he => h.held e fun hs => he (hp.mem_iff.mp hs), h.busy, h.late, h.hash⟩

/-- A descriptor that is in hand anyway changes. -/
theorem put (h : Collected g₀ S g) (hd : d ∈ S) (o : Option Hold) : Collected g₀ S (g.put d o) := by
  refine ⟨h.nodup, h.free, fun e he => ?_, h.busy, h.late, h.hash⟩
  rw [Share.held_put_ne]
  · exact h.held e he
  · rintro rfl
    exact he hd

/-- A descriptor that was in nobody's hands is taken. -/
theorem cons (h : Collected g₀ S g) (hs : ∀ e ∈ S, g.held e ≠ none) (hd : g.held d = none)
    (o : Option Hold) : Collected g₀ (d :: S) (g.put d o) := by
  have hdS : d ∉ S := fun hm => hs d hm hd
  refine ⟨List.nodup_cons.mpr ⟨hdS, h.nodup⟩, fun e he => ?_, fun e he => ?_, h.busy, h.late,
    h.hash⟩
  · rcases List.mem_cons.mp he with rfl | he
    · rw [← h.held e hdS]
      exact hd
    · exact h.free e he
  · rw [List.mem_cons, not_or] at he
    rw [Share.held_put_ne _ he.1]
    exact h.held e he.2

/-- With nothing more in hand the shares are the same. -/
theorem eq (h : Collected g₀ [] g) : g = g₀ :=
  Share.ext (funext fun e => h.held e nofun) h.busy h.late h.hash

end Collected

/-! The victims of a batch. -/

theorem Owned.takeVector (h : Owned n frames s ls G) {q : FifoList}
    (k : Nat) {e : Env} (he : e = ⟨s, ls t⟩) :
    ∃ G', Owned n frames (Threads.Ctx.dequeueVector q takeVictim k e).1.sh
        (Function.update ls t (Threads.Ctx.dequeueVector q takeVictim k e).1.loc) G' ∧
      (∀ u, u ≠ t → G'.share u = G.share u) ∧
      Kept e.loc (Threads.Ctx.dequeueVector q takeVictim k e).1.loc ∧
      Collected (G.share t) (Threads.Ctx.dequeueVector q takeVictim k e).2 (G'.share t) ∧
      ∀ d ∈ (Threads.Ctx.dequeueVector q takeVictim k e).2,
      ∃ x, (G'.share t).held d = some x ∧ TakenOff true q x := by
  induction k generalizing s ls G e with
  | zero =>
    subst he
    exact ⟨G, by rw [Threads.Ctx.dequeueVector, Function.update_eq_self]; exact h,
      fun _ _ => rfl, Kept.refl _, Collected.nil _, nofun⟩
  | succ k ih =>
    subst he
    unfold Threads.Ctx.dequeueVector
    cases hs : s.fifos.seq q with
    | nil =>
      exact ⟨G, by rw [Function.update_eq_self]; exact h, fun _ _ => rfl, Kept.refl _,
        Collected.nil _, nofun⟩
    | cons d ds =>
      dsimp only
      have hd : s.list d = some q := Queues.tag_of_head hs
      obtain ⟨hb, hx⟩ := taking_victim d (Threads.Ctx.dequeue ⟨s, ls t⟩ q d)
      obtain ⟨x, G₁, htaken, -, hi₁, hothers₁, hput⟩ :=
        h.take hd hb.fifos hb.page hb.pages hb.lock hb.ring hb.examining hx
      obtain ⟨G₂, hi₂, hothers₂, hk, hc, hall⟩ := ih hi₁
        (e := takeVictim d (Threads.Ctx.dequeue ⟨s, ls t⟩ q d)) (by rw [Function.update_self])
      rw [Function.update_idem] at hi₂
      have hnone : (G.share t).held d = none := by
        show mine t (G.held d) = none
        rw [(h.listed hd).1]
        rfl
      have hd₁ : (G₁.share t).held d = some x := by rw [hput, Share.held_put_self]
      have hnot : d ∉ (Threads.Ctx.dequeueVector q takeVictim k
          (takeVictim d (Threads.Ctx.dequeue ⟨s, ls t⟩ q d))).2 := by
        intro hm
        rw [hc.free d hm] at hd₁
        cases hd₁
      refine ⟨G₂, hi₂, fun u hu => (hothers₂ u hu).trans (hothers₁ u hu),
        Kept.trans ⟨hb.ring, hb.examining⟩ hk, ?_, fun e he => ?_⟩
      · refine ⟨List.nodup_cons.mpr ⟨hnot, hc.nodup⟩, fun e he => ?_, fun e he => ?_, ?_, ?_, ?_⟩
        · rcases List.mem_cons.mp he with rfl | he
          · exact hnone
          · have hf := hc.free e he
            rwa [hput, Share.held_put_ne] at hf
            rintro rfl
            exact hnot he
        · rw [List.mem_cons, not_or] at he
          rw [hc.held e he.2, hput, Share.held_put_ne _ he.1]
        · rw [hc.busy, hput]
          rfl
        · rw [hc.late, hput]
          rfl
        · rw [hc.hash, hput]
          rfl
      · rcases List.mem_cons.mp he with rfl | he
        · exact ⟨x, (hc.held e hnot).trans hd₁, htaken⟩
        · exact hall e he

theorem safe_dequeueVector {k : Nat} {Q : List PageId → Local → Share → Prop}
    (hq : ∀ ds l' g', Collected g ds g' →
      (∀ d ∈ ds, ∃ x, g'.held d = some x ∧ x.Victim) → Kept l l' → Q ds l' g') :
    (owning n frames).Safe t (dequeueFifoVectorThen .evictionList k takeVictim) Q l g := by
  apply safe_atomic.mpr
  apply owned_action
  intro s ls G hi hl hg
  subst hl hg
  obtain ⟨G', hi', hothers, hk, hc, hall⟩ := hi.takeVector (t := t) (q := .evictionList) k rfl
  refine ⟨G', hi', hothers, hq _ _ _ hc (fun d hd => ?_) hk⟩
  obtain ⟨x, hx, htaken⟩ := hall d hd
  exact ⟨x, hx, htaken.victim⟩

/-- The loop that marks and protects the victims tells their frames. -/
theorem safe_prepareVictims {victims : List PageId} (hc : Calls b l)
    (hall : ∀ d ∈ victims, ∃ x, g.held d = some x ∧ x.Victim) :
    (owning n frames).Safe t (Prog.collect prepareVictim victims) (fun xs l' g' =>
      xs.map (·.1) = victims ∧ (∀ p ∈ xs, ∃ x, g.held p.1 = some x ∧ x.Victim ∧ x.offset = p.2.1) ∧
      Idled b g l' g') l g := by
  refine safe_collect (fun todo done l' g' => done.map (·.1) ++ todo = victims ∧
    (∀ p ∈ done, ∃ x, g.held p.1 = some x ∧ x.Victim ∧ x.offset = p.2.1) ∧ Idled b g l' g')
    ⟨rfl, nofun, hc, rfl⟩ ?_ ?_
  · rintro d todo done l₁ g₁ ⟨hv, hdone, hc₁, rfl⟩
    obtain ⟨x, hx, hvx⟩ := hall d (by rw [← hv]; exact List.mem_append_right _ List.mem_cons_self)
    refine safe_skip (by simp) fun _ l₂ h₂ =>
      safe_bind (safe_offset hx (safe_skip (by simp) fun wb l₃ h₃ => ?_))
    refine ⟨by simpa using hv, fun p hp => ?_, (hc₁.kept h₂).kept h₃, rfl⟩
    rcases List.mem_append.mp hp with hp | hp
    · exact hdone p hp
    · obtain rfl := List.mem_singleton.mp hp
      exact ⟨x, hx, hvx, rfl⟩
  · rintro done l₁ g₁ ⟨hv, hdone, hr⟩
    exact ⟨by simpa using hv, hdone, hr⟩

/-! The slots of a batch. -/

def Slot.pages (x : Slot) : List PageId := [x.victim, x.diskpage]

/-- A victim and its disk descriptor as they were when they were taken. -/
structure Slot.Pair (x : Slot) (b : Ring) (v y : Hold) : Prop where
  isVictim : v.Victim
  isDisk : y.Disk
  old : v.offset = x.oldOffset
  spares : b.Spares y.offset

/-- Both are in a thread's hands. -/
structure Slot.Taken (x : Slot) (b : Ring) (g : Share) (v y : Hold) : Prop where
  pair : x.Pair b v y
  victim : g.held x.victim = some v
  disk : g.held x.diskpage = some y

/-- The victim has the disk frame now. -/
structure Slot.Emptied (x : Slot) (b : Ring) (g : Share) (v y : Hold) : Prop where
  pair : x.Pair b v y
  victim : g.held x.victim = some (v.moved y.offset)
  disk : g.held x.diskpage = some y

/-- The loop that takes the disk descriptors of the victims. -/
theorem safe_findDiskpages {xs : List (PageId × Frame × Bool)}
    (hc : Calls b l) (hg : Collected g₀ (xs.map (·.1)) g)
    (hall : ∀ p ∈ xs, ∃ x, g.held p.1 = some x ∧ x.Victim ∧ x.offset = p.2.1) :
    (owning n frames).Safe t (Prog.collect findDiskpage xs) (fun batch l' g' => Calls b l' ∧
      Collected g₀ (batch.flatMap Slot.pages) g' ∧ ∀ x ∈ batch, ∃ v y, x.Taken b g' v y) l g := by
  let J (todo : List (PageId × Frame × Bool)) (done : List Slot) (l' : Local) (g' : Share) : Prop :=
    Calls b l' ∧ Collected g₀ (done.flatMap Slot.pages ++ todo.map (·.1)) g' ∧
      (∀ x ∈ done, ∃ v y, x.Taken b g' v y) ∧
      ∀ p ∈ todo, ∃ x, g'.held p.1 = some x ∧ x.Victim ∧ x.offset = p.2.1
  refine safe_collect J ⟨hc, hg, nofun, hall⟩ ?_ ?_
  · rintro p todo done l₁ g₁ ⟨hc₁, hg₁, hdone, htodo⟩
    have htake (f : PageId) (y : Hold) (l₂ : Local) (hf : g₁.held f = none) (hy : y.Disk)
        (hs : b.Spares y.offset) (h₂ : Calls b l₂) :
        J todo (done ++ [⟨p.1, p.2.1, p.2.2, f⟩]) l₂ (g₁.put f (some y)) := by
      have hne {c : PageId} {x : Hold} (hx : g₁.held c = some x) :
          (g₁.put f (some y)).held c = some x := by
        rw [Share.held_put_ne]
        · exact hx
        · rintro rfl
          rw [hf] at hx
          cases hx
      have hheld (e : PageId) (he : e ∈ done.flatMap Slot.pages ++ (p :: todo).map (·.1)) :
          g₁.held e ≠ none := by
        rcases List.mem_append.mp he with he | he
        · obtain ⟨x, hx, hxe⟩ := List.mem_flatMap.mp he
          obtain ⟨v, y', hxt⟩ := hdone x hx
          rcases List.mem_cons.mp hxe with rfl | hxe
          · rw [hxt.victim]
            nofun
          · obtain rfl := List.mem_singleton.mp hxe
            rw [hxt.disk]
            nofun
        · obtain ⟨q, hq, rfl⟩ := List.mem_map.mp he
          obtain ⟨x, hx, -⟩ := htodo q hq
          rw [hx]
          nofun
      refine ⟨h₂, ?_, fun x hx => ?_, fun q hq => ?_⟩
      · apply (hg₁.cons hheld hf (some y)).perm
        simp only [List.flatMap_append, List.flatMap_cons, List.flatMap_nil, List.append_nil,
          List.map_cons, Slot.pages, List.append_assoc, List.cons_append, List.nil_append]
        exact (List.perm_middle.symm.trans (List.Perm.append_left _ (List.Perm.swap _ _ _)))
      · rcases List.mem_append.mp hx with hx | hx
        · obtain ⟨v, y', hxt⟩ := hdone x hx
          exact ⟨v, y', hxt.pair, hne hxt.victim, hne hxt.disk⟩
        · obtain rfl := List.mem_singleton.mp hx
          obtain ⟨v, hv, hvv, hvo⟩ := htodo p List.mem_cons_self
          exact ⟨v, y, ⟨hvv, hy, hvo, hs⟩, hne hv, Share.held_put_self ..⟩
      · obtain ⟨x, hx, hxv⟩ := htodo q (List.mem_cons_of_mem _ hq)
        exact ⟨x, hne hx, hxv⟩
    refine safe_skip (calm_field _ _) fun hasReserve l₂ h₂ =>
      safe_ite (fun _ => safe_bind ?_) fun _ => safe_bind ?_
    · refine safe_takeReserve fun f y l₃ hf hy hs h₃ => ?_
      have hc₂ := hc₁.kept h₂
      exact htake f y l₃ hf hy (hc₂.spares_iff.mp hs) (hc₂.kept h₃)
    · refine safe_takeDiskFree fun f y l₃ hf hy hs h₃ => ?_
      have hc₂ := hc₁.kept h₂
      exact htake f y l₃ hf hy (hc₂.spares_iff.mp hs) (hc₂.kept h₃)
  · rintro done l₁ g₁ ⟨hc₁, hg₁, hdone, -⟩
    exact ⟨hc₁, by simpa using hg₁, hdone⟩

/-! The transfers of a batch. -/

/-- So many writes are prepared and none is submitted. -/
structure Prepared (b : Ring) (k : Nat) (l : Local) : Prop where
  init : (l.ring .ioRing).init = true ∨ k = 0
  outstanding : (l.ring .ioRing).outstanding = []
  sq : (l.ring .ioRing).sq.length = k
  read : l.ring .ioReadRing = b

theorem Prepared.kept {k : Nat} (h : Prepared b k l) (hk : Kept l l') : Prepared b k l' := by
  refine ⟨?_, ?_, ?_, ?_⟩
  all_goals rw [hk.ring]
  · exact h.init
  · exact h.outstanding
  · exact h.sq
  · exact h.read

/-- A prepared write goes to the frame of its own disk descriptor, and to no other one's. -/
theorem safe_prepareSlots {batch : List Slot} (hc : Calls b l) (hg : g.Distinct)
    (hn : (batch.map (·.diskpage)).Nodup) (hall : ∀ x ∈ batch, ∃ v y, x.Taken b g v y) :
    (owning n frames).Safe t (Prog.collect prepareSlot batch)
      (fun written l' g' => Prepared b (written.filter id).length l' ∧ g' = g) l g := by
  let J (todo : List Slot) (written : List Bool) (l' : Local) (g' : Share) : Prop :=
    (Prepared b (written.filter id).length l' ∧ g' = g) ∧
      (∀ x ∈ todo, ∃ v y, x.Taken b g v y ∧ l'.Spares y.offset) ∧ (todo.map (·.diskpage)).Nodup
  have hstart (x : Slot) (hx : x ∈ batch) : ∃ v y, x.Taken b g v y ∧ l.Spares y.offset := by
    obtain ⟨v, y, h⟩ := hall x hx
    exact ⟨v, y, h, hc.spares_iff.mpr h.pair.spares⟩
  refine safe_collect J ⟨⟨⟨.inr rfl, hc.write.2, by rw [hc.write.1]; rfl, hc.read⟩, rfl⟩, hstart,
    hn⟩ ?_ fun written l₁ g₁ h => h.1
  rintro x todo written l₁ g₁ ⟨⟨hp, rfl⟩, htodo, hnd⟩
  obtain ⟨v, y, hx, hs⟩ := htodo x List.mem_cons_self
  obtain ⟨hxn, hnd'⟩ := List.nodup_cons.mp hnd
  refine safe_skip (calm_assertPage _ _ nofun) fun _ l₂ h₂ => safe_ite (fun _ => ?_) fun _ => ?_
  · refine safe_bind (safe_offset hx.disk
      (safe_skip (calm_field _ _) fun va l₃ h₃ => safe_skip (by simp) fun _ l₄ h₄ => ?_))
    have hk := (h₂.trans h₃).trans h₄
    have hp₄ := hp.kept hk
    have hr : (l₄.ring .ioRing).init = true ∨ (l₄.ring .ioRing).Idle := by
      rcases hp₄.init with hi | hz
      · exact .inl hi
      · exact .inr ⟨List.eq_nil_of_length_eq_zero (hp₄.sq.trans hz), hp₄.outstanding⟩
    refine safe_bind (safe_bind (safe_initOnce hr fun l₅ h₅ => ?_))
    have hspares (fr : Frame) (hf : l₁.Spares fr) : l₅.Spares fr :=
      h₅.spares (fun q hq => hq) (hf.congr hk.ring)
    refine safe_prep (Share.backs_of hx.disk hx.pair.isDisk)
      (by rw [frame_of_disk hx.pair.isDisk.disk]; exact hspares _ hs) fun l₆ h₆ => ?_
    have hring : l₆.ring .ioRing =
        ⟨true, (l₄.ring .ioRing).sq ++ [⟨true, y.offset.offset, .user va, pageSize⟩], []⟩ := by
      rw [h₆.ring, h₅.ring]
      exact congrArg (Ring.mk true _) hp₄.outstanding
    refine ⟨⟨⟨.inl (by rw [hring]), by rw [hring], ?_, ?_⟩, rfl⟩, fun z hz => ?_, hnd'⟩
    · rw [hring]
      simp [hp₄.sq]
    · exact h₆.other.trans (h₅.other.trans hp₄.read)
    · obtain ⟨w, y', hz', hs'⟩ := htodo z (List.mem_cons_of_mem _ hz)
      refine ⟨w, y', hz',
        h₆.spares_more (fun q hq => Ring.mem_requests_append hq) (hspares _ hs') fun hf => ?_⟩
      have hsame : y.frame = y'.frame := by
        rw [hx.pair.isDisk.frame, hz'.pair.isDisk.frame, hf]
        exact (frame_of_disk hx.pair.isDisk.disk).symm
      exact hxn (List.mem_map.mpr ⟨z, hz, (hg _ _ _ _ hx.disk hz'.disk hsame).symm⟩)
  · refine ⟨⟨?_, rfl⟩, fun z hz => ?_, hnd'⟩
    · have hp₂ := hp.kept h₂
      simpa using hp₂
    · obtain ⟨w, y', hz', hs'⟩ := htodo z (List.mem_cons_of_mem _ hz)
      exact ⟨w, y', hz', hs'.congr h₂.ring⟩

/-- The prepared writes are submitted and waited for one by one. -/
theorem safe_submitWrites {written : List β} (hp : Prepared b written.length l')
    {k : Unit → Paging α}
    {Q : α → Local → Share → Prop}
    (hq : ∀ l₁, Calls b l₁ → (owning n frames).Safe t (k ()) Q l₁ g) : (owning n frames).Safe t (do
      ioringSubmitAllWrites
      Prog.each (fun _ => ioringFinishWrite) written
      k ()) Q l' g := by
  refine safe_bind (safe_submit fun l₁ h₁ => safe_bind ?_)
  let J (todo : List β) (l₂ : Local) (g₂ : Share) : Prop :=
    ((l₂.ring .ioRing).sq = [] ∧ (l₂.ring .ioRing).outstanding.length = todo.length) ∧
      l₂.ring .ioReadRing = b ∧ g₂ = g
  have hstart : J written l₁ g := by
    refine ⟨⟨?_, ?_⟩, h₁.other.trans hp.read, rfl⟩
    · rw [h₁.ring]
    · rw [h₁.ring, hp.outstanding]
      exact hp.sq
  refine safe_each J hstart ?_ ?_
  · rintro c todo l₂ g₂ ⟨⟨hsq, hout⟩, hb, rfl⟩
    refine safe_wait fun p hmem l₃ h₃ => ⟨⟨?_, ?_⟩, h₃.other.trans hb, rfl⟩
    · rw [h₃.ring]
      exact hsq
    · rw [h₃.ring]
      show ((l₂.ring .ioRing).outstanding.erase p).length = todo.length
      rw [List.length_erase_of_mem hmem, hout]
      rfl
  · rintro l₂ g₂ ⟨⟨hsq, hout⟩, hb, rfl⟩
    exact hq l₂ ⟨⟨hsq, List.eq_nil_of_length_eq_zero hout⟩, hb⟩

/-! The batch after the transfers. -/

/-- The pages of different slots of a batch are different. -/
theorem slots_apart {p todo : List Slot} {x z : Slot}
    (hn : ((p ++ x :: todo).flatMap Slot.pages).Nodup) (hz : z ∈ p ++ todo) {c e : PageId}
    (hc : c ∈ x.pages) (he : e ∈ z.pages) : e ≠ c := by
  have hmid : (p ++ x :: todo).Perm (x :: (p ++ todo)) := List.perm_middle
  have hp := hmid.flatMap_right Slot.pages
  rw [List.flatMap_cons] at hp
  rintro rfl
  exact (List.nodup_append.mp (hp.nodup_iff.mp hn)).2.2 e hc e
    (List.mem_flatMap.mpr ⟨z, hz, he⟩) rfl

theorem Slot.victim_mem (x : Slot) : x.victim ∈ x.pages := List.mem_cons_self

theorem Slot.diskpage_mem (x : Slot) : x.diskpage ∈ x.pages :=
  List.mem_cons_of_mem _ List.mem_cons_self

/-- Each victim gets its disk frame. -/
theorem safe_moveSlots {batch : List Slot} (hc : Calls b l)
    (hg : Collected g₀ (batch.flatMap Slot.pages) g) (hall : ∀ x ∈ batch, ∃ v y, x.Taken b g v y) :
    (owning n frames).Safe t (Prog.each moveSlot batch) (fun _ l' g' => Calls b l' ∧
      Collected g₀ (batch.flatMap Slot.pages) g' ∧ ∀ x ∈ batch, ∃ v y, x.Emptied b g' v y) l g := by
  let J (todo : List Slot) (l' : Local) (g' : Share) : Prop :=
    ∃ done, done ++ todo = batch ∧ Calls b l' ∧ Collected g₀ (batch.flatMap Slot.pages) g' ∧
      (∀ x ∈ done, ∃ v y, x.Emptied b g' v y) ∧ ∀ x ∈ todo, ∃ v y, x.Taken b g' v y
  refine safe_each J ⟨[], rfl, hc, hg, nofun, hall⟩ ?_ ?_
  · rintro x todo l₁ g₁ ⟨done, rfl, hc₁, hg₁, hdone, htodo⟩
    obtain ⟨v, y, hx⟩ := htodo x List.mem_cons_self
    have hnd := hg₁.nodup
    have hne : x.diskpage ≠ x.victim := by
      rintro he
      have hmid : (done ++ x :: todo).Perm (x :: (done ++ todo)) := List.perm_middle
      have hp := hmid.flatMap_right Slot.pages
      rw [List.flatMap_cons] at hp
      have hx' := (List.nodup_append.mp (hp.nodup_iff.mp hnd)).1
      rw [Slot.pages, he] at hx'
      simp at hx'
    have hput {z : Slot} (hz : z ∈ done ++ todo) {e : PageId} (he : e ∈ z.pages) (o : Option Hold) :
        (g₁.put x.victim o).held e = g₁.held e :=
      Share.held_put_ne _ (slots_apart hnd hz x.victim_mem he) o
    refine safe_skip (by simp) fun _ l₂ h₂ => safe_bind (safe_offset hx.disk ?_)
    let k (_ : Unit) : Paging Unit :=
      setStats fun t => { t with bytesMigrated := add64 t.bytesMigrated pageSize }
    refine safe_moveFrame (k := k) hx.victim (by rw [hx.pair.isVictim.stake]; nofun) y.offset
      fun l₃ h₃ => ?_
    refine safe_calm (calm_setStats _) fun _ l₄ h₄ => ?_
    refine ⟨done ++ [x], by simp, ((hc₁.kept h₂).kept h₃).kept h₄, hg₁.put (by simp [Slot.pages]) _,
      fun z hz => ?_, fun z hz => ?_⟩
    · rcases List.mem_append.mp hz with hz | hz
      · obtain ⟨w, y', hw⟩ := hdone z hz
        have hz' := List.mem_append_left todo hz
        exact ⟨w, y', hw.pair, (hput hz' z.victim_mem _).trans hw.victim,
          (hput hz' z.diskpage_mem _).trans hw.disk⟩
      · obtain rfl := List.mem_singleton.mp hz
        exact ⟨v, y, hx.pair, Share.held_put_self .., (Share.held_put_ne _ hne _).trans hx.disk⟩
    · obtain ⟨w, y', hw⟩ := htodo z (List.mem_cons_of_mem _ hz)
      have hz' := List.mem_append_right done hz
      exact ⟨w, y', hw.pair, (hput hz' z.victim_mem _).trans hw.victim,
        (hput hz' z.diskpage_mem _).trans hw.disk⟩
  · rintro l₁ g₁ ⟨done, hd, hc₁, hg₁, hdone, -⟩
    rw [List.append_nil] at hd
    rw [hd] at hdone
    exact ⟨hc₁, hg₁, hdone⟩

/-- The thread owns the flags of all these pages. -/
def Share.markAll (g : Share) (ds : List PageId) : Share :=
    { g with busy := fun e => if e ∈ ds then some .marked else g.busy e }

theorem does_markAllSwappedOut {batch : List Slot} {Q : Unit → Local → Share → Prop}
    (hall : ∀ x ∈ batch, ∃ v, g.held x.victim = some v ∧ v.va ≠ 0 ∧ v.clear = false)
    (hq : ∀ l', (∀ x ∈ batch, g.busy x.victim = none) → Kept l l' →
      Q () l' (g.markAll (batch.map (·.victim)))) :
    (owning n frames).Action t (markAllSwappedOut batch) Q l g := by
  induction batch generalizing l g with
  | nil =>
    apply owned_action
    intro s ls G hi hl hg
    subst hl hg
    refine ⟨G, by rw [Function.update_eq_self]; exact hi, fun _ _ => rfl, ?_⟩
    exact hq (ls t) nofun (Kept.refl _)
  | cons x batch ih =>
    obtain ⟨v, hv, hva, hc⟩ := hall x List.mem_cons_self
    apply (inTurn_markAllSwappedOut x batch).action
    refine does_markSwappedOut hv hva hc fun l₁ hn h₁ => ?_
    refine ih (fun z hz => hall z (List.mem_cons_of_mem _ hz)) fun l₂ hnone h₂ => ?_
    have hne (z : Slot) (hz : z ∈ batch) : z.victim ≠ x.victim := by
      intro he
      have hz' := hnone z hz
      rw [he, Share.busy_mark_self] at hz'
      cases hz'
    have hshare : (g.mark x.victim (some .marked)).markAll (batch.map (·.victim)) =
        g.markAll ((x :: batch).map (·.victim)) := by
      refine Share.ext rfl ?_ rfl rfl
      funext e
      by_cases hm : e ∈ batch.map (·.victim)
      · simp only [Share.markAll, List.map_cons, hm, if_true, List.mem_cons_of_mem _ hm]
      · by_cases he : e = x.victim
        · simp [Share.markAll, he]
        · simp [Share.markAll, Share.mark, he]
    rw [hshare]
    refine hq l₂ (fun z hz => ?_) (h₁.trans h₂)
    rcases List.mem_cons.mp hz with rfl | hz
    · exact hn
    · rw [← Share.busy_mark_ne g (hne z hz) (some .marked)]
      exact hnone z hz

/-- What is left of a batch in a thread's hands: its victims have their disk frames and are
marked. -/
structure Leaving (g₀ : Share) (b : Ring) (batch : List Slot) (g : Share) : Prop where
  nodup : (batch.flatMap Slot.pages).Nodup
  free : ∀ e ∈ batch.flatMap Slot.pages, g₀.held e = none
  held : ∀ e, e ∉ batch.flatMap Slot.pages → g.held e = g₀.held e
  idle : ∀ x ∈ batch, g₀.busy x.victim = none
  busy : ∀ e, e ∉ batch.map (·.victim) → g.busy e = g₀.busy e
  late : g.late = g₀.late
  hash : g.hash = g₀.hash
  slots : ∀ x ∈ batch, ∃ v y, x.Emptied b g v y ∧ g.busy x.victim = some .marked

namespace Leaving
variable {batch : List Slot} {x : Slot}

theorem eq (h : Leaving g₀ b [] g) : g = g₀ :=
  Share.ext (funext fun e => h.held e nofun) (funext fun e => h.busy e nofun) h.late h.hash

theorem of_marked (h : Collected g₀ (batch.flatMap Slot.pages) g)
    (hall : ∀ x ∈ batch, ∃ v y, x.Emptied b g v y) (hidle : ∀ x ∈ batch, g.busy x.victim = none) :
    Leaving g₀ b batch (g.markAll (batch.map (·.victim))) where
  nodup := h.nodup
  free := h.free
  held := h.held
  idle x hx := by rw [← h.busy, hidle x hx]
  busy e he := by
    rw [← h.busy]
    exact if_neg he
  late := h.late
  hash := h.hash
  slots x hx := by
    obtain ⟨v, y, hv⟩ := hall x hx
    exact ⟨v, y, ⟨hv.pair, hv.victim, hv.disk⟩, if_pos (List.mem_map_of_mem hx)⟩

theorem moved (h : Leaving g₀ b (x :: batch) g) (hlate : ∀ d, g₀.late d = false) :
    ∃ v y, x.Pair b v y ∧ Moved g x.victim v x.diskpage y := by
  obtain ⟨v, y, hx, hb⟩ := h.slots x List.mem_cons_self
  have hne : x.diskpage ≠ x.victim := by
    intro he
    have hn := h.nodup
    rw [List.flatMap_cons, Slot.pages, he] at hn
    simp at hn
  exact ⟨v, y, hx.pair, hx.victim, hx.disk, hne, hx.pair.isVictim, hx.pair.isDisk, hb,
    by rw [h.late, hlate]⟩

/-- One slot is done. -/
theorem next (h : Leaving g₀ b (x :: batch) g) :
    Leaving g₀ b batch (g.drop x.victim x.diskpage) := by
  have hn := h.nodup
  rw [List.flatMap_cons] at hn
  have hout {e : PageId} (he : e ∉ x.pages) : (g.drop x.victim x.diskpage).held e = g.held e := by
    have h₁ : e ≠ x.victim := fun h => he (h ▸ x.victim_mem)
    have h₂ : e ≠ x.diskpage := fun h => he (h ▸ x.diskpage_mem)
    exact (Share.held_put_ne _ h₂ _).trans (Share.held_put_ne _ h₁ _)
  have hin {e : PageId} (he : e ∈ x.pages) : (g.drop x.victim x.diskpage).held e = none := by
    by_cases h₂ : e = x.diskpage
    · subst h₂
      exact Share.held_put_self ..
    · have h₁ : e = x.victim :=
        (List.mem_cons.mp he).resolve_right fun h => h₂ (List.mem_singleton.mp h)
      subst h₁
      exact (Share.held_put_ne _ h₂ _).trans (Share.held_put_self ..)
  have happart {z : Slot} (hz : z ∈ batch) {e : PageId} (he : e ∈ z.pages) : e ∉ x.pages :=
    fun hx => slots_apart (p := []) h.nodup hz hx he rfl
  have hbusy {z : Slot} (hz : z ∈ batch) : z.victim ≠ x.victim :=
    slots_apart (p := []) h.nodup hz x.victim_mem z.victim_mem
  refine ⟨(List.nodup_append.mp hn).2.1, fun e he => h.free e ?_, fun e he => ?_, fun z hz =>
    h.idle z (List.mem_cons_of_mem _ hz), fun e he => ?_, h.late, h.hash, fun z hz => ?_⟩
  · rw [List.flatMap_cons]
    exact List.mem_append_right _ he
  · by_cases hx : e ∈ x.pages
    · rw [hin hx, h.free e (by rw [List.flatMap_cons]; exact List.mem_append_left _ hx)]
    · rw [hout hx]
      apply h.held
      rw [List.flatMap_cons, List.mem_append, not_or]
      exact ⟨hx, he⟩
  · by_cases hx : e = x.victim
    · subst hx
      exact (Share.busy_mark_self ..).trans (h.idle x List.mem_cons_self).symm
    · refine (Share.busy_mark_ne _ hx _).trans (h.busy e ?_)
      rw [List.map_cons, List.mem_cons, not_or]
      exact ⟨hx, he⟩
  · obtain ⟨v, y, hz', hb⟩ := h.slots z (List.mem_cons_of_mem _ hz)
    refine ⟨v, y, ⟨hz'.pair, ?_, ?_⟩, (Share.busy_mark_ne _ (hbusy hz) _).trans hb⟩
    · rw [hout (happart hz z.victim_mem)]
      exact hz'.victim
    · rw [hout (happart hz z.diskpage_mem)]
      exact hz'.disk

end Leaving

theorem safe_finishSlots {batch : List Slot} (hc : Calls b l) (hg : Leaving g₀ b batch g)
    (hlate : ∀ d, g₀.late d = false) :
    (owning n frames).Safe t (Prog.each finishSlot batch) (fun _ => Idled b g₀) l g := by
  refine safe_each (fun todo l' g' => Calls b l' ∧ Leaving g₀ b todo g') ⟨hc, hg⟩ ?_ ?_
  · rintro x todo l₁ g₁ ⟨hc₁, hg₁⟩
    obtain ⟨v, y, hp, hm⟩ := hg₁.moved hlate
    have hnext := hg₁.next
    refine safe_skip (calm_field _ _) fun hasReserve l₂ h₂ => safe_ite (fun _ => ?_) fun _ => ?_
    · rw [← hp.old]
      refine safe_settleReserve hm ((hc₁.kept h₂).spares_iff.mpr hp.spares) fun l₃ h₃ =>
        ⟨(hc₁.kept h₂).kept h₃, hnext⟩
    · refine safe_skip (calm_assertPage _ _ nofun) fun _ l₃ h₃ => ?_
      have hc₃ := (hc₁.kept h₂).kept h₃
      rw [← hp.old]
      exact safe_settleFree hm (hc₃.spares_iff.mpr hp.spares) fun l₄ h₄ => ⟨hc₃.kept h₄, hnext⟩
  · rintro l₁ g₁ ⟨hc₁, hg₁⟩
    exact ⟨hc₁, hg₁.eq⟩

theorem safe_extmemMigrateDowndiskVector {batch : List Slot} (hc : Calls b l)
    (hg : Collected g₀ (batch.flatMap Slot.pages) g)
    (hall : ∀ x ∈ batch, ∃ v y, x.Taken b g v y) :
    (owning n frames).Safe t (extmemMigrateDowndiskVector batch)
      (fun _ l' g' => Calls b l' ∧ Leaving g₀ b batch g') l g := by
  refine safe_learn fun hdist => safe_skip (calm_traceEvent _) fun _ l₁ h₁ => ?_
  have hc₁ := hc.kept h₁
  have hn : (batch.map (·.diskpage)).Nodup := by
    apply List.Nodup.sublist _ hg.nodup
    clear hg hall
    induction batch with
    | nil => exact List.Sublist.refl _
    | cons x batch ih => exact (ih.cons_cons _).cons _
  refine safe_bind ((safe_prepareSlots hc₁ hdist hn hall).mono fun written l₂ g₂ h₂ => ?_)
  obtain ⟨hp₂, rfl⟩ := h₂
  have hunmap : Always Calm (Prog.each unmapSlot batch) :=
    always_each fun x => always_bind (calm_field _ _) fun _ =>
      always_bind (calm_traceEvent _) fun _ => calm_dropMapping _
  let k (_ : Unit) : Paging Unit := do
    Prog.each unmapSlot batch
    Prog.each moveSlot batch
    Prog.atomic (markAllSwappedOut batch)
  refine safe_submitWrites (k := k) hp₂ fun l₃ h₃ => ?_
  refine safe_skip hunmap fun _ l₄ h₄ => ?_
  have hc₄ := h₃.kept h₄
  refine safe_bind ((safe_moveSlots hc₄ hg hall).mono fun _ l₅ g₅ h₅ => safe_atomic.mpr ?_)
  obtain ⟨hc₅, hg₅, hall₅⟩ := h₅
  refine does_markAllSwappedOut (fun x hx => ?_) fun l₆ hidle h₆ =>
    ⟨hc₅.kept h₆, Leaving.of_marked hg₅ hall₅ hidle⟩
  obtain ⟨v, y, hv⟩ := hall₅ x hx
  exact ⟨_, hv.victim, hv.pair.isVictim.va, hv.pair.isVictim.clear⟩

theorem safe_lrudiskEvictionworkerVector (hc : Calls b l) (hlate : ∀ d, g.late d = false) :
    (owning n frames).Safe t lrudiskEvictionworkerVector (fun _ => Idled b g) l g := by
  refine safe_bind (safe_dequeueVector fun victims l₁ g₁ hg₁ hall h₁ =>
    safe_ite (fun he => ?_) fun _ => ?_)
  · rw [List.isEmpty_iff.mp he] at hg₁
    exact ⟨hc.kept h₁, hg₁.eq⟩
  · refine safe_bind ((safe_prepareVictims (hc.kept h₁) hall).mono fun xs l₂ g₂ h₂ => ?_)
    obtain ⟨rfl, hxs, hc₂, rfl⟩ := h₂
    refine safe_bind ((safe_findDiskpages hc₂ hg₁ hxs).mono fun batch l₃ g₃ h₃ => ?_)
    obtain ⟨hc₃, hg₃, htaken⟩ := h₃
    refine safe_bind ((safe_extmemMigrateDowndiskVector hc₃ hg₃ htaken).mono fun _ l₄ g₄ h₄ => ?_)
    exact safe_finishSlots h₄.1 h₄.2 hlate

end ExtMem
