import ExtMem.Ownership.Batch

/-! Swap-ins: a thread claims a page, detaches it, and gives its disk frame for a DRAM frame that it
fetched. -/
namespace ExtMem
open Threads Threads.Prog Threads.Outline

variable {n : Nat} {frames : List Frame} {t : Tid} {l l' : Local} {g g₀ : Share} {d f : PageId}
  {x z : Hold} {b : Ring}
  {ds fs : List PageId} {α β : Type}

/-- A page that was taken off the list of swapped-out pages. -/
structure Hold.Swapped (x : Hold) : Prop where
  va : x.va ≠ 0
  disk : x.offset.dram = false
  stake : x.stake = some x.offset
  hashed : x.hashed = true

theorem Hold.Swapped.frame (h : x.Swapped) : x.frame = x.offset := by
  rw [Hold.frame, h.stake]
  rfl

/-- The swap-ins that a thread has under way: the pages that it has claimed and detached, and the
descriptors with free DRAM frames that it has fetched for them. -/
structure Inbound (g₀ : Share) (ds fs : List PageId) (g : Share) : Prop where
  nodup : (ds ++ fs).Nodup
  free : ∀ e ∈ ds ++ fs, g₀.held e = none
  idle : ∀ e ∈ ds, g₀.busy e = none
  held : ∀ e, e ∉ ds ++ fs → g.held e = g₀.held e
  busy : ∀ e, e ∉ ds → g.busy e = g₀.busy e
  late : g.late = g₀.late
  hash : g.hash = g₀.hash
  pages : ∀ e ∈ ds, ∃ x, g.held e = some x ∧ x.Swapped ∧ ∃ c, g.busy e = some (.claim c)
  spares : ∀ e ∈ fs, ∃ z, g.held e = some z ∧ z.Spare

namespace Inbound

theorem nil (g : Share) : Inbound g [] [] g :=
  ⟨List.nodup_nil, nofun, nofun, fun _ _ => rfl, fun _ _ => rfl, rfl, rfl, nofun, nofun⟩

theorem eq (h : Inbound g₀ [] [] g) : g = g₀ :=
  Share.ext (funext fun e => h.held e nofun) (funext fun e => h.busy e nofun) h.late h.hash

theorem held_ne (h : Inbound g₀ ds fs g) {e : PageId} (he : e ∈ ds ++ fs) : g.held e ≠ none := by
  rcases List.mem_append.mp he with he | he
  · obtain ⟨x, hx, -⟩ := h.pages e he
    rw [hx]
    nofun
  · obtain ⟨z, hz, -⟩ := h.spares e he
    rw [hz]
    nofun

/-- One more page is claimed and detached. -/
theorem detach (h : Inbound g₀ ds [] g) (hb : g.busy d = none)
    (hd : g.held d = none) (hx : x.Swapped) (c : Option Frame) :
    Inbound g₀ (ds ++ [d]) [] ((g.mark d (some (.claim c))).put d (some x)) := by
  have hnot : d ∉ ds := fun hm => h.held_ne (List.mem_append_left _ hm) hd
  have hne {e : PageId} (he : e ∈ ds) : e ≠ d := fun hed => hnot (hed ▸ he)
  refine ⟨?_, fun e he => ?_, fun e he => ?_, fun e he => ?_, fun e he => ?_, h.late, h.hash,
    fun e he => ?_, nofun⟩
  · rw [List.append_nil, List.nodup_append]
    refine ⟨by simpa using h.nodup, by simp, fun e he e' he' => ?_⟩
    rw [List.mem_singleton.mp he']
    exact hne he
  · rw [List.append_nil] at he
    rcases List.mem_append.mp he with he | he
    · exact h.free e (List.mem_append_left _ he)
    · obtain rfl := List.mem_singleton.mp he
      rw [← h.held e (by simpa using hnot)]
      exact hd
  · rcases List.mem_append.mp he with he | he
    · exact h.idle e he
    · obtain rfl := List.mem_singleton.mp he
      rw [← h.busy e hnot]
      exact hb
  · simp only [List.append_nil, List.mem_append, List.mem_singleton, not_or] at he
    exact (Share.held_put_ne _ he.2 _).trans (h.held e (by simpa using he.1))
  · simp only [List.mem_append, List.mem_singleton, not_or] at he
    exact (Share.busy_mark_ne _ he.2 _).trans (h.busy e he.1)
  · rcases List.mem_append.mp he with he | he
    · obtain ⟨y, hy, hys, c', hc'⟩ := h.pages e he
      exact ⟨y, (Share.held_put_ne _ (hne he) _).trans hy, hys, c',
        (Share.busy_mark_ne _ (hne he) _).trans hc'⟩
    · obtain rfl := List.mem_singleton.mp he
      exact ⟨x, Share.held_put_self .., hx, c, Share.busy_mark_self ..⟩

/-- One more free frame is fetched. -/
theorem fetch (h : Inbound g₀ ds fs g) (hf : g.held f = none) (hz : z.Spare) :
    Inbound g₀ ds (fs ++ [f]) (g.put f (some z)) := by
  have hnot : f ∉ ds ++ fs := fun hm => h.held_ne hm hf
  have hne {e : PageId} (he : e ∈ ds ++ fs) : e ≠ f := fun hef => hnot (hef ▸ he)
  refine ⟨?_, fun e he => ?_, h.idle, fun e he => ?_, h.busy, h.late, h.hash, fun e he => ?_,
    fun e he => ?_⟩
  · rw [← List.append_assoc, List.nodup_append]
    refine ⟨h.nodup, by simp, fun e he e' he' => ?_⟩
    rw [List.mem_singleton.mp he']
    exact hne he
  · rw [← List.append_assoc] at he
    rcases List.mem_append.mp he with he | he
    · exact h.free e he
    · obtain rfl := List.mem_singleton.mp he
      rw [← h.held e hnot]
      exact hf
  · rw [← List.append_assoc, List.mem_append, List.mem_singleton, not_or] at he
    exact (Share.held_put_ne _ he.2 _).trans (h.held e he.1)
  · obtain ⟨y, hy, hys⟩ := h.pages e he
    exact ⟨y, (Share.held_put_ne _ (hne (List.mem_append_left _ he)) _).trans hy, hys⟩
  · rcases List.mem_append.mp he with he | he
    · obtain ⟨w, hw, hws⟩ := h.spares e he
      exact ⟨w, (Share.held_put_ne _ (hne (List.mem_append_right _ he)) _).trans hw, hws⟩
    · obtain rfl := List.mem_singleton.mp he
      exact ⟨z, Share.held_put_self .., hz⟩

/-- One swap-in is done. -/
theorem finish (h : Inbound g₀ (d :: ds) (f :: fs) g) :
    Inbound g₀ ds fs (((g.put f none).put d none).mark d none) := by
  have hn := h.nodup
  rw [List.cons_append, List.nodup_cons] at hn
  obtain ⟨hd, hn⟩ := hn
  have hp : (ds ++ f :: fs).Perm (f :: (ds ++ fs)) := List.perm_middle
  obtain ⟨hf, hn'⟩ := List.nodup_cons.mp (hp.nodup_iff.mp hn)
  have hdf : d ≠ f := by
    rintro rfl
    exact hd (List.mem_append_right _ List.mem_cons_self)
  have hned {e : PageId} (he : e ∈ ds ++ fs) : e ≠ d := by
    rintro rfl
    exact hd (hp.mem_iff.mpr (List.mem_cons_of_mem _ he))
  have hnef {e : PageId} (he : e ∈ ds ++ fs) : e ≠ f := fun hef => hf (hef ▸ he)
  have hput {e : PageId} (he : e ≠ d) (hef : e ≠ f) :
      (((g.put f none).put d none).mark d none).held e = g.held e :=
    (Share.held_put_ne _ he _).trans (Share.held_put_ne _ hef _)
  have hmem {e : PageId} (he : e ∈ ds ++ fs) : e ∈ d :: ds ++ f :: fs :=
    List.mem_cons_of_mem _ (hp.mem_iff.mpr (List.mem_cons_of_mem _ he))
  refine ⟨hn', fun e he => h.free e (hmem he), fun e he => h.idle e (List.mem_cons_of_mem _ he),
    fun e he => ?_, fun e he => ?_, h.late, h.hash, fun e he => ?_, fun e he => ?_⟩
  · by_cases hed : e = d
    · subst hed
      exact (Share.held_put_self ..).trans
        (h.free e (List.mem_append_left _ List.mem_cons_self)).symm
    · by_cases hef : e = f
      · subst hef
        refine ((Share.held_put_ne _ hed _).trans (Share.held_put_self ..)).trans (h.free e ?_).symm
        exact List.mem_append_right _ List.mem_cons_self
      · rw [hput hed hef]
        apply h.held
        intro hm
        rcases List.mem_cons.mp hm with hm | hm
        · exact hed hm
        · exact (List.mem_cons.mp (hp.mem_iff.mp hm)).elim hef he
  · by_cases hed : e = d
    · subst hed
      exact (Share.busy_mark_self ..).trans (h.idle e List.mem_cons_self).symm
    · refine (Share.busy_mark_ne _ hed _).trans (h.busy e ?_)
      rw [List.mem_cons, not_or]
      exact ⟨hed, he⟩
  · obtain ⟨y, hy, hys, c, hc⟩ := h.pages e (List.mem_cons_of_mem _ he)
    have hm := List.mem_append_left fs he
    exact ⟨y, (hput (hned hm) (hnef hm)).trans hy, hys, c,
      (Share.busy_mark_ne _ (hned hm) _).trans hc⟩
  · obtain ⟨w, hw, hws⟩ := h.spares e (List.mem_cons_of_mem _ he)
    have hm := List.mem_append_right ds he
    exact ⟨w, (hput (hned hm) (hnef hm)).trans hw, hws⟩

end Inbound

/-! The two ends of a swap-in. -/

/-- A claimed page is detached; its disk frame is the one that the claimant has read, if it has read
it. -/
theorem safe_detach {c : Option Frame} (hb : g.busy d = some (.claim c)) {onList onRemoved : Abort}
    (h₁ : ¬ onList.Guarded) (h₂ : ¬ onRemoved.Guarded) {Q : Unit → Local → Share → Prop}
    (hq : ∀ x l', g.held d = none → x.Swapped → l.Spares x.offset →
      (∀ o, c = some o → x.offset = o) → Kept l l' → Q () l' (g.put d (some x))) :
    (owning n frames).Safe t (detach d onList onRemoved) Q l g := by
  refine safe_skip (calm_assertList _ _ h₁) fun _ l₁ hk₁ =>
    safe_bind (safe_tryremove (taking_join d) (safe_fail h₂) fun x l₂ hd hx hs ho hk₂ => ?_)
  refine hq x l₂ hd ⟨hx.fits.1, hx.fits.2, hx.stake, hx.hashed⟩ (hs.congr hk₁.ring.symm)
    (fun o hco => ?_) (hk₁.trans hk₂)
  exact ho o (by rw [hb, hco]) rfl

/-- The page has its DRAM frame and the fetched descriptor the disk frame; both go on their
lists. -/
theorem safe_publishSwapin (hx : g.held d = some { x with offset := z.offset })
    (hv : x.Swapped) (hz : z.Spare) (hf : g.held f =
      some { z with offset := x.offset, stake := some z.offset, inDram := false, clear := false })
    (hne : f ≠ d) (hs : l.Spares x.offset) {Q : Unit → Local → Share → Prop}
    (hq : ∀ l', Kept l l' → Q () l' ((g.put f none).put d none)) :
    (owning n frames).Safe t (publishSwapin d f) Q l g := by
  have hcalm (c : PageId) (r : PageId) :
      Always Calm (setPage c fun p => { p with reserve := some r, hasReserve := true }) :=
    calm_setPage c ⟨fun _ => rfl, fun _ => rfl, fun _ => rfl, fun _ => id, fun _ => id⟩
  refine safe_skip (calm_setPage f
    ⟨fun _ => rfl, fun _ => rfl, fun _ => rfl, fun _ => id, fun _ => id⟩) fun _ l₁ h₁ => ?_
  refine safe_skip (hcalm d f) fun _ l₂ h₂ => ?_
  refine safe_skip (calm_setPage f
    ⟨fun _ => rfl, fun _ => rfl, fun _ => rfl, fun _ => id, fun _ => id⟩) fun _ l₃ h₃ => ?_
  have hk := (h₁.trans h₂).trans h₃
  let w : Hold :=
    { z with offset := x.offset, stake := some z.offset, inDram := false, clear := false }
  have hsettles : Settles l₃ g .diskReserveList f d w { x with offset := z.offset } z.offset :=
    ⟨⟨hf, ⟨hz.va, hv.disk⟩, hz.hashed, nofun, nofun⟩, hx, hne, rfl, hv.stake,
      l₃.spares_dram hz.dram, hs.congr hk.ring⟩
  refine safe_bind (safe_enqueue_settle hsettles fun l₄ h₄ => ?_)
  let y : Hold := { x with offset := z.offset, stake := some z.offset }
  have hgives : Gives ((g.put f none).put d (some y)) .inactiveList d y :=
    ⟨Share.held_put_self .., ⟨hv.va, hz.dram⟩, hv.hashed, nofun, nofun⟩
  refine safe_enqueue_leave hgives rfl (l₄.spares_dram hz.dram) fun l₅ h₅ => ?_
  rw [Share.put_put]
  exact hq l₅ ((hk.trans h₄).trans h₅)

theorem safe_takeDiskFrame (hf : g.held f = some z) (hva : z.va = 0) (hs : z.stake ≠ none)
    (o : Frame) {Q : Unit → Local → Share → Prop} (hq : ∀ l', Kept l l' →
      Q () l' (g.put f (some { z with offset := o, inDram := false, clear := false }))) :
    (owning n frames).Safe t (takeDiskFrame f o) Q l g := by
  apply safe_setPage hf { z with offset := o, inDram := false, clear := false } rfl
    (fun h => absurd h hs) (fun p hp => ?_) hq
  exact ⟨hp.va, rfl, nofun, .inl hva, nofun, .inl ⟨rfl, rfl⟩⟩

/-- The page takes the DRAM frame. -/
theorem safe_takeDramFrame (hx : g.held d = some x) (hs : x.stake ≠ none) (o : Frame)
    {Q : Unit → Local → Share → Prop}
    (hq : ∀ l', Kept l l' → Q () l' (g.put d (some { x with offset := o }))) :
    (owning n frames).Safe t (setPage d fun p => { p with virtualOffset := o }) Q l g := by
  apply safe_setPage hx { x with offset := o } rfl (fun h => absurd h hs) (fun p hp => ?_) hq
  exact ⟨hp.va, rfl, hp.inDram, .inr (.inr ⟨rfl, id, id⟩), fun hc => ⟨.inr hc, hp.clear hc⟩,
    .inl ⟨rfl, rfl⟩⟩

/-! The swap-in of a fault. -/

/-- The rings of a thread that waits for no transfer. -/
def Local.Rest (l : Local) : Prop := (l.ring .ioRing).Idle ∧ (l.ring .ioReadRing).Idle

theorem Local.Rest.congr (h : l.Rest) (hr : l'.ring = l.ring) : l'.Rest := by
  unfold Local.Rest
  rw [hr]
  exact h

theorem Local.Rest.kept (h : l.Rest) (hk : Kept l l') : l'.Rest := h.congr hk.ring

theorem Local.Rest.spares (h : l.Rest) (fr : Frame) : l.Spares fr := by
  intro q hq
  rw [Local.requests, h.1.1, h.1.2, h.2.1, h.2.2] at hq
  cases hq

theorem Local.Rest.calls (h : l.Rest) : Calls (l.ring .ioReadRing) l := ⟨h.1, rfl⟩

theorem Calls.rest (h : Calls b l) (hb : b.Idle) : l.Rest := ⟨h.write, h.read ▸ hb⟩

/-- A page and a fetched descriptor that are both back on lists. -/
private theorem Share.both_back (hd : g.held d = none) (hf : g.held f = none) (hne : f ≠ d)
    (o o' : Option Hold) : (((g.put d o).put f o').put f none).put d none = g := by
  rw [Share.put_put, Share.put_comm _ hne, Share.put_put, Share.put_self _ hd, Share.put_self _ hf]

/-- The read of a page's disk frame is started. -/
theorem safe_coreMigrateUpAsyncStart (hx : g.held d = some x) (hv : x.Swapped)
    (hs : l.Spares x.offset) (hr : l.Rest) {Q : Unit → Local → Share → Prop}
    (hq : ∀ size l', Calls ⟨true, [], [⟨false, x.offset.offset, .bufferSpace, size⟩]⟩ l' →
      Q () l' g) : (owning n frames).Safe t (coreMigrateUpAsyncStart d) Q l g := by
  refine safe_skip (calm_assertPage _ _ nofun) fun _ l₁ h₁ => safe_skip (by simp) fun _ l₂ h₂ => ?_
  refine safe_skip (calm_field _ _) fun size l₃ h₃ => safe_bind (safe_offset hx ?_)
  refine safe_skip (calm_assert nofun) fun _ l₄ h₄ => ?_
  have hk := ((h₁.trans h₂).trans h₃).trans h₄
  have hr₄ := hr.kept hk
  have hback : g.Backs x.offset.offset := ⟨d, x, hx, by rw [hv.stake, frame_of_disk hv.disk]⟩
  refine safe_startRead hr₄.2 hback (by rw [frame_of_disk hv.disk]; exact hs.congr hk.ring)
    fun l₅ h₅ => ?_
  apply hq size l₅
  constructor
  · have hw : l₅.ring .ioRing = l₄.ring .ioRing := h₅.other
    rw [hw]
    exact hr₄.1
  · exact h₅.ring

/-- The read is waited for, and the page takes its new frame. -/
theorem safe_coreMigrateUpAsyncFinish {sqe : Sqe} (hx : g.held d = some x) (hs : x.stake ≠ none)
    (hc : Calls ⟨true, [], [sqe]⟩ l)
    (offset : Frame) {Q : Unit → Local → Share → Prop}
      (hq : ∀ l', l'.Rest → Q () l' (g.put d (some { x with offset := offset }))) :
    (owning n frames).Safe t (coreMigrateUpAsyncFinish d offset) Q l g := by
  refine safe_skip (calm_assertPage _ _ nofun) fun _ l₁ h₁ =>
    safe_skip (calm_assert nofun) fun _ l₂ h₂ => ?_
  refine safe_skip (calm_field _ _) fun size l₃ h₃ =>
    safe_skip (calm_field _ _) fun disk l₄ h₄ => ?_
  refine safe_skip (calm_assert nofun) fun _ l₅ h₅ =>
    safe_skip (calm_assert nofun) fun _ l₆ h₆ => ?_
  have hc₆ := hc.kept (((((h₁.trans h₂).trans h₃).trans h₄).trans h₅).trans h₆)
  refine safe_bind (safe_finishRead hc₆.read fun l₇ h₇ hw => ?_)
  have hr₇ : l₇.Rest := ⟨by rw [hw]; exact hc₆.write, h₇⟩
  refine safe_skip (by simp) fun _ l₈ h₈ =>
    safe_skip (calm_assertPage _ _ nofun) fun _ l₉ h₉ => safe_skip (by simp) fun _ l₁₀ h₁₀ => ?_
  refine safe_bind (safe_takeDramFrame hx hs offset fun l₁₁ h₁₁ => ?_)
  refine safe_skip (by simp) fun _ l₁₂ h₁₂ => safe_calm (by simp) fun _ l₁₃ h₁₃ => ?_
  exact hq l₁₃ (hr₇.kept (((((h₈.trans h₉).trans h₁₀).trans h₁₁).trans h₁₂).trans h₁₃))

/-- A fetched descriptor joins the exchange; it has a DRAM frame for sure. -/
theorem safe_frameOf (hf : g.held f = some z) (hz : z.Spare) {Q : Frame → Local → Share → Prop}
    (hq : ∀ l', Kept l l' → Q z.offset l' (g.put f (some { z with stake := some z.offset }))) :
    (owning n frames).Safe t (frameOf f) Q l g := by
  refine safe_bind (safe_joinExchange hf hz.stake fun l₁ h₁ => ?_)
  have hf₁ : (g.put f (some { z with stake := some z.offset })).held f =
      some { z with stake := some z.offset } := Share.held_put_self ..
  exact safe_assertKnown hf₁ (fun p hp => hp.inDram hz.inDram) (safe_offset hf₁ (hq l₁ h₁))

/-- The whole swap-in of a claimed page: the thread has nothing left in its hands but the claim. -/
theorem safe_lrudiskSwapinExternalAsync {c : Option Frame} (hb : g.busy d = some (.claim c))
    (hlate : ∀ e, g.late e = false) (hr : l.Rest) :
    (owning n frames).Safe t (lrudiskSwapinExternalAsync d)
      (fun _ l' g' => l'.Rest ∧ ∃ o, g' = g.mark d (some (.claim o))) l g := by
  refine safe_bind (safe_claimOffset hb fun o => ?_)
  have hbusy : (g.mark d (some (.claim (some o)))).busy d = some (.claim (some o)) :=
    Share.busy_mark_self ..
  have hguard : ¬ (Abort.swapinList d).Guarded ∧ ¬ (Abort.swapinRemoved d).Guarded := ⟨nofun, nofun⟩
  refine safe_bind (safe_detach hbusy hguard.1 hguard.2 fun x l₁ hd hx hs ho h₁ => ?_)
  have hx₁ : ((g.mark d (some (.claim (some o)))).put d (some x)).held d = some x :=
    Share.held_put_self ..
  have hlate₁ : ∀ e, ((g.mark d (some (.claim (some o)))).put d (some x)).late e = false := hlate
  refine safe_bind
    (safe_coreMigrateUpAsyncStart hx₁ hx (hs.congr h₁.ring) (hr.kept h₁) fun size l₂ h₂ => ?_)
  refine safe_bind ((safe_fetchFreeAsynch h₂ hlate₁).mono fun f l₃ g₃ h₃ => ?_)
  obtain ⟨z, hf, hz, h₃, rfl⟩ := h₃
  have hne : f ≠ d := by
    rintro rfl
    rw [hx₁] at hf
    cases hf
  refine safe_bind (safe_frameOf (Share.held_put_self ..) hz fun l₄ h₄ => ?_)
  rw [Share.put_put]
  let z₁ : Hold := { z with stake := some z.offset }
  let x₁ : Hold := { x with offset := z.offset }
  have hx₄ := (Share.held_put_ne (o := some z₁) _ hne.symm).trans hx₁
  refine safe_bind (safe_coreMigrateUpAsyncFinish hx₄ (by rw [hx.stake]; nofun)
    (h₃.kept h₄) z.offset fun l₅ h₅ => ?_)
  rw [Share.put_comm _ hne, Share.put_put]
  refine safe_bind (safe_takeDiskFrame (z := z₁) (Share.held_put_self ..) hz.va nofun o fun l₆ h₆ =>
    ?_)
  rw [Share.put_put]
  have hoff : x.offset = o := ho o rfl
  have hx₆ :=
    (Share.held_put_ne (o := some { z₁ with offset := o, inDram := false, clear := false })
      _ hne.symm).trans (Share.held_put_self (g.mark d (some (.claim (some o)))) d (some x₁))
  have hr₆ := h₅.kept h₆
  refine safe_publishSwapin hx₆ hx hz (by rw [hoff]; exact Share.held_put_self ..) hne
    (hr₆.spares _) fun l₇ h₇ => ⟨hr₆.kept h₇, some o, ?_⟩
  exact Share.both_back hd ((Share.held_put_ne _ hne _).symm.trans hf) hne _ _

/-- A prefetched page is put into place: it and its descriptor are back on lists. -/
theorem safe_lrudiskAckSwapin {c : Option Frame} (hb : g.busy d = some (.claim c))
    (hx : g.held d = some x) (hv : x.Swapped) (hf : g.held f = some z) (hz : z.Spare) (hr : l.Rest)
    {Q : Unit → Local → Share → Prop} (hq : ∀ l', Kept l l' → Q () l' ((g.put f none).put d none)) :
    (owning n frames).Safe t (lrudiskAckSwapin d f) Q l g := by
  have hne : f ≠ d := by
    rintro rfl
    rw [hf] at hx
    cases hx
    exact hv.va hz.va
  let z₁ : Hold := { z with stake := some z.offset }
  refine safe_bind (safe_joinExchange hf hz.stake fun l₁ h₁ => ?_)
  have hf₁ : (g.put f (some z₁)).held f = some z₁ := Share.held_put_self ..
  have hx₁ : (g.put f (some z₁)).held d = some x := (Share.held_put_ne _ hne.symm _).trans hx
  refine safe_bind (safe_offset hf₁ (safe_bind (safe_offset hx₁ ?_)))
  have hb₁ : (g.put f (some z₁)).busy d = some (.claim c) := hb
  refine safe_assertKnown hf₁ (fun p hp => hp.inDram hz.inDram) (safe_assertUnlisted hf₁ ?_)
  refine safe_assertBusy hb₁
    (fun _ hp => hp.2.1) (safe_assertBusy hb₁ (fun _ hp => hp.1) (safe_assertUnlisted hx₁ ?_))
  refine safe_bind (safe_takeDiskFrame hf₁ hz.va nofun x.offset fun l₂ h₂ => ?_)
  rw [Share.put_put]
  let z₂ : Hold := { z₁ with offset := x.offset, inDram := false, clear := false }
  have hx₂ : (g.put f (some z₂)).held d = some x := (Share.held_put_ne _ hne.symm _).trans hx
  refine safe_bind (safe_takeDramFrame hx₂ (by rw [hv.stake]; nofun) z.offset fun l₃ h₃ => ?_)
  have hk := (h₁.trans h₂).trans h₃
  have hf₃ : ((g.put f (some z₂)).put d (some { x with offset := z.offset })).held f = some z₂ :=
    (Share.held_put_ne _ hne _).trans (Share.held_put_self ..)
  refine safe_publishSwapin (Share.held_put_self ..) hv hz hf₃ hne ((hr.kept hk).spares _)
    fun l₄ h₄ => ?_
  rw [Share.put_comm _ hne.symm, Share.put_put, Share.put_put]
  exact hq l₄ (hk.trans h₄)

end ExtMem
