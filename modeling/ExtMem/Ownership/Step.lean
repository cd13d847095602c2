import ExtMem.Ownership.Ledger

/-! How the invariant is kept by a step that changes one or two descriptors. -/
namespace ExtMem
open Threads

variable {n : Nat} {frames : List Frame} {s : Shared} {ls : Tid → Local} {l m : Local}
  {G G' : Ledger} {g : Share}
  {t : Tid} {d f : PageId} {x y : Hold} {e : Env}

/-! Reading the invariant. -/

namespace Owned

theorem held_of_share (h : (G.share t).held d = some x) : G.held d = some (t, x) :=
  mine_eq_some.mp h

theorem busy_of_share {b : Busy} (h : (G.share t).busy d = some b) : G.busy d = some (t, b) :=
  mine_eq_some.mp h

theorem lt_of_list (h : Owned n frames s ls G) {q : FifoList} (hl : s.list d = some q) : d < n := by
  by_contra hd
  rw [(h.outside d (Nat.not_lt.mp hd)).1] at hl
  cases hl

theorem lt_of_held (h : Owned n frames s ls G) {u : Tid × Hold} (hx : G.held d = some u) :
    d < n := by
  by_contra hd
  rw [(h.outside d (Nat.not_lt.mp hd)).2.1] at hx
  cases hx

theorem lt_of_busy (h : Owned n frames s ls G) {u : Tid × Busy} (hb : G.busy d = some u) :
    d < n := by
  by_contra hd
  rw [(h.outside d (Nat.not_lt.mp hd)).2.2.1] at hb
  cases hb

/-- A descriptor on a list is in nobody's hands. -/
theorem listed (h : Owned n frames s ls G) {q : FifoList} (hl : s.list d = some q) :
    G.held d = none ∧ q.Fits (s.page d).va (s.page d).virtualOffset := by
  have hg := (h.good d (h.lt_of_list hl)).place
  rw [show (entryOf s G d).list = some q from hl] at hg
  cases hh : G.held d with
  | none =>
    rw [show (entryOf s G d).held = none from hh] at hg
    exact ⟨rfl, hg⟩
  | some u =>
    rw [show (entryOf s G d).held = some u from hh] at hg
    exact hg.elim

/-- A descriptor that a thread has off its list is as the thread knows it. -/
theorem inHand (h : Owned n frames s ls G) (hx : G.held d = some (t, x)) :
    s.list d = none ∧ (s.page d).va = x.va ∧ (s.page d).virtualOffset = x.offset := by
  have hg := (h.good d (h.lt_of_held hx)).place
  rw [show (entryOf s G d).held = some (t, x) from hx] at hg
  cases hl : s.list d with
  | none =>
    rw [show (entryOf s G d).list = none from hl] at hg
    exact ⟨rfl, hg⟩
  | some q =>
    rw [show (entryOf s G d).list = some q from hl] at hg
    exact hg.elim

theorem inDram (h : Owned n frames s ls G) (hx : G.held d = some (t, x)) (hi : x.inDram = true) :
    (s.page d).inDram = true :=
  (h.good d (h.lt_of_held hx)).inDram (.inr ⟨t, x, hx, hi⟩)

/-- A page that has no address yet is nobody's to swap in or to evict. -/
theorem blank (h : Owned n frames s ls G) (hd : d < n) (hv : (s.page d).va = 0) :
    G.busy d = none ∧ ∀ u, G.late d u = false := by
  have hg := h.good d hd
  constructor
  · by_contra hb
    exact (hg.flags hb).2.2 hv
  · intro u
    by_contra hl
    exact hg.late u ((Bool.not_eq_false _).mp hl) hv

end Owned

/-! Steps. -/

/-- A step changes at most one descriptor, no list but that one's, and of the thread's own variables
none but the exchange. -/
structure Touch (d : PageId) (s : Shared) (l : Local) (e : Env) : Prop where
  page : ∀ c, c ≠ d → e.sh.page c = s.page c
  list : ∀ c, c ≠ d → e.sh.list c = s.list c
  pages : e.sh.pages = s.pages
  lock : e.sh.allocatorLock = s.allocatorLock
  ring : e.loc.ring = l.ring
  examining : e.loc.examining = l.examining

/-- Two ledgers agree on a descriptor. -/
structure Ledger.Same (G G' : Ledger) (c : PageId) : Prop where
  held : G'.held c = G.held c
  busy : G'.busy c = G.busy c
  late : G'.late c = G.late c

namespace Ledger.Same

theorem put (G : Ledger) {c : PageId} (h : c ≠ d) (o : Option Hold) :
    Ledger.Same G (G.put t d o) c :=
  ⟨Function.update_of_ne h .., rfl, rfl⟩

theorem mark (G : Ledger) {c : PageId} (h : c ≠ d) (o : Option Busy) :
    Ledger.Same G (G.mark t d o) c :=
  ⟨rfl, Function.update_of_ne h .., rfl⟩

theorem owe (G : Ledger) {c : PageId} (h : c ≠ d) (b : Bool) : Ledger.Same G (G.owe t d b) c :=
  ⟨rfl, rfl, Function.update_of_ne h ..⟩

theorem trans {G₁ G₂ G₃ : Ledger} {c : PageId} (h₁ : Ledger.Same G₁ G₂ c)
    (h₂ : Ledger.Same G₂ G₃ c) : Ledger.Same G₁ G₃ c :=
  ⟨h₂.held.trans h₁.held, h₂.busy.trans h₁.busy, h₂.late.trans h₁.late⟩

end Ledger.Same

theorem Touch.entry (h : Touch d s l e) {c : PageId} (hc : c ≠ d) (hG : G.Same G' c) :
    entryOf e.sh G' c = entryOf s G c := by
  unfold entryOf
  rw [h.page c hc, h.list c hc, hG.held, hG.busy, hG.late]

/-- A step that touches one descriptor keeps the invariant, if the descriptors that change in the
ledger are well and the frames that they stand for are only exchanged among them. -/
theorem Owned.step (h : Owned n frames s ls G) (hT : Touch d s (ls t) e) (ch : PageId → Prop)
    (hd : ch d) (lt : ∀ c, ch c → c < n) (same : ∀ c, ¬ ch c → G.Same G' c)
    (good : ∀ c, ch c → (entryOf e.sh G' c).Good)
    (σ : Equiv.Perm PageId) (hσ : ∀ c, c < n → σ c < n)
    (frame : ∀ c, c < n → (entryOf e.sh G' c).frame = (entryOf s G (σ c)).frame)
    (addr : ∀ c, ch c → (e.sh.page c).va = (s.page c).va ∧ (entryOf e.sh G' c).hashed =
      (entryOf s G c).hashed ∨ (entryOf e.sh G' c).hashed = false ∧ (s.page c).va = 0)
    (hash : G'.hash = G.hash) (others : ∀ u, u ≠ t → G'.share u = G.share u)
    (ok : e.loc.Ok (G'.share t)) : Owned n frames e.sh (Function.update ls t e.loc) G' := by
  have hsame (c : PageId) (hc : ¬ ch c) : entryOf e.sh G' c = entryOf s G c :=
    hT.entry (fun hcd => hc (hcd ▸ hd)) (same c hc)
  have hva (c : PageId) (hc : ¬ ch c) : e.sh.page c = s.page c := hT.page c fun hcd => hc (hcd ▸ hd)
  refine ⟨fun c hc => ?_, fun c hc => ?_, fun c c' hc hc' hf => ?_, fun c hc => ?_,
    fun a c ha => ?_, fun c hc => ?_, ?_, fun u P hP => ?_, fun u c a hm => ?_, fun u => ?_⟩
  · by_cases hx : ch c
    · exact good c hx
    · rw [hsame c hx]
      exact h.good c hc
  · have hx : ¬ ch c := fun hx => absurd (lt c hx) (Nat.not_lt.mpr hc)
    obtain ⟨h₁, h₂, h₃, h₄, h₅⟩ := h.outside c hc
    have hs := hsame c hx
    refine ⟨(congrArg Entry.list hs).trans h₁, (congrArg Entry.held hs).trans h₂,
      (congrArg Entry.busy hs).trans h₃, fun u => ?_, ?_⟩
    · exact (congrFun (congrArg Entry.late hs) u).trans (h₄ u)
    · rw [hva c hx]
      exact h₅
  · rw [frame c hc, frame c' hc'] at hf
    exact σ.injective (h.inj _ _ (hσ c hc) (hσ c' hc') hf)
  · rw [frame c hc]
    exact h.mem _ (hσ c hc)
  · rw [hT.pages, h.hash a c ha]
    by_cases hx : ch c
    · rcases addr c hx with ⟨h₁, h₂⟩ | ⟨h₁, h₂⟩
      · rw [h₁, h₂]
      · rw [h₁, h₂]
        exact ⟨fun hy => absurd hy.1.symm ha, fun hy => by cases hy.2⟩
    · rw [hsame c hx, hva c hx]
  · rw [hT.pages] at hc
    exact h.zero c hc
  · rw [hT.lock, hash, h.lock]
  · rw [hT.pages]
    exact h.pages u P (by rw [← hash]; exact hP)
  · have hm' : (c, a) ∈ (ls u).examining := by
      by_cases hu : u = t
      · subst hu
        rw [Function.update_self, hT.examining] at hm
        exact hm
      · rwa [Function.update_of_ne hu] at hm
    obtain ⟨h₁, h₂⟩ := h.look u c a hm'
    refine ⟨?_, h₂⟩
    by_cases hx : ch c
    · rcases addr c hx with ⟨h₃, -⟩ | ⟨-, h₃⟩
      · rw [h₃, h₁]
      · exact absurd (h₂ (h₁.symm.trans h₃)) (Nat.not_le.mpr (lt c hx))
    · rw [hva c hx, h₁]
  · by_cases hu : u = t
    · subst hu
      rw [Function.update_self]
      exact ok
    · rw [Function.update_of_ne hu, others u hu]
      exact h.locals u

/-- A step that changes one descriptor, which goes on to stand for its frame. -/
theorem Owned.one (h : Owned n frames s ls G) (hT : Touch d s (ls t) e) (hd : d < n)
    (same : ∀ c, c ≠ d → G.Same G' c) (good : (entryOf e.sh G' d).Good)
    (frame : (entryOf e.sh G' d).frame = (entryOf s G d).frame)
    (addr : (e.sh.page d).va = (s.page d).va ∧ (entryOf e.sh G' d).hashed = (entryOf s G d).hashed ∨
      (entryOf e.sh G' d).hashed = false ∧ (s.page d).va = 0) (hash : G'.hash = G.hash)
    (others : ∀ u, u ≠ t → G'.share u = G.share u) (ok : e.loc.Ok (G'.share t)) :
    Owned n frames e.sh (Function.update ls t e.loc) G' := by
  apply h.step hT (· = d) rfl (fun c hc => hc ▸ hd) same (fun c hc => hc ▸ good) (Equiv.refl PageId)
    (fun _ => id) ?_ (fun c hc => hc ▸ addr) hash others ok
  intro c _
  by_cases hc : c = d
  · rw [hc]
    exact frame
  · rw [hT.entry hc (same c hc)]
    rfl

/-- A step in which two descriptors exchange their frames. -/
theorem Owned.two (h : Owned n frames s ls G) (hT : Touch d s (ls t) e) (hdf : d ≠ f) (hd : d < n)
    (hf : f < n) (same : ∀ c, c ≠ d → c ≠ f → G.Same G' c) (good₁ : (entryOf e.sh G' d).Good)
    (good₂ : (entryOf e.sh G' f).Good) (frame₁ : (entryOf e.sh G' d).frame = (entryOf s G f).frame)
    (frame₂ : (entryOf e.sh G' f).frame = (entryOf s G d).frame)
    (addr₁ : (e.sh.page d).va = (s.page d).va ∧ (entryOf e.sh G' d).hashed = (entryOf s G d).hashed)
    (addr₂ : (entryOf e.sh G' f).hashed = (entryOf s G f).hashed) (hash : G'.hash = G.hash)
    (others : ∀ u, u ≠ t → G'.share u = G.share u) (ok : e.loc.Ok (G'.share t)) :
    Owned n frames e.sh (Function.update ls t e.loc) G' := by
  have lt (c : PageId) (hc : c = d ∨ c = f) : c < n := by
    rcases hc with rfl | rfl
    · exact hd
    · exact hf
  have good (c : PageId) (hc : c = d ∨ c = f) : (entryOf e.sh G' c).Good := by
    rcases hc with rfl | rfl
    · exact good₁
    · exact good₂
  have hσ (c : PageId) (hc : c < n) : Equiv.swap d f c < n := by
    rw [Equiv.swap_apply_def]
    split
    · exact hf
    · split
      · exact hd
      · exact hc
  have hframe (c : PageId) :
      (entryOf e.sh G' c).frame = (entryOf s G (Equiv.swap d f c)).frame := by
    rw [Equiv.swap_apply_def]
    split
    · next hcd =>
      rw [hcd]
      exact frame₁
    · next hcd =>
      split
      · next hcf =>
        rw [hcf]
        exact frame₂
      · next hcf => rw [hT.entry hcd (same c hcd hcf)]
  have hsame (c : PageId) (hc : ¬ (c = d ∨ c = f)) : G.Same G' c :=
    same c (fun hcd => hc (.inl hcd)) fun hcf => hc (.inr hcf)
  have haddr (c : PageId) (hc : c = d ∨ c = f) : (e.sh.page c).va = (s.page c).va ∧
      (entryOf e.sh G' c).hashed = (entryOf s G c).hashed := by
    rcases hc with rfl | rfl
    · exact addr₁
    · exact ⟨by rw [hT.page c (Ne.symm hdf)], addr₂⟩
  exact h.step hT (fun c => c = d ∨ c = f) (.inl rfl) lt hsame good (Equiv.swap d f) hσ
    (fun c _ => hframe c) (fun c hc => .inl (haddr c hc)) hash others ok

/-- A step that leaves lists and descriptors alone. -/
theorem Owned.beside (h : Owned n frames s ls G) (hf : e.sh.fifos = s.fifos)
    (hpage : e.sh.page = s.page) (hp : e.sh.pages = s.pages)
    (same : G'.held = G.held ∧ G'.busy = G.busy ∧ G'.late = G.late)
    (lock : e.sh.allocatorLock = G'.hash.isSome)
    (pages : ∀ u P, G'.hash = some (u, P) → e.sh.pages = P)
    (others : ∀ u, u ≠ t → G'.share u = G.share u)
    (look : ∀ d a, (d, a) ∈ e.loc.examining → (s.page d).va = a ∧ (a = 0 → n ≤ d))
    (ok : e.loc.Ok (G'.share t)) : Owned n frames e.sh (Function.update ls t e.loc) G' := by
  have hlist (d : PageId) : e.sh.list d = s.list d := congrArg (·.tag d) hf
  have hentry (d : PageId) : entryOf e.sh G' d = entryOf s G d := by
    unfold entryOf
    rw [hpage, hlist, same.1, same.2.1, same.2.2]
  refine ⟨fun d hd => ?_, fun d hd => ?_, fun d f hd hf' hx => ?_, fun d hd => ?_, fun a d ha => ?_,
    fun d hd => ?_, lock, pages, fun u d a hx => ?_, fun u => ?_⟩
  · rw [hentry]
    exact h.good d hd
  · rw [hpage, hlist, same.1, same.2.1, same.2.2]
    exact h.outside d hd
  · rw [hentry, hentry] at hx
    exact h.inj d f hd hf' hx
  · rw [hentry]
    exact h.mem d hd
  · rw [hentry, hp, hpage]
    exact h.hash a d ha
  · rw [hp] at hd
    exact h.zero d hd
  · rw [hpage]
    by_cases hu : u = t
    · subst hu
      rw [Function.update_self] at hx
      exact look d a hx
    · rw [Function.update_of_ne hu] at hx
      exact h.look u d a hx
  · by_cases hu : u = t
    · subst hu
      rw [Function.update_self]
      exact ok
    · rw [Function.update_of_ne hu, others u hu]
      exact h.locals u

/-- A step that changes a thread's own variables only. -/
theorem Owned.own (h : Owned n frames s ls G) (hf : e.sh.fifos = s.fifos)
    (hpage : e.sh.page = s.page) (hp : e.sh.pages = s.pages)
    (hl : e.sh.allocatorLock = s.allocatorLock)
    (look : ∀ d a, (d, a) ∈ e.loc.examining → (s.page d).va = a ∧ (a = 0 → n ≤ d))
    (ok : e.loc.Ok (G.share t)) : Owned n frames e.sh (Function.update ls t e.loc) G :=
  h.beside hf hpage hp ⟨rfl, rfl, rfl⟩ (hl.trans h.lock) (fun u P hP => hp.trans (h.pages u P hP))
    (fun _ _ => rfl) look ok

/-! A thread's own variables. -/

namespace Local.Ok

/-- The exchange and the rings as they were, another share with the same stakes. -/
theorem congr (h : l.Ok g) {g' : Share} (he : m.exchange = l.exchange) (hr : m.ring = l.ring)
    (hs : ∀ d f, (∃ x, g'.held d = some x ∧ x.stake = some f) ↔
      ∃ x, g.held d = some x ∧ x.stake = some f) : m.Ok g' where
  exchange d f := by rw [he, hs, h.exchange]
  keys := by rw [he]; exact h.keys
  backed q hq := by
    rw [Local.requests_congr hr] at hq
    obtain ⟨d, hd⟩ := h.backed q hq
    exact ⟨d, (hs d _).mpr hd⟩
  apart := by
    rw [Local.requests_congr hr]
    exact h.apart

theorem not_key (h : l.Ok g) (hd : ∀ x, g.held d = some x → x.stake = none) :
    d ∉ l.exchange.map (·.1) := by
  intro hm
  obtain ⟨⟨e, f⟩, he, rfl⟩ := List.mem_map.mp hm
  obtain ⟨x, hx, hs⟩ := (h.exchange e f).mp he
  rw [hd x hx] at hs
  cases hs

/-- A descriptor of which the thread has nothing in its exchange changes outside it. -/
theorem put_free (h : l.Ok g) (hd : ∀ x, g.held d = some x → x.stake = none) {o : Option Hold}
    (ho : ∀ x, o = some x → x.stake = none)
    (he : m.exchange = l.exchange) (hr : m.ring = l.ring) : m.Ok (g.put d o) := by
  refine h.congr he hr fun e f => ?_
  by_cases hed : e = d
  · subst hed
    rw [Share.held_put_self]
    constructor
    · rintro ⟨x, hx, hs⟩
      rw [ho x hx] at hs
      cases hs
    · rintro ⟨x, hx, hs⟩
      rw [hd x hx] at hs
      cases hs
  · rw [Share.held_put_ne _ hed]

/-- A descriptor in the exchange changes and goes on to stand for its frame. -/
theorem put_same (h : l.Ok g) (hd : g.held d = some x) (hs : y.stake = x.stake)
    (he : m.exchange = l.exchange) (hr : m.ring = l.ring) : m.Ok (g.put d (some y)) := by
  refine h.congr he hr fun e f => ?_
  by_cases hed : e = d
  · subst hed
    rw [Share.held_put_self, hd]
    simp [hs]
  · rw [Share.held_put_ne _ hed]

/-- A descriptor joins the exchange. -/
theorem join (h : l.Ok g) (hd : ∀ x, g.held d = some x → x.stake = none) {fr : Frame}
    (hs : y.stake = some fr) (he : m.exchange = (d, fr) :: l.exchange) (hr : m.ring = l.ring) :
    m.Ok (g.put d (some y)) where
  exchange e f := by
    rw [he, List.mem_cons, h.exchange]
    by_cases hed : e = d
    · subst hed
      rw [Share.held_put_self]
      constructor
      · rintro (hx | ⟨x, hx, hxs⟩)
        · exact ⟨y, rfl, by rw [hs, (Prod.mk.inj hx).2]⟩
        · rw [hd x hx] at hxs
          cases hxs
      · rintro ⟨x, hx, hxs⟩
        cases hx
        rw [hs] at hxs
        cases hxs
        exact .inl rfl
    · rw [Share.held_put_ne _ hed]
      exact ⟨fun hx => hx.elim (fun hx => absurd (Prod.mk.inj hx).1 hed) id, .inr⟩
  keys := by
    rw [he, List.map_cons]
    exact List.nodup_cons.mpr ⟨h.not_key hd, h.keys⟩
  backed q hq := by
    rw [Local.requests_congr hr] at hq
    obtain ⟨e, x, hx, hxs⟩ := h.backed q hq
    refine ⟨e, x, ?_, hxs⟩
    rw [Share.held_put_ne]
    · exact hx
    · rintro rfl
      rw [hd x hx] at hxs
      cases hxs
  apart := by
    rw [Local.requests_congr hr]
    exact h.apart

/-- A descriptor leaves the exchange. -/
theorem leave (h : l.Ok g) {o : Option Hold} (ho : ∀ x, o = some x → x.stake = none)
    (he : m.exchange = l.exchange.filter (·.1 != d)) (hr : m.ring = l.ring)
      (hq : ∀ q ∈ l.requests, (g.put d o).Backs q.offset) :
    m.Ok (g.put d o) where
  exchange e f := by
    rw [he, List.mem_filter, h.exchange]
    by_cases hed : e = d
    · subst hed
      rw [Share.held_put_self]
      constructor
      · rintro ⟨-, hx⟩
        simp at hx
      · rintro ⟨x, hx, hxs⟩
        rw [ho x hx] at hxs
        cases hxs
    · rw [Share.held_put_ne _ hed]
      exact ⟨And.left, fun hx => ⟨hx, by simpa using hed⟩⟩
  keys := by
    rw [he]
    exact h.keys.sublist (List.filter_sublist.map _)
  backed q hq' := by
    rw [Local.requests_congr hr] at hq'
    exact hq q hq'
  apart := by
    rw [Local.requests_congr hr]
    exact h.apart

private theorem lookup_of_mem {α β : Type} [DecidableEq α] {L : List (α × β)}
    (hn : (L.map (·.1)).Nodup) {a : α} {b : β} (h : (a, b) ∈ L) : L.lookup a = some b := by
  induction L with
  | nil => cases h
  | cons p L ih =>
    obtain ⟨hp, hn⟩ := List.nodup_cons.mp (by simpa using hn : (p.1 :: L.map (·.1)).Nodup)
    rcases List.mem_cons.mp h with rfl | hm
    · simp
    · have hne : (a == p.1) = false := by
        rw [beq_eq_false_iff_ne]
        rintro rfl
        exact hp (List.mem_map_of_mem (f := (·.1)) hm)
      rw [List.lookup_cons, hne]
      exact ih hn hm

/-- A descriptor leaves the exchange, and the other one stands for its frame from now on. -/
theorem settle (h : l.Ok g) (hdf : d ≠ f) {fr : Frame} (hd : g.held d = some x)
    (hx : x.stake = some fr) {z : Hold} (hf : g.held f = some z) (hz : z.stake.isSome = true)
    {o : Option Hold} (ho : ∀ x, o = some x → x.stake = none) (hy : y.stake = some fr)
    (he : m.exchange = (l.exchange.filter (·.1 != d)).map fun p =>
      if p.1 = f then (f, (l.exchange.lookup d).getD p.2) else p) (hr : m.ring = l.ring)
    (hq : ∀ q ∈ l.requests, ((g.put d o).put f (some y)).Backs q.offset) :
    m.Ok ((g.put d o).put f (some y)) where
  exchange e fr' := by
    have hlook : l.exchange.lookup d = some fr :=
      lookup_of_mem h.keys ((h.exchange d fr).mpr ⟨x, hd, hx⟩)
    rw [he, hlook, List.mem_map]
    constructor
    · rintro ⟨⟨e, fr''⟩, hm, hp⟩
      obtain ⟨hm, hne⟩ := List.mem_filter.mp hm
      dsimp only at hp
      by_cases hef : e = f
      · rw [if_pos hef] at hp
        cases hp
        rw [Share.held_put_self]
        exact ⟨y, rfl, hy⟩
      · rw [if_neg hef] at hp
        cases hp
        rw [Share.held_put_ne _ hef, Share.held_put_ne _ (by simpa using hne)]
        exact (h.exchange e fr').mp hm
    · rintro ⟨w, hw, hws⟩
      by_cases hef : e = f
      · subst hef
        rw [Share.held_put_self] at hw
        cases hw
        rw [hy] at hws
        cases hws
        obtain ⟨fz, hfz⟩ := Option.isSome_iff_exists.mp hz
        refine ⟨(e, fz),
          List.mem_filter.mpr ⟨(h.exchange e fz).mpr ⟨z, hf, hfz⟩, by simpa using hdf.symm⟩, ?_⟩
        simp
      · rw [Share.held_put_ne _ hef] at hw
        have hed : e ≠ d := by
          rintro rfl
          rw [Share.held_put_self] at hw
          rw [ho w hw] at hws
          cases hws
        rw [Share.held_put_ne _ hed] at hw
        refine ⟨(e, fr'),
          List.mem_filter.mpr ⟨(h.exchange e fr').mpr ⟨w, hw, hws⟩, by simpa using hed⟩, ?_⟩
        simp [hef]
  keys := by
    have hmap : m.exchange.map (·.1) = (l.exchange.filter (·.1 != d)).map (·.1) := by
      rw [he, List.map_map]
      refine List.map_congr_left fun p _ => ?_
      by_cases hp : p.1 = f
      · simp [hp]
      · simp [hp]
    rw [hmap]
    exact h.keys.sublist (List.filter_sublist.map _)
  backed q hq' := by
    rw [Local.requests_congr hr] at hq'
    exact hq q hq'
  apart := by
    rw [Local.requests_congr hr]
    exact h.apart

end Local.Ok
end ExtMem
