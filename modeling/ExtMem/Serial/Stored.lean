import ExtMem.Serial.CleanBatch
import ExtMem.Serial.EvictionPaths
import ExtMem.Serial.Gentle

/-! Where the bytes of every tracked page are: in memory, or on disk. A clean page in memory that
keeps a disk frame has its bytes there too. -/
namespace ExtMem
open Threads Threads.Prog

/-- A page of zeros. -/
def zeroes : Bytes := fun _ => 0

/-- The pages hold the bytes that `m` tells by their addresses. `clean` tells of which pages in
memory it is known that they were not written to since they came in. -/
structure Stored (m : Nat → Bytes) (k : Skeleton) (pte : Nat → Option Pte) (disk : Nat → Bytes)
    (clean : Nat → Prop) : Prop where
  away : ∀ a d, a ≠ 0 → k.pages a = some d → (k.page d).swappedOut = true →
    pte a = none ∧ disk (k.page d).virtualOffset.offset = m a
  here : ∀ a d, a ≠ 0 → k.pages a = some d → (k.page d).swappedOut = false →
    ∃ p, pte a = some p ∧ p.bytes = m a
  copy : ∀ a d r, a ≠ 0 → k.pages a = some d → (k.page d).swappedOut = false → clean a →
    (k.page d).reserve = some r →
    disk (k.page r).virtualOffset.offset = m a
  bare : ∀ a, k.vma a = .uffd → k.pages a = none → pte a = none
  blank : ∀ a, k.pages a = none → m a = zeroes
  nowhere : k.vma 0 ≠ .uffd

/-- The state of a thread holds these bytes. -/
def Threads.Ctx.Holds (e : Env) (m : Nat → Bytes) : Prop :=
  Stored m e.sh.skeleton e.sh.pte e.sh.disk fun a => e.dirty a = false

variable {n : Nat} {frames : List Frame} {hand : PageId → Option Hand} {k k' : Skeleton}
  {d r : PageId} {e e' : Env}
  {m : Nat → Bytes} {pte pte' : Nat → Option Pte} {disk disk' : Nat → Bytes}
    {clean clean' : Nat → Prop} {a : Nat}

namespace Stored

/-- What counts of the page table is its bytes, and fewer pages may be known to be clean. -/
theorem congr (h : Stored m k pte disk clean)
    (hp : ∀ a, (pte' a).map (·.bytes) = (pte a).map (·.bytes))
    (hc : ∀ a, (pte' a).isSome = true → clean' a → clean a) : Stored m k pte' disk clean' := by
  have hnone (a : Nat) (hn : pte a = none) : pte' a = none := by
    have hpa := hp a
    rw [hn] at hpa
    exact Option.map_eq_none_iff.mp hpa
  have hsome (a : Nat) (d : PageId) (ha : a ≠ 0) (hd : k.pages a = some d)
      (hs : (k.page d).swappedOut = false) : ∃ p, pte' a = some p ∧ p.bytes = m a := by
    obtain ⟨p, hpa, hb⟩ := h.here a d ha hd hs
    have hpa' := hp a
    rw [hpa, Option.map_some] at hpa'
    obtain ⟨p', hp', hb'⟩ := Option.map_eq_some_iff.mp hpa'
    exact ⟨p', hp', hb'.trans hb⟩
  refine ⟨fun a d ha hd hs => ⟨hnone a (h.away a d ha hd hs).1, (h.away a d ha hd hs).2⟩, hsome,
    fun a d r ha hd hs hcl => ?_, fun a hv hn => hnone a (h.bare a hv hn), h.blank, h.nowhere⟩
  obtain ⟨p, hp', -⟩ := hsome a d ha hd hs
  exact h.copy a d r ha hd hs (hc a (by rw [hp']; rfl) hcl)

/-- Only the hash, the kinds of mappings and where the pages are count of the rest. -/
theorem reskin (h : Stored m k pte disk clean) (hp : k'.pages = k.pages) (hv : k'.vma = k.vma)
    (hw : ∀ d, (k'.page d).whereabouts = (k.page d).whereabouts) : Stored m k' pte disk clean := by
  have hoff (d : PageId) : (k'.page d).virtualOffset = (k.page d).virtualOffset :=
    congrArg Prod.fst (hw d)
  have hout (d : PageId) : (k'.page d).swappedOut = (k.page d).swappedOut :=
    congrArg (fun x => x.2.1) (hw d)
  have hres (d : PageId) : (k'.page d).reserve = (k.page d).reserve :=
    congrArg (fun x => x.2.2) (hw d)
  refine ⟨fun a d ha hd hs => ?_, fun a d ha hd hs => ?_, fun a d r ha hd hs hcl hr => ?_,
    fun a hva hn => ?_, fun a hn => ?_, ?_⟩
  · rw [hp] at hd
    rw [hout] at hs
    rw [hoff]
    exact h.away a d ha hd hs
  · rw [hp] at hd
    rw [hout] at hs
    exact h.here a d ha hd hs
  · rw [hp] at hd
    rw [hout] at hs
    rw [hres] at hr
    rw [hoff]
    exact h.copy a d r ha hd hs hcl hr
  · rw [hv] at hva
    rw [hp] at hn
    exact h.bare a hva hn
  · rw [hp] at hn
    exact h.blank a hn
  · rw [hv]
    exact h.nowhere

end Stored

/-- A page that is mapped and clean was clean before code that maps nothing. -/
theorem Gentle.was_clean {u : Bool} (h : Gentle u e e') (hs : (e'.sh.pte a).isSome = true)
    (hc : e'.dirty a = false) : e.dirty a = false := by
  obtain ⟨p', hp'⟩ := Option.isSome_iff_exists.mp hs
  obtain ⟨p, hp, -, hd⟩ := h.mapped a p' hp'
  unfold Threads.Ctx.dirty at hc ⊢
  rw [hp'] at hc
  rw [hp]
  exact hd hc

/-- Code that neither maps nor moves a page leaves the bytes where they are. -/
theorem Threads.Ctx.Holds.gentle (h : e.Holds m) (hg : Gentle false e e') : e'.Holds m := by
  have hbytes (a : Nat) : (e'.sh.pte a).map (·.bytes) = (e.sh.pte a).map (·.bytes) := by
    cases hp : e'.sh.pte a with
    | none => rw [hg.present rfl a hp]
    | some p' =>
      obtain ⟨p, hpa, hb, -⟩ := hg.mapped a p' hp
      rw [hpa, Option.map_some, Option.map_some, hb]
  have hs : Stored m e.sh.skeleton e'.sh.pte e.sh.disk fun a => e'.dirty a = false :=
    Stored.congr h hbytes fun a hs hc => hg.was_clean hs hc
  rw [← hg.disk rfl] at hs
  exact hs.reskin hg.pages hg.vma fun d => hg.place rfl d

/-! Which descriptors share a frame: none do. -/

/-- Different descriptors stand for different frames. -/
theorem Whole.frame_inj (h : Whole n frames hand k) (hf : frames.Nodup) (hd : d < n) (hr : r < n)
    (heq : (k.page d).virtualOffset = (k.page r).virtualOffset) : d = r :=
  List.inj_on_of_nodup_map (h.frames.nodup_iff.mpr hf) (List.mem_range.mpr hd)
    (List.mem_range.mpr hr) heq

/-- Two disk frames at one offset belong to one descriptor. -/
theorem Whole.disk_inj (h : Whole n frames hand k) (hf : frames.Nodup) (hd : d < n) (hr : r < n)
    (hdd : (k.page d).virtualOffset.dram = false) (hrd : (k.page r).virtualOffset.dram = false)
    (heq : (k.page d).virtualOffset.offset = (k.page r).virtualOffset.offset) : d = r := by
  refine h.frame_inj hf hd hr ?_
  cases hfd : (k.page d).virtualOffset
  cases hfr : (k.page r).virtualOffset
  rw [hfd] at hdd heq
  rw [hfr] at hrd heq
  dsimp only at hdd hrd heq
  rw [hdd, hrd, heq]

/-- What a tracked descriptor may be: a resident page, or one that is swapped out, on its list or
taken off it for a swap-in. -/
theorem Whole.of_va (h : Whole n frames hand k) (hd : d < n) (hva : (k.page d).va ≠ 0) :
    ((k.page d).Resident ∧ (∃ l, k.list d = some l ∧ l.resident = true)) ∨
      ((k.page d).Away ∧ (k.list d = some .diskActiveList ∨ hand d = some .detached)) := by
  have hp := h.place d hd
  unfold Skeleton.Place at hp
  cases hl : k.list d with
  | none =>
    rw [hl] at hp
    cases hh : hand d with
    | none =>
      rw [hh] at hp
      exact hp.elim
    | some x =>
      rw [hh] at hp
      cases x with
      | spare => exact absurd hp.1 hva
      | detached => exact .inr ⟨hp, .inr rfl⟩
  | some l =>
    have hfit := h.fits hl
    cases l with
    | activeList => exact .inl ⟨hfit, _, rfl, rfl⟩
    | inactiveList => exact .inl ⟨hfit, _, rfl, rfl⟩
    | evictionList => exact .inl ⟨hfit, _, rfl, rfl⟩
    | diskActiveList => exact .inr ⟨hfit.1, .inl rfl⟩
    | dramFreeList => exact absurd hfit.1 hva
    | diskFreeList => exact absurd hfit.1 hva
    | diskReserveList => exact absurd hfit.1 hva

/-- The reserve of a resident page is a copy on the reserve list. -/
theorem Whole.reserve_of_resident (h : Whole n frames hand k) {l : FifoList}
    (hl : k.list d = some l) (hres : l.resident = true) (hr : (k.page d).reserve = some r) :
    r < n ∧ (k.page r).reserve = some d ∧ k.list r = some .diskReserveList ∧ (k.page r).Copy := by
  obtain ⟨hrn, hback, hiff⟩ := h.reserved d r (h.lt_of_list hl) hr
  have hne : k.list d ≠ some .diskReserveList := by
    rw [hl]
    rintro heq
    cases heq
    cases hres
  have hlr : k.list r = some .diskReserveList := by
    by_contra hc
    exact hne (hiff.mpr hc)
  exact ⟨hrn, hback, hlr, h.fits hlr⟩

/-- A tracked page that is not swapped out is on a list of resident pages. -/
theorem Whole.resident_of (h : Whole n frames hand k) (ha : a ≠ 0) (hd : k.pages a = some d)
    (hs : (k.page d).swappedOut = false) : ∃ l, k.list d = some l ∧ l.resident = true := by
  obtain ⟨hdn, hva⟩ := (h.hash a d ha).mp hd
  rcases h.of_va hdn (by rw [hva]; exact ha) with ⟨-, hl⟩ | ⟨haway, -⟩
  · exact hl
  · rw [haway.2.2.2.2.1] at hs
    cases hs

/-- A tracked page that is swapped out stands for a disk frame. -/
theorem Whole.away_of (h : Whole n frames hand k) (ha : a ≠ 0) (hd : k.pages a = some d)
    (hs : (k.page d).swappedOut = true) : (k.page d).Away := by
  obtain ⟨hdn, hva⟩ := (h.hash a d ha).mp hd
  rcases h.of_va hdn (by rw [hva]; exact ha) with ⟨hres, -⟩ | ⟨haway, -⟩
  · rw [hres.2.2.2.2.1] at hs
    cases hs
  · exact haway

namespace Stored

/-- The partner of a victim is no page's reserve but the victim's. -/
private theorem partner_apart (hw : Whole n frames hand k) (hp : Partner (k.unlink d) d r) :
    r < n ∧ (k.page r).va = 0 ∧ (k.page r).virtualOffset.dram = false ∧
    ∀ x, (k.page r).reserve = some x → x = d := by
  have hlist := hp.list
  rw [Skeleton.list_unlink, if_neg hp.ne, Skeleton.page_unlink] at hlist
  cases hres : (k.page d).hasReserve with
  | true =>
    rw [hres, if_pos rfl] at hlist
    have hc : (k.page r).Copy := hw.fits hlist
    refine ⟨hw.lt_of_list hlist, hc.1, hc.2.2.1, fun x hx => ?_⟩
    have hback := (hp.reserve hres).2
    rw [Skeleton.page_unlink, hx, Option.some.injEq] at hback
    exact hback
  | false =>
    rw [hres, if_neg Bool.false_ne_true] at hlist
    have hfree : (k.page r).Free false := hw.fits hlist
    refine ⟨hw.lt_of_list hlist, hfree.1, hfree.2.2.1, fun x hx => ?_⟩
    rw [hfree.2.2.2.2] at hx
    cases hx

/-- An eviction keeps all bytes if it leaves those of its victim in the frame that it moves to,
and the disk as it was elsewhere. -/
theorem evict (h : Stored m k pte disk clean) (hw : Whole n frames hand k) (hf : frames.Nodup)
    (hd : k.list d = some .evictionList) (hp : Partner (k.unlink d) d r)
    (hto : disk' (k.page r).virtualOffset.offset = m (k.page d).va)
    (helse : ∀ o, o ≠ (k.page r).virtualOffset.offset → disk' o = disk o)
    (hpage : k'.page = ((k.unlink d).evict d r).page) (hpages : k'.pages = k.pages)
    (hvma : k'.vma = k.vma) : Stored m k' (Function.update pte (k.page d).va none) disk' clean := by
  obtain ⟨hrn, hrva, hrdram, hrback⟩ := partner_apart hw hp
  have hdn := hw.lt_of_list hd
  have hpd : k'.page d = (k.page d).evicted (k.page r).virtualOffset := by
    rw [hpage]
    simp [Skeleton.evict, hp.ne.symm]
  have hpx (x : PageId) (h₁ : x ≠ d) (h₂ : x ≠ r) : k'.page x = k.page x := by
    rw [hpage]
    simp [Skeleton.evict, h₁, h₂]
  have hother {a : Nat} {x : PageId} (ha : a ≠ 0) (hx : k.pages a = some x) (hxd : x ≠ d) :
      x < n ∧ x ≠ r ∧ a ≠ (k.page d).va := by
    obtain ⟨hxn, hxva⟩ := (hw.hash a x ha).mp hx
    refine ⟨hxn, ?_, fun hc => hxd ?_⟩
    · rintro rfl
      exact ha (hxva.symm.trans hrva)
    · have hd' := (hw.hash a d ha).mpr ⟨hdn, hc.symm⟩
      rw [hx, Option.some.injEq] at hd'
      exact hd'
  have hkeep {x : PageId} (hxn : x < n) (hxr : x ≠ r) (hxd : (k.page x).virtualOffset.dram =
      false) : disk' (k.page x).virtualOffset.offset = disk (k.page x).virtualOffset.offset :=
    helse _ fun hc => hxr (hw.disk_inj hf hxn hrn hxd hrdram hc)
  refine ⟨fun a x ha hx hs => ?_, fun a x ha hx hs => ?_, fun a x y ha hx hs hcl hy => ?_,
    fun a hv hn => ?_, fun a hn => h.blank a (by rwa [hpages] at hn), by rw [hvma]; exact h.nowhere⟩
  · rw [hpages] at hx
    by_cases hxd : x = d
    · subst hxd
      obtain ⟨-, hva⟩ := (hw.hash a x ha).mp hx
      rw [hpd, ← hva, Function.update_self]
      exact ⟨rfl, hto⟩
    · obtain ⟨hxn, hxr, hav⟩ := hother ha hx hxd
      rw [hpx x hxd hxr] at hs ⊢
      rw [Function.update_of_ne hav, hkeep hxn hxr (hw.away_of ha hx hs).2.2.2.1]
      exact h.away a x ha hx hs
  · rw [hpages] at hx
    by_cases hxd : x = d
    · subst hxd
      rw [hpd] at hs
      cases hs
    · obtain ⟨-, hxr, hav⟩ := hother ha hx hxd
      rw [hpx x hxd hxr] at hs
      rw [Function.update_of_ne hav]
      exact h.here a x ha hx hs
  · rw [hpages] at hx
    by_cases hxd : x = d
    · subst hxd
      rw [hpd] at hs
      cases hs
    · obtain ⟨-, hxr, -⟩ := hother ha hx hxd
      rw [hpx x hxd hxr] at hs hy
      obtain ⟨l, hl, hres⟩ := hw.resident_of ha hx hs
      obtain ⟨hyn, hyback, hly, hcopy⟩ := hw.reserve_of_resident hl hres hy
      have hyd : y ≠ d := by
        rintro rfl
        rw [hd] at hly
        cases hly
      have hyr : y ≠ r := by
        rintro rfl
        exact hxd (hrback x hyback)
      rw [hpx y hyd hyr, hkeep hyn hyr hcopy.2.2.1]
      exact h.copy a x y ha hx hs hcl hy
  · rw [hvma] at hv
    rw [hpages] at hn
    rw [Function.update_apply]
    split
    · rfl
    · exact h.bare a hv hn

/-- A page that is brought in has its bytes in memory and keeps its disk frame for them. -/
theorem bringIn (h : Stored m k pte disk clean) (hw : Whole n frames hand k)
    (hd : hand d = some .detached) (hr : hand r = some .spare) {p : Pte}
    (hp : p.bytes = m (k.page d).va) (hc : ∀ a, a ≠ (k.page d).va → clean' a → clean a) :
    Stored m (k.bringIn d r) (Function.update pte (k.page d).va (some p)) disk clean' := by
  have hda : (k.page d).Away := hw.inHand hd
  have hrf : (k.page r).Free true := hw.inHand hr
  have hne : r ≠ d := by
    rintro rfl
    rw [hd] at hr
    cases hr
  have hdn := hw.lt_of_hand hd
  have hhash : k.pages (k.page d).va = some d := (hw.hash _ d hda.1).mpr ⟨hdn, rfl⟩
  have hpd : (k.bringIn d r).page d = (k.page d).broughtIn (k.page r).virtualOffset r := by
    simp [Skeleton.bringIn, hne.symm]
  have hpr : (k.bringIn d r).page r = (k.page r).kept (k.page d).virtualOffset d := by
    simp [Skeleton.bringIn]
  have hpx (x : PageId) (h₁ : x ≠ d) (h₂ : x ≠ r) : (k.bringIn d r).page x = k.page x := by
    simp [Skeleton.bringIn, h₁, h₂]
  have hother {a : Nat} {x : PageId} (ha : a ≠ 0) (hx : k.pages a = some x) (hxd : x ≠ d) :
      x ≠ r ∧ a ≠ (k.page d).va := by
    refine ⟨?_, ?_⟩
    · rintro rfl
      exact ha (((hw.hash a x ha).mp hx).2.symm.trans hrf.1)
    · rintro rfl
      rw [hx, Option.some.injEq] at hhash
      exact hxd hhash
  refine ⟨fun a x ha hx hs => ?_, fun a x ha hx hs => ?_, fun a x y ha hx hs hcl hy => ?_,
    fun a hv hn => ?_, h.blank, h.nowhere⟩
  · by_cases hxd : x = d
    · subst hxd
      rw [hpd] at hs
      cases hs
    · obtain ⟨hxr, hav⟩ := hother ha hx hxd
      rw [hpx x hxd hxr] at hs ⊢
      rw [Function.update_of_ne hav]
      exact h.away a x ha hx hs
  · by_cases hxd : x = d
    · subst hxd
      obtain ⟨-, hva⟩ := (hw.hash a x ha).mp hx
      rw [← hva, Function.update_self]
      exact ⟨p, rfl, hp⟩
    · obtain ⟨hxr, hav⟩ := hother ha hx hxd
      rw [hpx x hxd hxr] at hs
      rw [Function.update_of_ne hav]
      exact h.here a x ha hx hs
  · by_cases hxd : x = d
    · subst hxd
      rw [hpd] at hy
      cases hy
      obtain ⟨-, hva⟩ := (hw.hash a x ha).mp hx
      rw [hpr, ← hva]
      exact (h.away _ x hda.1 hhash hda.2.2.2.2.1).2
    · obtain ⟨hxr, hav⟩ := hother ha hx hxd
      rw [hpx x hxd hxr] at hs hy
      obtain ⟨l, hl, hres⟩ := hw.resident_of ha hx hs
      obtain ⟨-, -, hly, -⟩ := hw.reserve_of_resident hl hres hy
      have hyd : y ≠ d := by
        rintro rfl
        rw [hw.list_of_hand hd] at hly
        cases hly
      have hyr : y ≠ r := by
        rintro rfl
        rw [hw.list_of_hand hr] at hly
        cases hly
      rw [hpx y hyd hyr]
      exact h.copy a x y ha hx hs (hc a hav hcl) hy
  · rw [Function.update_apply]
    split
    · next hav =>
      subst hav
      have hn' : k.pages (k.page d).va = none := hn
      rw [hhash] at hn'
      cases hn'
    · exact h.bare a hv hn

/-- A page that is first touched holds zeros, as its address did before. -/
theorem track (h : Stored m k pte disk clean) (hw : Whole n frames hand k)
    (hr : hand r = some .spare) (hn : k.pages a = none) (hc : ∀ b, b ≠ a → clean' b → clean b) :
    Stored m (k.track r a) (Function.update pte a (some .zeroed)) disk clean' := by
  have hrf : (k.page r).Free true := hw.inHand hr
  have hpr : (k.track r a).page r =
      { k.page r with va := a, migrating := false, swappedOut := false } := by
    simp [Skeleton.track]
  have hpx (x : PageId) (hx : x ≠ r) : (k.track r a).page x = k.page x := by
    simp [Skeleton.track, hx]
  have hhash (b : Nat) : (k.track r a).pages b = if b = a then some r else k.pages b :=
    Function.update_apply ..
  have hother {b : Nat} {x : PageId} (hb : b ≠ 0) (hba : b ≠ a) (hx : k.pages b = some x) :
      x ≠ r := by
    rintro rfl
    exact hb (((hw.hash b x hb).mp hx).2.symm.trans hrf.1)
  refine ⟨fun b x hb hx hs => ?_, fun b x hb hx hs => ?_, fun b x y hb hx hs hcl hy => ?_,
    fun b hv hnb => ?_, fun b hnb => ?_, h.nowhere⟩
  · rw [hhash] at hx
    split at hx
    · cases hx
      rw [hpr] at hs
      cases hs
    · next hba =>
      have hxr := hother hb hba hx
      rw [hpx x hxr] at hs ⊢
      rw [Function.update_of_ne hba]
      exact h.away b x hb hx hs
  · rw [hhash] at hx
    split at hx
    · next hba =>
      rw [hba, Function.update_self]
      exact ⟨_, rfl, (h.blank a hn).symm⟩
    · next hba =>
      rw [hpx x (hother hb hba hx)] at hs
      rw [Function.update_of_ne hba]
      exact h.here b x hb hx hs
  · rw [hhash] at hx
    split at hx
    · cases hx
      rw [hpr] at hy
      have hy' : (k.page r).reserve = some y := hy
      rw [hrf.2.2.2.2] at hy'
      cases hy'
    · next hba =>
      have hxr := hother hb hba hx
      rw [hpx x hxr] at hs hy
      obtain ⟨l, hl, hres⟩ := hw.resident_of hb hx hs
      obtain ⟨-, -, hly, -⟩ := hw.reserve_of_resident hl hres hy
      have hyr : y ≠ r := by
        rintro rfl
        rw [hw.list_of_hand hr] at hly
        cases hly
      rw [hpx y hyr]
      exact h.copy b x y hb hx hs (hc b hba hcl) hy
  · rw [hhash] at hnb
    split at hnb
    · cases hnb
    · next hba =>
      rw [Function.update_of_ne hba]
      exact h.bare b hv hnb
  · rw [hhash] at hnb
    split at hnb
    · cases hnb
    · exact h.blank b hnb

/-- A new mapping takes nothing away if no page of its range is tracked. -/
theorem remap (h : Stored m k pte disk clean) {p length : Nat} (hp : p ≠ 0)
    (hfresh : ∀ a, inRange p length a = true → k.pages a = none)
    (hc : ∀ a, inRange p length a = false → clean' a → clean a) :
    Stored m (k.remap p length .uffd)
      (fun a => if inRange p length a then none else pte a) disk clean' := by
  have hout {a : Nat} {x : PageId} (hx : k.pages a = some x) : inRange p length a = false := by
    by_contra hin
    rw [hfresh a (eq_true_of_ne_false hin)] at hx
    cases hx
  refine ⟨fun a x ha hx hs => ?_, fun a x ha hx hs => ?_, fun a x y ha hx hs hcl hy => ?_,
    fun a hv hn => ?_, h.blank, ?_⟩
  · rw [hout hx]
    exact h.away a x ha hx hs
  · rw [hout hx]
    exact h.here a x ha hx hs
  · exact h.copy a x y ha hx hs (hc a (hout hx) hcl) hy
  · have hv' : (if inRange p length a then Vma.uffd else k.vma a) = .uffd := hv
    split
    · rfl
    · next hin =>
      rw [if_neg hin] at hv'
      exact h.bare a hv' hn
  · show (if inRange p length 0 then Vma.uffd else k.vma 0) ≠ .uffd
    rw [if_neg]
    · exact h.nowhere
    · simp only [inRange, Bool.and_eq_true, decide_eq_true_eq, not_and]
      omega

/-- A store changes the bytes of one page that is in memory. -/
theorem write (h : Stored m k pte disk clean) {p : Pte} (hv : k.vma a = .uffd)
    (hp : (pte a).isSome = true) (hc : ∀ b, clean' b → b ≠ a ∧ clean b) :
    Stored (Function.update m a p.bytes) k (Function.update pte a (some p)) disk clean' := by
  have htracked : k.pages a ≠ none := fun hn => by
    rw [h.bare a hv hn] at hp
    cases hp
  refine ⟨fun b x hb hx hs => ?_, fun b x hb hx hs => ?_, fun b x y hb hx hs hcl hy => ?_,
    fun b hvb hn => ?_, fun b hn => ?_, h.nowhere⟩
  · have hba : b ≠ a := by
      rintro rfl
      rw [(h.away b x hb hx hs).1] at hp
      cases hp
    rw [Function.update_of_ne hba, Function.update_of_ne hba]
    exact h.away b x hb hx hs
  · by_cases hba : b = a
    · subst hba
      rw [Function.update_self, Function.update_self]
      exact ⟨p, rfl, rfl⟩
    · rw [Function.update_of_ne hba, Function.update_of_ne hba]
      exact h.here b x hb hx hs
  · obtain ⟨hba, hcb⟩ := hc b hcl
    rw [Function.update_of_ne hba]
    exact h.copy b x y hb hx hs hcb hy
  · have hba : b ≠ a := fun hba => htracked (hba ▸ hn)
    rw [Function.update_of_ne hba]
    exact h.bare b hvb hn
  · have hba : b ≠ a := fun hba => htracked (hba ▸ hn)
    rw [Function.update_of_ne hba]
    exact h.blank b hn

/-- Where pages are forgotten and their range is unmapped, their addresses hold zeros again. -/
theorem unmap (h : Stored m k pte disk clean) {p length : Nat}
    (hgone : ∀ a, inRange p length a = true → k'.pages a = none)
    (hstay : ∀ a, inRange p length a = false → k'.pages a = k.pages a)
    (hvma : ∀ a, k'.vma a = if inRange p length a then .none else k.vma a)
    (hwhere : ∀ a d, a ≠ 0 → k'.pages a = some d →
      (k'.page d).whereabouts = (k.page d).whereabouts ∧ ∀ r, (k.page d).swappedOut = false →
      (k.page d).reserve = some r → (k'.page r).virtualOffset = (k.page r).virtualOffset)
    (hc : ∀ a, inRange p length a = false → clean' a → clean a) :
    Stored (fun a => if inRange p length a then zeroes else m a) k'
      (fun a => if inRange p length a then none else pte a) disk clean' := by
  have hout {a : Nat} {x : PageId} (hx : k'.pages a = some x) :
      inRange p length a = false ∧ k.pages a = some x := by
    have hin : inRange p length a = false := by
      by_contra hin
      rw [hgone a (eq_true_of_ne_false hin)] at hx
      cases hx
    exact ⟨hin, by rw [← hstay a hin]; exact hx⟩
  refine ⟨fun a x ha hx hs => ?_, fun a x ha hx hs => ?_, fun a x y ha hx hs hcl hy => ?_,
    fun a hv hn => ?_, fun a hn => ?_, ?_⟩
  · obtain ⟨hin, hx'⟩ := hout hx
    obtain ⟨hwx, -⟩ := hwhere a x ha hx
    have hs' : (k.page x).swappedOut = true := (congrArg (fun w => w.2.1) hwx).symm.trans hs
    have hoff : (k'.page x).virtualOffset = (k.page x).virtualOffset := congrArg Prod.fst hwx
    rw [hin, hoff]
    exact h.away a x ha hx' hs'
  · obtain ⟨hin, hx'⟩ := hout hx
    have hs' : (k.page x).swappedOut = false :=
      (congrArg (fun w => w.2.1) (hwhere a x ha hx).1).symm.trans hs
    rw [hin]
    exact h.here a x ha hx' hs'
  · obtain ⟨hin, hx'⟩ := hout hx
    obtain ⟨hwx, hry⟩ := hwhere a x ha hx
    have hs' : (k.page x).swappedOut = false := (congrArg (fun w => w.2.1) hwx).symm.trans hs
    have hy' : (k.page x).reserve = some y := (congrArg (fun w => w.2.2) hwx).symm.trans hy
    rw [hin, hry y hs' hy']
    exact h.copy a x y ha hx' hs' (hc a hin hcl) hy'
  · rw [hvma] at hv
    split
    · rfl
    · next hin =>
      rw [if_neg hin] at hv
      exact h.bare a hv (by rw [← hstay a (Bool.eq_false_iff.mpr hin)]; exact hn)
  · split
    · rfl
    · next hin => exact h.blank a (by rw [← hstay a (Bool.eq_false_iff.mpr hin)]; exact hn)
  · rw [hvma]
    split
    · nofun
    · exact h.nowhere

end Stored
end ExtMem
