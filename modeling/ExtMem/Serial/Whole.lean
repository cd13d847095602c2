import ExtMem.Serial.Skeleton

/-! What holds between two operations when they run one at a time: every descriptor is on
one list and is as that list wants it, frames are neither lost nor shared, reserves are
mutual and the page hash is exact. During an operation some descriptors are in hand. -/
namespace ExtMem
open Threads Threads.Prog

/-- What an operation has a descriptor off its list for: its DRAM frame, or to swap it in. -/
inductive Hand where
  | spare
  | detached
  deriving DecidableEq, Repr

namespace UserPage

def Resident (p : UserPage) : Prop :=
  p.va ≠ 0 ∧ p.va % pageSize = 0 ∧ p.inDram = true ∧ p.virtualOffset.dram = true ∧
    p.swappedOut = false ∧
    p.migrating = false ∧ p.hasReserve = p.reserve.isSome

def Away (p : UserPage) : Prop :=
  p.va ≠ 0 ∧ p.va % pageSize = 0 ∧ p.inDram = false ∧ p.virtualOffset.dram = false ∧
    p.swappedOut = true ∧
    p.hasReserve = false ∧ p.reserve = none

/-- A free descriptor of one of the two spaces. -/
def Free (dram : Bool) (p : UserPage) : Prop :=
  p.va = 0 ∧ p.inDram = dram ∧ p.virtualOffset.dram = dram ∧ p.hasReserve = false ∧ p.reserve = none

def Copy (p : UserPage) : Prop :=
  p.va = 0 ∧ p.inDram = false ∧ p.virtualOffset.dram = false ∧ p.hasReserve = true ∧
    p.reserve ≠ none

/-- What a list wants of its descriptors. -/
def Fits : FifoList → UserPage → Prop
  | .dramFreeList => Free true
  | .diskFreeList => Free false
  | .diskReserveList => Copy
  | .diskActiveList => fun p => p.Away ∧ p.migrating = false
  | .activeList | .inactiveList | .evictionList => Resident

def InHand : Hand → UserPage → Prop
  | .spare => Free true
  | .detached => Away

end UserPage

theorem fits_resident {l : FifoList} (h : l.resident = true) (p : UserPage) :
    UserPage.Fits l p ↔ p.Resident := by
  cases l <;> first | rfl | cases h

/-- A descriptor is on one list or in hand, and is as it must be there. -/
def Skeleton.Place (k : Skeleton) (hand : PageId → Option Hand) (d : PageId) : Prop :=
  match k.list d, hand d with
  | some l, none => (k.page d).Fits l
  | none, some x => (k.page d).InHand x
  | _, _ => False

structure Whole (n : Nat) (frames : List Frame) (hand : PageId → Option Hand)
    (k : Skeleton) : Prop where
  place : ∀ d, d < n → k.Place hand d
  outside : ∀ d, n ≤ d → k.list d = none ∧ hand d = none
  dummy : (k.page n).va = 0
  present : ∀ d, (k.page d).present = false
  pt : ∀ d, d < n → (k.page d).pt = .basep
  /-- The frames lie in their spaces. -/
  room : (∀ f ∈ frames, f.offset + pageSize ≤ if f.dram then k.sizes.1 else k.sizes.2) ∧
    k.sizes.1 < 2 ^ 64 ∧ k.sizes.2 < 2 ^ 64
  frames : ((List.range n).map fun d => (k.page d).virtualOffset).Perm frames
  reserved : ∀ d r, d < n → (k.page d).reserve = some r → r < n ∧ (k.page r).reserve = some d ∧
    (k.list d = some .diskReserveList ↔ k.list r ≠ some .diskReserveList)
  hash : ∀ a d, a ≠ 0 → (k.pages a = some d ↔ d < n ∧ (k.page d).va = a)
  zero : k.pages 0 = some n

namespace Whole
variable {n : Nat} {frames : List Frame} {hand hand' : PageId → Option Hand} {k k' : Skeleton}
  {d r : PageId}
  {l : FifoList}

theorem lt_of_list (h : Whole n frames hand k) (hl : k.list d = some l) : d < n := by
  by_contra hn
  rw [(h.outside d (Nat.le_of_not_lt hn)).1] at hl
  cases hl

theorem lt_of_hand {x : Hand} (h : Whole n frames hand k) (hx : hand d = some x) : d < n := by
  by_contra hn
  rw [(h.outside d (Nat.le_of_not_lt hn)).2] at hx
  cases hx

theorem hand_of_list (h : Whole n frames hand k) (hl : k.list d = some l) : hand d = none := by
  have hp := h.place d (h.lt_of_list hl)
  unfold Skeleton.Place at hp
  rw [hl] at hp
  cases hx : hand d with
  | none => rfl
  | some x =>
    rw [hx] at hp
    exact hp.elim

theorem fits (h : Whole n frames hand k) (hl : k.list d = some l) : (k.page d).Fits l := by
  have hp := h.place d (h.lt_of_list hl)
  unfold Skeleton.Place at hp
  rw [hl, h.hand_of_list hl] at hp
  exact hp

theorem list_of_hand {x : Hand} (h : Whole n frames hand k) (hx : hand d = some x) :
    k.list d = none := by
  cases hl : k.list d with
  | none => rfl
  | some l =>
    rw [h.hand_of_list hl] at hx
    cases hx

theorem inHand {x : Hand} (h : Whole n frames hand k) (hx : hand d = some x) :
    (k.page d).InHand x := by
  have hp := h.place d (h.lt_of_hand hx)
  unfold Skeleton.Place at hp
  rw [h.list_of_hand hx, hx] at hp
  exact hp

theorem list_of_seq {xs : List PageId} (hs : k.fifos.seq l = d :: xs) : k.list d = some l :=
  Queues.tag_of_head hs

/-- A page that the hash names has its address. -/
theorem va_of_hash {a : Nat} (h : Whole n frames hand k) (hd : k.pages a = some d) :
    (k.page d).va = a := by
  by_cases ha : a = 0
  · subst ha
    rw [h.zero, Option.some.injEq] at hd
    rw [← hd]
    exact h.dummy
  · exact ((h.hash a d ha).mp hd).2

/-- What a change of two descriptors must keep. -/
structure Pair (n : Nat) (hand hand' : PageId → Option Hand) (k k' : Skeleton)
    (d r : PageId) : Prop where
  page : ∀ x, x ≠ d → x ≠ r → k'.page x = k.page x
  list : ∀ x, x ≠ d → x ≠ r → k'.list x = k.list x
  hand : ∀ x, x ≠ d → x ≠ r → hand' x = hand x
  lt : d < n ∧ r < n
  place : k'.Place hand' d ∧ k'.Place hand' r
  present : (k'.page d).present = false ∧ (k'.page r).present = false
  pt : (k'.page d).pt = .basep ∧ (k'.page r).pt = .basep
  offsets : ((k'.page d).virtualOffset = (k.page d).virtualOffset ∧
    (k'.page r).virtualOffset = (k.page r).virtualOffset) ∨
    (d ≠ r ∧ (k'.page d).virtualOffset = (k.page r).virtualOffset ∧
      (k'.page r).virtualOffset = (k.page d).virtualOffset)
  /-- Before, the two have no reserve but each other. -/
  closed : (∀ x, (k.page d).reserve = some x → x = d ∨ x = r) ∧
    ∀ x, (k.page r).reserve = some x → x = d ∨ x = r
  reserved : (∀ x, (k'.page d).reserve = some x → x = r ∧ (k'.page r).reserve = some d ∧
      (k'.list d = some .diskReserveList ↔ k'.list r ≠ some .diskReserveList)) ∧
    ∀ x, (k'.page r).reserve = some x → x = d ∧ (k'.page d).reserve = some r ∧
      (k'.list r = some .diskReserveList ↔ k'.list d ≠ some .diskReserveList)

/-- A change of two descriptors that keeps what it must keeps everything, if the hash follows. -/
theorem pair (h : Whole n frames hand k) (hp : Pair n hand hand' k k' d r)
    (hhash : ∀ a x, a ≠ 0 → (k'.pages a = some x ↔ x < n ∧ (k'.page x).va = a))
    (hzero : k'.pages 0 = some n) (hsizes : k'.sizes = k.sizes := by rfl) :
    Whole n frames hand' k' := by
  have hne (x : PageId) (hx : n ≤ x) : x ≠ d ∧ x ≠ r :=
    ⟨fun he => by subst he; exact Nat.not_lt.mpr hx hp.lt.1,
      fun he => by subst he; exact Nat.not_lt.mpr hx hp.lt.2⟩
  refine ⟨fun x hx => ?_, fun x hx => ?_, ?_, fun x => ?_, fun x hx => ?_,
    by rw [hsizes]; exact h.room, ?_, fun x y hx hr => ?_, hhash, hzero⟩
  · by_cases hxd : x = d
    · subst hxd
      exact hp.place.1
    · by_cases hxr : x = r
      · subst hxr
        exact hp.place.2
      · have hpl := h.place x hx
        unfold Skeleton.Place at hpl ⊢
        rwa [hp.page x hxd hxr, hp.list x hxd hxr, hp.hand x hxd hxr]
  · obtain ⟨hxd, hxr⟩ := hne x hx
    rw [hp.list x hxd hxr, hp.hand x hxd hxr]
    exact h.outside x hx
  · obtain ⟨hxd, hxr⟩ := hne n (Nat.le_refl n)
    rw [hp.page n hxd hxr]
    exact h.dummy
  · by_cases hxd : x = d
    · subst hxd
      exact hp.present.1
    · by_cases hxr : x = r
      · subst hxr
        exact hp.present.2
      · rw [hp.page x hxd hxr]
        exact h.present x
  · by_cases hxd : x = d
    · subst hxd
      exact hp.pt.1
    · by_cases hxr : x = r
      · subst hxr
        exact hp.pt.2
      · rw [hp.page x hxd hxr]
        exact h.pt x hx
  · refine List.Perm.trans ?_ h.frames
    have hoff (x : PageId) (hxd : x ≠ d) (hxr : x ≠ r) :
        (k'.page x).virtualOffset = (k.page x).virtualOffset := by
      rw [hp.page x hxd hxr]
    rcases hp.offsets with ⟨hd, hr⟩ | ⟨hdr, hd, hr⟩
    · have heq : (fun x => (k'.page x).virtualOffset) = fun x => (k.page x).virtualOffset := by
        funext x
        by_cases hxd : x = d
        · rw [hxd, hd]
        · by_cases hxr : x = r
          · rw [hxr, hr]
          · exact hoff x hxd hxr
      rw [heq]
    · exact perm_swap hp.lt.1 hp.lt.2 hd hr hoff
  · by_cases hxd : x = d
    · subst hxd
      obtain ⟨rfl, hy, hl⟩ := hp.reserved.1 y hr
      exact ⟨hp.lt.2, hy, hl⟩
    · by_cases hxr : x = r
      · subst hxr
        obtain ⟨rfl, hy, hl⟩ := hp.reserved.2 y hr
        exact ⟨hp.lt.1, hy, hl⟩
      · rw [hp.page x hxd hxr] at hr
        obtain ⟨hyn, hy, hl⟩ := h.reserved x y hx hr
        have hyd : y ≠ d := by
          rintro rfl
          rcases hp.closed.1 x hy with he | he
          · exact hxd he
          · exact hxr he
        have hyr : y ≠ r := by
          rintro rfl
          rcases hp.closed.2 x hy with he | he
          · exact hxd he
          · exact hxr he
        rw [hp.page y hyd hyr, hp.list x hxd hxr, hp.list y hyd hyr]
        exact ⟨hyn, hy, hl⟩

/-- The hash follows of itself where no address changes. -/
theorem pair_same (h : Whole n frames hand k) (hp : Pair n hand hand' k k' d r)
    (hpages : k'.pages = k.pages) (hd : (k'.page d).va = (k.page d).va)
    (hr : (k'.page r).va = (k.page r).va) (hsizes : k'.sizes = k.sizes := by rfl) :
    Whole n frames hand' k' := by
  refine h.pair hp (fun a x ha => ?_) (by rw [hpages]; exact h.zero) hsizes
  have hva : (k'.page x).va = (k.page x).va := by
    by_cases hxd : x = d
    · rw [hxd, hd]
    · by_cases hxr : x = r
      · rw [hxr, hr]
      · rw [hp.page x hxd hxr]
  rw [hpages, hva]
  exact h.hash a x ha

/-- A change of one descriptor that leaves its frame and its reserve alone. -/
theorem single (h : Whole n frames hand k) (hpage : ∀ x, x ≠ d → k'.page x = k.page x)
    (hlist : ∀ x, x ≠ d → k'.list x = k.list x) (hhand : ∀ x, x ≠ d → hand' x = hand x)
    (hdn : d < n) (hplace : k'.Place hand' d) (hpresent : (k'.page d).present = false)
    (hpt : (k'.page d).pt = .basep) (hoffset : (k'.page d).virtualOffset = (k.page d).virtualOffset)
    (hreserve : (k'.page d).reserve = (k.page d).reserve)
    (hcopy : k'.list d = some .diskReserveList ↔ k.list d = some .diskReserveList)
    (hhash : ∀ a x, a ≠ 0 → (k'.pages a = some x ↔ x < n ∧ (k'.page x).va = a))
    (hzero : k'.pages 0 = some n) (hsizes : k'.sizes = k.sizes := by rfl) :
    Whole n frames hand' k' := by
  have hne (x : PageId) (hx : n ≤ x) : x ≠ d := by
    rintro rfl
    exact Nat.not_lt.mpr hx hdn
  have hres (x : PageId) : (k'.page x).reserve = (k.page x).reserve := by
    by_cases hxd : x = d
    · rw [hxd, hreserve]
    · rw [hpage x hxd]
  have hcopies (x : PageId) : k'.list x = some .diskReserveList ↔
      k.list x = some .diskReserveList := by
    by_cases hxd : x = d
    · rw [hxd, hcopy]
    · rw [hlist x hxd]
  have hoff : (fun x => (k'.page x).virtualOffset) = fun x => (k.page x).virtualOffset := by
    funext x
    by_cases hxd : x = d
    · rw [hxd, hoffset]
    · rw [hpage x hxd]
  refine ⟨fun x hx => ?_, fun x hx => ?_, ?_, fun x => ?_, fun x hx => ?_,
    by rw [hsizes]; exact h.room, ?_, fun x y hx hr => ?_, hhash, hzero⟩
  · by_cases hxd : x = d
    · subst hxd
      exact hplace
    · have hpl := h.place x hx
      unfold Skeleton.Place at hpl ⊢
      rwa [hpage x hxd, hlist x hxd, hhand x hxd]
  · rw [hlist x (hne x hx), hhand x (hne x hx)]
    exact h.outside x hx
  · rw [hpage n (hne n (Nat.le_refl n))]
    exact h.dummy
  · by_cases hxd : x = d
    · subst hxd
      exact hpresent
    · rw [hpage x hxd]
      exact h.present x
  · by_cases hxd : x = d
    · subst hxd
      exact hpt
    · rw [hpage x hxd]
      exact h.pt x hx
  · rw [hoff]
    exact h.frames
  · rw [hres] at hr
    obtain ⟨hyn, hy, hl⟩ := h.reserved x y hx hr
    refine ⟨hyn, by rw [hres]; exact hy, ?_⟩
    rw [Ne, hcopies x, hcopies y]
    exact hl

/-- The hash follows of itself where the address does not change. -/
theorem hash_same (h : Whole n frames hand k) (k' : Skeleton) (hpages : k'.pages = k.pages)
    (hva : ∀ x, (k'.page x).va = (k.page x).va) :
    (∀ a x, a ≠ 0 → (k'.pages a = some x ↔ x < n ∧ (k'.page x).va = a)) ∧ k'.pages 0 = some n := by
  refine ⟨fun a x ha => ?_, by rw [hpages]; exact h.zero⟩
  rw [hpages, hva]
  exact h.hash a x ha

end Whole
end ExtMem
