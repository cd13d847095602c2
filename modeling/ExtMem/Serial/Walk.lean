import ExtMem.Refused
import ExtMem.Serial.Conserved

/-! The walk of munmap over the pages of its range: when it comes to an end. -/
namespace ExtMem
open Threads Threads.Prog

variable {n : Nat} {frames : List Frame} {k : Skeleton} {e : Env} {a addr length : Nat}

/-- One pass of the walk. -/
def walkBody (addr length pageBoundry : Nat) : Paging (Nat ⊕ Unit) := do
  if pageBoundry < add64 addr length then do
    let next ← unmapPage pageBoundry
    pure (.inl next)
  else pure (.inr ())

theorem unmapWalk_eq (addr length : Nat) :
    unmapWalk addr length = Prog.loop (walkBody addr length) addr := rfl

/-- A state in which the walk is under way. -/
def Walking (n : Nat) (frames : List Frame) (e : Env) : Prop :=
  ∃ k, e.sh.skeleton = k.locked ∧ Settled n frames k

private theorem total_walkBody (h : Walking n frames e) (ha : a ≠ 0) (hlt : a < add64 addr length) :
    Total (walkBody addr length a) e fun r e' =>
        ∃ b, r = .inl b ∧ b = add64 a pageSize ∧ Walking n frames e' := by
  obtain ⟨k, hk, hs⟩ := h
  unfold walkBody
  rw [if_pos hlt]
  refine (total_unmapPage hk hs ha).bind ?_
  rintro b e' ⟨hb, hk'⟩
  exact .ret ⟨b, rfl, hb, k.forget a, hk', hs.forget ha⟩

/-- The walk stops at once where no address is below its end. -/
private theorem total_walk_of_le (hle : add64 addr length ≤ a) :
    Total (Prog.loop (walkBody addr length) a) e fun _ _ => True := by
  refine .iter ?_
  unfold walkBody
  rw [if_neg (Nat.not_lt.mpr hle)]
  exact .ret trivial

/-- Where no page address below its end is within a page of the top, the walk reaches its end. -/
theorem total_walk (h : Walking n frames e) (ha : a ≠ 0)
    (hend : add64 addr length ≤ 2 ^ 64 - pageSize + a % pageSize) :
    Total (Prog.loop (walkBody addr length) a) e fun _ _ => True := by
  have hps : pageSize = 4096 := rfl
  suffices hm : ∀ m a e, Walking n frames e → a ≠ 0 →
    add64 addr length ≤ 2 ^ 64 - pageSize + a % pageSize → add64 addr length ≤ a + m →
    Total (Prog.loop (walkBody addr length) a) e fun _ _ =>
    True from hm (add64 addr length) a e h ha hend (Nat.le_add_left _ _)
  intro m
  induction m with
  | zero => exact fun a e _ _ _ hle => total_walk_of_le hle
  | succ m ih =>
    intro a e h ha hend hle
    by_cases hlt : a < add64 addr length
    · refine .iter ((total_walkBody h ha hlt).bind' fun r e' ⟨b, hr, hb, h'⟩ => ?_)
      subst hr
      have hnext : b = a + pageSize := by
        rw [hb, add64, Nat.mod_eq_of_lt]
        simp only [hps] at hend ⊢
        omega
      refine ih b e' h' (by rw [hnext]; omega) ?_ ?_
      · rw [hnext, Nat.add_mod_right]
        exact hend
      · rw [hnext]
        simp only [hps]
        omega
    · exact total_walk_of_le (Nat.not_lt.mp hlt)

/-- At address zero the walk meets the descriptor that is on no list. -/
private theorem not_ends_walk_zero (h : Walking n frames e) (hlt : 0 < add64 addr length) :
    ¬ Ends (Prog.loop (walkBody addr length) 0) e := by
  obtain ⟨k, hk, hs⟩ := h
  intro he
  have hbody : Ends (walkBody addr length 0) e := Ends.left (he.inv .iter)
  unfold walkBody at hbody
  rw [if_pos hlt] at hbody
  exact not_ends_unmapPage hk hs (Ends.left hbody)

/-- A walk that comes within a page of the top wraps round: to address zero, or to another
address below all that it has visited. -/
private theorem not_ends_walk (h : Walking n frames e) (ha : a < 2 ^ 64)
    (hlt : a < add64 addr length) (hend : 2 ^ 64 - pageSize + a % pageSize < add64 addr length) :
    ¬ Ends (Prog.loop (walkBody addr length) a) e := by
  have hps : pageSize = 4096 := rfl
  by_cases hr : a % pageSize = 0
  · suffices hm : ∀ m a e, Walking n frames e → a % pageSize = 0 → a + m * pageSize = 2 ^ 64 →
      a < 2 ^ 64 → ¬ Ends (Prog.loop (walkBody addr length) a) e by
      refine hm ((2 ^ 64 - a) / pageSize) a e h hr ?_ ha
      simp only [hps] at hr ⊢
      omega
    intro m
    induction m with
    | zero => exact fun a e _ _ hm ha => absurd hm (by omega)
    | succ m ih =>
      intro a e h hr hm ha he
      have hlt' : a < add64 addr length := by
        simp only [hps] at *
        omega
      by_cases ha0 : a = 0
      · subst ha0
        exact not_ends_walk_zero h hlt' he
      · obtain ⟨b, e', ⟨hb, h'⟩, he'⟩ := he.pass (total_walkBody h ha0 hlt')
        by_cases hm0 : m = 0
        · have hb0 : b = 0 := by
            rw [hb, add64]
            simp only [hps, hm0] at *
            omega
          subst hb0
          exact not_ends_walk_zero h' (Nat.lt_of_le_of_lt (Nat.zero_le _) hlt') he'
        · have hnext : b = a + pageSize := by
            rw [hb, add64, Nat.mod_eq_of_lt]
            simp only [hps] at *
            omega
          refine ih b e' h' ?_ ?_ ?_ he'
          · rw [hnext, Nat.add_mod_right]
            exact hr
          · rw [hnext]
            simp only [hps] at *
            omega
          · rw [hnext]
            simp only [hps] at *
            omega
  · refine not_ends_loop (fun b e =>
      Walking n frames e ∧ b % pageSize = a % pageSize ∧ b < add64 addr length) ?_ ⟨h, rfl, hlt⟩
    rintro b e ⟨h, hb, hlt⟩
    have hb0 : b ≠ 0 := by
      rintro rfl
      exact hr (by rw [← hb, Nat.zero_mod])
    refine (total_walkBody h hb0 hlt).mono ?_
    rintro r e' ⟨c, hr', hc, h'⟩
    refine ⟨c, hr', h', ?_⟩
    have hadd : add64 addr length < 2 ^ 64 := Nat.mod_lt _ (by decide)
    rw [hc, add64]
    simp only [hps] at *
    omega

/-- Where the walk of munmap over a range comes to its end: the range is empty as its end
wraps, or its start is not zero and no page address of it is the last one before the top. -/
def WalkEnds (addr length : Nat) : Prop :=
  add64 addr length ≤ addr ∨ addr ≠ 0 ∧ add64 addr length ≤ 2 ^ 64 - pageSize + addr % pageSize

theorem walk_ends_iff {dramsize disksize : Nat} {c : System} (h : Paused dramsize disksize c)
    (t : Tid) {addr length : Nat} (haddr : addr < 2 ^ 64) :
    Ends (unmapWalk addr length) (Threads.Ctx.unmapping ⟨c.sh, c.loc t⟩) ↔
    WalkEnds addr length := by
  have hw : Walking (initTotal dramsize disksize) (initFrames dramsize disksize)
      (Threads.Ctx.unmapping ⟨c.sh, c.loc t⟩) := ⟨c.sh.skeleton, rfl, h.settled⟩
  rw [unmapWalk_eq]
  constructor
  · intro he
    by_contra hc
    simp only [WalkEnds, not_or, not_and, Nat.not_le] at hc
    by_cases h0 : addr = 0
    · subst h0
      exact not_ends_walk_zero hw hc.1 he
    · exact not_ends_walk hw haddr hc.1 (hc.2 h0) he
  · rintro (hle | ⟨h0, hend⟩)
    · exact (total_walk_of_le hle).ends_self
    · exact (total_walk hw h0 hend).ends_self

/-- The walk over a page with a reserve, a page that is swapped out and one more comes to its
end. -/
theorem walk_ends_evicted :
    ((evictedMachine.sh.page 0).hasReserve = true ∧ (evictedMachine.sh.page 1).swappedOut = true ∧
        ∀ i < 3, evictedMachine.sh.pages (smallBase + i * pageSize) = some i) ∧
    Ends (unmapWalk smallBase (3 * pageSize)) (Threads.Ctx.unmapping
        ⟨(System.start evictedMachine).sh, (System.start evictedMachine).loc 0⟩) := by
  have hpages : (evictedMachine.sh.page 0).hasReserve = true ∧
      (evictedMachine.sh.page 1).swappedOut = true ∧
      ∀ i < 3, evictedMachine.sh.pages (smallBase + i * pageSize) = some i := by
    decide +kernel
  have hends : WalkEnds smallBase (3 * pageSize) := .inr ⟨by decide, by decide⟩
  exact ⟨hpages, (walk_ends_iff paused_evicted 0 (by decide)).mpr hends⟩

/-- The unmapping of the page at address zero does not end. -/
theorem walk_of_zero_not_ends :
    ¬ Ends (unmapWalk 0 pageSize) (Threads.Ctx.unmapping
      ⟨(System.start (smallMachine false)).sh, (System.start (smallMachine false)).loc 0⟩) := by
  have hw : Walking (initTotal (2 * pageSize) (2 * pageSize))
      (initFrames (2 * pageSize) (2 * pageSize)) (Threads.Ctx.unmapping
      ⟨(System.start (smallMachine false)).sh, (System.start (smallMachine false)).loc 0⟩) :=
    ⟨(System.start (smallMachine false)).sh.skeleton, rfl, paused_smallMachine.settled⟩
  rw [unmapWalk_eq]
  exact not_ends_walk_zero hw (by decide)

end ExtMem
