import ExtMem.Serial.EvictionPaths
import ExtMem.Serial.PrefetchWorker
import ExtMem.Serial.Served
import ExtMem.Transfers.Matched

/-! The first use of a ring: which operations submit to a ring before their thread has
initialised it. -/
namespace ExtMem
open Threads Threads.Prog

variable {dramsize disksize : Nat} {c : System} {t : Tid} {p : Paging Unit}

private theorem ready_of_prefetch {base : Nat} (h : Paused dramsize disksize c)
    (hnot : ¬ PrefetchReady base ⟨c.sh, c.loc t⟩) :
    ∃ e', Aborts (do let _ ← coreTryPrefetch base; pure () : Paging Unit) ⟨c.sh, c.loc t⟩
      .uninitialisedSubmit e' := by
  obtain ⟨hb, hnot⟩ := not_or.mp hnot
  obtain ⟨hinit, hwaits⟩ := not_or.mp hnot
  obtain ⟨e', ha⟩ :=
    PageRank.aborts_prefetchNothing (e := ⟨c.sh, c.loc t⟩) lrudiskPagefault hb (fun d hd =>
      h.settled.whole.va_of_hash hd) (Bool.eq_false_iff.mpr hwaits) (Bool.eq_false_iff.mpr hinit)
  exact ⟨e', ha.bind_left⟩

/-- Between two operations, the next one submits to a ring that its thread has not initialised if
and only if it is a batch or a prefetch that does not find its ring ready. -/
private theorem unready_iff (h : Paused dramsize disksize c) (hp : Operation p) :
    (∃ e', Aborts p ⟨c.sh, c.loc t⟩ .uninitialisedSubmit e') ↔ ¬ RingsReady p ⟨c.sh, c.loc t⟩ := by
  constructor
  · rintro ⟨e', ha⟩ hready
    have hserved := served_operation False True (e := ⟨c.sh, c.loc t⟩) rfl hp h.settled fun _ =>
      hready
    exact (hserved.aborts (fun _ _ => False.elim) ha).2 trivial rfl
  · intro hnot
    by_cases hb : p = lrudiskEvictionworkerVector →
      RingReady ⟨c.sh, c.loc t⟩ (⟨c.sh, c.loc t⟩ : Env).batch
    · by_contra hno
      refine hnot ⟨hb, fun base hbase => ?_⟩
      by_contra hpre
      subst hbase
      exact hno (ready_of_prefetch h hpre)
    · rw [Classical.not_imp] at hb
      obtain ⟨rfl, hb⟩ := hb
      exact aborts_lrudiskEvictionworkerVector h.settled.whole h.settled.mapped hb

/-- A thread uses no ring that it has not initialised: in every interleaving in which each batch
writes something back and each prefetch finds a page, or the thread has used that ring before; and
between two operations exactly those submit to such a ring that do not find their ring ready. -/
theorem rings_initialised (t : Tid) :
    (∀ {c₀ c : System}, Initial c₀ → Conf.Reach PagingOperation readyRings c₀ c →
        ¬ c.CanAbort t .uninitialisedSubmit ∧ ¬ c.CanAbort t .uninitialisedWait) ∧
    ∀ {dramsize disksize : Nat} {c : System} {p : Paging Unit}, Paused dramsize disksize c →
      Operation p →
      ((∃ e', Aborts p ⟨c.sh, c.loc t⟩ .uninitialisedSubmit e') ↔ ¬ RingsReady p ⟨c.sh, c.loc t⟩) :=
  ⟨fun h₀ h => uses_initialised h₀ h t, unready_iff⟩

/-- The rule of the interleavings, as it is checked of one step. -/
def readyCheck (e e' : Env) : Bool := (newEvents e.sh e'.sh).all fun x =>
  match x.2 with
  | .batch writebacks => writebacks.contains true || (e.loc.ring .ioRing).init
  | .prefetching found => !found.isEmpty || (e.loc.ring .ioReadRing).init
  | _ => true

private theorem readyRings_of_check {c : System} {t : Tid} {e : Env}
    (h : readyCheck ⟨c.sh, c.loc t⟩ e = true) : readyRings t c e.sh := by
  intro x hx
  have hc := List.all_eq_true.mp h x hx
  obtain ⟨u, ev⟩ := x
  cases ev with
  | batch writebacks => simpa [ReadyRings] using hc
  | prefetching found => simpa [ReadyRings] using hc
  | _ => trivial

/-- A page is evicted for a third one; the second thread starts a batch of the next victim, and
while it is at work the third one prefetches the first page. Then the second thread starts a batch
again and the third one a prefetch that finds nothing. -/
def workersTurns : List (Conf.Turn Abort Shared Local Tid) :=
  [turnBy 0 mapStep, turnBy 0 (loadStep 0), turnBy 0 (loadStep 1), turnBy 0 (loadStep 2),
    turnBy 1 (20, [], lrudiskEvictionworkerVector),
    turnBy 2 (30, [], do let _ ← coreTryPrefetch (smallBase - pageSize); pure ()),
    goOn 1 3000, goOn 2 3000,
    turnBy 1 (shrinkStep 2), turnBy 1 (20, [], lrudiskEvictionworkerVector),
    turnBy 2 (6, [], do let _ ← coreTryPrefetch (smallBase + 5 * pageSize); pure ())]

private theorem reach_workers :
    ∃ c, Conf.Reach PagingOperation readyRings (System.start roomyMachine) c ∧
      (1, Event.batch [true]) ∈ c.sh.log ∧ (2, .prefetching [0]) ∈ c.sh.log ∧
      (2, .prefetching []) ∈ c.sh.log := by
  have hplay : ((System.start roomyMachine).play readyCheck workersTurns).map (fun c =>
      (decide ((1, Event.batch [true]) ∈ c.sh.log), decide ((2, Event.prefetching [0]) ∈ c.sh.log),
      decide ((2, Event.prefetching []) ∈ c.sh.log))) = some (true, true, true) := by
    decide +kernel
  obtain ⟨c, hc, hx⟩ := Option.map_eq_some_iff.mp hplay
  simp only [Prod.mk.injEq, decide_eq_true_eq] at hx
  refine ⟨c, Conf.Reach.play (fun x hx p hp => ?_) (fun t c d hd s hs => ?_) .init hc, hx⟩
  · simp only [workersTurns, turnBy, goOn, List.mem_cons, List.not_mem_nil, or_false] at hx
    rcases hx with rfl | rfl | rfl | rfl | rfl | rfl | rfl | rfl | rfl | rfl | rfl <;> cases hp
    · exact .operation operation_mapStep
    · exact .operation (operation_loadStep 0)
    · exact .operation (operation_loadStep 1)
    · exact .operation (operation_loadStep 2)
    · exact .operation .evictionworkerVector
    · exact .operation (.prefetch _)
    · exact .operation (operation_shrinkStep 2)
    · exact .operation .evictionworkerVector
    · exact .operation (.prefetch _)
  · rcases hs with rfl | ⟨e, he, rfl⟩
    · have hnone : newEvents d.sh d.sh = [] :=
        newEvents_of_append (show d.sh.log = [] ++ d.sh.log from rfl)
      rw [readyRings, hnone]
      exact fun x hx => by cases hx
    · exact readyRings_of_check he

theorem rings_initialised_workers :
    (∃ c : System, Conf.Reach PagingOperation readyRings (System.start roomyMachine) c ∧
        ((1, Event.batch [true]) ∈ c.sh.log ∧ (2, Event.prefetching [0]) ∈ c.sh.log ∧
        (2, Event.prefetching []) ∈ c.sh.log) ∧ ¬ c.CanAbort 2 .uninitialisedSubmit) ∧
    (¬ ∃ e', Aborts lrudiskEvictionworkerVector ⟨cleanPage.sh,
        cleanPage.loc 0⟩ .uninitialisedSubmit e') ∧ ∃ e', Aborts lrudiskEvictionworkerVector
        ⟨cleanPage.sh, cleanPage.loc 1⟩ .uninitialisedSubmit e' := by
  obtain ⟨c, hc, hlog⟩ := reach_workers
  refine ⟨⟨c, hc, hlog, ((rings_initialised 2).1 launched_roomyMachine.initial hc).1⟩, ?_, ?_⟩
  · rw [(rings_initialised 0).2 paused_cleanPage .evictionworkerVector, not_not]
    exact ⟨fun _ => by decide +kernel, fun _ _ => .inr (.inl (by decide +kernel))⟩
  · rw [(rings_initialised 1).2 paused_cleanPage .evictionworkerVector]
    exact fun h => (by decide +kernel : ¬ RingReady ⟨cleanPage.sh, cleanPage.loc 1⟩
      (⟨cleanPage.sh, cleanPage.loc 1⟩ : Env).batch) (h.batch rfl)

/-- A prefetch worker whose first prefetch finds no page submits to a ring that it never
initialised. -/
theorem empty_prefetch_uninitialised :
    ∃ c₀ c : System, Initial c₀ ∧ Conf.Reach PagingOperation anyStep c₀ c ∧
      c.CanAbort 1 .uninitialisedSubmit := by
  have hops : PagingOperation (do let _ ← coreTryPrefetch smallBase; pure ()) :=
    .operation (.prefetch smallBase)
  have hexec : ((execAbort 100 [] (do let _ ← coreTryPrefetch smallBase; pure ())
      (⟨(smallMachine false).sh, Local.fresh 1⟩ : Env)).map (·.1)) = some .uninitialisedSubmit := by
    decide +kernel
  obtain ⟨⟨why, e⟩, he, rfl⟩ := Option.map_eq_some_iff.mp hexec
  have hloc : (System.start (smallMachine false)).loc 1 = Local.fresh 1 := by
    simp [System.start, System.idle]
  obtain ⟨c, hc, ha, -⟩ :=
    Conf.Reach.aborts (t := (1 : Tid)) (c := System.start (smallMachine false)) .init
      (fun _ => rfl) hops (by rw [hloc]; exact execAbort_aborts he)
  exact ⟨_, c, initial_smallMachine false, hc.mono fun _ _ _ _ => trivial, ha⟩

end ExtMem
