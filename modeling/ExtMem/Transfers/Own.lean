import ExtMem.Plain
import ExtMem.Transfers.Books

/-! The proof outline in which each thread speaks of its own rings and its own books
only; the state that the threads share may be anything at any time. -/
namespace ExtMem
open Threads Threads.Prog Threads.Outline

/-- What must hold of a thread's rings when it goes on to submit what it has: a batch without
a write-back finds the write ring initialised, a prefetch without a page the read ring. -/
def ReadyRings (ring : RingName → Ring) : Event → Prop
  | .batch writebacks => true ∈ writebacks ∨ (ring .ioRing).init = true
  | .prefetching found => found ≠ [] ∨ (ring .ioReadRing).init = true
  | _ => True

/-- The outline; a strict one assumes ready rings and forbids submitting to a ring that is
not initialised. -/
abbrev transfers (strict : Prop) : Outline Abort Shared Local Tid where
  Γ := Tid → Books
  γ := Books
  view G t := G t
  inv s ls G := ∀ t, (ls t).tid = t ∧ G t = books t s.log ∧ Sound (ls t).ring (G t)
  rule t s ls _ s' := strict → ∀ x ∈ newEvents s s', ReadyRings (ls t).ring x.2
  bad why := why = .emptyWait ∨ why = .uninitialisedWait ∨ strict ∧ why = .uninitialisedSubmit

variable {strict : Prop} {t : Tid} {l : Local} {o : Books} {α β : Type}

/-- An action is judged by what it does to the thread's rings and by the events it records. -/
theorem own_action {f : Env → Outcome Abort Env β} {Q : β → Local → Books → Prop}
    (h : Sound l.ring o → ∀ s, match f ⟨s, l⟩ with
      | .ok b e => ∃ evs : List Event, e.sh.log = evs.map (Prod.mk l.tid) ++ s.log
          ∧ e.loc.tid = l.tid ∧
          ((strict → ∀ ev ∈ evs, ReadyRings l.ring ev) →
            Sound e.loc.ring (Books.notes evs o) ∧ Q b e.loc (Books.notes evs o))
      | .wait => True
      | .abort why => ¬ (transfers strict).bad why) :
    (transfers strict).Action t f Q l o := by
  intro s ls G hinv hl hg
  subst hl hg
  obtain ⟨htid, hG, hsound⟩ := hinv t
  have hs := h hsound s
  cases hf : f ⟨s, ls t⟩ with
  | wait => trivial
  | abort why =>
    rw [hf] at hs
    exact hs
  | ok b e =>
    rw [hf] at hs
    obtain ⟨evs, hlog, ht, hq⟩ := hs
    rw [htid] at hlog
    intro hr
    obtain ⟨hs', hQ⟩ := hq fun hst ev hev =>
      hr hst (t, ev) (by rw [newEvents_of_append hlog]; exact List.mem_map_of_mem hev)
    have hown : books t e.sh.log = Books.notes evs (G t) := by
      rw [hlog, books_append, ownEvents_self, ← hG]
    refine ⟨Function.update G t (Books.notes evs (G t)), fun u => ?_, fun u hu => ?_, ?_⟩
    · by_cases hu : u = t
      · subst hu
        simp only [Function.update_self]
        exact ⟨ht.trans htid, hown.symm, hs'⟩
      · obtain ⟨h₁, h₂, h₃⟩ := hinv u
        simp only [Function.update_of_ne hu]
        refine ⟨h₁, ?_, h₃⟩
        rw [hlog, books_append, ownEvents_other hu]
        exact h₂
    · exact Function.update_of_ne hu _ _
    · simpa using hQ

theorem note_plain {ev : Event} (h : ev.plain = true) (o : Books) : Books.note ev o = o := by
  cases ev with
  | copied va src => cases h
  | submitted sqe => cases h
  | completed sqe res => cases h
  | decided d wb => cases h
  | writing d sqe => cases h
  | dropping d => cases h
  | _ => rfl

theorem notes_plain {evs : List Event} (h : ∀ ev ∈ evs, ev.plain = true) (o : Books) :
    Books.notes evs o = o := by
  induction evs with
  | nil => rfl
  | cons ev evs ih =>
    rw [Books.notes_cons, ih fun x hx => h x (List.mem_cons_of_mem _ hx),
      note_plain (h ev List.mem_cons_self)]

/-- An action that makes no transfer and records nothing that the books take note of. -/
def Neutral (β : Type) (f : Env → Outcome Abort Env β) : Prop :=
  ∀ e, match f e with
    | .ok _ e' => e'.loc.ring = e.loc.ring ∧ e'.loc.tid = e.loc.tid ∧ ∃ evs : List Event,
        e'.sh.log = evs.map (Prod.mk e.loc.tid) ++ e.sh.log ∧ ∀ o, Books.notes evs o = o
    | .wait => True
    | .abort why => why ≠ .emptyWait ∧ why ≠ .uninitialisedWait ∧ why ≠ .uninitialisedSubmit

theorem Plain.neutral {f : Env → Outcome Abort Env β} (h : Plain β f) : Neutral β f := by
  intro e
  have hp := h e
  cases he : f e with
  | wait => trivial
  | abort why =>
    rw [he] at hp
    refine ⟨?_, ?_, ?_⟩ <;> rintro rfl <;> exact absurd (hp.resolve_right id) nofun
  | ok b e' =>
    rw [he] at hp
    obtain ⟨evs, hlog, hev⟩ := hp.log
    exact ⟨hp.ring, hp.tid, evs, hlog, notes_plain hev⟩

/-- What is neutral keeps everything that a thread knows of its rings and its books. -/
theorem own_neutral {J : Local → Books → Prop} (hJ : ∀ l l' o, l'.ring = l.ring → J l o → J l' o)
    {p : Paging α} (h : Always Neutral p) (hl : J l o) :
    (transfers strict).Safe t p (fun _ => J) l o := by
  refine safe_of_always (fun β f hf l o hj => own_action fun hs s => ?_) h hl
  have hp := hf ⟨s, l⟩
  cases he : f ⟨s, l⟩ with
  | wait => trivial
  | abort why =>
    rw [he] at hp
    rintro (hw | hw | ⟨-, hw⟩)
    · exact hp.1 hw
    · exact hp.2.1 hw
    · exact hp.2.2 hw
  | ok b e =>
    rw [he] at hp
    obtain ⟨hring, htid, evs, hlog, hev⟩ := hp
    refine ⟨evs, hlog, htid, fun _ => ?_⟩
    rw [hev, hring]
    exact ⟨hs, hJ _ _ _ hring hj⟩

/-- The plain part of the pager is neutral. -/
theorem own_plain {J : Local → Books → Prop} (hJ : ∀ l l' o, l'.ring = l.ring → J l o → J l' o)
    {p : Paging α} (h : Always Plain p) (hl : J l o) :
    (transfers strict).Safe t p (fun _ => J) l o :=
  own_neutral hJ (h.mono fun _ _ => Plain.neutral) hl

end ExtMem
