import TableScan.Proofs.Conservation
import TableScan.Proofs.Followers

/-!
# Replay

A cursor that starts over and a cursor that is opened on the same frames answer alike.  Main
statement: this holds wherever a cursor on a plan is when it starts over, even if its filter keeps
state; and a cursor that has not moved, or is closed, leaves everything as it is
(`Workshop.rewind_replays`).
-/

namespace TableScan

variable {ω ω' σ : Type}

/-- The next answers of an itinerary, as many as asked for. -/
def Itinerary.answers : Nat → Itinerary → List (Except Stop Bool × Option RowView)
  | 0, _ => []
  | k + 1, i => i.next.1 :: answers k i.next.2

namespace Workshop

/-! ## Workshops that agree -/

/-- Two workshops in which everything is the same, and goes by the same name. -/
structure Agrees (W V : Workshop ω) : Prop where
  engine : V.engine = W.engine
  plans : V.plans.find? = W.plans.find?
  dispatchers : V.dispatchers.find? = W.dispatchers.find?
  inboxes : V.inboxes.find? = W.inboxes.find?
  rings : V.rings.find? = W.rings.find?
  claims : V.claims.find? = W.claims.find?
  leases : V.leases.find? = W.leases.find?
  cursors : V.cursors.find? = W.cursors.find?
  views : V.views.find? = W.views.find?

section Agrees

variable {W V U : Workshop ω} {o : Owner} {site : Site} {s : Scan ω} {n : String} {c : OpenCursor}

lemma Agrees.refl (W : Workshop ω) : W.Agrees W := ⟨rfl, rfl, rfl, rfl, rfl, rfl, rfl, rfl, rfl⟩

lemma Agrees.trans (h : W.Agrees V) (h' : V.Agrees U) : W.Agrees U :=
  ⟨h'.engine.trans h.engine, h'.plans.trans h.plans, h'.dispatchers.trans h.dispatchers,
    h'.inboxes.trans h.inboxes, h'.rings.trans h.rings, h'.claims.trans h.claims,
    h'.leases.trans h.leases, h'.cursors.trans h.cursors, h'.views.trans h.views⟩

lemma agrees_putDispatcher {d : Dispatcher ω} (h : W.dispatcher? o = some d) :
    W.Agrees (W.putDispatcher d o) := by
  cases o with
  | own name => exact { Agrees.refl W with dispatchers := Register.find?_bind_again h }
  | plan name =>
    obtain ⟨p, hp, rfl⟩ := Option.map_eq_some_iff.1 h
    simp only [putDispatcher, hp]
    exact { Agrees.refl W with plans := Register.find?_bind_again hp }

lemma agrees_putInbox {k : Inbox} (h : W.inbox? o = some k) : W.Agrees (W.putInbox k o) := by
  cases o with
  | own name => exact { Agrees.refl W with inboxes := Register.find?_bind_again h }
  | plan name =>
    obtain ⟨p, hp, rfl⟩ := Option.map_eq_some_iff.1 h
    simp only [putInbox, hp]
    exact { Agrees.refl W with plans := Register.find?_bind_again hp }

/-- To put the parts of a scan back as they are changes nothing. -/
lemma agrees_putScan (h : W.scan? site = some s) : W.Agrees (W.putScan site s) := by
  obtain ⟨hd, hk, he⟩ := scan?_eq_some_iff.1 h
  have hk' : (W.putDispatcher s.dispatcher site.dispatcher).inbox? site.inbox = some s.inbox := by
    rwa [inbox?_putDispatcher]
  have hput := (agrees_putDispatcher hd).trans (agrees_putInbox hk')
  exact { hput with engine := he.symm }

/-- A cursor that has not moved, or is closed, does not start over. -/
lemma agrees_rewindCursor (hc : W.cursors.find? n = some c) (hs : W.scan? c.site = some s)
    (hphase : ¬ (c.cursor.phase = .iterating ∨ c.cursor.phase = .exhausted)) :
    ((Session.rewindCursor n).on W).1 = .ok () ∧ W.Agrees (W.after (.rewindCursor n)) := by
  have hrew := Cursor.rewind_of_still hphase s
  have hout := Session.on_onCursor hc hs Cursor.rewind
  rw [hrew] at hout
  refine ⟨congrArg Prod.fst hout, ?_⟩
  rw [Turn.rewind.after hc hs, hrew]
  have hput := agrees_putScan hs
  exact { hput with cursors := (Register.find?_bind_again hc) }

end Agrees

/-! ## Answers along a run -/

/-- The answer that a deed gives, if it moves the cursor on. -/
def answerTo (n : String) (W : Workshop ω) :
    Deed ω → Option (Except Stop Bool × Option RowView)
  | .next name => if name = n then some (W.answer n) else none
  | _ => none

/-- The answers to the calls of a run that move a cursor on. -/
def answers (n : String) : Workshop ω → List (Deed ω) →
    List (Except Stop Bool × Option RowView)
  | _, [] => []
  | W, a :: as => (W.answerTo n a).toList ++ answers n (W.after a) as

/-- A deed with which a cursor goes on: the cursor may move on, but it does not start over, and
is neither closed nor let go of. -/
structure GoesOn (n : String) (π : ω → σ) (W : Workshop ω) (a : Deed ω) : Prop where
  permits : W.Permits a
  spares : W.Spares π a
  on : a.cursor? = some n → a = .next n

variable {W V W₀ : Workshop ω} {H : List Place} {n plan : String} {hub : Nat} {R : Route σ}
  {π : ω → σ} {c : OpenCursor} {i : Itinerary} {a : Deed ω} {as : List (Deed ω)}
  {p : Plan ω} {frames : List Frame}

lemma answerTo_of_ne (hme : a.cursor? ≠ some n) : W.answerTo n a = none := by
  cases a with
  | next name => exact if_neg fun hn => hme (congrArg some hn)
  | _ => rfl

/-- A follower that goes on answers as its itinerary does. -/
lemma Follows.answers_eq (hW : W.Reached H) (hf : W.Follows n R π c i)
    (hrun : Run (GoesOn n π) W as V) :
    answers n W as = i.answers (answers n W as).length := by
  induction hrun generalizing H c i with
  | nil => rfl
  | @cons W V a as here _ ih =>
    obtain ⟨F, h⟩ := hW.sound
    by_cases hme : a.cursor? = some n
    · obtain rfl := here.on hme
      obtain ⟨hanswer, c', hf', -⟩ := hf.next h
      have hcons : answers n W (.next n :: as) =
          i.next.1 :: answers n (W.after (.next n)) as := by
        simp only [answers, answerTo, if_true, hanswer]
        rfl
      rw [hcons, List.length_cons, Itinerary.answers, ← ih (hW.deed here.permits) hf']
    · have hnone : answers n W (a :: as) = answers n (W.after a) as := by
        simp only [answers, answerTo_of_ne hme]
        rfl
      rw [hnone]
      exact ih (hW.deed here.permits) (hf.others h here.permits here.spares hme)

/-- Wherever a cursor on a plan is, starting it over replays its scan.  A cursor that has not moved,
or is closed, leaves everything as it is.  Any other one that does not meet a saturated ring comes
to the same outcome as a cursor that is opened, anywhere, along the same route with its filter in
the state in which it starts; and then both give the same answers, with the same rows. -/
theorem rewind_replays (ho : W₀.Opening plan n hub p frames R π)
    (hopen : ((Session.openCursor plan n hub).on W₀).1 = .ok ())
    (hrun : Run (Admits n π) (W₀.after (.openCursor plan n hub)) as W) :
    (W.hasMoved n = false →
      ((Session.rewindCursor n).on W).1 = .ok () ∧ W.Agrees (W.after (.rewindCursor n))) ∧
    (W.hasMoved n = true → ¬ Saturates ((Session.rewindCursor n).on W).1 →
      ∀ (V₀ : Workshop ω') (plan' m : String) (hub' : Nat) (q : Plan ω') (frames' : List Frame)
        (ρ : ω' → σ), V₀.Opening plan' m hub' q frames' R ρ →
        ρ (q.source.supply V₀.engine.world).2 = R.start →
        ¬ Saturates ((Session.openCursor plan' m hub').on V₀).1 →
        ((Session.rewindCursor n).on W).1 = ((Session.openCursor plan' m hub').on V₀).1 ∧
        (((Session.rewindCursor n).on W).1 = .ok () → ∀ bs bs' W' V',
          Run (GoesOn n π) (W.after (.rewindCursor n)) bs W' →
          Run (GoesOn m ρ) (V₀.after (.openCursor plan' m hub')) bs' V' →
          (answers n (W.after (.rewindCursor n)) bs).length =
            (answers m (V₀.after (.openCursor plan' m hub')) bs').length →
          answers n (W.after (.rewindCursor n)) bs =
            answers m (V₀.after (.openCursor plan' m hub')) bs')) := by
  obtain ⟨H, hW₀⟩ := ho.reached
  obtain ⟨c₀, hf₀⟩ := ho.follows.2 hopen
  have hstart := hW₀.deed ho.permitted
  obtain ⟨c, i, hf⟩ := hf₀.run hstart hrun
  obtain ⟨H', hW⟩ := hrun.reached (fun _ _ ha => ha.permits) hstart
  obtain ⟨F, h⟩ := hW.sound
  have hmoved := hasMoved_iff hf.cursor
  refine ⟨fun hstill => ?_, fun hmove hsat V₀ plan' m hub' q frames' ρ ho' hρ hsat' => ?_⟩
  · obtain ⟨s, hs, -⟩ := h.fit n c hf.cursor
    exact agrees_rewindCursor hf.cursor hs fun hphase => by simp [hmoved.2 hphase] at hstill
  · obtain ⟨hout, c₁, i₁, hf₁, hi₁, -⟩ := hf.rewind h (hmoved.1 hmove)
    have hout := hout.resolve_left hsat
    obtain ⟨hout', hok'⟩ := ho'.follows
    rw [hρ] at hout' hok'
    have hout' : _ = R.ahead.outcome := hout'.resolve_left hsat'
    refine ⟨hout.trans hout'.symm, fun hok bs bs' W' V' hbs hbs' hlen => ?_⟩
    obtain ⟨c₂, hf₂⟩ := hok' (hout'.trans (hout.symm.trans hok))
    obtain ⟨H₂, hV₀⟩ := ho'.reached
    -- both follow the whole route from its start
    obtain rfl := hi₁ hok
    rw [hf₁.answers_eq (hW.deed (a := .rewindCursor n) trivial) hbs, hf₂.answers_eq (hV₀.deed ho'.permitted) hbs', hlen]
    rfl

lemma opening_stocked : stocked.Opening "p" "c" 0 stock (plainFrames [1, 0, 2])
    ⟨stock.tour (plainFrames [1, 0, 2]), keepAll, ()⟩ fun _ => () where
  reached := ⟨[], reached_stocked⟩
  permitted := permits_stocked
  bound := find?_stocked
  supplied := rfl
  fits := by
    unfold Source.Fits
    decide +kernel
  tour := rfl
  filter := fun _ _ => ⟨rfl, rfl⟩
  rewind := fun _ => rfl
  dispatchers := fun _ _ _ _ _ _ => leaves_unit ..
  tasks := fun _ _ _ _ _ => leaves_unit ..

/-- A cursor that starts over after two rows gives the same answers again. -/
theorem rewind_replays_stocked :
    ((Session.rewindCursor "c").on (((stocked.after (.openCursor "p" "c" 0)).after
        (.next "c")).after (.next "c"))).1 = ((Session.openCursor "p" "c" 0).on stocked).1 ∧
      answers "c" ((((stocked.after (.openCursor "p" "c" 0)).after (.next "c")).after
        (.next "c")).after (.rewindCursor "c")) [.next "c", .next "c"] =
      answers "c" (stocked.after (.openCursor "p" "c" 0)) [.next "c", .next "c"] := by
  have hopen : ((Session.openCursor "p" "c" 0).on stocked).1 = .ok () := by decide +kernel
  have hrewind : ((Session.rewindCursor "c").on (((stocked.after (.openCursor "p" "c" 0)).after
      (.next "c")).after (.next "c"))).1 = .ok () := by decide +kernel
  have hnext : ∀ {W : Workshop Unit}, GoesOn "c" (fun _ => ()) W (.next "c") :=
    ⟨trivial, trivial, fun _ => rfl⟩
  have hrun : Run (Admits "c" fun _ => ()) (stocked.after (.openCursor "p" "c" 0))
      [.next "c", .next "c"] _ :=
    .cons ⟨trivial, trivial, nofun⟩ (.cons ⟨trivial, trivial, nofun⟩ .nil)
  obtain ⟨hsame, hanswers⟩ := (rewind_replays opening_stocked hopen hrun).2 (by decide +kernel)
    (by rw [hrewind]; exact nofun) stocked "p" "c" 0 stock _ _ opening_stocked rfl
    (by rw [hopen]; exact nofun)
  exact ⟨hsame, hanswers hrewind _ _ _ _ (.cons hnext (.cons hnext .nil))
    (.cons hnext (.cons hnext .nil)) (by decide +kernel)⟩

/-- A dispatcher of another ring may take away the slot of a frame: once the cursor starts over,
a frame comes to it out of order. -/
theorem misreplays_crossing :
    (∃ H, furnished.Reached H) ∧ ∃ as V,
      Run (fun V a => V.Tolerates a ∧ a ≠ .dropCursor "c") (attended "g") as V ∧
        V.hasMoved "c" = true ∧ ((Session.rewindCursor "c").on V).1 = .ok () ∧
        answers "c" (V.after (.rewindCursor "c")) [.next "c", .next "c"] ≠
          answers "c" (attended "g") [.next "c", .next "c"] := by
  refine ⟨reached_furnished, crossing ++ [.next "c"], _,
    tolerates_crossing (.inr rfl) (.cons ⟨?_, nofun⟩ .nil), ?_, ?_, fun h => ?_⟩
  · trivial
  · decide +kernel
  · decide +kernel
  · exact absurd (congrArg (List.map (·.1)) h) (by decide +kernel)

end Workshop

end TableScan
