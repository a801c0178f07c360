import TableScan.Proofs.Conservation
import TableScan.Proofs.Readers

/-!
# Progress without workers

Cursors on plans never wait in vain.  Main statement: in every workshop that can be reached,
opening a cursor, moving it on, starting it over and closing it come to an end, and each of them
fails because a ring is saturated exactly when it is told (`Workshop.progress`).
-/

namespace TableScan

variable {ω σ : Type}

/-! ## Outcomes -/

/-- A call that came to an end, with an answer or with a failure. -/
def Ends {α : Type} (r : Except Stop α) : Prop := (∃ a, r = .ok a) ∨ ∃ f, r = .error (.failed f)

/-- A source whose frames fit its schema and that says nothing of saturated rings. -/
structure Source.Regular (source : Source ω) : Prop where
  fits : ∀ w frames w', source.supply w = (.ok frames, w') → source.Fits frames
  unsaturated : ∀ w, ¬ Saturates (source.supply w).1
  ends : ∀ w, (source.supply w).1 ≠ .error .stalled

/-! ## Calm courses -/

/-- A course on which no frame says that a ring is saturated. -/
def Course.Calm (S : Course ω σ) : Prop :=
  ∀ j rows shard waited, ¬ S.found j rows (some (.saturated shard waited))

lemma Find.ends_outcome (x : Find) : Ends x.outcome := by
  cases x with
  | nothing | rows => exact .inl ⟨(), rfl⟩
  | failure b f => exact .inr ⟨f, rfl⟩

lemma Course.Finds.calm {S : Course ω σ} {b : Nat} {x : Find} (hS : S.Calm) (h : S.Finds b x) :
    ¬ Saturates x.outcome := by
  rintro ⟨shard, waited, hx⟩
  induction h with
  | nothing => cases hx
  | pass _ _ _ ih => exact ih hx
  | rows => cases hx
  | failure _ found =>
    obtain rfl := Stop.failed.inj (Except.error.inj hx)
    exact hS _ _ _ _ found

namespace Plan

variable {p : Plan ω} {e : Engine ω} {hub : Nat} {frames : List Frame}

/-- The course of an execution, of which only this much is said: that it is calm. -/
def calmCourse (p : Plan ω) (hub : Nat) (e : Engine ω) (frames : List Frame) : Course ω Unit :=
  p.course hub e frames (fun _ => ()) (fun _ => ())
    fun _ _ error => ∀ shard waited, error ≠ some (.saturated shard waited)

lemma calm_calmCourse : (p.calmCourse hub e frames).Calm :=
  fun _ _ shard waited h => h shard waited rfl

/-- A sweep may fail, but it says nothing of saturated rings. -/
lemma lawful_calmCourse {order : Order} (h : p.dispatcher.reducer = .filtering order) :
    (p.calmCourse hub e frames).Lawful := by
  refine ⟨rfl, fun j _ epoch w result w' _ hred => ⟨fun shard waited => ?_, rfl⟩⟩
  have hfilter : (p.calmCourse hub e frames).work.reducer = .filtering order := h
  rw [hfilter] at hred
  rw [(Task.finish_filtering hred rfl).2.1]
  cases (Filter.sweep ..).1 <;> exact nofun

end Plan

namespace Workshop

variable {W : Workshop ω} {F : List Lease} {H : List Place} {n plan : String} {c : OpenCursor}
  {p : Plan ω} {hub : Nat}

/-! ## Cursors on plans -/

/-- Opening a cursor on a plan whose source supplies frames that fit its schema. -/
lemma Sound.opens (h : W.Sound F H) (hp : W.Permits (.openCursor plan n hub))
    (hpl : W.plans.find? plan = some p) {frames : List Frame} {w : ω}
    (hw : p.source.supply W.engine.world = (.ok frames, w)) (hfit : p.source.Fits frames) :
    (frames ≠ [] ∧ W.engine.Saturated (p.nextRing hub W.engine) ∧
      Saturates ((Session.openCursor plan n hub).on W).1) ∨
    (¬ (frames ≠ [] ∧ W.engine.Saturated (p.nextRing hub W.engine)) ∧
      Ends ((Session.openCursor plan n hub).on W).1 ∧
      ¬ Saturates ((Session.openCursor plan n hub).on W).1 ∧
      (((Session.openCursor plan n hub).on W).1 = .ok () → ∃ c d k,
        (W.after (.openCursor plan n hub)).Reader n (p.calmCourse hub W.engine frames) c d k)) := by
  have hS : (p.calmCourse hub W.engine frames).Lawful := Plan.lawful_calmCourse (h.reducer_eq hpl)
  rcases Reader.opened h hp hpl hw hfit hS (fun _ _ _ _ _ _ => leaves_unit ..)
    (fun _ _ _ _ _ => leaves_unit ..) rfl with hsat | ⟨hn, x, hx, hout, hok⟩
  · exact .inl hsat
  · right
    rw [hout]
    refine ⟨hn, x.ends_outcome, hx.calm Plan.calm_calmCourse, fun ho => ?_⟩
    obtain ⟨c, d, k, hr, -⟩ := hok ho
    exact ⟨_, d, k, hr⟩

/-- Every cursor on a plan reads a calm course. -/
def Attended (W : Workshop ω) : Prop :=
  ∀ n c plan, W.cursors.find? n = some c → c.site.inbox = .plan plan →
    ∃ (S : Course ω Unit) (d : Dispatcher ω) (k : Inbox), S.Lawful ∧ S.Calm ∧ W.Reader n S c d k

lemma Attended.after {a : Deed ω} (ha : W.Attended) (h : W.Sound F H) (hp : W.Permits a) :
    (W.after a).Attended := by
  intro n c plan hc hplan
  cases hn : W.cursors.find? n with
  | some c₀ =>
    -- a cursor that was there is still on its course
    have hsite := site_after h hp hn hc
    obtain ⟨S, d, k, hS, hcalm, hr⟩ := ha n c₀ plan hn (hsite ▸ hplan)
    have hdrop : a ≠ .dropCursor n := by
      rintro rfl
      obtain ⟨s, hs, -⟩ := h.fit n c₀ hn
      rw [after_dropCursor hn hs, cursors_putScan] at hc
      exact absurd (hc.symm.trans Register.find?_erase_self) (Option.some_ne_none _)
    obtain ⟨c', d', k', hr', -⟩ := hr.persists hS (fun _ => rfl) h hp (W.spares_unit a) hdrop
    obtain rfl := Option.some.inj (hc.symm.trans hr'.cursor)
    exact ⟨S, d', k', hS, hcalm, hr'⟩
  | none =>
    -- a new cursor reads the course that its opening began
    have hnew : a.opens? = some n := by
      by_contra hne
      rw [find?_after_none h hp hn hne] at hc
      cases hc
    rcases Deed.opens?_cases hnew with ⟨plan', hub, rfl⟩ | ⟨site, rfl⟩
    · cases hpl : W.plans.find? plan' with
      | none =>
        rw [after_openCursor_none hpl, hn] at hc
        cases hc
      | some p =>
        have hout := Session.on_openCursor hpl hn hub
        have hc' := hc
        rw [after_openCursor hpl hn] at hc'
        rcases ho : p.openCursor hub W.engine with ⟨stop | b, p', e⟩ <;> rw [ho] at hc' hout
        · exact absurd (hc'.symm.trans hn) (Option.some_ne_none _)
        · obtain ⟨-, -, hidle⟩ := h.vacant hp.1 hpl
          obtain ⟨frames, w, hw, hfit⟩ := Plan.openCursor_supplied hidle (congrArg Prod.fst ho)
          rcases h.opens hp hpl hw hfit with ⟨-, -, shard, waited, hsat⟩ | ⟨-, -, -, hok⟩
          · rw [hout] at hsat
            cases hsat
          · obtain ⟨c', d, k, hr⟩ := hok (by rw [hout])
            obtain rfl := Option.some.inj (hc.symm.trans hr.cursor)
            exact ⟨_, d, k, Plan.lawful_calmCourse (h.reducer_eq hpl), Plan.calm_calmCourse, hr⟩
    · -- a cursor opened by hand has an inbox of its own
      obtain ⟨-, -, -, -, ⟨ha, -⟩ | ⟨_, _, _, ha, -⟩⟩ := opened_cases hp hnew hc
      · obtain ⟨rfl, -⟩ := Deed.openOn.inj ha
        obtain ⟨⟨-, K, hK, -⟩, -, -⟩ := hp
        exact absurd (hK.symm.trans hplan) Owner.noConfusion
      · cases ha

lemma Reached.attended (hW : W.Reached H) : W.Attended := by
  induction hW with
  | make made =>
    obtain ⟨e, rfl, -⟩ := made_of_hubs (P := fun _ => True) made trivial fun _ _ _ _ _ _ => trivial
    exact fun n c plan hc => nomatch hc
  | deed reached permitted ih =>
    obtain ⟨F, h⟩ := reached.sound
    exact ih.after h permitted

/-! ## Calls on cursors -/

namespace Reader

variable {S : Course ω Unit} {d : Dispatcher ω} {k : Inbox}

lemma next_ends (hS : S.Lawful) (hcalm : S.Calm) (h : W.Sound F H) (hr : W.Reader n S c d k) :
    Ends ((Session.next n).on W).1 ∧ ¬ Saturates ((Session.next n).on W).1 := by
  have hout : ((Session.next n).on W).1 = (c.cursor.next ⟨d, k, W.engine⟩).1 :=
    congrArg Prod.fst (Session.on_onCursor hr.cursor hr.scan Cursor.next)
  rw [hout]
  rcases hr.reads.next_cases hS (hr.sound h) with
    ⟨-, hn⟩ | ⟨row, rest, -, -, hn⟩ | ⟨-, -, x, hx, hseek⟩
  · rw [hn]
    exact ⟨.inl ⟨_, rfl⟩, nofun⟩
  · rw [hn]
    exact ⟨.inl ⟨_, rfl⟩, nofun⟩
  · cases x with
    | nothing | rows =>
      obtain ⟨c', s', hn, -⟩ := hseek
      rw [hn]
      exact ⟨.inl ⟨_, rfl⟩, nofun⟩
    | failure b f =>
      obtain ⟨c', s', hn, -⟩ := hseek
      rw [hn]
      refine ⟨.inr ⟨f, rfl⟩, fun ⟨shard, waited, hf⟩ => hx.calm hcalm ⟨shard, waited, ?_⟩⟩
      exact congrArg Except.error (Except.error.inj hf)

lemma rewind_ends (hS : S.Lawful) (hcalm : S.Calm) (h : W.Sound F H) (hr : W.Reader n S c d k) :
    Ends ((Session.rewindCursor n).on W).1 ∧
      (Saturates ((Session.rewindCursor n).on W).1 ↔ c.cursor.phase = .exhausted ∧
        0 < c.cursor.frameCount ∧ k.inFlight = [] ∧
        ∃ ring, d.ring = some ring ∧ W.engine.Saturated ring) := by
  have hout : ((Session.rewindCursor n).on W).1 = (c.cursor.rewind ⟨d, k, W.engine⟩).1 :=
    congrArg Prod.fst (Session.on_onCursor hr.cursor hr.scan Cursor.rewind)
  rw [hout, hr.reads.count]
  -- the scan of an exhausted cursor still publishes into the ring of the course
  have hring : c.cursor.phase = .exhausted → d.ring = some S.ring := fun hex =>
    (hr.reads.runs (by rw [hex]; exact Phase.noConfusion)).ring
  by_cases hphase : c.cursor.phase = .iterating ∨ c.cursor.phase = .exhausted
  · have hS' : (S.again S.state S.found).Lawful := hS
    rcases hr.reads.rewind hS' (fun _ => rfl) (hr.sound h) hphase with
      ⟨hex, hcount, ⟨hf, hsat⟩, shard, waited, c', s', hrew, -⟩ | ⟨hn, x, hx, c', s', hrew, -⟩ <;>
      rw [hrew]
    · exact ⟨.inr ⟨_, rfl⟩, fun _ => ⟨hex, hcount, hf, S.ring, hring hex, hsat⟩,
        fun _ => ⟨shard, waited, rfl⟩⟩
    · refine ⟨x.ends_outcome, fun hsat => absurd hsat (hx.calm hcalm), ?_⟩
      rintro ⟨hex, hcount, hf, ring, hd, hsat⟩
      obtain rfl := Option.some.inj (hd.symm.trans (hring hex))
      exact absurd ⟨hex, hcount, hf, hsat⟩ hn
  · have hrew : c.cursor.rewind ⟨d, k, W.engine⟩ = (.ok (), c.cursor, ⟨d, k, W.engine⟩) :=
      Cursor.rewind_of_still hphase _
    rw [hrew]
    exact ⟨.inl ⟨(), rfl⟩, nofun, fun ⟨hex, _⟩ => absurd (.inr hex) hphase⟩

lemma close_ok (h : W.Sound F H) (hr : W.Reader n S c d k) :
    ((Session.close n).on W).1 = .ok () :=
  (congrArg Prod.fst (Session.on_onCursor hr.cursor hr.scan Cursor.close)).trans
    (hr.reads.close (hr.sound h)).1

end Reader

/-- In every workshop that can be reached the calls on cursors of plans come to an end.  A cursor
that is opened meets a saturated ring if there is a frame and the ring of the next execution has
no free slot; a cursor that moves on never does; and a cursor that starts over does if it was
exhausted, with nothing in flight to it and no free slot in its ring. -/
theorem progress (hW : W.Reached H) :
    (∀ plan name hub p, W.Permits (.openCursor plan name hub) → W.plans.find? plan = some p →
      p.source.Regular → ((Session.openCursor plan name hub).on W).1 ≠ .error .stalled ∧
        (Saturates ((Session.openCursor plan name hub).on W).1 ↔
          ∃ frames w, p.source.supply W.engine.world = (.ok frames, w) ∧ frames ≠ [] ∧
            W.engine.Saturated (p.nextRing hub W.engine))) ∧
    ∀ name c s plan, W.cursors.find? name = some c → W.scan? c.site = some s →
      c.site.inbox = .plan plan →
        (Ends ((Session.next name).on W).1 ∧ ¬ Saturates ((Session.next name).on W).1) ∧
        (Ends ((Session.rewindCursor name).on W).1 ∧
          (Saturates ((Session.rewindCursor name).on W).1 ↔ c.cursor.phase = .exhausted ∧
            0 < c.cursor.frameCount ∧ s.inbox.inFlight = [] ∧
            ∃ ring, s.dispatcher.ring = some ring ∧ s.engine.Saturated ring)) ∧
        ((Session.close name).on W).1 = .ok () := by
  obtain ⟨F, h⟩ := hW.sound
  refine ⟨fun plan name hub p hp hpl hreg => ?_, fun name c s plan hc hs hplan => ?_⟩
  · rcases hw : p.source.supply W.engine.world with ⟨stop | frames, w⟩
    · obtain ⟨-, -, hidle⟩ := h.vacant hp.1 hpl
      have hout : ((Session.openCursor plan name hub).on W).1 = .error stop := by
        rw [Session.fst_openCursor hpl hp.2.1, Plan.openCursor_stop hidle hw]
        rfl
      have hstop : (p.source.supply W.engine.world).1 = .error stop := congrArg Prod.fst hw
      rw [hout]
      have hends := hreg.ends W.engine.world
      rw [hstop] at hends
      refine ⟨fun hst => ?_, fun hsat => ?_, fun ⟨_, _, hok, _⟩ => nomatch hok⟩
      · exact hends (congrArg Except.error (Except.error.inj hst))
      · obtain ⟨shard, waited, hf⟩ := hsat
        exact absurd ⟨shard, waited, hstop.trans (congrArg Except.error (Except.error.inj hf))⟩
          (hreg.unsaturated W.engine.world)
    · rcases h.opens hp hpl hw (hreg.fits _ _ _ hw) with ⟨hne, hfull, hsat⟩ | ⟨hn, hends, hsat, -⟩
      · obtain ⟨shard, waited, hf⟩ := hsat
        rw [hf]
        exact ⟨nofun, fun _ => ⟨frames, w, rfl, hne, hfull⟩, fun _ => ⟨shard, waited, rfl⟩⟩
      · refine ⟨fun hst => ?_, fun hs => absurd hs hsat, fun ⟨frames', w', heq, hne, hfull⟩ => ?_⟩
        · rcases hends with ⟨_, he⟩ | ⟨_, he⟩ <;> rw [hst] at he <;> cases he
        · obtain rfl := Except.ok.inj (Prod.mk.inj heq).1
          exact absurd ⟨hne, hfull⟩ hn
  · obtain ⟨S, d, k, hS, hcalm, hr⟩ := hW.attended name c plan hc hplan
    obtain rfl := Option.some.inj (hs.symm.trans hr.scan)
    exact ⟨hr.next_ends hS hcalm h, hr.rewind_ends hS hcalm h, hr.close_ok h⟩

lemma regular_plainSource (rowCounts : List Nat) : (plainSource rowCounts).Regular := by
  refine ⟨fun w frames w' h => ?_, fun w hsat => ?_, fun w => nofun⟩
  · obtain rfl := Except.ok.inj (congrArg Prod.fst h)
    simp [Source.Fits, plainFrames, plainSource, Directory.fits, Directory.ofSchema, Schema.types]
  · obtain ⟨shard, waited, hsat⟩ := hsat
    cases hsat

/-- With one slot published by hand and the other one leased, only a new cursor is in vain. -/
theorem progress_shared :
    Ends ((Session.next "c").on shared).1 ∧ ¬ Saturates ((Session.next "c").on shared).1 ∧
      Ends ((Session.rewindCursor "c").on shared).1 ∧ ((Session.close "c").on shared).1 = .ok () ∧
      Saturates ((Session.openCursor "q" "d" 0).on
        (shared.after (.addPlan "q" (plainSource [1]) keepAll))).1 := by
  obtain ⟨F, h⟩ := reached_shared.sound
  obtain ⟨c, hc⟩ : ∃ c, shared.cursors.find? "c" = some c :=
    Option.isSome_iff_exists.1 (by decide +kernel)
  obtain ⟨s, hs, -⟩ := h.fit "c" c hc
  have hsite : c.site = .ofPlan "p" := site_eq_of_find? (by decide +kernel) hc
  obtain ⟨⟨hnext, hfull⟩, ⟨hrewind, -⟩, hclose⟩ :=
    (progress reached_shared).2 "c" c s "p" hc hs (congrArg Site.inbox hsite)
  have hfree : ∀ W : Workshop Unit, (∀ e ∈ W.cursors.entries, e.2.site = .ofPlan "p") →
      W.Free (.plan "q") := fun W hW => free_of_sites hW (by decide)
  have hreached := reached_shared.deed (a := .addPlan "q" (plainSource [1]) keepAll)
    (hfree _ (by decide +kernel))
  refine ⟨hnext, hfull, hrewind, hclose, ((progress hreached).1 "q" "d" 0 _
    ⟨hfree _ (by decide +kernel), by decide +kernel, by decide +kernel⟩
    Register.find?_bind_self (regular_plainSource [1])).2.2 ⟨_, _, rfl, nofun, ?_⟩⟩
  exact Option.map_eq_some_iff.1 (by decide +kernel)

/-- A dispatcher of another ring may take away the slot of a frame: the cursor then waits in vain
for a free slot, although there is one. -/
theorem starves_crossing :
    (∃ H, furnished.Reached H) ∧ ∃ as V,
      Run (fun V a => V.Tolerates a ∧ a ≠ .dropCursor "c") (attended "f") as V ∧
        (V.cursors.find? "c").map (·.site) = some (.ofPlan "f") ∧
        Saturates ((Session.next "c").on V).1 := by
  refine ⟨reached_furnished, crossing ++ [.dispatch ⟨.own "q", .own "l"⟩ (plainSource [1, 1]) 0
    keepAll, .reduce 1, .next "c"], _, tolerates_crossing (.inl rfl) (.cons ⟨?_, nofun⟩
      (.cons ⟨trivial, nofun⟩ (.cons ⟨trivial, nofun⟩ .nil))), ?_, 1, 0, ?_⟩
  · exact ⟨available_of_sites (s := .ofPlan "f") (by decide +kernel) nofun nofun,
      by decide +kernel⟩
  · decide +kernel
  · decide +kernel

end Workshop

end TableScan
