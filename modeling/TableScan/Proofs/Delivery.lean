import TableScan.Proofs.Conservation
import TableScan.Proofs.Followers

/-!
# Delivery

The rows that a cursor delivers, whatever else is done in its workshop.  Main statement: they are
the first rows of the reference of its source and its filter, and all of them once the cursor does
not deliver any more (`Workshop.delivers_reference`).
-/

namespace TableScan.Workshop

variable {ω σ : Type}

/-- The rows that a cursor has delivered after a deed, with those that it had delivered before. -/
def tally (W : Workshop ω) (n : String) (rows : List RowView) : Deed ω → List RowView
  | .next name => if name = n then rows ++ (W.answer n).2.toList else rows
  | .rewindCursor name => if name = n ∧ W.hasMoved n then [] else rows
  | _ => rows

/-- The rows that a cursor has delivered after a run since it was opened or last started over,
with those that it had delivered before. -/
def delivered (n : String) : Workshop ω → List RowView → List (Deed ω) → List RowView
  | _, rows, [] => rows
  | W, rows, a :: as => delivered n (W.after a) (W.tally n rows a) as

variable {W V : Workshop ω} {F : List Lease} {H : List Place} {n plan : String} {hub : Nat}
  {R : Route σ} {π : ω → σ} {c : OpenCursor} {i : Itinerary} {a : Deed ω} {as : List (Deed ω)}
  {p : Plan ω} {frames : List Frame} {rows : List RowView}

lemma tally_of_ne (hme : a.cursor? ≠ some n) : W.tally n rows a = rows := by
  cases a with
  | next name => exact if_neg fun hn => hme (congrArg some hn)
  | rewindCursor name => exact if_neg fun hn => hme (congrArg some hn.1)
  | _ => rfl

/-! ## What has been delivered, and what is ahead -/

/-- What a cursor has delivered along a route is the beginning of what was ahead at the start; the
rest is ahead as long as the cursor is open. -/
structure Delivers (W : Workshop ω) (n : String) (R : Route σ) (π : ω → σ)
    (rows : List RowView) : Prop where
  follows : ∃ c i, W.Follows n R π c i ∧ (c.cursor.IsOpen → rows ++ i.rows = R.ahead.rows)
  begins : rows <+: R.ahead.rows

namespace Delivers

lemma next (h : W.Sound F H) (hd : W.Delivers n R π rows) :
    (W.after (.next n)).Delivers n R π (W.tally n rows (.next n)) := by
  obtain ⟨⟨c, i, hf, hrest⟩, hbegins⟩ := hd
  obtain ⟨hanswer, c', hf', hended⟩ := hf.next h
  have htally : W.tally n rows (.next n) = rows ++ i.next.1.2.toList := by
    rw [tally, if_pos rfl, hanswer]
  rw [htally]
  by_cases hc : c.cursor.IsOpen
  · have hsum : rows ++ i.next.1.2.toList ++ i.next.2.rows = R.ahead.rows := by
      rw [List.append_assoc, i.toList_next, hrest hc]
    exact ⟨⟨c', _, hf', fun _ => hsum⟩, ⟨_, hsum⟩⟩
  · -- a cursor that has ended stays so, and nothing is ahead of it
    obtain rfl := hended hc
    obtain rfl := hf.ahead_of_ended hc
    refine ⟨⟨c', _, hf', fun hopen => absurd hopen hc⟩, ?_⟩
    rwa [show Itinerary.nothing.next.1.2.toList = [] from rfl, List.append_nil]

lemma rewind (h : W.Sound F H) (hd : W.Delivers n R π rows) :
    (W.after (.rewindCursor n)).Delivers n R π (W.tally n rows (.rewindCursor n)) := by
  obtain ⟨⟨c, i, hf, hrest⟩, hbegins⟩ := hd
  by_cases hphase : c.cursor.phase = .iterating ∨ c.cursor.phase = .exhausted
  · have htally : W.tally n rows (.rewindCursor n) = [] :=
      if_pos ⟨rfl, (hasMoved_iff hf.cursor).2 hphase⟩
    obtain ⟨-, c', i', hf', hok, herror⟩ := hf.rewind h hphase
    rw [htally]
    refine ⟨⟨c', i', hf', fun hopen => ?_⟩, List.nil_prefix⟩
    rw [List.nil_append, hok]
    by_contra hne
    have hp := herror hne
    rcases hopen with ho | ho <;> exact absurd (hp.symm.trans ho) Phase.noConfusion
  · have htally : W.tally n rows (.rewindCursor n) = rows :=
      if_neg fun hn => hphase ((hasMoved_iff hf.cursor).1 hn.2)
    rw [htally]
    exact ⟨⟨c, i, hf.rewind_still h hphase, hrest⟩, hbegins⟩

/-- Every deed keeps what has been delivered in line with the route. -/
lemma after (h : W.Sound F H) (hd : W.Delivers n R π rows) (ha : Admits n π W a) :
    (W.after a).Delivers n R π (W.tally n rows a) := by
  by_cases hme : a.cursor? = some n
  · rcases Deed.cursor?_cases hme with rfl | rfl | rfl | rfl
    · exact hd.next h
    · exact hd.rewind h
    · obtain ⟨⟨c, i, hf, -⟩, hbegins⟩ := hd
      obtain ⟨c', i', hf', hclosed⟩ := hf.close h
      exact ⟨⟨c', i', hf', fun hopen => absurd hopen hclosed⟩, hbegins⟩
    · exact absurd rfl ha.keeps
  · obtain ⟨⟨c, i, hf, hrest⟩, hbegins⟩ := hd
    rw [tally_of_ne hme]
    exact ⟨⟨c, i, hf.others h ha.permits ha.spares hme, hrest⟩, hbegins⟩

lemma run (hW : W.Reached H) (hd : W.Delivers n R π rows) (hrun : Run (Admits n π) W as V) :
    V.Delivers n R π (delivered n W rows as) := by
  induction hrun generalizing H rows with
  | nil => exact hd
  | cons here _ ih =>
    obtain ⟨F, h⟩ := hW.sound
    exact ih (hW.deed here.permits) (hd.after h here)

end Delivers

/-- The rows that a cursor on a plan has delivered since it was opened or last started over are
the first ones of its reference, whatever else is done in the workshop.  When an open cursor does
not move to a row on its next call, it has delivered the whole reference. -/
theorem delivers_reference {verdict : RowView → Verdict} (hW : W.Reached H)
    (hp : W.Permits (.openCursor plan n hub)) (hpl : W.plans.find? plan = some p)
    (hw : (p.source.supply W.engine.world).1 = .ok frames)
    (hverdict : ∀ v w, (p.filter.judge v w).1 = verdict v)
    (hopen : ((Session.openCursor plan n hub).on W).1 = .ok ())
    (hrun : Run (fun V a => V.Permits a ∧ a ≠ .dropCursor n)
      (W.after (.openCursor plan n hub)) as V) :
    delivered n (W.after (.openCursor plan n hub)) [] as <+:
      (p.tour frames).reference verdict ∧
    ∀ c, V.cursors.find? n = some c → c.cursor.IsOpen → (V.answer n).1 ≠ .ok true →
      delivered n (W.after (.openCursor plan n hub)) [] as =
        (p.tour frames).reference verdict := by
  obtain ⟨F, h⟩ := hW.sound
  have hout := hopen
  rw [Session.fst_openCursor hpl hp.2.1] at hout
  obtain ⟨-, -, hidle⟩ := h.vacant hp.1 hpl
  -- the opening has taken the frames, so they fit the schema
  have hfit : p.source.Fits frames := by
    cases hc : (p.openCursor hub W.engine).1 with
    | error stop => rw [hc] at hout; cases hout
    | ok c =>
      obtain ⟨frames', w, hw', hfit⟩ := Plan.openCursor_supplied hidle hc
      rw [hw'] at hw
      exact Except.ok.inj hw ▸ hfit
  have ho : W.Opening plan n hub p frames ⟨p.tour frames, .ofVerdict verdict, ()⟩ fun _ => () :=
    ⟨⟨H, hW⟩, hp, hpl, hw, hfit, rfl, Filter.shows_ofVerdict hverdict, fun _ => rfl,
      fun _ _ _ _ _ _ => leaves_unit .., fun _ _ _ _ _ => leaves_unit ..⟩
  obtain ⟨c, hf⟩ := ho.follows.2 hopen
  rw [← Tour.rows_ahead]
  have hd : (W.after (.openCursor plan n hub)).Delivers n
      ⟨p.tour frames, .ofVerdict verdict, ()⟩ (fun _ => ()) [] :=
    ⟨⟨c, _, hf, fun _ => rfl⟩, List.nil_prefix⟩
  have hrun' := hrun.imp (Q := Admits n fun _ => ()) fun V a ha => ⟨ha.1, V.spares_unit a, ha.2⟩
  have hreached : (W.after (.openCursor plan n hub)).Reached _ := hW.deed hp
  obtain ⟨⟨c', i, hf', hrest⟩, hbegins⟩ := hd.run hreached hrun'
  refine ⟨hbegins, fun b hb hopen hanswer => ?_⟩
  obtain ⟨H', hV⟩ := hrun'.reached (fun _ _ ha => ha.permits) hreached
  obtain ⟨F', hV⟩ := hV.sound
  obtain rfl := Option.some.inj (hb.symm.trans hf'.cursor)
  rw [(hf'.next hV).1] at hanswer
  have hnil := Itinerary.rows_of_next_ne hanswer
  have hsum := hrest hopen
  rwa [hnil, List.append_nil] at hsum

/-- A cursor that has started over after two rows has delivered the first one again. -/
theorem delivers_reference_stocked :
    delivered "c" (stocked.after (.openCursor "p" "c" 0)) []
        [.next "c", .next "c", .rewindCursor "c", .next "c"] <+:
      (stock.tour (plainFrames [1, 0, 2])).reference (fun _ => .keep) ∧
    (delivered "c" (stocked.after (.openCursor "p" "c" 0)) []
        [.next "c", .next "c", .rewindCursor "c", .next "c"]).map
      (fun v => (v.frame, v.row)) = [(0, 0)] := by
  obtain ⟨V, hrun⟩ : ∃ V, Run (fun V a => V.Permits a ∧ a ≠ .dropCursor "c")
      (stocked.after (.openCursor "p" "c" 0))
      [.next "c", .next "c", .rewindCursor "c", .next "c"] V :=
    ⟨_, .cons ⟨trivial, nofun⟩ (.cons ⟨trivial, nofun⟩ (.cons ⟨trivial, nofun⟩
      (.cons ⟨trivial, nofun⟩ .nil)))⟩
  exact ⟨(delivers_reference reached_stocked permits_stocked find?_stocked rfl (fun _ _ => rfl)
    (by decide +kernel) hrun).1, by decide +kernel⟩

/-- A dispatcher of another ring may take away the slot of a frame: the cursor then delivers a row
that was published by hand. -/
theorem misdelivers_crossing :
    (∃ H, furnished.Reached H) ∧ furnished.Permits (.openCursor "g" "c" 0) ∧ ∃ as V,
      Run (fun V a => V.Tolerates a ∧ a ≠ .dropCursor "c") (attended "g") as V ∧
        ¬ delivered "c" (attended "g") [] as <+:
          ((plainSource [1, 1, 1]).tour (plainFrames [1, 1, 1])).reference fun _ => .keep := by
  refine ⟨reached_furnished, ⟨free_of_sites (s := .ofPlan "f") (by decide +kernel) nofun,
    by decide +kernel, by decide +kernel⟩, crossing ++ [.claim 1 "h",
      .edit "h" (fun rows => rows ++ [7]) id, .publishClaim "h", .reduce 1, .next "c", .next "c"],
    _, tolerates_crossing (.inr rfl) (.cons ⟨?_, nofun⟩ (.cons ⟨trivial, nofun⟩
      (.cons ⟨trivial, nofun⟩ (.cons ⟨trivial, nofun⟩ (.cons ⟨trivial, nofun⟩
        (.cons ⟨trivial, nofun⟩ .nil)))))), fun h => ?_⟩
  · show Register.find? _ "h" = none
    decide +kernel
  · exact absurd (h.map fun v => (v.frame, v.row)) (by decide +kernel)

end TableScan.Workshop
