import TableScan.Proofs.Flights

/-!
# Engagements

A dispatcher with an execution has a ring to publish into and its own reducer at work, and the
cursor of its site is one for the frames of that execution.  Main statements: this holds in every
workshop that can be reached (`Workshop.Reached.engaged`, `Workshop.Reached.views`), the latter by
induction over what cursors do and what others do meanwhile (`Workshop.Reached.cursors`).
-/

namespace TableScan

variable {ω σ : Type}

/-- A dispatcher that has a ring and works with its own reducer, if it has an execution. -/
def Dispatcher.Engaged (d : Dispatcher ω) : Prop :=
  ∀ w, d.work = some w → d.ring ≠ none ∧ w.reducer = d.reducer

namespace Scan

variable {s s' : Scan ω} {π : ω → σ} {M M' : List Lease}

/-- An execution begins with a ring and with the reducer of the dispatcher, and keeps both. -/
lemma Move.engaged (m : Move π (s, M) (s', M')) (h : s.dispatcher.Engaged) :
    s'.dispatcher.Engaged := by
  cases m with
  | publish home done =>
    obtain ⟨ring, work, frame, slot, e, -, -, -, -, rfl⟩ := publishOne?_cases done
    exact h
  | reduce =>
    rw [dispatcher_reduceOne]
    exact h
  | lease done =>
    rw [dispatcher_next? done]
    exact h
  | giveBack | epoch | restart | alike => exact h
  | begin =>
    intro w hw
    obtain rfl := Option.some.inj hw
    exact ⟨Option.some_ne_none _, rfl⟩
  | adjust id reducer ring work =>
    intro w hw
    rcases work with hd | hd
    · rw [ring, reducer]
      exact h w (hd.work ▸ hw)
    · exact absurd (hd.symm.trans hw) (Option.some_ne_none w).symm

lemma Moves.engaged {x y : Scan ω × List Lease} (m : Moves π x y)
    (h : x.1.dispatcher.Engaged) : y.1.dispatcher.Engaged := by
  induction m with
  | refl => exact h
  | tail _ m ih => exact Move.engaged m ih

/-- Undoing a filter and starting again leave the execution as it is. -/
lemma work_rewind (s : Scan ω) :
    s.rewindFilter.rewind.dispatcher.work = s.dispatcher.work ∧
      s.rewindFilter.rewind.dispatcher.frameCount = s.dispatcher.frameCount := by
  have hfilter : s.rewindFilter.dispatcher = s.dispatcher := by
    unfold rewindFilter
    split <;> rfl
  unfold rewind
  split
  · have hp := samePass_publish { s.rewindFilter.nextEpoch with
      dispatcher := { s.rewindFilter.dispatcher with position := 0, starvedAt := none } }
    exact ⟨hp.work.trans (congrArg Dispatcher.work hfilter :),
      hp.count.trans (congrArg Dispatcher.frameCount hfilter :)⟩
  · rw [hfilter]
    exact ⟨rfl, rfl⟩

end Scan

namespace Cursor

open Scan

variable {c c' : Cursor} {d d' : Dispatcher ω} {s s' : Scan ω}

/-- A cursor for the frames of the dispatcher's execution. -/
def Views (c : Cursor) (d : Dispatcher ω) : Prop :=
  ∀ w, d.work = some w → c.frameCount = d.frameCount ∧
    ∀ frame row, (c.view.atFrame frame).atRow row = (w.view.atFrame frame).atRow row

lemma Views.congr (h : c.Views d) (hwork : d'.work = d.work)
    (hcount : d'.frameCount = d.frameCount) (hc : c'.frameCount = c.frameCount)
    (hview : ∀ frame row, (c'.view.atFrame frame).atRow row = (c.view.atFrame frame).atRow row) :
    c'.Views d' := by
  intro w hw
  obtain ⟨hframes, hv⟩ := h w (hwork ▸ hw)
  exact ⟨(hc.trans hframes).trans hcount.symm, fun frame row => (hview frame row).trans (hv frame row)⟩

lemma Views.same (h : c.Views s.dispatcher) (hs : s.SamePass s') : c.Views s'.dispatcher :=
  h.congr hs.work hs.count rfl fun _ _ => rfl

lemma Views.exhaust (h : c.Views d) : c.exhaust.Views d := h

lemma Views.deliver (h : c.Views d) : c.deliver.Views d := by
  unfold Cursor.deliver
  split <;> exact h

/-- Collecting a frame moves the view to it. -/
lemma Views.advance (h : c.Views s.dispatcher) :
    (c.advance s).2.1.Views (c.advance s).2.2.dispatcher := by
  have hadvance := samePass_advance c s
  suffices hc : (c.advance s).2.1.frameCount = c.frameCount ∧ ∀ frame row,
      ((c.advance s).2.1.view.atFrame frame).atRow row = (c.view.atFrame frame).atRow row from
    h.congr hadvance.work hadvance.count hc.1 hc.2
  clear h hadvance
  fun_induction Cursor.advance c s with
  | case1 c s _ stop => cases stop <;> exact ⟨rfl, fun _ _ => rfl⟩
  | case2 c s _ l s' _ _ _ ih => exact ih
  | case3 | case4 | case6 | case7 => exact ⟨rfl, fun _ _ => rfl⟩
  | case5 =>
    rename_i ih
    exact ih

lemma Views.giveBack (h : c.Views s.dispatcher) : c.emptied.Views (c.giveBack s).dispatcher :=
  Views.same (c := c) h (samePass_giveBack c s)

lemma Views.next (h : c.Views s.dispatcher) :
    (c.next s).2.1.Views (c.next s).2.2.dispatcher := by
  have ha := h.giveBack.advance
  unfold Cursor.next
  split
  · exact h
  · exact h
  all_goals
    split
    · exact h.deliver
    · split <;> rename_i hadv <;> rw [hadv] at ha
      · exact ha.deliver
      · exact ha.exhaust
      · exact ha

lemma Views.rewind (h : c.Views s.dispatcher) :
    (c.rewind s).2.1.Views (c.rewind s).2.2.dispatcher := by
  obtain ⟨hwork, hcount⟩ := work_rewind (c.giveBack s)
  have hstart : ({ c.emptied with position := 0, phase := .fresh } : Cursor).Views
      (c.giveBack s).rewindFilter.rewind.dispatcher :=
    h.giveBack.congr hwork hcount rfl fun _ _ => rfl
  have ha := hstart.advance
  unfold Cursor.rewind
  split
  · exact h
  · exact h
  all_goals
    split <;> rename_i hadv <;> rwa [hadv] at ha

/-- Starting over leaves the execution as it is. -/
lemma work_rewind (c : Cursor) (s : Scan ω) :
    (c.rewind s).2.2.dispatcher.work = s.dispatcher.work := by
  by_cases hphase : c.phase = .iterating ∨ c.phase = .exhausted
  · rw [Reads.rewind_eq hphase]
    exact (samePass_advance _ _).work.trans
      ((Scan.work_rewind _).1.trans (samePass_giveBack c s).work)
  · rw [rewind_of_still hphase]

lemma Views.close (h : c.Views s.dispatcher) :
    (c.close s).2.1.Views (c.close s).2.2.dispatcher := by
  have hd : c.emptied.Views (c.giveBack s).drain.2.dispatcher :=
    h.giveBack.same (samePass_drain _)
  unfold Cursor.close
  split
  · exact h
  all_goals
    split <;> rename_i hr
    · rwa [hr] at hd
    · exact nofun

lemma views_openOn (ho : openOn s = (.ok c, s')) : c.Views s'.dispatcher := by
  have hstart : (start s.dispatcher).Views s.dispatcher := by
    intro w hw
    refine ⟨rfl, fun frame row => ?_⟩
    simp only [start, Dispatcher.view, hw]
  have ha := hstart.advance
  unfold openOn at ho
  split at ho
  · rename_i hadv
    rw [hadv] at ha
    obtain ⟨hc, rfl⟩ := Prod.mk.inj ho
    exact Except.ok.inj hc ▸ ha
  · split at ho <;> cases ho

end Cursor

namespace Workshop

open Cursor

variable {W : Workshop ω} {H : List Place} {a : Deed ω} {o : Owner} {n : String}
  {d : Dispatcher ω} {c : OpenCursor}

/-- In every workshop that can be reached, a dispatcher with an execution has a ring and works with
its own reducer. -/
lemma Reached.engaged (hW : W.Reached H) (hd : W.dispatcher? o = some d) : d.Engaged := by
  induction hW generalizing o d with
  | make made =>
    obtain ⟨e, rfl, -⟩ := made_of_hubs (P := fun _ => True) made trivial fun _ _ _ _ _ _ => trivial
    cases o <;> cases hd
  | @deed W H a reached permitted ih =>
    obtain ⟨F, h⟩ := reached.sound
    cases hsite : W.site? a with
    | none =>
      rcases (byHand_after permitted hsite).dispatcher? hd with hd | hwork
      · exact ih hd
      · exact fun w hw => absurd (hwork.symm.trans hw) (Option.some_ne_none w).symm
    | some site =>
      rcases h.shift_unit permitted hsite with hV | ⟨s, s', M, M', hshift⟩
      · rw [hV] at hd
        exact ih hd
      · rcases dispatcher?_of_update hd hshift.dispatchers with rfl | hd
        · exact Scan.Moves.engaged hshift.moves (ih (scan?_eq_some_iff.1 hshift.scan).1)
        · exact ih hd

/-- What holds of cursors and their scans in every workshop that can be reached: what holds of a
cursor when it is opened, and is kept by what the cursor does and by what others do meanwhile. -/
lemma Reached.cursors {P : OpenCursor → Scan ω → Prop} (hW : W.Reached H)
    (opened : ∀ {W : Workshop ω} {F H a n c s}, W.Sound F H → W.Permits a → a.opens? = some n →
      (W.after a).cursors.find? n = some c → (W.after a).scan? c.site = some s → P c s)
    (turn : ∀ {W : Workshop ω} {F H a n b s f}, W.Sound F H → W.cursors.find? n = some b →
      W.scan? b.site = some s → Turn a n f → P b s →
      P { b with cursor := (f b.cursor s).1 } (f b.cursor s).2)
    (others : ∀ {W : Workshop ω} {F H n b s e}, W.Sound F H → W.cursors.find? n = some b →
      W.scan? b.site = some s →
      Engine.Steps s.dispatcher.id (Tenant.Places b s.inbox) (fun _ => ()) s.engine e →
      P b s → P b { s with engine := e })
    {s : Scan ω} (hc : W.cursors.find? n = some c) (hs : W.scan? c.site = some s) : P c s := by
  induction hW generalizing n c s with
  | make made =>
    obtain ⟨e, rfl, -⟩ := made_of_hubs (P := fun _ => True) made trivial fun _ _ _ _ _ _ => trivial
    cases hc
  | @deed W H a reached permitted ih =>
    obtain ⟨F, h⟩ := reached.sound
    rcases cursor_cases h permitted hc with
      hnew | ⟨b, s₀, f, ht, hb, hs₀, rfl, hs₁⟩ | ⟨hme, hb, s₀, hs₀, hs₁⟩
    · exact opened h permitted hnew hc hs
    · obtain rfl := Option.some.inj (hs.symm.trans hs₁)
      exact turn h hb hs₀ ht (ih hb hs₀)
    · obtain rfl := Option.some.inj (hs.symm.trans hs₁)
      have hsteps := (tenant_unit hb hs₀).steps h permitted (spares_unit W a) hme
      exact others h hb hs₀ ((scan?_eq_some_iff.1 hs₀).2.2 ▸ hsteps) (ih hb hs₀)

/-- In every workshop that can be reached, a cursor is one for the execution of its dispatcher. -/
lemma Reached.views (hW : W.Reached H) (hc : W.cursors.find? n = some c)
    (hd : W.dispatcher? c.site.dispatcher = some d) : c.cursor.Views d := by
  obtain ⟨F, h⟩ := hW.sound
  obtain ⟨s, hs, -⟩ := h.fit n c hc
  obtain rfl := Option.some.inj (hd.symm.trans (scan?_eq_some_iff.1 hs).1)
  refine hW.cursors (P := fun c s => c.cursor.Views s.dispatcher) (fun _ hp hnew hc hs => ?_)
    (fun _ _ _ ht hv => ?_) (fun _ _ _ _ hv => hv) hc hs
  · obtain ⟨t, t', ho, ht, -⟩ := opened_cases hp hnew hc
    obtain rfl := Option.some.inj (hs.symm.trans ht)
    exact views_openOn ho
  · cases ht with
    | next => exact hv.next
    | rewind => exact hv.rewind
    | close => exact hv.close

end Workshop

end TableScan
