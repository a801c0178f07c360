import TableScan.Proofs.Engagements
import TableScan.Proofs.Passes
import TableScan.Proofs.Serving

/-!
# Collecting a pass

The cursor of a pass takes a slot of the present epoch only if it brings the frame that the cursor
stands at.  Main statement: what a cursor has delivered and what it has at hand is what one loop
keeps of the frames that it has collected, whoever has reduced them (`Cursor.Collects.next`).
-/

namespace TableScan

variable {ω σ : Type}

namespace Scan

variable {S : Course ω σ} {s s' : Scan ω} {b : Nat} {D : List Nat} {l : Lease}
  {M M' : List Lease} {C L H : List Place}

/-- An active scan on the trail of its course, with these leases at hand. -/
structure Tracked (s : Scan ω) (S : Course ω σ) (b : Nat) (D : List Nat) (M : List Lease)
    (C L H : List Place) : Prop where
  onTrail : s.OnTrail S b D
  active : s.dispatcher.work ≠ none
  home : s.Home
  laden : s.inbox.Laden s.engine
  sound : ∃ F, s.Sound M C L F H

namespace Tracked

lemma serves (h : s.Tracked S b D M C L H) : s.dispatcher.Serves S (b + D.length) :=
  h.onTrail.serves.resolve_left h.active

/-- Moves in the same pass keep an active scan on its trail. -/
lemma moves (hS : S.Lawful) (h : s.Tracked S b D M C L H) (m : Moves S.shown (s, M) (s', M'))
    (hsame : s.SamePass s') : ∃ b' D', b ≤ b' ∧ s'.Tracked S b' D' M' C L H := by
  obtain ⟨F, hs⟩ := h.sound
  obtain ⟨b', D', hle, ht⟩ := Moves.onTrail hS m hs h.onTrail (congrFun hsame.epoch S.id)
  obtain ⟨F', hs', -⟩ := Moves.sound m hs
  exact ⟨b', D', hle, ht, hsame.work ▸ h.active, Moves.home m h.home, Moves.laden m hs h.laden, F',
    hs'⟩

/-- The slot that comes next is of a past epoch, or brings what is found at a position. -/
lemma next? (h : s.Tracked S b D M C L H) (hn : s.next? = .ok (some (l, s'))) :
    s'.Moored ∧ (Cursor.isCurrent s' (s'.engine.task l.ring l.slot) = true →
      ∃ j < b, S.Done s'.engine j (s'.engine.task l.ring l.slot)) := by
  obtain ⟨F, hs⟩ := h.sound
  obtain ⟨ring, slot, rest, r, hring, hflight, hr, hst, rfl, rfl⟩ := next?_cases hn
  have hhome : s.inbox.home = ring := by rw [Inbox.home, hring]; rfl
  refine ⟨⟨ring, ?_, hring⟩, fun hcur => ?_⟩
  · have hd := h.serves.ring
    have hS : s.inbox.home = S.ring := h.home _ hd
    exact hd.trans (congrArg some (hS.symm.trans hhome))
  · have htask : (s.inbox.leased s.engine ring slot).task ring slot = s.engine.task ring slot :=
      (Engine.turns_lease hr hst).task
    rw [htask] at hcur ⊢
    simp only [Cursor.isCurrent, Bool.and_eq_true, beq_iff_eq] at hcur
    -- the task has work, so that it is on the trail or off it for good
    have hwork := h.laden slot (hflight ▸ List.mem_cons_self ..)
    rw [hhome] at hwork
    obtain ⟨w, hw⟩ := Option.ne_none_iff_exists'.1 hwork
    have hid : w.dispatcher = S.id :=
      ((hs.engine.dated ring slot).2 w hw).trans (hcur.1.trans h.onTrail.id)
    have hepoch : (s.engine.task ring slot).epoch = s.engine.epoch S.id :=
      h.onTrail.id ▸ hcur.2
    rcases h.onTrail.trail.spent ring slot w hw hid hepoch with ⟨rfl, hD⟩ | hspent
    · have hpub := h.onTrail.trail.published hD
      rw [Engine.stage?_eq hr, hst] at hpub
      cases hpub
    · rcases hspent with hl | ⟨-, j, hj, hdone⟩
      · rw [Engine.stage?_eq hr, hst] at hl
        cases hl
      · exact ⟨j, hj, hdone.congr rfl⟩

/-- A wait comes to a slot of a past epoch, or to one that brings what is found at a position. -/
lemma await (hS : S.Lawful) (h : s.Tracked S b D M C L H) :
    ∃ b' D', b ≤ b' ∧ s.await.2.Tracked S b' D' (held s.await.1 ++ M) C L H ∧
      ∀ l, s.await.1 = .ok l → s.await.2.Moored ∧
        (Cursor.isCurrent s.await.2 (s.await.2.engine.task l.ring l.slot) = true →
          ∃ j < b', S.Done s.await.2.engine j (s.await.2.engine.task l.ring l.slot)) := by
  fun_induction Scan.await s generalizing b D with
  | case1 => exact ⟨b, D, Nat.le_refl b, h, by rintro _ ⟨⟩⟩
  | case2 s l s' hn =>
    obtain ⟨b', D', hle, h'⟩ := h.moves hS (.single (.lease hn)) (samePass_next? hn)
    obtain ⟨hmoored, hdone⟩ := h.next? hn
    refine ⟨b', D', hle, h', fun l' hl => ?_⟩
    obtain rfl := Except.ok.inj hl
    refine ⟨hmoored, fun hcur => ?_⟩
    obtain ⟨j, hj, hd⟩ := hdone hcur
    exact ⟨j, by omega, hd⟩
  | case3 s hn fault s' hh =>
    obtain ⟨b', D', hle, h'⟩ := h.moves hS (moves_help h.home) (samePass_help s)
    rw [hh] at h'
    exact ⟨b', D', hle, h', by rintro _ ⟨⟩⟩
  | case4 s hn s' hh ih =>
    obtain ⟨b₁, D₁, hle₁, h₁⟩ := h.moves hS (moves_help h.home) (samePass_help s)
    rw [hh] at h₁
    obtain ⟨b₂, D₂, hle₂, h₂⟩ := h₁.moves hS (moves_starvedFrom none) ⟨rfl, rfl, rfl⟩
    obtain ⟨b₃, D₃, hle₃, h₃⟩ := ih h₂
    exact ⟨b₃, D₃, by omega, h₃⟩
  | case5 s hn s' hh =>
    obtain ⟨b₁, D₁, hle₁, h₁⟩ := h.moves hS (moves_help h.home) (samePass_help s)
    rw [hh] at h₁
    obtain ⟨b₂, D₂, hle₂, h₂⟩ := h₁.moves hS (moves_starvedFrom none) ⟨rfl, rfl, rfl⟩
    exact ⟨b₂, D₂, by omega, h₂, by rintro _ ⟨⟩⟩
  | case6 s hn s' hh failure s₁ hst =>
    obtain ⟨b₁, D₁, hle₁, h₁⟩ := h.moves hS (moves_help h.home) (samePass_help s)
    rw [hh] at h₁
    obtain ⟨b₂, D₂, hle₂, h₂⟩ := h₁.moves hS moves_starve ⟨rfl, rfl, rfl⟩
    rw [hst] at h₂
    exact ⟨b₂, D₂, by omega, h₂, by rintro _ ⟨⟩⟩

lemma await_ok (hS : S.Lawful) (h : s.Tracked S b D M C L H) (ha : s.await = (.ok l, s')) :
    ∃ b' D', b ≤ b' ∧ s'.Tracked S b' D' (l :: M) C L H ∧ s'.Moored ∧
      (Cursor.isCurrent s' (s'.engine.task l.ring l.slot) = true →
        ∃ j < b', S.Done s'.engine j (s'.engine.task l.ring l.slot)) := by
  obtain ⟨b', D', hle, h', hl⟩ := h.await hS
  rw [ha] at h' hl
  exact ⟨b', D', hle, h', hl l rfl⟩

lemma bound (h : s.Tracked S b D M C L H) : b ≤ S.count :=
  Nat.le_trans (Nat.le_add_right ..) h.onTrail.trail.bound

/-- The dispatcher has the frames in the order of the course. -/
lemma frame_eq (h : s.Tracked S b D M C L H) {frame position : Nat}
    (hframe : some frame = s.dispatcher.frameAt? position) : frame = S.frame position := by
  have hv := h.serves
  have heq := (Dispatcher.frameAt?_eq_some_iff.1 hframe.symm).2
  rwa [hv.count, hv.order] at heq

end Tracked

/-! ## The beginning of a pass -/

section Beginning

variable {P : Pass ω} {g : Filter σ} {x : σ × List RowView} {π : ω → σ × List RowView}
  {o : Order} {F : List Lease}

/-- An active scan that starts again is on the trail of another pass. -/
lemma tracked_rewind {ring : Nat} {work : Work ω} (hg : P.filter.Shows g.recording π)
    (hP : P = s.dispatcher.pass work o) (hs : s.Sound M C L F H) (hhome : s.Home)
    (hladen : s.inbox.Laden s.engine) (htame : s.engine.Tame s.dispatcher.id π)
    (hwork : s.dispatcher.work = some work) (hred : work.reducer = .filtering o)
    (hring : s.dispatcher.ring = some ring) (hx : π s.engine.world = x) :
    ∃ b D, s.rewind.Tracked (P.course ring π g x) b D M C L H := by
  subst hP
  let u : Scan ω :=
    { s.nextEpoch with dispatcher := { s.dispatcher with position := 0, starvedAt := none } }
  have heq : s.rewind = u.publish := by
    have hactive : s.dispatcher.isActive = true := by
      rw [Dispatcher.isActive, hwork]
      rfl
    rw [rewind, if_pos hactive]
    rfl
  have m : Moves (fun _ : ω => ()) (s, M) (u, M) := .single .restart
  obtain ⟨F', hu, -⟩ := Moves.sound m hs
  have htrail : Trail ((s.dispatcher.pass work o).course ring π g x) u.engine 0 [] := by
    refine Trail.fresh hs.engine.dated (epoch_lt_nextEpoch hs.employed.id_lt) rfl htame ?_
    show π s.engine.world = g.record [] x
    rw [hx]
    simp [Filter.record, Filter.through]
  have hserves : u.dispatcher.Serves ((s.dispatcher.pass work o).course ring π g x) 0 := by
    refine ⟨hwork.trans (congrArg some ?_), hring, rfl, rfl, rfl, .inl rfl⟩
    have hid := hs.employed.work_dispatcher work hwork
    obtain ⟨id, view, filter, reducer⟩ := work
    simp only [Pass.course, Dispatcher.pass] at hid hred ⊢
    rw [hid, hred]
  have ht : u.Tracked ((s.dispatcher.pass work o).course ring π g x) 0 [] M C L H :=
    ⟨⟨rfl, htrail, .inr hserves⟩, hwork ▸ Option.some_ne_none work, Moves.home m hhome,
      Moves.laden m hs hladen, F', hu⟩
  obtain ⟨b, D, -, ht'⟩ := ht.moves (Pass.lawful hg) (moves_publish ht.home) (samePass_publish u)
  exact ⟨b, D, heq ▸ ht'⟩

/-- An execution over frames that fit the schema puts its scan on the trail of its pass. -/
lemma tracked_launch {source : Source ω} {filter : Filter ω} (hub : Nat) {frames : List Frame}
    (hfit : source.Fits frames) (hg : filter.Shows g.recording π) (hs : s.Sound M C L F H)
    (hf : s.inbox.inFlight = []) (hh : s.HasHub hub) (htame : s.engine.Tame s.dispatcher.id π)
    (hred : s.dispatcher.reducer = .filtering o) (hx : π s.engine.world = x) :
    ∃ b D, (s.launch source hub filter frames).2.Tracked
      ((source.pass s.dispatcher.id o filter frames).course (s.nextRing hub) π g x) b D M C L H := by
  let P := source.pass s.dispatcher.id o filter frames
  have hS : (P.course (s.nextRing hub) π g x).Lawful := Pass.lawful hg
  have hcourse : s.course source hub filter frames π (P.course (s.nextRing hub) π g x).state
      (P.course (s.nextRing hub) π g x).found = P.course (s.nextRing hub) π g x := by
    simp only [P, Scan.course, Pass.course, Source.pass, hred]
  have hstart : π s.engine.world = g.record [] x := by simp [hx, Filter.record, Filter.through]
  rw [← hcourse] at hS
  obtain ⟨s', hl, hunder, hs', -⟩ := launch_course hS hfit hf hh hs htame hstart
  rw [hcourse] at hunder
  have m : Moves (fun _ : ω => ()) (s, M) ((s.launch source hub filter frames).2, M) :=
    moves_launch hf hh (Workshop.leaves_unit ..)
  have hladen : s.inbox.Laden s.engine := by
    intro slot hslot
    rw [hf] at hslot
    cases hslot
  have hladen' := Moves.laden m hs hladen
  rw [hl] at hladen' ⊢
  obtain ⟨O, R, D, -, hposition, hlane⟩ := hunder.lane
  have hserves : s'.dispatcher.Serves _ (0 + R.length + D.length) :=
    ⟨hunder.work, hunder.ring, hunder.count, hunder.order, hunder.directory, .inl hposition⟩
  exact ⟨_, D, ⟨hunder.id, hlane.toTrail, .inr hserves⟩, hunder.work ▸ Option.some_ne_none _,
    hunder.moored.home, hladen', hs'⟩

/-- An execution over frames that do not fit the schema leaves nothing on the trail of its pass. -/
lemma onTrail_misfit {source : Source ω} {filter : Filter ω} (hub : Nat) {frames : List Frame}
    (hfit : ¬ source.Fits frames) (hs : s.Sound M C L F H)
    (htame : s.engine.Tame s.dispatcher.id π) (hx : π s.engine.world = x) :
    (s.launch source hub filter frames).2.OnTrail
      ((source.pass s.dispatcher.id o filter frames).course (s.nextRing hub) π g x) 0 [] := by
  have hmisfit : (s.launch source hub filter frames).1 = .error (.faulted .columnCount) :=
    launch_misfit hfit
  obtain ⟨t, hd, ha⟩ := drawShard_eq s.nextEpoch hub
  rcases hls : listFrames t.dispatcher source.schema frames with ⟨_ | fault, d⟩
  · simp only [launch, hd, hls] at hmisfit
    cases hmisfit
  · have hid : t.dispatcher.id = s.dispatcher.id := by
      have m : Moves (fun _ : ω => ()) (s.nextEpoch, M) _ := moves_drawShard hub
      rw [hd] at m
      exact (Moves.sameSite m).dispatcher
    have hlist := congrArg Prod.snd hls
    simp only [listFrames] at hlist
    simp only [launch, hd, hls]
    subst hlist
    refine ⟨hid, Trail.fresh hs.engine.dated ?_ ha.rings htame ?_, .inl rfl⟩
    · have hlt := epoch_lt_nextEpoch hs.employed.id_lt
      rw [← ha.epoch] at hlt
      exact hlt
    · show π t.engine.world = g.record [] x
      have hworld : π t.engine.world = x := (congrArg π ha.world).trans hx
      simp [hworld, Filter.record, Filter.through]

/-- An execution that is launched puts its scan on the trail of its pass.  If a frame does not fit
the schema, there is nothing on it. -/
lemma onTrail_launch {source : Source ω} {filter : Filter ω} (hub : Nat) (frames : List Frame)
    (hg : filter.Shows g.recording π) (hs : s.Sound M C L F H) (hf : s.inbox.inFlight = [])
    (hh : s.HasHub hub) (htame : s.engine.Tame s.dispatcher.id π)
    (hred : s.dispatcher.reducer = .filtering o) (hx : π s.engine.world = x)
    (hP : P = source.pass s.dispatcher.id o filter frames) :
    ∃ b D, (s.launch source hub filter frames).2.OnTrail (P.course (s.nextRing hub) π g x) b D ∧
      ((s.launch source hub filter frames).1 = .ok () →
        (s.launch source hub filter frames).2.Tracked (P.course (s.nextRing hub) π g x) b D
          M C L H) := by
  subst hP
  by_cases hfit : source.Fits frames
  · obtain ⟨b, D, ht⟩ := tracked_launch hub hfit hg hs hf hh htame hred hx
    exact ⟨b, D, ht.onTrail, fun _ => ht⟩
  · refine ⟨0, [], onTrail_misfit hub hfit hs htame hx, fun hok => ?_⟩
    rw [launch_misfit hfit] at hok
    cases hok

end Beginning

end Scan

namespace Cursor

open Scan

variable {P : Pass ω} {g : Filter σ} {x : σ × List RowView} {π : ω → σ × List RowView}
  {ring b b' : Nat} {D : List Nat} {c : Cursor} {s s' : Scan ω} {rows : List RowView}
  {M : List Lease} {C L H : List Place}

/-- A cursor that has collected the first frames of a pass without a failure: it has delivered
`rows`, and the rest of what one loop keeps of these frames is at hand. -/
structure Collects (c : Cursor) (s : Scan ω) (P : Pass ω) (g : Filter σ) (x : σ × List RowView)
    (b : Nat) (rows : List RowView) : Prop where
  count : c.frameCount = P.count
  view : ∀ frame row, (c.view.atFrame frame).atRow row = (P.view.atFrame frame).atRow row
  /-- The frames that it has collected were reduced. -/
  reached : c.position ≤ b
  brings : P.Brings g x c.position (rows ++ c.rest.map c.view.atRow)
  moored : c.rest ≠ [] → s.Moored

namespace Collects

lemma mono (h : c.Collects s P g x b rows) (hle : b ≤ b') (hm : s.Moored → s'.Moored) :
    c.Collects s' P g x b' rows :=
  ⟨h.count, h.view, Nat.le_trans h.reached hle, h.brings, fun hr => hm (h.moored hr)⟩

/-- Nothing depends on the scan of a cursor with nothing at hand. -/
lemma idle (h : c.Collects s P g x b rows) (hrest : c.rest = []) (hle : b ≤ b') :
    c.Collects s' P g x b' rows :=
  ⟨h.count, h.view, Nat.le_trans h.reached hle, h.brings, fun hr => absurd hrest hr⟩

/-- A cursor with nothing at hand goes on without. -/
lemma emptied (h : c.Collects s P g x b rows) (hrest : c.rest = []) :
    c.emptied.Collects s P g x b rows :=
  ⟨h.count, h.view, h.reached, by simpa [Cursor.emptied, hrest] using h.brings, fun hr => absurd rfl hr⟩

lemma stopped (h : c.Collects s P g x b rows) (stop : Stop) :
    (c.stopped stop).Collects s P g x b rows := by
  cases stop <;> exact ⟨h.count, h.view, h.reached, h.brings, h.moored⟩

/-- The cursor delivers the next row at hand. -/
lemma deliver {row : Nat} {rest : List Nat} (h : c.Collects s P g x b rows)
    (hrest : c.rest = row :: rest) :
    c.deliver.Collects s P g x b (rows ++ [c.view.atRow row]) ∧
      c.deliver.view = c.view.atRow row := by
  have hbrings := h.brings
  have hmoored := h.moored
  rw [hrest] at hbrings hmoored
  simp only [Cursor.deliver, hrest]
  refine ⟨⟨h.count, h.view, h.reached, ?_, fun _ => hmoored (List.cons_ne_nil _ _)⟩, trivial⟩
  rw [List.append_assoc]
  exact hbrings

/-- The frame at a cursor's position is collected: its rows are at hand, if there are any. -/
lemma collect (h : c.Collects s P g x b rows) (hrest : c.rest = []) (hb : b ≤ P.count)
    {t : Task ω} {e : Engine ω} {j : Nat} (hj : j < b) (hd : (P.course ring π g x).Done e j t)
    (hframe : t.frame = P.frame c.position) (hlt : c.position < P.count) (herror : t.error = none) :
    c.position < b ∧ P.Brings g x (c.position + 1)
      (rows ++ t.rows.map (P.view.atFrame t.frame).atRow) := by
  obtain rfl : j = c.position := P.frame_inj (by omega) hlt (hd.frame.symm.trans hframe)
  have hbrings := h.brings
  rw [hrest, List.map_nil, List.append_nil] at hbrings
  rw [hframe]
  exact ⟨hj, hbrings.succ hlt (herror ▸ hd.found)⟩

/-- A wait that brings the frame at a cursor's position, without a failure: the rows found in the
frame are what comes next in the pass. -/
lemma await (hS : (P.course ring π g x).Lawful) (ht : s.Tracked (P.course ring π g x) b D M C L H)
    (h : c.Collects s P g x b rows) (hrest : c.rest = []) (hlt : c.position < c.frameCount)
    {l : Lease} (ha : s.await = (.ok l, s'))
    (hcur : isCurrent s' (s'.engine.task l.ring l.slot) = true)
    (hframe : some (s'.engine.task l.ring l.slot).frame = s'.dispatcher.frameAt? c.position)
    (herror : (s'.engine.task l.ring l.slot).error = none) :
    ∃ b' D', b ≤ b' ∧ s'.Tracked (P.course ring π g x) b' D' (l :: M) C L H ∧ s'.Moored ∧
      c.position < b' ∧ P.Brings g x (c.position + 1)
        (rows ++ (s'.engine.task l.ring l.slot).rows.map
          (P.view.atFrame (s'.engine.task l.ring l.slot).frame).atRow) := by
  obtain ⟨b', D', hle, ht', hmoored, hdone⟩ := ht.await_ok hS ha
  obtain ⟨j, hj, hd⟩ := hdone hcur
  have hidle : c.Collects s' P g x b' rows := h.idle hrest hle
  obtain ⟨hb, hbrings⟩ := hidle.collect hrest ht'.bound hj hd (ht'.frame_eq hframe)
    (h.count ▸ hlt) herror
  exact ⟨b', D', hle, ht', hmoored, hb, hbrings⟩

/-- A frame without rows is passed. -/
lemma pass (h : c.Collects s P g x b rows) (hrest : c.rest = []) (hb : c.position < b')
    (hbrings : P.Brings g x (c.position + 1) rows) : c.pass.Collects s' P g x b' rows := by
  refine ⟨h.count, h.view, hb, ?_, fun hr => absurd hrest hr⟩
  show P.Brings g x (c.position + 1) (rows ++ c.rest.map _)
  rw [hrest, List.map_nil, List.append_nil]
  exact hbrings

/-- The rows of a frame are at hand, and the cursor keeps its slot. -/
lemma take (h : c.Collects s P g x b rows) (l : Lease) (frame : Nat) {found : List Nat}
    (hmoored : s'.Moored) (hb : c.position < b') (hbrings : P.Brings g x (c.position + 1)
      (rows ++ found.map (P.view.atFrame frame).atRow)) :
    (c.take l frame found).Collects s' P g x b' rows := by
  have hview : found.map (c.view.atFrame frame).atRow = found.map (P.view.atFrame frame).atRow :=
    List.map_congr_left fun row _ => h.view frame row
  refine ⟨h.count, h.view, hb, ?_, fun _ => hmoored⟩
  show P.Brings g x (c.position + 1) (rows ++ found.map (c.view.atFrame frame).atRow)
  rw [hview]
  exact hbrings

/-- A cursor that looks for the next frame with rows stays on its pass.  If there is none, it has
collected all frames. -/
lemma advance (hg : P.filter.Shows g.recording π)
    (ht : s.Tracked (P.course ring π g x) b D M C L H) (h : c.Collects s P g x b rows)
    (hrest : c.rest = []) (hlease : c.leases = []) :
    ∃ b' D', b ≤ b' ∧ (c.advance s).2.2.Tracked (P.course ring π g x) b' D'
        ((c.advance s).2.1.leases ++ M) C L H ∧
      (c.advance s).2.1.Collects (c.advance s).2.2 P g x b' rows ∧
      ((c.advance s).1 = .ok true → (c.advance s).2.1.rest ≠ []) ∧
      ((c.advance s).1 = .ok false →
        (c.advance s).2.1.position = P.count ∧ (c.advance s).2.1.rest = []) := by
  have hS : (P.course ring π g x).Lawful := P.lawful hg
  fun_induction Cursor.advance c s generalizing b D with
  | case1 c s hlt stop s' ha =>
    -- the wait comes to nothing
    obtain ⟨b₁, D₁, hle, ht₁, -⟩ := ht.await hS
    rw [ha] at ht₁
    refine ⟨b₁, D₁, hle, ?_, (h.idle hrest hle).stopped stop, by rintro ⟨⟩, by rintro ⟨⟩⟩
    rwa [leases_stopped, hlease]
  | case2 c s hlt l s' ha task hcur =>
    -- a frame of another pass goes back, and the search goes on
    rename_i ih
    obtain ⟨b₁, D₁, hle₁, ht₁, -⟩ := ht.await_ok hS ha
    obtain ⟨b₂, D₂, hle₂, ht₂⟩ := ht₁.moves hS (.single .giveBack) (samePass_done s' l)
    obtain ⟨b₃, D₃, hle₃, h₃⟩ := ih ht₂ (h.idle hrest (by omega)) hrest hlease
    exact ⟨b₃, D₃, by omega, h₃⟩
  | case3 c s hlt l s' ha task hcur =>
    -- a frame that is not the next one is an error
    obtain ⟨b₁, D₁, hle₁, ht₁, -⟩ := ht.await_ok hS ha
    have m : Moves π (s', l :: M) ({ s' with engine := s'.engine.dropLease l }, M) :=
      (moves_note (.leaseDropped (s'.engine.shardOf l.ring) l.slot)).tail .giveBack
    obtain ⟨b₂, D₂, hle₂, ht₂⟩ := ht₁.moves hS m ⟨rfl, rfl, rfl⟩
    refine ⟨b₂, D₂, by omega, ?_, h.idle hrest (by omega), by rintro ⟨⟩, by rintro ⟨⟩⟩
    rw [hlease]
    exact ht₂
  | case4 c s hlt l s' ha task hcur hne failure =>
    -- the frame failed, which ends the pass
    obtain ⟨b₁, D₁, hle₁, ht₁, -⟩ := ht.await_ok hS ha
    have m : Moves π (s', l :: M) (s'.done l, M) := .single .giveBack
    obtain ⟨b₂, D₂, hle₂, ht₂⟩ := ht₁.moves hS
      (m.trans (moves_note (.taskFailed s'.dispatcher.id task.frame failure))) ⟨rfl, rfl, rfl⟩
    refine ⟨b₂, D₂, by omega, ?_, ?_, by rintro ⟨⟩, by rintro ⟨⟩⟩
    · rw [leases_exhaust, hlease]
      exact ht₂
    · exact ⟨h.count, h.view, Nat.le_trans h.reached (by omega), h.brings, fun hr => absurd hrest hr⟩
  | case5 c s hlt l s' ha task hcur hne hrows herror =>
    -- a frame without rows is passed
    rename_i ih
    obtain ⟨b₁, D₁, hle₁, ht₁, -, hb, hbrings⟩ := h.await hS ht hrest hlt ha (by simpa using hcur)
      (not_not.1 hne) herror
    rw [hrows, List.map_nil, List.append_nil] at hbrings
    obtain ⟨b₂, D₂, hle₂, ht₂⟩ := ht₁.moves hS (.single .giveBack) (samePass_done s' l)
    obtain ⟨b₃, D₃, hle₃, h₃⟩ :=
      ih ht₂ (h.pass hrest (Nat.lt_of_lt_of_le hb hle₂) hbrings) hrest hlease
    exact ⟨b₃, D₃, by omega, h₃⟩
  | case6 c s hlt l s' ha task hcur hne row rest hrows =>
    -- the first row of the frame, whose slot the cursor keeps
    rename_i herror
    obtain ⟨b₁, D₁, hle₁, ht₁, hmoored, hb, hbrings⟩ := h.await hS ht hrest hlt ha
      (by simpa using hcur) (not_not.1 hne) herror
    rw [hrows] at hbrings
    exact ⟨b₁, D₁, hle₁, ht₁, h.take l task.frame hmoored hb hbrings,
      fun _ => List.cons_ne_nil _ _, by rintro ⟨⟩⟩
  | case7 c s hlt =>
    -- there are no frames left
    have hbound : b ≤ P.count := ht.bound
    have hreached := h.reached
    rw [h.count] at hlt
    have hposition : c.position = P.count := by omega
    exact ⟨b, D, Nat.le_refl b, by rwa [hlease], h, by rintro ⟨⟩, fun _ => ⟨hposition, hrest⟩⟩

/-- A cursor that moves to its next row stays on its pass, whose rows it delivers in their order.
If there is no next row, it has collected all frames. -/
lemma next (hg : P.filter.Shows g.recording π)
    (ht : s.Tracked (P.course ring π g x) b D c.leases C L H) (h : c.Collects s P g x b rows)
    (hc : c.IsOpen) :
    ∃ b' D', b ≤ b' ∧ (c.next s).2.2.Tracked (P.course ring π g x) b' D' (c.next s).2.1.leases C L H ∧
      (c.next s).2.1.Collects (c.next s).2.2 P g x b' (rows ++ (answer (c.next s)).2.toList) ∧
      ((c.next s).1 = .ok false →
        (c.next s).2.1.position = P.count ∧ (c.next s).2.1.rest = []) := by
  cases hrest : c.rest with
  | cons row rest =>
    have hn : c.next s = (.ok true, c.deliver, s) := by
      rcases hc with hp | hp <;> simp [Cursor.next, hp, hrest]
    obtain ⟨hcollects, hview⟩ := h.deliver hrest
    rw [hn]
    refine ⟨b, D, Nat.le_refl b, ?_, ?_, by rintro ⟨⟩⟩
    · rwa [leases_deliver]
    · simpa only [answer, hview, Option.toList_some] using hcollects
  | nil =>
    have m : Moves π (s, c.leases ++ []) (c.giveBack s, []) := moves_giveBack
    rw [List.append_nil] at m
    obtain ⟨b₁, D₁, hle₁, ht₁⟩ := ht.moves (P.lawful hg) m (samePass_giveBack c s)
    have hidle : c.Collects (c.giveBack s) P g x b₁ rows := h.idle hrest hle₁
    obtain ⟨b₂, D₂, hle₂, ht₂, hcollects, hfound, hnothing⟩ :=
      (hidle.emptied hrest).advance hg ht₁ rfl rfl
    rw [List.append_nil] at ht₂
    rcases ha : c.emptied.advance (c.giveBack s) with ⟨r, c', s'⟩
    rw [ha] at ht₂ hcollects hfound hnothing
    refine ⟨b₂, D₂, by omega, ?_⟩
    rcases r with stop | found
    · rw [next_of_stop hc hrest ha]
      refine ⟨ht₂, ?_, by rintro ⟨⟩⟩
      simpa [answer] using hcollects
    · cases found with
      | true =>
        obtain ⟨row, rest, hrest'⟩ := List.exists_cons_of_ne_nil (hfound rfl)
        obtain ⟨hcollects', hview⟩ := hcollects.deliver hrest'
        rw [next_of_found hc hrest ha]
        refine ⟨?_, ?_, by rintro ⟨⟩⟩
        · rwa [leases_deliver]
        · simpa only [answer, hview, Option.toList_some] using hcollects'
      | false =>
        rw [next_of_nothing hc hrest ha]
        refine ⟨?_, ?_, fun _ => hnothing rfl⟩
        · rwa [leases_exhaust]
        · have hend : c'.exhaust.Collects s' P g x b₂ rows :=
            ⟨hcollects.count, hcollects.view, hcollects.reached, hcollects.brings, hcollects.moored⟩
          simpa [answer] using hend

/-- A cursor that is opened collects the pass of its scan from the first frame on. -/
lemma opened (hg : P.filter.Shows g.recording π)
    (ht : s.Tracked (P.course ring π g x) b D [] C L H) (ho : openOn s = (.ok c, s')) :
    ∃ b' D', b ≤ b' ∧ s'.Tracked (P.course ring π g x) b' D' c.leases C L H ∧
      c.Collects s' P g x b' [] := by
  have hv := ht.serves
  have hstart : (start s.dispatcher).Collects s P g x b [] := by
    refine ⟨hv.count, fun frame row => ?_, Nat.zero_le b, .zero, fun hr => absurd rfl hr⟩
    simp only [start, Dispatcher.view, hv.work]
    rfl
  obtain ⟨b', D', hle, ht', hcollects, -⟩ := hstart.advance hg ht rfl rfl
  rw [List.append_nil] at ht'
  rcases ha : (start s.dispatcher).advance s with ⟨stop | r, c', s₁⟩
  · simp only [openOn, ha] at ho
    split at ho <;> cases ho
  · simp only [openOn, ha] at ho
    obtain ⟨hc, rfl⟩ := Prod.mk.inj ho
    obtain rfl := Except.ok.inj hc
    rw [ha] at ht' hcollects
    exact ⟨b', D', hle, ht', hcollects⟩

/-- A cursor that starts over collects another pass from the first frame on. -/
lemma rewound (hg : P.filter.Shows g.recording π) {work : Work ω} {o : Order}
    (hs : ∃ F, s.Sound c.leases C L F H) (hhome : s.Home) (hladen : s.inbox.Laden s.engine)
    (htame : s.engine.Tame s.dispatcher.id π) (hviews : c.Views s.dispatcher)
    (hphase : c.phase = .iterating ∨ c.phase = .exhausted)
    (hwork : s.dispatcher.work = some work) (hred : work.reducer = .filtering o)
    (hring : s.dispatcher.ring = some ring) (hP : P = s.dispatcher.pass work o)
    (hx : π (work.filter.rewind s.engine.world) = x) :
    ∃ b D, (c.rewind s).2.2.Tracked (P.course ring π g x) b D (c.rewind s).2.1.leases C L H ∧
      (c.rewind s).2.1.Collects (c.rewind s).2.2 P g x b [] := by
  obtain ⟨F, hs⟩ := hs
  have m : Moves π (s, c.leases ++ []) (c.giveBack s, []) := moves_giveBack
  rw [List.append_nil] at m
  obtain ⟨F₁, hs₁, -⟩ := Moves.sound m hs
  -- giving the slot back leaves the dispatcher and the world as they are
  obtain ⟨hd, hw⟩ : (c.giveBack s).dispatcher = s.dispatcher ∧
      (c.giveBack s).engine.world = s.engine.world := by
    unfold giveBack
    split <;> exact ⟨rfl, rfl⟩
  have htame₁ := Moves.tame m hs htame
  rw [Reads.rewind_eq hphase]
  rw [← hd] at htame₁ hwork hring hP
  rw [← hw] at hx
  have hview := hviews work (hd ▸ hwork)
  rw [← hd] at hview
  generalize c.giveBack s = t at *
  -- so does undoing the filter, to the dispatcher
  have heq : t.rewindFilter =
      { t with engine := t.engine.withWorld (work.filter.rewind t.engine.world) } := by
    simp only [rewindFilter, hwork]
  have hd₂ : t.rewindFilter.dispatcher = t.dispatcher := by rw [heq]
  have m₂ : Moves (fun _ : ω => ()) (t, []) (t.rewindFilter, []) :=
    moves_rewindFilter fun _ _ => Workshop.leaves_unit ..
  obtain ⟨F₂, hs₂, -⟩ := Moves.sound m₂ hs₁
  have hladen₂ := Moves.laden m₂ hs₁ (Moves.laden m hs hladen)
  obtain ⟨b, D, ht⟩ := Scan.tracked_rewind (s := t.rewindFilter) (x := x) hg (hd₂ ▸ hP) hs₂
    (Moves.home m₂ (Moves.home m hhome)) hladen₂ (heq ▸ htame₁) (hd₂ ▸ hwork) hred
    (hd₂ ▸ hring) (by rw [heq]; exact hx)
  subst hP
  have hstart : ({ c.emptied with position := 0, phase := .fresh } : Cursor).Collects
      t.rewindFilter.rewind (t.dispatcher.pass work o) g x b [] :=
    ⟨hview.1, hview.2, Nat.zero_le b, .zero, fun hr => absurd rfl hr⟩
  obtain ⟨b', D', -, ht', hcollects, -⟩ := hstart.advance hg ht rfl rfl
  rw [List.append_nil] at ht'
  exact ⟨b', D', ht', hcollects⟩

end Collects

end Cursor

end TableScan
