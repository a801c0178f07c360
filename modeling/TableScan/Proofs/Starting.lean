import TableScan.Proofs.Seeking
import TableScan.Proofs.Tours

/-!
# Beginnings of a course

The scan of a course begins with a launch, and begins again with a rewind; a cursor then seeks
the first frame with rows.  Main statements: a cursor that starts over reaches what there is to
find, unless it was exhausted before a starving scan (`Cursor.Reads.rewind`); and so does a cursor
that is opened, unless the ring has no free slot (`Plan.openCursor_reads`).
-/

namespace TableScan

variable {ω σ : Type}

/-- A call that failed because a ring was saturated. -/
def Saturates {α : Type} (r : Except Stop α) : Prop :=
  ∃ shard waited, r = .error (.failed (.saturated shard waited))

/-- Whether a search ends with a failure. -/
def Find.outcome : Find → Except Stop Unit
  | .nothing | .rows .. => .ok ()
  | .failure _ f => .error (.failed f)

namespace Scan

variable {S : Course ω σ} {s : Scan ω} {b : Nat} {N : List Lease} {C L H : List Place}
  {F : List Lease} {state : Nat → σ} {found : Nat → List Nat → Option Failure → Prop}

/-! ## Again from the first frame -/

/-- A scan that begins again in a new epoch, with its filter rewound. -/
lemma Underway.again (hS : (S.again state found).Lawful)
    (hrewind : ∀ w, S.shown (S.work.filter.rewind w) = state 0) (h : s.Underway S b []) (hs : s.Sound N C L F H) :
    s.rewindFilter.rewind.Underway (S.again state found) 0 [] ∧ (∃ F', s.rewindFilter.rewind.Sound N C L F' H) ∧
      (0 < S.count → (s.rewindFilter.rewind.Starving S.ring ↔ s.Starving S.ring)) := by
  -- the scan before it publishes
  let e := s.engine.withWorld (S.work.filter.rewind s.engine.world)
  let u : Scan ω :=
    { dispatcher := { s.dispatcher with position := 0, starvedAt := none }
      inbox := s.inbox
      engine := e.nextEpoch s.dispatcher.id }
  have heq : s.rewindFilter.rewind = u.publish := by
    simp only [rewindFilter, h.work, Scan.rewind, Dispatcher.isActive, Option.isSome_some, if_true]
    rfl
  have m₁ : Moves (fun _ : ω => ()) (s, N) ({ s with engine := e }, N) :=
    .single (.alike ⟨rfl, rfl, rfl, rfl, rfl⟩)
  have m : Moves (fun _ : ω => ()) (s, N) (u, N) := m₁.tail .restart
  obtain ⟨F', hu, -⟩ := Moves.sound m hs
  have hunder : u.Underway (S.again state found) 0 [] := by
    obtain ⟨O, R, D, hflight, -, hl⟩ := h.lane
    have hepoch : s.engine.epoch S.id < u.engine.epoch S.id := by
      have hid := hs.employed.id_lt
      show _ < (e.nextEpoch s.dispatcher.id).epoch S.id
      rw [Engine.epoch_nextEpoch, if_pos ⟨h.id, hid⟩]
      exact Nat.lt_succ_self _
    have hO : ∀ slot ∈ s.inbox.inFlight, s.engine.Flown S.ring slot := by
      intro slot hm
      rw [hflight] at hm
      exact hl.flown hm
    exact ⟨⟨h.id, h.work, h.ring, h.home, h.count, h.order, h.directory⟩, s.inbox.inFlight, [], [],
      by simp [u], rfl, Lane.fresh hs.engine.dated hepoch rfl hO hl.tame (hrewind _)⟩
  rw [heq]
  refine ⟨hunder.publish hS hu, hunder.sound_publish hu, fun hcount => ?_⟩
  have hstarving := hunder.starving_publish hS hu hcount
  exact hstarving

end Scan

namespace Cursor

open Scan

variable {S : Course ω σ} {c : Cursor} {s : Scan ω} {N : List Lease} {C L H : List Place}
  {F : List Lease} {x : Find}

/-- A cursor before the first of what there is to find. -/
def Poised (c : Cursor) (S : Course ω σ) : Find → Prop
  | .nothing => c.phase = .fresh ∧ c.rest = [] ∧ c.position = S.count
  | .rows b row rest => c.phase = .fresh ∧ c.view.frame = S.frame b ∧ c.rest = row :: rest ∧
      c.position = b + 1
  | .failure .. => c.phase = .exhausted

lemma Poised.fresh (h : c.Poised S x) (hx : x.outcome = .ok ()) : c.phase = .fresh := by
  cases x with
  | nothing | rows => exact h.1
  | failure => cases hx

/-- A cursor that has not moved yet reads its course. -/
lemma reads_of_reaches {r : Except Stop Bool × Cursor × Scan ω} (hx : Reaches S c r x)
    (hphase : c.phase = .fresh) (hlease : c.lease = none) (hrest : c.rest = [])
    (hcount : c.frameCount = S.count)
    (hview : c.view = (S.work.view.atFrame c.view.frame).atRow c.view.row) :
    ∃ y c' s', r = (y, c', s') ∧ y.map (fun _ => ()) = x.outcome ∧ c'.Poised S x ∧ c'.Reads S s' := by
  cases x with
  | nothing =>
    obtain ⟨s', rfl, hu⟩ := hx
    exact ⟨_, _, s', rfl, rfl, ⟨hphase, hrest, rfl⟩, hcount, hview,
      .past hphase hlease hrest rfl hu⟩
  | rows b row rest =>
    obtain ⟨l, s', rfl, hring, hu⟩ := hx
    refine ⟨_, _, s', rfl, rfl, ⟨hphase, rfl, rfl, rfl⟩, hcount, ?_,
      .holding (.inl hphase) rfl hring rfl hu⟩
    show c.view.atFrame (S.frame b) = _
    rw [hview]
    rfl
  | failure b f =>
    obtain ⟨s', rfl, hu⟩ := hx
    exact ⟨_, _, s', rfl, rfl, rfl, hcount, hview, .exhausted rfl hlease hrest hu⟩

/-! ## Starting over -/

namespace Reads

/-- How a cursor that has moved starts over. -/
lemma rewind_eq (hphase : c.phase = .iterating ∨ c.phase = .exhausted) :
    c.rewind s =
      let r := Cursor.advance { c.emptied with position := 0, phase := .fresh }
        (c.giveBack s).rewindFilter.rewind
      (r.1.map fun _ => (), r.2) := by
  rcases hphase with hp | hp <;> simp only [Cursor.rewind, hp] <;>
    rcases Cursor.advance .. with ⟨_ | _, c', s'⟩ <;> rfl

/-- A cursor that has moved and starts over. -/
lemma rewind {state : Nat → σ} {found : Nat → List Nat → Option Failure → Prop}
    (hS : (S.again state found).Lawful)
    (hrewind : ∀ w, S.shown (S.work.filter.rewind w) = state 0) (h : c.Reads S s)
    (hs : s.Sound (c.leases ++ N) C L F H) (hphase : c.phase = .iterating ∨ c.phase = .exhausted) :
    (c.phase = .exhausted ∧ 0 < S.count ∧ s.Starving S.ring ∧
      ∃ shard waited c' s', c.rewind s = (.error (.failed (.saturated shard waited)), c', s') ∧
        c'.phase = .exhausted ∧ c'.Reads (S.again state found) s') ∨
    (¬ (c.phase = .exhausted ∧ 0 < S.count ∧ s.Starving S.ring) ∧ ∃ x, (S.again state found).Finds 0 x ∧
      ∃ c' s', c.rewind s = (x.outcome, c', s') ∧ c'.Poised (S.again state found) x ∧
        c'.Reads (S.again state found) s') := by
  let c₀ : Cursor := { c.emptied with position := 0, phase := .fresh }
  have hsound := sound_giveBack hs
  -- a cursor that has a slot to give back has not starved
  obtain ⟨b, hu, hn⟩ : ∃ b, (c.giveBack s).Underway S b [] ∧
      ((c.giveBack s).Starving S.ring ↔ c.phase = .exhausted ∧ s.Starving S.ring) := by
    cases h.stands with
    | holding phase lease ring frame underway =>
      have hne : c.phase ≠ .exhausted := by
        rcases phase with hp | hp <;> rw [hp] <;> exact Phase.noConfusion
      obtain ⟨hu, hn⟩ := underway.done ring
      refine ⟨c.position, ?_, ?_⟩
      · simpa only [Cursor.giveBack, lease] using hu
      · simpa only [Cursor.giveBack, lease, hne, false_and, iff_false] using hn
    | past phase => rcases hphase with hp | hp <;> rw [hp] at phase <;> cases phase
    | @exhausted b phase lease rest underway =>
      refine ⟨b, ?_, ?_⟩
      · simpa only [Cursor.giveBack, lease] using underway
      · simp only [Cursor.giveBack, lease, phase, true_and]
    | closed phase => rcases hphase with hp | hp <;> rw [hp] at phase <;> cases phase
  obtain ⟨hu₀, ⟨F₀, hs₀⟩, hn₀⟩ := hu.again hS hrewind hsound
  have heq : c.rewind s =
      ((c₀.advance (c.giveBack s).rewindFilter.rewind).1.map fun _ => (),
        (c₀.advance (c.giveBack s).rewindFilter.rewind).2) := rewind_eq hphase
  rw [heq]
  rcases advance_reaches (c := c₀) hS hu₀ hs₀ h.count with ⟨hlt, hst, hr⟩ | ⟨hst, x, hx, hr⟩
  -- to starve it must have been exhausted: otherwise it gives a slot back
  · left
    obtain ⟨hex, hst'⟩ := hn.1 ((hn₀ hlt).1 hst)
    obtain ⟨shard, waited, s', ha, hu'⟩ := hr
    rw [ha]
    exact ⟨hex, hlt, hst', shard, waited, _, s', rfl, rfl, h.count, h.view,
      .exhausted rfl rfl rfl hu'⟩
  · right
    refine ⟨fun hn' => hst ⟨hn'.2.1, (hn₀ hn'.2.1).2 (hn.2 ⟨hn'.1, hn'.2.2⟩)⟩, x, hx, ?_⟩
    obtain ⟨y, c', s', ha, hy, hp, hreads⟩ :=
      reads_of_reaches (c := c₀) hr rfl rfl rfl h.count h.view
    rw [ha, ← hy]
    exact ⟨c', s', rfl, hp, hreads⟩

end Reads

/-! ## Opening -/

/-- A cursor opened on a scan of a course that has just begun. -/
lemma openOn_reads (hS : S.Lawful) (h : s.Underway S 0 []) (hs : s.Sound N C L F H) :
    (0 < S.count ∧ s.Starving S.ring ∧
      ∃ shard waited s', openOn s = (.error (.failed (.saturated shard waited)), s')) ∨
    (¬ (0 < S.count ∧ s.Starving S.ring) ∧ ∃ x, S.Finds 0 x ∧
      ((∃ c s', x.outcome = .ok () ∧ openOn s = (.ok c, s') ∧ c.Poised S x ∧ c.Reads S s') ∨
        ∃ stop s', x.outcome = .error stop ∧ openOn s = (.error stop, s'))) := by
  have hview : s.dispatcher.view = S.work.view := by simp only [Dispatcher.view, h.work]
  have hphase : ((start s.dispatcher).advance s).2.1.phase ≠ .closed :=
    phase_advance Phase.noConfusion
  have m : Moves (fun _ : ω => ()) (s, N) _ :=
    moves_advance (c := start s.dispatcher) h.moored.home rfl
  obtain ⟨F', hs', -⟩ := Moves.sound m hs
  -- a cursor that could not be opened can be closed
  have hclose := close_ok hs' ((Moves.sameSite m).moored h.moored) hphase
  rcases advance_reaches (c := start s.dispatcher) hS h hs h.count with
    ⟨hlt, hst, hr⟩ | ⟨hst, x, hx, hr⟩
  · left
    obtain ⟨shard, waited, s', ha, -⟩ := hr
    rw [ha] at hclose
    obtain ⟨s'', hcl, -⟩ := hclose
    simp only [openOn, ha, hcl]
    exact ⟨hlt, hst, shard, waited, s'', rfl⟩
  · right
    refine ⟨hst, x, hx, ?_⟩
    obtain ⟨y, c', s', ha, hy, hp, hreads⟩ := reads_of_reaches (c := start s.dispatcher) hr rfl rfl
      rfl h.count (hview.trans (by rw [start, hview]; rfl))
    rw [ha] at hclose
    rw [← hy]
    simp only [openOn, ha]
    cases y with
    | ok => exact .inl ⟨c', s', rfl, rfl, hp, hreads⟩
    | error stop =>
      obtain ⟨s'', hcl, -⟩ := hclose
      simp only [hcl]
      exact .inr ⟨stop, s'', rfl, rfl⟩

end Cursor

namespace Scan

variable {s : Scan ω} {source : Source ω} {hub : Nat} {filter : Filter ω} {frames : List Frame}
  {shown : ω → σ} {state : Nat → σ} {found : Nat → List Nat → Option Failure → Prop}
  {N : List Lease} {C L H : List Place} {F : List Lease}

/-! ## Launching -/

/-- The ring that the next execution for a hub is published into. -/
def nextRing (s : Scan ω) (hub : Nat) : Nat :=
  s.ringOf hub (s.dispatcher.shard.getD (s.engine.drawShard hub).1)

lemma fst_drawShard {e e' : Engine ω} (h : e'.hubs = e.hubs) :
    (e'.drawShard hub).1 = (e.drawShard hub).1 := by
  unfold Engine.drawShard
  rw [h]
  cases e.hubs[hub]? <;> rfl

lemma nextRing_withWorld (s : Scan ω) (hub : Nat) (w : ω) :
    nextRing { s with engine := s.engine.withWorld w } hub = s.nextRing hub := by
  simp only [nextRing, fst_drawShard (show (s.engine.withWorld w).hubs = s.engine.hubs from rfl)]
  rfl

/-- The course of an execution over the frames of a source. -/
def course (s : Scan ω) (source : Source ω) (hub : Nat) (filter : Filter ω) (frames : List Frame)
    (shown : ω → σ) (state : Nat → σ) (found : Nat → List Nat → Option Failure → Prop) :
    Course ω σ where
  id := s.dispatcher.id
  ring := s.nextRing hub
  work :=
    { dispatcher := s.dispatcher.id
      view := .ofDirectory (source.directory frames) source.dictionaries
      filter
      reducer := s.dispatcher.reducer }
  order := source.order
  count := (source.directory frames).frames.size
  directory := source.directory frames
  shown
  state
  found

/-- The shard of an execution is the dispatcher's own, or drawn. -/
lemma drawShard_eq (s : Scan ω) (hub : Nat) :
    ∃ t, s.drawShard hub = (s.dispatcher.shard.getD (s.engine.drawShard hub).1, t) ∧
      s.engine.Alike id t.engine := by
  unfold drawShard
  cases s.dispatcher.shard with
  | some x => exact ⟨s, rfl, rfl, rfl, rfl, rfl, rfl⟩
  | none => exact ⟨_, rfl, Engine.alike_drawShard s.engine id hub⟩

lemma launch_misfit (hfit : ¬ source.Fits frames) :
    (s.launch source hub filter frames).1 = .error (.faulted .columnCount) := by
  rcases hd : s.nextEpoch.drawShard hub with ⟨shard, t⟩
  have hls : listFrames t.dispatcher source.schema frames =
      (some .columnCount, (listFrames t.dispatcher source.schema frames).2) :=
    Prod.ext (if_neg hfit) rfl
  simp only [launch, hd]
  rw [hls]

/-- An execution over frames that fit the schema begins its course. -/
lemma launch_course (hS : (s.course source hub filter frames shown state found).Lawful)
    (hfit : source.Fits frames)
    (hf : s.inbox.inFlight = []) (hh : s.HasHub hub) (hs : s.Sound N C L F H)
    (htame : ∀ i slot w, (s.engine.task i slot).work = some w → w.dispatcher ≠ s.dispatcher.id →
      w.reducer.Leaves w.filter shown)
    (hworld : shown s.engine.world = state 0) :
    ∃ s', s.launch source hub filter frames = (.ok (), s') ∧
      s'.Underway (s.course source hub filter frames shown state found) 0 [] ∧
      (∃ F', s'.Sound N C L F' H) ∧
      (0 < (source.directory frames).frames.size →
        (s'.Starving (s.nextRing hub) ↔ s.engine.Saturated (s.nextRing hub))) := by
  obtain ⟨t, hd, ha⟩ := drawShard_eq s hub
  have m : Moves (fun _ : ω => ()) (s, N) (t, N) := by
    have m : Moves (fun _ : ω => ()) (s, N) _ := moves_drawShard hub
    rwa [hd] at m
  have hsame : s.SameSite t := Moves.sameSite m
  have hring : t.nextEpoch.ringOf hub (s.dispatcher.shard.getD (s.engine.drawShard hub).1) =
      s.nextRing hub := ringOf_of_sameSize (hsame.size.trans t.sameSize_nextEpoch) ..
  -- the scan before it publishes
  let u : Scan ω :=
    { t.nextEpoch with
      dispatcher := begin (listFrames t.dispatcher source.schema frames).2 source hub
        (s.nextRing hub) filter
      inbox := t.inbox.subscribe (s.nextRing hub) }
  have heq : s.launch source hub filter frames = (.ok (), u.publish) := by
    rw [Source.Fits] at hfit
    simp only [launch, drawShard_nextEpoch, hd, listFrames, Directory.addAll, hfit, if_true, u,
      ← hring]
    rfl
  have hft : t.inbox.inFlight = [] := by
    have hi := inbox_drawShard (s := s) hub
    rw [hd] at hi
    exact hi ▸ hf
  have m' : Moves (fun _ : ω => ()) (s, N) (u, N) :=
    (m.tail (.adjust (d := (listFrames t.dispatcher source.schema frames).2) rfl rfl rfl
      (.inr rfl))).tail (.begin hft (hring ▸ hh.of_sameSize
        (hsame.size.trans t.sameSize_nextEpoch) _) ⟨fun _ _ _ => rfl, fun _ => rfl⟩)
  obtain ⟨F', hu, -⟩ := Moves.sound m' hs
  -- the epoch is a new one, so no slot holds work of it
  have hepoch : s.engine.epoch s.dispatcher.id < u.engine.epoch s.dispatcher.id := by
    have hid := hs.employed.id_lt
    have hu : u.engine.epoch = (s.engine.nextEpoch s.dispatcher.id).epoch := by
      funext d
      simp only [u, Engine.epoch, nextEpoch, Engine.nextEpoch, ha.epochs, hsame.dispatcher]
    rw [hu, Engine.epoch_nextEpoch, if_pos ⟨rfl, hid⟩]
    exact Nat.lt_succ_self _
  have hunder : u.Underway (s.course source hub filter frames shown state found) 0 [] := by
    refine ⟨⟨hsame.dispatcher, ?_, rfl, rfl, rfl, rfl, rfl⟩, [], [], [], rfl, rfl,
      Lane.fresh hs.engine.dated hepoch ha.rings (fun _ h => absurd h List.not_mem_nil) htame ?_⟩
    · simp only [u, begin, listFrames, hsame.dispatcher, hsame.reducer]
      rfl
    · show shown t.engine.world = state 0
      rw [← hworld, show t.engine.world = s.engine.world from ha.world]
  rw [heq]
  refine ⟨_, rfl, hunder.publish hS hu, hunder.sound_publish hu, fun hcount => ?_⟩
  rw [show s.nextRing hub = (s.course source hub filter frames shown state found).ring from rfl,
    hunder.starving_publish hS hu hcount]
  have hrings : t.nextEpoch.engine.rings = s.engine.rings := ha.rings
  simp only [Starving, Engine.Saturated, u, Inbox.subscribe, true_and, hrings]

end Scan

namespace Plan

open Scan Cursor

variable {p : Plan ω} {e : Engine ω} {hub : Nat} {frames : List Frame} {w : ω}
  {shown : ω → σ} {state : Nat → σ} {found : Nat → List Nat → Option Failure → Prop}
  {N : List Lease} {C L H : List Place} {F : List Lease}

/-! ## Executions of plans -/

/-- The course of an execution of a plan. -/
def course (p : Plan ω) (hub : Nat) (e : Engine ω) (frames : List Frame) (shown : ω → σ)
    (state : Nat → σ) (found : Nat → List Nat → Option Failure → Prop) : Course ω σ :=
  (p.scan e).course p.source hub p.filter frames shown state found

/-- The ring of the next execution of a plan. -/
def nextRing (p : Plan ω) (hub : Nat) (e : Engine ω) : Nat := (p.scan e).nextRing hub

lemma replace_eq (hf : p.inbox.inFlight = []) : (p.scan e).replace = (.ok (), p.scan e) := by
  rw [replace, if_pos]
  exact hf

lemma dispatch_eq (hf : p.inbox.inFlight = []) (hw : p.source.supply e.world = (.ok frames, w)) :
    (p.scan e).dispatch p.source hub p.filter =
      (p.scan (e.withWorld w)).launch p.source hub p.filter frames := by
  have hw' : p.source.supply (p.scan e).engine.world = (.ok frames, w) := hw
  simp only [dispatch, replace_eq hf, hw']
  rfl

lemma dispatch_stop (hf : p.inbox.inFlight = []) {stop : Stop}
    (hw : p.source.supply e.world = (.error stop, w)) :
    (p.scan e).dispatch p.source hub p.filter = (.error stop, p.scan (e.withWorld w)) := by
  have hw' : p.source.supply (p.scan e).engine.world = (.error stop, w) := hw
  simp only [dispatch, replace_eq hf, hw']
  rfl

/-- A source that stops stops the execution. -/
lemma openCursor_stop (hf : p.inbox.inFlight = []) {stop : Stop}
    (hw : p.source.supply e.world = (.error stop, w)) : (p.openCursor hub e).1 = .error stop := by
  rw [openCursor_eq, dispatch_stop hf hw]

/-- Frames that do not fit the schema stop the execution. -/
lemma openCursor_misfit (hf : p.inbox.inFlight = [])
    (hw : p.source.supply e.world = (.ok frames, w)) (hfit : ¬ p.source.Fits frames) :
    (p.openCursor hub e).1 = .error (.faulted .columnCount) := by
  have hl : ((p.scan (e.withWorld w)).launch p.source hub p.filter frames).1 = _ :=
    launch_misfit hfit
  rw [openCursor_eq, dispatch_eq hf hw]
  rcases hr : (p.scan (e.withWorld w)).launch p.source hub p.filter frames with ⟨r, s⟩
  rw [hr] at hl
  obtain rfl := hl
  rfl

/-- A cursor is opened only on frames that fit the schema. -/
lemma openCursor_supplied (hf : p.inbox.inFlight = []) {c : Cursor}
    (ho : (p.openCursor hub e).1 = .ok c) :
    ∃ frames w, p.source.supply e.world = (.ok frames, w) ∧ p.source.Fits frames := by
  rcases hw : p.source.supply e.world with ⟨stop | frames, w⟩
  · rw [openCursor_stop hf hw] at ho
    cases ho
  · refine ⟨frames, w, rfl, ?_⟩
    by_contra hfit
    rw [openCursor_misfit hf hw hfit] at ho
    cases ho

/-- A cursor on the execution of a plan reaches what there is to find, unless the ring has no
free slot. -/
lemma openCursor_reads (hS : (p.course hub e frames shown state found).Lawful)
    (hf : p.inbox.inFlight = []) (hw : p.source.supply e.world = (.ok frames, w))
    (hfit : p.source.Fits frames) (hh : (p.scan e).HasHub hub) (hs : (p.scan e).Sound N C L F H)
    (htame : ∀ i slot v, (e.task i slot).work = some v → v.dispatcher ≠ p.dispatcher.id →
      v.reducer.Leaves v.filter shown)
    (hworld : shown w = state 0) :
    (frames ≠ [] ∧ e.Saturated (p.nextRing hub e) ∧
      Saturates (p.openCursor hub e).1) ∨
    (¬ (frames ≠ [] ∧ e.Saturated (p.nextRing hub e)) ∧
      ∃ x, (p.course hub e frames shown state found).Finds 0 x ∧
        ((∃ c s', x.outcome = .ok () ∧ p.openCursor hub e = (.ok c, p.ofScan s', s'.engine) ∧
            c.Poised (p.course hub e frames shown state found) x ∧
            c.Reads (p.course hub e frames shown state found) s') ∨
          ∃ stop, x.outcome = .error stop ∧ (p.openCursor hub e).1 = .error stop)) := by
  have hcount : 0 < (p.course hub e frames shown state found).count ↔ frames ≠ [] := by
    simp [course, Scan.course, hfit.directory, List.length_pos_iff]
  -- what the source does to the world does not change the course
  have hring : (p.scan (e.withWorld w)).nextRing hub = p.nextRing hub e :=
    nextRing_withWorld (p.scan e) hub w
  have hcourse : (p.scan (e.withWorld w)).course p.source hub p.filter frames shown state found =
      p.course hub e frames shown state found := by
    simp only [course, Scan.course, hring]
    rfl
  have m : Move (fun _ : ω => ()) (p.scan e, N) (p.scan (e.withWorld w), N) :=
    .alike ⟨rfl, rfl, rfl, rfl, rfl⟩
  obtain ⟨F₁, hs₁, -⟩ := m.sound hs
  have hS' : ((p.scan (e.withWorld w)).course p.source hub p.filter frames shown state
      found).Lawful := by rwa [hcourse]
  obtain ⟨s, hl, hu, ⟨F₂, hs₂⟩, hst⟩ := launch_course hS' hfit hf hh hs₁ htame hworld
  rw [hcourse] at hu
  rw [hring] at hst
  have hst' : 0 < (p.course hub e frames shown state found).count →
      (s.Starving (p.nextRing hub e) ↔ e.Saturated (p.nextRing hub e)) := hst
  rw [openCursor_eq, dispatch_eq hf hw]
  simp only [hl]
  rcases openOn_reads hS hu hs₂ with ⟨hlt, hsat, shard, waited, s', ho⟩ | ⟨hsat, x, hx, ho⟩
  · left
    rw [ho]
    exact ⟨hcount.1 hlt, (hst' hlt).1 hsat, shard, waited, rfl⟩
  · right
    refine ⟨fun ⟨hne, hsat'⟩ => hsat ⟨hcount.2 hne, (hst' (hcount.2 hne)).2 hsat'⟩, x, hx, ?_⟩
    rcases ho with ⟨c, s', hout, ho, hp, hr⟩ | ⟨stop, s', hout, ho⟩ <;> rw [ho]
    · exact .inl ⟨c, s', hout, rfl, hp, hr⟩
    · exact .inr ⟨stop, hout, rfl⟩

end Plan

end TableScan
