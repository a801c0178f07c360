import TableScan.Proofs.Conservation
import TableScan.Proofs.Starting
import TableScan.Proofs.Twins

/-!
# Renewals

A dispatcher that is used again, beside a new one.  Whatever it was used for before, nothing of
that shows in its next execution: a dispatch sets up all that an execution depends on.  The one
exception is what the dispatcher has left to be reduced for other inboxes, which is out of date
from then on; with a new dispatcher it would still be run, and could change the world.  Main
statement: consumers cannot tell the two dispatchers apart (`Workshop.renews`).
-/

namespace TableScan

variable {ω : Type} {a b i j : Nat}

/-- A ring apart from its number. -/
def Ring.unnumbered (r : Ring ω) : Ring ω := { r with shard := 0 }

/-! ## Calls -/

/-- What happens to an execution under way: its consumer calls for something, a worker of its ring
takes a step, or time passes. -/
inductive Call
  | next
  /-- Gives back one of the leases in the consumer's hands. -/
  | done (n : Nat)
  | steal
  | rewind
  | work
  | wait (time : Nat)

/-- What a consumer gets to see.  It can tell whether a lease is of the current epoch. -/
inductive Reply
  | lease (frame rowCount : Nat) (rows : List Nat) (error : Option Failure) (current : Bool)
  | stopped (stop : Stop)
  | nothing
deriving DecidableEq, Repr

/-- A leased task as its consumer sees it. -/
def Scan.reply (s : Scan ω) (t : Task ω) : Reply :=
  .lease t.frame t.rowCount t.rows t.error (Cursor.isCurrent s t)

/-- The reply without the shard that its failure names. -/
def Reply.unsharded : Reply → Reply
  | .stopped stop => .stopped stop.unsharded
  | reply => reply

/-- What comes of a call, with the leases in the consumer's hands. -/
def Call.on (s : Scan ω) (held : List Lease) : Call → Reply × Scan ω × List Lease
  | next =>
      match s.next? with
      | .error fault => (.stopped (.faulted fault), s, held)
      | .ok none => (.nothing, s, held)
      | .ok (some (l, s)) => (s.reply (s.engine.task l.ring l.slot), s, held ++ [l])
  | done n =>
      match held.drop n with
      | [] => (.nothing, s, held)
      | l :: rest => (.nothing, s.done l, held.take n ++ rest)
  | steal =>
      match s.steal with
      | (.error stop, s) => (.stopped stop, s, held)
      | (.ok (), s) => (.nothing, s, held)
  | rewind => (.nothing, s.rewind, held)
  | work => (.nothing, s.reduceOne.2, held)
  | wait time =>
      (.nothing, { s with engine := { s.engine with clock := s.engine.clock + time } }, held)

/-- What the consumer of an execution gets to see, call by call. -/
def Scan.replies (s : Scan ω) (held : List Lease) : List Call → List Reply
  | [] => []
  | c :: calls =>
      let r := c.on s held
      r.1 :: r.2.1.replies r.2.2 calls

namespace Scan.Twin

variable {s t : Scan ω} {held held' : List Lease}

lemma reply {x y : Task ω} (h : s.Twin a b i j t)
    (hpeer : x.Peer a b s.engine.epoch t.engine.epoch y) : t.reply y = s.reply x := by
  have hcurrent : Cursor.isCurrent t y = Cursor.isCurrent s x := by
    simp only [Cursor.isCurrent, hpeer.own.left, hpeer.own.right, h.id, h.id_right,
      beq_self_eq_true, Bool.true_and]
    exact Bool.eq_iff_iff.2 (by simp [hpeer.own.current])
  simp only [Scan.reply, hpeer.frame, hpeer.rowCount, hpeer.rows, hpeer.error, hcurrent]

/-- A call comes to the same in twins. -/
lemma call (h : s.Twin a b i j t) (hl : held.Forall₂ (Lease.Twin i j) held') (c : Call) :
    (c.on t held').1.unsharded = (c.on s held).1.unsharded ∧
      (c.on s held).2.1.Twin a b i j (c.on t held').2.1 ∧
      (c.on s held).2.2.Forall₂ (Lease.Twin i j) (c.on t held').2.2 := by
  cases c with
  | next =>
    simp only [Call.on]
    rcases h.next? with ⟨fault, hs, ht⟩ | ⟨hs, ht⟩ | ⟨l, s', l', t', hs, ht, hlease, h', hpeer⟩ <;>
      rw [hs, ht]
    · exact ⟨rfl, h, hl⟩
    · exact ⟨rfl, h, hl⟩
    · exact ⟨congrArg Reply.unsharded (h'.reply hpeer), h',
        List.rel_append hl (.cons hlease .nil)⟩
  | done n =>
    have hdrop := List.forall₂_drop n hl
    have htake := List.forall₂_take n hl
    simp only [Call.on]
    generalize held.drop n = x, held'.drop n = y at hdrop
    cases hdrop with
    | nil => exact ⟨rfl, h, hl⟩
    | cons hlease hrest => exact ⟨rfl, h.done hlease, List.rel_append htake hrest⟩
  | steal =>
    obtain ⟨hfst, hsnd⟩ := h.steal
    simp only [Call.on]
    rcases hs : s.steal with ⟨x, s'⟩
    rcases ht : t.steal with ⟨y, t'⟩
    rw [hs, ht] at hfst hsnd
    cases x <;> cases y
    · exact ⟨congrArg Reply.stopped (Except.error.inj hfst), hsnd, hl⟩
    · cases hfst
    · cases hfst
    · exact ⟨rfl, hsnd, hl⟩
  | rewind => exact ⟨rfl, h.rewind, hl⟩
  | work => exact ⟨rfl, h.reduceOne.2, hl⟩
  | wait time =>
    refine ⟨rfl, h.onEngine ?_, hl⟩
    exact h.engine.congr rfl rfl rfl rfl rfl rfl (by rw [h.engine.clock]) h.engine.world

/-- Consumers cannot tell twins apart. -/
lemma replies (h : s.Twin a b i j t) (hl : held.Forall₂ (Lease.Twin i j) held')
    (calls : List Call) :
    (t.replies held' calls).map Reply.unsharded = (s.replies held calls).map Reply.unsharded := by
  induction calls generalizing s t held held' with
  | nil => rfl
  | cons c calls ih =>
    obtain ⟨hreply, h', hl'⟩ := h.call hl c
    simp only [Scan.replies, List.map_cons, hreply, ih h' hl']

end Scan.Twin

namespace Scan

variable {s s' t : Scan ω} {source : Source ω} {hub : Nat} {filter : Filter ω}
  {frames : List Frame} {n id : Nat} {past : Nat → Nat}

/-! ## What a dispatch sets up -/

/-- An execution over opened frames before it publishes any of them.  Of the dispatcher's past,
its number, its reducer and its shard are still there. -/
def launched (s : Scan ω) (source : Source ω) (hub : Nat) (filter : Filter ω)
    (frames : List Frame) : Scan ω where
  dispatcher :=
    { id := s.dispatcher.id
      reducer := s.dispatcher.reducer
      shard := some (s.dispatcher.shard.getD (s.engine.drawShard hub).1)
      hub := some hub
      ring := some (s.nextRing hub)
      frameCount := (source.directory frames).frames.size
      position := 0
      order := source.order
      directory := source.directory frames
      dictionaries := some source.dictionaries
      work := some
        { dispatcher := s.dispatcher.id
          view := .ofDirectory (source.directory frames) source.dictionaries
          filter
          reducer := s.dispatcher.reducer }
      starvedAt := none }
  inbox := s.inbox.subscribe (s.nextRing hub)
  engine := (s.drawShard hub).2.engine.nextEpoch s.dispatcher.id

lemma dispatcher_drawShard (s : Scan ω) (hub : Nat) :
    (s.drawShard hub).2.dispatcher =
      { s.dispatcher with
        shard := some (s.dispatcher.shard.getD (s.engine.drawShard hub).1) } := by
  unfold drawShard
  cases hshard : s.dispatcher.shard with
  | none => rfl
  | some shard =>
    obtain ⟨⟨⟩, _, _⟩ := s
    obtain rfl := hshard
    rfl

/-- A shard is drawn from the hubs, and nothing else of the engine changes. -/
lemma engine_drawShard (s : Scan ω) (hub : Nat) :
    ∃ hubs, (s.drawShard hub).2.engine = { s.engine with hubs } ∧
      (s.drawShard hub).2.engine.patienceOf = s.engine.patienceOf := by
  unfold drawShard
  cases s.dispatcher.shard with
  | some shard => exact ⟨_, rfl, rfl⟩
  | none =>
    dsimp only
    unfold Engine.drawShard
    cases s.engine.hubs[hub]? with
    | none => exact ⟨_, rfl, rfl⟩
    | some h =>
      refine ⟨_, rfl, funext fun other => ?_⟩
      cases other with
      | none => rfl
      | some other =>
        simp only [Engine.patienceOf, Option.bind_some, Array.getElem?_modify]
        cases s.engine.hubs[other]? with
        | none => simp
        | some h' => by_cases hother : hub = other <;> simp [hother]

lemma launch_eq (hfit : source.Fits frames) :
    s.launch source hub filter frames =
      (.ok (), (s.launched source hub filter frames).publish) := by
  have hinbox := inbox_drawShard (s := s) hub
  have hdispatcher := s.dispatcher_drawShard hub
  obtain ⟨t, hd, ha⟩ := drawShard_eq s hub
  have hring : t.nextEpoch.ringOf hub (s.dispatcher.shard.getD (s.engine.drawShard hub).1) =
      s.nextRing hub := ringOf_of_sameSize (ha.sameSize.trans t.sameSize_nextEpoch) ..
  rw [Source.Fits] at hfit
  rw [hd] at hinbox hdispatcher
  dsimp only at hinbox hdispatcher
  simp only [launch, launched, drawShard_nextEpoch, hd, listFrames, Directory.addAll, hfit, if_true,
    hring, begin, Source.directory]
  simp only [nextEpoch, hinbox, hdispatcher]

/-- Frames that are published stay in the directory. -/
lemma directory_publish (s : Scan ω) : s.publish.dispatcher.directory = s.dispatcher.directory := by
  refine publish_keeps (P := fun t => t.dispatcher.directory = s.dispatcher.directory)
    (fun h hs => ?_) rfl
  obtain ⟨_, _, _, _, _, -, -, -, -, rfl⟩ := publishOne?_cases hs
  exact h

/-- How a dispatch comes to start an execution. -/
lemma dispatch_ok (h : s.dispatch source hub filter = (.ok (), s')) :
    ∃ frames w, source.Fits frames ∧ s.replace.1 = .ok () ∧
      source.supply s.replace.2.engine.world = (.ok frames, w) := by
  unfold dispatch at h
  rcases hr : s.replace with ⟨stop | ⟨⟩, u⟩ <;> rw [hr] at h
  · cases h
  · rcases hw : source.supply u.engine.world with ⟨stop | frames, w⟩
    · simp only [hw] at h
      cases h
    · refine ⟨frames, w, ?_, rfl, rfl⟩
      by_contra hfit
      simp only [hw] at h
      have hmisfit : (Scan.launch { u with engine := u.engine.withWorld w } source hub filter
          frames).1 = _ := launch_misfit hfit
      rw [h] at hmisfit
      cases hmisfit

/-! ## A new dispatcher -/

/-- A scan whose dispatcher has the same reducer and was never used.  The ring of its next execution
for the hub holds what that of the other scan holds. -/
structure Beside (hub : Nat) (s t : Scan ω) : Prop where
  new : t.dispatcher = { id := t.dispatcher.id, reducer := s.dispatcher.reducer }
  there : t.dispatcher.id < t.engine.epochs.size
  inFlight : t.inbox.inFlight = []
  queue : (t.engine.rings[t.nextRing hub]?).map Ring.unnumbered =
    (s.engine.rings[s.nextRing hub]?).map Ring.unnumbered
  unknown : ∀ slot w, (s.engine.task (s.nextRing hub) slot).work = some w →
    w.dispatcher ≠ t.dispatcher.id
  epochs : ∀ d, d ≠ t.dispatcher.id → t.engine.epoch d = s.engine.epoch d
  patience : t.engine.patienceOf = s.engine.patienceOf
  clock : t.engine.clock = s.engine.clock
  world : t.engine.world = s.engine.world

/-- What the dispatcher has left to be reduced in the ring of its next execution for the hub leaves
the world alone. -/
def Harmless (s : Scan ω) (hub : Nat) : Prop :=
  ∀ slot ∈ s.engine.pendingIn (some (s.nextRing hub)), ∀ w,
    (s.engine.task (s.nextRing hub) slot).work = some w → w.dispatcher = s.dispatcher.id →
      ∀ x, ((s.engine.task (s.nextRing hub) slot).run s.engine.epoch x).2.2 = x

/-- A new dispatcher on the same engine, for an inbox with nothing in flight. -/
def another (s : Scan ω) (k : Inbox) : Scan ω where
  dispatcher := { id := s.engine.addDispatcher.1, reducer := s.dispatcher.reducer }
  inbox := k
  engine := s.engine.addDispatcher.2

namespace Beside

/-- A new dispatcher that publishes into the same ring is beside the old one. -/
lemma another (hs : s.Aged n past id) {k : Inbox} (hk : k.inFlight = [])
    (hring : (s.another k).nextRing hub = s.nextRing hub) : s.Beside hub (s.another k) where
  new := rfl
  there := by simp [Scan.another, Engine.addDispatcher]
  inFlight := hk
  queue := by
    rw [hring]
    rfl
  unknown slot w hw := by
    obtain ⟨hlt, -, hwork⟩ := hs.engine.knows (s.nextRing hub) slot
    exact hwork w hw ▸ hlt.ne
  epochs d _ := congrFun s.engine.epoch_addDispatcher d
  patience := rfl
  clock := rfl
  world := rfl

/-- Once both have begun an epoch, the engines are those of twins. -/
lemma engine (h : s.Beside hub t) (hs : s.Aged n past id) (hharmless : s.Harmless hub) :
    (s.engine.nextEpoch s.dispatcher.id).Twin s.dispatcher.id t.dispatcher.id (s.nextRing hub)
      (t.nextRing hub) (· ∈ []) (t.engine.nextEpoch t.dispatcher.id) := by
  have hid : s.dispatcher.id < s.engine.epochs.size :=
    hs.id_eq ▸ Nat.lt_of_lt_of_le hs.id_lt hs.engine.size
  have hlt : s.engine.epoch s.dispatcher.id <
      (s.engine.nextEpoch s.dispatcher.id).epoch s.dispatcher.id := epoch_lt_nextEpoch hid
  refine ⟨by simpa [Engine.nextEpoch] using hid, by simpa [Engine.nextEpoch] using h.there, ?_,
    fun d ha hb => ?_, h.patience, h.clock, h.world⟩
  · show Option.Rel _ s.engine.rings[s.nextRing hub]? t.engine.rings[t.nextRing hub]?
    have hqueue := h.queue
    cases hr : s.engine.rings[s.nextRing hub]? with
    | none =>
      rw [hr, Option.map_none, Option.map_eq_none_iff] at hqueue
      rw [hqueue]
      exact .none
    | some r =>
      rw [hr, Option.map_some] at hqueue
      obtain ⟨r', hr', hrr'⟩ := Option.map_eq_some_iff.1 hqueue
      rw [hr']
      refine .some ⟨(congrArg Ring.blank hrr' :), fun k hk => ?_,
        fun k hk _ => absurd hk List.not_mem_nil⟩
      -- the tasks are the same, and those of the first scan are of a past epoch
      have htask : r'.task k = r.task k := (congrArg (Ring.task · k) hrr' :)
      have hhere : s.engine.task (s.nextRing hub) k = r.task k := Engine.task_eq hr
      have hdated : (r.task k).Dated s.engine.epoch := hhere ▸ (hs.engine.knows _ k).2
      rw [htask]
      cases hw : (r.task k).work with
      | none => exact .inl ⟨rfl, rfl, rfl, rfl, .nothing hw hw⟩
      | some w =>
        have hb : w.dispatcher ≠ t.dispatcher.id := h.unknown k w (hhere ▸ hw)
        by_cases ha : w.dispatcher = s.dispatcher.id
        · refine .inr ⟨rfl, rfl, ⟨w, hw, ha, ?_⟩, w, hw, hb, fun hepoch x => ?_⟩
          · have hle : (r.task k).epoch ≤ s.engine.epoch s.dispatcher.id := by
              rw [← ha, hdated.2 w hw]
              exact hdated.1
            omega
          · have hk' : k ∈ s.engine.pendingIn (some (s.nextRing hub)) := by
              rwa [Engine.pendingIn_some hr]
            rw [Engine.epoch_nextEpoch, if_neg fun hd => hb hd.1.symm, h.epochs _ hb] at hepoch
            have hrun := hharmless k hk' w (hhere ▸ hw) ha x
            rwa [hhere, (Task.run_of_current hw hepoch x).2] at hrun
        · exact .inl ⟨rfl, rfl, rfl, rfl, .other w hw hw ha hb rfl⟩
  · rw [Engine.epoch_nextEpoch, if_neg fun hd => hb hd.1.symm, Engine.epoch_nextEpoch,
      if_neg fun hd => ha hd.1.symm, h.epochs d hb]

/-- Executions over the same frames begin as twins. -/
lemma launched (h : s.Beside hub t) (hs : s.Aged n past id) (hharmless : s.Harmless hub)
    (source : Source ω) (filter : Filter ω) (frames : List Frame) (w : ω) :
    (Scan.launched { s with engine := s.engine.withWorld w } source hub filter frames).Twin
      s.dispatcher.id t.dispatcher.id (s.nextRing hub) (t.nextRing hub)
      (Scan.launched { t with engine := t.engine.withWorld w } source hub filter frames) := by
  let u : Scan ω := { s with engine := s.engine.withWorld w }
  let v : Scan ω := { t with engine := t.engine.withWorld w }
  obtain ⟨hubs, hu, hpat⟩ := engine_drawShard u hub
  obtain ⟨hubs', hv, hpat'⟩ := engine_drawShard v hub
  have hreducer : t.dispatcher.reducer = s.dispatcher.reducer := by rw [h.new]
  have hdispatcher : (v.launched source hub filter frames).dispatcher =
      (u.launched source hub filter frames).dispatcher.under t.dispatcher.id (t.nextRing hub)
        (v.launched source hub filter frames).dispatcher.shard := by
    simp only [Scan.launched, Dispatcher.under, Work.under, Option.map_some, u, v, hreducer,
      nextRing_withWorld]
  refine ⟨rfl, fun x hx => ?_, ?_, ⟨_, hdispatcher⟩, ?_, ?_, rfl, ?_⟩
  · obtain rfl := Option.some.inj hx
    rfl
  · exact congrArg some (nextRing_withWorld s hub w)
  · exact congrArg some (nextRing_withWorld s hub w)
  · exact congrArg some (nextRing_withWorld t hub w)
  · refine (h.engine hs hharmless).congr ?_ ?_ ?_ ?_ hpat hpat' ?_ ?_
    all_goals simp only [Scan.launched, Engine.nextEpoch, hu, hv, u, v]
    · rfl
    · rfl
    · rfl
    · rfl
    · exact h.clock
    · rfl

end Beside

end Scan

namespace Workshop

open Scan

variable {W : Workshop ω} {site : Site} {s s' : Scan ω} {source : Source ω} {hub : Nat}
  {filter : Filter ω}

/-- Whatever has been done in a workshop, a dispatcher that starts an execution lists exactly the
frames of its source, in an epoch that comes after all those before, and its consumer cannot tell
it from a new one, if what it has left for other inboxes leaves the world alone. -/
theorem renews {world : ω} {settings : List Settings} (hmade : make? world settings = .ok W)
    (as bs : List (Deed ω)) (hs : (bs.foldl after (as.foldl after W)).scan? site = some s)
    (hok : s.dispatch source hub filter = (.ok (), s')) :
    (∃ frames w, source.supply s.replace.2.engine.world = (.ok frames, w) ∧
      s'.dispatcher.directory = { types := source.schema.types, frames := frames.toArray }) ∧
    (as.foldl after W).engine.epoch s.dispatcher.id < s'.engine.epoch s.dispatcher.id ∧
    (s.replace.2.Harmless hub → ∀ t, s.replace.2.Beside hub t →
      ∃ t', t.dispatch source hub filter = (.ok (), t') ∧
        ∀ held held' calls,
          held.Forall₂ (Lease.Twin (s.replace.2.nextRing hub) (t.nextRing hub)) held' →
            (t'.replies held' calls).map Reply.unsharded =
              (s'.replies held calls).map Reply.unsharded) := by
  obtain ⟨frames, w, hfit, hreplace, hsupply⟩ := dispatch_ok hok
  have haged := (Scan.Aged.stable ..).replace
    ((aged_foldl (aged_foldl (aged_make hmade) as).now bs).scan hs)
  have hlaunch := dispatch_eq_launch hub filter hreplace hsupply
  rw [hok] at hlaunch
  have hepoch := epoch_launch { s.replace.2 with engine := s.replace.2.engine.withWorld w } source
    hub filter frames
  rw [← hlaunch] at hepoch
  rw [launch_eq hfit] at hlaunch
  obtain ⟨-, rfl⟩ := Prod.mk.inj hlaunch
  refine ⟨⟨frames, w, hsupply, ?_⟩, ?_, fun hharmless t ht => ?_⟩
  · rw [directory_publish]
    exact hfit.directory
  · have hnext := epoch_lt_nextEpoch (s := s.replace.2)
      (haged.id_eq ▸ Nat.lt_of_lt_of_le haged.id_lt haged.engine.size)
    rw [haged.id_eq] at hnext
    exact ((haged.engine.past _).trans_lt hnext).trans_eq (congrFun hepoch.symm _)
  · have hkeep : t.replace = (.ok (), t) := if_pos ht.inFlight
    have hsupply' : source.supply t.replace.2.engine.world = (.ok frames, w) := by
      rw [hkeep, ht.world, hsupply]
    have hlaunch' := dispatch_eq_launch hub filter (hkeep ▸ rfl) hsupply'
    rw [hkeep, launch_eq hfit] at hlaunch'
    refine ⟨_, hlaunch', fun held held' calls hheld => ?_⟩
    exact (ht.launched haged hharmless source filter frames w).publish.replies hheld calls

/-- A dispatcher with one of its slots left to another inbox. -/
def secondhand : List (Deed Unit) :=
  [.addDispatcher "d" (.filtering .ascending), .addInbox "k", .addInbox "l",
    .dispatch ⟨.own "d", .own "k"⟩ (plainSource [1]) 0 keepAll]

theorem renews_secondhand :
    make? () [{ ringsPerHub := some 1, ringCapacity := some 2, patience := some 0 }] = .ok small ∧
      ∃ s s', (secondhand.foldl after small).scan? ⟨.own "d", .own "l"⟩ = some s ∧
        s.engine.pendingIn (some 0) = [0] ∧
        s.dispatch (plainSource [1, 1, 1]) 0 keepAll = (.ok (), s') ∧
        s.replace.2.Harmless 0 ∧ s.replace.2.Beside 0 (s.another { id := 2 }) ∧
        ∃ t', (s.another { id := 2 }).dispatch (plainSource [1, 1, 1]) 0 keepAll = (.ok (), t') ∧
          ∀ calls, (t'.replies [] calls).map Reply.unsharded =
            (s'.replies [] calls).map Reply.unsharded := by
  have hat : ((secondhand.foldl after small).scan? ⟨.own "d", .own "l"⟩).map (fun s =>
      let x := s.dispatch (plainSource [1, 1, 1]) 0 keepAll
      (s.inbox.inFlight, s.engine.pendingIn (some 0), s.nextRing 0,
        (s.another { id := 2 }).nextRing 0, x.1.isOk)) = some ([], [0], 0, 0, true) := by
    decide +kernel
  obtain ⟨s, hs, hat⟩ := Option.map_eq_some_iff.1 hat
  simp only [Prod.mk.injEq] at hat
  obtain ⟨hflight, hpending, hring, hring', hdone⟩ := hat
  have hreplace : s.replace = (.ok (), s) := if_pos hflight
  have haged := (aged_foldl (aged_make made_small) secondhand).scan hs
  have hbeside : s.Beside 0 (s.another { id := 2 }) :=
    .another haged rfl (hring'.trans hring.symm)
  rcases hok : s.dispatch (plainSource [1, 1, 1]) 0 keepAll with ⟨stop | ⟨⟩, s'⟩
  · rw [hok] at hdone
    cases hdone
  · have hharmless : s.replace.2.Harmless 0 := fun _ _ _ _ _ _ => rfl
    have hbeside' : s.replace.2.Beside 0 (s.another { id := 2 }) := by rwa [hreplace]
    obtain ⟨-, -, hrenews⟩ := renews made_small secondhand [] hs hok
    obtain ⟨t', ht', hsame⟩ := hrenews hharmless _ hbeside'
    exact ⟨made_small, s, s', hs, hpending, hok, hharmless, hbeside', t', ht',
      fun calls => hsame [] [] calls .nil⟩

/-- A workshop over a count, with one ring of four slots. -/
def fourSlots : Workshop Nat :=
  { engine :=
      { rings := #[.ofCapacity 0 4]
        hubs := #[{ firstRing := 0, shards := 1, patience := 0 }]
        world := 0 } }

/-- A source of one frame with one row. -/
def oneRow : Source Nat :=
  { schema := { columns := #[] }, supply := fun w => (.ok (plainFrames [1]), w) }

/-- The filter that keeps the first row that it is ever asked about. -/
def keepFirst : Filter Nat := { judge := fun _ w => (if w = 0 then .keep else .skip, w + 1) }

/-- A dispatcher with a row left to another inbox. -/
def withheld : List (Deed Nat) :=
  [.addDispatcher "d" (.filtering .ascending), .addInbox "k", .addInbox "l",
    .dispatch ⟨.own "d", .own "k"⟩ oneRow 0 keepFirst]

/-- A row that a dispatcher has left to another inbox is out of date once the dispatcher is used
again, and so its next consumer gets the first row; that of a new dispatcher gets the second. -/
theorem renews_not_withheld :
    make? 0 [{ ringsPerHub := some 1, ringCapacity := some 4, patience := some 0 }] =
        .ok fourSlots ∧
      ∃ s s' t', (withheld.foldl after fourSlots).scan? ⟨.own "d", .own "l"⟩ = some s ∧
        s.replace = (.ok (), s) ∧ s.Beside 0 (s.another { id := 2 }) ∧
        s.dispatch oneRow 0 keepFirst = (.ok (), s') ∧
        (s.another { id := 2 }).dispatch oneRow 0 keepFirst = (.ok (), t') ∧
        s'.replies [] [.steal, .steal, .next] = [.nothing, .nothing, .lease 0 1 [0] none true] ∧
        t'.replies [] [.steal, .steal, .next] = [.nothing, .nothing, .lease 0 1 [] none true] := by
  have made : make? 0 [{ ringsPerHub := some 1, ringCapacity := some 4, patience := some 0 }] =
      .ok fourSlots := by with_unfolding_all rfl
  have hat : ((withheld.foldl after fourSlots).scan? ⟨.own "d", .own "l"⟩).map (fun s =>
      let x := s.dispatch oneRow 0 keepFirst
      let y := (s.another { id := 2 }).dispatch oneRow 0 keepFirst
      ((s.inbox.inFlight, s.nextRing 0, (s.another { id := 2 }).nextRing 0),
        (x.1.isOk, x.2.replies [] [.steal, .steal, .next]),
        (y.1.isOk, y.2.replies [] [.steal, .steal, .next]))) =
          some (([], 0, 0), (true, [.nothing, .nothing, .lease 0 1 [0] none true]),
            (true, [.nothing, .nothing, .lease 0 1 [] none true])) := by decide +kernel
  obtain ⟨s, hs, hat⟩ := Option.map_eq_some_iff.1 hat
  simp only [Prod.mk.injEq] at hat
  obtain ⟨⟨hflight, hring, hring'⟩, ⟨hx, hleft⟩, hy, hright⟩ := hat
  have haged := (aged_foldl (aged_make made) withheld).scan hs
  rcases hok : s.dispatch oneRow 0 keepFirst with ⟨stop | ⟨⟩, s'⟩ <;> rw [hok] at hx hleft
  · cases hx
  · rcases hok' : (s.another { id := 2 }).dispatch oneRow 0 keepFirst with ⟨stop | ⟨⟩, t'⟩ <;>
      rw [hok'] at hy hright
    · cases hy
    · exact ⟨made, s, s', t', hs, if_pos hflight, .another haged rfl (hring'.trans hring.symm), hok,
        hok', hleft, hright⟩

end Workshop

end TableScan
