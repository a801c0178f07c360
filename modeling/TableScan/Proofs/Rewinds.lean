import TableScan.Proofs.Failures
import TableScan.Proofs.Histories
import TableScan.Proofs.Starvation

/-!
# Rewinds

An execution whose consumer goes back to the first frame as often as it likes, with slots in flight
that are published, reduced or leased.  Whatever it has called for, its history says what was
posted, reduced and leased in which epoch.  Main statement: the leases follow the posts through
epochs that never decrease, every epoch goes through the frames in the order of the scan, and a
frame brings its result if it is reduced in its epoch, and nothing if it is reduced later
(`Workshop.epochs_keep_law`).
-/

namespace TableScan

variable {ω σ : Type}

/-! ## The law of epochs -/

/-- What a verdict makes of some rows of a frame: the rows that it keeps, or in their place the
failure on the first one on which it does not answer. -/
def RowView.sift (v : RowView) (verdict : RowView → Verdict) (rows : List Nat) :
    List Nat × Option Failure :=
  match rows.findSome? fun row => (verdict (v.atRow row)).failure? v.frame with
  | none => (rows.filter fun row => verdict (v.atRow row) = .keep, none)
  | some failure => ([], some failure)

/-- A sweep with a verdict on the rows leaves what the verdict makes of them. -/
lemma Filter.sweep_sift (verdict : RowView → Verdict) (o : Order) (v : RowView) (n : Nat) :
    (((ofVerdict verdict).sweep o v n ()).1.rows,
      ((ofVerdict verdict).sweep o v n ()).1.failure? v.frame) = v.sift verdict (o.items n) := by
  obtain ⟨hkept, hfailed⟩ := sweep_ofVerdict verdict o v n v.frame
  have hfailure := failure?_sweep verdict o v n v.frame
  unfold RowView.sift
  rw [← hfailure]
  cases hall : (o.items n).all fun row => (verdict (v.atRow row)).answers with
  | true =>
    rw [hkept hall]
    rfl
  | false =>
    obtain ⟨hrows, hsome⟩ := hfailed hall
    obtain ⟨failure, hf⟩ := Option.isSome_iff_exists.1 hsome
    rw [hrows, hf]

/-- A posted task that is run in its own epoch brings what the verdict makes of its frame. -/
lemma Post.outcome_of_current {p : Post ω} {o : Order} {verdict : RowView → Verdict}
    (hreducer : p.work.reducer = .filtering o)
    (hverdict : ∀ v w, (p.work.filter.judge v w).1 = verdict v) {epochOf : Nat → Nat}
    (he : p.epoch = epochOf p.work.dispatcher) (w : ω) :
    ((p.outcome epochOf w).rows, (p.outcome epochOf w).error) =
      (p.work.view.atFrame p.frame).sift verdict (o.items p.rowCount) := by
  obtain ⟨hrun, -⟩ := Task.run_of_current (t := p.task) (w := p.work) rfl he w
  rw [hreducer] at hrun
  have hout : p.outcome epochOf w = p.task.finish (Reducer.filtering o ⟨p.frame, p.rowCount⟩
    (p.work.view.atFrame p.frame) p.work.filter w).1 := hrun
  rcases hreduce : Reducer.filtering o ⟨p.frame, p.rowCount⟩ (p.work.view.atFrame p.frame)
    p.work.filter w with ⟨result, w'⟩
  obtain ⟨hrows, herror, -⟩ := Task.finish_filtering (t := p.task) hreduce rfl
  have hsweep :=
    (Filter.shows_ofVerdict hverdict).sweep o (p.work.view.atFrame p.frame) p.rowCount w
  have hsift := Filter.sweep_sift verdict o (p.work.view.atFrame p.frame) p.rowCount
  rw [← hsift, ← hsweep.1, hout, hreduce]
  exact Prod.ext hrows herror

/-- What a run of a posted task brings: in its own epoch its result; in a later one no rows and no
failure, without a question to the filter. -/
structure Post.Brings (p : Post ω) (id : Nat) (result : List Nat × Option Failure)
    (epochOf : Nat → Nat) (w : ω) : Prop where
  epoch_le : p.epoch ≤ epochOf id
  current : p.epoch = epochOf id →
    ((p.outcome epochOf w).rows, (p.outcome epochOf w).error) = result
  stale : p.epoch < epochOf id →
    ((p.outcome epochOf w).rows, (p.outcome epochOf w).error) = ([], none) ∧
      (p.task.run epochOf w).2.2 = w

/-- What has become of a post on ring `i` for inbox `k`, by what happened to its slot since: it
waits, or was run once and holds the outcome, or was leased with it. -/
inductive Post.Fate (p : Post ω) (i k id : Nat) (result : List Nat × Option Failure)
    (e : Engine ω) : Record ω → Prop
  | waits (task : e.task i p.slot = p.task) : p.Fate i k id result e []
  | holds (epochOf : Nat → Nat) (w : ω) (brings : p.Brings id result epochOf w)
      (task : e.task i p.slot = p.outcome epochOf w) :
      p.Fate i k id result e [.reduced p.slot epochOf w]
  | leased (epochOf : Nat → Nat) (w : ω) (brings : p.Brings id result epochOf w) (l : Lease)
      (ring : l.ring = i) (slot : l.slot = p.slot) (rest : Record ω) :
      p.Fate i k id result e
        (.reduced p.slot epochOf w :: .leased k l (p.outcome epochOf w) :: rest)

/-- The law of epochs for an execution along a tour on ring `i` for inbox `k`, whose tasks sift
rows in the order `o`. -/
structure Scan.EpochLaw (s : Scan ω) (T : Tour) (o : Order) (verdict : RowView → Verdict)
    (i k : Nat) (t : Record ω) : Prop where
  /-- The leases come with epochs that never decrease, -/
  ascends : ((t.leasedFrames k).map (·.1)).Pairwise (· ≤ ·)
  /-- each one for the next frame posted. -/
  follows : t.leasedFrames k <+: t.postedFrames k
  /-- An epoch goes through the frames in the order of the scan, without gap or repetition, -/
  segments : ∀ e, framesIn e (t.posts k) <+: T.order.items T.count
  /-- and the latest one, when all is collected and nothing more is published though there is a
  free slot, through all of them. -/
  whole : ∀ held, s.inbox.inFlight = [] → (Call.steal.record s held).posts k = [] → ¬ s.Full →
    framesIn (s.engine.epoch s.dispatcher.id) (t.posts k) = T.order.items T.count ∧
      t.leasedFrames k = t.postedFrames k
  /-- A frame brings its result if it is reduced in its epoch, and nothing if it is later. -/
  fates : ∀ (before : Record ω) (p : Post ω) (after : Record ω),
    t = before ++ .posted k p :: after →
      p.rowCount = T.view.directory.rowCount p.frame ∧
        p.Fate i k s.dispatcher.id ((T.view.atFrame p.frame).sift verdict (o.items p.rowCount))
          s.engine (after.about p.slot)

/-- The course of an execution along a tour, whose tasks sift rows in the order `o`. -/
structure Course.Sifts (S : Course ω σ) (T : Tour) (o : Order) (verdict : RowView → Verdict) :
    Prop where
  dispatcher : S.work.dispatcher = S.id
  reducer : S.work.reducer = .filtering o
  filter : ∀ v w, (S.work.filter.judge v w).1 = verdict v
  view : S.work.view = T.view
  order : S.order = T.order
  count : S.count = T.count
  directory : S.directory = T.view.directory

/-- What a run of a task of the course brings. -/
lemma Course.Sifts.brings {S : Course ω σ} {T : Tour} {o : Order} {verdict : RowView → Verdict}
    (h : S.Sifts T o verdict) {p : Post ω} {j : Nat} (hp : p.task = S.ask p.epoch j)
    {epochOf : Nat → Nat} (hle : p.epoch ≤ epochOf S.id) (w : ω) :
    p.Brings S.id ((T.view.atFrame p.frame).sift verdict (o.items p.rowCount)) epochOf w := by
  have hwork : p.work = S.work := Option.some.inj (congrArg Task.work hp)
  refine ⟨hle, fun he => ?_, fun hlt => ?_⟩
  · rw [← h.view, ← hwork]
    exact Post.outcome_of_current (hwork ▸ h.reducer) (hwork ▸ h.filter)
      (by rw [he, hwork, h.dispatcher]) w
  · have hne : p.task.epoch ≠ epochOf p.work.dispatcher := by
      rw [hwork, h.dispatcher]
      exact Nat.ne_of_lt hlt
    rw [Post.outcome, Task.run_of_stale (w := p.work) rfl hne]
    exact ⟨rfl, rfl⟩

/-- A consumer that tries to get on and posts nothing has nothing to publish. -/
lemma Call.posts_of_steal {s : Scan ω} {held : List Lease} {k : Nat}
    (h : (Call.steal.record s held).posts k = []) : Record.posts k s.posted = [] := by
  unfold Call.record at h
  dsimp only at h
  split at h
  · rw [Record.posts_append] at h
    exact (List.append_eq_nil_iff.1 h).1
  · exact h

namespace Scan.Recalls

variable {S : Course ω σ} {k : Nat} {t before after : Record ω} {held : List Lease} {s : Scan ω}
  {T : Tour} {o : Order} {verdict : RowView → Verdict} {p : Post ω}

/-- A scan that publishes nothing though there is a free slot is through with the frames. -/
lemma count_le (h : s.Recalls S k t held) (hnone : Record.posts k s.posted = [])
    (hfree : ¬ s.Full) : S.count ≤ s.dispatcher.position := by
  by_contra hlt
  obtain ⟨n, hn⟩ : ∃ n, s.dispatcher.frameCount - s.dispatcher.position = n + 1 :=
    ⟨S.count - s.dispatcher.position - 1, by have := h.count; omega⟩
  have hframe := h.frameAt?_eq_some_iff.2 ⟨Nat.lt_of_not_le hlt, rfl⟩
  cases hp : s.publishOne? with
  | none =>
    have hnext := (publishOne?_eq_none_iff.1 hp).resolve_right hfree
    simp [Dispatcher.next?, h.work, hframe] at hnext
  | some s' =>
    obtain ⟨p, hpost, -⟩ := h.publishOne? hp
    simp [posted, hn, postedUpTo, hpost, hp, h.inbox] at hnone

/-- What has become of a post. -/
lemma fate (h : s.Recalls S k t held) (hS : S.Sifts T o verdict)
    (ht : t = before ++ .posted k p :: after) :
    p.Fate S.ring k S.id ((T.view.atFrame p.frame).sift verdict (o.items p.rowCount)) s.engine
      (after.about p.slot) := by
  obtain ⟨r, claimed, leases, others, -, hkept⟩ := h.kept
  have hget : (t.posts k)[(Record.posts k before).length]? = some p := by simp [ht]
  obtain ⟨j, -, hasks⟩ := h.laps.asks p (List.mem_of_getElem? hget)
  have hbrings : ∀ {epochOf w}, .reduced p.slot epochOf w ∈ after →
      p.Brings S.id ((T.view.atFrame p.frame).sift verdict (o.items p.rowCount)) epochOf w :=
    fun hm => hS.brings hasks ((ht ▸ h.dated).epoch_le hm) _
  have hmem : ∀ {ev : Event ω} {u : Record ω}, ev ∈ u.about p.slot → ev ∈ u :=
    fun hm => (List.mem_filter.1 hm).1
  by_cases hn : (Record.posts k before).length < (t.leases k).length
  · obtain ⟨a, between, b, q, l, epochOf, w, ht', ha, -, hring, hslot, habout⟩ :=
      hkept.delivers k _ hn
    obtain ⟨rfl, rfl, rfl⟩ := Record.nth_post_unique (ht ▸ ht') ha.symm
    have hsplit : Record.about p.slot (between ++ .leased k l (p.outcome epochOf w) :: b) =
        .reduced p.slot epochOf w ::
          .leased k l (p.outcome epochOf w) :: Record.about p.slot b := by
      rw [Record.about_append, habout]
      simp [Record.about, Event.slot, hslot]
    rw [hsplit]
    refine .leased epochOf w (hbrings ?_) l hring hslot _
    exact List.mem_append_left _ (hmem (habout ▸ List.mem_singleton_self _))
  · obtain ⟨a, b, ht', ha, hholds⟩ := hkept.awaits k _ p (Nat.le_of_not_lt hn) hget
    obtain ⟨rfl, -, rfl⟩ := Record.nth_post_unique (ht ▸ ht') ha.symm
    have htask : s.engine.task S.ring p.slot = r.task p.slot := Engine.task_eq hkept.there
    generalize habout : Record.about p.slot after = u at hholds ⊢
    cases hholds with
    | posted _ task => exact .waits (htask.trans task)
    | reduced epochOf w _ task =>
      exact .holds epochOf w (hbrings (hmem (habout ▸ List.mem_singleton_self _)))
        (htask.trans task)

/-- Whatever its consumer calls for, an execution keeps the law of epochs. -/
lemma epochLaw (h : s.Recalls S k t held) (hS : S.Sifts T o verdict) :
    s.EpochLaw T o verdict S.ring k t := by
  obtain ⟨r, claimed, leases, others, -, hkept⟩ := h.kept
  have hleases := hkept.leasedFrames_eq k
  refine ⟨?_, ?_, fun e => ?_, fun held hflight hnone hfree => ⟨?_, ?_⟩,
    fun before p after ht => ⟨?_, ?_⟩⟩
  · have hsorted : ((t.postedFrames k).map (·.1)).Pairwise (· ≤ ·) := by
      rw [Record.postedFrames, List.map_map]
      exact h.laps.sorted
    rw [hleases, List.map_take]
    exact hsorted.sublist (List.take_sublist ..)
  · rw [hleases]
    exact List.take_prefix ..
  · rw [← hS.order, ← hS.count]
    exact h.laps.framesIn_prefix e
  · have hle := h.count_le (Call.posts_of_steal hnone) hfree
    rw [h.id, h.laps.framesIn_last, ← hS.order, ← hS.count]
    exact List.take_of_length_le (by simpa [Order.items_eq_map] using hle)
  · have hflights := hkept.flights k
    rw [show (s.traffic k S.ring claimed leases).inboxes k = s.inbox by simp [traffic], hflight,
      eq_comm, List.map_eq_nil_iff, List.drop_eq_nil_iff] at hflights
    rw [hleases]
    exact List.take_of_length_le (by simpa [Record.postedFrames] using hflights)
  · obtain ⟨j, -, hasks⟩ := h.laps.asks p (by simp [ht])
    have hframe : p.frame = S.frame j := congrArg Task.frame hasks
    rw [← hS.directory, hframe]
    exact congrArg Task.rowCount hasks
  · rw [h.id]
    exact h.fate hS ht

end Scan.Recalls

/-! ## Executions from the start -/

namespace Scan

variable {s : Scan ω} {hub : Nat} {held : List Lease} {C L H : List Place} {F : List Lease}

/-- The course of an execution of which only the tasks matter. -/
abbrev bareCourse (s : Scan ω) (source : Source ω) (hub : Nat) (filter : Filter ω)
    (frames : List Frame) : Course ω Unit :=
  s.course source hub filter frames (fun _ => ()) (fun _ => ()) fun _ _ _ => True

/-- An execution that has published nothing yet has an empty history. -/
lemma recalls_launched (hs : s.Sound held C L F H) (hh : s.HasHub hub) (source : Source ω)
    (filter : Filter ω) (frames : List Frame) :
    (s.launched source hub filter frames).Recalls (s.bareCourse source hub filter frames)
      s.inbox.id [] held := by
  obtain ⟨hubs, hdrawn, -⟩ := engine_drawShard s hub
  have hrings : (s.launched source hub filter frames).engine.rings = s.engine.rings := by
    simp only [launched, Engine.nextEpoch, hdrawn]
  have hsize : (s.launched source hub filter frames).engine.epochs.size = s.engine.epochs.size := by
    simp [launched, Engine.nextEpoch, hdrawn]
  obtain ⟨r, hr⟩ := Engine.exists_ring (hh (s.dispatcher.shard.getD (s.engine.drawShard hub).1))
  have haccounts := hs.engine.books.rings (s.nextRing hub) r hr
  -- the leases of others are there for the slots that they hold
  let others : List Lease := (slotsOn (s.nextRing hub) L).map fun slot => ⟨s.nextRing hub, slot, 0⟩
  let leases : List Lease := held.filter (·.ring == s.nextRing hub) ++ others
  have hleases : slotsOn (s.nextRing hub) (held.map Lease.place ++ L) = leases.map (·.slot) := by
    simp [leases, others, slotsOn, List.filter_map, Function.comp_def, Lease.place]
  rw [hleases] at haccounts
  refine ⟨⟨rfl, rfl, rfl, rfl, rfl, rfl, rfl⟩, rfl, hsize ▸ hs.employed.id_lt,
    ⟨r, _, leases, others, .refl _, .begin ?_ ⟨_, haccounts⟩ (fun l hl => ?_) fun j => ?_⟩,
    .start _, .nil⟩
  · exact hrings ▸ hr
  · rcases List.mem_append.1 hl with hl | hl
    · exact beq_iff_eq.1 (List.mem_filter.1 hl).2
    · obtain ⟨slot, -, rfl⟩ := List.mem_map.1 hl
      rfl
  · by_cases hj : j = s.inbox.id
    · subst hj
      simp [traffic, launched, Inbox.subscribe, course]
    · simp [traffic, hj, course]

end Scan

namespace Workshop

open Scan

variable {W : Workshop ω} {H : List Place} {site : Site} {s s' : Scan ω}

/-- In every workshop that can be reached, an execution that a dispatcher starts keeps the law of
epochs, whatever calls its consumer makes in whatever order, however often it goes back to the first
frame and wherever it is then.  In its hands at the start are leases of the workshop. -/
theorem epochs_keep_law (h : W.Reached H) (hs : W.scan? site = some s) {source : Source ω}
    {hub : Nat} {filter : Filter ω} {o : Order} {verdict : RowView → Verdict}
    (hhub : hub < W.engine.hubs.size) (hred : s.dispatcher.reducer = .filtering o)
    (hverdict : ∀ v w, (filter.judge v w).1 = verdict v)
    (hok : s.dispatch source hub filter = (.ok (), s')) {held : List Lease} {L : List Place}
    (hheld : W.leased.Perm (held.map Lease.place ++ L)) (calls : List Call) :
    ∃ frames w u, source.supply s.replace.2.engine.world = (.ok frames, w) ∧
      u = Scan.launched { s.replace.2 with engine := s.replace.2.engine.withWorld w } source hub
        filter frames ∧
      s' = u.publish ∧
      (s'.run held calls).1.EpochLaw (source.tour frames) o verdict (s.replace.2.nextRing hub)
        s.inbox.id (u.posted ++ s'.history held calls) := by
  obtain ⟨frames, w, hfit, hreplace, hsupply⟩ := dispatch_ok hok
  have hlaunch := dispatch_eq_launch hub filter hreplace hsupply
  rw [hok, launch_eq hfit] at hlaunch
  obtain ⟨-, rfl⟩ := Prod.mk.inj hlaunch
  refine ⟨frames, w, _, hsupply, rfl, rfl, ?_⟩
  obtain ⟨F, hsound⟩ := h.sound
  -- the scan whose last execution is settled and whose source has been asked
  have m : Moves (fun _ : ω => ()) (s, held)
      ({ s.replace.2 with engine := s.replace.2.engine.withWorld w }, held) :=
    moves_replace.tail (.alike ⟨rfl, rfl, rfl, rfl, rfl⟩)
  obtain ⟨F', hsettled, -⟩ := m.sound (hsound.scan hs hheld)
  have hrecalls := (recalls_launched hsettled ((hsound.hasHub hs hhub).of_sameSize m.sameSite.size)
    source filter frames).publish.calls calls
  rw [← m.sameSite.inbox, ← nextRing_withWorld s.replace.2 hub w]
  exact hrecalls.epochLaw ⟨rfl, m.sameSite.reducer.trans hred, hverdict, rfl, rfl, rfl, rfl⟩

/-- A dispatcher whose consumer holds a lease from the last execution. -/
def holding : List (Deed Unit) :=
  [.addDispatcher "d" (.filtering .ascending), .addInbox "k",
    .dispatch ⟨.own "d", .own "k"⟩ (plainSource [1]) 0 keepAll, .reduce 0, .nextLease "k" "l"]

lemma reached_holding : (holding.foldl after small).Reached [] := by
  have h₁ := reached_fitted.deed (permits_fitted (plainSource [1]) keepAll)
  have h₂ := h₁.deed (a := .reduce 0) trivial
  exact h₂.deed (a := .nextLease "k" "l")
    ⟨freeInbox_of_sites (s := .ofPlan "p") (by decide +kernel) nofun, by decide +kernel⟩

/-- Calls of a consumer that goes back while the first frame is in flight, when the ring is full,
and gets on again once it has given back the old lease. -/
def goingBack : List Call :=
  [.rewind, .work, .next, .done 0, .steal, .next, .done 0, .steal, .next, .done 0, .steal]

/-- The consumer gets the frame that went out of date, without rows, and then all frames, the
second one with the failure of its filter. -/
theorem epochs_keep_law_holding : ∃ s s' H, (holding.foldl after small).Reached H ∧
    (holding.foldl after small).scan? ⟨.own "d", .own "k"⟩ = some s ∧
    s.dispatcher.reducer = .filtering .ascending ∧
    s.dispatch (plainSource [1, 1]) 0 refusing.filter = (.ok (), s') ∧
    (holding.foldl after small).leased = [(0, 0)] ∧
    (∃ frames w u, (plainSource [1, 1]).supply s.replace.2.engine.world = (.ok frames, w) ∧
      u = Scan.launched { s.replace.2 with engine := s.replace.2.engine.withWorld w }
        (plainSource [1, 1]) 0 refusing.filter frames ∧
      s' = u.publish ∧
      (s'.run [⟨0, 0, 0⟩] goingBack).1.EpochLaw ((plainSource [1, 1]).tour frames) .ascending
        refusal (s.replace.2.nextRing 0) s.inbox.id
        (u.posted ++ s'.history [⟨0, 0, 0⟩] goingBack)) ∧
    ((s'.history [⟨0, 0, 0⟩] goingBack).leases s.inbox.id).map
      (fun x => (x.2.epoch, x.2.frame, x.2.rows, x.2.error)) =
        [(2, 0, [], none), (3, 0, [0], none), (3, 1, [], some (.predicate 1 "refused"))] := by
  have h := reached_holding
  let start (s : Scan Unit) := s.dispatch (plainSource [1, 1]) 0 refusing.filter
  have hstart : ((holding.foldl after small).scan? ⟨.own "d", .own "k"⟩).map
      (fun s => (start s).1.isOk) = some true := by decide +kernel
  have hleases : ((holding.foldl after small).scan? ⟨.own "d", .own "k"⟩).map (fun s =>
      (((start s).2.history [⟨0, 0, 0⟩] goingBack).leases s.inbox.id).map
        fun x => (x.2.epoch, x.2.frame, x.2.rows, x.2.error)) =
      some [(2, 0, [], none), (3, 0, [0], none), (3, 1, [], some (.predicate 1 "refused"))] := by
    decide +kernel
  have hreducer : ((holding.foldl after small).scan? ⟨.own "d", .own "k"⟩).map
      (·.dispatcher.reducer) = some (.filtering .ascending) := by
    with_unfolding_all rfl
  have hleased : (holding.foldl after small).leased = [(0, 0)] := by decide +kernel
  obtain ⟨s, hs, hdone⟩ := Option.map_eq_some_iff.1 hstart
  rw [hs, Option.map_some, Option.some.injEq] at hleases hreducer
  rcases hok : start s with ⟨stop | ⟨⟩, s'⟩ <;> rw [hok] at hdone hleases
  · cases hdone
  · have hverdict : ∀ v w, (refusing.filter.judge v w).1 = refusal v := fun _ _ => rfl
    have hheld : (holding.foldl after small).leased.Perm
        (([⟨0, 0, 0⟩] : List Lease).map Lease.place ++ []) := by
      rw [hleased]
      exact .refl _
    have hlaw := epochs_keep_law h hs (by decide +kernel) hreducer hverdict hok hheld goingBack
    exact ⟨s, s', [], h, hs, hreducer, hok, hleased, hlaw, hleases⟩

end Workshop

end TableScan
