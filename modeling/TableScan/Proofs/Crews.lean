import TableScan.Proofs.Counts
import TableScan.Proofs.Independence
import TableScan.Workers

/-!
# Crews

What a cursor comes to beside a crew of workers.  All that a crew does is to reduce
(`Crew.work_keeps`), and a cursor that keeps track of the rows ahead of it keeps track of them
through any reduction (`Cursor.Tracks.reduceOldest`).  Main statement: whatever the rota, the cursor
visits these rows, and has then leased and given back one slot for every frame
(`Cursor.Tracks.foldBeside`).
-/

namespace TableScan

variable {ω σ β : Type}

namespace Cursor

variable {S : Course ω σ} {T : Tour} {g : Filter σ} {x₀ x : σ} {c c' : Cursor} {s s' : Scan ω}
  {f : β → RowView → β} {b : β} {rota : Rota} {crew : Crew} {v : RowView} {vs : List RowView}

lemma foldBeside_of_true (h : c.next s = (.ok true, c', s')) :
    c.foldBeside f b rota crew s = c'.foldBeside f (f b c'.view) (fun n => rota (n + 1))
      (crew.workBeside s' (rota 0)).1 (crew.workBeside s' (rota 0)).2 := by
  rw [foldBeside]
  split
  · rename_i hn
    obtain ⟨-, hn⟩ := Prod.mk.inj (hn.symm.trans h)
    obtain ⟨rfl, rfl⟩ := Prod.mk.inj hn
    rfl
  · rename_i hn
    cases hn.symm.trans h
  · rename_i hn
    cases hn.symm.trans h

lemma foldBeside_of_false (h : c.next s = (.ok false, c', s')) :
    c.foldBeside f b rota crew s = (.ok b, c', (crew.workBeside s' (rota 0)).2) := by
  rw [foldBeside]
  split
  · rename_i hn
    cases hn.symm.trans h
  · rename_i hn
    obtain ⟨-, hn⟩ := Prod.mk.inj (hn.symm.trans h)
    obtain ⟨rfl, rfl⟩ := Prod.mk.inj hn
    rfl
  · rename_i hn
    cases hn.symm.trans h

lemma Reads.leases_of_exhausted (h : c.Reads S s) (hc : c.phase = .exhausted) : c.leases = [] := by
  cases h.stands with
  | holding phase => rcases phase with hp | hp <;> rw [hp] at hc <;> cases hc
  | past _ lease | exhausted _ lease => rw [leases, lease, Option.toList_none]
  | closed phase => rw [phase] at hc; cases hc

/-- A cursor with known rows ahead, whose scan counts and tallies all leases. -/
structure Tracks (c : Cursor) (S : Course ω σ) (T : Tour) (g : Filter σ) (x : σ)
    (vs : List RowView) (s : Scan ω) : Prop where
  reads : c.Reads S s
  sound : ∃ C L F H, s.Sound c.leases C L F H
  counted : c.Counted s
  tallied : s.engine.Tallied c.leases
  ahead : c.ahead T g x = { rows := vs }

namespace Tracks

/-- A cursor that moves on keeps track. -/
lemma next (hS : S.Along T g x₀ x) (h : c.Tracks S T g x vs s) (hc : c.IsOpen) :
    (c.next s).2.1.Tracks S T g x vs.tail (c.next s).2.2 ∧
      answer (c.next s) = ((.ok vs.head?.isSome), vs.head?) ∧
      (c.next s).2.2.inbox.id = s.inbox.id := by
  obtain ⟨C, L, F, H, hs⟩ := h.sound
  rw [← List.append_nil c.leases] at hs
  have hopen : c.phase ≠ .closed := by
    rcases hc with hc | hc <;> rw [hc] <;> exact Phase.noConfusion
  have m : Scan.Moves (fun _ : ω => ()) (s, c.leases ++ []) _ :=
    moves_next (h.reads.runs hopen).moored.home
  obtain ⟨F', hs', -⟩ := Scan.Moves.sound m hs
  have ht := Scan.Moves.tallied (N := []) m h.counted.known
    (by simpa only [List.append_nil] using h.tallied)
  have hahead := h.reads.next_ahead hS hs
  rw [h.ahead] at hahead
  simp only [List.append_nil] at hs' ht
  obtain ⟨hanswer, hrest⟩ := Prod.mk.inj hahead
  refine ⟨⟨h.reads.next hS.lawful hs, ⟨_, _, _, _, hs'⟩, h.counted.next, ht, ?_⟩, ?_,
    (Scan.Moves.sameSite m).inbox⟩
  · rw [hrest]
    cases vs <;> rfl
  · rw [hanswer]
    cases vs <;> rfl

/-- A reduction, of whatever ring, leaves a cursor on its track. -/
lemma reduceOldest (hS : S.Lawful) (h : c.Tracks S T g x vs s) (ring : Nat) :
    c.Tracks S T g x vs { s with engine := (s.engine.reduceOldest ring).2 } := by
  obtain ⟨C, L, F, H, hs⟩ := h.sound
  have hsize := Engine.sameSize_reduceOldest s.engine ring
  have hsteps : Engine.Steps s.dispatcher.id (fun _ => True) S.shown s.engine
      (s.engine.reduceOldest ring).2 := Engine.steps_reduceOldest hs.engine.books ring
  refine ⟨h.reads.steps hS (fun _ _ => trivial) (fun _ _ => trivial) hsteps, ⟨C, L, F, H, ?_⟩, ?_,
    ?_, h.ahead⟩
  · exact ⟨hs.engine.reduceOldest ring, hs.fed' hsize, hs.employed' hsize⟩
  · exact (Scan.Counts.steady c.position).reduceOldest h.counted ring
  · exact h.tallied.congr (Engine.tallies_reduceOldest ..)

/-- So does a crew at work. -/
lemma workBeside (hS : S.Lawful) (h : c.Tracks S T g x vs s) (crew : Crew) (numbers : List Nat) :
    c.Tracks S T g x vs (crew.workBeside s numbers).2 :=
  Crew.work_keeps (P := fun e => c.Tracks S T g x vs { s with engine := e })
    (fun _ ring h => h.reduceOldest hS ring) crew numbers h

/-- A cursor that keeps track visits the rows that are ahead of it, whatever a crew does beside it.
It has then leased and given back one slot for every frame, and it can be closed. -/
lemma foldBeside (hS : S.Along T g x₀ x) (h : c.Tracks S T g x vs s) (hc : c.IsOpen)
    (f : β → RowView → β) (b : β) (rota : Rota) (crew : Crew) :
    ∃ c' s', c.foldBeside f b rota crew s = (.ok (vs.foldl f b), c', s') ∧
      s'.engine.tally s.inbox.id = ⟨S.count, S.count⟩ ∧ (c'.close s').1 = .ok () := by
  induction vs generalizing c s b rota crew with
  | cons v vs ih =>
    obtain ⟨h', hanswer, hid⟩ := h.next hS hc
    rcases hn : c.next s with ⟨y, c', s'⟩
    rw [hn] at h' hanswer hid
    obtain ⟨rfl, hview⟩ := Prod.mk.inj hanswer
    obtain rfl : c'.view = v := Option.some.inj hview
    have hwork := h'.workBeside hS.lawful crew (rota 0)
    have hinbox : (crew.workBeside s' (rota 0)).2.inbox.id = s.inbox.id := hid
    rw [foldBeside_of_true hn, List.foldl_cons, ← hinbox]
    exact ih hwork (.inr (phase_of_next hn)) ..
  | nil =>
    obtain ⟨h', hanswer, hid⟩ := h.next hS hc
    rcases hn : c.next s with ⟨y, c', s'⟩
    rw [hn] at h' hanswer hid
    obtain rfl : y = .ok false := congrArg Prod.fst hanswer
    obtain ⟨hphase, hpast⟩ := ended_of_next hc hn
    have hwork := h'.workBeside hS.lawful crew (rota 0)
    rw [foldBeside_of_false hn]
    generalize hs' : (crew.workBeside s' (rota 0)).2 = s'' at hwork ⊢
    have hid : s''.inbox.id = s.inbox.id := hs' ▸ hid
    refine ⟨c', s'', rfl, ?_, ?_⟩
    · have hrun := hwork.reads.runs (by rw [hphase]; exact Phase.noConfusion)
      have hcount := hwork.counted.claimed_eq (hwork.reads.count.trans hrun.count.symm) hpast
      have hclaimed : (s''.engine.tally s.inbox.id).claimed = S.count := by
        rw [← hid, ← hwork.reads.count]
        exact hcount
      -- an exhausted cursor holds nothing, so that all that was leased has come back
      have hreleased := hwork.tallied.claimed s.inbox.id
      rw [hwork.reads.leases_of_exhausted hphase, hclaimed] at hreleased
      exact congrArg₂ Tally.mk hclaimed hreleased.symm
    · obtain ⟨C, L, F, H, hs⟩ := hwork.sound
      rw [← List.append_nil c'.leases] at hs
      exact (hwork.reads.close hs).1

end Tracks

end Cursor

/-! ## New engines -/

namespace Engine

variable {e : Engine ω}

/-- There is nothing to reduce in a ring without pending slots. -/
lemma reduceOldest_of_idle {i : Nat} (h : e.pendingIn (some i) = []) : (e.reduceOldest i).2 = e := by
  unfold reduceOldest
  cases hr : e.rings[i]? with
  | none => rfl
  | some r =>
    rw [pendingIn_some hr] at h
    have hdue : r.due = [] := by rw [Ring.due, h, List.dropWhile_nil]
    simp only [hdue]
    refine congrArg (fun rings => { e with rings }) (Array.ext_getElem? fun j => ?_)
    rw [Array.getElem?_modify]
    split
    · subst_vars
      rw [hr, Option.map_some, ← h]
    · rfl

/-- A crew that finds nothing pending leaves the engine alone. -/
lemma work_of_idle (h : ∀ i, e.pendingIn (some i) = []) (crew : Crew) (numbers : List Nat) :
    (crew.work e numbers).2 = e :=
  Crew.work_keeps (P := (· = e)) (fun _ i he => by rw [he]; exact reduceOldest_of_idle (h i)) crew
    numbers rfl

/-- Nothing is pending in a new engine. -/
lemma pendingIn_addHub? {settings : Settings} {world : ω} {hub : Nat}
    (h : ({ world } : Engine ω).addHub? settings = .ok (hub, e)) (i : Nat) :
    e.pendingIn (some i) = [] := by
  obtain ⟨m, rfl⟩ := addHub?_eq h
  simp only [pendingIn, Option.bind_some, Array.empty_append, Array.getElem?_map]
  cases (Array.range settings.shards)[i]? <;> rfl

end Engine

namespace Plan

variable {p : Plan ω} {e : Engine ω} {hub : Nat} {frames : List Frame} {w : ω} {c : Cursor}
  {s s' : Scan ω} {C L H : List Place} {F : List Lease} {verdict : RowView → Verdict}
  {vs : List RowView}

lemma eq_of_ofScan (h : p.ofScan s = p.ofScan s') (he : s.engine = s'.engine) : s = s' :=
  congrArg₂ Plan.scan h he

/-- A cursor on a plan whose inbox has leased nothing counts from its opening on. -/
lemma counted_openCursor (hf : p.inbox.inFlight = [])
    (hw : p.source.supply e.world = (.ok frames, w)) (hid : p.inbox.id < e.tallies.size)
    (hnone : (e.tally p.inbox.id).claimed = 0)
    (ho : p.openCursor hub e = (.ok c, p.ofScan s, s.engine)) : c.Counted s := by
  rw [openCursor_eq, dispatch_eq hf hw] at ho
  rcases hl : (p.scan (e.withWorld w)).launch p.source hub p.filter frames with ⟨_ | ⟨⟩, u⟩ <;>
    rw [hl] at ho
  · cases ho
  · have hcounts := Scan.counts_launch (s := p.scan (e.withWorld w)) hid hnone hl
    obtain ⟨hc, h⟩ := Prod.mk.inj ho
    obtain ⟨hp, he⟩ := Prod.mk.inj h
    obtain rfl := eq_of_ofScan hp he
    exact Cursor.Counted.openOn hcounts (Prod.ext hc rfl)

/-- A cursor on a plan of an engine of which nothing is leased keeps track of the rows that the
filter keeps, as far as it has a verdict on all of them. -/
lemma openCursor_tracks (hverdict : ∀ v w, (p.filter.judge v w).1 = verdict v)
    (hred : p.dispatcher.reducer = .filtering p.source.order)
    (hs : (p.scan e).Sound [] C L F H) (hf : p.inbox.inFlight = []) (hh : (p.scan e).HasHub hub)
    (ht : e.Tallied []) (hnone : (e.tally p.inbox.id).claimed = 0)
    (hsat : ¬ e.Saturated (p.nextRing hub e))
    (hw : p.source.supply e.world = (.ok frames, w)) (hfit : p.source.Fits frames)
    (hpass : (p.tour frames).pass verdict = { rows := vs }) :
    ∃ c s, p.openCursor hub e = (.ok c, p.ofScan s, s.engine) ∧ c.IsOpen ∧
      s.inbox.id = p.inbox.id ∧
      c.Tracks (p.exactCourse hub e frames (fun _ => ()) (.ofVerdict verdict) ()) (p.tour frames)
        (.ofVerdict verdict) () vs s := by
  have hS : (p.exactCourse hub e frames (fun _ => ()) (.ofVerdict verdict) ()).Along
      (p.tour frames) (.ofVerdict verdict) () () :=
    along_exactCourse hred (Filter.shows_ofVerdict hverdict) fun _ => rfl
  have hahead : (p.tour frames).ahead (.ofVerdict verdict) () 0 = { rows := vs } :=
    ((p.tour frames).ahead_ofVerdict verdict).trans hpass
  rcases openCursor_reads hS.lawful hf hw hfit hh hs (fun _ _ _ _ _ => Workshop.leaves_unit ..)
    rfl with ⟨-, hfull, -⟩ | ⟨-, y, hy, ho⟩
  · exact absurd hfull hsat
  · have hitinerary : y.itinerary (p.tour frames) (.ofVerdict verdict) () = { rows := vs } :=
      (hS.ahead_eq hy).symm.trans hahead
    have hout : y.outcome = .ok () := by
      rw [← Find.outcome_itinerary (p.tour frames) (.ofVerdict verdict) (), hitinerary]
      cases vs <;> rfl
    rcases ho with ⟨c, s, -, ho, hpoised, hreads⟩ | ⟨stop, hstop, -⟩
    · obtain ⟨r, s', ho', m, -, -⟩ := moves_openCursor (π := fun _ : ω => ()) hs hf hh
        (fun _ => rfl) (Workshop.leaves_unit ..)
      obtain ⟨rfl, h⟩ := Prod.mk.inj (ho.symm.trans ho')
      obtain rfl := eq_of_ofScan (Prod.mk.inj h).1 (Prod.mk.inj h).2
      rw [List.append_nil] at m
      obtain ⟨F', hs', -⟩ := Scan.Moves.sound m hs
      have ht' := Scan.Moves.tallied (N := []) m hs.fed.id_lt ht
      rw [List.append_nil] at ht'
      have hphase := hpoised.fresh hout
      refine ⟨c, s, ho, .inl hphase, (Scan.Moves.sameSite m).inbox, hreads, ⟨_, _, _, _, hs'⟩,
        counted_openCursor hf hw hs.fed.id_lt hnone ho, ht', ?_⟩
      exact (hpoised.ahead_eq hS hreads hout).trans hitinerary
    · rw [hout] at hstop
      cases hstop

/-- A new plan of a new engine opens a cursor that keeps track of the rows that the filter keeps, as
far as it has a verdict on all of them. -/
lemma exists_openCursor_tracks {settings : Settings} {world w : ω} {source : Source ω}
    {filter : Filter ω} (hlaid : settings.layOut = .ok ())
    (hverdict : ∀ v w, (filter.judge v w).1 = verdict v)
    (hw : source.supply world = (.ok frames, w)) (hfit : source.Fits frames)
    (hpass : (source.tour frames).pass verdict = { rows := vs }) :
    ∃ (e : Engine ω) (S : Course ω Unit) (c : Cursor) (s : Scan ω),
      ({ world } : Engine ω).addHub? settings = .ok (0, e) ∧
      (make source filter e).1.openCursor 0 (make source filter e).2 =
        (.ok c, (make source filter e).1.ofScan s, s.engine) ∧
      S.Along (source.tour frames) (.ofVerdict verdict) () () ∧ S.count = frames.length ∧
      c.IsOpen ∧ c.Tracks S (source.tour frames) (.ofVerdict verdict) () vs s := by
  obtain ⟨e, hadd, hworld, hhubs, hfree⟩ := Engine.exists_addHub hlaid world
  let V : Workshop ω := Workshop.after { engine := e } (.addPlan "" source filter)
  have hreached : V.Reached _ := (Workshop.Reached.make (Workshop.make?_eq hlaid hadd)).deed
    (a := .addPlan "" source filter) fun _ _ hc => nomatch hc
  obtain ⟨F, h⟩ := hreached.sound
  have hplan : V.plans.find? "" = some (make source filter e).1 := Register.find?_bind_self
  obtain ⟨hs, -, hidle⟩ := h.vacant (fun _ _ hc => nomatch hc) hplan
  have htallies : e.tallies = #[] := Engine.tallies_addHub? hadd
  have hnone : ((make source filter e).2.tally (make source filter e).1.inbox.id).claimed = 0 := by
    have hempty : e.addDispatcher.2.tallies = #[] := htallies
    have htally : (make source filter e).2.tally = e.addDispatcher.2.tally :=
      Engine.tally_addInbox e.addDispatcher.2
    rw [htally, Engine.tally, hempty]
    rfl
  have hsupply : (make source filter e).1.source.supply (make source filter e).2.world =
      (.ok frames, w) := by
    rw [← hw, ← hworld]
    rfl
  have hhub : ((make source filter e).1.scan (make source filter e).2).HasHub 0 :=
    h.hasHub hs (Nat.lt_of_lt_of_eq Nat.one_pos hhubs.symm)
  obtain ⟨c, s, ho, hc, -, htracks⟩ := openCursor_tracks (p := (make source filter e).1)
    (e := (make source filter e).2) hverdict rfl (h.scan hs (M := []) (.refl _)) hidle hhub
    hreached.balanced.tallied hnone (hfree _) hsupply hfit hpass
  refine ⟨e, _, c, s, hadd, ho, ?_, ?_, hc, htracks⟩
  · exact along_exactCourse rfl (Filter.shows_ofVerdict hverdict) fun _ => rfl
  · show (source.directory frames).frames.size = _
    rw [hfit.directory, List.size_toArray]

end Plan

end TableScan
