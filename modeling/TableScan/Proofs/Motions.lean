import TableScan.Proofs.Epochs
import TableScan.Proofs.Upkeep

/-!
# Motions

What deeds are made of, whatever is done in a workshop: nobody has to be permitted anything here,
so that inboxes may be handed to dispatchers of other rings.  Main statement: a deed is a sequence
of motions that leaves every dispatcher its seat, or employs a dispatcher, draws a shard or starts
an execution (`Workshop.comesTo_after`).
-/

namespace TableScan

variable {ω : Type} {R : Nat → Prop}

/-- What a dispatcher keeps during an execution. -/
structure Seat where
  id : Nat
  shard : Option Nat
  hub : Option Nat
  ring : Option Nat

/-- The seat of a dispatcher. -/
def Dispatcher.seat (d : Dispatcher ω) : Seat := ⟨d.id, d.shard, d.hub, d.ring⟩

/-- The ring of a dispatcher, if it has one, is in `R`. -/
def Dispatcher.PublishesIn (R : Nat → Prop) (d : Dispatcher ω) : Prop :=
  ∀ i, d.ring = some i → R i

lemma Dispatcher.PublishesIn.congr {d d' : Dispatcher ω} (h : d.PublishesIn R)
    (hseat : d'.seat = d.seat) : d'.PublishesIn R :=
  fun i hi => h i ((congrArg Seat.ring hseat).symm.trans hi)

/-! ## Motions of a scan -/

namespace Scan

/-- A step of a scan.  Slots are claimed and published in rings of `R`. -/
inductive Motion (R : Nat → Prop) : Scan ω → Scan ω → Prop
  | publish {s s' : Scan ω} (home : s.dispatcher.PublishesIn R)
      (done : s.publishOne? = some s') : Motion R s s'
  | reduce {s : Scan ω} (i : Nat) : Motion R s { s with engine := (s.engine.reduceOldest i).2 }
  | lease {s s' : Scan ω} {l : Lease} (done : s.next? = .ok (some (l, s'))) : Motion R s s'
  | giveBack {s : Scan ω} (l : Lease) : Motion R s (s.done l)
  /-- Some bookkeeping, or something in the world. -/
  | quiet {s : Scan ω} {e : Engine ω} (rings : e.rings = s.engine.rings)
      (hubs : e.hubs = s.engine.hubs) (epochs : e.epochs = s.engine.epochs)
      (tallies : e.tallies = s.engine.tallies) : Motion R s { s with engine := e }
  | pause {s : Scan ω} (since : Option Nat) : Motion R s (s.starvedFrom since)
  | halt {s : Scan ω} : Motion R s s.halted
  | epoch {s : Scan ω} : Motion R s s.nextEpoch
  | restart {s : Scan ω} : Motion R s
      { s with dispatcher := { s.dispatcher with position := 0, starvedAt := none } }
  | clear {s : Scan ω} : Motion R s s.clear

/-- Any number of steps of a scan. -/
abbrev Motions (R : Nat → Prop) : Scan ω → Scan ω → Prop := Relation.ReflTransGen (Motion R)

/-- A scan that publishes in rings of `R` only, be it because no frame is left. -/
def Within (R : Nat → Prop) (s : Scan ω) : Prop :=
  s.dispatcher.PublishesIn R ∨ s.dispatcher.frameCount ≤ s.dispatcher.position

variable {s s' : Scan ω} {l : Lease}

lemma Motion.seat (m : s.Motion R s') : s'.dispatcher.seat = s.dispatcher.seat := by
  cases m with
  | publish home done =>
    obtain ⟨ring, work, frame, slot, e, -, -, -, -, rfl⟩ := publishOne?_cases done
    rfl
  | lease done =>
    obtain ⟨ring, slot, rest, r, -, -, -, -, -, rfl⟩ := next?_cases done
    rfl
  | _ => rfl

lemma Motions.seat (m : s.Motions R s') : s'.dispatcher.seat = s.dispatcher.seat := by
  induction m with
  | refl => rfl
  | tail _ m ih => exact m.seat.trans ih

/-- What all motions keep is kept by an execution. -/
lemma stable_of_motion {P : Scan ω → Prop}
    (h : ∀ {s s'}, P s → Motion (fun _ => True) s s' → P s') : Stable P where
  publishOne? hs ht := h hs (.publish (fun _ _ => trivial) ht)
  reduceOldest hs i := h hs (.reduce i)
  next? hs ht := h hs (.lease ht)
  done hs l := h hs (.giveBack l)
  quiet hs hr hh hp ht := h hs (.quiet hr hh hp ht)
  starvedFrom hs since := h hs (.pause since)
  halted hs := h hs .halt

/-- An execution is made of motions. -/
lemma stable_motions (s : Scan ω) : Stable fun t => t.Within R ∧ s.Motions R t where
  publishOne? := by
    rintro t t' ⟨hw, m⟩ ht
    obtain ⟨ring, work, frame, slot, e, -, -, hframe, -, rfl⟩ := publishOne?_cases ht
    have hlt := (Dispatcher.frameAt?_eq_some_iff.1 hframe).1
    rcases hw with home | hdone
    · exact ⟨.inl home, m.tail (.publish home ht)⟩
    · exact absurd hlt (Nat.not_lt.2 hdone)
  reduceOldest h i := ⟨h.1, h.2.tail (.reduce i)⟩
  next? := by
    rintro t t' l ⟨hw, m⟩ ht
    have m' := m.tail (.lease ht)
    obtain ⟨ring, slot, rest, r, -, -, -, -, -, rfl⟩ := next?_cases ht
    exact ⟨hw, m'⟩
  done h l := ⟨h.1, h.2.tail (.giveBack l)⟩
  quiet h hr hh hp ht := ⟨h.1, h.2.tail (.quiet hr hh hp ht)⟩
  starvedFrom h since := ⟨h.1, h.2.tail (.pause since)⟩
  halted h := ⟨.inr (Nat.le_refl _), h.2.tail .halt⟩

lemma motions_publish (h : s.dispatcher.PublishesIn R) : s.Motions R s.publish :=
  (s.stable_motions.publish ⟨.inl h, .refl⟩).2

lemma motions_steal (h : s.dispatcher.PublishesIn R) : s.Motions R s.steal.2 :=
  (s.stable_motions.steal ⟨.inl h, .refl⟩).2

lemma motions_gather (h : s.dispatcher.PublishesIn R) (n : Nat) : s.Motions R (s.gather n).2 :=
  (s.stable_motions.gather ⟨.inl h, .refl⟩ n).2

/-- Nothing is published while a scan is settled. -/
lemma motions_drain (s : Scan ω) : s.Motions R s.drain.2 :=
  .head .halt (s.halted.stable_motions.settle ⟨.inr (Nat.le_refl _), .refl⟩).2

lemma motions_replace (s : Scan ω) : s.Motions R s.replace.2 := by
  unfold replace
  split
  · exact .refl
  · have hnote : ∀ n, s.Motion R (s.note n) := fun n => .quiet rfl rfl rfl rfl
    exact .head (hnote _) (motions_drain _)

lemma motions_rewindFilter (s : Scan ω) : s.Motions R s.rewindFilter := by
  unfold rewindFilter
  split
  · exact .single (.quiet rfl rfl rfl rfl)
  · exact .refl

lemma motions_rewind (h : s.dispatcher.PublishesIn R) : s.Motions R s.rewind := by
  unfold rewind
  split
  · exact .head .epoch (.head .restart (motions_publish h))
  · exact .refl

/-- A dispatch settles what is in flight, and the frames of its source are opened. -/
def opensFrames (s : Scan ω) (source : Source ω) : Bool :=
  match s.replace with
  | (.ok (), t) => (source.supply t.engine.world).1.isOk
  | (.error _, _) => false

/-- A dispatch that stops before its frames are opened. -/
lemma motions_dispatch {source : Source ω} (h : s.opensFrames source = false) (hub : Nat)
    (filter : Filter ω) : s.Motions R (s.dispatch source hub filter).2 := by
  have m : s.Motions R s.replace.2 := s.motions_replace
  unfold opensFrames at h
  unfold dispatch
  rcases hr : s.replace with ⟨stop | u, t⟩ <;> rw [hr] at m h
  · exact m
  · rcases hs : source.supply t.engine.world with ⟨opened, w⟩
    simp only [hs] at h ⊢
    cases opened with
    | error stop => exact m.tail (.quiet rfl rfl rfl rfl)
    | ok frames => cases h

/-- A dispatch that gets its frames opened goes on with a launch. -/
lemma dispatch_opened {source : Source ω} (h : s.opensFrames source = true) (hub : Nat)
    (filter : Filter ω) :
    ∃ t frames, s.Motions R t ∧ s.dispatch source hub filter = t.launch source hub filter frames := by
  have m : s.Motions R s.replace.2 := s.motions_replace
  unfold opensFrames at h
  unfold dispatch
  rcases hr : s.replace with ⟨stop | u, t⟩ <;> rw [hr] at m h
  · cases h
  · rcases hs : source.supply t.engine.world with ⟨opened, w⟩
    simp only [hs] at h ⊢
    cases opened with
    | error stop => cases h
    | ok frames =>
      exact ⟨{ t with engine := t.engine.withWorld w }, frames, m.tail (.quiet rfl rfl rfl rfl), rfl⟩

end Scan

namespace Cursor

open Scan

variable {s : Scan ω}

lemma motions_giveBack (c : Cursor) (s : Scan ω) : s.Motions R (c.giveBack s) := by
  unfold giveBack
  split
  · exact .single (.giveBack _)
  · exact .refl

lemma motions_advance (h : s.dispatcher.PublishesIn R) (c : Cursor) :
    s.Motions R (c.advance s).2.2 :=
  (steady_advance s.stable_motions.toSteady ⟨.inl h, .refl⟩ c).2

lemma motions_next (h : s.dispatcher.PublishesIn R) (c : Cursor) : s.Motions R (c.next s).2.2 :=
  (steady_next s.stable_motions.toSteady ⟨.inl h, .refl⟩ c).2

lemma motions_rewind (h : s.dispatcher.PublishesIn R) (c : Cursor) :
    s.Motions R (c.rewind s).2.2 := by
  by_cases hphase : c.phase = .iterating ∨ c.phase = .exhausted
  · have m : s.Motions R (c.giveBack s).rewindFilter :=
      (motions_giveBack c s).trans (motions_rewindFilter _)
    have m' : s.Motions R (c.giveBack s).rewindFilter.rewind :=
      m.trans (Scan.motions_rewind (h.congr m.seat))
    rw [Reads.rewind_eq hphase]
    exact m'.trans (motions_advance (h.congr m'.seat) _)
  · rw [rewind_of_still hphase]

/-- Nothing is published while a cursor is closed. -/
lemma motions_close (c : Cursor) (s : Scan ω) : s.Motions R (c.close s).2.2 := by
  have m : s.Motions R (c.giveBack s).drain.2 := (motions_giveBack c s).trans (motions_drain _)
  unfold close
  split
  · exact .refl
  all_goals
    split <;> rename_i hr <;> rw [hr] at m
    · exact m
    · exact m.tail .clear

lemma motions_openOn (h : s.dispatcher.PublishesIn R) : s.Motions R (openOn s).2 := by
  have m := motions_advance h (start s.dispatcher)
  unfold openOn
  split <;> rename_i hr <;> rw [hr] at m
  · exact m
  · rename_i stop c t
    have m' : s.Motions R (c.close t).2.2 := m.trans (motions_close c t)
    split <;> rename_i hcl <;> rwa [hcl] at m'

end Cursor

/-! ## Motions of a workshop -/

namespace Engine

/-- Something done to an engine by hand.  Slots are claimed and published in rings of `R`. -/
inductive Handled (R : Nat → Prop) : Engine ω → Engine ω → Prop
  | addRing {e e' : Engine ω} {shard capacity n : Nat}
      (added : e.addRing? shard capacity = .ok (n, e')) : Handled R e e'
  | claim {e e' : Engine ω} {i k : Nat} (home : R i) (claimed : e.claim? i = some (k, e')) :
      Handled R e e'
  | publish {e : Engine ω} {i : Nat} (home : R i) (k : Nat) : Handled R e (e.publish i k)
  | putBack {e : Engine ω} (i k : Nat) : Handled R e (e.putBack i k)
  | edit {e : Engine ω} (i k : Nat) {f : Task ω → Task ω}
      (results : ∀ t, ∃ rows error, f t = { t with rows, error }) :
      Handled R e (e.modifyRing i (·.modifyTask k f))
  | reduce {e : Engine ω} (i : Nat) : Handled R e (e.reduceOldest i).2
  | lease {e : Engine ω} (inbox : Inbox) (i k : Nat) : Handled R e (inbox.leased e i k)
  | release {e : Engine ω} (l : Lease) : Handled R e (e.release l)
  | dropLease {e : Engine ω} (l : Lease) : Handled R e (e.dropLease l)
  /-- Some bookkeeping, or something in the world. -/
  | quiet {e e' : Engine ω} (rings : e'.rings = e.rings) (hubs : e'.hubs = e.hubs)
      (epochs : e'.epochs = e.epochs) : Handled R e e'

end Engine

namespace Workshop

/-- Something is done by hand, or a scan is taken out, makes some steps and is put back. -/
inductive Motion (R : Nat → Prop) : Workshop ω → Workshop ω → Prop
  | hand {W V : Workshop ω} (handled : W.engine.Handled R V.engine)
      (dispatchers : V.dispatcher? = W.dispatcher?) : Motion R W V
  | scan {W V : Workshop ω} {o : Owner} {s s' : Scan ω}
      (dispatcher : W.dispatcher? o = some s.dispatcher) (engine : W.engine = s.engine)
      (motions : s.Motions R s')
      (dispatchers : V.dispatcher? = Function.update W.dispatcher? o (some s'.dispatcher))
      (engine' : V.engine = s'.engine) : Motion R W V

/-- Any number of motions. -/
abbrev Motions (R : Nat → Prop) : Workshop ω → Workshop ω → Prop :=
  Relation.ReflTransGen (Motion R)

variable {W V : Workshop ω} {site : Site} {s s' : Scan ω} {name : String}

lemma motions_still (he : V.engine = W.engine) (hd : V.dispatcher? = W.dispatcher?) :
    W.Motions R V :=
  .single (.hand (.quiet (congrArg _ he) (congrArg _ he) (congrArg _ he)) hd)

lemma Moved.motions (h : W.Moved V site s') (hs : W.scan? site = some s) (m : s.Motions R s') :
    W.Motions R V :=
  .single (.scan (scan?_eq_some_iff.1 hs).1 (scan?_eq_some_iff.1 hs).2.2 m h.dispatchers h.engine)

end Workshop

namespace Session

open Workshop

variable {α β : Type} {W : Workshop ω} {site : Site} {name : String}

lemma motions_bind {x : Session ω α} {f : α → Session ω β} (hx : W.Motions R (x.on W).2)
    (hf : ∀ a V, x.on W = (.ok a, V) → V.Motions R ((f a).on V).2) :
    W.Motions R ((x >>= f).on W).2 := by
  rw [on_bind]
  split <;> rename_i hr <;> rw [hr] at hx
  · exact hx.trans (hf _ _ hr)
  · exact hx

lemma motions_onScan {f : Scan ω → Except Stop α × Scan ω}
    (hf : ∀ s, W.scan? site = some s → s.Motions R (f s).2) :
    W.Motions R ((onScan site f).on W).2 := by
  cases hs : W.scan? site with
  | none => rw [on_onScan_none hs]
  | some s =>
    rw [on_onScan hs]
    exact (moved_putScan hs _).motions hs (hf s hs)

lemma motions_onCursor {f : Cursor → Scan ω → Except Stop α × Cursor × Scan ω}
    (hf : ∀ held s, W.cursors.find? name = some held → W.scan? held.site = some s →
      s.Motions R (f held.cursor s).2.2) : W.Motions R ((onCursor name f).on W).2 := by
  cases hc : W.cursors.find? name with
  | none => simp only [onCursor, on_bind, on_named, hc]; exact .refl
  | some held =>
    cases hs : W.scan? held.site with
    | none => simp only [onCursor, on_bind, on_named, hc, on_scan, hs]; exact .refl
    | some s =>
      rw [on_onCursor hc hs]
      exact ((moved_putScan hs _).withCursors _).motions hs (hf held s hc hs)

lemma motions_dropCursor (W : Workshop ω) (name : String) :
    W.Motions R ((dropCursor name).on W).2 := by
  cases hc : W.cursors.find? name with
  | none => simp only [dropCursor, on_bind, on_named, hc]; exact .refl
  | some held =>
    simp only [dropCursor, on_bind, on_named, hc, on_modify]
    have herase : W.Motions R { W with cursors := W.cursors.erase name } := motions_still rfl rfl
    exact herase.trans (motions_onScan fun s _ => Cursor.motions_close held.cursor s)

lemma motions_bindCursor (W : Workshop ω) (name : String) (c : OpenCursor) :
    W.Motions R ((bindCursor name c).on W).2 := by
  have hbind : ∀ V : Workshop ω, V.Motions R { V with cursors := V.cursors.bind name c } :=
    fun V => motions_still rfl rfl
  simp only [bindCursor, on_bind, on_get]
  split
  · exact motions_bind (motions_dropCursor W name) fun _ V _ => hbind V
  · exact hbind W

end Session

/-! ## What a deed comes to -/

/-- The start of an execution. -/
structure Execution (ω : Type) where
  site : Site
  source : Source ω
  hub : Nat
  filter : Filter ω

namespace Workshop

open Session

variable {W V : Workshop ω} {a : Deed ω} {site : Site} {s : Scan ω} {name : String}

/-- The execution that a deed starts. -/
def execution? (W : Workshop ω) : Deed ω → Option (Execution ω)
  | .dispatch site source hub filter => some ⟨site, source, hub, filter⟩
  | .execute plan inbox hub =>
      (W.plans.find? plan).map fun p => ⟨⟨.plan plan, .own inbox⟩, p.source, hub, p.filter⟩
  | .openCursor plan _ hub =>
      (W.plans.find? plan).map fun p => ⟨.ofPlan plan, p.source, hub, p.filter⟩
  | _ => none

/-- The rings in which a deed may publish: at a site only that of the dispatcher there. -/
def Reaches (W : Workshop ω) (a : Deed ω) (i : Nat) : Prop :=
  ∀ site, W.site? a = some site → ∃ d, W.dispatcher? site.dispatcher = some d ∧ d.ring = some i

/-- What a deed comes to.  It draws a shard; it employs a dispatcher; it starts an execution, in
whose ring something more may happen; or it does none of that. -/
inductive ComesTo (W : Workshop ω) (a : Deed ω) (V : Workshop ω) : Prop
  | draw {hub : Nat} (deed : a = .drawShard hub) (engine : V.engine = (W.engine.drawShard hub).2)
      (dispatchers : V.dispatcher? = W.dispatcher?)
  | employ {o : Owner} {d : Dispatcher ω} (byHand : W.site? a = none)
      (undrawn : ∀ hub, a ≠ .drawShard hub)
      (new : d.seat = ⟨W.engine.epochs.size, none, none, none⟩) (idle : d.work = none)
      (rings : V.engine.rings = W.engine.rings) (hubs : V.engine.hubs = W.engine.hubs)
      (epochs : V.engine.epochs = W.engine.epochs.push 0)
      (dispatchers : V.dispatcher? = Function.update W.dispatcher? o (some d))
  | execute {x : Execution ω} {s s' : Scan ω} {U : Workshop ω} (deed : W.execution? a = some x)
      (site : W.site? a = some x.site) (scan : W.scan? x.site = some s)
      (dispatched : (s.dispatch x.source x.hub x.filter).2 = s') (moved : W.Moved U x.site s')
      (motions : U.Motions (s'.dispatcher.ring = some ·) V)
  | motions (undrawn : ∀ hub, a ≠ .drawShard hub)
      (idle : ∀ x, W.execution? a = some x → W.scan? x.site = none)
      (motions : W.Motions (W.Reaches a) V)

/-- The dispatcher of a site publishes where deeds at the site may. -/
lemma publishesIn_reaches (ha : W.site? a = some site)
    (hs : W.scan? site = some s) : s.dispatcher.PublishesIn (W.Reaches a) := by
  intro i hi site' hsite
  obtain rfl : site = site' := Option.some.inj (ha.symm.trans hsite)
  exact ⟨s.dispatcher, (scan?_eq_some_iff.1 hs).1, hi⟩

/-- Deeds by hand may publish anywhere. -/
lemma reaches_of_byHand (ha : W.site? a = none) (i : Nat) : W.Reaches a i :=
  fun _ h => absurd (ha.symm.trans h) (Option.some_ne_none _).symm

/-- A claim under a name makes the name's last one go. -/
lemma motions_claim (W : Workshop ω) {ring : Nat} (home : R ring) (name : String) :
    W.Motions R ((Session.claim ring name).on W).2 := by
  have hdrop : ∀ V : Workshop ω, V.Motions R ((Session.dropClaim name).on V).2 := fun V => by
    simp only [Session.dropClaim, on_bind, on_named]
    cases V.claims.find? name with
    | none => exact .refl
    | some c => exact .single (.hand (.putBack c.ring c.slot) rfl)
  simp only [Session.claim, on_bind, on_engine]
  cases hclaim : W.engine.claim? ring with
  | none => exact .refl
  | some p =>
    obtain ⟨slot, e⟩ := p
    have hbind : ∀ V : Workshop ω, V.Motions R ((do
        modify fun s : Workshop ω => { s with claims := s.claims.bind name ⟨ring, slot⟩ }
        return some ⟨ring, slot⟩ : Session ω (Option Claim)).on V).2 :=
      fun V => motions_still rfl rfl
    have hV : W.Motion R { W with engine := e } := .hand (.claim home hclaim) rfl
    refine .head hV ?_
    simp only [on_bind, on_modifyEngine, on_get]
    split
    · exact motions_bind (hdrop _) fun _ V _ => hbind V
    · exact hbind _

/-- A lease that is taken under a name makes the name's last one go. -/
lemma motions_nextLease (W : Workshop ω) (owner : Owner) (name : String) :
    W.Motions R ((Session.nextLease owner name).on W).2 := by
  have hdrop : ∀ V : Workshop ω, V.Motions R ((Session.dropLease name).on V).2 := fun V => by
    simp only [Session.dropLease, on_bind, on_named]
    cases V.leases.find? name with
    | none => exact .refl
    | some l => exact .single (.hand (.dropLease l) rfl)
  simp only [Session.nextLease, on_bind, on_inbox]
  cases hk : W.inbox? owner with
  | none => exact .refl
  | some k =>
    simp only [on_engine, ofFault, on_ofExcept]
    rcases hn : k.next? W.engine with fault | _ | ⟨l, k', e⟩
    · exact .refl
    · exact .refl
    · obtain ⟨ring, slot, rest, r, -, -, -, -, -, -, rfl⟩ := Inbox.next?_cases hn
      have hbind : ∀ V : Workshop ω, V.Motions R ((do
          modify fun s : Workshop ω => { s with leases := s.leases.bind name l }
          return some l : Session ω (Option Lease)).on V).2 := fun V => motions_still rfl rfl
      have hV : W.Motion R { W.putInbox k' owner with engine := k.leased W.engine ring slot } :=
        .hand (.lease k ring slot) (dispatcher?_putInbox k')
      simp only [Stop.ofFault, on_bind, on_putInbox hk, on_modifyEngine, on_get]
      refine .head hV ?_
      split
      · exact motions_bind (hdrop _) fun _ V _ => hbind V
      · exact hbind _

/-! ## Deeds -/

lemma comesTo_of_motions (hx : W.execution? a = none) (hdraw : ∀ hub, a ≠ .drawShard hub)
    (m : W.Motions (W.Reaches a) V) : W.ComesTo a V :=
  .motions hdraw (fun _ hx' => absurd (hx.symm.trans hx') (Option.some_ne_none _).symm) m

lemma comesTo_motion (hx : W.execution? a = none) (hdraw : ∀ hub, a ≠ .drawShard hub)
    (m : W.Motion (W.Reaches a) V) : W.ComesTo a V :=
  comesTo_of_motions hx hdraw (.single m)

/-- A deed on something that may not be there. -/
lemma comesTo_found {α : Type} {x? : Option α} {f : α → Workshop ω} (hW : W.after a = x?.elim W f)
    (hx : W.execution? a = none) (hdraw : ∀ hub, a ≠ .drawShard hub)
    (hf : ∀ x, x? = some x → W.Motion (W.Reaches a) (f x)) : W.ComesTo a (W.after a) := by
  rw [hW]
  cases x? with
  | none => exact comesTo_of_motions hx hdraw .refl
  | some x => exact comesTo_motion hx hdraw (hf x rfl)

/-- At a site, the dispatcher there publishes where it may. -/
lemma motions_atSite {α : Type} {f : Scan ω → Except Stop α × Scan ω}
    (ha : W.site? a = some site)
    (hf : ∀ s : Scan ω, s.dispatcher.PublishesIn (W.Reaches a) → s.Motions (W.Reaches a) (f s).2) :
    W.Motions (W.Reaches a) ((Session.onScan site f).on W).2 :=
  motions_onScan fun s hs => hf s (publishesIn_reaches ha hs)

lemma motions_ofCursor {α : Type} {f : Cursor → Scan ω → Except Stop α × Cursor × Scan ω}
    (ha : W.site? a = (W.cursors.find? name).map (·.site))
    (hf : ∀ (c : Cursor) (s : Scan ω), s.dispatcher.PublishesIn (W.Reaches a) →
      s.Motions (W.Reaches a) (f c s).2.2) :
    W.Motions (W.Reaches a) ((Session.onCursor name f).on W).2 := by
  refine motions_onCursor fun held s hc hs => hf _ _ (publishesIn_reaches ?_ hs)
  rw [ha, hc, Option.map_some]

lemma comesTo_addRing (W : Workshop ω) (name : String) (shard capacity : Nat) :
    W.ComesTo (.addRing name shard capacity) (W.after (.addRing name shard capacity)) := by
  refine comesTo_of_motions rfl (fun _ => nofun) ?_
  rcases W.after_addRing name shard capacity with hW | ⟨n, e, he, hW⟩ <;> rw [hW]
  exact .single (.hand (.addRing he) rfl)

lemma comesTo_clear (W : Workshop ω) (owner : Owner) :
    W.ComesTo (.clear owner) (W.after (.clear owner)) := by
  refine comesTo_found (after_clear owner) rfl (fun _ => nofun) fun d hd => ?_
  have m : Scan.Motion (W.Reaches (.clear owner)) ⟨d, { id := 0 }, W.engine⟩ _ := .clear
  exact .scan hd rfl (.single m) (dispatcher?_putDispatcher hd) (engine_putDispatcher _)

lemma comesTo_openOn (W : Workshop ω) (site : Site) (name : String) :
    W.ComesTo (.openOn site name) (W.after (.openOn site name)) := by
  have m := motions_atSite (W := W) (a := .openOn site name) rfl fun s => Cursor.motions_openOn
  refine comesTo_of_motions rfl (fun _ => nofun) (motions_bind m fun c V _ => ?_)
  exact motions_bindCursor V name ⟨site, c⟩

lemma comesTo_dispatch (x : Execution ω) (hx : W.execution? a = some x)
    (ha : W.site? a = some x.site) (hdraw : ∀ hub, a ≠ .drawShard hub) :
    W.ComesTo a (W.after (.dispatch x.site x.source x.hub x.filter)) := by
  have he : Errand (.dispatch x.site x.source x.hub x.filter) x.site _ := .dispatch
  rw [he.after]
  cases hs : W.scan? x.site with
  | none => exact .motions hdraw (fun y hy => Option.some.inj (hx.symm.trans hy) ▸ hs) .refl
  | some s => exact .execute hx ha hs rfl (moved_putScan hs _) .refl

lemma comesTo_execute (W : Workshop ω) (plan inbox : String) (hub : Nat) :
    W.ComesTo (.execute plan inbox hub) (W.after (.execute plan inbox hub)) := by
  rw [after_execute]
  cases hp : W.plans.find? plan with
  | none =>
    have hx : W.execution? (.execute plan inbox hub) = none := by rw [execution?, hp]; rfl
    exact comesTo_of_motions hx (fun _ => nofun) .refl
  | some p =>
    have hx : W.execution? (.execute plan inbox hub) =
        some ⟨⟨.plan plan, .own inbox⟩, p.source, hub, p.filter⟩ := by rw [execution?, hp]; rfl
    exact comesTo_dispatch ⟨⟨.plan plan, .own inbox⟩, p.source, hub, p.filter⟩ hx rfl fun _ => nofun

/-- The scan of a plan is put back, and then another time after some steps. -/
lemma motions_putPlan (W : Workshop ω) (plan : String) (p : Plan ω) {s' : Scan ω}
    (m : s.Motions R s') : Motions R { W.putPlan plan (p.ofScan s) with engine := s.engine }
      { W.putPlan plan (p.ofScan s') with engine := s'.engine } := by
  have hput : ∀ t : Scan ω, Workshop.Moved W { W.putPlan plan (p.ofScan t) with engine := t.engine }
      (.ofPlan plan) t := fun t => moved_putPlan t
  refine .single (.scan (o := .plan plan) ?_ rfl m ?_ rfl)
  · rw [(hput s).dispatchers]
    exact Function.update_self ..
  · rw [(hput s).dispatchers, (hput s').dispatchers]
    exact (Function.update_idem ..).symm

/-- A plan is executed, and a cursor is opened on the execution. -/
lemma comesTo_openCursor (W : Workshop ω) (plan name : String) (hub : Nat) :
    W.ComesTo (.openCursor plan name hub) (W.after (.openCursor plan name hub)) := by
  cases hp : W.plans.find? plan with
  | none =>
    have hx : W.execution? (.openCursor plan name hub) = none := by rw [execution?, hp]; rfl
    rw [after_openCursor_none hp]
    exact comesTo_of_motions hx (fun _ => nofun) .refl
  | some p =>
    have hx : W.execution? (.openCursor plan name hub) =
        some ⟨.ofPlan plan, p.source, hub, p.filter⟩ := by rw [execution?, hp]; rfl
    have hs : W.scan? (.ofPlan plan) = some (p.scan W.engine) := by
      simp [scan?, Site.ofPlan, dispatcher?, inbox?, hp, Plan.scan]
    rcases hd : (p.scan W.engine).dispatch p.source hub p.filter with ⟨r, s'⟩
    refine .execute hx rfl hs (congrArg Prod.snd hd) (moved_putPlan (p := p) s') ?_
    simp only [after, Deed.act, Session.openCursor, on_bind, on_named, hp, on_engine,
      Plan.openCursor, hd]
    cases r with
    | error stop => exact .refl
    | ok =>
      have m : s'.Motions (s'.dispatcher.ring = some ·) (Cursor.openOn s').2 :=
        Cursor.motions_openOn fun i hi => hi
      rcases ho : Cursor.openOn s' with ⟨opened, t⟩
      rw [ho] at m
      have hV := motions_putPlan W plan p m
      simp only [ho, on_modify, on_ofExcept]
      cases opened with
      | error stop => exact hV
      | ok c => exact hV.trans (motions_bindCursor _ name _)

/-- What a deed comes to, whatever it is. -/
theorem comesTo_after (W : Workshop ω) (a : Deed ω) : W.ComesTo a (W.after a) := by
  cases a with
  | addRing name shard capacity => exact comesTo_addRing W name shard capacity
  | claim ring name =>
    have home : W.Reaches (.claim ring name) ring := reaches_of_byHand rfl ring
    have m := motions_claim W home name
    exact comesTo_of_motions rfl (fun _ => nofun) (motions_bind m fun _ V _ => .refl)
  | edit name =>
    exact comesTo_found (after_edit name ..) rfl (fun _ => nofun) fun _ _ =>
      .hand (.edit _ _ fun t => ⟨_, _, rfl⟩) rfl
  | dropClaim name =>
    exact comesTo_found (after_dropClaim name) rfl (fun _ => nofun) fun _ _ =>
      .hand (.putBack _ _) rfl
  | publishClaim name =>
    exact comesTo_found (after_publishClaim name) rfl (fun _ => nofun) fun _ _ =>
      .hand (.publish (reaches_of_byHand rfl _) _) rfl
  | reduce ring => exact comesTo_motion rfl (fun _ => nofun) (.hand (.reduce ring) rfl)
  | addInbox => exact comesTo_motion rfl (fun _ => nofun) (.hand (.quiet rfl rfl rfl) rfl)
  | nextLease inbox name =>
    have m := motions_nextLease (R := W.Reaches (.nextLease inbox name)) W (.own inbox) name
    exact comesTo_of_motions rfl (fun _ => nofun) (motions_bind m fun _ V _ => .refl)
  | removeError name =>
    exact comesTo_found (after_removeError name) rfl (fun _ => nofun) fun _ _ =>
      .hand (.edit _ _ fun t => ⟨_, _, rfl⟩) rfl
  | done name =>
    exact comesTo_found (after_done name) rfl (fun _ => nofun) fun _ _ => .hand (.release _) rfl
  | dropLease name =>
    exact comesTo_found (after_dropLease name) rfl (fun _ => nofun) fun _ _ =>
      .hand (.dropLease _) rfl
  | addDispatcher name reducer =>
    exact .employ (d := { id := W.engine.epochs.size, reducer }) rfl (fun _ => nofun) rfl rfl rfl
      rfl rfl (dispatcher?_bind rfl rfl)
  | dispatch site source hub filter =>
    exact comesTo_dispatch ⟨site, source, hub, filter⟩ rfl rfl fun _ => nofun
  | steal site =>
    have m := motions_atSite (W := W) (a := .steal site) rfl fun s => Scan.motions_steal
    exact comesTo_of_motions rfl (fun _ => nofun) m
  | drain site =>
    have m := motions_atSite (W := W) (a := .drain site) rfl fun s _ => Scan.motions_drain s
    exact comesTo_of_motions rfl (fun _ => nofun) m
  | rewind site =>
    have m := motions_atSite (W := W) (a := .rewind site) (f := fun s => (.ok (), s.rewind)) rfl
      fun s => Scan.motions_rewind
    exact comesTo_of_motions rfl (fun _ => nofun) m
  | gather site n =>
    have m := motions_atSite (W := W) (a := .gather site n) rfl fun s h => Scan.motions_gather h n
    exact comesTo_of_motions rfl (fun _ => nofun) (motions_bind m fun _ V _ => .refl)
  | clear owner => exact comesTo_clear W owner
  | drawShard => exact .draw rfl rfl rfl
  | addPlan name source filter =>
    exact .employ (d := { id := W.engine.epochs.size, reducer := .filtering source.order }) rfl
      (fun _ => nofun) rfl rfl rfl rfl rfl dispatcher?_putPlan
  | execute plan inbox hub => exact comesTo_execute W plan inbox hub
  | closePlan name =>
    exact comesTo_found (after_closePlan name) rfl (fun _ => nofun) fun _ _ =>
      .hand (.quiet rfl rfl rfl) rfl
  | openCursor plan name hub => exact comesTo_openCursor W plan name hub
  | openOn site name => exact comesTo_openOn W site name
  | next name =>
    have m := motions_ofCursor (W := W) (a := .next name) rfl fun c s h => Cursor.motions_next h c
    exact comesTo_of_motions rfl (fun _ => nofun) (motions_bind m fun _ V _ => .refl)
  | rewindCursor name =>
    have m := motions_ofCursor (W := W) (a := .rewindCursor name) rfl fun c s h =>
      Cursor.motions_rewind h c
    exact comesTo_of_motions rfl (fun _ => nofun) m
  | close name =>
    have m := motions_ofCursor (W := W) (a := .close name) rfl fun c s _ => Cursor.motions_close c s
    exact comesTo_of_motions rfl (fun _ => nofun) m
  | dropCursor name => exact comesTo_of_motions rfl (fun _ => nofun) (motions_dropCursor W name)
  | keepView => exact comesTo_of_motions rfl (fun _ => nofun) (motions_still rfl rfl)
  | moveView name i =>
    obtain ⟨views, hW⟩ := W.after_moveView name i
    rw [hW]
    exact comesTo_of_motions rfl (fun _ => nofun) (motions_still rfl rfl)
  | touch => exact comesTo_motion rfl (fun _ => nofun) (.hand (.quiet rfl rfl rfl) rfl)

end Workshop

end TableScan
