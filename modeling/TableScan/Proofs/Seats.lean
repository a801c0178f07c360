import TableScan.Proofs.Motions

/-!
# Seats

What motions leave alone: the hubs, the seats of the dispatchers, and all rings but those in which
something is published (`Workshop.Motions.calm`).  Main statement: whatever is done at a site,
slots are claimed and published in the ring of the dispatcher there alone, which may be a new one
(`Workshop.rests_after`).
-/

namespace TableScan

variable {ω : Type} {R : Nat → Prop}

/-! ## Rings at rest -/

namespace Ring

/-- A ring of which no slot is claimed and none is published; slots may come back and be
reduced. -/
structure Rests (r r' : Ring ω) : Prop where
  free : r.free <+: r'.free
  pending : r'.pending <:+ r.pending
  stages : ∀ k, r'.stage? k = some .claimed ∨ r'.stage? k = some .published →
    r'.stage? k = r.stage? k

variable {r r' r'' : Ring ω} {k : Nat}

namespace Rests

lemma refl (r : Ring ω) : r.Rests r := ⟨List.prefix_refl _, List.suffix_refl _, fun _ _ => rfl⟩

lemma trans (h : r.Rests r') (h' : r'.Rests r'') : r.Rests r'' where
  free := h.free.trans h'.free
  pending := h'.pending.trans h.pending
  stages k hk := by
    have hk' := h'.stages k hk
    rw [hk'] at hk ⊢
    exact h.stages k hk

end Rests

lemma rests_modifyTask (r : Ring ω) (k : Nat) (f : Task ω → Task ω) :
    r.Rests (r.modifyTask k f) :=
  ⟨List.prefix_refl _, List.suffix_refl _, fun _ _ => stage?_modifyTask⟩

/-- A slot gets on to a later stage. -/
lemma rests_setStage (r : Ring ω) (k : Nat) (stage : Stage) (hc : stage ≠ .claimed) (hp : stage ≠ .published) :
    r.Rests (r.setStage k stage) := by
  refine ⟨List.prefix_refl _, List.suffix_refl _, fun j hj => ?_⟩
  rw [stage?_setStage] at hj ⊢
  split at hj
  · cases hr : r.stage? j <;> simp [hr, hc, hp] at hj
  · rename_i hne
    rw [if_neg hne]

lemma rests_putBack (r : Ring ω) (k : Nat) : r.Rests (r.putBack k) := by
  have h := (r.rests_modifyTask k Task.cleared).trans
    (rests_setStage _ k .free (by decide) (by decide))
  exact ⟨List.prefix_append .., h.pending, h.stages⟩

lemma rests_lease (r : Ring ω) (k : Nat) : r.Rests (r.lease k) :=
  r.rests_setStage k .leased (by decide) (by decide)

lemma rests_reduceTo {rest : List Nat} (hdue : r.due = k :: rest) (t : Task ω) :
    r.Rests (r.reduceTo k rest t) := by
  have h := (r.rests_modifyTask k fun _ => t).trans
    (rests_setStage _ k .reduced (by decide) (by decide))
  have hrest : rest <:+ r.pending :=
    (List.suffix_cons k rest).trans (hdue ▸ List.dropWhile_suffix _)
  exact ⟨h.free, hrest, h.stages⟩

end Ring

/-! ## Engines -/

namespace Engine

/-- All rings outside of `R` rest. -/
def RestsOutside (R : Nat → Prop) (e e' : Engine ω) : Prop :=
  ∀ i r, ¬ R i → e.rings[i]? = some r → ∃ r', e'.rings[i]? = some r' ∧ r.Rests r'

/-- The hubs stay, and nobody is employed. -/
structure Calm (R : Nat → Prop) (e e' : Engine ω) : Prop where
  hubs : e'.hubs = e.hubs
  size : e'.epochs.size = e.epochs.size
  rests : e.RestsOutside R e'

variable {e e' e'' : Engine ω} {i k : Nat}

lemma RestsOutside.congr (hr : e'.rings = e.rings) : e.RestsOutside R e' :=
  fun _ r _ h => ⟨r, hr ▸ h, .refl r⟩

lemma RestsOutside.mono (h : e.RestsOutside R e') {R' : Nat → Prop} (hR : ∀ i, R i → R' i) :
    e.RestsOutside R' e' :=
  fun i r hi => h i r fun hi' => hi (hR i hi')

lemma RestsOutside.trans (h : e.RestsOutside R e') (h' : e'.RestsOutside R e'') :
    e.RestsOutside R e'' := fun i r hR hr => by
  obtain ⟨r', hr', hrest⟩ := h i r hR hr
  obtain ⟨r'', hr'', hrest'⟩ := h' i r' hR hr'
  exact ⟨r'', hr'', hrest.trans hrest'⟩

namespace Calm

lemma congr (hr : e'.rings = e.rings) (hh : e'.hubs = e.hubs)
    (hs : e'.epochs.size = e.epochs.size) : e.Calm R e' := ⟨hh, hs, .congr hr⟩

lemma refl (e : Engine ω) : e.Calm R e := .congr rfl rfl rfl

lemma trans (h : e.Calm R e') (h' : e'.Calm R e'') : e.Calm R e'' :=
  ⟨h'.hubs.trans h.hubs, h'.size.trans h.size, h.rests.trans h'.rests⟩

/-- A ring is changed that is in `R`, or so that it rests. -/
lemma modifyRing {f : Ring ω → Ring ω} (h : R i ∨ ∀ r, e.rings[i]? = some r → r.Rests (f r)) :
    e.Calm R (e.modifyRing i f) := by
  refine ⟨rfl, rfl, fun j r hR hr => ?_⟩
  by_cases hj : j = i
  · subst hj
    exact ⟨f r, getElem?_modifyRing_self hr, h.resolve_left hR r hr⟩
  · exact ⟨r, (getElem?_modifyRing_ne hj).trans hr, .refl r⟩

end Calm

lemma calm_claim? (h : e.claim? i = some (k, e')) (home : R i) : e.Calm R e' := by
  obtain ⟨r, rest, -, -, rfl⟩ := claim?_cases h
  exact .modifyRing (.inl home)

lemma calm_putBack (e : Engine ω) (i k : Nat) : e.Calm R (e.putBack i k) :=
  .modifyRing (.inr fun r _ => r.rests_putBack k)

lemma calm_release (e : Engine ω) (l : Lease) : e.Calm R (e.release l) :=
  (e.calm_putBack l.ring l.slot).trans (.congr rfl rfl rfl)

lemma calm_dropLease (e : Engine ω) (l : Lease) : e.Calm R (e.dropLease l) := by
  have hnote : e.Calm R (e.note (.leaseDropped (e.shardOf l.ring) l.slot)) := .congr rfl rfl rfl
  exact hnote.trans (calm_release _ l)

lemma calm_leased (inbox : Inbox) (e : Engine ω) (i k : Nat) : e.Calm R (inbox.leased e i k) := by
  have hlease : e.Calm R (e.modifyRing i (·.lease k)) := .modifyRing (.inr fun r _ => r.rests_lease k)
  exact hlease.trans (.congr rfl rfl rfl)

lemma calm_reduceOldest (e : Engine ω) (i : Nat) : e.Calm R (e.reduceOldest i).2 := by
  obtain ⟨f, hrings, hhubs, hepochs, -, hf⟩ := e.reduceOldest_modifies i
  have hring : e.Calm R (e.modifyRing i f) := by
    refine .modifyRing (.inr fun r hr => ?_)
    rcases hf with hf | ⟨r', k, rest, t, x, w, hr', hdue, -, hf⟩
    · rw [hf]
      exact ⟨List.prefix_refl _, List.nil_suffix, fun _ _ => rfl⟩
    · obtain rfl := Option.some.inj (hr'.symm.trans hr)
      exact hf r' ▸ Ring.rests_reduceTo hdue t
  exact hring.trans (.congr hrings hhubs (congrArg _ hepochs))

lemma calm_addRing? {shard capacity n : Nat} (h : e.addRing? shard capacity = .ok (n, e')) :
    e.Calm R e' := by
  obtain ⟨m, rfl⟩ := addRing?_eq h
  refine ⟨rfl, rfl, fun i r _ hr => ⟨r, ?_, .refl r⟩⟩
  exact Array.getElem?_push.trans ((if_neg (Nat.ne_of_lt (lt_size_of_getElem? hr))).trans hr)

lemma Handled.calm (h : e.Handled R e') : e.Calm R e' := by
  cases h with
  | addRing added => exact calm_addRing? added
  | claim home claimed => exact calm_claim? claimed home
  | publish home => exact .modifyRing (.inl home)
  | putBack i k => exact calm_putBack e i k
  | edit i k => exact .modifyRing (.inr fun r _ => r.rests_modifyTask k _)
  | reduce i => exact calm_reduceOldest e i
  | lease inbox i k => exact calm_leased inbox e i k
  | release l => exact calm_release e l
  | dropLease l => exact calm_dropLease e l
  | quiet rings hubs epochs => exact .congr rings hubs (by rw [epochs])

end Engine

/-! ## Scans -/

namespace Scan

variable {s s' : Scan ω}

lemma Motion.calm (m : s.Motion R s') : s.engine.Calm R s'.engine := by
  cases m with
  | publish home done =>
    obtain ⟨ring, work, frame, slot, e, hring, -, -, hclaim, rfl⟩ := publishOne?_cases done
    have hR := home ring hring
    exact ((Engine.calm_claim? hclaim hR).trans (.modifyRing (.inl hR))).trans
      (.modifyRing (.inl hR))
  | reduce i => exact Engine.calm_reduceOldest _ i
  | lease done =>
    obtain ⟨ring, slot, rest, r, -, -, -, -, -, rfl⟩ := next?_cases done
    exact Engine.calm_leased ..
  | giveBack l => exact Engine.calm_release _ l
  | quiet rings hubs epochs => exact .congr rings hubs (by rw [epochs])
  | epoch => exact .congr rfl rfl (by simp [nextEpoch, Engine.nextEpoch])
  | pause | halt | restart | clear => exact .refl _

lemma Motions.calm (m : s.Motions R s') : s.engine.Calm R s'.engine := by
  induction m with
  | refl => exact .refl _
  | tail _ m ih => exact ih.trans m.calm

lemma drawShard_of_some {shard : Nat} (h : s.dispatcher.shard = some shard) (hub : Nat) :
    s.drawShard hub = (shard, s) := by
  simp only [drawShard, h]

lemma drawShard_of_none (h : s.dispatcher.shard = none) (hub : Nat) : s.drawShard hub =
    ((s.engine.drawShard hub).1, { s with
      engine := (s.engine.drawShard hub).2
      dispatcher := { s.dispatcher with shard := some (s.engine.drawShard hub).1 } }) := by
  simp only [drawShard, h]

/-- Once a launch has its shard, it publishes in the ring of that shard, and takes the seat there,
unless some frame does not fit. -/
lemma calm_launch (s : Scan ω) (source : Source ω) (hub : Nat) (filter : Filter ω)
    (frames : List Frame) {shard : Nat} {t : Scan ω}
    (hdraw : s.nextEpoch.drawShard hub = (shard, t)) :
    let s' := (s.launch source hub filter frames).2
    t.engine.Calm (s'.dispatcher.ring = some ·) s'.engine ∧
      (s'.dispatcher.seat = t.dispatcher.seat ∨ s'.dispatcher.seat =
        { t.dispatcher.seat with hub := some hub, ring := some (t.ringOf hub shard) }) := by
  simp only [launch, hdraw]
  rcases hlist : listFrames t.dispatcher source.schema frames with ⟨fault, d⟩
  have hd : d.seat = t.dispatcher.seat := by
    obtain ⟨-, rfl⟩ := Prod.mk.inj hlist
    rfl
  cases fault with
  | some fault => exact ⟨.refl _, .inl hd⟩
  | none =>
    dsimp only
    set v : Scan ω := { t with
      dispatcher := begin d source hub (t.ringOf hub shard) filter
      inbox := t.inbox.subscribe (t.ringOf hub shard) }
    have m : v.Motions (v.dispatcher.ring = some ·) v.publish := motions_publish fun _ hi => hi
    have hseat : v.publish.dispatcher.seat =
        { d.seat with hub := some hub, ring := some (t.ringOf hub shard) } := m.seat
    have hring : v.publish.dispatcher.ring = v.dispatcher.ring := congrArg Seat.ring m.seat
    rw [hring, hseat, hd]
    exact ⟨m.calm, .inr rfl⟩

lemma rings_drawShard (s : Scan ω) (hub : Nat) :
    (s.drawShard hub).2.engine.rings = s.engine.rings := by
  obtain ⟨t, hd, ha⟩ := s.drawShard_eq hub
  rw [hd]
  exact ha.rings

/-- A dispatch claims and publishes slots of its new ring alone. -/
lemma rests_dispatch (s : Scan ω) (source : Source ω) (hub : Nat) (filter : Filter ω) :
    s.engine.RestsOutside ((s.dispatch source hub filter).2.dispatcher.ring = some ·)
      (s.dispatch source hub filter).2.engine := by
  cases hopen : s.opensFrames source with
  | false => exact (motions_dispatch hopen hub filter).calm.rests
  | true =>
    obtain ⟨t, frames, m, hlaunch⟩ := dispatch_opened
      (R := ((s.dispatch source hub filter).2.dispatcher.ring = some ·)) hopen hub filter
    rw [hlaunch] at m ⊢
    have m' : s.Motions _ t.nextEpoch := m.tail .epoch
    have hdraw := t.nextEpoch.rings_drawShard hub
    have hlaunched := (t.calm_launch source hub filter frames rfl).1
    exact (m'.calm.rests.trans (.congr hdraw)).trans hlaunched.rests

end Scan

/-! ## Workshops -/

namespace Workshop

/-- The seat of the dispatcher of an owner. -/
def seat? (W : Workshop ω) (o : Owner) : Option Seat := (W.dispatcher? o).map Dispatcher.seat

/-- A calm engine, on which all dispatchers keep their seats. -/
structure Calm (R : Nat → Prop) (W V : Workshop ω) : Prop where
  engine : W.engine.Calm R V.engine
  seats : V.seat? = W.seat?

variable {W V U : Workshop ω}

namespace Calm

lemma refl (W : Workshop ω) : W.Calm R W := ⟨.refl _, rfl⟩

lemma trans (h : W.Calm R V) (h' : V.Calm R U) : W.Calm R U :=
  ⟨h.engine.trans h'.engine, h'.seats.trans h.seats⟩

end Calm

lemma seat?_update {o : Owner} {d : Dispatcher ω}
    (h : V.dispatcher? = Function.update W.dispatcher? o (some d)) :
    V.seat? = Function.update W.seat? o (some d.seat) := by
  funext o'
  rw [seat?, h, Function.update_apply, Function.update_apply]
  split <;> rfl

lemma Moved.seat? {site : Site} {s' : Scan ω} (h : W.Moved U site s') (hcalm : U.Calm R V) :
    V.seat? site.dispatcher = some s'.dispatcher.seat := by
  rw [hcalm.seats, seat?_update h.dispatchers, Function.update_self]

lemma Motion.calm (m : W.Motion R V) : W.Calm R V := by
  cases m with
  | hand handled dispatchers => exact ⟨handled.calm, by unfold seat?; rw [dispatchers]⟩
  | scan dispatcher engine motions dispatchers engine' =>
    refine ⟨by rw [engine, engine']; exact motions.calm, ?_⟩
    rw [seat?_update dispatchers, Scan.Motions.seat motions, Function.update_eq_self_iff, seat?,
      dispatcher, Option.map_some]

lemma Motions.calm (m : W.Motions R V) : W.Calm R V := by
  induction m with
  | refl => exact .refl W
  | tail _ m ih => exact ih.trans m.calm

/-- Whatever is done at a site, slots are claimed and published in the ring alone that the
dispatcher there has then. -/
theorem rests_after {a : Deed ω} {site : Site} {d : Dispatcher ω} (ha : W.site? a = some site)
    (hd : (W.after a).dispatcher? site.dispatcher = some d) :
    W.engine.RestsOutside (d.ring = some ·) (W.after a).engine := by
  have hseat : (W.after a).seat? site.dispatcher = some d.seat := by
    rw [seat?, hd, Option.map_some]
  cases W.comesTo_after a with
  | draw deed => exact absurd ha (deed ▸ nofun)
  | employ byHand => exact absurd (byHand.symm.trans ha) nofun
  | @execute x s s' U deed site' scan dispatched moved motions =>
    obtain rfl : site = x.site := Option.some.inj (ha.symm.trans site')
    have hcalm := motions.calm
    have hd' : s'.dispatcher.seat = d.seat :=
      Option.some.inj ((moved.seat? hcalm).symm.trans hseat)
    have hring : s'.dispatcher.ring = d.ring := congrArg Seat.ring hd'
    have hdispatch := s.rests_dispatch x.source x.hub x.filter
    rw [dispatched, ← (scan?_eq_some_iff.1 scan).2.2, ← moved.engine] at hdispatch
    rw [← hring]
    exact hdispatch.trans hcalm.engine.rests
  | motions _ _ motions =>
    refine motions.calm.engine.rests.mono fun i hi => ?_
    obtain ⟨d₀, hd₀, hring⟩ := hi site ha
    rw [motions.calm.seats, seat?, hd₀, Option.map_some] at hseat
    exact (congrArg Seat.ring (Option.some.inj hseat)).symm.trans hring

end Workshop

end TableScan
