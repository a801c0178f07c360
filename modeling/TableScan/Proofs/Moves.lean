import Mathlib.Logic.Relation
import TableScan.Plan
import TableScan.Proofs.Books

/-!
# The moves of a scan

All that a scan does to an engine is a sequence of a few moves: it publishes a frame, reduces a
slot of its ring, leases the next slot of its inbox, gives a lease back, begins an epoch or an
execution, or does some bookkeeping.  A move is made with some leases at hand.  Main statements:
the operations of dispatchers, inboxes and cursors are sequences of moves, and a move keeps the
engine sound.
-/

namespace TableScan

variable {ω σ : Type}

/-! ## What moves keep -/

/-- A reducer and a filter that leave alone what `π` shows of the world. -/
structure Reducer.Leaves (r : Reducer ω) (f : Filter ω) (π : ω → σ) : Prop where
  reduce : ∀ info v w, π (r info v f w).2 = π w
  rewind : ∀ w, π (f.rewind w) = π w

/-- The ring that an inbox looks its slots up in.  One that listens to no ring yet looks nothing up;
it counts as at home in the first ring, where all it may get in flight lies. -/
def Inbox.home (k : Inbox) : Nat := k.ring.getD 0

/-- The slots in flight to an inbox. -/
def Inbox.flights (k : Inbox) : List Lease := k.inFlight.map fun slot => ⟨k.home, slot, k.id⟩

/-- An inbox that belongs to an engine and to which exactly its share of the flights goes. -/
structure Inbox.Fed (k : Inbox) (e : Engine ω) (F : List Lease) : Prop where
  flights : F.filter (·.inbox == k.id) = k.flights
  ring_lt : ∀ i, k.ring = some i → i < e.rings.size
  id_lt : k.id < e.tallies.size

/-- A dispatcher that belongs to an engine. -/
structure Dispatcher.Employed (d : Dispatcher ω) (e : Engine ω) : Prop where
  id_lt : d.id < e.epochs.size
  work_dispatcher : ∀ w, d.work = some w → w.dispatcher = d.id
  ring_lt : ∀ i, d.ring = some i → i < e.rings.size

/-- A dispatcher that goes on with its execution: it stays at the same position, or is done. -/
structure Dispatcher.Abides (d d' : Dispatcher ω) : Prop where
  work : d'.work = d.work
  count : d'.frameCount = d.frameCount
  order : d'.order = d.order
  directory : d'.directory = d.directory
  position : d'.position = d.position ∨ d'.position = d.frameCount

lemma Dispatcher.frameAt?_eq_some_iff {d : Dispatcher ω} {position frame : Nat} :
    d.frameAt? position = some frame ↔
      position < d.frameCount ∧ frame = d.order.itemAt d.frameCount position := by
  simp [frameAt?, eq_comm]

/-- The rings of a hub. -/
def Hub.rings (h : Hub) : Nat × Nat := (h.firstRing, h.shards)

namespace Engine

/-- Two engines that differ in their bookkeeping, and in what `π` hides of the world. -/
structure Alike (π : ω → σ) (e e' : Engine ω) : Prop where
  rings : e'.rings = e.rings
  epochs : e'.epochs = e.epochs
  tallies : e'.tallies = e.tallies
  hubs : e'.hubs.map Hub.rings = e.hubs.map Hub.rings
  world : π e'.world = π e.world

/-- A later engine with the same rings, hubs, dispatchers and inboxes. -/
structure SameSize (e e' : Engine ω) : Prop where
  rings : e'.rings.size = e.rings.size
  epochs : e'.epochs.size = e.epochs.size
  tallies : e'.tallies.size = e.tallies.size
  hubs : e'.hubs.map Hub.rings = e.hubs.map Hub.rings

variable {e e' e'' : Engine ω} {π : ω → σ} {C L H : List Place} {F : List Lease} {i : Nat}

namespace SameSize

lemma refl (e : Engine ω) : e.SameSize e := ⟨rfl, rfl, rfl, rfl⟩

lemma trans (h : e.SameSize e') (h' : e'.SameSize e'') : e.SameSize e'' :=
  ⟨h'.rings.trans h.rings, h'.epochs.trans h.epochs, h'.tallies.trans h.tallies,
    h'.hubs.trans h.hubs⟩

lemma modifyRing (e : Engine ω) (i : Nat) (f : Ring ω → Ring ω) :
    e.SameSize (e.modifyRing i f) := ⟨size_modifyRing, rfl, rfl, rfl⟩

end SameSize

lemma Alike.sameSize (h : e.Alike π e') : e.SameSize e' :=
  ⟨by rw [h.rings], by rw [h.epochs], by rw [h.tallies], h.hubs⟩

lemma sameSize_claim? {k : Nat} (h : e.claim? i = some (k, e')) : e.SameSize e' := by
  obtain ⟨r, rest, -, -, rfl⟩ := claim?_cases h
  exact .modifyRing e i _

lemma epoch_claim? {k : Nat} (h : e.claim? i = some (k, e')) : e'.epoch = e.epoch := by
  obtain ⟨r, rest, -, -, rfl⟩ := claim?_cases h
  rfl

lemma sameSize_reduceOldest (e : Engine ω) (i : Nat) : e.SameSize (e.reduceOldest i).2 := by
  obtain ⟨f, hrings, hhubs, hepochs, htallies, -⟩ := e.reduceOldest_modifies i
  exact ⟨by rw [hrings, size_modifyRing], by rw [hepochs], by rw [htallies], by rw [hhubs]⟩

lemma sameSize_release (e : Engine ω) (l : Lease) : e.SameSize (e.release l) :=
  ⟨size_modifyRing, rfl, by simp [release, putBack, Engine.modifyRing], rfl⟩

lemma sameSize_dropLease (e : Engine ω) (l : Lease) : e.SameSize (e.dropLease l) := by
  have h := sameSize_release (e.note (.leaseDropped (e.shardOf l.ring) l.slot)) l
  exact ⟨h.rings, h.epochs, h.tallies, h.hubs⟩

lemma alike_drawShard (e : Engine ω) (π : ω → σ) (hub : Nat) :
    e.Alike π (e.drawShard hub).2 := by
  unfold drawShard
  split
  · refine ⟨rfl, rfl, rfl, ?_, rfl⟩
    refine Array.ext (by simp) fun j h₁ h₂ => ?_
    simp only [Array.getElem_map, Array.getElem_modify]
    split <;> rfl
  · exact ⟨rfl, rfl, rfl, rfl, rfl⟩

lemma epoch_nextEpoch (e : Engine ω) (d d' : Nat) :
    (e.nextEpoch d).epoch d' =
      if d = d' ∧ d < e.epochs.size then e.epoch d' + 1 else e.epoch d' := by
  unfold epoch nextEpoch
  by_cases h : d = d'
  · subst h
    by_cases hd : d < e.epochs.size <;> simp [Array.getElem_modify, hd]
  · simp [Array.getElem?_modify, h]

lemma epoch_le_nextEpoch (e : Engine ω) (d d' : Nat) : e.epoch d' ≤ (e.nextEpoch d).epoch d' := by
  rw [epoch_nextEpoch]
  split <;> omega

namespace Sound

lemma alike (h : e.Sound C L F H) (ha : e.Alike π e') : e'.Sound C L F H := by
  have hs : ({ e with world := e'.world } : Engine ω).Sound C L F H := h.congr rfl rfl rfl
  refine ⟨h.books.congr ha.rings, fun i k => ?_, fun hub hm => ?_⟩
  · have ht : e'.task i k = e.task i k := by simp [task, ha.rings]
    have he : e'.epoch = e.epoch := by
      funext d
      simp [epoch, ha.epochs]
    rw [ht, he]
    exact h.dated i k
  · have hm' : hub.rings ∈ e.hubs.map Hub.rings := ha.hubs ▸ Array.mem_map_of_mem hm
    obtain ⟨hub', hmem, heq⟩ := Array.mem_map.1 hm'
    obtain ⟨h₁, h₂⟩ := Prod.mk.inj heq
    rw [ha.rings, ← h₁, ← h₂]
    exact h.hubs hub' hmem

/-- A new epoch comes; no task is of a later one. -/
lemma nextEpoch (h : e.Sound C L F H) (d : Nat) : (e.nextEpoch d).Sound C L F H :=
  ⟨h.books.congr rfl, fun i k => (h.dated i k).mono (e.epoch_le_nextEpoch d), h.hubs⟩

lemma ring_lt (h : e.Sound C L F H) {hub : Nat} {a : Hub} (ha : e.hubs[hub]? = some a)
    (shard : Nat) : a.ring shard < e.rings.size := by
  obtain ⟨hpos, hle⟩ := h.hubs a (Array.mem_of_getElem? ha)
  have := Nat.mod_lt shard hpos
  unfold Hub.ring
  omega

end Sound

end Engine

namespace Inbox

variable {k k' : Inbox} {e e' : Engine ω} {l : Lease} {C L H : List Place} {F : List Lease}

/-- The engine after a slot was leased to an inbox. -/
def leased (k : Inbox) (e : Engine ω) (ring slot : Nat) : Engine ω :=
  { e.modifyRing ring (·.lease slot) with
    tallies := e.tallies.modify k.id fun t => { t with claimed := t.claimed + 1 } }

lemma sameSize_leased (k : Inbox) (e : Engine ω) (ring slot : Nat) :
    e.SameSize (k.leased e ring slot) :=
  ⟨Engine.size_modifyRing, rfl, by simp [leased], rfl⟩

lemma next?_cases (h : k.next? e = .ok (some (l, k', e'))) :
    ∃ ring slot rest r, k.ring = some ring ∧ k.inFlight = slot :: rest ∧
      e.rings[ring]? = some r ∧ r.stage? slot = some .reduced ∧ l = ⟨ring, slot, k.id⟩ ∧
      k' = { k with inFlight := rest } ∧ e' = k.leased e ring slot := by
  obtain ⟨ring, slot, hready, hl⟩ := Inbox.ready?_of_next? h
  obtain ⟨rfl, hke⟩ := Prod.mk.inj hl
  obtain ⟨rfl, rfl⟩ := Prod.mk.inj hke
  unfold Inbox.ready? at hready
  split at hready
  · rename_i i j rest hring hflight
    split at hready
    · cases hready
    · rename_i r hr
      split at hready
      · rename_i hlt
        split at hready
        · rename_i hc
          obtain ⟨rfl, rfl⟩ := Prod.mk.inj (Option.some.inj (Except.ok.inj hready))
          refine ⟨i, j, rest, r, hring, hflight, hr, (Ring.isCollectable_iff hlt).1 hc, rfl, ?_,
            rfl⟩
          rw [hflight, List.tail_cons]
        · cases hready
      · cases hready
  · cases hready

/-- The first flight of an inbox among those of all inboxes. -/
lemma Fed.split (h : k.Fed e F) {ring slot : Nat} {rest : List Nat}
    (hring : k.ring = some ring) (hflight : k.inFlight = slot :: rest) :
    ∃ F₁ F₂, F = F₁ ++ ⟨ring, slot, k.id⟩ :: F₂ ∧ (∀ l ∈ F₁, l.inbox ≠ k.id) ∧
      F₂.filter (·.inbox == k.id) = { k with inFlight := rest }.flights := by
  have hf := h.flights
  rw [Inbox.flights, hflight, List.map_cons, List.filter_eq_cons_iff] at hf
  obtain ⟨F₁, F₂, hF, h₁, -, h₂⟩ := hf
  have hhome : k.home = ring := by simp [Inbox.home, hring]
  rw [hhome] at hF
  exact ⟨F₁, F₂, hF, fun l hl => by simpa using h₁ l hl, h₂⟩

/-- The first slot in flight to an inbox is leased to it. -/
lemma Fed.next? (h : k.Fed e F) (he : e.Sound C L F H) (hn : k.next? e = .ok (some (l, k', e'))) :
    ∃ F', e'.Sound C (l.place :: L) F' H ∧ k'.Fed e' F' ∧ k'.id = k.id ∧ e.SameSize e' ∧
      F'.filter (·.inbox != k.id) = F.filter (·.inbox != k.id) := by
  obtain ⟨ring, slot, rest, r, hring, hflight, hr, hk, rfl, rfl, rfl⟩ := next?_cases hn
  have hs := k.sameSize_leased e ring slot
  obtain ⟨F₁, F₂, rfl, h₁, h₂⟩ := h.split hring hflight
  have h₁' : F₁.filter (·.inbox == k.id) = [] :=
    List.filter_eq_nil_iff.2 fun l hl => by simpa using h₁ l hl
  refine ⟨F₁ ++ F₂, (Engine.Sound.lease he hr hk).congr rfl rfl rfl, ⟨?_, ?_, ?_⟩, rfl, hs, ?_⟩
  · rw [List.filter_append, h₁', List.nil_append]
    exact h₂
  · intro i hi
    exact hs.rings ▸ h.ring_lt i hi
  · exact hs.tallies ▸ h.id_lt
  · simp

end Inbox

namespace Scan

variable {s s' s'' : Scan ω} {π : ω → σ} {l : Lease} {M M' : List Lease}
  {C L H : List Place} {F : List Lease}

/-! ## What the steps of a scan do -/

/-- What the publication of a frame does. -/
lemma publishOne?_cases (h : s.publishOne? = some s') :
    ∃ ring work frame slot e, s.dispatcher.ring = some ring ∧ s.dispatcher.work = some work ∧
      s.dispatcher.frameAt? s.dispatcher.position = some frame ∧
      s.engine.claim? ring = some (slot, e) ∧
      s' = {
        dispatcher := s.dispatcher.advance
        inbox := s.inbox.push slot
        engine := (e.modifyRing ring (·.modifyTask slot fun _ => .ask work
          (s.engine.epoch s.dispatcher.id) frame
          (s.dispatcher.directory.rowCount frame))).publish ring slot } := by
  unfold publishOne? at h
  split at h
  · rename_i ring task hring hnext
    obtain ⟨⟨slot, e⟩, hclaim, rfl⟩ := Option.map_eq_some_iff.1 h
    unfold Dispatcher.next? at hnext
    split at hnext
    · rename_i work frame hwork hframe
      obtain rfl := Option.some.inj hnext
      exact ⟨ring, work, frame, slot, e, hring, hwork, hframe, hclaim, rfl⟩
    · cases hnext
  · cases h

/-- What the publication of one frame keeps, the publication of many keeps. -/
lemma publish_keeps {P : Scan ω → Prop} (hP : ∀ {s s'}, P s → s.publishOne? = some s' → P s')
    (h : P s) : P s.publish := by
  suffices hn : ∀ n (s : Scan ω), P s → P (publishUpTo n s) from hn _ s h
  intro n
  induction n with
  | zero => exact fun s h => h
  | succ n ih =>
    intro s h
    unfold publishUpTo
    cases hs : s.publishOne? with
    | none => exact h
    | some s' => exact ih s' (hP h hs)

lemma next?_of_scan (h : s.next? = .ok (some (l, s'))) :
    ∃ k e, s.inbox.next? s.engine = .ok (some (l, k, e)) ∧
      s' = { s with inbox := k, engine := e } := by
  unfold next? at h
  rcases hn : s.inbox.next? s.engine with _ | _ | ⟨l, k, e⟩
  · rw [hn] at h; cases h
  · rw [hn] at h; cases h
  · rw [hn] at h
    obtain ⟨rfl, rfl⟩ := Prod.mk.inj (Option.some.inj (Except.ok.inj h))
    exact ⟨k, e, rfl, rfl⟩

/-- What the lease of the next slot does. -/
lemma next?_cases (h : s.next? = .ok (some (l, s'))) :
    ∃ ring slot rest r, s.inbox.ring = some ring ∧ s.inbox.inFlight = slot :: rest ∧
      s.engine.rings[ring]? = some r ∧ r.stage? slot = some .reduced ∧
      l = ⟨ring, slot, s.inbox.id⟩ ∧
      s' = { s with
        inbox := { s.inbox with inFlight := rest }
        engine := s.inbox.leased s.engine ring slot } := by
  obtain ⟨k, e, hn, rfl⟩ := next?_of_scan h
  obtain ⟨ring, slot, rest, r, hring, hflight, hr, hs, rfl, rfl, rfl⟩ := Inbox.next?_cases hn
  exact ⟨ring, slot, rest, r, hring, hflight, hr, hs, rfl, rfl⟩

lemma dispatcher_next? (h : s.next? = .ok (some (l, s'))) : s'.dispatcher = s.dispatcher := by
  obtain ⟨k, e, -, rfl⟩ := next?_of_scan h
  rfl

/-! ## Moves -/

/-- The dispatcher publishes into the ring that the inbox listens to. -/
def Home (s : Scan ω) : Prop := ∀ i, s.dispatcher.ring = some i → s.inbox.home = i

/-- The inbox listens to the ring that the dispatcher publishes into. -/
def Moored (s : Scan ω) : Prop := ∃ i, s.dispatcher.ring = some i ∧ s.inbox.ring = some i

lemma Moored.home (h : s.Moored) : s.Home := by
  obtain ⟨i, hd, hk⟩ := h
  intro j hj
  simp [Inbox.home, hk, Option.some.inj (hd.symm.trans hj)]

/-- A move of a scan, with the leases at hand before and after it.  What the filters and the
source do to the world is left open as far as `π` hides it. -/
inductive Move (π : ω → σ) : Scan ω × List Lease → Scan ω × List Lease → Prop
  | publish {s s' : Scan ω} {M : List Lease} (home : s.Home) (done : s.publishOne? = some s') :
      Move π (s, M) (s', M)
  | reduce {s : Scan ω} {M : List Lease} : Move π (s, M) (s.reduceOne.2, M)
  | lease {s s' : Scan ω} {l : Lease} {M : List Lease} (done : s.next? = .ok (some (l, s'))) :
      Move π (s, M) (s', l :: M)
  | giveBack {s : Scan ω} {l : Lease} {M : List Lease} : Move π (s, l :: M) (s.done l, M)
  | epoch {s : Scan ω} {M : List Lease} : Move π (s, M) (s.nextEpoch, M)
  | begin {s : Scan ω} {M : List Lease} {source : Source ω} {hub ring : Nat} {filter : Filter ω}
      (settled : s.inbox.inFlight = []) (there : ring < s.engine.rings.size)
      (leaves : s.dispatcher.reducer.Leaves filter π) :
      Move π (s, M) ({ s.nextEpoch with
        dispatcher := Scan.begin s.dispatcher source hub ring filter
        inbox := s.inbox.subscribe ring }, M)
  | restart {s : Scan ω} {M : List Lease} :
      Move π (s, M) ({ s.nextEpoch with
        dispatcher := { s.dispatcher with position := 0, starvedAt := none } }, M)
  /-- The dispatcher does its own bookkeeping, and may end its execution. -/
  | adjust {s : Scan ω} {M : List Lease} {d : Dispatcher ω} (id : d.id = s.dispatcher.id)
      (reducer : d.reducer = s.dispatcher.reducer) (ring : d.ring = s.dispatcher.ring)
      (work : s.dispatcher.Abides d ∨ d.work = none) :
      Move π (s, M) ({ s with dispatcher := d }, M)
  | alike {s : Scan ω} {M : List Lease} {e : Engine ω} (alike : s.engine.Alike π e) :
      Move π (s, M) ({ s with engine := e }, M)

/-- Any number of moves. -/
abbrev Moves (π : ω → σ) : Scan ω × List Lease → Scan ω × List Lease → Prop :=
  Relation.ReflTransGen (Move π)

/-! ## Moves keep the engine sound -/

/-- Two states of the scan of one dispatcher and one inbox. -/
structure SameSite (s s' : Scan ω) : Prop where
  dispatcher : s'.dispatcher.id = s.dispatcher.id
  reducer : s'.dispatcher.reducer = s.dispatcher.reducer
  inbox : s'.inbox.id = s.inbox.id
  size : s.engine.SameSize s'.engine
  home : s.Home → s'.Home
  moored : s.Moored → s'.Moored

namespace SameSite

lemma refl (s : Scan ω) : s.SameSite s := ⟨rfl, rfl, rfl, .refl _, id, id⟩

lemma trans (h : s.SameSite s') (h' : s'.SameSite s'') : s.SameSite s'' :=
  ⟨h'.dispatcher.trans h.dispatcher, h'.reducer.trans h.reducer, h'.inbox.trans h.inbox,
    h.size.trans h'.size, h'.home ∘ h.home, h'.moored ∘ h.moored⟩

end SameSite

/-- A scan on a sound engine, with the leases at hand, the places that others have claimed and
leased, the flights, and the strays. -/
structure Sound (s : Scan ω) (M : List Lease) (C L : List Place) (F : List Lease)
    (H : List Place) : Prop where
  engine : s.engine.Sound C (M.map Lease.place ++ L) F H
  fed : s.inbox.Fed s.engine F
  employed : s.dispatcher.Employed s.engine

lemma reduceOne_snd (s : Scan ω) :
    s.reduceOne.2 = s ∨
      ∃ i, s.dispatcher.ring = some i ∧
        s.reduceOne.2 = { s with engine := (s.engine.reduceOldest i).2 } := by
  unfold reduceOne
  split
  · exact .inl rfl
  · rename_i i hi
    exact .inr ⟨i, hi, rfl⟩

@[simp]
lemma dispatcher_reduceOne (s : Scan ω) : s.reduceOne.2.dispatcher = s.dispatcher := by
  rcases s.reduceOne_snd with hr | ⟨i, -, hr⟩ <;> rw [hr]

@[simp]
lemma inbox_reduceOne (s : Scan ω) : s.reduceOne.2.inbox = s.inbox := by
  rcases s.reduceOne_snd with hr | ⟨i, -, hr⟩ <;> rw [hr]

lemma sameSize_nextEpoch (s : Scan ω) : s.engine.SameSize s.nextEpoch.engine :=
  ⟨rfl, by simp [nextEpoch, Engine.nextEpoch], rfl, rfl⟩

lemma Move.sameSite (m : Move π (s, M) (s', M')) : s.SameSite s' := by
  cases m with
  | publish home done =>
    obtain ⟨ring, work, frame, slot, e, -, -, -, hclaim, rfl⟩ := publishOne?_cases done
    refine ⟨rfl, rfl, rfl, ?_, id, id⟩
    exact (Engine.sameSize_claim? hclaim).trans ((Engine.SameSize.modifyRing e ring _).trans
      (.modifyRing _ ring _))
  | reduce =>
    rcases s.reduceOne_snd with h | ⟨i, -, h⟩
    · rw [h]
      exact .refl s
    · rw [h]
      exact ⟨rfl, rfl, rfl, Engine.sameSize_reduceOldest _ i, id, id⟩
  | lease done =>
    obtain ⟨ring, slot, rest, r, -, -, -, -, -, rfl⟩ := next?_cases done
    exact ⟨rfl, rfl, rfl, Inbox.sameSize_leased .., id, id⟩
  | giveBack => exact ⟨rfl, rfl, rfl, Engine.sameSize_release _ _, id, id⟩
  | epoch | restart => exact ⟨rfl, rfl, rfl, s.sameSize_nextEpoch, id, id⟩
  | begin settled there leaves =>
    refine ⟨rfl, rfl, rfl, s.sameSize_nextEpoch, fun _ i hi => ?_, fun _ => ⟨_, rfl, rfl⟩⟩
    exact Option.some.inj hi
  | adjust id reducer ring work =>
    refine ⟨id, reducer, rfl, .refl _, fun h i hi => h i ?_, fun ⟨i, hd, hk⟩ => ⟨i, ?_, hk⟩⟩
    · exact ring ▸ hi
    · exact ring.trans hd
  | alike alike => exact ⟨rfl, rfl, rfl, alike.sameSize, id, id⟩

lemma Moves.sameSite {a b : Scan ω × List Lease} (m : Moves π a b) : a.1.SameSite b.1 := by
  induction m with
  | refl => exact .refl _
  | tail _ m ih => exact ih.trans (Move.sameSite m)

lemma Sound.employed' (h : s.Sound M C L F H) {e : Engine ω} (he : s.engine.SameSize e) :
    s.dispatcher.Employed e :=
  ⟨he.epochs ▸ h.employed.id_lt, h.employed.work_dispatcher,
    fun i hi => he.rings ▸ h.employed.ring_lt i hi⟩

lemma Sound.fed' (h : s.Sound M C L F H) {e : Engine ω} (he : s.engine.SameSize e) :
    s.inbox.Fed e F :=
  ⟨h.fed.flights, fun i hi => he.rings ▸ h.fed.ring_lt i hi, he.tallies ▸ h.fed.id_lt⟩

/-- A move keeps the engine sound, and leaves the flights to other inboxes alone. -/
lemma Move.sound (m : Move π (s, M) (s', M')) (h : s.Sound M C L F H) :
    ∃ F', s'.Sound M' C L F' H ∧
      F'.filter (·.inbox != s.inbox.id) = F.filter (·.inbox != s.inbox.id) := by
  have hsame := m.sameSite
  cases m with
  | publish home done =>
    obtain ⟨ring, work, frame, slot, e, hring, hwork, -, hclaim, rfl⟩ := publishOne?_cases done
    have hd := h.employed' hsame.size
    refine ⟨F ++ [⟨ring, slot, s.inbox.id⟩], ⟨?_, ⟨?_, ?_, ?_⟩,
      hd.id_lt, hd.work_dispatcher, hd.ring_lt⟩, ?_⟩
    · refine Engine.Sound.publish ?_ s.inbox.id
      have he : e.epoch = s.engine.epoch := Engine.epoch_claim? hclaim
      refine (h.engine.claim? hclaim).modifyTask fun t _ => ?_
      rw [he, ← h.employed.work_dispatcher work hwork]
      exact Task.dated_ask work _ _
    -- the flights of this inbox grow as it does, those to others not at all
    · have hhome : s.inbox.home = ring := home ring hring
      simp [List.filter_append, h.fed.flights, Inbox.flights, Inbox.push, Inbox.home]
      exact hhome.symm
    · exact (h.fed' hsame.size).ring_lt
    · exact (h.fed' hsame.size).id_lt
    · simp
  | reduce =>
    rcases s.reduceOne_snd with hr | ⟨i, -, hr⟩
    · rw [hr]
      exact ⟨F, h, rfl⟩
    · rw [hr] at hsame ⊢
      exact ⟨F, ⟨h.engine.reduceOldest i, h.fed' hsame.size, h.employed' hsame.size⟩, rfl⟩
  | lease done =>
    obtain ⟨k, e, hn, rfl⟩ := next?_of_scan done
    obtain ⟨F', he, hk, -, -, hF⟩ := h.fed.next? h.engine hn
    exact ⟨F', ⟨he, hk, h.employed' hsame.size⟩, hF⟩
  | giveBack =>
    exact ⟨F, ⟨h.engine.release, h.fed' hsame.size, h.employed' hsame.size⟩, rfl⟩
  | epoch => exact ⟨F, ⟨h.engine.nextEpoch _, h.fed' hsame.size, h.employed' hsame.size⟩, rfl⟩
  | begin settled there leaves =>
    have hd := h.employed' hsame.size
    refine ⟨F, ⟨h.engine.nextEpoch _, ⟨?_, ?_, (h.fed' hsame.size).id_lt⟩, ⟨hd.id_lt, ?_, ?_⟩⟩, rfl⟩
    · refine h.fed.flights.trans ?_
      simp [Inbox.flights, Inbox.subscribe, settled]
    · intro i hi
      exact Option.some.inj hi ▸ there
    · intro w hw
      exact Option.some.inj hw ▸ rfl
    · intro i hi
      exact Option.some.inj hi ▸ there
  | restart =>
    have hd := h.employed' hsame.size
    exact ⟨F, ⟨h.engine.nextEpoch _, h.fed' hsame.size, hd.id_lt, hd.work_dispatcher, hd.ring_lt⟩,
      rfl⟩
  | adjust id reducer ring work =>
    refine ⟨F, ⟨h.engine, h.fed, ⟨id ▸ h.employed.id_lt, fun w hw => ?_, fun i hi => ?_⟩⟩, rfl⟩
    · rcases work with hd | hd
      · exact (h.employed.work_dispatcher w (hd.work ▸ hw)).trans id.symm
      · rw [hd] at hw
        cases hw
    · exact h.employed.ring_lt i (ring ▸ hi)
  | alike alike =>
    exact ⟨F, ⟨h.engine.alike alike, h.fed' hsame.size, h.employed' hsame.size⟩, rfl⟩

lemma Moves.sound {a b : Scan ω × List Lease} (m : Moves π a b) (h : a.1.Sound a.2 C L F H) :
    ∃ F', b.1.Sound b.2 C L F' H ∧
      F'.filter (·.inbox != a.1.inbox.id) = F.filter (·.inbox != a.1.inbox.id) := by
  induction m with
  | refl => exact ⟨F, h, rfl⟩
  | tail m' m ih =>
    obtain ⟨F₁, h₁, hF₁⟩ := ih
    obtain ⟨F₂, h₂, hF₂⟩ := Move.sound m h₁
    rw [(Moves.sameSite m').inbox] at hF₂
    exact ⟨F₂, h₂, hF₂.trans hF₁⟩

/-- What every move of a sound scan keeps, any number of them keep. -/
lemma Moves.keeps {P : Scan ω → Prop} {a b : Scan ω × List Lease}
    (keeps : ∀ {s s' M M' F}, Move π (s, M) (s', M') → s.Sound M C L F H → P s → P s')
    (m : Moves π a b) (hs : a.1.Sound a.2 C L F H) (h : P a.1) : P b.1 := by
  induction m with
  | refl => exact h
  | tail m' m ih =>
    obtain ⟨F', hs', -⟩ := Moves.sound m' hs
    exact keeps m hs' ih

end Scan

end TableScan
