import TableScan.Proofs.Operations

/-!
# The steps of an engine

The smallest changes of an engine, each with what the code takes for granted when it makes it: a
slot that is claimed was free, a slot that is given back was leased, and there is room for it
among the free ones.  Steps are seen by somebody who has some places of their own and a
dispatcher of their own; these are left alone.  Main statement: every move of another scan is a
sequence of steps.
-/

namespace TableScan

variable {ω σ : Type}

/-- What others may make of a task: they change its results, or write a task of their own. -/
def Task.Foreign (id : Nat) (π : ω → σ) (t t' : Task ω) : Prop :=
  (∃ rows error, t' = { t with rows, error }) ∨
    ∃ w, t'.work = some w ∧ w.dispatcher ≠ id ∧ w.reducer.Leaves w.filter π

namespace Engine

/-- A step of others.  The places `mine` are not leased and not given back, the dispatcher `id`
writes nothing and begins no epoch, and of the world nothing that `π` shows is changed, except by
the tasks that are reduced. -/
inductive Step (id : Nat) (mine : Place → Prop) (π : ω → σ) : Engine ω → Engine ω → Prop
  | claim {e : Engine ω} {i k : Nat} {r : Ring ω} {rest : List Nat} (ring : e.rings[i]? = some r)
      (free : r.free = k :: rest) (stage : r.stage? k = some .free) :
      Step id mine π e (e.modifyRing i Ring.claim)
  | write {e : Engine ω} {i k : Nat} {r : Ring ω} {f : Task ω → Task ω}
      (ring : e.rings[i]? = some r) (stage : r.stage? k = some .claimed)
      (foreign : ∀ t : Task ω, t.Foreign id π (f t)) :
      Step id mine π e (e.modifyRing i (·.modifyTask k f))
  | publish {e : Engine ω} {i k : Nat} {r : Ring ω} (ring : e.rings[i]? = some r)
      (stage : r.stage? k = some .claimed) (room : r.pending.length < r.capacity) :
      Step id mine π e (e.publish i k)
  | drop {e : Engine ω} {i k : Nat} {r : Ring ω} (ring : e.rings[i]? = some r)
      (stage : r.stage? k = some .claimed) (room : r.free.length < r.capacity) :
      Step id mine π e (e.putBack i k)
  | reduce {e e' : Engine ω} {i k : Nat} {r : Ring ω} {rest : List Nat} {t : Task ω}
      {x : Option Fault} {w : ω} (ring : e.rings[i]? = some r) (pending : r.pending = k :: rest)
      (once : k ∉ rest) (stage : r.stage? k = some .published)
      (run : (r.task k).run e.epoch e.world = (t, x, w))
      (rings : e'.rings = (e.modifyRing i (·.reduceTo k rest t)).rings)
      (epochs : e'.epochs = e.epochs) (world : e'.world = w) : Step id mine π e e'
  | lease {e : Engine ω} {i k : Nat} {r : Ring ω} (ring : e.rings[i]? = some r)
      (stage : r.stage? k = some .reduced) (other : ¬ mine (i, k)) :
      Step id mine π e (e.modifyRing i (·.lease k))
  | edit {e : Engine ω} {i k : Nat} {r : Ring ω} {f : Task ω → Task ω}
      (ring : e.rings[i]? = some r) (stage : r.stage? k = some .leased)
      (foreign : ∀ t : Task ω, t.Foreign id π (f t)) (other : ¬ mine (i, k)) :
      Step id mine π e (e.modifyRing i (·.modifyTask k f))
  | giveBack {e : Engine ω} {i k : Nat} {r : Ring ω} (ring : e.rings[i]? = some r)
      (stage : r.stage? k = some .leased) (room : r.free.length < r.capacity)
      (other : ¬ mine (i, k)) : Step id mine π e (e.putBack i k)
  | epoch {e : Engine ω} {d : Nat} (other : d ≠ id) : Step id mine π e (e.nextEpoch d)
  /-- The engine grows, or does some bookkeeping. -/
  | quiet {e e' : Engine ω}
      (rings : ∃ new, e'.rings = e.rings ++ new ∧ ∀ r ∈ new, ∀ k, (r.task k).work = none)
      (epoch : e'.epoch = e.epoch) (world : π e'.world = π e.world) : Step id mine π e e'

/-- Any number of steps of others. -/
abbrev Steps (id : Nat) (mine : Place → Prop) (π : ω → σ) : Engine ω → Engine ω → Prop :=
  Relation.ReflTransGen (Step id mine π)

variable {e e' : Engine ω} {C L P H : List Place} {F : List Lease} {i k id : Nat} {l : Lease}
  {mine : Place → Prop} {π : ω → σ}

/-- A step that leaves the rings and the epochs as they are. -/
lemma step_still (hr : e'.rings = e.rings) (hp : e'.epoch = e.epoch)
    (hw : π e'.world = π e.world) : Step id mine π e e' :=
  .quiet ⟨#[], by simp [hr], by simp⟩ hp hw

lemma Alike.steps (h : e.Alike π e') : Steps id mine π e e' := by
  refine .single (step_still h.rings ?_ h.world)
  funext d
  simp [Engine.epoch, h.epochs]

/-! ## Steps of the engine's own operations -/

lemma step_claim? (h : e.Sound C L F H) (hc : e.claim? i = some (k, e')) :
    Step id mine π e e' := by
  obtain ⟨r, rest, hr, hf, rfl⟩ := claim?_cases hc
  refine .claim hr hf (((h.books.rings i r hr).free.2 k).1 ?_)
  rw [hf]
  exact List.mem_cons_self ..

/-- Claiming, writing and publishing a task. -/
lemma steps_publish (h : e.Sound C L F H) (hc : e.claim? i = some (k, e')) {t : Task ω}
    (ht : ∀ u : Task ω, u.Foreign id π t) :
    Steps id mine π e ((e'.modifyRing i (·.modifyTask k fun _ => t)).publish i k) := by
  have hs := h.claim? hc
  obtain ⟨r', hr', hk', -, hroom⟩ := hs.books.claimed (List.mem_cons_self ..)
  have hclaim : Step id mine π e e' := step_claim? h hc
  refine ((Relation.ReflTransGen.single hclaim).tail
    (.write hr' hk' fun t' => ht t')).tail (.publish (getElem?_modifyRing_self hr') ?_ ?_)
  · rw [Ring.stage?_modifyTask]
    exact hk'
  · rw [Ring.pending_modifyTask, Ring.capacity_modifyTask]
    exact hroom

lemma steps_reduceOldest (h : e.Books C L P) (i : Nat) :
    Steps id mine π e (e.reduceOldest i).2 := by
  rcases hred : e.reduceOldest i with ⟨b, e'⟩
  rcases h.reduceOldest_cases hred with
    ⟨-, rfl, -⟩ | ⟨-, r, k, rest, t, x, w, hr, hp, hrun, he, hw, hep, -⟩
  · exact .refl
  · have hpending := (h.rings i r hr).pending
    rw [hp] at hpending
    exact .single (.reduce hr hp (List.nodup_cons.1 hpending.1).1 hpending.head hrun he hep hw)

/-- Giving a lease back. -/
lemma steps_release (h : e.Books C L P) (hl : l.place ∈ L) (hm : ¬ mine l.place) :
    Steps id mine π e (e.release l) := by
  obtain ⟨r, hr, hk, hroom⟩ := h.leased hl
  have hs : Steps id mine π e (e.putBack l.ring l.slot) := .single (.giveBack hr hk hroom hm)
  exact hs.tail (step_still rfl rfl rfl)

end Engine

/-- The next slot of an inbox is neither leased by others nor in flight to others. -/
lemma Inbox.Fed.not_mine {k : Inbox} {e : Engine ω} {C L H : List Place} {F : List Lease}
    {mine : Place → Prop} (hk : k.Fed e F) (h : e.Books C L (F.map Lease.place ++ H))
    {ring slot : Nat} {rest : List Nat} (hring : k.ring = some ring)
    (hf : k.inFlight = slot :: rest)
    (hmine : ∀ p, mine p → p ∈ L ∨ ∃ l ∈ F, l.inbox ≠ k.id ∧ l.place = p) :
    ¬ mine (ring, slot) := by
  obtain ⟨F₁, F₂, rfl, -, -⟩ := hk.split hring hf
  intro hm
  have hperm := Engine.map_place_middle F₁ F₂ H ⟨ring, slot, k.id⟩
  rcases hmine _ hm with hL | ⟨l', hl', hne, hp⟩
  · exact h.not_flown hL (hperm.mem_iff.2 (List.mem_cons_self ..))
  · refine h.flown_nodup hperm (List.mem_append_left _ ?_)
    have hmem : l' ∈ F₁ ++ F₂ := by
      rcases List.mem_append.1 hl' with hl' | hl'
      · exact List.mem_append_left _ hl'
      · rcases List.mem_cons.1 hl' with rfl | hl'
        · exact absurd rfl hne
        · exact List.mem_append_right _ hl'
    exact List.mem_map.2 ⟨l', hmem, hp⟩

namespace Scan

variable {s s' : Scan ω} {M M' : List Lease} {C L H : List Place} {F F' : List Lease} {id : Nat}
  {mine : Place → Prop} {π : ω → σ}

/-! ## Steps of a scan -/

/-- A scan works apart from a dispatcher and from some places: these are leased by others or in
flight to others, and its own work leaves alone what `π` shows. -/
structure Apart (s : Scan ω) (L : List Place) (F : List Lease) (id : Nat) (mine : Place → Prop)
    (π : ω → σ) : Prop where
  id : s.dispatcher.id ≠ id
  leaves : ∀ w, s.dispatcher.work = some w → w.reducer.Leaves w.filter π
  mine : ∀ p, mine p → p ∈ L ∨ ∃ l ∈ F, l.inbox ≠ s.inbox.id ∧ l.place = p

namespace Apart

/-- A lease at hand is not one of the others'. -/
lemma not_mine_hand (h : s.Apart L F id mine π) (hs : s.Sound M C L F H) {l : Lease}
    (hl : l ∈ M) : ¬ mine l.place := by
  obtain ⟨M₁, M₂, rfl⟩ := List.append_of_mem hl
  intro hm
  have hperm : ((M₁ ++ l :: M₂).map Lease.place ++ L).Perm
      (l.place :: ((M₁ ++ M₂).map Lease.place ++ L)) := Engine.map_place_middle M₁ M₂ L l
  rcases h.mine _ hm with hL | ⟨l', hl', -, hp⟩
  · exact hs.engine.books.leased_nodup hperm (List.mem_append_right _ hL)
  · refine hs.engine.books.not_flown (hperm.mem_iff.2 (List.mem_cons_self ..)) ?_
    rw [← hp]
    exact List.mem_append_left _ (List.mem_map_of_mem hl')

lemma not_mine_next (h : s.Apart L F id mine π) (hs : s.Sound M C L F H) {l : Lease}
    (hn : s.next? = .ok (some (l, s'))) : ¬ mine l.place := by
  obtain ⟨ring, slot, rest, r, hring, hf, -, -, rfl, -⟩ := next?_cases hn
  refine hs.fed.not_mine hs.engine.books hring hf fun p hp => ?_
  rcases h.mine p hp with hL | hF
  · exact .inl (List.mem_append_right _ hL)
  · exact .inr hF

lemma congr (h : s.Apart L F id mine π) (hd : s'.dispatcher.id = s.dispatcher.id)
    (hw : ∀ w, s'.dispatcher.work = some w → w.reducer.Leaves w.filter π)
    (hk : s'.inbox.id = s.inbox.id)
    (hF : F'.filter (·.inbox != s.inbox.id) = F.filter (·.inbox != s.inbox.id)) :
    s'.Apart L F' id mine π := by
  refine ⟨hd ▸ h.id, hw, fun p hp => ?_⟩
  rcases h.mine p hp with hL | ⟨l, hl, hne, hlp⟩
  · exact .inl hL
  · have hl' : l ∈ F'.filter (·.inbox != s.inbox.id) := by
      rw [hF, List.mem_filter]
      exact ⟨hl, by simpa using hne⟩
    exact .inr ⟨l, (List.mem_filter.1 hl').1, hk ▸ hne, hlp⟩

end Apart

lemma Sound.steps_reduceOne (hs : s.Sound M C L F H) :
    Engine.Steps id mine π s.engine s.reduceOne.2.engine := by
  rcases s.reduceOne_snd with hr | ⟨i, -, hr⟩ <;> rw [hr]
  exact Engine.steps_reduceOldest hs.engine.books i

/-- Leasing what an inbox has next. -/
lemma steps_next? {l : Lease} (hn : s.next? = .ok (some (l, s'))) (hm : ¬ mine l.place) :
    Engine.Steps id mine π s.engine s'.engine := by
  obtain ⟨ring, slot, rest, r, -, -, hr, hk, rfl, rfl⟩ := next?_cases hn
  have hl : Engine.Steps id mine π s.engine (s.engine.modifyRing ring (·.lease slot)) :=
    .single (.lease hr hk hm)
  exact hl.tail (Engine.step_still rfl rfl rfl)

/-- The work of a dispatcher after a move is old, or leaves alone what `π` shows. -/
lemma Move.leaves (m : Move π (s, M) (s', M'))
    (h : ∀ w, s.dispatcher.work = some w → w.reducer.Leaves w.filter π) :
    ∀ w, s'.dispatcher.work = some w → w.reducer.Leaves w.filter π := by
  cases m with
  | publish home done =>
    obtain ⟨ring, work, frame, slot, e, -, -, -, -, rfl⟩ := publishOne?_cases done
    exact h
  | reduce =>
    rw [dispatcher_reduceOne]
    exact h
  | lease done =>
    rw [dispatcher_next? done]
    exact h
  | giveBack | epoch | restart | alike => exact h
  | begin settled there leaves =>
    intro w hw
    exact Option.some.inj hw ▸ leaves
  | adjust id reducer ring work =>
    intro w hw
    rcases work with hd | hd
    · exact h w (hd.work ▸ hw)
    · rw [hd] at hw
      cases hw

lemma Moves.leaves {a b : Scan ω × List Lease} (m : Moves π a b)
    (h : ∀ w, a.1.dispatcher.work = some w → w.reducer.Leaves w.filter π) :
    ∀ w, b.1.dispatcher.work = some w → w.reducer.Leaves w.filter π := by
  induction m with
  | refl => exact h
  | tail _ m ih => exact Move.leaves m ih

/-- A move of a scan is a sequence of steps, for those it works apart from. -/
lemma Move.steps (m : Move π (s, M) (s', M')) (hs : s.Sound M C L F H)
    (h : s.Apart L F id mine π) : Engine.Steps id mine π s.engine s'.engine := by
  cases m with
  | publish home done =>
    obtain ⟨ring, work, frame, slot, e, -, hwork, -, hclaim, rfl⟩ := publishOne?_cases done
    refine Engine.steps_publish hs.engine hclaim fun u => .inr ⟨work, rfl, ?_, h.leaves work hwork⟩
    rw [hs.employed.work_dispatcher work hwork]
    exact h.id
  | reduce => exact hs.steps_reduceOne
  | lease done => exact steps_next? done (h.not_mine_next hs done)
  | giveBack =>
    exact Engine.steps_release hs.engine.books (List.mem_cons_self ..)
      (h.not_mine_hand hs (List.mem_cons_self ..))
  | epoch | begin | restart => exact .single (.epoch h.id)
  | adjust => exact .refl
  | alike alike => exact alike.steps

lemma Moves.steps {a b : Scan ω × List Lease} (m : Moves π a b) (hs : a.1.Sound a.2 C L F H)
    (h : a.1.Apart L F id mine π) : Engine.Steps id mine π a.1.engine b.1.engine := by
  -- along the moves the scan stays sound, and apart
  suffices hind : ∃ F', b.1.Sound b.2 C L F' H ∧ b.1.Apart L F' id mine π ∧
      Engine.Steps id mine π a.1.engine b.1.engine by
    obtain ⟨-, -, -, hsteps⟩ := hind
    exact hsteps
  induction m with
  | refl => exact ⟨F, hs, h, .refl⟩
  | tail m' m ih =>
    obtain ⟨F₁, hs₁, h₁, hsteps⟩ := ih
    obtain ⟨F₂, hs₂, hF⟩ := Move.sound m hs₁
    have hsame := Move.sameSite m
    exact ⟨F₂, hs₂, h₁.congr hsame.dispatcher (Move.leaves m h₁.leaves) hsame.inbox hF,
      hsteps.trans (Move.steps m hs₁ h₁)⟩

end Scan

end TableScan
