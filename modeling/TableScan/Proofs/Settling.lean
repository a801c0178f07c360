import TableScan.Proofs.Flights

/-!
# Settling

A scan that stops settles: it collects what is in flight in the ring that its inbox listens to,
and reduces slots of the ring that its dispatcher publishes into.  These are two fields, set by
different executions.  Main statement: a scan settles exactly if they agree or nothing in flight
is left to reduce, and then all that was in flight is free again; else it stalls, and with it
every execution that is to replace the last one.
-/

namespace TableScan

variable {ω : Type}

namespace Engine

variable {e e' : Engine ω} {i j k m : Nat} {C L P : List Place}

/-! ## Stages after a step -/

/-- The stages after a slot of a ring has moved to another one. -/
lemma stage?_modifyRing {f : Ring ω → Ring ω} {t : Stage} (hk : e.stage? i k ≠ none)
    (hf : ∀ (r : Ring ω) (m : Nat), (f r).stage? m = (r.setStage k t).stage? m) :
    (e.modifyRing i f).stage? j m = if (j, m) = (i, k) then some t else e.stage? j m := by
  by_cases hj : j = i
  · subst hj
    cases hr : e.rings[j]? with
    | none => exact absurd (by simp [stage?, hr]) hk
    | some r =>
      rw [stage?_eq hr] at hk
      rw [stage?_eq (getElem?_modifyRing_self hr), stage?_eq hr, hf, Ring.stage?_setStage]
      by_cases hm : m = k
      · subst hm
        obtain ⟨u, hu⟩ := Option.ne_none_iff_exists'.1 hk
        simp [hu]
      · simp [hm]
  · simp [stage?, getElem?_modifyRing_ne hj, hj]

/-- A round of reduction leaves all stages alone, but for a published slot that is reduced. -/
lemma Books.stage?_reduceOldest (h : e.Books C L P) (i j k : Nat) :
    (e.reduceOldest i).2.stage? j k = e.stage? j k ∨
      j = i ∧ e.stage? j k = some .published ∧
        (e.reduceOldest i).2.stage? j k = some .reduced := by
  rcases hred : e.reduceOldest i with ⟨b, e'⟩
  rcases h.reduceOldest_cases hred with ⟨-, rfl, -⟩ | ⟨-, r, m, rest, t, -, -, hr, hp, -, he, -⟩
  · exact .inl rfl
  · have hm : e.stage? i m = some .published := by
      rw [stage?_eq hr]
      exact ((h.rings i r hr).pending.2 m).1 (hp ▸ List.mem_cons_self ..)
    have hs : e'.stage? j k = if (j, k) = (i, m) then some .reduced else e.stage? j k := by
      have hmod := stage?_modifyRing (j := j) (m := k) (t := .reduced)
        (f := (·.reduceTo m rest t)) (by simp [hm] : e.stage? i m ≠ none) fun r n => by
          rw [Ring.stage?_setStage]
          exact Ring.stage?_setStage.trans (by rw [Ring.stage?_modifyTask])
      rw [← hmod]
      simp only [stage?, he]
    rw [hs]
    split
    · rename_i hjk
      obtain ⟨rfl, rfl⟩ := Prod.mk.inj hjk
      exact .inr ⟨rfl, hm, rfl⟩
    · exact .inl rfl

end Engine

namespace Scan

variable {s s' : Scan ω} {l : Lease} {M : List Lease} {C L H : List Place} {F : List Lease}
  {i k slot : Nat}

/-! ## What can be settled -/

/-- All that is in flight was reduced and waits to be collected. -/
def Ripe (s : Scan ω) : Prop :=
  ∃ i, s.inbox.ring = some i ∧ ∀ slot ∈ s.inbox.inFlight, s.engine.stage? i slot = some .reduced

/-- What is in flight, if anything, lies in the ring of the dispatcher or is ripe. -/
def Settles (s : Scan ω) : Prop := s.inbox.inFlight = [] ∨ s.Moored ∨ s.Ripe

/-- Something is in flight, but there is nothing to collect and nothing to reduce. -/
structure Stuck (s : Scan ω) : Prop where
  inFlight : s.inbox.inFlight ≠ []
  next? : s.next? = .ok none
  reduceOne : s.reduceOne = (false, s)

/-- Nothing is in flight, and what was in flight before is free again. -/
structure Settled (s s' : Scan ω) : Prop where
  inFlight : s'.inbox.inFlight = []
  free : ∀ slot ∈ s.inbox.inFlight, ∃ r, s'.engine.rings[s.inbox.home]? = some r ∧ slot ∈ r.free

/-- The stages after the next slot was collected and given back. -/
lemma stage?_collect (hn : s.next? = .ok (some (l, s'))) :
    (s'.done l).engine.stage? i k = if (i, k) = l.place then some .free else s.engine.stage? i k := by
  obtain ⟨ring, slot, rest, r, -, -, hr, hs, rfl, rfl⟩ := next?_cases hn
  have hstage : s.engine.stage? ring slot ≠ none := by simp [Engine.stage?_eq hr, hs]
  have hlease : ∀ j m, (s.inbox.leased s.engine ring slot).stage? j m =
      if (j, m) = (ring, slot) then some .leased else s.engine.stage? j m :=
    fun j m => Engine.stage?_modifyRing hstage fun _ _ => rfl
  have hback : ((s.inbox.leased s.engine ring slot).putBack ring slot).stage? i k =
      if (i, k) = (ring, slot) then some .free else
        (s.inbox.leased s.engine ring slot).stage? i k := by
    refine Engine.stage?_modifyRing (by simp [hlease]) fun r m => ?_
    rw [Ring.stage?_setStage]
    exact Ring.stage?_setStage.trans (by rw [Ring.stage?_modifyTask])
  rw [Lease.place]
  refine hback.trans ?_
  rw [hlease]
  split <;> rfl

namespace Sound

lemma stage?_reduceOne (h : s.Sound M C L F H) (i k : Nat) :
    s.reduceOne.2.engine.stage? i k = s.engine.stage? i k ∨
      s.dispatcher.ring = some i ∧ s.engine.stage? i k = some .published ∧
        s.reduceOne.2.engine.stage? i k = some .reduced := by
  rcases s.reduceOne_snd with hr | ⟨j, hj, hr⟩
  · exact .inl (by rw [hr])
  · rw [hr]
    rcases h.engine.books.stage?_reduceOldest j i k with hs | ⟨rfl, hs⟩
    · exact .inl hs
    · exact .inr ⟨hj, hs⟩

/-- A round that finds nothing to reduce changes nothing. -/
lemma reduceOne_false (h : s.Sound M C L F H) (hr : s.reduceOne = (false, s')) : s' = s := by
  unfold Scan.reduceOne at hr
  split at hr
  · exact (Prod.mk.inj hr).2.symm
  · rename_i ring hring
    rcases hred : s.engine.reduceOldest ring with ⟨b, e⟩
    rw [hred] at hr
    obtain ⟨rfl, rfl⟩ := Prod.mk.inj hr
    rcases h.engine.books.reduceOldest_cases hred with ⟨-, rfl, -⟩ | ⟨hb, -⟩
    · rfl
    · cases hb

/-- A scan that cannot collect waits for a slot that is still published, or its inbox listens to
no ring. -/
lemma next?_eq_none (h : s.Sound M C L F H) (hn : ∀ p, s.next? ≠ .ok (some p)) :
    s.next? = .ok none ∧ ∀ i slot rest, s.inbox.ring = some i → s.inbox.inFlight = slot :: rest →
      s.engine.stage? i slot = some .published := by
  cases hk : s.inbox.ring with
  | none => exact ⟨by simp [next?, Inbox.next?, Inbox.ready?, hk], nofun⟩
  | some ring =>
    rcases h.next?_or_pending hk with ⟨l, s', hn'⟩ | ⟨hn', hp⟩
    · exact absurd hn' (hn (l, s'))
    · refine ⟨hn', fun i slot rest hi hf => ?_⟩
      obtain rfl := Option.some.inj hi
      obtain ⟨r, hr⟩ := Engine.exists_ring (h.fed.ring_lt ring hk)
      have hm := hp slot rest hf
      rw [Engine.pendingIn_some hr] at hm
      rw [Engine.stage?_eq hr]
      exact ((h.engine.books.rings ring r hr).pending.2 slot).1 hm

/-! ## One step of settling -/

lemma not_ripe (h : s.Sound M C L F H) (hf : s.inbox.inFlight ≠ [])
    (hn : s.next? = .ok none) : ¬ s.Ripe := by
  rintro ⟨i, hi, hr⟩
  obtain ⟨slot, rest, hs⟩ := List.exists_cons_of_ne_nil hf
  have hp := (h.next?_eq_none (by simp [hn])).2 i slot rest hi hs
  rw [hr slot (hs ▸ List.mem_cons_self ..)] at hp
  cases hp

/-- Collecting a slot does not change whether the scan settles. -/
lemma settles_collect (h : s.Sound M C L F H) (hn : s.next? = .ok (some (l, s'))) :
    (s'.done l).Settles ↔ s.Settles := by
  have m : Moves (fun _ : ω => ()) (s, M) (s'.done l, M) :=
    (Relation.ReflTransGen.single (.lease hn)).tail .giveBack
  obtain ⟨F', h', -⟩ := Moves.sound m h
  have hstage : ∀ i k, (s'.done l).engine.stage? i k =
      if (i, k) = l.place then some .free else s.engine.stage? i k :=
    fun i k => stage?_collect hn
  obtain ⟨ring, slot, rest, r, hring, hf, hr, hs, hl, hs'⟩ := next?_cases hn
  have hdispatcher : (s'.done l).dispatcher = s.dispatcher := by rw [hs']; rfl
  have hinbox : (s'.done l).inbox = { s.inbox with inFlight := rest } := by rw [hs']; rfl
  have hslot : s.engine.stage? ring slot = some .reduced := by rw [Engine.stage?_eq hr, hs]
  -- what is still in flight is not free, so that it lies in other slots
  have hrest : ∀ k ∈ rest, (s'.done l).engine.stage? ring k = s.engine.stage? ring k := by
    intro k hk
    have hmem : k ∈ (s'.done l).inbox.inFlight := by
      rw [hinbox]
      exact hk
    have hfl := h'.isFlown hmem
    have hhome : (s'.done l).inbox.home = ring := by
      rw [hinbox]
      simp [Inbox.home, hring]
    rw [hhome, Engine.Flown, hstage] at hfl
    rw [hstage]
    split
    · rename_i he
      simp [he] at hfl
    · rfl
  have hripe : (s'.done l).Ripe ↔ s.Ripe := by
    simp only [Ripe, hinbox, hring, hf, Option.some.injEq, exists_eq_left', List.mem_cons,
      forall_eq_or_imp, hslot, true_and]
    exact forall₂_congr fun k hk => by rw [hrest k hk]
  have hmoored : (s'.done l).Moored ↔ s.Moored := by
    rw [Moored, Moored, hdispatcher, hinbox]
  rw [Settles, Settles, hripe, hmoored, hinbox]
  constructor
  · rintro (rfl | hs)
    · refine .inr (.inr ⟨ring, hring, fun k hk => ?_⟩)
      rw [hf, List.mem_singleton] at hk
      rw [hk, hslot]
    · exact .inr hs
  · rintro (hs | hs)
    · rw [hf] at hs
      cases hs
    · exact .inr hs

/-- Nor does a round of reduction while the next slot is not ready. -/
lemma settles_reduceOne (h : s.Sound M C L F H) (hf : s.inbox.inFlight ≠ [])
    (hn : s.next? = .ok none) : s.reduceOne.2.Settles ↔ s.Settles := by
  have hmoored : s.reduceOne.2.Moored ↔ s.Moored := by
    rw [Moored, Moored, dispatcher_reduceOne, inbox_reduceOne]
  have hripe : s.reduceOne.2.Ripe → s.Moored := by
    rintro ⟨i, hi, hr⟩
    rw [inbox_reduceOne] at hi hr
    obtain ⟨slot, rest, hs⟩ := List.exists_cons_of_ne_nil hf
    have hp := (h.next?_eq_none (by simp [hn])).2 i slot rest hi hs
    -- the first slot in flight was reduced in this very round
    have hred := hr slot (hs ▸ List.mem_cons_self ..)
    rcases h.stage?_reduceOne i slot with he | ⟨hd, -, -⟩
    · rw [he, hp] at hred
      cases hred
    · exact ⟨i, hd, hi⟩
  rw [Settles, Settles, inbox_reduceOne, hmoored]
  constructor
  · rintro (hs | hs | hs)
    · exact .inl hs
    · exact .inr (.inl hs)
    · exact .inr (.inl (hripe hs))
  · rintro (hs | hs | hs)
    · exact .inl hs
    · exact .inr (.inl hs)
    · exact absurd hs (h.not_ripe hf hn)

/-- A scan with nothing to collect and nothing to reduce does not settle. -/
lemma not_settles (h : s.Sound M C L F H) (hf : s.inbox.inFlight ≠ [])
    (hn : s.next? = .ok none) (hr : s.reduceOne.1 = false) : ¬ s.Settles := by
  rintro (hs | ⟨i, hd, hi⟩ | hs)
  · exact hf hs
  · obtain ⟨slot, rest, hsl⟩ := List.exists_cons_of_ne_nil hf
    have hp := (h.next?_eq_none (by simp [hn])).2 i slot rest hi hsl
    obtain ⟨r, hring⟩ := Engine.exists_ring (h.fed.ring_lt i hi)
    rw [Engine.stage?_eq hring] at hp
    have hm := ((h.engine.books.rings i r hring).pending.2 slot).2 hp
    have ht := (h.reduceOne_fst hd).2 (by
      rw [Engine.pendingIn_some hring]
      exact List.ne_nil_of_mem hm)
    rw [hr] at ht
    cases ht
  · exact h.not_ripe hf hn hs

lemma stage?_free_reduceOne (h : s.Sound M C L F H) (hk : s.engine.stage? i k = some .free) :
    s.reduceOne.2.engine.stage? i k = some .free := by
  rcases h.stage?_reduceOne i k with hs | ⟨-, hs, -⟩
  · rw [hs, hk]
  · rw [hk] at hs
    cases hs

/-! ## Settling -/

/-- A scan that can settle does, and any other gets stuck. -/
lemma settle_cases (h : s.Sound M C L F H) :
    (s.Settles → s.settle.1 = .ok ()) ∧
      (¬ s.Settles → ∃ s', s.settle = (.error .stalled, s') ∧ s'.Stuck) := by
  fun_induction settle s generalizing F with
  | case1 s hf => exact ⟨fun _ => rfl, fun hs => absurd (.inl hf) hs⟩
  | case2 s hf fault hn =>
    have hn' := (h.next?_eq_none (by simp [hn])).1
    rw [hn] at hn'
    cases hn'
  | case3 s hf l s' hn ih =>
    have m : Moves (fun _ : ω => ()) (s, M) (s'.done l, M) :=
      (Relation.ReflTransGen.single (.lease hn)).tail .giveBack
    obtain ⟨F', h', -⟩ := Moves.sound m h
    rw [← h.settles_collect hn]
    exact ih h'
  | case4 s hf hn s' hr ih =>
    have m : Moves (fun _ : ω => ()) (s, M) (s', M) := moves_reduceOne hr
    obtain ⟨F', h', -⟩ := Moves.sound m h
    have hs := h.settles_reduceOne hf hn
    rw [hr] at hs
    rw [← hs]
    exact ih h'
  | case5 s hf hn s' hr =>
    refine ⟨fun hs => absurd hs (h.not_settles hf hn (by rw [hr])), fun _ => ⟨s', rfl, ?_⟩⟩
    obtain rfl : s' = s := h.reduceOne_false hr
    exact ⟨hf, hn, hr⟩

/-- What is free stays free while a scan settles, and what was in flight comes to be. -/
lemma free_settle (h : s.Sound M C L F H) (hs : s.settle = (.ok (), s'))
    (hk : s.engine.stage? i k = some .free ∨ s.inbox.home = i ∧ k ∈ s.inbox.inFlight) :
    s'.engine.stage? i k = some .free := by
  fun_induction settle s generalizing F with
  | case1 s hf =>
    obtain ⟨-, rfl⟩ := Prod.mk.inj hs
    simpa [hf] using hk
  | case3 s hf l s₁ hn ih =>
    have m : Moves (fun _ : ω => ()) (s, M) (s₁.done l, M) :=
      (Relation.ReflTransGen.single (.lease hn)).tail .giveBack
    obtain ⟨F', h', -⟩ := Moves.sound m h
    refine ih h' hs ?_
    rw [stage?_collect hn]
    obtain ⟨ring, slot, rest, r, hring, hfl, -, -, rfl, rfl⟩ := next?_cases hn
    rcases hk with hk | ⟨rfl, hk⟩
    · left
      split <;> simp [hk]
    · rw [hfl, List.mem_cons] at hk
      rcases hk with rfl | hk
      · left
        simp [Lease.place, Inbox.home, hring]
      · exact .inr ⟨rfl, hk⟩
  | case4 s hf hn s₁ hr ih =>
    have m : Moves (fun _ : ω => ()) (s, M) (s₁, M) := moves_reduceOne hr
    obtain ⟨F', h', -⟩ := Moves.sound m h
    obtain rfl : s.reduceOne.2 = s₁ := by rw [hr]
    refine ih h' hs ?_
    rw [inbox_reduceOne]
    exact hk.imp_left h.stage?_free_reduceOne
  | case2 | case5 => cases hs

lemma sound_settle (h : s.Sound M C L F H) : ∃ F', s.settle.2.Sound M C L F' H := by
  have m : Moves (fun _ : ω => ()) (s, M) (s.settle.2, M) := moves_settle
  obtain ⟨F', h', -⟩ := Moves.sound m h
  exact ⟨F', h'⟩

/-- A scan that can settle is settled in the end. -/
lemma settled (h : s.Sound M C L F H) (hs : s.Settles) :
    ∃ s', s.settle = (.ok (), s') ∧ s.Settled s' := by
  obtain ⟨F', h'⟩ := h.sound_settle
  rcases he : s.settle with ⟨r, s'⟩
  obtain rfl : r = .ok () := by
    have hok := h.settle_cases.1 hs
    rwa [he] at hok
  rw [he] at h'
  refine ⟨s', rfl, inFlight_settle he, fun slot hslot => ?_⟩
  have hfree := h.free_settle he (.inr ⟨rfl, hslot⟩)
  cases hr : s'.engine.rings[s.inbox.home]? with
  | none => simp [Engine.stage?, hr] at hfree
  | some r =>
    rw [Engine.stage?_eq hr] at hfree
    exact ⟨r, rfl, ((h'.engine.books.rings _ r hr).free.2 slot).2 hfree⟩

/-! ## Draining -/

/-- Draining settles, whatever is still to publish. -/
lemma drain (h : s.Sound M C L F H) :
    (s.Settles → ∃ s', s.drain = (.ok (), s') ∧ s.Settled s') ∧
      (¬ s.Settles → ∃ s', s.drain = (.error .stalled, s') ∧ s'.Stuck) := by
  have m : Move (fun _ : ω => ()) (s, M) _ :=
    .adjust (d := { s.dispatcher with position := s.dispatcher.frameCount }) rfl rfl rfl
      (.inl ⟨rfl, rfl, rfl, rfl, .inr rfl⟩)
  obtain ⟨F', h', -⟩ := m.sound h
  constructor
  · intro hs
    obtain ⟨s', hs', hf⟩ := h'.settled hs
    exact ⟨s', hs', hf.inFlight, hf.free⟩
  · exact h'.settle_cases.2

/-- An execution that is about to be replaced is drained if anything of it is in flight. -/
lemma replace (h : s.Sound M C L F H) :
    (s.Settles → ∃ s', s.replace = (.ok (), s') ∧ s.Settled s') ∧
      (¬ s.Settles → ∃ s', s.replace = (.error .stalled, s') ∧ s'.Stuck) := by
  unfold Scan.replace
  split
  · rename_i hf
    exact ⟨fun _ => ⟨s, rfl, hf, by simp [hf]⟩, fun hs => absurd (.inl hf) hs⟩
  · have m : Moves (fun _ : ω => ()) (s, M) _ :=
      moves_note (.restarted s.dispatcher.id s.inbox.inFlight.length)
    obtain ⟨F', h', -⟩ := Moves.sound m h
    refine ⟨fun hs => ?_, h'.drain.2⟩
    obtain ⟨s', hs', hf⟩ := h'.drain.1 hs
    exact ⟨s', hs', hf.inFlight, hf.free⟩

end Sound

/-- An execution goes on from what its predecessor left once that is settled. -/
lemma dispatch_of_replace (hs : s.replace = (.ok (), s')) (hf : s'.inbox.inFlight = [])
    (source : Source ω) (hub : Nat) (filter : Filter ω) :
    s.dispatch source hub filter = s'.dispatch source hub filter := by
  have hs' : s'.replace = (.ok (), s') := by
    unfold replace
    rw [if_pos hf]
  simp only [dispatch, hs, hs']

lemma dispatch_of_replace_error {stop : Stop} (hs : s.replace = (.error stop, s'))
    (source : Source ω) (hub : Nat) (filter : Filter ω) :
    s.dispatch source hub filter = (.error stop, s') := by
  simp only [dispatch, hs]

end Scan

namespace Workshop

open Scan

variable {W : Workshop ω} {H : List Place} {site : Site} {s : Scan ω}

/-- What is done until the dispatcher of the second ring is handed the inbox of the first one,
with a slot in flight there. -/
def handover : List (Deed Unit) :=
  [.addPlan "f" (plainSource [1]) keepAll, .addPlan "g" (plainSource []) keepAll, .addInbox "k",
    .addInbox "l", .execute "f" "k" 0, .execute "g" "l" 0]

lemma reached_handover : ∃ H, (handover.foldl after paired).Reached H := by
  have hrun : Run Permits paired handover (handover.foldl after paired) := by
    refine .cons ?_ (.cons ?_ (.cons ?_ (.cons ?_ (.cons ?_ (.cons ?_ .nil)))))
    iterate 4 exact fun _ _ hc => nomatch hc
    · exact ⟨⟨free_of_sites (s := .ofPlan "g") (by decide +kernel) (by decide), "k", rfl,
        freeInbox_of_sites (s := .ofPlan "g") (by decide +kernel) nofun⟩, by decide +kernel⟩
    · exact ⟨⟨free_of_sites (s := .ofPlan "f") (by decide +kernel) (by decide), "l", rfl,
        freeInbox_of_sites (s := .ofPlan "f") (by decide +kernel) nofun⟩, by decide +kernel⟩
  exact hrun.reached (fun _ _ h => h) reached_paired

/-- In every workshop that can be reached, a dispatcher settles what is in flight to an inbox
exactly if that lies in the ring of the dispatcher or was reduced already.  It is all free then,
and an execution goes on from there.  Else the dispatcher gets stuck, and so does every
execution for this inbox. -/
theorem settles_or_stalls (h : W.Reached H) (hs : W.scan? site = some s) :
    (s.Settles →
      (∃ s', s.drain = (.ok (), s') ∧ s.Settled s') ∧
        ∃ s', s.replace = (.ok (), s') ∧ s.Settled s' ∧ ∀ source hub filter,
          s.dispatch source hub filter = s'.dispatch source hub filter) ∧
      (¬ s.Settles →
        (∃ s', s.drain = (.error .stalled, s') ∧ s'.Stuck) ∧
          ∃ s', s'.Stuck ∧ ∀ source hub filter,
            s.dispatch source hub filter = (.error .stalled, s')) := by
  obtain ⟨F, hW⟩ := h.sound
  have hsound : s.Sound [] W.claimed W.leased F H := hW.scan hs (.refl _)
  constructor
  · intro hset
    obtain ⟨s', hr, hf⟩ := hsound.replace.1 hset
    exact ⟨hsound.drain.1 hset, s', hr, hf, dispatch_of_replace hr hf.inFlight⟩
  · intro hset
    obtain ⟨s', hr, hf⟩ := hsound.replace.2 hset
    exact ⟨hsound.drain.2 hset, s', hf, dispatch_of_replace_error hr⟩

/-- The dispatcher of the second ring cannot settle the slot in the first one. -/
theorem stalls_handover : ∃ s H, (handover.foldl after paired).Reached H ∧
    (handover.foldl after paired).scan? ⟨.plan "g", .own "k"⟩ = some s ∧
      s.inbox.inFlight = [0] ∧ ¬ s.Settles ∧ ∃ s', s'.Stuck ∧ ∀ source hub filter,
        s.dispatch source hub filter = (.error .stalled, s') := by
  obtain ⟨H, h⟩ := reached_handover
  have hat : ((handover.foldl after paired).scan? ⟨.plan "g", .own "k"⟩).map (fun s =>
      (s.inbox.inFlight, s.dispatcher.ring, s.inbox.ring, s.engine.stage? 0 0)) =
        some ([0], some 1, some 0, some .published) := by decide +kernel
  obtain ⟨s, hs, hat⟩ := Option.map_eq_some_iff.1 hat
  simp only [Prod.mk.injEq] at hat
  obtain ⟨hf, hd, hi, hstage⟩ := hat
  have hset : ¬ s.Settles := by
    rintro (hn | ⟨i, hd', hi'⟩ | ⟨i, hi', hr⟩)
    · rw [hf] at hn
      cases hn
    · obtain rfl := Option.some.inj (hd.symm.trans hd')
      rw [hi] at hi'
      cases hi'
    · obtain rfl := Option.some.inj (hi.symm.trans hi')
      have hred := hr 0 (by simp [hf])
      rw [hstage] at hred
      cases hred
  exact ⟨s, H, h, hs, hf, hset, ((settles_or_stalls h hs).2 hset).2⟩

end Workshop

end TableScan
