import Mathlib.Logic.Function.Basic
import TableScan.Proofs.Operations
import TableScan.Workshop

/-!
# The floor of a workshop

An engine with all the dispatchers and inboxes that work on it, seen apart from the names that
they are kept under in the workshop.  The floor is in order if the engine is sound, the flights
are those of the inboxes, and no two dispatchers and no two inboxes share a number.  Main
statement: the moves of any scan, and all that is done to slots by hand, keep it in order.
-/

namespace TableScan

variable {ω σ : Type}

namespace Engine

variable {e e' : Engine ω} {C L H : List Place} {F : List Lease} {i : Nat}

/-! ## Engines that grow -/

lemma slotsOn_eq_nil {l : List Place} (h : ∀ p ∈ l, p.1 ≠ i) : slotsOn i l = [] := by
  simp only [slotsOn, List.map_eq_nil_iff, List.filter_eq_nil_iff, beq_iff_eq]
  exact h

lemma addRing?_eq {shard capacity n : Nat} (ha : e.addRing? shard capacity = .ok (n, e')) :
    ∃ m, e' = { e with rings := e.rings.push (Ring.ofCapacity shard m) } := by
  unfold addRing? Ring.make? at ha
  cases hp : powerOfTwo? (max 1 capacity) with
  | error fault =>
    rw [hp] at ha
    cases ha
  | ok m =>
    rw [hp] at ha
    obtain ⟨-, rfl⟩ := Prod.mk.inj (Except.ok.inj ha)
    exact ⟨m, rfl⟩

lemma addHub?_eq {settings : Settings} {n : Nat} (ha : e.addHub? settings = .ok (n, e')) :
    ∃ m, e' = { e with
      rings := e.rings ++ (Array.range settings.shards).map (Ring.ofCapacity · m)
      hubs := e.hubs.push
        { firstRing := e.rings.size
          shards := settings.shards
          patience := settings.standingTime } } := by
  unfold addHub? at ha
  cases hp : settings.capacity? with
  | error fault =>
    rw [hp] at ha
    cases ha
  | ok m =>
    rw [hp] at ha
    obtain ⟨-, rfl⟩ := Prod.mk.inj (Except.ok.inj ha)
    exact ⟨m, rfl⟩

/-- A new dispatcher begins with epoch zero, which is what any number without a dispatcher has. -/
lemma epoch_addDispatcher (e : Engine ω) : e.addDispatcher.2.epoch = e.epoch := by
  funext d
  simp only [epoch, Engine.addDispatcher, Array.getElem?_push]
  by_cases hd : d = e.epochs.size <;> simp [hd]

namespace Sound

/-- New rings come with all their slots free, and a new hub with its rings. -/
lemma addRings (h : e.Sound C L F H) {rings : Array (Ring ω)}
    (hr : ∀ r ∈ rings, ∃ shard n, r = Ring.ofCapacity shard n)
    (he : e'.rings = e.rings ++ rings) (hp : e'.epochs = e.epochs)
    (hh : ∀ hub ∈ e'.hubs, hub ∈ e.hubs ∨
      0 < hub.shards ∧ hub.firstRing + hub.shards ≤ e'.rings.size) :
    e'.Sound C L F H := by
  have hsize : e.rings.size ≤ e'.rings.size := by
    rw [he, Array.size_append]
    omega
  have hnew : ∀ (i : Nat) (r : Ring ω), e'.rings[i]? = some r →
      e.rings[i]? = some r ∨ e.rings.size ≤ i ∧ ∃ shard n, r = Ring.ofCapacity shard n := by
    intro i r hi
    rw [he, Array.getElem?_append] at hi
    split at hi
    · exact .inl hi
    · exact .inr ⟨by omega, hr r (Array.mem_of_getElem? hi)⟩
  refine ⟨⟨fun i r hi => ?_, fun p hp => ?_⟩, fun i k => ?_, fun hub hm => ?_⟩
  · rcases hnew i r hi with hi | ⟨hle, shard, n, rfl⟩
    · exact h.books.rings i r hi
    · -- nobody holds a slot of a ring that was not there
      have hno : ∀ l : List Place, (∀ p ∈ l, p.1 < e.rings.size) → slotsOn i l = [] :=
        fun l hl => slotsOn_eq_nil fun p hp hpi => by have := hl p hp; omega
      have hthere := h.books.there
      rw [hno C fun p hp => hthere p (List.mem_append_left _ hp),
        hno L fun p hp => hthere p (List.mem_append_right _ (List.mem_append_left _ hp)),
        hno _ fun p hp => hthere p (List.mem_append_right _ (List.mem_append_right _ hp))]
      exact Ring.Accounts.ofCapacity shard n
  · exact Nat.lt_of_lt_of_le (h.books.there p hp) hsize
  · have hepoch : e'.epoch = e.epoch := by
      funext d
      simp [epoch, hp]
    rw [hepoch]
    cases hi : e'.rings[i]? with
    | none =>
      simp only [task, hi]
      exact Task.dated_default
    | some r =>
      rw [task_eq hi]
      rcases hnew i r hi with hi | ⟨-, shard, n, rfl⟩
      · rw [← task_eq hi]
        exact h.dated i k
      · rw [Ring.task_ofCapacity]
        exact Task.dated_default
  · rcases hh hub hm with hm | hm
    · have := h.hubs hub hm
      omega
    · exact hm

lemma addRing (h : e.Sound C L F H) {shard capacity n : Nat}
    (ha : e.addRing? shard capacity = .ok (n, e')) : e'.Sound C L F H := by
  obtain ⟨m, rfl⟩ := addRing?_eq ha
  have hr : ∀ r ∈ #[Ring.ofCapacity shard m], ∃ shard n, r = (Ring.ofCapacity shard n : Ring ω) :=
    fun r hr => ⟨shard, m, Array.mem_singleton.1 hr⟩
  exact h.addRings hr Array.push_eq_append rfl fun hub hm => .inl hm

lemma addHub (h : e.Sound C L F H) {settings : Settings} {n : Nat}
    (ha : e.addHub? settings = .ok (n, e')) : e'.Sound C L F H := by
  obtain ⟨m, rfl⟩ := addHub?_eq ha
  refine h.addRings (fun r hr => ?_) rfl rfl fun hub hm => ?_
  · obtain ⟨shard, -, rfl⟩ := Array.mem_map.1 hr
    exact ⟨shard, m, rfl⟩
  · rcases Array.mem_push.1 hm with hm | rfl
    · exact .inl hm
    · refine .inr ⟨Nat.lt_of_lt_of_le Nat.one_pos (Nat.le_max_left ..), ?_⟩
      simp

lemma addDispatcher (h : e.Sound C L F H) : e.addDispatcher.2.Sound C L F H := by
  refine ⟨h.books.congr rfl, fun i k => ?_, h.hubs⟩
  rw [epoch_addDispatcher]
  exact h.dated i k

lemma addInbox (h : e.Sound C L F H) : e.addInbox.2.Sound C L F H := h.congr rfl rfl rfl

/-- A world with no hub yet. -/
lemma ofWorld (w : ω) : ({ world := w } : Engine ω).Sound [] [] [] [] :=
  ⟨⟨fun i r hi => by simp at hi, by simp⟩, fun i k => Task.dated_default, by simp⟩

end Sound

end Engine

/-! ## Floors -/

/-- All that works on an engine, by owner: the places claimed and leased by hand or by cursors,
the flights of the inboxes, and the strays. -/
structure Floor (e : Engine ω) (D : Owner → Option (Dispatcher ω)) (K : Owner → Option Inbox)
    (C L : List Place) (F : List Lease) (H : List Place) : Prop where
  engine : e.Sound C L F H
  employed : ∀ o d, D o = some d → d.Employed e
  fed : ∀ o k, K o = some k → k.Fed e F
  dispatchers : ∀ o o' d d', D o = some d → D o' = some d' → d.id = d'.id → o = o'
  inboxes : ∀ o o' k k', K o = some k → K o' = some k' → k.id = k'.id → o = o'
  /-- Every flight goes to an inbox that is there. -/
  bound : ∀ l ∈ F, ∃ o k, K o = some k ∧ k.id = l.inbox

namespace Floor

variable {e e' : Engine ω} {D : Owner → Option (Dispatcher ω)} {K : Owner → Option Inbox}
  {C C' L L' H H' : List Place} {F F' : List Lease} {o o' : Owner} {d : Dispatcher ω} {k : Inbox}
  {π : ω → σ} {M M' : List Lease} {s : Scan ω}

lemma perm (h : Floor e D K C L F H) (hC : C.Perm C') (hL : L.Perm L') (hH : H.Perm H') :
    Floor e D K C' L' F H' :=
  ⟨h.engine.perm hC hL hH, h.employed, h.fed, h.dispatchers, h.inboxes, h.bound⟩

/-- What happens to the engine by hand. -/
lemma ofEngine (h : Floor e D K C L F H) (he : e'.Sound C' L' F H')
    (hr : e.rings.size ≤ e'.rings.size) (hp : e.epochs.size ≤ e'.epochs.size)
    (ht : e.tallies.size ≤ e'.tallies.size) : Floor e' D K C' L' F H' := by
  refine ⟨he, fun o d hd => ?_, fun o k hk => ?_, h.dispatchers, h.inboxes, h.bound⟩
  · have hd' := h.employed o d hd
    exact ⟨Nat.lt_of_lt_of_le hd'.id_lt hp, hd'.work_dispatcher,
      fun i hi => Nat.lt_of_lt_of_le (hd'.ring_lt i hi) hr⟩
  · have hk' := h.fed o k hk
    exact ⟨hk'.flights, fun i hi => Nat.lt_of_lt_of_le (hk'.ring_lt i hi) hr,
      Nat.lt_of_lt_of_le hk'.id_lt ht⟩

lemma ofSameSize (h : Floor e D K C L F H) (he : e'.Sound C' L' F H') (hs : e.SameSize e') :
    Floor e' D K C' L' F H' :=
  h.ofEngine he (Nat.le_of_eq hs.rings.symm) (Nat.le_of_eq hs.epochs.symm)
    (Nat.le_of_eq hs.tallies.symm)

lemma scan (h : Floor e D K C (M.map Lease.place ++ L) F H) (hd : D o = some d)
    (hk : K o' = some k) : Scan.Sound ⟨d, k, e⟩ M C L F H :=
  ⟨h.engine, h.fed o' k hk, h.employed o d hd⟩

/-- The flights to one inbox are not touched by what happens to another. -/
lemma filter_flights {a b : Nat} (hab : a ≠ b)
    (hF : F'.filter (·.inbox != b) = F.filter (·.inbox != b)) :
    F'.filter (·.inbox == a) = F.filter (·.inbox == a) := by
  have hsub : ∀ G : List Lease, G.filter (·.inbox == a) =
      (G.filter (·.inbox != b)).filter (·.inbox == a) := by
    intro G
    rw [List.filter_filter]
    refine List.filter_congr fun l _ => ?_
    by_cases hl : l.inbox = a
    · simp [hl, hab]
    · simp [hl]
  rw [hsub F', hF, ← hsub F]

/-- One owner's part makes way for another, whose number no other owner has. -/
lemma numbers_update {α : Type} {num : α → Nat} {f : Owner → Option α} {x : α}
    (h : ∀ p q a b, f p = some a → f q = some b → num a = num b → p = q)
    (hx : ∀ p a, p ≠ o → f p = some a → num a ≠ num x) (p q : Owner) (a b : α)
    (ha : Function.update f o (some x) p = some a) (hb : Function.update f o (some x) q = some b)
    (hab : num a = num b) : p = q := by
  rw [Function.update_apply] at ha hb
  split at ha <;> split at hb
  · rename_i hp hq
    rw [hp, hq]
  · rename_i hq
    obtain rfl := Option.some.inj ha
    exact absurd hab.symm (hx q b hq hb)
  · rename_i hp _
    obtain rfl := Option.some.inj hb
    exact absurd hab (hx p a hp ha)
  · exact h p q a b ha hb hab

/-- An inbox goes on, and dispatchers may go on with it. -/
lemma change (h : Floor e D K C L F H) {D' : Owner → Option (Dispatcher ω)} {k' : Inbox}
    (he : e'.Sound C' L' F' H') (hs : e.SameSize e')
    (hD : ∀ p a', D' p = some a' → a'.Employed e' ∧ ∃ a, D p = some a ∧ a.id = a'.id)
    (hk : K o = some k) (hk' : k'.Fed e' F') (hid : k'.id = k.id)
    (hF : F'.filter (·.inbox != k.id) = F.filter (·.inbox != k.id)) :
    Floor e' D' (Function.update K o (some k')) C' L' F' H' := by
  refine ⟨he, fun p a ha => (hD p a ha).1, fun p a ha => ?_, fun p q a b ha hb hab => ?_,
    numbers_update h.inboxes fun p a hp ha hak => ?_, fun l hl => ?_⟩
  · rw [Function.update_apply] at ha
    split at ha
    · exact Option.some.inj ha ▸ hk'
    · rename_i hne
      have ha' := h.fed p a ha
      have hak : a.id ≠ k.id := fun hak => hne (h.inboxes p o a k ha hk hak)
      exact ⟨(filter_flights hak hF).trans ha'.flights,
        fun i hi => hs.rings ▸ ha'.ring_lt i hi, hs.tallies ▸ ha'.id_lt⟩
  · obtain ⟨-, a', ha', haid⟩ := hD p a ha
    obtain ⟨-, b', hb', hbid⟩ := hD q b hb
    exact h.dispatchers p q a' b' ha' hb' (haid.trans (hab.trans hbid.symm))
  · exact hp (h.inboxes p o a k ha hk (hak.trans hid))
  · by_cases hlk : l.inbox = k.id
    · exact ⟨o, k', Function.update_self .., hid.trans hlk.symm⟩
    · have hl' : l ∈ F.filter (·.inbox != k.id) := by
        rw [← hF, List.mem_filter]
        exact ⟨hl, by simpa using hlk⟩
      obtain ⟨p, a, ha, hal⟩ := h.bound l (List.mem_filter.1 hl').1
      refine ⟨p, a, ?_, hal⟩
      rw [Function.update_of_ne, ha]
      rintro rfl
      rw [hk] at ha
      exact hlk (hal.symm.trans (congrArg Inbox.id (Option.some.inj ha.symm)))

/-- The moves of the scan of a dispatcher and an inbox. -/
lemma moves (h : Floor e D K C (M.map Lease.place ++ L) F H) (hd : D o = some d)
    (hk : K o' = some k) (m : Scan.Moves π (⟨d, k, e⟩, M) (s, M')) :
    ∃ F', Floor s.engine (Function.update D o (some s.dispatcher))
      (Function.update K o' (some s.inbox)) C (M'.map Lease.place ++ L) F' H ∧
        F'.filter (·.inbox != k.id) = F.filter (·.inbox != k.id) := by
  obtain ⟨F', hs, hF⟩ := Scan.Moves.sound m (h.scan hd hk)
  have hsame := Scan.Moves.sameSite m
  refine ⟨F', h.change hs.engine hsame.size (fun p a' ha => ?_) hk hs.fed hsame.inbox hF, hF⟩
  rw [Function.update_apply] at ha
  split at ha
  · rename_i hp
    obtain rfl := Option.some.inj ha
    exact ⟨hs.employed, d, hp ▸ hd, hsame.dispatcher.symm⟩
  · have ha' := h.employed p a' ha
    exact ⟨⟨hsame.size.epochs ▸ ha'.id_lt, ha'.work_dispatcher,
      fun i hi => hsame.size.rings ▸ ha'.ring_lt i hi⟩, a', ha, rfl⟩

/-- The next slot of an inbox is leased by hand. -/
lemma next? (h : Floor e D K C L F H) (hk : K o = some k) {k' : Inbox} {l : Lease}
    (hn : k.next? e = .ok (some (l, k', e'))) :
    ∃ F', Floor e' D (Function.update K o (some k')) C (l.place :: L) F' H := by
  obtain ⟨F', he, hk', hid, hs, hF⟩ := (h.fed o k hk).next? h.engine hn
  refine ⟨F', h.change he hs (fun p a ha => ?_) hk hk' hid hF⟩
  have ha' := h.employed p a ha
  exact ⟨⟨hs.epochs ▸ ha'.id_lt, ha'.work_dispatcher,
    fun i hi => hs.rings ▸ ha'.ring_lt i hi⟩, a, ha, rfl⟩

/-- A dispatcher ends its execution. -/
lemma clear (h : Floor e D K C L F H) (hd : D o = some d) :
    Floor e (Function.update D o (some d.clear)) K C L F H := by
  refine ⟨h.engine, fun p a ha => ?_, h.fed, numbers_update h.dispatchers fun p a hp ha had => ?_,
    h.inboxes, h.bound⟩
  · rw [Function.update_apply] at ha
    split at ha
    · obtain rfl := Option.some.inj ha
      have hd' := h.employed o d hd
      exact ⟨hd'.id_lt, nofun, hd'.ring_lt⟩
    · exact h.employed p a ha
  · exact hp (h.dispatchers p o a d ha hd had)

/-- A new dispatcher takes an owner's place. -/
lemma addDispatcher (h : Floor e D K C L F H) (o : Owner) (reducer : Reducer ω) :
    Floor e.addDispatcher.2
      (Function.update D o (some { id := e.addDispatcher.1, reducer })) K C L F H := by
  have hsize : e.addDispatcher.2.epochs.size = e.epochs.size + 1 := Array.size_push ..
  have hf := h.ofEngine h.engine.addDispatcher (Nat.le_refl _) (by omega) (Nat.le_refl _)
  refine ⟨hf.engine, fun p a ha => ?_, hf.fed,
    numbers_update h.dispatchers fun p a _ ha => Nat.ne_of_lt (h.employed p a ha).id_lt,
    hf.inboxes, hf.bound⟩
  rw [Function.update_apply] at ha
  split at ha
  · obtain rfl := Option.some.inj ha
    refine ⟨?_, nofun, nofun⟩
    rw [hsize]
    exact Nat.lt_succ_self _
  · exact hf.employed p a ha

/-- The places in flight to an inbox, if it is there. -/
def flightsOf (k : Option Inbox) : List Place := (k.toList.flatMap Inbox.flights).map Lease.place

/-- What is in flight to an owner's inbox leaves the list of flights. -/
lemma strand (h : Floor e D K C L F H) (o : Owner) :
    ∃ F', (F.map Lease.place ++ H).Perm (F'.map Lease.place ++ (flightsOf (K o) ++ H)) ∧ F' ⊆ F ∧
      (∀ p a, K p = some a → p ≠ o →
        F'.filter (·.inbox == a.id) = F.filter (·.inbox == a.id)) ∧
      ∀ l ∈ F', ∃ p a, p ≠ o ∧ K p = some a ∧ a.id = l.inbox := by
  cases hk : K o with
  | none =>
    refine ⟨F, .refl _, List.Subset.refl _, fun _ _ _ _ => rfl, fun l hl => ?_⟩
    obtain ⟨p, a, ha, hal⟩ := h.bound l hl
    refine ⟨p, a, ?_, ha, hal⟩
    rintro rfl
    rw [hk] at ha
    cases ha
  | some k =>
    refine ⟨F.filter (·.inbox != k.id), ?_, List.filter_sublist.subset, fun p a ha hp => ?_,
      fun l hl => ?_⟩
    · have hfk : flightsOf (some k) = (F.filter (·.inbox == k.id)).map Lease.place := by
        simp [flightsOf, (h.fed o k hk).flights]
      rw [hfk, ← List.append_assoc, ← List.map_append]
      refine (List.Perm.map _ ?_).append_right _
      exact ((List.filter_append_perm (·.inbox == k.id) F).symm.trans List.perm_append_comm)
    · refine filter_flights (fun hak => hp (h.inboxes p o a k ha hk hak)) ?_
      rw [List.filter_filter]
      simp
    · obtain ⟨hl, hlk⟩ := List.mem_filter.1 hl
      obtain ⟨p, a, ha, hal⟩ := h.bound l hl
      refine ⟨p, a, ?_, ha, hal⟩
      rintro rfl
      obtain rfl := Option.some.inj (hk.symm.trans ha)
      simp [hal] at hlk

/-- A new inbox takes an owner's place: what was in flight to the last one is stranded. -/
lemma addInbox (h : Floor e D K C L F H) (o : Owner) :
    ∃ F', Floor e.addInbox.2 D (Function.update K o (some { id := e.addInbox.1 })) C L F'
      (flightsOf (K o) ++ H) := by
  have hsize : e.addInbox.2.tallies.size = e.tallies.size + 1 := Array.size_push ..
  have hnew : ∀ l ∈ F, l.inbox ≠ e.tallies.size := by
    intro l hl hle
    obtain ⟨p, a, ha, hal⟩ := h.bound l hl
    have := (h.fed p a ha).id_lt
    omega
  obtain ⟨F', hperm, hsub, hfilter, hbound⟩ := h.strand o
  have hf : Floor e.addInbox.2 D K C L F H :=
    h.ofEngine h.engine.addInbox (Nat.le_refl _) (Nat.le_refl _) (by omega)
  refine ⟨F', hf.engine.strand hperm, hf.employed, fun p a ha => ?_, hf.dispatchers,
    numbers_update h.inboxes fun p a _ ha => Nat.ne_of_lt (h.fed p a ha).id_lt, fun l hl => ?_⟩
  · rw [Function.update_apply] at ha
    split at ha
    · obtain rfl := Option.some.inj ha
      refine ⟨?_, nofun, ?_⟩
      · rw [Inbox.flights, List.map_nil, List.filter_eq_nil_iff]
        intro l hl
        simpa [Engine.addInbox] using hnew l (hsub hl)
      · rw [hsize]
        exact Nat.lt_succ_self _
    · rename_i hp
      have ha' := hf.fed p a ha
      exact ⟨(hfilter p a ha hp).trans ha'.flights, ha'.ring_lt, ha'.id_lt⟩
  · obtain ⟨p, a, hp, ha, hal⟩ := hbound l hl
    exact ⟨p, a, by rw [Function.update_of_ne hp, ha], hal⟩

end Floor

end TableScan
