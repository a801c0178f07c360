import TableScan.Proofs.Observers

/-!
# Conservation of slots

A slot of a ring is in exactly one place, and its stage says in which: it is free, with a
producer, pending, reduced and not yet collected, or with a consumer.  Main statement: this holds
in every workshop that can be reached, and every deed there changes a ring by steps each of which
finds the slot at the stage and the list with the room that it takes for granted.
-/

namespace TableScan

variable {ω σ : Type}

namespace Ring

variable {r r' : Ring ω} {k : Nat}

/-! ## Steps of a ring -/

/-- A step of a ring, with what it takes for granted: the stage that the slot has, and room for
the slot in the list that it is added to. -/
inductive Step : Ring ω → Ring ω → Prop
  | claim {r : Ring ω} {k : Nat} {rest : List Nat} (free : r.free = k :: rest)
      (stage : r.stage? k = some .free) : Step r r.claim
  | write {r : Ring ω} {k : Nat} {f : Task ω → Task ω}
      (stage : r.stage? k = some .claimed ∨ r.stage? k = some .leased) :
      Step r (r.modifyTask k f)
  | publish {r : Ring ω} {k : Nat} (stage : r.stage? k = some .claimed)
      (room : r.pending.length < r.capacity) : Step r (r.publish k)
  | drop {r : Ring ω} {k : Nat} (stage : r.stage? k = some .claimed)
      (room : r.free.length < r.capacity) : Step r (r.putBack k)
  | reduce {r : Ring ω} {k : Nat} {rest : List Nat} {t : Task ω} (pending : r.pending = k :: rest)
      (stage : r.stage? k = some .published) : Step r (r.reduceTo k rest t)
  | lease {r : Ring ω} {k : Nat} (stage : r.stage? k = some .reduced) : Step r (r.lease k)
  | giveBack {r : Ring ω} {k : Nat} (stage : r.stage? k = some .leased)
      (room : r.free.length < r.capacity) : Step r (r.putBack k)

/-- Any number of steps of a ring. -/
abbrev Run : Ring ω → Ring ω → Prop := Relation.ReflTransGen Step

/-- A ring whose slots are all accounted for. -/
def Tidy (r : Ring ω) : Prop := ∃ C L F, r.Accounts C L F

/-- Every step keeps the ring tidy. -/
lemma Step.tidy (h : r.Step r') (ht : r.Tidy) : r'.Tidy := by
  obtain ⟨C, L, F, ha⟩ := ht
  have first : ∀ {l : List Nat} {k : Nat}, k ∈ l → ∃ l', l.Perm (k :: l') :=
    fun hk => ⟨_, List.perm_cons_erase hk⟩
  cases h with
  | claim free => exact ⟨_, L, F, ha.claim free⟩
  | write => exact ⟨C, L, F, ha.modifyTask _ _⟩
  | publish stage =>
    obtain ⟨C', hC⟩ := first ((ha.claimed.2 _).2 stage)
    exact ⟨C', L, _, (ha.perm hC (.refl _) (.refl _)).publish⟩
  | drop stage =>
    obtain ⟨C', hC⟩ := first ((ha.claimed.2 _).2 stage)
    exact ⟨C', L, F, (ha.perm hC (.refl _) (.refl _)).putBack_claimed⟩
  | reduce pending => exact ⟨C, L, F, ha.reduceTo pending _⟩
  | lease stage =>
    obtain ⟨F', hF⟩ := first ((ha.flown.2 _).2 (.inr stage))
    exact ⟨C, _, F', (ha.perm (.refl _) (.refl _) hF).lease stage⟩
  | giveBack stage =>
    obtain ⟨L', hL⟩ := first ((ha.leased.2 _).2 stage)
    exact ⟨C, L', F, (ha.perm (.refl _) hL (.refl _)).putBack_leased⟩

/-- Along a run every ring is tidy. -/
lemma Run.tidy (h : r.Run r') (ht : r.Tidy) : r'.Tidy := by
  induction h with
  | refl => exact ht
  | tail _ h ih => exact h.tidy ih

/-- The number of slots that were reduced and that nobody has collected. -/
def uncollected (r : Ring ω) : Nat := (List.range r.capacity).countP r.isCollectable

namespace Accounts

variable {C L F : List Nat}

/-- What is in flight is pending, or waits to be collected. -/
lemma length_flown (h : r.Accounts C L F) : F.length = r.pending.length + r.uncollected := by
  have hreduced : Enumerates ((List.range r.capacity).filter r.isCollectable) fun i =>
      r.stage? i = some .reduced := by
    refine ⟨List.nodup_range.filter _, fun i => ?_⟩
    rw [List.mem_filter, List.mem_range]
    constructor
    · rintro ⟨hi, hc⟩
      exact (isCollectable_iff hi).1 hc
    · intro hi
      exact ⟨lt_capacity hi, (isCollectable_iff (lt_capacity hi)).2 hi⟩
  have hdisjoint : r.pending.Disjoint ((List.range r.capacity).filter r.isCollectable) := by
    intro i hi hi'
    have h₁ : r.stage? i = some .published := (h.pending.2 i).1 hi
    have h₂ : r.stage? i = some .reduced := (hreduced.2 i).1 hi'
    rw [h₁] at h₂
    cases h₂
  have hperm : F.Perm (r.pending ++ (List.range r.capacity).filter r.isCollectable) := by
    refine (List.perm_ext_iff_of_nodup h.flown.1
      (h.pending.1.append hreduced.1 hdisjoint)).2 fun i => ?_
    rw [List.mem_append, h.flown.2, h.pending.2, hreduced.2]
  rw [hperm.length_eq, List.length_append, uncollected, List.countP_eq_length_filter]

end Accounts

end Ring

namespace Engine

variable {e e' : Engine ω} {id i : Nat} {mine : Place → Prop} {π : ω → σ} {r : Ring ω}

/-- What a step of the engine does to one ring. -/
lemma Step.run (h : Step id mine π e e') (hr : e.rings[i]? = some r) :
    ∃ r', e'.rings[i]? = some r' ∧ r.Run r' := by
  have change : ∀ {j : Nat} {f : Ring ω → Ring ω},
      (∀ s, e.rings[j]? = some s → s.Step (f s)) →
      ∃ r', (e.modifyRing j f).rings[i]? = some r' ∧ r.Run r' := by
    intro j f hf
    by_cases hj : i = j
    · subst hj
      exact ⟨f r, getElem?_modifyRing_self hr, .single (hf r hr)⟩
    · exact ⟨r, (getElem?_modifyRing_ne hj).trans hr, .refl⟩
  have same : ∀ {j : Nat} {s t : Ring ω}, e.rings[j]? = some s → e.rings[j]? = some t → s = t :=
    fun hs ht => Option.some.inj (hs.symm.trans ht)
  cases h with
  | claim ring free stage => exact change fun s hs => same ring hs ▸ .claim free stage
  | write ring stage => exact change fun s hs => .write (.inl (same ring hs ▸ stage))
  | publish ring stage room => exact change fun s hs => same ring hs ▸ .publish stage room
  | drop ring stage room => exact change fun s hs => same ring hs ▸ .drop stage room
  | reduce ring pending once stage run rings =>
    rw [rings]
    exact change fun s hs => same ring hs ▸ .reduce pending stage
  | lease ring stage => exact change fun s hs => same ring hs ▸ .lease stage
  | edit ring stage => exact change fun s hs => .write (.inr (same ring hs ▸ stage))
  | giveBack ring stage room => exact change fun s hs => same ring hs ▸ .giveBack stage room
  | epoch => exact ⟨r, hr, .refl⟩
  | quiet rings =>
    obtain ⟨new, hnew, -⟩ := rings
    refine ⟨r, ?_, .refl⟩
    rw [hnew, Array.getElem?_append_left (lt_size_of_getElem? hr), hr]

lemma Steps.run (h : Steps id mine π e e') (hr : e.rings[i]? = some r) :
    ∃ r', e'.rings[i]? = some r' ∧ r.Run r' := by
  induction h with
  | refl => exact ⟨r, hr, .refl⟩
  | tail _ h ih =>
    obtain ⟨r₁, hr₁, hrun₁⟩ := ih
    obtain ⟨r₂, hr₂, hrun₂⟩ := h.run hr₁
    exact ⟨r₂, hr₂, hrun₁.trans hrun₂⟩

end Engine

namespace Workshop

variable {W : Workshop ω} {F : List Lease} {H : List Place} {i k : Nat} {r : Ring ω} {o : Owner}

/-! ## The places of a slot -/

/-- A slot of a ring is in flight to the inbox of an owner. -/
def InFlight (W : Workshop ω) (o : Owner) (ring slot : Nat) : Prop :=
  ∃ k, W.inbox? o = some k ∧ k.home = ring ∧ slot ∈ k.inFlight

/-- The place that goes with each stage: a slot is listed as free, claimed under a name, pending,
in flight or published for nobody and no longer pending, or leased under a name or to a cursor. -/
def Keeps (W : Workshop ω) (H : List Place) (ring : Nat) (r : Ring ω) (slot : Nat) :
    Stage → Prop
  | .free => slot ∈ r.free
  | .claimed => (ring, slot) ∈ W.claimed
  | .published => slot ∈ r.pending
  | .reduced => slot ∉ r.pending ∧ ((∃ o, W.InFlight o ring slot) ∨ (ring, slot) ∈ H)
  | .leased => (ring, slot) ∈ W.leased

/-- All slots of a ring are conserved.  `H` are the places that were left to nobody. -/
structure Conserved (W : Workshop ω) (H : List Place) (ring : Nat) (r : Ring ω) : Prop where
  place : ∀ slot stage, W.Keeps H ring r slot stage ↔ slot < r.capacity ∧ r.stage slot = stage
  free_nodup : r.free.Nodup
  pending_nodup : r.pending.Nodup
  claimed_nodup : (slotsOn ring W.claimed).Nodup
  leased_nodup : (slotsOn ring W.leased).Nodup
  inFlight_nodup : ∀ o k, W.inbox? o = some k → k.home = ring → k.inFlight.Nodup
  consumer_unique : ∀ o o' slot, W.InFlight o ring slot → W.InFlight o' ring slot → o = o'
  /-- A published slot has a consumer unless it was left to nobody. -/
  consumer : ∀ slot, slot < r.capacity →
    r.stage slot = .published ∨ r.stage slot = .reduced →
      ((∃ o, W.InFlight o ring slot) ↔ (ring, slot) ∉ H)
  total : r.available + (slotsOn ring W.claimed).length + r.pending.length + r.uncollected +
    (slotsOn ring W.leased).length = r.capacity

lemma slotsOn_flights {k : Inbox} (h : k.home = i) :
    slotsOn i (k.flights.map Lease.place) = k.inFlight := by
  subst h
  unfold Inbox.flights
  induction k.inFlight with
  | nil => rfl
  | cons slot rest ih =>
    simp only [List.map_cons, Lease.place, slotsOn_cons_self] at ih ⊢
    rw [ih]

namespace Sound

/-- What is in flight to an inbox is in the flights of all. -/
lemma mem_flights (h : W.Sound F H) {k : Inbox} (hk : W.inbox? o = some k) {slot : Nat}
    (hs : slot ∈ k.inFlight) : ⟨k.home, slot, k.id⟩ ∈ F := by
  have hm : ⟨k.home, slot, k.id⟩ ∈ F.filter (·.inbox == k.id) := by
    rw [(h.floor.fed o k hk).flights]
    exact List.mem_map.2 ⟨slot, hs, rfl⟩
  exact (List.mem_filter.1 hm).1

/-- The flights of all are in flight to some inbox. -/
lemma inFlight_iff (h : W.Sound F H) :
    (∃ o, W.InFlight o i k) ↔ (i, k) ∈ F.map Lease.place := by
  constructor
  · rintro ⟨o, b, hb, rfl, hk⟩
    exact List.mem_map.2 ⟨_, h.mem_flights hb hk, rfl⟩
  · intro hm
    obtain ⟨l, hl, hp⟩ := List.mem_map.1 hm
    obtain ⟨o, b, hb, hid⟩ := h.floor.bound l hl
    have hl' : l ∈ b.flights := by
      rw [← (h.floor.fed o b hb).flights, List.mem_filter]
      exact ⟨hl, by simp [hid]⟩
    obtain ⟨slot, hslot, rfl⟩ := List.mem_map.1 hl'
    obtain ⟨rfl, rfl⟩ := Prod.mk.inj hp
    exact ⟨o, b, hb, rfl, hslot⟩

lemma keeps_iff (h : W.Sound F H) (hr : W.engine.rings[i]? = some r) (slot : Nat)
    (stage : Stage) : W.Keeps H i r slot stage ↔ slot < r.capacity ∧ r.stage slot = stage := by
  have ha := h.floor.engine.books.rings i r hr
  rw [← Ring.stage?_eq_some_iff]
  cases stage with
  | free => exact ha.free.2 slot
  | claimed => exact mem_slotsOn.symm.trans (ha.claimed.2 slot)
  | published => exact ha.pending.2 slot
  | leased => exact mem_slotsOn.symm.trans (ha.leased.2 slot)
  | reduced =>
    have hflown : (∃ o, W.InFlight o i slot) ∨ (i, slot) ∈ H ↔ _ :=
      (or_congr_left h.inFlight_iff).trans
        (List.mem_append.symm.trans (mem_slotsOn.symm.trans (ha.flown.2 slot)))
    show slot ∉ r.pending ∧ _ ↔ _
    rw [hflown, ha.pending.2]
    constructor
    · rintro ⟨hp, hs⟩
      exact hs.resolve_left hp
    · intro hs
      exact ⟨by simp [hs], .inr hs⟩

/-- In a workshop in order all slots are conserved. -/
lemma conserved (h : W.Sound F H) (hr : W.engine.rings[i]? = some r) : W.Conserved H i r := by
  have ha := h.floor.engine.books.rings i r hr
  have hflown := ha.flown.1
  rw [slotsOn_append] at hflown
  refine ⟨h.keeps_iff hr, ha.free.1, ha.pending.1, ha.claimed.1, ha.leased.1,
    fun o k hk hhome => ?_, fun o o' slot hs hs' => ?_, fun slot hlt hs => ?_, ?_⟩
  · -- the flights to one inbox are among the flights of all
    refine ((List.nodup_append.1 hflown).1).sublist ?_
    rw [← slotsOn_flights hhome, ← (h.floor.fed o k hk).flights]
    exact ((List.filter_sublist.map _).filter _).map _
  · obtain ⟨k, hk, hhome, hm⟩ := hs
    obtain ⟨k', hk', hhome', hm'⟩ := hs'
    by_contra hne
    -- two flights of one place would make it occur twice
    have hid : k.id ≠ k'.id := fun hid => hne (h.floor.inboxes o o' k k' hk hk' hid)
    obtain ⟨F₁, F₂, hF⟩ := List.append_of_mem (h.mem_flights hk hm)
    subst hF
    refine h.floor.engine.books.flown_nodup (Engine.map_place_middle F₁ F₂ H _)
      (List.mem_append_left _ (List.mem_map.2 ⟨⟨k'.home, slot, k'.id⟩, ?_, ?_⟩))
    · have hl := h.mem_flights hk' hm'
      simp only [List.mem_append, List.mem_cons] at hl ⊢
      rcases hl with hl | hl | hl
      · exact .inl hl
      · exact absurd (congrArg Lease.inbox hl).symm hid
      · exact .inr hl
    · exact Prod.ext (hhome'.trans hhome.symm) rfl
  · have hin : slot ∈ slotsOn i (F.map Lease.place) ++ slotsOn i H := by
      rw [← slotsOn_append]
      exact (ha.flown.2 slot).2 (hs.imp (Ring.stage?_eq_some_iff.2 ⟨hlt, ·⟩)
        (Ring.stage?_eq_some_iff.2 ⟨hlt, ·⟩))
    rw [h.inFlight_iff, ← mem_slotsOn, ← mem_slotsOn (l := H)]
    constructor
    · intro hf hH
      exact (List.nodup_append'.1 hflown).2.2 hf hH
    · intro hH
      exact (List.mem_append.1 hin).resolve_right hH
  · have hlen := ha.length_add
    rw [ha.length_flown] at hlen
    simp only [Ring.available]
    omega

end Sound

/-! ## Small workshops -/

/-- A workshop with one ring of two slots, whose consumers have no patience. -/
def small : Workshop Unit :=
  { engine :=
      { rings := #[.ofCapacity 0 2]
        hubs := #[{ firstRing := 0, shards := 1, patience := 0 }]
        world := () } }

lemma made_small : Workshop.make? ()
    [{ ringsPerHub := some 1, ringCapacity := some 2, patience := some 0 }] = .ok small := by
  with_unfolding_all rfl

lemma reached_small : small.Reached [] := .make made_small

/-- Frames without columns, with this many rows each. -/
def plainFrames (rowCounts : List Nat) : List Frame :=
  rowCounts.map fun rowCount => { partition := 0, firstRow := 0, rowCount, columns := #[] }

/-- A source of frames without columns. -/
def plainSource (rowCounts : List Nat) : Source Unit :=
  { schema := { columns := #[] }, supply := fun w => (.ok (plainFrames rowCounts), w) }

/-- The filter that keeps every row. -/
def keepAll : Filter Unit := { judge := fun _ w => (.keep, w) }

/-- The small workshop with a dispatcher and an inbox. -/
def fitted : Workshop Unit :=
  (small.after (.addDispatcher "d" (.filtering .ascending))).after (.addInbox "k")

lemma reached_fitted : fitted.Reached [] := by
  have h := reached_small.deed (a := .addDispatcher "d" (.filtering .ascending))
    fun _ _ hc => nomatch hc
  exact h.deed (a := .addInbox "k") fun _ _ hc => nomatch hc

lemma permits_fitted (source : Source Unit) (filter : Filter Unit) :
    fitted.Permits (.dispatch ⟨.own "d", .own "k"⟩ source 0 filter) :=
  ⟨available_of_sites (s := .ofPlan "p") (by decide +kernel) nofun nofun, by decide +kernel⟩

/-- The small workshop with one slot published by hand, and a cursor on a frame in the other. -/
def shared : Workshop Unit :=
  (((small.after (.claim 0 "h")).after (.publishClaim "h")).after
    (.addPlan "p" (plainSource [1]) keepAll)).after (.openCursor "p" "c" 0)

lemma reached_shared : shared.Reached [(0, 0)] := by
  have h₁ := reached_small.deed (a := .claim 0 "h") rfl
  have h₂ := h₁.deed (a := .publishClaim "h") trivial
  have h₃ := h₂.deed (a := .addPlan "p" (plainSource [1]) keepAll) fun _ _ hc => nomatch hc
  exact h₃.deed (a := .openCursor "p" "c" 0) ⟨fun _ _ hc => (nomatch hc), rfl, by decide⟩

/-- The small workshop with a plan on three frames, one of which has no rows. -/
def stocked : Workshop Unit := small.after (.addPlan "p" (plainSource [1, 0, 2]) keepAll)

/-- The plan of the stocked workshop. -/
def stock : Plan Unit where
  source := plainSource [1, 0, 2]
  filter := keepAll
  dispatcher := { id := 1, reducer := .filtering .ascending }
  inbox := { id := 0 }

lemma reached_stocked : stocked.Reached [] :=
  reached_small.deed (a := .addPlan "p" (plainSource [1, 0, 2]) keepAll) fun _ _ hc => nomatch hc

lemma permits_stocked : stocked.Permits (.openCursor "p" "c" 0) :=
  ⟨fun _ _ hc => (nomatch hc), rfl, by decide⟩

lemma find?_stocked : stocked.plans.find? "p" = some stock := rfl

/-- A workshop with two rings of two slots, whose consumers have no patience. -/
def paired : Workshop Unit :=
  { engine :=
      { rings := #[.ofCapacity 0 2, .ofCapacity 1 2]
        hubs := #[{ firstRing := 0, shards := 2, patience := 0 }]
        world := () } }

lemma made_paired : Workshop.make? ()
    [{ ringsPerHub := some 2, ringCapacity := some 2, patience := some 0 }] = .ok paired := by
  with_unfolding_all rfl

lemma reached_paired : paired.Reached [] := .make made_paired

/-- What furnishes the paired workshop: a dispatcher that still has a frame for the first ring,
where a slot is free, and an inbox that listens to the second ring, which comes next. -/
def furniture : List (Deed Unit) :=
  [.addPlan "f" (plainSource [1, 1]) keepAll, .addPlan "g" (plainSource [1, 1, 1]) keepAll,
    .addDispatcher "p" (.filtering .ascending), .addDispatcher "q" (.filtering .ascending),
    .addInbox "k", .addInbox "l",
    .dispatch ⟨.own "p", .own "k"⟩ (plainSource [1, 1, 1]) 0 keepAll,
    .dispatch ⟨.own "q", .own "l"⟩ (plainSource []) 0 keepAll, .drawShard 0,
    .reduce 0, .reduce 0, .nextLease "k" "a", .nextLease "k" "b", .done "b"]

/-- The paired workshop, furnished. -/
def furnished : Workshop Unit := furniture.foldl after paired

lemma reached_furnished : ∃ H, furnished.Reached H := by
  have hrun : Run Permits paired furniture furnished := by
    refine .cons ?_ (.cons ?_ (.cons ?_ (.cons ?_ (.cons ?_ (.cons ?_ (.cons ?_ (.cons ?_
      (.cons trivial (.cons trivial (.cons trivial (.cons ?_ (.cons ?_
        (.cons trivial .nil)))))))))))))
    iterate 6 exact fun _ _ hc => nomatch hc
    iterate 2
      exact ⟨available_of_sites (s := .ofPlan "f") (by decide +kernel) nofun nofun,
        by decide +kernel⟩
    iterate 2
      exact ⟨freeInbox_of_sites (s := .ofPlan "f") (by decide +kernel) nofun, by decide +kernel⟩
  exact hrun.reached (fun _ _ h => h) reached_paired

/-- The dispatcher of the first ring is handed the inbox of the second one.  A slot that this
inbox takes for its own is collected and given back. -/
def crossing : List (Deed Unit) :=
  [.steal ⟨.own "p", .own "l"⟩, .reduce 1, .nextLease "l" "x", .done "x"]

/-- The furnished workshop with a cursor on a plan that it has. -/
def attended (plan : String) : Workshop Unit := furnished.after (.openCursor plan "c" 0)

/-- All that keeps the crossing from being permitted is the ring that the inbox listens to. -/
lemma tolerates_crossing {plan : String} (hplan : plan = "f" ∨ plan = "g")
    {as : List (Deed Unit)} {V : Workshop Unit}
    (rest : Run (fun V a => V.Tolerates a ∧ a ≠ .dropCursor "c")
      (crossing.foldl after (attended plan)) as V) :
    Run (fun V a => V.Tolerates a ∧ a ≠ .dropCursor "c") (attended plan) (crossing ++ as) V := by
  refine .cons ⟨?_, nofun⟩ (.cons ⟨trivial, nofun⟩ (.cons ⟨?_, nofun⟩ (.cons ⟨trivial, nofun⟩ rest)))
  · rcases hplan with rfl | rfl
    · exact available_of_sites (s := .ofPlan "f") (by decide +kernel) nofun nofun
    · exact available_of_sites (s := .ofPlan "g") (by decide +kernel) nofun nofun
  · rcases hplan with rfl | rfl
    · exact ⟨freeInbox_of_sites (s := .ofPlan "f") (by decide +kernel) nofun, by decide +kernel⟩
    · exact ⟨freeInbox_of_sites (s := .ofPlan "g") (by decide +kernel) nofun, by decide +kernel⟩

/-- In every workshop that can be reached the slots of every ring are conserved.  Every deed
there changes a ring by a run, and the ring is tidy all along. -/
theorem slots_conserved (h : W.Reached H) :
    (∀ i r, W.engine.rings[i]? = some r → W.Conserved H i r) ∧
      ∀ a, W.Permits a → ∀ (i : Nat) (r : Ring ω), W.engine.rings[i]? = some r →
        (∃ r', (W.after a).engine.rings[i]? = some r' ∧ r.Run r') ∧ ∀ r', r.Run r' → r'.Tidy := by
  obtain ⟨F, hs⟩ := h.sound
  refine ⟨fun i r hr => hs.conserved hr, fun a hp i r hr => ⟨?_, fun r' hrun => ?_⟩⟩
  · have hsteps := hs.bystander.steps hs hp (W.spares_unit a) fun _ _ => nofun
    exact hsteps.run hr
  · exact hrun.tidy ⟨_, _, _, hs.floor.engine.books.rings i r hr⟩

/-- One slot is left to nobody and the other one leased to the cursor. -/
theorem slots_conserved_shared :
    shared.Reached [(0, 0)] ∧ shared.leased = [(0, 1)] ∧
      (∀ i r, shared.engine.rings[i]? = some r → shared.Conserved [(0, 0)] i r) ∧
      ∀ a, shared.Permits a → ∀ (i : Nat) (r : Ring Unit), shared.engine.rings[i]? = some r →
        (∃ r', (shared.after a).engine.rings[i]? = some r' ∧ r.Run r') ∧
          ∀ r', r.Run r' → r'.Tidy :=
  ⟨reached_shared, by decide +kernel, slots_conserved reached_shared⟩

end Workshop

end TableScan
