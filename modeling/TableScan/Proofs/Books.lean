import TableScan.Inbox
import TableScan.Proofs.Accounts

/-!
# The books of an engine

The accounts of all rings together: who claimed and who leased a slot, which slots are in flight
and for which inbox, and which published slots nobody will ever collect.  Main statement: every
step of an engine keeps the books in order, and the tasks dated no later than the present epoch
of their dispatchers.
-/

namespace TableScan

variable {ω : Type}

/-- A slot of a ring, by the number of the ring. -/
abbrev Place := Nat × Nat

/-- The place that a lease is for. -/
def Lease.place (l : Lease) : Place := (l.ring, l.slot)

/-- The slots of one ring among some places. -/
def slotsOn (ring : Nat) (places : List Place) : List Nat :=
  (places.filter (·.1 == ring)).map (·.2)

section slotsOn

variable {i j : Nat} {p : Place} {l l' : List Place}

@[simp] lemma slotsOn_nil : slotsOn i [] = [] := rfl

lemma slotsOn_cons_self : slotsOn i ((i, j) :: l) = j :: slotsOn i l := by simp [slotsOn]

lemma slotsOn_cons_ne (h : p.1 ≠ i) : slotsOn i (p :: l) = slotsOn i l := by
  simp [slotsOn, h]

lemma slotsOn_append : slotsOn i (l ++ l') = slotsOn i l ++ slotsOn i l' := by simp [slotsOn]

lemma mem_slotsOn : j ∈ slotsOn i l ↔ (i, j) ∈ l := by
  simp only [slotsOn, List.mem_map, List.mem_filter, beq_iff_eq]
  constructor
  · rintro ⟨⟨a, b⟩, ⟨hp, rfl⟩, rfl⟩
    exact hp
  · intro h
    exact ⟨(i, j), ⟨h, rfl⟩, rfl⟩

lemma slotsOn_perm (h : l.Perm l') : (slotsOn i l).Perm (slotsOn i l') :=
  (h.filter _).map _

end slotsOn

namespace Engine

variable {e e' : Engine ω} {C L P : List Place} {F : List Lease} {i j k : Nat} {r : Ring ω}

/-! ## Rings after a change of one ring -/

@[simp] lemma size_modifyRing {f : Ring ω → Ring ω} :
    (e.modifyRing i f).rings.size = e.rings.size := by
  simp [modifyRing]

lemma getElem?_modifyRing {f : Ring ω → Ring ω} :
    (e.modifyRing i f).rings[j]? = if i = j then e.rings[j]?.map f else e.rings[j]? := by
  simp [modifyRing, Array.getElem?_modify]

lemma getElem?_modifyRing_self {f : Ring ω → Ring ω} (h : e.rings[i]? = some r) :
    (e.modifyRing i f).rings[i]? = some (f r) := by
  simp [getElem?_modifyRing, h]

lemma getElem?_modifyRing_ne {f : Ring ω → Ring ω} (h : j ≠ i) :
    (e.modifyRing i f).rings[j]? = e.rings[j]? := by
  rw [getElem?_modifyRing, if_neg h.symm]

lemma task_eq (h : e.rings[i]? = some r) : e.task i k = r.task k := by simp [task, h]

lemma lt_size_of_getElem? (h : e.rings[i]? = some r) : i < e.rings.size :=
  (Array.getElem?_eq_some_iff.1 h).1

lemma exists_ring (h : i < e.rings.size) : ∃ r, e.rings[i]? = some r :=
  ⟨_, Array.getElem?_eq_getElem h⟩

/-- The slot that is claimed is the first free one of the ring. -/
lemma claim?_cases (h : e.claim? i = some (k, e')) : ∃ r rest, e.rings[i]? = some r ∧
    r.free = k :: rest ∧ e' = e.modifyRing i Ring.claim := by
  unfold claim? at h
  split at h
  · rename_i r hr
    simp only [Option.map_eq_some_iff, Prod.mk.injEq] at h
    obtain ⟨k, hk, rfl, rfl⟩ := h
    obtain ⟨rest, hf⟩ := List.head?_eq_some_iff.1 hk
    exact ⟨r, rest, hr, hf, rfl⟩
  · cases h

/-- A round of reduction changes its ring alone: no pending slot was due, and none is left, or the
oldest one that was due is reduced. -/
lemma reduceOldest_modifies (e : Engine ω) (i : Nat) :
    ∃ f : Ring ω → Ring ω, (e.reduceOldest i).2.rings = (e.modifyRing i f).rings ∧
      (e.reduceOldest i).2.hubs = e.hubs ∧ (e.reduceOldest i).2.epochs = e.epochs ∧
      (e.reduceOldest i).2.tallies = e.tallies ∧
      ((∀ r, f r = { r with pending := [] }) ∨
        ∃ r k rest t x w, e.rings[i]? = some r ∧ r.due = k :: rest ∧
          (r.task k).run e.epoch e.world = (t, x, w) ∧ ∀ r, f r = r.reduceTo k rest t) := by
  unfold reduceOldest
  cases hr : e.rings[i]? with
  | none =>
    -- there is no such ring to be changed
    have hi : ¬ i < e.rings.size := by simpa using hr
    exact ⟨_, by simp [modifyRing, Array.modify, Array.modifyM, hi], rfl, rfl, rfl,
      .inl fun _ => rfl⟩
  | some r =>
    cases hdue : r.due with
    | nil =>
      simp only [hdue]
      exact ⟨_, rfl, rfl, rfl, rfl, .inl fun _ => rfl⟩
    | cons k rest =>
      rcases hrun : (r.task k).run e.epoch e.world with ⟨t, x, w⟩
      simp only [hdue, hrun]
      refine ⟨(·.reduceTo k rest t), ?_⟩
      split <;>
        exact ⟨rfl, rfl, rfl, rfl, .inr ⟨r, k, rest, t, x, w, rfl, hdue, hrun, fun _ => rfl⟩⟩

/-! ## Books -/

/-- The books of an engine: the claimed places, the leased places, and those in flight. -/
structure Books (e : Engine ω) (C L P : List Place) : Prop where
  rings : ∀ (i : Nat) (r : Ring ω), e.rings[i]? = some r →
    r.Accounts (slotsOn i C) (slotsOn i L) (slotsOn i P)
  there : ∀ p ∈ C ++ (L ++ P), p.1 < e.rings.size

namespace Books

lemma congr (h : e.Books C L P) (he : e'.rings = e.rings) : e'.Books C L P :=
  ⟨fun i r hr => h.rings i r (he ▸ hr), fun p hp => he ▸ h.there p hp⟩

lemma perm (h : e.Books C L P) {C' L' P' : List Place} (hC : C.Perm C') (hL : L.Perm L')
    (hP : P.Perm P') : e.Books C' L' P' := by
  refine ⟨fun i r hr => ?_, fun p hp => ?_⟩
  · exact (h.rings i r hr).perm (slotsOn_perm hC) (slotsOn_perm hL) (slotsOn_perm hP)
  · exact h.there p ((hC.append (hL.append hP)).mem_iff.2 hp)

/-- The books after a change of one ring, by which only places of this ring move. -/
lemma modifyRing (h : e.Books C L P) {f : Ring ω → Ring ω} {C' L' P' : List Place}
    (hf : ∀ r, e.rings[i]? = some r → (f r).Accounts (slotsOn i C') (slotsOn i L') (slotsOn i P'))
    (hne : ∀ j ≠ i, slotsOn j C' = slotsOn j C ∧ slotsOn j L' = slotsOn j L ∧
      slotsOn j P' = slotsOn j P)
    (hthere : ∀ p ∈ C' ++ (L' ++ P'), p ∈ C ++ (L ++ P) ∨ p.1 < e.rings.size) :
    (e.modifyRing i f).Books C' L' P' := by
  refine ⟨fun j s hj => ?_, fun p hp => ?_⟩
  · by_cases hji : j = i
    · subst hji
      rw [getElem?_modifyRing, if_pos rfl] at hj
      obtain ⟨r, hr, rfl⟩ := Option.map_eq_some_iff.1 hj
      exact hf r hr
    · rw [getElem?_modifyRing_ne hji] at hj
      obtain ⟨hC, hL, hP⟩ := hne j hji
      rw [hC, hL, hP]
      exact h.rings j s hj
  · rw [size_modifyRing]
    exact (hthere p hp).elim (h.there p) id

lemma modifyTask (h : e.Books C L P) (i k : Nat) (f : Task ω → Task ω) :
    (e.modifyRing i (·.modifyTask k f)).Books C L P :=
  h.modifyRing (fun r hr => (h.rings i r hr).modifyTask k f) (fun _ _ => ⟨rfl, rfl, rfl⟩)
    fun _ hp => .inl hp

lemma claim? (h : e.Books C L P) (hc : e.claim? i = some (k, e')) :
    e'.Books ((i, k) :: C) L P := by
  obtain ⟨r, rest, hr, hf, rfl⟩ := claim?_cases hc
  refine h.modifyRing (fun r' hr' => ?_) (fun j hj => ?_) fun p hp => ?_
  · obtain rfl : r = r' := Option.some.inj (hr.symm.trans hr')
    rw [slotsOn_cons_self]
    exact (h.rings i r hr).claim hf
  · exact ⟨slotsOn_cons_ne hj.symm, rfl, rfl⟩
  · rcases List.mem_cons.1 hp with rfl | hp
    · exact .inr (lt_size_of_getElem? hr)
    · exact .inl hp

lemma publish (h : e.Books ((i, k) :: C) L P) : (e.publish i k).Books C L ((i, k) :: P) := by
  refine h.modifyRing (fun r hr => ?_) (fun j hj => ?_) fun p hp => .inl ?_
  · have ha := h.rings i r hr
    rw [slotsOn_cons_self] at ha ⊢
    exact ha.publish
  · rw [slotsOn_cons_ne hj.symm, slotsOn_cons_ne hj.symm]
    exact ⟨rfl, rfl, rfl⟩
  · simpa [or_left_comm] using hp

lemma putBack (h : e.Books ((i, k) :: C) L P) : (e.putBack i k).Books C L P := by
  refine h.modifyRing (fun r hr => ?_) (fun j hj => ?_) fun p hp => .inl ?_
  · have ha := h.rings i r hr
    rw [slotsOn_cons_self] at ha
    exact ha.putBack_claimed
  · rw [slotsOn_cons_ne hj.symm]
    exact ⟨rfl, rfl, rfl⟩
  · exact List.mem_cons_of_mem _ hp

lemma release {l : Lease} (h : e.Books C (l.place :: L) P) : (e.release l).Books C L P := by
  have hb : (e.putBack l.ring l.slot).Books C L P := by
    refine h.modifyRing (fun r hr => ?_) (fun j hj => ?_) fun p hp => .inl ?_
    · have ha := h.rings l.ring r hr
      rw [Lease.place, slotsOn_cons_self] at ha
      exact ha.putBack_leased
    · rw [slotsOn_cons_ne (Ne.symm hj)]
      exact ⟨rfl, rfl, rfl⟩
    · simp only [List.mem_append, List.mem_cons] at hp ⊢
      rcases hp with hp | hp | hp
      · exact .inl hp
      · exact .inr (.inl (.inr hp))
      · exact .inr (.inr hp)
  exact hb.congr rfl

lemma lease (h : e.Books C L ((i, k) :: P)) (hr : e.rings[i]? = some r)
    (hk : r.stage? k = some .reduced) :
    (e.modifyRing i (·.lease k)).Books C ((i, k) :: L) P := by
  refine h.modifyRing (fun r' hr' => ?_) (fun j hj => ?_) fun p hp => .inl ?_
  · obtain rfl : r = r' := Option.some.inj (hr.symm.trans hr')
    have ha := h.rings i r hr
    rw [slotsOn_cons_self] at ha ⊢
    exact ha.lease hk
  · rw [slotsOn_cons_ne hj.symm, slotsOn_cons_ne hj.symm]
    exact ⟨rfl, rfl, rfl⟩
  · simp only [List.mem_append, List.mem_cons] at hp ⊢
    rcases hp with hp | (hp | hp) | hp
    · exact .inl hp
    · exact .inr (.inr (.inl hp))
    · exact .inr (.inl hp)
    · exact .inr (.inr (.inr hp))

/-- A round of reduction does nothing, or takes the first pending slot of the ring and leaves the
result of its task there. -/
lemma reduceOldest_cases (h : e.Books C L P) {b : Bool} (hb : e.reduceOldest i = (b, e')) :
    (b = false ∧ e' = e ∧ e.pendingIn (some i) = []) ∨
      (b = true ∧ ∃ r k rest t x w, e.rings[i]? = some r ∧ r.pending = k :: rest ∧
        (r.task k).run e.epoch e.world = (t, x, w) ∧
        e'.rings = (e.modifyRing i (·.reduceTo k rest t)).rings ∧ e'.world = w ∧
        e'.epochs = e.epochs ∧ e'.hubs = e.hubs ∧ e'.tallies = e.tallies ∧ e'.clock = e.clock) := by
  unfold Engine.reduceOldest at hb
  cases hr : e.rings[i]? with
  | none =>
    simp only [hr, Prod.mk.injEq] at hb
    exact .inl ⟨hb.1.symm, hb.2.symm, by simp [pendingIn, hr]⟩
  | some r =>
    simp only [hr, (h.rings i r hr).due] at hb
    cases hp : r.pending with
    | nil =>
      simp only [hp, Prod.mk.injEq] at hb
      refine .inl ⟨hb.1.symm, ?_, by simp [pendingIn, hr, hp]⟩
      rw [← hb.2]
      -- a pending list that was empty is emptied: no ring changes
      have hm : e.rings.modify i (fun s => { s with pending := [] }) = e.rings := by
        refine Array.ext (by simp) fun j h₁ h₂ => ?_
        rw [Array.getElem_modify]
        split
        · rename_i hij
          subst hij
          rw [Array.getElem?_eq_getElem h₂, Option.some.injEq] at hr
          rw [hr, ← hp]
        · rfl
      simp only [Engine.modifyRing, hm]
    | cons k rest =>
      rcases hrun : (r.task k).run e.epoch e.world with ⟨t, x, w⟩
      simp only [hp, hrun, Prod.mk.injEq] at hb
      refine .inr ⟨hb.1.symm, r, k, rest, t, x, w, rfl, hp, hrun, ?_⟩
      rw [← hb.2]
      cases x <;> exact ⟨rfl, rfl, rfl, rfl, rfl, rfl⟩

lemma reduceOldest (h : e.Books C L P) (i : Nat) : (e.reduceOldest i).2.Books C L P := by
  rcases hb : e.reduceOldest i with ⟨b, e'⟩
  rcases h.reduceOldest_cases hb with ⟨-, he, -⟩ | ⟨-, r, k, rest, t, x, w, hr, hp, -, he, -⟩
  · rw [he]
    exact h
  · refine (h.modifyRing (fun r' hr' => ?_) (fun j _ => ⟨rfl, rfl, rfl⟩) fun p hp => .inl hp).congr
      he
    obtain rfl : r = r' := Option.some.inj (hr.symm.trans hr')
    exact (h.rings i r hr).reduceTo hp t

/-! ## The stages of the places in the books -/

lemma claimed (h : e.Books C L P) (hp : (i, k) ∈ C) :
    ∃ r, e.rings[i]? = some r ∧ r.stage? k = some .claimed ∧ r.free.length < r.capacity ∧
      r.pending.length < r.capacity := by
  obtain ⟨r, hr⟩ := exists_ring (h.there (i, k) (List.mem_append_left _ hp))
  have ha := h.rings i r hr
  have hk : k ∈ slotsOn i C := mem_slotsOn.2 hp
  exact ⟨r, hr, (ha.claimed.2 k).1 hk, ha.free_lt (.inl hk), ha.pending_lt hk⟩

lemma leased (h : e.Books C L P) (hp : (i, k) ∈ L) :
    ∃ r, e.rings[i]? = some r ∧ r.stage? k = some .leased ∧ r.free.length < r.capacity := by
  obtain ⟨r, hr⟩ := exists_ring
    (h.there (i, k) (List.mem_append_right _ (List.mem_append_left _ hp)))
  have ha := h.rings i r hr
  have hk : k ∈ slotsOn i L := mem_slotsOn.2 hp
  exact ⟨r, hr, (ha.leased.2 k).1 hk, ha.free_lt (.inr (.inl hk))⟩

lemma flown (h : e.Books C L P) (hp : (i, k) ∈ P) :
    ∃ r, e.rings[i]? = some r ∧
      (r.stage? k = some .published ∨ r.stage? k = some .reduced) := by
  obtain ⟨r, hr⟩ := exists_ring
    (h.there (i, k) (List.mem_append_right _ (List.mem_append_right _ hp)))
  exact ⟨r, hr, ((h.rings i r hr).flown.2 k).1 (mem_slotsOn.2 hp)⟩

/-- A place that is leased is not in flight. -/
lemma not_flown (h : e.Books C L P) {p : Place} (hp : p ∈ L) : p ∉ P := by
  obtain ⟨i, k⟩ := p
  intro hp'
  obtain ⟨r, hr, hs, -⟩ := h.leased hp
  obtain ⟨r', hr', hs'⟩ := h.flown hp'
  obtain rfl := Option.some.inj (hr.symm.trans hr')
  rcases hs' with hs' | hs' <;> simp [hs] at hs'

lemma slotsOn_eq_of_perm_cons {p : Place} (i : Nat) (hp : p.1 = i) :
    slotsOn i (p :: L) = p.2 :: slotsOn i L := by
  obtain ⟨a, b⟩ := p
  obtain rfl : a = i := hp
  exact slotsOn_cons_self

/-- No place is leased twice. -/
lemma leased_nodup (h : e.Books C L P) {p : Place} {L₁ : List Place} (hL : L.Perm (p :: L₁)) :
    p ∉ L₁ := by
  intro hp
  obtain ⟨r, hr, -⟩ := h.leased (hL.mem_iff.2 (List.mem_cons_self ..) : (p.1, p.2) ∈ L)
  have hn := ((h.rings p.1 r hr).leased.perm (slotsOn_perm hL)).1
  rw [slotsOn_eq_of_perm_cons p.1 rfl] at hn
  exact (List.nodup_cons.1 hn).1 (mem_slotsOn.2 hp)

lemma leased_disjoint (h : e.Books C L P) {L₁ L₂ : List Place} (hL : L.Perm (L₁ ++ L₂)) :
    L₁.Disjoint L₂ := by
  intro p hp₁ hp₂
  obtain ⟨A, B, rfl⟩ := List.append_of_mem hp₁
  have hp : (A ++ p :: B ++ L₂).Perm (p :: (A ++ B ++ L₂)) := List.perm_middle.append_right L₂
  exact h.leased_nodup (hL.trans hp) (List.mem_append_right _ hp₂)

/-- No place is in flight twice. -/
lemma flown_nodup (h : e.Books C L P) {p : Place} {P₁ : List Place} (hP : P.Perm (p :: P₁)) :
    p ∉ P₁ := by
  intro hp
  obtain ⟨r, hr, -⟩ := h.flown (hP.mem_iff.2 (List.mem_cons_self ..) : (p.1, p.2) ∈ P)
  have hn := ((h.rings p.1 r hr).flown.perm (slotsOn_perm hP)).1
  rw [slotsOn_eq_of_perm_cons p.1 rfl] at hn
  exact (List.nodup_cons.1 hn).1 (mem_slotsOn.2 hp)

end Books

end Engine

/-! ## Dated tasks -/

/-- A task is of an epoch that has come, and its work is that of the dispatcher who wrote it. -/
def Task.Dated (t : Task ω) (epoch : Nat → Nat) : Prop :=
  t.epoch ≤ epoch t.dispatcher ∧ ∀ w, t.work = some w → w.dispatcher = t.dispatcher

namespace Task

variable {t u : Task ω} {epoch epoch' : Nat → Nat}

lemma dated_default : ({} : Task ω).Dated epoch := ⟨Nat.zero_le _, by simp⟩

lemma dated_ask (w : Work ω) (frame n : Nat) :
    (Task.ask w (epoch w.dispatcher) frame n).Dated epoch :=
  ⟨Nat.le_refl _, by simp [Task.ask]⟩

lemma Dated.mono (h : t.Dated epoch) (he : ∀ d, epoch d ≤ epoch' d) : t.Dated epoch' :=
  ⟨Nat.le_trans h.1 (he _), h.2⟩

lemma Dated.cleared (h : t.Dated epoch) : t.cleared.Dated epoch := ⟨h.1, by simp [Task.cleared]⟩

/-- What a run leaves of a task: its results change and nothing else. -/
lemma run_eq {e : Nat → Nat} {w w' : ω} {x : Option Fault} (h : t.run e w = (u, x, w')) :
    ∃ rows error, u = { t with rows, error } := by
  unfold Task.run at h
  split at h
  · obtain ⟨rfl, -⟩ := Prod.mk.inj h
    exact ⟨_, _, rfl⟩
  · split at h
    · obtain ⟨rfl, -⟩ := Prod.mk.inj h
      exact ⟨_, _, rfl⟩
    · split at h
      · obtain ⟨rfl, -⟩ := Prod.mk.inj h
        exact ⟨_, _, rfl⟩
      · rename_i result _ _ _
        obtain ⟨rfl, -⟩ := Prod.mk.inj h
        cases result <;> exact ⟨_, _, rfl⟩

lemma Dated.run (h : t.Dated epoch) {e : Nat → Nat} {w w' : ω} {x : Option Fault}
    (hr : t.run e w = (u, x, w')) : u.Dated epoch := by
  obtain ⟨rows, error, rfl⟩ := run_eq hr
  exact h

end Task

namespace Engine

variable {e e' : Engine ω} {C L H : List Place} {F : List Lease} {i j k : Nat} {r : Ring ω}

lemma dated_modifyRing {f : Ring ω → Ring ω} {epoch : Nat → Nat}
    (h : ∀ i k, (e.task i k).Dated epoch)
    (hf : ∀ r, e.rings[i]? = some r → ∀ k, ((f r).task k).Dated epoch) (j k : Nat) :
    ((e.modifyRing i f).task j k).Dated epoch := by
  by_cases hj : j = i
  · subst hj
    cases hr : e.rings[j]? with
    | none =>
      have : (e.modifyRing j f).task j k = {} := by simp [task, getElem?_modifyRing, hr]
      rw [this]
      exact Task.dated_default
    | some r =>
      rw [task_eq (getElem?_modifyRing_self hr)]
      exact hf r hr k
  · have : (e.modifyRing i f).task j k = e.task j k := by
      simp [task, getElem?_modifyRing_ne hj]
    rw [this]
    exact h j k

/-- An engine in order: its books are kept, with the slots in flight divided into those of an
inbox and the strays; its tasks are dated; its hubs have their rings. -/
structure Sound (e : Engine ω) (C L : List Place) (F : List Lease) (H : List Place) : Prop where
  books : e.Books C L (F.map Lease.place ++ H)
  dated : ∀ i k, (e.task i k).Dated e.epoch
  hubs : ∀ h : Hub, h ∈ e.hubs → 0 < h.shards ∧ h.firstRing + h.shards ≤ e.rings.size

@[simp] lemma epoch_modifyRing {f : Ring ω → Ring ω} : (e.modifyRing i f).epoch = e.epoch := rfl

@[simp] lemma world_modifyRing {f : Ring ω → Ring ω} : (e.modifyRing i f).world = e.world := rfl

/-- The places of a flight that joins the others. -/
lemma map_place_snoc (F : List Lease) (H : List Place) (l : Lease) :
    ((F ++ [l]).map Lease.place ++ H).Perm (l.place :: (F.map Lease.place ++ H)) := by
  rw [List.map_append, List.map_singleton, List.append_assoc]
  exact List.perm_middle

/-- The places of a flight among the others. -/
lemma map_place_middle (F₁ F₂ : List Lease) (H : List Place) (l : Lease) :
    ((F₁ ++ l :: F₂).map Lease.place ++ H).Perm
      (l.place :: ((F₁ ++ F₂).map Lease.place ++ H)) := by
  rw [List.map_append, List.map_cons, List.append_assoc, List.cons_append, List.map_append,
    List.append_assoc]
  exact List.perm_middle

namespace Sound

variable {C' L' H' : List Place} {F' F₁ F₂ : List Lease} {l : Lease}

lemma perm (h : e.Sound C L F H) (hC : C.Perm C') (hL : L.Perm L') (hH : H.Perm H') :
    e.Sound C' L' F H' :=
  ⟨h.books.perm hC hL (hH.append_left _), h.dated, h.hubs⟩

/-- What neither a ring nor an epoch nor a hub depends on may change at will. -/
lemma congr (h : e.Sound C L F H) (hr : e'.rings = e.rings) (hp : e'.epochs = e.epochs)
    (hh : e'.hubs = e.hubs) : e'.Sound C L F H := by
  refine ⟨h.books.congr hr, fun i k => ?_, fun hub hm => ?_⟩
  · have ht : e'.task i k = e.task i k := by simp [task, hr]
    have he : e'.epoch = e.epoch := by
      funext d
      simp [epoch, hp]
    rw [ht, he]
    exact h.dated i k
  · rw [hr]
    exact h.hubs hub (hh ▸ hm)

lemma modifyRing (h : e.Sound C L F H) {f : Ring ω → Ring ω}
    (hb : (e.modifyRing i f).Books C' L' (F'.map Lease.place ++ H'))
    (hf : ∀ r : Ring ω, (∀ k, (r.task k).Dated e.epoch) → ∀ k, ((f r).task k).Dated e.epoch) :
    (e.modifyRing i f).Sound C' L' F' H' := by
  refine ⟨hb, dated_modifyRing h.dated fun r hr => hf r fun k => ?_, fun hub hm => ?_⟩
  · rw [← task_eq hr]
    exact h.dated i k
  · rw [size_modifyRing]
    exact h.hubs hub hm

/-- A producer changes a task into another dated one. -/
lemma modifyTask (h : e.Sound C L F H) {f : Task ω → Task ω}
    (hf : ∀ t : Task ω, t.Dated e.epoch → (f t).Dated e.epoch) :
    (e.modifyRing i (·.modifyTask k f)).Sound C L F H := by
  refine h.modifyRing (h.books.modifyTask i k f) fun r hr j => ?_
  rw [Ring.task_modifyTask]
  split
  · exact hf _ (hr j)
  · exact hr j

lemma claim? (h : e.Sound C L F H) (hc : e.claim? i = some (k, e')) :
    e'.Sound ((i, k) :: C) L F H := by
  have hb := h.books.claim? hc
  obtain ⟨r, rest, -, -, rfl⟩ := claim?_cases hc
  refine h.modifyRing hb fun r hr j => ?_
  rw [Ring.task_claim]
  exact hr j

/-- A producer publishes a slot for an inbox. -/
lemma publish (h : e.Sound ((i, k) :: C) L F H) (inbox : Nat) :
    (e.publish i k).Sound C L (F ++ [⟨i, k, inbox⟩]) H := by
  refine h.modifyRing ?_ fun r hr j => ?_
  · exact h.books.publish.perm (.refl _) (.refl _) (map_place_snoc F H ⟨i, k, inbox⟩).symm
  · rw [Ring.task_publish]
    exact hr j

/-- A producer publishes a slot for nobody. -/
lemma publish_stray (h : e.Sound ((i, k) :: C) L F H) :
    (e.publish i k).Sound C L F ((i, k) :: H) := by
  refine h.modifyRing ?_ fun r hr j => ?_
  · exact h.books.publish.perm (.refl _) (.refl _) List.perm_middle.symm
  · rw [Ring.task_publish]
    exact hr j

/-- The consumer of some slots in flight is gone. -/
lemma strand (h : e.Sound C L F H) (hF : (F.map Lease.place ++ H).Perm (F'.map Lease.place ++ H')) :
    e.Sound C L F' H' :=
  ⟨h.books.perm (.refl _) (.refl _) hF, h.dated, h.hubs⟩

lemma dated_putBack (r : Ring ω) {epoch : Nat → Nat} (hr : ∀ k, (r.task k).Dated epoch)
    (k j : Nat) : ((r.putBack k).task j).Dated epoch := by
  rw [Ring.task_putBack]
  split
  · exact (hr j).cleared
  · exact hr j

lemma putBack (h : e.Sound ((i, k) :: C) L F H) : (e.putBack i k).Sound C L F H :=
  h.modifyRing h.books.putBack fun r hr j => dated_putBack r hr k j

lemma release (h : e.Sound C (l.place :: L) F H) : (e.release l).Sound C L F H := by
  have hb : (e.putBack l.ring l.slot).Sound C L F H :=
    h.modifyRing (h.books.release.congr rfl) fun r hr j => dated_putBack r hr l.slot j
  exact hb.congr rfl rfl rfl

lemma dropLease (h : e.Sound C (l.place :: L) F H) : (e.dropLease l).Sound C L F H := by
  have hn : (e.note (.leaseDropped (e.shardOf l.ring) l.slot)).Sound C (l.place :: L) F H :=
    h.congr rfl rfl rfl
  exact hn.release

/-- A reduced slot in flight goes to the consumer. -/
lemma lease (h : e.Sound C L (F₁ ++ l :: F₂) H) (hr : e.rings[l.ring]? = some r)
    (hk : r.stage? l.slot = some .reduced) :
    (e.modifyRing l.ring (·.lease l.slot)).Sound C (l.place :: L) (F₁ ++ F₂) H := by
  have hb := h.books.perm (.refl _) (.refl _) (map_place_middle F₁ F₂ H l)
  refine h.modifyRing (Books.lease hb hr hk) fun r hr j => ?_
  rw [Ring.task_lease]
  exact hr j

lemma reduceOldest (h : e.Sound C L F H) (i : Nat) : (e.reduceOldest i).2.Sound C L F H := by
  have hb := h.books.reduceOldest i
  rcases hred : e.reduceOldest i with ⟨b, e'⟩
  rw [hred] at hb
  rcases h.books.reduceOldest_cases hred with
    ⟨-, rfl, -⟩ | ⟨-, r, k, rest, t, x, w, hr, hp, hrun, he, -, hep, hh, -⟩
  · exact h
  · have hs : (e.modifyRing i (·.reduceTo k rest t)).Sound C L F H := by
      refine h.modifyRing (hb.congr he.symm) fun s hs j => ?_
      rw [Ring.task_reduceTo]
      split
      · refine Task.Dated.run ?_ hrun
        rw [← task_eq hr]
        exact h.dated i k
      · exact hs j
    exact hs.congr he hep hh

end Sound

end Engine

end TableScan
