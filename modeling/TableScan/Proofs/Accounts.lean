import Mathlib.Data.List.Nodup
import Mathlib.Data.List.Perm.Basic
import TableScan.Ring

/-!
# The accounts of a ring

Every slot of a ring is in one place: among the free ones, with a producer who claimed it, among
the pending ones, reduced and waiting, or with a consumer who leased it.  The accounts of a ring
say which slots the producers and the consumers hold and which are in flight, and that all this
agrees with the stages of the slots.  Each step on a ring moves one slot from one list to
another; there is one lemma for each step.
-/

namespace TableScan

variable {ω : Type}

/-- A list that names exactly the slots with a property, each of them once. -/
def Enumerates (l : List Nat) (P : Nat → Prop) : Prop := l.Nodup ∧ ∀ i, i ∈ l ↔ P i

namespace Enumerates

variable {l : List Nat} {P Q : Nat → Prop} {i : Nat}

lemma congr (h : Enumerates l P) (hQ : ∀ j, Q j ↔ P j) : Enumerates l Q :=
  ⟨h.1, fun j => by rw [h.2, hQ]⟩

lemma perm (h : Enumerates l P) {l' : List Nat} (hl : l.Perm l') : Enumerates l' P :=
  ⟨hl.nodup_iff.1 h.1, fun j => by rw [← hl.mem_iff, h.2]⟩

/-- A slot that comes to have the property is entered. -/
lemma cons (h : Enumerates l P) (hi : ¬ P i) (hQ : ∀ j, Q j ↔ j = i ∨ P j) :
    Enumerates (i :: l) Q := by
  refine ⟨List.nodup_cons.2 ⟨fun hm => hi ((h.2 i).1 hm), h.1⟩, fun j => ?_⟩
  rw [List.mem_cons, h.2, hQ]

lemma snoc (h : Enumerates l P) (hi : ¬ P i) (hQ : ∀ j, Q j ↔ j = i ∨ P j) :
    Enumerates (l ++ [i]) Q :=
  (h.cons hi hQ).perm (List.perm_append_singleton i l).symm

/-- A slot that loses the property is struck off. -/
lemma tail (h : Enumerates (i :: l) P) (hQ : ∀ j, Q j ↔ j ≠ i ∧ P j) : Enumerates l Q := by
  obtain ⟨hi, hl⟩ := List.nodup_cons.1 h.1
  refine ⟨hl, fun j => ?_⟩
  rw [hQ, ← h.2, List.mem_cons]
  constructor
  · intro hj
    exact ⟨fun hji => hi (hji ▸ hj), .inr hj⟩
  · rintro ⟨hne, rfl | hj⟩
    · exact absurd rfl hne
    · exact hj

lemma head (h : Enumerates (i :: l) P) : P i := (h.2 i).1 (List.mem_cons_self ..)

end Enumerates

namespace Ring

variable {r : Ring ω} {C L F rest : List Nat} {i j : Nat} {s t : Stage}

/-! ## Stages and tasks after a step -/

/-- The stage of a slot, if the ring has it. -/
def stage? (r : Ring ω) (i : Nat) : Option Stage := (r.slots[i]?).map (·.stage)

lemma stage?_eq_some_iff : r.stage? i = some s ↔ i < r.capacity ∧ r.stage i = s := by
  by_cases h : i < r.slots.size
  · simp [stage?, stage, capacity, h]
  · simp [stage?, capacity, h]

lemma lt_capacity (h : r.stage? i = some s) : i < r.capacity := (stage?_eq_some_iff.1 h).1

lemma stage_of_stage? (h : r.stage? i = some s) : r.stage i = s := (stage?_eq_some_iff.1 h).2

lemma isCollectable_iff (h : i < r.capacity) :
    r.isCollectable i = true ↔ r.stage? i = some .reduced := by
  rw [stage?_eq_some_iff, isCollectable, beq_iff_eq]
  exact ⟨fun hs => ⟨h, hs⟩, fun hs => hs.2⟩

@[simp] lemma capacity_setStage : (r.setStage i s).capacity = r.capacity := by
  simp [capacity, setStage]

@[simp] lemma capacity_modifyTask {f : Task ω → Task ω} :
    (r.modifyTask i f).capacity = r.capacity := by
  simp [capacity, modifyTask]

lemma stage?_setStage :
    (r.setStage i s).stage? j = if j = i then (r.stage? j).map fun _ => s else r.stage? j := by
  simp only [stage?, setStage, Array.getElem?_modify]
  by_cases h : i = j
  · subst h
    cases r.slots[i]? <;> simp
  · simp [h, Ne.symm h]

@[simp] lemma stage?_modifyTask {f : Task ω → Task ω} :
    (r.modifyTask i f).stage? j = r.stage? j := by
  simp only [stage?, modifyTask, Array.getElem?_modify]
  by_cases h : i = j
  · subst h
    cases r.slots[i]? <;> simp
  · simp [h]

@[simp] lemma task_setStage : (r.setStage i s).task j = r.task j := by
  simp only [task, setStage, Array.getElem?_modify]
  by_cases h : i = j
  · subst h
    cases r.slots[i]? <;> simp
  · simp [h]

lemma task_modifyTask {f : Task ω → Task ω} :
    (r.modifyTask i f).task j = if j = i ∧ i < r.capacity then f (r.task j) else r.task j := by
  simp only [task, modifyTask, Array.getElem?_modify, capacity]
  by_cases h : i = j
  · subst h
    by_cases hi : i < r.slots.size <;> simp [hi]
  · simp [h, Ne.symm h]

lemma task_modifyTask_ne {f : Task ω → Task ω} (h : j ≠ i) :
    (r.modifyTask i f).task j = r.task j := by
  rw [task_modifyTask, if_neg fun h' => h h'.1]

@[simp] lemma task_claim : r.claim.task j = r.task j := by
  unfold claim
  split
  · rfl
  · exact task_setStage

@[simp] lemma task_publish : (r.publish i).task j = r.task j := task_setStage

@[simp] lemma task_lease : (r.lease i).task j = r.task j := task_setStage

@[simp] lemma task_ofCapacity {shard n : Nat} : (ofCapacity shard n : Ring ω).task i = {} := by
  unfold task ofCapacity
  by_cases hi : i < n <;> simp [hi]

lemma task_putBack :
    (r.putBack i).task j = if j = i ∧ i < r.capacity then (r.task j).cleared else r.task j :=
  task_setStage.trans task_modifyTask

lemma task_reduceTo {t : Task ω} :
    (r.reduceTo i rest t).task j = if j = i ∧ i < r.capacity then t else r.task j :=
  task_setStage.trans task_modifyTask

/-- The slots at stage `u` after one slot has moved from stage `s` to stage `t`. -/
lemma stage?_moved (h : r.stage? i = some s) {u : Stage} :
    (r.setStage i t).stage? j = some u ↔
      (j = i ∧ u = t) ∨ (j ≠ i ∧ r.stage? j = some u) := by
  rw [stage?_setStage]
  by_cases hj : j = i
  · subst hj
    simp [h, eq_comm]
  · simp [hj]

lemma stage?_moved_to (h : r.stage? i = some s) :
    (r.setStage i t).stage? j = some t ↔ j = i ∨ r.stage? j = some t := by
  rw [stage?_moved h]
  by_cases hj : j = i <;> simp [hj]

lemma stage?_moved_from (h : r.stage? i = some s) (hst : s ≠ t) :
    (r.setStage i t).stage? j = some s ↔ j ≠ i ∧ r.stage? j = some s := by
  rw [stage?_moved h]
  simp [hst]

lemma stage?_moved_of_ne (h : r.stage? i = some s) {u : Stage} (hs : u ≠ s) (ht : u ≠ t) :
    (r.setStage i t).stage? j = some u ↔ r.stage? j = some u := by
  rw [stage?_moved h]
  by_cases hj : j = i
  · subst hj
    simp [h, ht, hs.symm]
  · simp [hj]

/-- Published slots are not skipped. -/
lemma due_eq (h : ∀ i ∈ r.pending, r.stage? i = some .published) : r.due = r.pending := by
  unfold due
  cases hr : r.pending with
  | nil => rfl
  | cons i rest =>
    have hi := stage_of_stage? (h i (by rw [hr]; exact List.mem_cons_self ..))
    rw [List.dropWhile_cons_of_neg (by simp [hi])]

/-! ## Accounts -/

/-- The slots that producers hold, that consumers hold and that are in flight, with the free and
the pending ones, agree with the stages. -/
structure Accounts (r : Ring ω) (claimed leased flown : List Nat) : Prop where
  free : Enumerates r.free fun i => r.stage? i = some .free
  pending : Enumerates r.pending fun i => r.stage? i = some .published
  claimed : Enumerates claimed fun i => r.stage? i = some .claimed
  leased : Enumerates leased fun i => r.stage? i = some .leased
  flown : Enumerates flown fun i => r.stage? i = some .published ∨ r.stage? i = some .reduced

namespace Accounts

lemma perm (h : r.Accounts C L F) {C' L' F' : List Nat} (hC : C.Perm C') (hL : L.Perm L')
    (hF : F.Perm F') : r.Accounts C' L' F' :=
  ⟨h.free, h.pending, h.claimed.perm hC, h.leased.perm hL, h.flown.perm hF⟩

/-- Changing a task changes no account. -/
lemma modifyTask (h : r.Accounts C L F) (i : Nat) (f : Task ω → Task ω) :
    (r.modifyTask i f).Accounts C L F := by
  refine ⟨h.free.congr ?_, h.pending.congr ?_, h.claimed.congr ?_, h.leased.congr ?_,
    h.flown.congr ?_⟩ <;> simp

/-- All pending slots are published, so that none is skipped. -/
lemma due (h : r.Accounts C L F) : r.due = r.pending := due_eq fun i hi => (h.pending.2 i).1 hi

/-- The first free slot goes to a producer. -/
lemma claim (h : r.Accounts C L F) (hf : r.free = i :: rest) : r.claim.Accounts (i :: C) L F := by
  have hi : r.stage? i = some .free := (h.free.2 i).1 (by rw [hf]; exact List.mem_cons_self ..)
  have hc : r.claim = ({ r with free := rest } : Ring ω).setStage i .claimed := by
    simp only [Ring.claim, hf]
  rw [hc]
  refine ⟨?_, ?_, ?_, ?_, ?_⟩
  · have hfree := h.free
    rw [hf] at hfree
    exact hfree.tail fun j => stage?_moved_from hi (by decide)
  · exact h.pending.congr fun j => stage?_moved_of_ne hi (by decide) (by decide)
  · exact h.claimed.cons (by simp [hi]) fun j => stage?_moved_to hi
  · exact h.leased.congr fun j => stage?_moved_of_ne hi (by decide) (by decide)
  · refine h.flown.congr fun j => or_congr ?_ ?_
    · exact stage?_moved_of_ne hi (by decide) (by decide)
    · exact stage?_moved_of_ne hi (by decide) (by decide)

/-- A producer hands a slot over for reduction. -/
lemma publish (h : r.Accounts (i :: C) L F) : (r.publish i).Accounts C L (i :: F) := by
  have hi : r.stage? i = some .claimed := h.claimed.head
  refine ⟨?_, ?_, ?_, ?_, ?_⟩
  · exact h.free.congr fun j => stage?_moved_of_ne hi (by decide) (by decide)
  · exact h.pending.snoc (by simp [hi]) fun j => stage?_moved_to hi
  · exact h.claimed.tail fun j => stage?_moved_from hi (by decide)
  · exact h.leased.congr fun j => stage?_moved_of_ne hi (by decide) (by decide)
  · refine h.flown.cons (by simp [hi]) fun j => ?_
    rw [← or_assoc]
    exact or_congr (stage?_moved_to hi) (stage?_moved_of_ne hi (by decide) (by decide))

/-- A producer puts a slot back unpublished. -/
lemma putBack_claimed (h : r.Accounts (i :: C) L F) : (r.putBack i).Accounts C L F := by
  have h' := h.modifyTask i Task.cleared
  have hi : (r.modifyTask i Task.cleared).stage? i = some .claimed := h'.claimed.head
  refine ⟨?_, ?_, ?_, ?_, ?_⟩
  · exact h'.free.snoc (by simp [hi]) fun j => stage?_moved_to hi
  · exact h'.pending.congr fun j => stage?_moved_of_ne hi (by decide) (by decide)
  · exact h'.claimed.tail fun j => stage?_moved_from hi (by decide)
  · exact h'.leased.congr fun j => stage?_moved_of_ne hi (by decide) (by decide)
  · refine h'.flown.congr fun j => or_congr ?_ ?_
    · exact stage?_moved_of_ne hi (by decide) (by decide)
    · exact stage?_moved_of_ne hi (by decide) (by decide)

/-- A consumer gives a slot back. -/
lemma putBack_leased (h : r.Accounts C (i :: L) F) : (r.putBack i).Accounts C L F := by
  have h' := h.modifyTask i Task.cleared
  have hi : (r.modifyTask i Task.cleared).stage? i = some .leased := h'.leased.head
  refine ⟨?_, ?_, ?_, ?_, ?_⟩
  · exact h'.free.snoc (by simp [hi]) fun j => stage?_moved_to hi
  · exact h'.pending.congr fun j => stage?_moved_of_ne hi (by decide) (by decide)
  · exact h'.claimed.congr fun j => stage?_moved_of_ne hi (by decide) (by decide)
  · exact h'.leased.tail fun j => stage?_moved_from hi (by decide)
  · refine h'.flown.congr fun j => or_congr ?_ ?_
    · exact stage?_moved_of_ne hi (by decide) (by decide)
    · exact stage?_moved_of_ne hi (by decide) (by decide)

/-- A reduced slot goes to its consumer. -/
lemma lease (h : r.Accounts C L (i :: F)) (hi : r.stage? i = some .reduced) :
    (r.lease i).Accounts C (i :: L) F := by
  refine ⟨?_, ?_, ?_, ?_, ?_⟩
  · exact h.free.congr fun j => stage?_moved_of_ne hi (by decide) (by decide)
  · exact h.pending.congr fun j => stage?_moved_of_ne hi (by decide) (by decide)
  · exact h.claimed.congr fun j => stage?_moved_of_ne hi (by decide) (by decide)
  · exact h.leased.cons (by simp [hi]) fun j => stage?_moved_to hi
  · refine h.flown.tail fun j => ?_
    show (r.setStage i .leased).stage? j = _ ∨ (r.setStage i .leased).stage? j = _ ↔ _
    rw [stage?_moved_from hi (by decide), stage?_moved hi]
    by_cases hj : j = i <;> simp [hj]

/-- The first pending slot is reduced. -/
lemma reduceTo (h : r.Accounts C L F) (hp : r.pending = i :: rest) (t : Task ω) :
    (r.reduceTo i rest t).Accounts C L F := by
  have h' := h.modifyTask i fun _ => t
  have hi : (r.modifyTask i fun _ => t).stage? i = some .published :=
    (h'.pending.2 i).1 (by rw [pending_modifyTask, hp]; exact List.mem_cons_self ..)
  refine ⟨?_, ?_, ?_, ?_, ?_⟩
  · exact h'.free.congr fun j => stage?_moved_of_ne hi (by decide) (by decide)
  · have hpending := h'.pending
    rw [pending_modifyTask, hp] at hpending
    exact hpending.tail fun j => stage?_moved_from hi (by decide)
  · exact h'.claimed.congr fun j => stage?_moved_of_ne hi (by decide) (by decide)
  · exact h'.leased.congr fun j => stage?_moved_of_ne hi (by decide) (by decide)
  · refine h'.flown.congr fun j => ?_
    show ((r.modifyTask i fun _ => t).setStage i .reduced).stage? j = _ ∨
      ((r.modifyTask i fun _ => t).setStage i .reduced).stage? j = _ ↔ _
    rw [stage?_moved_to hi, stage?_moved_from hi (by decide)]
    by_cases hj : j = i
    · subst hj
      simp [hi]
    · simp [hj]

/-- A new ring has all its slots free. -/
lemma ofCapacity (shard n : Nat) : (Ring.ofCapacity shard n : Ring ω).Accounts [] [] [] := by
  have hs : ∀ i s, (Ring.ofCapacity shard n : Ring ω).stage? i = some s ↔ i < n ∧ s = .free := by
    intro i s
    by_cases hi : i < n
    · simp [Ring.ofCapacity, stage?, hi, eq_comm]
    · simp [Ring.ofCapacity, stage?, hi]
  have hnil : ∀ s, s ≠ .free →
      Enumerates [] fun i => (Ring.ofCapacity shard n : Ring ω).stage? i = some s :=
    fun s hne => ⟨List.nodup_nil, fun i => by simp [hs, hne]⟩
  refine ⟨⟨List.nodup_range, fun i => List.mem_range.trans ?_⟩, hnil _ (by decide),
    hnil _ (by decide), hnil _ (by decide), ⟨List.nodup_nil, fun i => by simp [hs]⟩⟩
  simp [hs]

/-- Every slot is in one of four lists. -/
lemma perm_range (h : r.Accounts C L F) :
    (r.free ++ (C ++ (L ++ F))).Perm (List.range r.capacity) := by
  have hdisj : ∀ {l l' : List Nat} {P Q : Nat → Prop}, Enumerates l P → Enumerates l' Q →
      (∀ i, P i → ¬ Q i) → l.Disjoint l' := fun hl hl' hPQ i hi hi' =>
    hPQ i ((hl.2 i).1 hi) ((hl'.2 i).1 hi')
  have hnodup : (r.free ++ (C ++ (L ++ F))).Nodup := by
    refine h.free.1.append (h.claimed.1.append (h.leased.1.append h.flown.1 ?_) ?_) ?_
    · exact hdisj h.leased h.flown fun i hi => by simp [hi]
    · rw [List.disjoint_append_right]
      exact ⟨hdisj h.claimed h.leased fun i hi => by simp [hi],
        hdisj h.claimed h.flown fun i hi => by simp [hi]⟩
    · rw [List.disjoint_append_right, List.disjoint_append_right]
      exact ⟨hdisj h.free h.claimed fun i hi => by simp [hi],
        hdisj h.free h.leased fun i hi => by simp [hi],
        hdisj h.free h.flown fun i hi => by simp [hi]⟩
  refine (List.perm_ext_iff_of_nodup hnodup List.nodup_range).2 fun i => ?_
  simp only [List.mem_append, List.mem_range, h.free.2, h.claimed.2, h.leased.2, h.flown.2]
  constructor
  · rintro (hi | hi | hi | hi | hi) <;> exact lt_capacity hi
  · intro hi
    cases hs : r.stage i <;> simp [stage?_eq_some_iff, hi, hs]

lemma length_add (h : r.Accounts C L F) :
    r.free.length + C.length + L.length + F.length = r.capacity := by
  have := h.perm_range.length_eq
  simp only [List.length_append, List.length_range] at this
  omega

/-- A slot that is held or in flight leaves room among the free ones. -/
lemma free_lt (h : r.Accounts C L F) (hi : i ∈ C ∨ i ∈ L ∨ i ∈ F) :
    r.free.length < r.capacity := by
  have := h.length_add
  rcases hi with hi | hi | hi <;> have := List.length_pos_of_mem hi <;> omega

/-- A slot that a producer holds leaves room among the pending ones. -/
lemma pending_lt (h : r.Accounts C L F) (hi : i ∈ C) : r.pending.length < r.capacity := by
  have hsub : r.pending ⊆ F := fun j hj => (h.flown.2 j).2 (.inl ((h.pending.2 j).1 hj))
  have hle := (List.subperm_of_subset h.pending.1 hsub).length_le
  have := h.length_add
  have := List.length_pos_of_mem hi
  omega

end Accounts

end Ring

end TableScan
