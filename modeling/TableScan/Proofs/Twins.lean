import TableScan.Proofs.Ages

/-!
# Twins

Two scans side by side that differ in who they are and in where they publish: their dispatchers
have the same frames, the same position and the same work, the slots of their rings are at the same
stages, and the tasks that matter there ask for the same and have come to the same.  Main
statements: the steps of a scan have the same outcome in twins, and leave twins behind
(`Scan.Twin.next?`, `Scan.Twin.steal`, `Scan.Twin.rewind`).
-/

namespace TableScan

variable {ω : Type} {a b : Nat} {p q : Nat → Nat}

/-! ## Tasks -/

/-- The work of an execution under the number of another dispatcher. -/
def Work.under (w : Work ω) (id : Nat) : Work ω := { w with dispatcher := id }

namespace Task

variable {t u : Task ω} {w : Work ω}

lemma run_of_idle (h : t.work = none) (x : ω) : t.run p x = (t, none, x) := by
  simp only [run, h]

lemma run_of_stale (h : t.work = some w) (he : t.epoch ≠ p w.dispatcher) (x : ω) :
    t.run p x = ({ t with rows := [] }, none, x) := by
  simp only [run, h, if_pos he]

lemma run_of_current (h : t.work = some w) (he : t.epoch = p w.dispatcher) (x : ω) :
    (t.run p x).1 =
        t.finish (w.reducer ⟨t.frame, t.rowCount⟩ (w.view.atFrame t.frame) w.filter x).1 ∧
      (t.run p x).2.2 =
        (w.reducer ⟨t.frame, t.rowCount⟩ (w.view.atFrame t.frame) w.filter x).2 := by
  simp only [run, h, if_neg (not_not_intro he)]
  rcases w.reducer ⟨t.frame, t.rowCount⟩ (w.view.atFrame t.frame) w.filter x with ⟨result, y⟩
  cases result <;> exact ⟨rfl, rfl⟩

/-- Two tasks of the dispatchers `a` and `b`.  One is out of date when the other is. -/
structure Own (a b : Nat) (p q : Nat → Nat) (t u : Task ω) : Prop where
  left : t.dispatcher = a
  right : u.dispatcher = b
  left_le : t.epoch ≤ p a
  right_le : u.epoch ≤ q b
  current : t.epoch = p a ↔ u.epoch = q b

/-- What two tasks ask for: nothing, the same of somebody else, or the same of the dispatchers `a`
and `b`, each in its own name. -/
inductive Asks (a b : Nat) (p q : Nat → Nat) (t u : Task ω) : Prop
  | nothing (left : t.work = none) (right : u.work = none)
  | other (w : Work ω) (left : t.work = some w) (right : u.work = some w)
      (not_left : w.dispatcher ≠ a) (not_right : w.dispatcher ≠ b) (epoch : u.epoch = t.epoch)
  | own (w : Work ω) (left : t.work = some w) (right : u.work = some (w.under b))
      (id : w.dispatcher = a) (own : Own a b p q t u)

/-- Two tasks that ask for the same and have come to the same. -/
structure Matches (a b : Nat) (p q : Nat → Nat) (t u : Task ω) : Prop where
  frame : u.frame = t.frame
  rowCount : u.rowCount = t.rowCount
  rows : u.rows = t.rows
  error : u.error = t.error
  asks : Asks a b p q t u

/-- A task that the dispatcher `a` has left behind, beside one that is run in vain: it leaves the
world alone. -/
structure Forsaken (a b : Nat) (p q : Nat → Nat) (t u : Task ω) : Prop where
  frame : u.frame = t.frame
  rowCount : u.rowCount = t.rowCount
  left : ∃ w, t.work = some w ∧ w.dispatcher = a ∧ t.epoch < p a
  right : ∃ v, u.work = some v ∧ v.dispatcher ≠ b ∧ (u.epoch = q v.dispatcher →
    ∀ x, (v.reducer ⟨u.frame, u.rowCount⟩ (v.view.atFrame u.frame) v.filter x).2 = x)

/-- Two tasks of twins. -/
def Twin (a b : Nat) (p q : Nat → Nat) (t u : Task ω) : Prop :=
  t.Matches a b p q u ∨ t.Forsaken a b p q u

/-- Tasks keep their owners and their epochs, whatever comes of them. -/
lemma Own.congr {t' u' : Task ω} (h : t.Own a b p q u) (ht : t'.dispatcher = t.dispatcher)
    (hu : u'.dispatcher = u.dispatcher) (ht' : t'.epoch = t.epoch) (hu' : u'.epoch = u.epoch) :
    t'.Own a b p q u' where
  left := ht.trans h.left
  right := hu.trans h.right
  left_le := ht' ▸ h.left_le
  right_le := hu' ▸ h.right_le
  current := by rw [ht', hu', h.current]

/-- Nothing is current any more in the next epochs. -/
lemma Own.later {p' q' : Nat → Nat} (h : t.Own a b p q u) (hp : p a < p' a) (hq : q b < q' b) :
    t.Own a b p' q' u := by
  have ht := Nat.lt_of_le_of_lt h.left_le hp
  have hu := Nat.lt_of_le_of_lt h.right_le hq
  exact ⟨h.left, h.right, ht.le, hu.le, fun he => absurd he ht.ne, fun he => absurd he hu.ne⟩

/-- Two tasks with other results ask for what they asked for before. -/
lemma Asks.results (h : t.Asks a b p q u) (rows rows' : List Nat) (error error' : Option Failure) :
    Asks a b p q { t with rows, error } { u with rows := rows', error := error' } := by
  cases h with
  | nothing left right => exact .nothing left right
  | other w left right not_left not_right epoch =>
    exact .other w left right not_left not_right epoch
  | own w left right id own => exact .own w left right id (own.congr rfl rfl rfl rfl)

lemma Forsaken.results (h : t.Forsaken a b p q u) (rows rows' : List Nat)
    (error error' : Option Failure) :
    Forsaken a b p q { t with rows, error } { u with rows := rows', error := error' } :=
  ⟨h.frame, h.rowCount, h.left, h.right⟩

namespace Matches

/-- Tasks that ask for nothing are as good as any without work. -/
lemma cleared (h : t.Matches a b p q u) : t.cleared.Matches a b p q u.cleared :=
  ⟨h.frame, h.rowCount, rfl, rfl, .nothing rfl rfl⟩

/-- Matching tasks come to the same, and do the same to the world. -/
lemma run (h : t.Matches a b p q u) (hpq : ∀ d, d ≠ a → d ≠ b → q d = p d) (x : ω) :
    (t.run p x).1.Matches a b p q (u.run q x).1 ∧ (u.run q x).2.2 = (t.run p x).2.2 := by
  obtain ⟨hframe, hcount, hrows, herror, hasks⟩ := h
  -- a task out of date loses its rows and keeps its error
  have hstale : ∀ w v, t.work = some w → u.work = some v → t.epoch ≠ p w.dispatcher →
      u.epoch ≠ q v.dispatcher → (t.run p x).1.Matches a b p q (u.run q x).1 ∧
        (u.run q x).2.2 = (t.run p x).2.2 := by
    intro w v hw hv ht hu
    rw [run_of_stale hw ht, run_of_stale hv hu]
    exact ⟨⟨hframe, hcount, rfl, herror, hasks.results [] [] t.error u.error⟩, rfl⟩
  -- a current task comes to what the reducer makes of it
  have hcurrent : ∀ w v, t.work = some w → u.work = some v → t.epoch = p w.dispatcher →
      u.epoch = q v.dispatcher → v.reducer = w.reducer → v.view = w.view → v.filter = w.filter →
      (t.run p x).1.Matches a b p q (u.run q x).1 ∧ (u.run q x).2.2 = (t.run p x).2.2 := by
    intro w v hw hv ht hu hreducer hview hfilter
    obtain ⟨ht₁, ht₂⟩ := run_of_current hw ht x
    obtain ⟨hu₁, hu₂⟩ := run_of_current hv hu x
    rw [hreducer, hview, hfilter, hframe, hcount] at hu₁ hu₂
    rw [ht₁, ht₂, hu₁, hu₂]
    refine ⟨?_, rfl⟩
    cases (w.reducer ⟨t.frame, t.rowCount⟩ (w.view.atFrame t.frame) w.filter x).1 with
    | finished rows error =>
      exact ⟨hframe, hcount, rfl, rfl, hasks.results rows rows error error⟩
    | failed failure =>
      exact ⟨hframe, hcount, rfl, rfl, hasks.results [] [] (some failure) (some failure)⟩
    | faulted fault =>
      refine ⟨hframe, hcount, rfl, ?_, hasks.results [] [] _ _⟩
      simp only [finish, hframe]
  cases hasks with
  | nothing left right =>
    rw [run_of_idle left, run_of_idle right]
    exact ⟨⟨hframe, hcount, hrows, herror, .nothing left right⟩, rfl⟩
  | other w left right not_left not_right epoch =>
    have hq := hpq _ not_left not_right
    by_cases ht : t.epoch = p w.dispatcher
    · exact hcurrent w w left right ht (by rw [hq, epoch, ht]) rfl rfl rfl
    · exact hstale w w left right ht (by rwa [hq, epoch])
  | own w left right id own =>
    by_cases ht : t.epoch = p a
    · exact hcurrent w _ left right (id ▸ ht) (own.current.1 ht) rfl rfl rfl
    · exact hstale w _ left right (id ▸ ht) fun hu => ht (own.current.2 hu)

end Matches

/-- A task left behind comes back empty, and the one beside it leaves the world alone. -/
lemma Forsaken.run (h : t.Forsaken a b p q u) (x : ω) :
    (t.run p x).1.Forsaken a b p q (u.run q x).1 ∧ (u.run q x).2.2 = (t.run p x).2.2 := by
  obtain ⟨w, hw, hid, hlt⟩ := h.left
  obtain ⟨v, hv, -, hvain⟩ := h.right
  have hworld : (u.run q x).2.2 = x := by
    by_cases hu : u.epoch = q v.dispatcher
    · rw [(run_of_current hv hu x).2, hvain hu]
    · rw [run_of_stale hv hu]
  obtain ⟨rows, error, hresult⟩ : ∃ rows error, (u.run q x).1 = { u with rows, error } := run_eq rfl
  rw [hworld, hresult, run_of_stale hw (hid ▸ Nat.ne_of_lt hlt)]
  exact ⟨h.results [] rows t.error error, rfl⟩

lemma Twin.run (h : t.Twin a b p q u) (hpq : ∀ d, d ≠ a → d ≠ b → q d = p d) (x : ω) :
    (t.run p x).1.Twin a b p q (u.run q x).1 ∧ (u.run q x).2.2 = (t.run p x).2.2 := by
  rcases h with h | h
  · exact ⟨.inl (h.run hpq x).1, (h.run hpq x).2⟩
  · exact ⟨.inr (h.run x).1, (h.run x).2⟩

lemma Twin.cleared (h : t.Twin a b p q u) : t.cleared.Twin a b p q u.cleared := by
  rcases h with h | h
  · exact .inl h.cleared
  · exact .inl ⟨h.frame, h.rowCount, rfl, rfl, .nothing rfl rfl⟩

lemma Matches.later {p' q' : Nat → Nat} (h : t.Matches a b p q u) (hp : p a < p' a)
    (hq : q b < q' b) : t.Matches a b p' q' u := by
  refine { h with asks := ?_ }
  cases h.asks with
  | nothing left right => exact .nothing left right
  | other w left right not_left not_right epoch =>
    exact .other w left right not_left not_right epoch
  | own w left right id own => exact .own w left right id (own.later hp hq)

/-- Two matching tasks of the dispatchers `a` and `b`. -/
structure Peer (a b : Nat) (p q : Nat → Nat) (t u : Task ω) : Prop
    extends Matches a b p q t u where
  own : t.Own a b p q u

namespace Peer

lemma cleared (h : t.Peer a b p q u) : t.cleared.Peer a b p q u.cleared :=
  ⟨h.toMatches.cleared, h.own.congr rfl rfl rfl rfl⟩

lemma run (h : t.Peer a b p q u) (hpq : ∀ d, d ≠ a → d ≠ b → q d = p d) (x : ω) :
    (t.run p x).1.Peer a b p q (u.run q x).1 := by
  obtain ⟨rows, error, ht⟩ : ∃ rows error, (t.run p x).1 = { t with rows, error } := run_eq rfl
  obtain ⟨rows', error', hu⟩ : ∃ rows error, (u.run q x).1 = { u with rows, error } := run_eq rfl
  refine ⟨(h.toMatches.run hpq x).1, ?_⟩
  rw [ht, hu]
  exact h.own.congr rfl rfl rfl rfl

lemma later {p' q' : Nat → Nat} (h : t.Peer a b p q u) (hp : p a < p' a) (hq : q b < q' b) :
    t.Peer a b p' q' u := ⟨h.toMatches.later hp hq, h.own.later hp hq⟩

end Peer

lemma Twin.later {p' q' : Nat → Nat} (h : t.Twin a b p q u) (hp : p a < p' a)
    (hq : q b < q' b) (hq' : ∀ d, d ≠ b → q' d = q d) : t.Twin a b p' q' u := by
  rcases h with h | ⟨hframe, hcount, ⟨w, hw, hid, hlt⟩, v, hv, hne, hvain⟩
  · exact .inl (h.later hp hq)
  · exact .inr ⟨hframe, hcount, ⟨w, hw, hid, hlt.trans hp⟩, v, hv, hne, hq' _ hne ▸ hvain⟩

end Task

/-! ## Rings -/

namespace Ring

variable {r r' : Ring ω} {k : Nat} {rest : List Nat} {P Q : Nat → Prop}

/-- The ring with its number and all its tasks wiped out: its slots with their stages. -/
def blank (r : Ring ω) : Ring ω :=
  { r with shard := 0, slots := r.slots.map fun s => { s with task := {} } }

@[simp] lemma blank_setStage (s : Stage) : (r.setStage k s).blank = r.blank.setStage k s := by
  simp only [blank, setStage, Ring.mk.injEq, true_and, and_true]
  refine Array.ext (by simp) fun j h₁ h₂ => ?_
  simp only [Array.getElem_map, Array.getElem_modify]
  split <;> rfl

@[simp] lemma blank_modifyTask (f : Task ω → Task ω) : (r.modifyTask k f).blank = r.blank := by
  simp only [blank, modifyTask, Ring.mk.injEq, true_and, and_true]
  refine Array.ext (by simp) fun j h₁ h₂ => ?_
  simp only [Array.getElem_map, Array.getElem_modify]
  split <;> rfl

@[simp] lemma blank_claim : r.claim.blank = r.blank.claim := by
  have hfree : r.blank.free = r.free := rfl
  unfold claim
  rw [hfree]
  cases r.free with
  | nil => rfl
  | cons k rest => exact blank_setStage (r := { r with free := rest }) .claimed

@[simp] lemma blank_publish : (r.publish k).blank = r.blank.publish k := by
  unfold publish
  rw [← blank_setStage]
  rfl

lemma blank_putBack : (r.putBack k).blank =
    { r.blank.setStage k .free with free := r.blank.free ++ [k] } := by
  rw [← blank_modifyTask (r := r) (k := k) Task.cleared, ← blank_setStage]
  rfl

lemma blank_reduceTo (t : Task ω) : (r.reduceTo k rest t).blank =
    { r.blank.setStage k .reduced with pending := rest } := by
  rw [← blank_modifyTask (r := r) (k := k) fun _ => t, ← blank_setStage]
  rfl

@[simp] lemma blank_lease : (r.lease k).blank = r.blank.lease k := blank_setStage _

@[simp] lemma capacity_blank : r.blank.capacity = r.capacity := by simp [blank, capacity]

@[simp] lemma stage_blank : r.blank.stage k = r.stage k := by
  simp only [stage, blank, Array.getElem?_map]
  cases r.slots[k]? <;> rfl

lemma capacity_claim : r.claim.capacity = r.capacity := by
  unfold claim
  cases r.free with
  | nil => rfl
  | cons k rest => exact capacity_setStage

lemma task_of_le (h : r.capacity ≤ k) : r.task k = {} := by
  simp [task, Array.getElem?_eq_none h]

/-- Two rings of twins: their slots are at the same stages.  The tasks that nobody has run yet are
those of twins, and some slots hold tasks of the twins' own. -/
structure Twin (a b : Nat) (p q : Nat → Nat) (P : Nat → Prop) (r r' : Ring ω) : Prop where
  blank : r'.blank = r.blank
  pending : ∀ k ∈ r.pending, (r.task k).Twin a b p q (r'.task k)
  apart : ∀ k, P k → k < r.capacity → (r.task k).Peer a b p q (r'.task k)

namespace Twin

lemma free (h : r.Twin a b p q P r') : r'.free = r.free := (congrArg Ring.free h.blank :)

lemma capacity (h : r.Twin a b p q P r') : r'.capacity = r.capacity := by
  rw [← capacity_blank, h.blank, capacity_blank]

lemma stage (h : r.Twin a b p q P r') : r'.stage = r.stage := by
  funext k
  rw [← stage_blank, h.blank, stage_blank]

lemma due (h : r.Twin a b p q P r') : r'.due = r.due := by
  have hpending : r'.pending = r.pending := (congrArg Ring.pending h.blank :)
  rw [Ring.due, Ring.due, h.stage, hpending]

/-- The task of one slot changes in both rings, and perhaps some stages do. -/
lemma change {s s' : Ring ω} (h : r.Twin a b p q P r') (f f' : Task ω → Task ω)
    (hblank : s'.blank = s.blank) (hcap : s.capacity = r.capacity)
    (hsub : ∀ j ∈ s.pending, j ∈ r.pending)
    (hs : ∀ j, s.task j = if j = k ∧ k < r.capacity then f (r.task j) else r.task j)
    (hs' : ∀ j, s'.task j = if j = k ∧ k < r'.capacity then f' (r'.task j) else r'.task j)
    (htask : k ∈ r.pending → (f (r.task k)).Twin a b p q (f' (r'.task k)))
    (hhere : Q k → k < r.capacity → (f (r.task k)).Peer a b p q (f' (r'.task k)))
    (hthere : ∀ j, j ≠ k → Q j → P j) : s.Twin a b p q Q s' := by
  refine ⟨hblank, fun j hj => ?_, fun j hj hlt => ?_⟩ <;> rw [hs, hs', h.capacity]
  · split
    · rename_i hjk
      exact hjk.1 ▸ htask (hjk.1 ▸ hsub j hj)
    · exact h.pending j (hsub j hj)
  · rw [hcap] at hlt
    split
    · rename_i hjk
      obtain ⟨rfl, -⟩ := hjk
      exact hhere hj hlt
    · rename_i hjk
      exact h.apart j (hthere j (fun he => hjk ⟨he, he ▸ hlt⟩) hj) hlt

/-- The stages change in both rings, and no task does. -/
lemma restage {f : Ring ω → Ring ω} (h : r.Twin a b p q P r')
    (hblank : ∀ r : Ring ω, (f r).blank = f r.blank) (hcap : (f r).capacity = r.capacity)
    (hf : ∀ (r : Ring ω) j, (f r).task j = r.task j)
    (hpending : ∀ j ∈ (f r).pending, (r.task j).Twin a b p q (r'.task j)) :
    (f r).Twin a b p q P (f r') := by
  refine ⟨by rw [hblank, hblank, h.blank], fun j hj => ?_, fun j hj hlt => ?_⟩ <;> rw [hf, hf]
  · exact hpending j hj
  · exact h.apart j hj (hcap ▸ hlt)

/-- A task is written into a slot of both rings, which is published. -/
lemma write {t u : Task ω} (h : r.Twin a b p q P r') (ht : t.Peer a b p q u) (k : Nat) :
    Twin a b p q (fun l => P l ∨ l = k) ((r.modifyTask k fun _ => t).publish k)
      ((r'.modifyTask k fun _ => u).publish k) := by
  have hwritten : Twin a b p q (fun l => P l ∨ l = k) (r.modifyTask k fun _ => t)
      (r'.modifyTask k fun _ => u) := by
    refine h.change (fun _ => t) (fun _ => u) ?_ capacity_modifyTask (fun _ hj => hj)
      (fun _ => task_modifyTask) (fun _ => task_modifyTask) (fun _ => .inl ht.toMatches)
      (fun _ _ => ht) fun j hj hP => hP.resolve_right hj
    rw [blank_modifyTask, blank_modifyTask, h.blank]
  refine hwritten.restage (f := (·.publish k)) (fun _ => blank_publish) capacity_setStage
    (fun _ _ => task_publish) fun j hj => ?_
  rcases List.mem_append.1 hj with hj | hj
  · exact hwritten.pending j hj
  · obtain rfl := List.mem_singleton.1 hj
    by_cases hlt : j < (r.modifyTask j fun _ => t).capacity
    · exact .inl (hwritten.apart j (.inr rfl) hlt).toMatches
    · -- a slot past the last one has no task at all
      have hle := Nat.le_of_not_lt hlt
      rw [task_of_le hle, task_of_le (hwritten.capacity ▸ hle)]
      exact .inl ⟨rfl, rfl, rfl, rfl, .nothing rfl rfl⟩

lemma putBack (h : r.Twin a b p q P r') (k : Nat) :
    (r.putBack k).Twin a b p q P (r'.putBack k) := by
  refine h.change Task.cleared Task.cleared ?_ ?_ (fun _ hj => hj) (fun j => task_putBack)
    (fun j => task_putBack) (fun hk => (h.pending k hk).cleared)
    (fun hk hlt => (h.apart k hk hlt).cleared) fun _ _ hj => hj
  · rw [blank_putBack, blank_putBack, h.blank]
  · exact capacity_setStage.trans capacity_modifyTask

/-- The oldest published slot of both rings has been reduced. -/
lemma reduceTo {t u : Task ω} (h : r.Twin a b p q P r') (hdue : r.due = k :: rest)
    (htask : t.Twin a b p q u) (hpeer : P k → k < r.capacity → t.Peer a b p q u) :
    (r.reduceTo k rest t).Twin a b p q P (r'.reduceTo k rest u) := by
  refine h.change (fun _ => t) (fun _ => u) ?_ ?_ (fun j hj => ?_) (fun _ => task_reduceTo)
    (fun _ => task_reduceTo) (fun _ => htask) hpeer fun _ _ hj => hj
  · rw [blank_reduceTo, blank_reduceTo, h.blank]
  · exact capacity_setStage.trans capacity_modifyTask
  · exact (List.dropWhile_suffix _).subset (hdue ▸ List.mem_cons_of_mem _ hj)

end Twin

end Ring

/-! ## Engines -/

/-- Two leases of twins that publish into the rings `i` and `j`: of the same slot there, or both of
some slot elsewhere. -/
def Lease.Twin (i j : Nat) (l l' : Lease) : Prop :=
  l.ring = i ∧ l'.ring = j ∧ l'.slot = l.slot ∨ l.ring ≠ i ∧ l'.ring ≠ j

namespace Engine

variable {e e' : Engine ω} {i j k : Nat} {P Q : Nat → Prop}

/-- Two engines of twins whose dispatchers are `a` and `b`, and whose rings are `i` and `j`.  Some
slots there hold tasks of the twins' own. -/
structure Twin (a b i j : Nat) (P : Nat → Prop) (e e' : Engine ω) : Prop where
  left_lt : a < e.epochs.size
  right_lt : b < e'.epochs.size
  ring : Option.Rel (Ring.Twin a b e.epoch e'.epoch P) e.rings[i]? e'.rings[j]?
  epochs : ∀ d, d ≠ a → d ≠ b → e'.epoch d = e.epoch d
  patience : e'.patienceOf = e.patienceOf
  clock : e'.clock = e.clock
  world : e'.world = e.world

namespace Twin

/-- The ring of the twins is in both engines or in neither. -/
lemma ring_cases (h : e.Twin a b i j P e') :
    (e.rings[i]? = none ∧ e'.rings[j]? = none) ∨
      ∃ r r', e.rings[i]? = some r ∧ e'.rings[j]? = some r' ∧
        r.Twin a b e.epoch e'.epoch P r' := by
  have hring := h.ring
  generalize hr : e.rings[i]? = x, hr' : e'.rings[j]? = y at hring
  cases hring with
  | none => exact .inl ⟨rfl, rfl⟩
  | some hring => exact .inr ⟨_, _, rfl, rfl, hring⟩

/-- What neither the ring nor an epoch depends on changes alike. -/
lemma congr {f f' : Engine ω} (h : e.Twin a b i j P e') (hr : f.rings[i]? = e.rings[i]?)
    (hr' : f'.rings[j]? = e'.rings[j]?) (hp : f.epochs = e.epochs) (hp' : f'.epochs = e'.epochs)
    (hh : f.patienceOf = e.patienceOf) (hh' : f'.patienceOf = e'.patienceOf)
    (hc : f'.clock = f.clock) (hw : f'.world = f.world) : f.Twin a b i j P f' := by
  have hepoch : f.epoch = e.epoch := funext fun d => by simp [epoch, hp]
  have hepoch' : f'.epoch = e'.epoch := funext fun d => by simp [epoch, hp']
  refine ⟨hp ▸ h.left_lt, hp' ▸ h.right_lt, ?_, ?_, ?_, hc, hw⟩
  · rw [hepoch, hepoch', hr, hr']
    exact h.ring
  · rw [hepoch, hepoch']
    exact h.epochs
  · rw [hh, hh', h.patience]

/-- The ring of the twins changes in both engines. -/
lemma modifyRing {f f' : Ring ω → Ring ω} (h : e.Twin a b i j P e')
    (hf : ∀ r r', e.rings[i]? = some r → r.Twin a b e.epoch e'.epoch P r' →
      (f r).Twin a b e.epoch e'.epoch Q (f' r')) :
    (e.modifyRing i f).Twin a b i j Q (e'.modifyRing j f') := by
  refine ⟨h.left_lt, h.right_lt, ?_, h.epochs, h.patience, h.clock, h.world⟩
  rw [getElem?_modifyRing, getElem?_modifyRing, if_pos rfl, if_pos rfl, epoch_modifyRing,
    epoch_modifyRing]
  rcases h.ring_cases with ⟨hr, hr'⟩ | ⟨r, r', hr, hr', hring⟩ <;> rw [hr, hr']
  · exact .none
  · exact .some (hf r r' hr hring)

/-- Fewer slots are set apart. -/
lemma mono (h : e.Twin a b i j P e') (hQ : ∀ k, Q k → P k) : e.Twin a b i j Q e' := by
  refine { h with ring := ?_ }
  rcases h.ring_cases with ⟨hr, hr'⟩ | ⟨r, r', hr, hr', hring⟩ <;> rw [hr, hr']
  · exact .none
  · exact .some ⟨hring.blank, hring.pending, fun k hk => hring.apart k (hQ k hk)⟩

/-- A saturated ring is so in both engines, and otherwise the same slot is claimed. -/
lemma claim? (h : e.Twin a b i j P e') :
    (e.claim? i = none ∧ e'.claim? j = none) ∨
      ∃ slot, e.claim? i = some (slot, e.modifyRing i Ring.claim) ∧
        e'.claim? j = some (slot, e'.modifyRing j Ring.claim) ∧
        (e.modifyRing i Ring.claim).Twin a b i j P (e'.modifyRing j Ring.claim) := by
  unfold Engine.claim?
  rcases h.ring_cases with ⟨hr, hr'⟩ | ⟨r, r', hr, hr', hring⟩ <;> rw [hr, hr']
  · exact .inl ⟨rfl, rfl⟩
  · dsimp only
    rw [hring.free]
    cases r.free with
    | nil => exact .inl ⟨rfl, rfl⟩
    | cons slot rest =>
      refine .inr ⟨slot, rfl, rfl, h.modifyRing fun r r' _ hring => ?_⟩
      exact hring.restage (fun _ => Ring.blank_claim) Ring.capacity_claim
        (fun _ _ => Ring.task_claim) fun j hj => hring.pending j (r.pending_claim ▸ hj)

/-- A task of the twins' own is published in a slot. -/
lemma publish {t u : Task ω} (h : e.Twin a b i j P e') (ht : t.Peer a b e.epoch e'.epoch u)
    (k : Nat) : Twin a b i j (fun l => P l ∨ l = k)
      ((e.modifyRing i (·.modifyTask k fun _ => t)).publish i k)
      ((e'.modifyRing j (·.modifyTask k fun _ => u)).publish j k) := by
  have hboth : Twin a b i j (fun l => P l ∨ l = k)
      (e.modifyRing i fun r => (r.modifyTask k fun _ => t).publish k)
      (e'.modifyRing j fun r => (r.modifyTask k fun _ => u).publish k) :=
    h.modifyRing fun r r' _ hring => hring.write ht k
  have hrings : ∀ (e : Engine ω) i (t : Task ω),
      ((e.modifyRing i (·.modifyTask k fun _ => t)).publish i k).rings[i]? =
        (e.modifyRing i fun r => (r.modifyTask k fun _ => t).publish k).rings[i]? := by
    intro e i t
    simp only [Engine.publish, getElem?_modifyRing, if_true]
    cases e.rings[i]? <;> rfl
  exact hboth.congr (hrings e i t) (hrings e' j u) rfl rfl rfl rfl h.clock h.world

/-- A slot that is set apart holds tasks of the twins' own. -/
lemma peers (h : e.Twin a b i j P e') {r : Ring ω} (hr : e.rings[i]? = some r) (hk : P k)
    (hlt : k < r.capacity) : (e.task i k).Peer a b e.epoch e'.epoch (e'.task j k) := by
  rcases h.ring_cases with ⟨hn, -⟩ | ⟨s, r', hs, hr', hring⟩
  · rw [hr] at hn
    cases hn
  · obtain rfl : r = s := Option.some.inj (hr.symm.trans hs)
    rw [task_eq hr, task_eq hr']
    exact hring.apart k hk hlt

lemma leased (h : e.Twin a b i j P e') (x y : Inbox) (k : Nat) :
    (x.leased e i k).Twin a b i j P (y.leased e' j k) := by
  have hring : (e.modifyRing i (·.lease k)).Twin a b i j P (e'.modifyRing j (·.lease k)) :=
    h.modifyRing fun r r' _ hring => hring.restage (f := (·.lease k))
      (fun _ => Ring.blank_lease) Ring.capacity_setStage (fun _ _ => Ring.task_lease) hring.pending
  exact hring.congr rfl rfl rfl rfl rfl rfl h.clock h.world

lemma release {l l' : Lease} (h : e.Twin a b i j P e') (hl : l.Twin i j l') :
    (e.release l).Twin a b i j P (e'.release l') := by
  rcases hl with ⟨rfl, rfl, hslot⟩ | ⟨hi, hj⟩
  · have hback : (e.putBack l.ring l.slot).Twin a b l.ring l'.ring P
        (e'.putBack l'.ring l'.slot) := by
      rw [hslot]
      exact h.modifyRing fun r r' _ hring => hring.putBack l.slot
    exact hback.congr rfl rfl rfl rfl rfl rfl h.clock h.world
  · exact h.congr (getElem?_modifyRing_ne hi.symm) (getElem?_modifyRing_ne hj.symm) rfl rfl rfl rfl
      h.clock h.world

/-- The oldest published slot of the ring is reduced in both engines, if there is one. -/
lemma reduceOldest (h : e.Twin a b i j P e') :
    (e'.reduceOldest j).1 = (e.reduceOldest i).1 ∧
      (e.reduceOldest i).2.Twin a b i j P (e'.reduceOldest j).2 := by
  unfold Engine.reduceOldest
  rcases h.ring_cases with ⟨hr, hr'⟩ | ⟨r, r', hr, hr', hring⟩ <;> rw [hr, hr']
  · exact ⟨rfl, h⟩
  · dsimp only
    rw [hring.due]
    cases hdue : r.due with
    | nil =>
      refine ⟨rfl, h.modifyRing fun r r' _ hring => ?_⟩
      exact hring.restage (f := ({ · with pending := [] })) (fun _ => rfl) rfl
        (fun _ _ => rfl) nofun
    | cons slot rest =>
      have hmem : slot ∈ r.pending :=
        (List.dropWhile_suffix _).subset (hdue ▸ List.mem_cons_self ..)
      obtain ⟨htask, hworld⟩ := (hring.pending slot hmem).run h.epochs e.world
      have hpeer := fun hk hlt => (hring.apart slot hk hlt).run h.epochs e.world
      dsimp only
      rw [h.world]
      generalize (r.task slot).run e.epoch e.world = x,
        (r'.task slot).run e'.epoch e.world = y at htask hworld hpeer ⊢
      obtain ⟨t, fault, w⟩ := x
      obtain ⟨u, fault', w'⟩ := y
      obtain rfl : w' = w := hworld
      have hplace : (e.withWorld w').Twin a b i j P (e'.withWorld w') :=
        h.congr rfl rfl rfl rfl rfl rfl h.clock rfl
      have hreduced : ((e.withWorld w').modifyRing i (·.reduceTo slot rest t)).Twin a b i j P
          ((e'.withWorld w').modifyRing j (·.reduceTo slot rest u)) := by
        refine hplace.modifyRing fun s s' hs hsame => ?_
        obtain rfl : r = s := Option.some.inj (hr.symm.trans hs)
        exact hsame.reduceTo hdue htask hpeer
      refine ⟨rfl, ?_⟩
      dsimp only
      split <;> split <;>
        exact hreduced.congr rfl rfl rfl rfl rfl rfl hreduced.clock hreduced.world

/-- Both dispatchers begin an epoch, and nothing of theirs is current any more. -/
lemma nextEpoch (h : e.Twin a b i j P e') : (e.nextEpoch a).Twin a b i j P (e'.nextEpoch b) := by
  have hp : e.epoch a < (e.nextEpoch a).epoch a := by
    rw [epoch_nextEpoch, if_pos ⟨rfl, h.left_lt⟩]
    exact Nat.lt_succ_self _
  have hq : e'.epoch b < (e'.nextEpoch b).epoch b := by
    rw [epoch_nextEpoch, if_pos ⟨rfl, h.right_lt⟩]
    exact Nat.lt_succ_self _
  have hp' : ∀ d, d ≠ a → (e.nextEpoch a).epoch d = e.epoch d := by
    intro d hd
    rw [epoch_nextEpoch, if_neg fun ha => hd ha.1.symm]
  have hq' : ∀ d, d ≠ b → (e'.nextEpoch b).epoch d = e'.epoch d := by
    intro d hd
    rw [epoch_nextEpoch, if_neg fun hb => hd hb.1.symm]
  refine ⟨by simpa [Engine.nextEpoch] using h.left_lt,
    by simpa [Engine.nextEpoch] using h.right_lt, ?_, fun d ha hb => ?_, h.patience, h.clock,
    h.world⟩
  · show Option.Rel _ e.rings[i]? e'.rings[j]?
    rcases h.ring_cases with ⟨hr, hr'⟩ | ⟨r, r', hr, hr', hring⟩ <;> rw [hr, hr']
    · exact .none
    · exact .some ⟨hring.blank, fun k hk => (hring.pending k hk).later hp hq hq',
        fun k hk hlt => (hring.apart k hk hlt).later hp hq⟩
  · rw [hp' d ha, hq' d hb, h.epochs d ha hb]

end Twin

end Engine

/-! ## Scans -/

/-- The dispatcher under another number, at work for another shard. -/
def Dispatcher.under (d : Dispatcher ω) (id ring : Nat) (shard : Option Nat) : Dispatcher ω :=
  { d with id, shard, ring := some ring, work := d.work.map (·.under id) }

namespace Scan

variable {s t : Scan ω} {i j : Nat}

/-- Two scans that differ in who they are: their dispatchers are `a` and `b`, and publish into the
rings `i` and `j`, which their inboxes listen to. -/
structure Twin (a b i j : Nat) (s t : Scan ω) : Prop where
  id : s.dispatcher.id = a
  work : ∀ w, s.dispatcher.work = some w → w.dispatcher = a
  ring : s.dispatcher.ring = some i
  dispatcher : ∃ shard, t.dispatcher = s.dispatcher.under b j shard
  left : s.inbox.ring = some i
  right : t.inbox.ring = some j
  inFlight : t.inbox.inFlight = s.inbox.inFlight
  engine : s.engine.Twin a b i j (· ∈ s.inbox.inFlight) t.engine

namespace Twin

/-- The engines of twins take a step that leaves the scans as they are. -/
lemma onEngine (h : s.Twin a b i j t) {e e' : Engine ω}
    (he : e.Twin a b i j (· ∈ s.inbox.inFlight) e') :
    Twin a b i j { s with engine := e } { t with engine := e' } :=
  { h with engine := he }

lemma id_right (h : s.Twin a b i j t) : t.dispatcher.id = b := by
  obtain ⟨shard, hd⟩ := h.dispatcher
  exact hd ▸ rfl

lemma ring_right (h : s.Twin a b i j t) : t.dispatcher.ring = some j := by
  obtain ⟨shard, hd⟩ := h.dispatcher
  exact hd ▸ rfl

lemma position (h : s.Twin a b i j t) : t.dispatcher.position = s.dispatcher.position := by
  obtain ⟨shard, hd⟩ := h.dispatcher
  exact hd ▸ rfl

/-- Twins have a task for the same frame to publish, or none. -/
lemma nextTask (h : s.Twin a b i j t) :
    (s.dispatcher.next? s.engine = none ∧ t.dispatcher.next? t.engine = none) ∨
      ∃ x y, s.dispatcher.next? s.engine = some x ∧ t.dispatcher.next? t.engine = some y ∧
        x.Peer a b s.engine.epoch t.engine.epoch y := by
  obtain ⟨shard, hd⟩ := h.dispatcher
  rw [hd]
  unfold Dispatcher.next?
  have hframe : (s.dispatcher.under b j shard).frameAt? (s.dispatcher.under b j shard).position =
      s.dispatcher.frameAt? s.dispatcher.position := rfl
  have hwork : (s.dispatcher.under b j shard).work = s.dispatcher.work.map (·.under b) := rfl
  rw [hframe, hwork]
  cases hw : s.dispatcher.work with
  | none => exact .inl ⟨rfl, rfl⟩
  | some work =>
    cases s.dispatcher.frameAt? s.dispatcher.position with
    | none => exact .inl ⟨rfl, rfl⟩
    | some frame =>
      have hown : Task.Own a b s.engine.epoch t.engine.epoch
          (.ask work (s.engine.epoch s.dispatcher.id) frame (s.dispatcher.directory.rowCount frame))
          (.ask (work.under b) (t.engine.epoch b) frame (s.dispatcher.directory.rowCount frame)) :=
        ⟨h.work work hw, rfl, h.id ▸ Nat.le_refl _, Nat.le_refl _, fun _ => rfl,
          fun _ => h.id ▸ rfl⟩
      exact .inr ⟨_, _, rfl, rfl,
        ⟨rfl, rfl, rfl, rfl, .own work rfl rfl (h.work work hw) hown⟩, hown⟩

/-- Twins publish the same frame into the same slot, or both nothing. -/
lemma publishOne? (h : s.Twin a b i j t) :
    (s.publishOne? = none ∧ t.publishOne? = none) ∨
      ∃ s' t', s.publishOne? = some s' ∧ t.publishOne? = some t' ∧ s'.Twin a b i j t' := by
  unfold Scan.publishOne?
  rw [h.ring, h.ring_right]
  rcases h.nextTask with ⟨hx, hy⟩ | ⟨x, y, hx, hy, hmatch⟩ <;> rw [hx, hy]
  · exact .inl ⟨rfl, rfl⟩
  · rcases h.engine.claim? with ⟨hc, hc'⟩ | ⟨slot, hc, hc', he⟩ <;> dsimp only <;> rw [hc, hc']
    · exact .inl ⟨rfl, rfl⟩
    · obtain ⟨shard, hd⟩ := h.dispatcher
      refine .inr ⟨_, _, rfl, rfl, h.id, h.work, h.ring, ⟨shard, ?_⟩, h.left, h.right, ?_, ?_⟩
      · exact congrArg Dispatcher.advance hd
      · exact congrArg (· ++ [slot]) h.inFlight
      · refine (he.publish hmatch slot).mono fun k hk => ?_
        exact (List.mem_append.1 hk).imp_right List.mem_singleton.1

lemma publish (h : s.Twin a b i j t) : s.publish.Twin a b i j t.publish := by
  suffices hn : ∀ n (s t : Scan ω), s.Twin a b i j t →
      (publishUpTo n s).Twin a b i j (publishUpTo n t) by
    obtain ⟨shard, hd⟩ := h.dispatcher
    have hleft : t.dispatcher.frameCount - t.dispatcher.position =
        s.dispatcher.frameCount - s.dispatcher.position := hd ▸ rfl
    unfold Scan.publish
    rw [hleft]
    exact hn _ s t h
  intro n
  induction n with
  | zero => exact fun s t h => h
  | succ n ih =>
    intro s t h
    unfold publishUpTo
    rcases h.publishOne? with ⟨hs, ht⟩ | ⟨s', t', hs, ht, h'⟩ <;> rw [hs, ht]
    · exact h
    · exact ih s' t' h'

/-- The next slot of one twin is ready when that of the other is. -/
lemma ready? (h : s.Twin a b i j t) :
    (∃ fault, s.inbox.ready? s.engine = .error fault ∧ t.inbox.ready? t.engine = .error fault) ∨
      (s.inbox.ready? s.engine = .ok none ∧ t.inbox.ready? t.engine = .ok none) ∨
      ∃ slot ∈ s.inbox.inFlight, ∃ r, s.engine.rings[i]? = some r ∧ slot < r.capacity ∧
        s.inbox.ready? s.engine = .ok (some (i, slot)) ∧
          t.inbox.ready? t.engine = .ok (some (j, slot)) := by
  unfold Inbox.ready?
  rw [h.left, h.right, h.inFlight]
  cases s.inbox.inFlight with
  | nil => exact .inr (.inl ⟨rfl, rfl⟩)
  | cons slot rest =>
    rcases h.engine.ring_cases with ⟨hr, hr'⟩ | ⟨r, r', hr, hr', hring⟩ <;>
      dsimp only <;> rw [hr, hr']
    · exact .inl ⟨_, rfl, rfl⟩
    · dsimp only
      rw [hring.capacity, Ring.isCollectable, Ring.isCollectable, hring.stage]
      split
      · rename_i hlt
        split
        · exact .inr (.inr ⟨slot, List.mem_cons_self .., r, rfl, hlt, rfl, rfl⟩)
        · exact .inr (.inl ⟨rfl, rfl⟩)
      · exact .inl ⟨_, rfl, rfl⟩

lemma canLease (h : s.Twin a b i j t) :
    t.inbox.canLease t.engine = s.inbox.canLease s.engine := by
  unfold Inbox.canLease
  rcases h.ready? with ⟨fault, hs, ht⟩ | ⟨hs, ht⟩ | ⟨slot, -, r, -, -, hs, ht⟩
  · rw [hs, ht]
  · rw [hs, ht]
  · rw [hs, ht]
    rfl

/-- Twins lease the same slot, with tasks of their own in it. -/
lemma next? (h : s.Twin a b i j t) :
    (∃ fault, s.next? = .error fault ∧ t.next? = .error fault) ∨
      (s.next? = .ok none ∧ t.next? = .ok none) ∨
      ∃ l s' l' t', s.next? = .ok (some (l, s')) ∧ t.next? = .ok (some (l', t')) ∧
        l.Twin i j l' ∧ s'.Twin a b i j t' ∧
        (s'.engine.task l.ring l.slot).Peer a b s'.engine.epoch t'.engine.epoch
          (t'.engine.task l'.ring l'.slot) := by
  unfold Scan.next? Inbox.next?
  rcases h.ready? with ⟨fault, hs, ht⟩ | ⟨hs, ht⟩ | ⟨slot, hmem, r, hr, hlt, hs, ht⟩ <;>
    rw [hs, ht]
  · exact .inl ⟨fault, rfl, rfl⟩
  · exact .inr (.inl ⟨rfl, rfl⟩)
  · have he := h.engine.leased s.inbox t.inbox slot
    have hleased : (s.inbox.leased s.engine i slot).rings[i]? = some (r.lease slot) :=
      Engine.getElem?_modifyRing_self hr
    have hpeer := he.peers hleased hmem (hlt.trans_eq Ring.capacity_setStage.symm)
    refine .inr (.inr ⟨⟨i, slot, s.inbox.id⟩,
      { s with
        inbox := { s.inbox with inFlight := s.inbox.inFlight.tail }
        engine := s.inbox.leased s.engine i slot },
      ⟨j, slot, t.inbox.id⟩,
      { t with
        inbox := { t.inbox with inFlight := t.inbox.inFlight.tail }
        engine := t.inbox.leased t.engine j slot },
      rfl, rfl, .inl ⟨rfl, rfl, rfl⟩, ?_, hpeer⟩)
    exact ⟨h.id, h.work, h.ring, h.dispatcher, h.left, h.right, congrArg List.tail h.inFlight,
      he.mono fun k => List.mem_of_mem_tail⟩

lemma done {l l' : Lease} (h : s.Twin a b i j t) (hl : l.Twin i j l') :
    (s.done l).Twin a b i j (t.done l') := h.onEngine (h.engine.release hl)

lemma reduceOne (h : s.Twin a b i j t) :
    t.reduceOne.1 = s.reduceOne.1 ∧ s.reduceOne.2.Twin a b i j t.reduceOne.2 := by
  unfold Scan.reduceOne
  rw [h.ring, h.ring_right]
  obtain ⟨hfst, hsnd⟩ := h.engine.reduceOldest
  exact ⟨hfst, h.onEngine hsnd⟩

lemma starvedFrom (h : s.Twin a b i j t) (since : Option Nat) :
    (s.starvedFrom since).Twin a b i j (t.starvedFrom since) := by
  obtain ⟨shard, hd⟩ := h.dispatcher
  refine { h with id := h.id, dispatcher := ⟨shard, ?_⟩ }
  exact congrArg ({ · with starvedAt := since }) hd

lemma note (h : s.Twin a b i j t) (x y : Notice) : (s.note x).Twin a b i j (t.note y) :=
  h.onEngine (h.engine.congr rfl rfl rfl rfl rfl rfl h.engine.clock h.engine.world)

/-- A round of help comes to the same in twins. -/
lemma help (h : s.Twin a b i j t) : t.help.1 = s.help.1 ∧ s.help.2.Twin a b i j t.help.2 := by
  have hp := h.publish
  unfold Scan.help
  dsimp only
  rw [hp.canLease]
  cases s.publish.inbox.canLease s.publish.engine with
  | error fault => exact ⟨rfl, hp⟩
  | ok ready =>
    cases ready with
    | true => exact ⟨rfl, hp⟩
    | false =>
      obtain ⟨hfst, hsnd⟩ := hp.reduceOne
      rcases hs : s.publish.reduceOne with ⟨x, s'⟩
      rcases ht : t.publish.reduceOne with ⟨y, t'⟩
      rw [hs, ht] at hfst hsnd
      obtain rfl : y = x := hfst
      cases y with
      | true => exact ⟨rfl, hsnd⟩
      | false =>
        dsimp only
        rw [h.position, hp.position, hsnd.inFlight]
        split
        · exact ⟨rfl, hsnd⟩
        · split <;> exact ⟨rfl, hsnd⟩

lemma rewind (h : s.Twin a b i j t) : s.rewind.Twin a b i j t.rewind := by
  obtain ⟨shard, hd⟩ := h.dispatcher
  have hactive : t.dispatcher.isActive = s.dispatcher.isActive := by
    rw [hd]
    cases hw : s.dispatcher.work <;> simp [Dispatcher.isActive, Dispatcher.under, hw]
  unfold Scan.rewind
  rw [hactive]
  split
  · refine publish ⟨h.id, h.work, h.ring, ⟨shard, ?_⟩, h.left, h.right, h.inFlight, ?_⟩
    · exact congrArg ({ · with position := 0, starvedAt := none }) hd
    · unfold Scan.nextEpoch
      rw [h.id, h.id_right]
      exact h.engine.nextEpoch
  · exact h

end Twin

end Scan

/-! ## Outcomes -/

/-- The failure without the shard that it names. -/
def Failure.unsharded : Failure → Failure
  | .saturated _ waitedMs => .saturated 0 waitedMs
  | failure => failure

/-- The outcome without the shard that its failure names. -/
def Stop.unsharded : Stop → Stop
  | .failed failure => .failed failure.unsharded
  | stop => stop

namespace Scan.Twin

variable {s t : Scan ω} {i j : Nat}

/-- Twins get on, or fail, in the same way; a failure may name another shard. -/
lemma steal (h : s.Twin a b i j t) :
    t.steal.1.mapError Stop.unsharded = s.steal.1.mapError Stop.unsharded ∧
      s.steal.2.Twin a b i j t.steal.2 := by
  obtain ⟨hfst, hsnd⟩ := h.help
  unfold Scan.steal
  rcases hs : s.help with ⟨x, s'⟩
  rcases ht : t.help with ⟨y, t'⟩
  rw [hs, ht] at hfst hsnd
  obtain rfl : y = x := hfst
  cases y with
  | error fault => exact ⟨rfl, hsnd⟩
  | ok help =>
    cases help with
    | progressed | waiting => exact ⟨rfl, hsnd.starvedFrom none⟩
    | starved =>
      obtain ⟨shard, hd⟩ := hsnd.dispatcher
      have hsince : t'.dispatcher.starvedAt = s'.dispatcher.starvedAt := hd ▸ rfl
      have hhub : t'.dispatcher.hub = s'.dispatcher.hub := hd ▸ rfl
      dsimp only
      rw [hsince, hhub, hsnd.engine.clock, hsnd.engine.patience]
      split
      · exact ⟨rfl, (hsnd.starvedFrom none).note _ _⟩
      · exact ⟨rfl, hsnd.starvedFrom _⟩

end Scan.Twin

end TableScan
