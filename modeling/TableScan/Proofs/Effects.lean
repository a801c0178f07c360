import TableScan.Proofs.Steps

/-!
# What a step does

The steps of an engine by what they do to its slots, however they come about.  Main statements: a
step keeps the slots that somebody holds (`Engine.Step.kept`), leaves to a task its work or takes
it away (`Engine.Step.kin`), and either reduces the slot that is pending first in its ring, or
nothing at all (`Engine.Step.passes_or_reduces`).
-/

namespace TableScan

variable {ω σ : Type}

/-! ## Rings that agree but for one slot -/

/-- Two rings that have the same tasks and stages but for one slot. -/
def Ring.AgreeOff (r r' : Ring ω) (k : Nat) : Prop :=
  ∀ j, j ≠ k → r'.task j = r.task j ∧ r'.stage? j = r.stage? j

namespace Ring

variable {r : Ring ω} {k : Nat} {rest : List Nat} {t : Task ω}

lemma agreeOff_setStage (r : Ring ω) (k : Nat) (s : Stage) : r.AgreeOff (r.setStage k s) k :=
  fun j hj => ⟨task_setStage, by rw [stage?_setStage, if_neg hj]⟩

lemma agreeOff_modifyTask (r : Ring ω) (k : Nat) (f : Task ω → Task ω) :
    r.AgreeOff (r.modifyTask k f) k :=
  fun _ hj => ⟨task_modifyTask_ne hj, stage?_modifyTask⟩

lemma AgreeOff.trans {r' r'' : Ring ω} (h : r.AgreeOff r' k) (h' : r'.AgreeOff r'' k) :
    r.AgreeOff r'' k :=
  fun j hj => ⟨(h' j hj).1.trans (h j hj).1, (h' j hj).2.trans (h j hj).2⟩

lemma agreeOff_claim (h : r.free = k :: rest) : r.AgreeOff r.claim k := by
  have hc : r.claim = ({ r with free := rest } : Ring ω).setStage k .claimed := by
    simp only [claim, h]
  rw [hc]
  exact agreeOff_setStage ({ r with free := rest } : Ring ω) k .claimed

lemma agreeOff_putBack (r : Ring ω) (k : Nat) : r.AgreeOff (r.putBack k) k :=
  (agreeOff_modifyTask r k _).trans (agreeOff_setStage _ k .free)

lemma agreeOff_reduceTo (r : Ring ω) (k : Nat) : r.AgreeOff (r.reduceTo k rest t) k :=
  (agreeOff_modifyTask r k _).trans (agreeOff_setStage _ k .reduced)

end Ring

/-! ## Tasks -/

/-- What a change makes of the work of a task: it is as before, it is gone, or it is that of
another dispatcher which leaves alone what `π` shows. -/
def Task.Kin (id : Nat) (π : ω → σ) (t t' : Task ω) : Prop :=
  ∀ w, t'.work = some w → (w.dispatcher ≠ id ∧ w.reducer.Leaves w.filter π) ∨
    (t.work = some w ∧ t'.epoch = t.epoch)

namespace Task

variable {id : Nat} {π : ω → σ} {t t' : Task ω}

lemma Kin.refl (t : Task ω) : t.Kin id π t := fun _ hw => .inr ⟨hw, rfl⟩

lemma kin_cleared (t : Task ω) : t.Kin id π t.cleared := fun _ hw => nomatch hw

lemma Foreign.kin (h : t.Foreign id π t') : t.Kin id π t' := by
  intro w hw
  rcases h with ⟨rows, error, rfl⟩ | ⟨w', hw', hne, hl⟩
  · exact .inr ⟨hw, rfl⟩
  · obtain rfl := Option.some.inj (hw.symm.trans hw')
    exact .inl ⟨hne, hl⟩

lemma kin_run {epoch : Nat → Nat} {w w' : ω} {x : Option Fault}
    (h : t.run epoch w = (t', x, w')) : t.Kin id π t' := by
  obtain ⟨rows, error, rfl⟩ := run_eq h
  exact Kin.refl t

/-- Running a task of a past epoch, or one of others, leaves alone what `π` shows. -/
lemma shown_run {epoch : Nat → Nat} {w w' : ω} {x : Option Fault}
    (h : t.run epoch w = (t', x, w'))
    (hpast : ∀ v, t.work = some v → v.dispatcher = id → t.epoch ≠ epoch id)
    (hothers : ∀ v, t.work = some v → v.dispatcher ≠ id → v.reducer.Leaves v.filter π) :
    π w' = π w := by
  unfold run at h
  cases hw : t.work with
  | none =>
    simp only [hw, Prod.mk.injEq] at h
    rw [← h.2.2]
  | some v =>
    simp only [hw] at h
    split at h
    · obtain ⟨-, h⟩ := Prod.mk.inj h
      rw [← (Prod.mk.inj h).2]
    · rename_i hepoch
      have hv : v.dispatcher ≠ id := by
        rintro rfl
        exact hpast v hw rfl (by simpa using hepoch)
      have hl := (hothers v hw hv).reduce ⟨t.frame, t.rowCount⟩ (v.view.atFrame t.frame) w
      split at h <;> rename_i hred <;> rw [hred] at hl <;>
        exact (Prod.mk.inj (Prod.mk.inj h).2).2 ▸ hl

end Task

/-- Two tasks that ask for the same and differ in what was found. -/
def Task.SameRequest (t t' : Task ω) : Prop := ∃ rows error, t' = { t with rows, error }

namespace Task.SameRequest

variable {t t' : Task ω}

lemma of_eq (h : t' = t) : t.SameRequest t' := ⟨t.rows, t.error, h⟩

lemma work (h : t.SameRequest t') : t'.work = t.work := by
  obtain ⟨rows, error, rfl⟩ := h
  rfl

lemma dispatcher (h : t.SameRequest t') : t'.dispatcher = t.dispatcher := by
  obtain ⟨rows, error, rfl⟩ := h
  rfl

lemma epoch (h : t.SameRequest t') : t'.epoch = t.epoch := by
  obtain ⟨rows, error, rfl⟩ := h
  rfl

end Task.SameRequest

namespace Engine

variable {e e' e'' : Engine ω} {i k id : Nat} {π : ω → σ} {mine : Place → Prop} {p : Place}
  {r : Ring ω}

/-! ## Engines that agree but for one place -/

/-- The stage of a slot, if it is there. -/
def stage? (e : Engine ω) (ring slot : Nat) : Option Stage :=
  (e.rings[ring]?).bind (·.stage? slot)

lemma stage?_eq {r : Ring ω} (h : e.rings[i]? = some r) : e.stage? i k = r.stage? k := by
  simp [stage?, h]

/-- What is seen of the slots of an engine is in its rings. -/
lemma seen_of_rings (h : e'.rings = e.rings) :
    e'.task = e.task ∧ e'.stage? = e.stage? ∧ e'.pendingIn = e.pendingIn := by
  refine ⟨funext fun i => funext fun k => ?_, funext fun i => funext fun k => ?_,
    funext fun i => ?_⟩
  · simp only [task, h]
  · simp only [stage?, h]
  · simp only [pendingIn, h]

/-- Two engines that have the same tasks and stages but for one place. -/
def AgreeOff (e e' : Engine ω) (p : Place) : Prop :=
  ∀ i k, (i, k) ≠ p → e'.task i k = e.task i k ∧ e'.stage? i k = e.stage? i k

lemma agreeOff_modifyRing {r : Ring ω} {f : Ring ω → Ring ω} (hr : e.rings[i]? = some r)
    (h : r.AgreeOff (f r) k) : e.AgreeOff (e.modifyRing i f) (i, k) := by
  intro j m hne
  by_cases hj : j = i
  · subst hj
    have hm := h m fun hm => hne (by rw [hm])
    rw [task_eq (getElem?_modifyRing_self hr), task_eq hr, stage?_eq (getElem?_modifyRing_self hr),
      stage?_eq hr]
    exact hm
  · simp only [task, stage?, getElem?_modifyRing_ne hj, and_self]

lemma kin_modifyRing {f : Ring ω → Ring ω}
    (h : ∀ r, e.rings[i]? = some r → ∀ k, (r.task k).Kin id π ((f r).task k)) (j k : Nat) :
    (e.task j k).Kin id π ((e.modifyRing i f).task j k) := by
  by_cases hj : j = i
  · subst hj
    cases hr : e.rings[j]? with
    | none =>
      have ht : (e.modifyRing j f).task j k = e.task j k := by
        simp [task, getElem?_modifyRing, hr]
      rw [ht]
      exact Task.Kin.refl _
    | some r =>
      rw [task_eq (getElem?_modifyRing_self hr), task_eq hr]
      exact h r hr k
  · have ht : (e.modifyRing i f).task j k = e.task j k := by
      simp only [task, getElem?_modifyRing_ne hj]
    rw [ht]
    exact Task.Kin.refl _

lemma pendingIn_some {r : Ring ω} (hr : e.rings[i]? = some r) :
    e.pendingIn (some i) = r.pending := by
  simp [pendingIn, hr]

/-- A slot on its way to its consumer. -/
def Flown (e : Engine ω) (ring slot : Nat) : Prop :=
  e.stage? ring slot = some .published ∨ e.stage? ring slot = some .reduced

/-- A change of one place, which has this task and this stage afterwards. -/
structure Turns (e e' : Engine ω) (p : Place) (t : Task ω) (s : Stage) : Prop where
  off : e.AgreeOff e' p
  task : e'.task p.1 p.2 = t
  stage : e'.stage? p.1 p.2 = some s
  epoch : e'.epoch = e.epoch
  world : e'.world = e.world

lemma turns_modifyRing {f : Ring ω → Ring ω} (hr : e.rings[i]? = some r) (ha : r.AgreeOff (f r) k)
    (ht : (f r).task k = t) (hs : (f r).stage? k = some s) :
    e.Turns (e.modifyRing i f) (i, k) t s := by
  have hr' := getElem?_modifyRing_self (f := f) hr
  exact ⟨agreeOff_modifyRing hr ha, (task_eq hr').trans ht, (stage?_eq hr').trans hs, rfl, rfl⟩

lemma Turns.trans {e'' : Engine ω} {p : Place} {t' : Task ω} {s' : Stage}
    (h : e.Turns e' p t s) (h' : e'.Turns e'' p t' s') : e.Turns e'' p t' s' :=
  ⟨fun j l hne => ⟨(h'.off j l hne).1.trans (h.off j l hne).1,
    (h'.off j l hne).2.trans (h.off j l hne).2⟩, h'.task, h'.stage, h'.epoch.trans h.epoch,
    h'.world.trans h.world⟩

lemma Turns.kin (h : e.Turns e' p t s) (ht : (e.task p.1 p.2).Kin id π t) (j l : Nat) :
    (e.task j l).Kin id π (e'.task j l) := by
  by_cases hne : (j, l) = p
  · subst hne
    exact h.task.symm ▸ ht
  · exact (h.off j l hne).1 ▸ .refl _

lemma turns_publish (hr : e.rings[i]? = some r) (hk : r.stage? k = some .claimed) (t : Task ω) :
    e.Turns ((e.modifyRing i (·.modifyTask k fun _ => t)).publish i k) (i, k) t .published := by
  have htask : (r.modifyTask k fun _ => t).task k = t := by
    rw [Ring.task_modifyTask, if_pos ⟨rfl, Ring.lt_capacity hk⟩]
  have hstage : (r.modifyTask k fun _ => t).stage? k = some .claimed := by
    rwa [Ring.stage?_modifyTask]
  have h : e.Turns (e.modifyRing i (·.modifyTask k fun _ => t)) (i, k) t .claimed :=
    turns_modifyRing hr (r.agreeOff_modifyTask k fun _ => t) htask hstage
  refine h.trans (turns_modifyRing (getElem?_modifyRing_self hr)
    (Ring.agreeOff_setStage _ k .published) (Ring.task_publish.trans htask) ?_)
  exact (Ring.stage?_moved_to hstage).2 (.inl rfl)

lemma turns_lease (hr : e.rings[i]? = some r) (hk : r.stage? k = some s) :
    e.Turns (e.modifyRing i (·.lease k)) (i, k) (e.task i k) .leased :=
  turns_modifyRing hr (Ring.agreeOff_setStage _ k .leased)
    (Ring.task_lease.trans (task_eq hr).symm) ((Ring.stage?_moved_to hk).2 (.inl rfl))

lemma turns_putBack (hr : e.rings[i]? = some r) (hk : r.stage? k = some s) :
    e.Turns (e.putBack i k) (i, k) (e.task i k).cleared .free := by
  refine turns_modifyRing hr (r.agreeOff_putBack k) ?_ ?_
  · rw [Ring.task_putBack, if_pos ⟨rfl, Ring.lt_capacity hk⟩, task_eq hr]
  · exact (Ring.stage?_moved_to (by rwa [Ring.stage?_modifyTask])).2 (.inl rfl)

/-! ## Places that are kept -/

/-- A place is kept: its slot is as it was, or it is reduced now, by which only the results of its
task have changed. -/
def Kept (e e' : Engine ω) (p : Place) : Prop :=
  ∃ r r', e.rings[p.1]? = some r ∧ e'.rings[p.1]? = some r' ∧
    (r'.task p.2 = r.task p.2 ∧ r'.stage? p.2 = r.stage? p.2 ∨
      r.stage? p.2 = some .published ∧ r'.stage? p.2 = some .reduced ∧
        ∃ rows error, r'.task p.2 = { r.task p.2 with rows, error })

lemma Kept.stage? (h : e.Kept e' (i, k)) : e'.stage? i k = e.stage? i k ∨
    (e.stage? i k = some .published ∧ e'.stage? i k = some .reduced) := by
  obtain ⟨r, r', hr, hr', hk⟩ := h
  rw [stage?_eq hr, stage?_eq hr']
  exact hk.imp (·.2) fun hk => ⟨hk.1, hk.2.1⟩

lemma Kept.trans (h : e.Kept e' p) (h' : e'.Kept e'' p) : e.Kept e'' p := by
  obtain ⟨r, r₁, hr, hr₁, hk⟩ := h
  obtain ⟨r₂, r', hr₂, hr', hk'⟩ := h'
  obtain rfl := Option.some.inj (hr₁.symm.trans hr₂)
  refine ⟨r, r', hr, hr', ?_⟩
  rcases hk with ⟨ht, hs⟩ | ⟨hs, hs₁, rows, error, ht⟩
  · rcases hk' with ⟨ht', hs'⟩ | ⟨hs₁, hs', rows, error, ht'⟩
    · exact .inl ⟨ht'.trans ht, hs'.trans hs⟩
    · exact .inr ⟨hs ▸ hs₁, hs', rows, error, ht ▸ ht'⟩
  · rcases hk' with ⟨ht', hs'⟩ | ⟨hs', -⟩
    · exact .inr ⟨hs, hs'.trans hs₁, rows, error, ht'.trans ht⟩
    · -- a slot is not reduced twice
      rw [hs₁] at hs'
      cases hs'

lemma Kept.congr (h : e.Kept e' p) (he : e''.rings = e'.rings) : e.Kept e'' p := by
  unfold Kept
  rw [he]
  exact h

lemma Kept.there (h : e.Kept e' p) : ∃ r, e'.rings[p.1]? = some r := by
  obtain ⟨-, r, -, hr, -⟩ := h
  exact ⟨r, hr⟩

lemma kept_of_rings (hr : e.rings[p.1]? = some r) (he : e'.rings = e.rings) : e.Kept e' p :=
  ⟨r, r, hr, he ▸ hr, .inl ⟨rfl, rfl⟩⟩

/-- A change of one slot keeps the other places. -/
lemma kept_modifyRing {f : Ring ω → Ring ω} (hr : e.rings[p.1]? = some r) (hne : p ≠ (i, k))
    (hf : ∀ s, e.rings[i]? = some s → s.AgreeOff (f s) k) : e.Kept (e.modifyRing i f) p := by
  obtain ⟨i', j⟩ := p
  by_cases hi : i' = i
  · subst hi
    refine ⟨r, f r, hr, getElem?_modifyRing_self hr, .inl (hf r hr j ?_)⟩
    rintro rfl
    exact hne rfl
  · exact ⟨r, r, hr, (getElem?_modifyRing_ne hi).trans hr, .inl ⟨rfl, rfl⟩⟩

/-- Reducing a slot keeps every place. -/
lemma kept_reduceTo {r' : Ring ω} {rest : List Nat} {t : Task ω} {x : Option Fault} {w : ω}
    (hr : e.rings[p.1]? = some r) (hr' : e.rings[i]? = some r')
    (hk : r'.stage? k = some .published) (hrun : (r'.task k).run e.epoch e.world = (t, x, w)) :
    e.Kept (e.modifyRing i (·.reduceTo k rest t)) p := by
  by_cases hpk : p = (i, k)
  · subst hpk
    obtain ⟨rows, error, rfl⟩ := Task.run_eq hrun
    refine ⟨r', _, hr', getElem?_modifyRing_self hr', .inr ⟨hk, ?_, rows, error, ?_⟩⟩
    · exact (Ring.stage?_moved_to (Ring.stage?_modifyTask.trans hk)).2 (.inl rfl)
    · rw [Ring.task_reduceTo, if_pos ⟨rfl, Ring.lt_capacity hk⟩]
  · exact kept_modifyRing hr hpk fun t _ => Ring.agreeOff_reduceTo t k

/-- A place of a slot that is in flight or leased. -/
def Held (e : Engine ω) (p : Place) : Prop := e.Flown p.1 p.2 ∨ e.stage? p.1 p.2 = some .leased

lemma Held.there (h : e.Held p) : ∃ r, e.rings[p.1]? = some r := by
  cases hr : e.rings[p.1]? with
  | some r => exact ⟨r, rfl⟩
  | none => rcases h with (h | h) | h <;> simp [stage?, hr] at h

/-- A slot that is free or claimed is not held. -/
lemma Held.ne (h : e.Held p) {r : Ring ω} (hr : e.rings[i]? = some r) {t : Stage}
    (hk : r.stage? k = some t) (ht : t = .free ∨ t = .claimed) : p ≠ (i, k) := by
  rintro rfl
  rw [Held, Flown, stage?_eq hr, hk] at h
  rcases ht with rfl | rfl <;> simp at h

lemma Kept.held (h : e.Kept e' p) (hp : e.Held p) : e'.Held p := by
  rcases h.stage? with hs | ⟨-, hs⟩
  · rw [Held, Flown, hs]
    exact hp
  · exact .inl (.inr hs)

lemma Kept.request (h : e.Kept e' (i, k)) : (e.task i k).SameRequest (e'.task i k) := by
  obtain ⟨r, r', hr, hr', hk⟩ := h
  rw [task_eq hr, task_eq hr']
  rcases hk with ⟨ht, -⟩ | ⟨-, -, ht⟩
  · exact .of_eq ht
  · exact ht

/-- A slot that is kept and was not published is as it was. -/
lemma Kept.same (h : e.Kept e' (i, k)) (hs : e.stage? i k ≠ some .published) :
    e'.task i k = e.task i k ∧ e'.stage? i k = e.stage? i k := by
  obtain ⟨r, r', hr, hr', hk | ⟨hs', -⟩⟩ := h
  · rw [task_eq hr, task_eq hr', stage?_eq hr, stage?_eq hr']
    exact hk
  · exact absurd ((stage?_eq hr).trans hs') hs

/-- Where a slot is held, all places are kept but the one that was changed. -/
lemma AgreeOff.kept (h : e.AgreeOff e' p) {j l : Nat} (hne : (j, l) ≠ p) (hh : e.Held (j, l)) :
    e.Kept e' (j, l) := by
  obtain ⟨ht, hs⟩ := h j l hne
  obtain ⟨r, hr⟩ := hh.there
  have hr' : ∃ r', e'.rings[j]? = some r' := Held.there (p := (j, l)) (by rwa [Held, Flown, hs])
  obtain ⟨r', hr'⟩ := hr'
  rw [task_eq hr, task_eq hr'] at ht
  rw [stage?_eq hr, stage?_eq hr'] at hs
  exact ⟨r, r', hr, hr', .inl ⟨ht, hs⟩⟩

/-- A step keeps what is in flight to somebody who owns it, and what that one has leased. -/
lemma Step.kept (h : Step id mine π e e') (hp : mine p) (hh : e.Held p) : e.Kept e' p := by
  obtain ⟨r, hr⟩ := hh.there
  cases h with
  | claim ring free stage =>
    refine kept_modifyRing hr (hh.ne ring stage (.inl rfl)) fun s hs => ?_
    obtain rfl := Option.some.inj (ring.symm.trans hs)
    exact Ring.agreeOff_claim free
  | write ring stage =>
    exact kept_modifyRing hr (hh.ne ring stage (.inr rfl)) fun s _ => s.agreeOff_modifyTask _ _
  | publish ring stage =>
    exact kept_modifyRing hr (hh.ne ring stage (.inr rfl)) fun s _ =>
      s.agreeOff_setStage _ .published
  | drop ring stage =>
    exact kept_modifyRing hr (hh.ne ring stage (.inr rfl)) fun s _ => s.agreeOff_putBack _
  | reduce ring pending once stage run rings => exact (kept_reduceTo hr ring stage run).congr rings
  | lease ring stage other =>
    exact kept_modifyRing hr (fun heq => other (heq ▸ hp)) fun s _ => s.agreeOff_setStage _ .leased
  | edit ring stage foreign other =>
    exact kept_modifyRing hr (fun heq => other (heq ▸ hp)) fun s _ => s.agreeOff_modifyTask _ _
  | giveBack ring stage room other =>
    exact kept_modifyRing hr (fun heq => other (heq ▸ hp)) fun s _ => s.agreeOff_putBack _
  | epoch => exact kept_of_rings hr rfl
  | quiet rings =>
    obtain ⟨new, hnew, -⟩ := rings
    refine ⟨r, r, hr, ?_, .inl ⟨rfl, rfl⟩⟩
    rw [hnew, Array.getElem?_append_left (lt_size_of_getElem? hr), hr]

lemma Steps.kept (h : Steps id mine π e e') (hp : mine p) (hh : e.Held p) : e.Kept e' p := by
  induction h with
  | refl =>
    obtain ⟨r, hr⟩ := hh.there
    exact kept_of_rings hr rfl
  | tail _ h ih => exact ih.trans (h.kept hp (ih.held hh))

/-! ## The work of the tasks -/

/-- The work that is not of a dispatcher leaves alone what `π` shows. -/
def Tame (e : Engine ω) (id : Nat) (π : ω → σ) : Prop :=
  ∀ i slot w, (e.task i slot).work = some w → w.dispatcher ≠ id → w.reducer.Leaves w.filter π

lemma Tame.kin (h : e.Tame id π) (hkin : ∀ i k, (e.task i k).Kin id π (e'.task i k)) :
    e'.Tame id π := by
  intro i k w hw hid
  rcases hkin i k w hw with ⟨-, hl⟩ | ⟨hw', -⟩
  · exact hl
  · exact h i k w hw' hid

section grow

variable {new : Array (Ring ω)} {i k : Nat} (hr : e'.rings = e.rings ++ new)

include hr

lemma getElem?_grown {r : Ring ω} (hi : e.rings[i]? = some r) : e'.rings[i]? = some r := by
  rw [hr, Array.getElem?_append_left (lt_size_of_getElem? hi), hi]

/-- The place of a task with work was there before. -/
lemma there_of_work (hnew : ∀ r ∈ new, ∀ k, (r.task k).work = none)
    (hw : (e'.task i k).work ≠ none) : ∃ r, e.rings[i]? = some r ∧ e'.rings[i]? = some r := by
  cases hi : e.rings[i]? with
  | some r => exact ⟨r, rfl, getElem?_grown hr hi⟩
  | none =>
    cases hi' : e'.rings[i]? with
    | none => simp [task, hi'] at hw
    | some r =>
      rw [task_eq hi', hnew r ?_] at hw
      · exact absurd rfl hw
      · rw [hr, Array.getElem?_append_right (by simpa using hi)] at hi'
        exact Array.mem_of_getElem? hi'

end grow

/-- What a step makes of the work of a task. -/
lemma Step.kin (h : Step id mine π e e') (i k : Nat) :
    (e.task i k).Kin id π (e'.task i k) := by
  -- a change of one ring
  have change : ∀ {j : Nat} {r : Ring ω} {f : Ring ω → Ring ω}, e.rings[j]? = some r →
      (∀ k, (r.task k).Kin id π ((f r).task k)) →
        (e.task i k).Kin id π ((e.modifyRing j f).task i k) := by
    intro j r f hr hf
    exact kin_modifyRing (fun r' hr' => Option.some.inj (hr.symm.trans hr') ▸ hf) i k
  cases h with
  | claim ring => exact change ring fun k => by rw [Ring.task_claim]; exact .refl _
  | publish ring => exact change ring fun k => by rw [Ring.task_publish]; exact .refl _
  | lease ring => exact change ring fun k => by rw [Ring.task_lease]; exact .refl _
  | write ring stage foreign | edit ring stage foreign =>
    refine change ring fun k => ?_
    rw [Ring.task_modifyTask]
    split
    · exact (foreign _).kin
    · exact .refl _
  | drop ring | giveBack ring =>
    refine change ring fun k => ?_
    rw [Ring.task_putBack]
    split
    · exact Task.kin_cleared _
    · exact .refl _
  | reduce ring pending once stage run rings epochs world =>
    rename_i j l r rest t x w
    have htask : e'.task i k = (e.modifyRing j (·.reduceTo l rest t)).task i k := by
      simp only [task, rings]
    rw [htask]
    refine change ring fun k => ?_
    rw [Ring.task_reduceTo]
    split
    · rename_i hk
      exact hk.1 ▸ Task.kin_run run
    · exact .refl _
  | epoch => exact .refl _
  | quiet rings epoch world =>
    obtain ⟨new, hr, hnew⟩ := rings
    intro w hw
    obtain ⟨r, hi, hi'⟩ := there_of_work hr hnew (by rw [hw]; exact Option.some_ne_none w)
    rw [task_eq hi', ← task_eq hi] at hw ⊢
    exact .inr ⟨hw, rfl⟩

lemma Steps.tame (h : Steps id mine π e e') (ht : e.Tame id π) : e'.Tame id π := by
  induction h with
  | refl => exact ht
  | tail _ h ih => exact ih.kin h.kin

/-! ## Reductions, and steps that reduce nothing -/

/-- A slot stays as it is, or is leased now. -/
def Rests (e e' : Engine ω) (ring slot : Nat) : Prop :=
  e'.stage? ring slot = some .leased ∨
    e'.task ring slot = e.task ring slot ∧ e'.stage? ring slot = e.stage? ring slot

/-- Nothing is reduced: what is published stays so and stays pending, and what was reduced or
leased rests as long as it has work. -/
structure Passes (id : Nat) (π : ω → σ) (e e' : Engine ω) : Prop where
  published : ∀ i k, e.stage? i k = some .published →
    e'.task i k = e.task i k ∧ e'.stage? i k = some .published
  pending : ∀ i, (e.pendingIn (some i)).Sublist (e'.pendingIn (some i))
  spent : ∀ i k, e.stage? i k = some .reduced ∨ e.stage? i k = some .leased →
    (e'.task i k).work ≠ none → e.Rests e' i k
  epoch : e'.epoch id = e.epoch id
  world : π e'.world = π e.world

/-- The slot that is pending first in its ring is reduced, and nothing else happens. -/
structure Reduces (e e' : Engine ω) (i k : Nat) : Prop where
  off : e.AgreeOff e' (i, k)
  published : e.stage? i k = some .published
  reduced : e'.stage? i k = some .reduced
  run : ∃ x, (e.task i k).run e.epoch e.world = (e'.task i k, x, e'.world)
  pending : e.pendingIn (some i) = k :: e'.pendingIn (some i)
  once : k ∉ e'.pendingIn (some i)
  others : ∀ j ≠ i, e'.pendingIn (some j) = e.pendingIn (some j)
  epoch : e'.epoch = e.epoch

lemma AgreeOff.passes (h : e.AgreeOff e' (i, k)) (hk : e.stage? i k ≠ some .published)
    (hspent : e.stage? i k = some .reduced ∨ e.stage? i k = some .leased →
      e'.stage? i k = some .leased ∨ (e'.task i k).work = none)
    (hpending : ∀ j, (e.pendingIn (some j)).Sublist (e'.pendingIn (some j)))
    (hepoch : e'.epoch id = e.epoch id) (hworld : π e'.world = π e.world) :
    e.Passes id π e' := by
  refine ⟨fun j l hs => ?_, hpending, fun j l hs hw => ?_, hepoch, hworld⟩
  · have hne : (j, l) ≠ (i, k) := by
      rintro heq
      obtain ⟨rfl, rfl⟩ := Prod.mk.inj heq
      exact hk hs
    exact ⟨(h j l hne).1, (h j l hne).2.trans hs⟩
  · by_cases heq : (j, l) = (i, k)
    · obtain ⟨rfl, rfl⟩ := Prod.mk.inj heq
      exact .inl ((hspent hs).resolve_right hw)
    · exact .inr (h j l heq)

/-- A change of one slot that is not published, by which nothing leaves the pending list. -/
lemma passes_modifyRing {f : Ring ω → Ring ω} (hr : e.rings[i]? = some r) (ha : r.AgreeOff (f r) k)
    (hk : r.stage? k ≠ some .published)
    (hspent : r.stage? k = some .reduced ∨ r.stage? k = some .leased →
      (f r).stage? k = some .leased ∨ ((f r).task k).work = none)
    (hpending : r.pending.Sublist (f r).pending) : e.Passes id π (e.modifyRing i f) := by
  have hr' := getElem?_modifyRing_self (f := f) hr
  refine (agreeOff_modifyRing hr ha).passes ?_ ?_ (fun j => ?_) rfl rfl
  · rwa [stage?_eq hr]
  · rwa [stage?_eq hr, stage?_eq hr', task_eq hr']
  · by_cases hj : j = i
    · subst hj
      rwa [pendingIn_some hr, pendingIn_some hr']
    · rw [pendingIn_modifyRing_ne hj]

/-- What is leased or gets rid of its work was not due. -/
lemma Turns.passes {t : Task ω} {s : Stage} (h : e.Turns e' (i, k) t s)
    (hk : e.stage? i k ≠ some .published) (hs : s = .leased ∨ t.work = none)
    (hp : e'.pendingIn = e.pendingIn) : e.Passes id π e' := by
  refine h.off.passes hk (fun _ => ?_) (fun j => by rw [hp]) (by rw [h.epoch]) (by rw [h.world])
  rw [h.stage, h.task]
  exact hs.imp_left fun hs => by rw [hs]

/-- Rings may be added. -/
lemma passes_grown {new : Array (Ring ω)} (hr : e'.rings = e.rings ++ new)
    (hnew : ∀ r ∈ new, ∀ k, (r.task k).work = none) (hepoch : e'.epoch id = e.epoch id)
    (hworld : π e'.world = π e.world) : e.Passes id π e' := by
  refine ⟨fun i k hs => ?_, fun i => ?_, fun i k _ hw => ?_, hepoch, hworld⟩
  · obtain ⟨r, hi, hk⟩ := Option.bind_eq_some_iff.1 hs
    have hi' := getElem?_grown hr hi
    rw [task_eq hi, task_eq hi', stage?_eq hi']
    exact ⟨rfl, hk⟩
  · cases hi : e.rings[i]? with
    | some r => rw [pendingIn_some hi, pendingIn_some (getElem?_grown hr hi)]
    | none => simp [pendingIn, hi]
  · obtain ⟨r, hi, hi'⟩ := there_of_work hr hnew hw
    rw [Rests, stage?_eq hi, stage?_eq hi', task_eq hi, task_eq hi']
    exact .inr ⟨rfl, rfl⟩

lemma passes_still (hr : e'.rings = e.rings) (hepoch : e'.epoch id = e.epoch id)
    (hworld : π e'.world = π e.world) : e.Passes id π e' := by
  have hrings : e'.rings = e.rings ++ #[] := by rw [hr, Array.append_empty]
  exact passes_grown hrings (by simp) hepoch hworld

lemma Reduces.kin (h : e.Reduces e' i k) (j l : Nat) : (e.task j l).Kin id π (e'.task j l) := by
  by_cases heq : (j, l) = (i, k)
  · obtain ⟨rfl, rfl⟩ := Prod.mk.inj heq
    obtain ⟨x, hrun⟩ := h.run
    exact Task.kin_run hrun
  · rw [(h.off j l heq).1]
    exact .refl _

/-- A step reduces the slot that is pending first in a ring, or nothing. -/
lemma Step.passes_or_reduces (h : Step id mine π e e') :
    e.Passes id π e' ∨ ∃ i k, e.Reduces e' i k := by
  cases h with
  | claim ring free stage =>
    refine .inl (passes_modifyRing ring (Ring.agreeOff_claim free) (by simp [stage])
      (by simp [stage]) ?_)
    rw [Ring.pending_claim]
  | write ring stage =>
    exact .inl (passes_modifyRing ring (Ring.agreeOff_modifyTask _ _ _) (by simp [stage])
      (by simp [stage]) (.refl _))
  | publish ring stage =>
    exact .inl (passes_modifyRing ring (Ring.agreeOff_setStage _ _ .published) (by simp [stage])
      (by simp [stage]) (List.sublist_append_left ..))
  | drop ring stage =>
    exact .inl (passes_modifyRing ring (Ring.agreeOff_putBack _ _) (by simp [stage])
      (by simp [stage]) (.refl _))
  | reduce ring pending once stage run rings epochs world =>
    rename_i i k r rest t x w
    have hr' := getElem?_modifyRing_self (f := (·.reduceTo k rest t)) ring
    have ha := agreeOff_modifyRing (f := (·.reduceTo k rest t)) ring (r.agreeOff_reduceTo k)
    obtain ⟨htask, hstage, hpending⟩ := seen_of_rings rings
    have hrest : e'.pendingIn (some i) = rest := by
      rw [hpending, pendingIn_some hr', Ring.pending_reduceTo]
    refine .inr ⟨i, k, ?_, (stage?_eq ring).trans stage, ?_, ⟨x, ?_⟩, ?_, hrest.symm ▸ once,
      fun j hj => ?_, ?_⟩
    · rw [AgreeOff, htask, hstage]
      exact ha
    · rw [hstage, stage?_eq hr', Ring.reduceTo]
      exact (Ring.stage?_moved_to (by simpa using stage)).2 (.inl rfl)
    · rw [task_eq ring, run, htask, task_eq hr', Ring.task_reduceTo,
        if_pos ⟨rfl, Ring.lt_capacity stage⟩, world]
    · rw [hrest, pendingIn_some ring, pending]
    · rw [hpending, pendingIn_modifyRing_ne hj]
    · funext d
      simp only [Engine.epoch, epochs]
  | lease ring stage =>
    exact .inl (passes_modifyRing ring (Ring.agreeOff_setStage _ _ .leased) (by simp [stage])
      (fun _ => .inl ((Ring.stage?_moved_to stage).2 (.inl rfl))) (.refl _))
  | edit ring stage =>
    refine .inl (passes_modifyRing ring (Ring.agreeOff_modifyTask _ _ _) (by simp [stage])
      (fun _ => .inl ?_) (.refl _))
    rwa [Ring.stage?_modifyTask]
  | giveBack ring stage =>
    refine .inl (passes_modifyRing ring (Ring.agreeOff_putBack _ _) (by simp [stage])
      (fun _ => .inr ?_) (.refl _))
    rw [Ring.task_putBack, if_pos ⟨rfl, Ring.lt_capacity stage⟩]
    rfl
  | epoch hother =>
    refine .inl (passes_still rfl ?_ rfl)
    rw [epoch_nextEpoch, if_neg fun hd => hother hd.1]
  | quiet rings epoch world =>
    obtain ⟨new, hr, hnew⟩ := rings
    exact .inl (passes_grown hr hnew (by rw [epoch]) world)

/-- Steps apart from a dispatcher leave its epoch as it is. -/
lemma Step.epoch_eq (h : Step id mine π e e') : e'.epoch id = e.epoch id := by
  rcases h.passes_or_reduces with h | ⟨i, k, h⟩
  · exact h.epoch
  · rw [h.epoch]

lemma Steps.epoch_eq (h : Steps id mine π e e') : e'.epoch id = e.epoch id := by
  induction h with
  | refl => rfl
  | tail _ h ih => exact h.epoch_eq.trans ih

end Engine

end TableScan
