import TableScan.Proofs.Independence
import TableScan.Proofs.Rewinds

/-!
# Outcomes

What a slot holds once its task was run.  Main statement: whatever the slot was used for before and
whatever happens on the ring in between, a task that a scan publishes is reduced to one of three
outcomes: nothing, if its epoch has passed; the rows that the filter keeps; or the failure on the
first row on which the filter does not answer (`Traffic.reduces_to_outcome`).
-/

namespace TableScan

variable {ω : Type}

/-! ## Sifting the rows of a frame -/

lemma Verdict.failure?_eq_none_iff {frame : Nat} {x : Verdict} :
    x.failure? frame = none ↔ x.answers = true := by
  cases x <;> simp [failure?, answers]

namespace RowView

variable {v : RowView} {verdict : RowView → Verdict} {rows : List Nat}

/-- If the verdict answers on every row, the rows that it keeps are left. -/
lemma sift_of_answers (h : ∀ row ∈ rows, (verdict (v.atRow row)).answers = true) :
    v.sift verdict rows = (rows.filter fun row => verdict (v.atRow row) = .keep, none) := by
  have hnone : (rows.findSome? fun row => (verdict (v.atRow row)).failure? v.frame) = none :=
    List.findSome?_eq_none_iff.2 fun row hrow => Verdict.failure?_eq_none_iff.2 (h row hrow)
  rw [sift, hnone]

/-- If it does not on a row, but on all rows before, the failure there is left. -/
lemma sift_of_first {before after : List Nat} {row : Nat} {failure : Failure}
    (hrows : rows = before ++ row :: after)
    (hbefore : ∀ x ∈ before, (verdict (v.atRow x)).answers = true)
    (hfailure : (verdict (v.atRow row)).failure? v.frame = some failure) :
    v.sift verdict rows = ([], some failure) := by
  have hfirst : (rows.findSome? fun row => (verdict (v.atRow row)).failure? v.frame) =
      some failure :=
    List.findSome?_eq_some_iff.2 ⟨before, row, after, hrows, hfailure, fun x hx =>
      Verdict.failure?_eq_none_iff.2 (hbefore x hx)⟩
  rw [sift, hfirst]

/-- If it does not on some row, there is a first such row. -/
lemma exists_first (h : ¬ ∀ row ∈ rows, (verdict (v.atRow row)).answers = true) :
    ∃ before row after failure, rows = before ++ row :: after ∧
      (∀ x ∈ before, (verdict (v.atRow x)).answers = true) ∧
      (verdict (v.atRow row)).failure? v.frame = some failure := by
  cases hfirst : rows.findSome? fun row => (verdict (v.atRow row)).failure? v.frame with
  | none =>
    refine absurd (fun row hrow => ?_) h
    exact Verdict.failure?_eq_none_iff.1 (List.findSome?_eq_none_iff.1 hfirst row hrow)
  | some failure =>
    obtain ⟨before, row, after, hrows, hfailure, hbefore⟩ := List.findSome?_eq_some_iff.1 hfirst
    refine ⟨before, row, after, failure, hrows, fun x hx => ?_, hfailure⟩
    exact Verdict.failure?_eq_none_iff.1 (hbefore x hx)

end RowView

/-! ## The outcome of a task -/

/-- The rows and the error that a posted task is reduced to in the epochs of all dispatchers, if its
rows are visited in the order `o` and the filter judges them by this verdict. -/
inductive Post.ComesTo (p : Post ω) (o : Order) (verdict : RowView → Verdict)
    (epochOf : Nat → Nat) : List Nat → Option Failure → Prop
  /-- The epoch of the task has passed. -/
  | stale (passed : p.epoch ≠ epochOf p.work.dispatcher) : p.ComesTo o verdict epochOf [] none
  | kept (current : p.epoch = epochOf p.work.dispatcher)
      (answers : ∀ row < p.rowCount,
        (verdict ((p.work.view.atFrame p.frame).atRow row)).answers = true) :
      p.ComesTo o verdict epochOf
        (o.arrange ((List.range p.rowCount).filter fun row =>
          verdict ((p.work.view.atFrame p.frame).atRow row) = .keep)) none
  /-- The verdict does not answer on a row, but on all rows that are visited before. -/
  | failed (current : p.epoch = epochOf p.work.dispatcher) {before after : List Nat} {row : Nat}
      {failure : Failure} (visit : o.arrange (List.range p.rowCount) = before ++ row :: after)
      (answers : ∀ x ∈ before,
        (verdict ((p.work.view.atFrame p.frame).atRow x)).answers = true)
      (fails : (verdict ((p.work.view.atFrame p.frame).atRow row)).failure? p.frame =
        some failure) :
      p.ComesTo o verdict epochOf [] (some failure)

namespace Post

variable {p : Post ω} {o : Order} {verdict : RowView → Verdict} {epochOf : Nat → Nat}
  {rows rows' : List Nat} {error error' : Option Failure}

lemma ComesTo.rows_or_error (h : p.ComesTo o verdict epochOf rows error) :
    rows = [] ∨ error = none := by
  cases h with
  | stale => exact .inl rfl
  | kept => exact .inr rfl
  | failed => exact .inl rfl

/-- What a task comes to is determined by the verdict. -/
lemma ComesTo.eq_sift (h : p.ComesTo o verdict epochOf rows error) :
    (rows, error) = if p.epoch = epochOf p.work.dispatcher then
      (p.work.view.atFrame p.frame).sift verdict (o.arrange (List.range p.rowCount))
    else ([], none) := by
  cases h with
  | stale passed => rw [if_neg passed]
  | kept current answers =>
    have hall : ∀ row ∈ o.arrange (List.range p.rowCount),
        (verdict ((p.work.view.atFrame p.frame).atRow row)).answers = true :=
      fun row hrow => answers row (List.mem_range.1 (Order.mem_arrange.1 hrow))
    rw [if_pos current, RowView.sift_of_answers hall, Order.arrange_filter]
  | failed current visit answers fails =>
    rw [if_pos current, RowView.sift_of_first visit answers fails]

lemma ComesTo.unique (h : p.ComesTo o verdict epochOf rows error)
    (h' : p.ComesTo o verdict epochOf rows' error') : rows' = rows ∧ error' = error :=
  Prod.mk.inj (h'.eq_sift.trans h.eq_sift.symm)

/-- A run of the task comes to its outcome. -/
lemma comesTo_outcome (hreducer : p.work.reducer = .filtering o)
    (hverdict : ∀ v w, (p.work.filter.judge v w).1 = verdict v) (epochOf : Nat → Nat) (w : ω) :
    p.ComesTo o verdict epochOf (p.outcome epochOf w).rows (p.outcome epochOf w).error := by
  by_cases he : p.epoch = epochOf p.work.dispatcher
  · have hsift := outcome_of_current hreducer hverdict he w
    rw [Order.items_eq_arrange] at hsift
    by_cases hall : ∀ row ∈ o.arrange (List.range p.rowCount),
        (verdict ((p.work.view.atFrame p.frame).atRow row)).answers = true
    · rw [RowView.sift_of_answers hall, Order.arrange_filter, Prod.mk.injEq] at hsift
      rw [hsift.1, hsift.2]
      exact .kept he fun row hrow => hall row (Order.mem_arrange.2 (List.mem_range.2 hrow))
    · obtain ⟨before, row, after, failure, hvisit, hbefore, hfailure⟩ := RowView.exists_first hall
      rw [RowView.sift_of_first hvisit hbefore hfailure, Prod.mk.injEq] at hsift
      rw [hsift.1, hsift.2]
      exact .failed he hvisit hbefore hfailure
  · rw [Post.outcome, Task.run_of_stale (w := p.work) rfl he]
    exact .stale he

end Post

/-! ## Slots that wait for their reduction -/

namespace Traffic.Kept

variable {i k : Nat} {r : Ring ω} {s : Traffic ω} {before after : Record ω} {p : Post ω}

/-- A slot to which nothing has happened since it was posted holds what was posted in it. -/
lemma untouched (h : s.Kept i r (before ++ .posted k p :: after))
    (hnone : after.about p.slot = []) :
    r.stage? p.slot = some .published ∧ r.task p.slot = p.task := by
  have hget : (Record.posts k (before ++ .posted k p :: after))[(before.posts k).length]? =
      some p := by simp
  by_cases hn : (before.posts k).length <
      (Record.leases k (before ++ .posted k p :: after)).length
  · -- an inbox that has a lease for it has seen it reduced
    obtain ⟨a, between, b, q, l, epochOf, w, ht, ha, -, -, -, habout⟩ := h.delivers k _ hn
    obtain ⟨-, rfl, rfl⟩ := Record.nth_post_unique ht ha.symm
    rw [Record.about_append, habout] at hnone
    cases hnone
  · obtain ⟨a, b, ht, ha, hholds⟩ := h.awaits k _ p (Nat.le_of_not_lt hn) hget
    obtain ⟨-, -, rfl⟩ := Record.nth_post_unique ht ha.symm
    rw [hnone] at hholds
    cases hholds with
    | posted stage task => exact ⟨stage, task⟩

end Traffic.Kept

namespace Traffic

variable {i k : Nat} {s₀ s s' : Traffic ω} {t u : Record ω} {a b : Scan ω} {p : Post ω}
  {r : Ring ω} {rest : List Nat} {o : Order} {verdict : RowView → Verdict}

/-- Whatever a ring and its slots were used for, a scan that publishes its next frame there, and
whatever happens then but to the slot of that frame: the round of reduction that comes to this slot
leaves it reduced, with the task that was published and one of three outcomes.  Rows and an error
never come together, and a task whose epoch has passed leaves the filter unasked. -/
theorem reduces_to_outcome (h₀ : s₀.Opened i) (h : Run i s₀ t s) (hengine : a.engine = s.engine)
    (hinbox : a.inbox = s.inboxes k) (hring : a.dispatcher.ring = some i)
    (hpublished : a.publishOne? = some b) (hpost : a.post? = some p)
    (hreducer : p.work.reducer = .filtering o)
    (hverdict : ∀ v w, (p.work.filter.judge v w).1 = verdict v)
    (hmeanwhile : Run i ({ s with engine := b.engine }.setInbox k b.inbox) u s')
    (huntouched : u.about p.slot = []) (hthere : s'.engine.rings[i]? = some r)
    (hdue : r.due = p.slot :: rest) :
    ∃ e rows error, s'.engine.reduceOldest i = (true, e) ∧
      e.stage? i p.slot = some .reduced ∧ e.task i p.slot = { p.task with rows, error } ∧
      p.ComesTo o verdict s'.engine.epoch rows error ∧
      (∀ rows' error', p.ComesTo o verdict s'.engine.epoch rows' error' →
        rows' = rows ∧ error' = error) ∧
      (rows = [] ∨ error = none) ∧
      (p.epoch ≠ s'.engine.epoch p.work.dispatcher → e.world = s'.engine.world) := by
  obtain ⟨r₀, hkept⟩ := h.kept h₀
  obtain ⟨p', hpost', hpublish⟩ := Run.publishOne? k hengine hinbox hring hpublished
  obtain rfl := Option.some.inj (hpost.symm.trans hpost')
  obtain ⟨r₁, hkept⟩ := hpublish.kept_from hkept
  obtain ⟨r₂, hkept⟩ := hmeanwhile.kept_from hkept
  rw [List.append_assoc, List.singleton_append] at hkept
  obtain rfl := Option.some.inj (hkept.there.symm.trans hthere)
  obtain ⟨hstage, htask⟩ := hkept.untouched huntouched
  obtain ⟨e, hreduce, hrings, hworld⟩ := Engine.reduceOldest_due hthere hdue
  rw [htask] at hrings hworld
  obtain ⟨rows, error, hout⟩ := p.outcome_eq s'.engine.epoch s'.engine.world
  have hcomes := Post.comesTo_outcome hreducer hverdict s'.engine.epoch s'.engine.world
  rw [hout] at hcomes
  refine ⟨e, rows, error, hreduce, ?_, ?_, hcomes, fun _ _ => hcomes.unique, hcomes.rows_or_error,
    fun hstale => ?_⟩
  · rw [Engine.stage?_eq hrings]
    exact (Ring.stage?_moved_to (by simpa using hstage)).2 (.inl rfl)
  · rw [Engine.task_eq hrings, Ring.task_reduceTo, if_pos ⟨rfl, Ring.lt_capacity hstage⟩]
    exact hout
  · rw [hworld, Task.run_of_stale (t := p.task) (w := p.work) rfl hstale]

/-- A filter that gives up on row 1 and keeps the others. -/
def givingUp (v : RowView) : Verdict := if v.row = 1 then .faults .abandoned else .keep

/-- A scan of a frame of three rows, which are visited from the last to the first. -/
def backwards (s : Traffic Unit) : Scan Unit where
  engine := s.engine
  inbox := s.inboxes 0
  dispatcher :=
    { id := 1, reducer := .filtering .descending, ring := some 0, frameCount := 1
      directory := { frames := #[⟨0, 0, 3, #[]⟩] }
      work := some
        { dispatcher := 1, view := {}, filter := .ofVerdict givingUp
          reducer := .filtering .descending } }

/-- The row that is kept before the filter gives up is not in the outcome. -/
theorem reduces_to_failure :
    ∃ b p s' e, (backwards twoSlots).publishOne? = some b ∧
      (backwards twoSlots).post? = some p ∧
      Run 0 ({ twoSlots with engine := b.engine }.setInbox 0 b.inbox) [.strayed 1] s' ∧
      s'.engine.reduceOldest 0 = (true, e) ∧ e.stage? 0 p.slot = some .reduced ∧
      (e.task 0 p.slot).rows = [] ∧
      (e.task 0 p.slot).error = some (.predicate 0 "reducer panicked") := by
  have h₀ : twoSlots.Opened 0 := ⟨⟨0, 2, rfl⟩, fun _ => ⟨rfl, rfl⟩, rfl, rfl, rfl⟩
  let b : Scan Unit := ((backwards twoSlots).publishOne?).get rfl
  let p : Post Unit := ((backwards twoSlots).post?).get rfl
  obtain ⟨s', hmeanwhile, hdue, hcurrent⟩ : ∃ s',
      Run 0 ({ twoSlots with engine := b.engine }.setInbox 0 b.inbox) [.strayed 1] s' ∧
        s'.engine.rings[0]?.map Ring.due = some [0, 1] ∧ 1 = s'.engine.epoch 1 :=
    ⟨_, (Run.none.step (.claim rfl)).step (.stray List.mem_cons_self), by decide, rfl⟩
  obtain ⟨r, hthere, hdue⟩ := Option.map_eq_some_iff.1 hdue
  have huntouched : Record.about p.slot ([.strayed 1] : Record Unit) = [] := rfl
  obtain ⟨e, rows, error, hreduce, hstage, htask, -, hunique, -⟩ :=
    reduces_to_outcome (a := backwards twoSlots) (b := b) (p := p) h₀ .none rfl rfl rfl rfl rfl rfl
      (fun _ _ => rfl) hmeanwhile huntouched hthere hdue
  obtain ⟨rfl, rfl⟩ := hunique [] (some (.predicate 0 "reducer panicked"))
    (.failed hcurrent (show _ = [2] ++ 1 :: [0] from rfl) (by decide) rfl)
  refine ⟨b, p, s', e, rfl, rfl, hmeanwhile, hreduce, hstage, ?_, ?_⟩
  · rw [htask]
  · rw [htask]

end Traffic

end TableScan
