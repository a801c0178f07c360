import TableScan.Dispatch

/-!
# Cursors

A cursor delivers the rows that a scan finds, one at a time.  It holds the slot of one frame at
a time, and the rows of that frame still to be delivered (`Cursor.rest`).
-/

namespace TableScan

variable {ω : Type}

/-- The phases of a cursor's life. -/
inductive Phase
  | fresh | iterating | exhausted | closed
deriving DecidableEq, Repr

/-- The reading side of a scan. -/
structure Cursor where
  view : RowView
  /-- The slot of the frame at hand. -/
  lease : Option Lease := none
  /-- The rows of the frame at hand that are still to come. -/
  rest : List Nat := []
  /-- The position, in scan order, of the next frame to collect. -/
  position : Nat := 0
  frameCount : Nat
  phase : Phase := .fresh

namespace Cursor

/-- A cursor before the first frame of an execution. -/
def start (d : Dispatcher ω) : Cursor := { view := d.view, frameCount := d.frameCount }

/-- The cursor without a frame at hand. -/
def emptied (c : Cursor) : Cursor := { c with lease := none, rest := [] }

/-- The scan with the slot of the frame at hand given back. -/
def giveBack (c : Cursor) (s : Scan ω) : Scan ω :=
  match c.lease with
  | some l => s.done l
  | none => s

/-- The cursor with the rows of a frame to deliver. -/
def take (c : Cursor) (l : Lease) (frame : Nat) (rows : List Nat) : Cursor :=
  { c with view := c.view.atFrame frame, lease := some l, rest := rows, position := c.position + 1 }

/-- The cursor past a frame without rows. -/
def pass (c : Cursor) : Cursor := { c with position := c.position + 1 }

/-- The cursor at its end. -/
def exhaust (c : Cursor) : Cursor := { c with phase := .exhausted }

/-- The cursor after a wait that stopped: a failure is its end, a fault is not. -/
def stopped (c : Cursor) : Stop → Cursor
  | .failed _ => c.exhaust
  | .faulted _ | .stalled => c

/-- Whether a task is of the current epoch of the scan. -/
def isCurrent (s : Scan ω) (t : Task ω) : Bool :=
  t.dispatcher == s.dispatcher.id && t.epoch == s.engine.epoch s.dispatcher.id

/-- Collects frames up to the first with rows.  Slots of past epochs are passed over.  There is
no such frame once all frames are collected. -/
def advance (c : Cursor) (s : Scan ω) : Except Stop Bool × Cursor × Scan ω :=
  if c.position < c.frameCount then
    match _h : s.await with
    | (.error stop, s') => (.error stop, c.stopped stop, s')
    | (.ok l, s') =>
        let task := s'.engine.task l.ring l.slot
        if !isCurrent s' task then advance c (s'.done l)
        else if some task.frame ≠ s'.dispatcher.frameAt? c.position then
          (.error (.faulted .outOfOrder), c, { s' with engine := s'.engine.dropLease l })
        else
          match task.error, task.rows with
          | some failure, _ =>
              (.error (.failed failure), c.exhaust,
                (s'.done l).note (.taskFailed s'.dispatcher.id task.frame failure))
          | none, [] => advance c.pass (s'.done l)
          | none, row :: rows => (.ok true, c.take l task.frame (row :: rows), s')
  else (.ok false, c, s)
termination_by s.load
decreasing_by
  all_goals
    rw [Scan.load_done]
    exact Scan.load_await _h

/-- Delivers the next row of the frame at hand. -/
def deliver (c : Cursor) : Cursor :=
  match c.rest with
  | [] => { c with phase := .iterating }
  | row :: rest => { c with view := c.view.atRow row, rest, phase := .iterating }

/-- Moves to the next row; there is none past the last frame or after a failure. -/
def next (c : Cursor) (s : Scan ω) : Except Stop Bool × Cursor × Scan ω :=
  match c.phase with
  | .exhausted | .closed => (.ok false, c, s)
  | .fresh | .iterating =>
      if c.rest ≠ [] then (.ok true, c.deliver, s)
      else
        match c.emptied.advance (c.giveBack s) with
        | (.ok true, c, s) => (.ok true, c.deliver, s)
        | (.ok false, c, s) => (.ok false, c.exhaust, s)
        | (.error stop, c, s) => (.error stop, c, s)

theorem load_giveBack (c : Cursor) (s : Scan ω) : (c.giveBack s).load = s.load := by
  unfold giveBack
  cases c.lease with
  | none => rfl
  | some l => exact Scan.load_done s l

theorem load_advance {c c' : Cursor} {s s' : Scan ω} (h : c.advance s = (.ok true, c', s')) :
    s'.load < s.load := by
  fun_induction advance c s with
  | case1 => cases h
  | case2 c s _ l s₁ ha _ _ ih =>
    refine Nat.lt_trans (ih h) ?_
    rw [Scan.load_done]
    exact Scan.load_await ha
  | case3 => cases h
  | case4 => cases h
  | case5 c s _ l s₁ ha _ _ _ _ _ ih =>
    refine Nat.lt_trans (ih h) ?_
    rw [Scan.load_done]
    exact Scan.load_await ha
  | case6 c s _ l s₁ ha =>
    obtain ⟨-, h⟩ := Prod.mk.inj h
    obtain ⟨-, rfl⟩ := Prod.mk.inj h
    exact Scan.load_await ha
  | case7 => cases h

/-- A delivered row uses up a part of the load, or a row of the frame at hand. -/
theorem lex_next {c c' : Cursor} {s s' : Scan ω} (h : c.next s = (.ok true, c', s')) :
    Prod.Lex (· < ·) (· < ·) (s'.load, c'.rest.length) (s.load, c.rest.length) := by
  have key : (c.rest ≠ [] ∧ c' = c.deliver ∧ s' = s) ∨ s'.load < s.load := by
    unfold next at h
    split at h
    · cases h
    · cases h
    all_goals
      split at h
      · rename_i hr
        simp only [Prod.mk.injEq, true_and] at h
        exact .inl ⟨hr, h.1.symm, h.2.symm⟩
      · right
        rw [← load_giveBack c s]
        split at h
        · rename_i ha
          simp only [Prod.mk.injEq, true_and] at h
          obtain ⟨-, rfl⟩ := h
          exact load_advance ha
        · cases h
        · cases h
  rcases key with ⟨hr, rfl, rfl⟩ | hl
  · refine Prod.Lex.right _ ?_
    unfold deliver
    split
    · contradiction
    · rename_i hd
      simp [hd]
  · exact Prod.Lex.left _ _ hl

/-- Starts over, with the filter's state undone.  A cursor that has not moved stays where it
is. -/
def rewind (c : Cursor) (s : Scan ω) : Except Stop Unit × Cursor × Scan ω :=
  match c.phase with
  | .fresh | .closed => (.ok (), c, s)
  | .iterating | .exhausted =>
      match { c.emptied with position := 0, phase := .fresh }.advance
          (c.giveBack s).rewindFilter.rewind with
      | (.ok _, c, s) => (.ok (), c, s)
      | (.error stop, c, s) => (.error stop, c, s)

/-- Gives up the execution: everything in flight is settled, and the scan is cleared. -/
def close (c : Cursor) (s : Scan ω) : Except Stop Unit × Cursor × Scan ω :=
  match c.phase with
  | .closed => (.ok (), c, s)
  | .fresh | .iterating | .exhausted =>
      match (c.giveBack s).drain with
      | (.error stop, s) => (.error stop, c.emptied, s)
      | (.ok (), s) => (.ok (), { c.emptied with phase := .closed }, s.clear)

/-- Opens a cursor on the execution of a scan, with the first frame that has rows at hand.  A
cursor that cannot be opened is closed. -/
def openOn (s : Scan ω) : Except Stop Cursor × Scan ω :=
  match (start s.dispatcher).advance s with
  | (.ok _, c, s) => (.ok c, s)
  | (.error stop, c, s) =>
      match c.close s with
      | (.ok (), _, s) => (.error stop, s)
      | (.error stop, _, s) => (.error stop, s)

end Cursor

end TableScan
