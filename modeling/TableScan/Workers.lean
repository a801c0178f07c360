import TableScan.Cursor

/-!
# Workers

The workers of a hub reduce what is published in its rings, beside the consumers.  Each goes round
the rings, empties the one it stands at before it leaves it, and sleeps after a round without work.
Workers and consumers take turns: between two calls of a consumer some workers
take some steps, as a rota has it (`Cursor.foldBeside`).
-/

namespace TableScan

variable {ω : Type}

/-- A worker on its round of the rings. -/
structure Worker where
  number : Nat
  /-- How many rings of the round lie behind it. -/
  turn : Nat := 0
  /-- Whether it has reduced anything on this round. -/
  busy : Bool := false
  asleep : Bool := false
deriving DecidableEq, Repr

namespace Worker

/-- The worker past a ring in which nothing is due. -/
def leave (w : Worker) (shards : Nat) : Worker :=
  if w.turn + 1 < shards then { w with turn := w.turn + 1 }
  else { w with turn := 0, busy := false, asleep := !w.busy }

/-- The next step of a worker: it wakes up, reduces the oldest slot of the ring that it stands at,
or leaves that ring.  The round begins at the ring of the worker's own number. -/
def step (w : Worker) (h : Hub) (e : Engine ω) : Worker × Engine ω :=
  if w.asleep then ({ w with asleep := false }, e)
  else
    match e.reduceOldest (h.ring (w.number + w.turn)) with
    | (true, e) => ({ w with busy := true }, e)
    | (false, e) => (w.leave h.shards, e)

end Worker

/-- The workers of a hub. -/
structure Crew where
  hub : Nat
  workers : Array Worker

/-- The workers that take a step after each call of a consumer, by their numbers and one after the
other. -/
def Rota := Nat → List Nat

/-- One worker after the other. -/
def Rota.inTurn (workers : Nat) : Rota := fun n => [n % workers]

namespace Crew

/-- The crew of a hub, of as many workers as the settings say. -/
def start (hub : Nat) (settings : Settings) : Crew :=
  { hub, workers := (Array.range settings.workers).map fun number => { number } }

/-- The next step of one worker, if there is one of that number. -/
def step (s : Crew × Engine ω) (number : Nat) : Crew × Engine ω :=
  match s.1.workers[number]?, s.2.hubs[s.1.hub]? with
  | some w, some h =>
      let (w, e) := w.step h s.2
      ({ s.1 with workers := s.1.workers.setIfInBounds number w }, e)
  | _, _ => s

/-- A step of each of some workers. -/
def work (c : Crew) (e : Engine ω) (numbers : List Nat) : Crew × Engine ω :=
  numbers.foldl step (c, e)

/-- A step of each of some workers beside a scan. -/
def workBeside (c : Crew) (s : Scan ω) (numbers : List Nat) : Crew × Scan ω :=
  let (c, engine) := c.work s.engine numbers
  (c, { s with engine })

/-- A step of a worker reduces one slot of a ring, or it leaves the engine alone. -/
theorem engine_step (s : Crew × Engine ω) (number : Nat) :
    (step s number).2 = s.2 ∨ ∃ ring, (step s number).2 = (s.2.reduceOldest ring).2 := by
  unfold step
  split
  · rename_i w h _ _
    simp only [Worker.step]
    split
    · exact .inl rfl
    · refine .inr ⟨h.ring (w.number + w.turn), ?_⟩
      split <;> rename_i hr <;> rw [hr]
  · exact .inl rfl

/-- What every reduction keeps, a crew at work keeps. -/
theorem work_keeps {P : Engine ω → Prop} (hP : ∀ e ring, P e → P (e.reduceOldest ring).2)
    (c : Crew) {e : Engine ω} (numbers : List Nat) (h : P e) : P (c.work e numbers).2 := by
  induction numbers generalizing c e with
  | nil => exact h
  | cons number numbers ih =>
    have hstep : P (step (c, e) number).2 := by
      rcases engine_step (c, e) number with hs | ⟨ring, hs⟩ <;> rw [hs]
      · exact h
      · exact hP e ring h
    exact ih (step (c, e) number).1 hstep

/-- Workers leave a scan no more to do. -/
theorem load_workBeside (c : Crew) (s : Scan ω) (numbers : List Nat) :
    (c.workBeside s numbers).2.load ≤ s.load :=
  work_keeps (P := fun e => ({ s with engine := e } : Scan ω).load ≤ s.load)
    (fun e ring h => Nat.le_trans (Scan.load_reduceOldest_le { s with engine := e } ring) h) c numbers
    (Nat.le_refl _)

end Crew

/-- Visits all rows that are still to come.  Some of the crew work after every move. -/
def Cursor.foldBeside {β : Type} (f : β → RowView → β) (b : β) (rota : Rota) (crew : Crew)
    (c : Cursor) (s : Scan ω) : Except Stop β × Cursor × Scan ω :=
  match _h : c.next s with
  | (.ok true, c', s') =>
      foldBeside f (f b c'.view) (fun n => rota (n + 1)) (crew.workBeside s' (rota 0)).1 c'
        (crew.workBeside s' (rota 0)).2
  | (.ok false, c', s') => (.ok b, c', (crew.workBeside s' (rota 0)).2)
  | (.error stop, c', s') => (.error stop, c', (crew.workBeside s' (rota 0)).2)
termination_by (s.load, c.rest.length)
decreasing_by
  have hle := crew.load_workBeside s' (rota 0)
  rcases Prod.lex_def.1 (lex_next _h) with hl | ⟨hl, hr⟩ <;> dsimp only at hl
  · exact Prod.Lex.left _ _ (Nat.lt_of_le_of_lt hle hl)
  · rcases Nat.lt_or_eq_of_le (hl ▸ hle) with hlt | heq
    · exact Prod.Lex.left _ _ hlt
    · rw [heq]
      exact Prod.Lex.right _ hr

end TableScan
