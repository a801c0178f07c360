import TableScan.Proofs.Waits

/-!
# Cursors on a course

A cursor seeks the next frame with rows on the course of its scan.  Main statements: what it
reaches is what there is to find, unless the scan is starving (`Cursor.advance_reaches`); a cursor
that moves on to its next row never starves (`Cursor.Reads.next`); and one that starts over does
only if it was exhausted, with nothing in flight and no free slot (`Cursor.Reads.rewind`).
-/

namespace TableScan

variable {ω σ : Type}

/-- What there is to find from a position of a course on. -/
inductive Find
  | nothing
  /-- The first frame with rows, by its position, and its rows. -/
  | rows (position row : Nat) (rest : List Nat)
  | failure (position : Nat) (failure : Failure)

namespace Course

variable {S : Course ω σ} {b : Nat}

/-- What a course comes to from a position on: the first frame with rows or with a failure. -/
inductive Finds (S : Course ω σ) : Nat → Find → Prop
  | nothing : Finds S S.count .nothing
  | pass {b : Nat} {x : Find} (there : b < S.count) (found : S.found b [] none)
      (rest : Finds S (b + 1) x) : Finds S b x
  | rows {b row : Nat} {rest : List Nat} (there : b < S.count)
      (found : S.found b (row :: rest) none) : Finds S b (.rows b row rest)
  | failure {b : Nat} {rows : List Nat} {f : Failure} (there : b < S.count)
      (found : S.found b rows (some f)) : Finds S b (.failure b f)

end Course

namespace Cursor

open Scan

variable {S : Course ω σ} {c : Cursor} {s s' : Scan ω} {N : List Lease} {C L H : List Place}
  {F : List Lease} {l : Lease}

/-! ## Seeking -/

/-- The outcome of a search of a cursor, with what it found. -/
def Reaches (S : Course ω σ) (c : Cursor) (r : Except Stop Bool × Cursor × Scan ω) : Find → Prop
  | .nothing => ∃ s', r = (.ok false, { c with position := S.count }, s') ∧ s'.Underway S S.count []
  | .rows b row rest => ∃ l s',
      r = (.ok true, { c with position := b }.take l (S.frame b) (row :: rest), s') ∧
        l.ring = S.ring ∧ s'.Underway S (b + 1) [l.slot]
  | .failure b f => ∃ s', r = (.error (.failed f), { c with position := b }.exhaust, s') ∧
      s'.Underway S (b + 1) []

/-- The outcome of a search on a starving scan. -/
def Starves (S : Course ω σ) (c : Cursor) (r : Except Stop Bool × Cursor × Scan ω) : Prop :=
  ∃ shard waited s', r = (.error (.failed (.saturated shard waited)), c.exhaust, s') ∧
    s'.Underway S c.position []

lemma isCurrent_iff (h : s.Runs S) (t : Task ω) :
    isCurrent s t = true ↔ S.Current s.engine t := by
  simp only [isCurrent, Bool.and_eq_true, beq_iff_eq, h.id, Course.Current]

lemma reaches_pass {r : Except Stop Bool × Cursor × Scan ω} {x : Find}
    (h : Reaches S c.pass r x) : Reaches S c r x := by
  cases x <;> exact h

/-- A slot that was caught is given back. -/
lemma sound_done (hs : s.Sound (l :: N) C L F H) : (s.done l).Sound N C L F H := by
  have hsame := s.engine.sameSize_release l
  exact ⟨hs.engine.release, ⟨hs.fed.flights, fun i hi => hsame.rings ▸ hs.fed.ring_lt i hi,
    hsame.tallies ▸ hs.fed.id_lt⟩, ⟨hsame.epochs ▸ hs.employed.id_lt, hs.employed.work_dispatcher,
    fun i hi => hsame.rings ▸ hs.employed.ring_lt i hi⟩⟩

/-- A wait that comes to a slot, for a frame still to come. -/
lemma await_caught (hS : S.Lawful) (h : s.Underway S c.position []) (hs : s.Sound N C L F H)
    (hlt : c.position < S.count) (ha : s.await = (.ok l, s')) :
    l.ring = S.ring ∧ s'.Caught S c.position l ∧ ¬ s.Starving S.ring ∧
      ∃ F', s'.Sound (l :: N) C L F' H := by
  have m : Moves (fun _ : ω => ()) (s, N) (s.await.2, held s.await.1 ++ N) :=
    moves_await h.moored.home
  rcases h.await hS hs hlt with ⟨l', s₁, ha', hring, hcaught, hn⟩ | ⟨_, _, s₁, ha', -⟩ <;>
    rw [ha] at ha' <;> cases ha'
  obtain ⟨F', hs', -⟩ := Moves.sound m hs
  rw [ha] at hs'
  exact ⟨hring, hcaught, hn, F', hs'⟩

/-- What a wait comes to, if it is of the present epoch, is done on the course. -/
lemma await_current (hS : S.Lawful) (h : s.Underway S c.position []) (hs : s.Sound N C L F H)
    (hlt : c.position < S.count) (ha : s.await = (.ok l, s'))
    (hcur : isCurrent s' (s'.engine.task l.ring l.slot) = true) :
    l.ring = S.ring ∧ s'.Underway S (c.position + 1) [l.slot] ∧
      S.Done s'.engine c.position (s'.engine.task l.ring l.slot) ∧ ¬ s.Starving S.ring ∧
      ∃ F', s'.Sound (l :: N) C L F' H := by
  obtain ⟨hring, hcaught, hn, hs'⟩ := await_caught hS h hs hlt ha
  rcases hcaught with ⟨hu, hstale⟩ | ⟨hu, hdone⟩
  · exact absurd ((isCurrent_iff hu.toRuns _).1 hcur) hstale
  · exact ⟨hring, hu, hdone, hn, hs'⟩

/-- What a wait comes to, if it is of a past epoch, leaves the cursor where it was on the course. -/
lemma await_stale (hS : S.Lawful) (h : s.Underway S c.position []) (hs : s.Sound N C L F H)
    (hlt : c.position < S.count) (ha : s.await = (.ok l, s'))
    (hcur : isCurrent s' (s'.engine.task l.ring l.slot) = false) :
    l.ring = S.ring ∧ s'.Underway S c.position [l.slot] ∧ ¬ s.Starving S.ring ∧
      ∃ F', s'.Sound (l :: N) C L F' H := by
  obtain ⟨hring, hcaught, hn, hs'⟩ := await_caught hS h hs hlt ha
  rcases hcaught with ⟨hu, -⟩ | ⟨hu, hdone⟩
  · exact ⟨hring, hu, hn, hs'⟩
  · rw [(isCurrent_iff hu.toRuns _).2 hdone.current] at hcur
    cases hcur

/-- A cursor without a frame at hand reaches what there is to find, unless the scan is starving
before a frame still to come. -/
lemma advance_reaches (hS : S.Lawful) (h : s.Underway S c.position []) (hs : s.Sound N C L F H)
    (hcount : c.frameCount = S.count) :
    (c.position < S.count ∧ s.Starving S.ring ∧ Starves S c (c.advance s)) ∨
      (¬ (c.position < S.count ∧ s.Starving S.ring) ∧
        ∃ x, S.Finds c.position x ∧ Reaches S c (c.advance s) x) := by
  fun_induction advance c s generalizing F with
  | case1 c s hlt stop s' ha =>
    -- only a scan that starves waits in vain
    rcases h.await hS hs (hcount ▸ hlt) with ⟨l', s₁, ha', -⟩ | ⟨_, _, s₁, ha', hu, hst⟩ <;>
      rw [ha] at ha' <;> cases ha'
    exact .inl ⟨hcount ▸ hlt, hst, _, _, _, rfl, hu⟩
  | case2 c s hlt l s' ha task hcur =>
    rename_i ih
    obtain ⟨hring, hu, hn, F', hs'⟩ := await_stale hS h hs (hcount ▸ hlt) ha (by simpa using hcur)
    obtain ⟨hu', hn'⟩ := hu.done hring
    rcases ih hu' (sound_done hs') hcount with ⟨-, hst, -⟩ | ⟨-, hx⟩
    · exact absurd hst hn'
    · exact .inr ⟨fun hst => hn hst.2, hx⟩
  | case3 c s hlt l s' ha task hcur =>
    -- what is done on the course is the frame that comes next
    rename_i hframe
    obtain ⟨-, hu, hdone, -⟩ := await_current hS h hs (hcount ▸ hlt) ha (by simpa using hcur)
    refine absurd ?_ hframe
    rw [Dispatcher.frameAt?, hu.count, if_pos (hcount ▸ hlt), hu.order]
    exact congrArg some hdone.frame
  | case4 c s hlt l s' ha task hcur _ failure =>
    rename_i herr
    obtain ⟨hring, hu, hdone, hn, -⟩ :=
      await_current hS h hs (hcount ▸ hlt) ha (by simpa using hcur)
    have hfound := hdone.found
    rw [herr] at hfound
    exact .inr ⟨fun hst => hn hst.2, _, .failure (hcount ▸ hlt) hfound, _, rfl,
      (hu.done hring).1.still rfl rfl rfl rfl rfl⟩
  | case5 c s hlt l s' ha task hcur =>
    -- a frame without rows is passed
    rename_i _ hrows herr ih
    obtain ⟨hring, hu, hdone, hn, F', hs'⟩ :=
      await_current hS h hs (hcount ▸ hlt) ha (by simpa using hcur)
    have hfound := hdone.found
    rw [hrows, herr] at hfound
    obtain ⟨hu', hn'⟩ := hu.done hring
    rcases ih hu' (sound_done hs') hcount with ⟨-, hst, -⟩ | ⟨-, x, hx, hr⟩
    · exact absurd hst hn'
    · exact .inr ⟨fun hst => hn hst.2, x, .pass (hcount ▸ hlt) hfound hx, reaches_pass hr⟩
  | case6 c s hlt l s' ha task hcur =>
    -- the first row of the frame
    rename_i _ row rows hrows herr
    obtain ⟨hring, hu, hdone, hn, -⟩ :=
      await_current hS h hs (hcount ▸ hlt) ha (by simpa using hcur)
    have hfound := hdone.found
    rw [hrows, herr] at hfound
    refine .inr ⟨fun hst => hn hst.2, _, .rows (hcount ▸ hlt) hfound, l, s', ?_, hring, hu⟩
    rw [← hdone.frame]
  | case7 c s hlt =>
    obtain ⟨O, R, D, -, -, hl⟩ := h.lane
    have hbound := hl.bound
    have hpos : c.position = S.count := by omega
    refine .inr ⟨fun hst => by omega, .nothing, ?_, s, ?_, hpos ▸ h⟩
    · rw [hpos]
      exact .nothing
    · rw [← hpos]

/-! ## Standing on a course -/

/-- The phases of a cursor that may still deliver rows. -/
def IsOpen (c : Cursor) : Prop := c.phase = .fresh ∨ c.phase = .iterating

section Next

variable {c' : Cursor} {s' : Scan ω} (hc : c.IsOpen) (hr : c.rest = [])

include hc hr

lemma next_of_found (ha : c.emptied.advance (c.giveBack s) = (.ok true, c', s')) :
    c.next s = (.ok true, c'.deliver, s') := by
  rcases hc with hp | hp <;> simp [Cursor.next, hp, hr, ha]

lemma next_of_nothing (ha : c.emptied.advance (c.giveBack s) = (.ok false, c', s')) :
    c.next s = (.ok false, c'.exhaust, s') := by
  rcases hc with hp | hp <;> simp [Cursor.next, hp, hr, ha]

lemma next_of_stop {stop : Stop} (ha : c.emptied.advance (c.giveBack s) = (.error stop, c', s')) :
    c.next s = (.error stop, c', s') := by
  rcases hc with hp | hp <;> simp [Cursor.next, hp, hr, ha]

end Next

lemma ended_of_not_open (h : ¬ c.IsOpen) : c.phase = .exhausted ∨ c.phase = .closed := by
  unfold IsOpen at h
  cases hp : c.phase <;> simp [hp] at h ⊢

/-- Where a cursor stands on its course: it holds the slot of a frame, or it has found no rows at
all, or it is exhausted, or closed. -/
inductive Stands (S : Course ω σ) (c : Cursor) (s : Scan ω) : Prop
  | holding {l : Lease} (phase : c.IsOpen) (lease : c.lease = some l) (ring : l.ring = S.ring)
      (frame : c.view.frame = S.frame (c.position - 1))
      (underway : s.Underway S c.position [l.slot])
  | past (phase : c.phase = .fresh) (lease : c.lease = none) (rest : c.rest = [])
      (position : c.position = S.count) (underway : s.Underway S c.position [])
  | exhausted {b : Nat} (phase : c.phase = .exhausted) (lease : c.lease = none)
      (rest : c.rest = []) (underway : s.Underway S b [])
  | closed (phase : c.phase = .closed)

/-- A cursor that reads the course of its scan. -/
structure Reads (c : Cursor) (S : Course ω σ) (s : Scan ω) : Prop where
  count : c.frameCount = S.count
  view : c.view = (S.work.view.atFrame c.view.frame).atRow c.view.row
  stands : c.Stands S s

/-- The outcome of a call that moves a cursor on to the next frame, with what it found there. -/
def Seeks (S : Course ω σ) (r : Except Stop Bool × Cursor × Scan ω) : Find → Prop
  | .nothing => ∃ c' s', r = (.ok false, c', s') ∧ c'.phase = .exhausted ∧ c'.Reads S s'
  | .rows b row rest => ∃ c' s', r = (.ok true, c', s') ∧ c'.phase = .iterating ∧
      c'.view.frame = S.frame b ∧ c'.view.row = row ∧ c'.rest = rest ∧ c'.position = b + 1 ∧
      c'.Reads S s'
  | .failure _ f => ∃ c' s', r = (.error (.failed f), c', s') ∧ c'.phase = .exhausted ∧
      c'.Reads S s'

namespace Reads

lemma giveBack (h : c.Reads S s) (hc : c.IsOpen) :
    (c.giveBack s).Underway S c.position [] ∧
      (c.position < S.count → ¬ (c.giveBack s).Starving S.ring) := by
  unfold Cursor.giveBack
  cases h.stands with
  | holding phase lease ring frame underway =>
    rw [lease]
    exact ⟨(underway.done ring).1, fun _ => (underway.done ring).2⟩
  | past phase lease rest position underway =>
    rw [lease]
    exact ⟨underway, fun hlt => absurd hlt (by omega)⟩
  | exhausted phase | closed phase => rcases hc with hc | hc <;> rw [hc] at phase <;> cases phase

lemma sound_giveBack (hs : s.Sound (c.leases ++ N) C L F H) : (c.giveBack s).Sound N C L F H := by
  unfold Cursor.giveBack
  unfold leases at hs
  cases hl : c.lease with
  | none =>
    rw [hl] at hs
    exact hs
  | some l =>
    rw [hl] at hs
    exact sound_done hs

/-- What the next call comes to: the cursor has ended, or it has a row at hand, or it seeks. -/
lemma next_cases (hS : S.Lawful) (h : c.Reads S s) (hs : s.Sound (c.leases ++ N) C L F H) :
    (¬ c.IsOpen ∧ c.next s = (.ok false, c, s)) ∨
    (∃ row rest, c.IsOpen ∧ c.rest = row :: rest ∧ c.next s =
      (.ok true, { c with view := c.view.atRow row, rest, phase := .iterating }, s)) ∨
    (c.IsOpen ∧ c.rest = [] ∧ ∃ x, S.Finds c.position x ∧ Seeks S (c.next s) x) := by
  by_cases hopen : c.IsOpen
  · right
    cases hr : c.rest with
    | cons row rest =>
      refine .inl ⟨row, rest, hopen, rfl, ?_⟩
      rcases hopen with hp | hp <;> simp [Cursor.next, hp, hr, deliver]
    | nil =>
      refine .inr ⟨hopen, rfl, ?_⟩
      obtain ⟨hu, hn⟩ := h.giveBack hopen
      have hview := h.view
      rcases advance_reaches (c := c.emptied) hS hu (sound_giveBack hs) h.count with
        ⟨hlt, hst, -⟩ | ⟨-, x, hx, hreach⟩
      · exact absurd hst (hn hlt)
      · refine ⟨x, hx, ?_⟩
        cases x with
        | nothing =>
          obtain ⟨s', ha, hu'⟩ := hreach
          rw [next_of_nothing hopen hr ha]
          exact ⟨_, s', rfl, rfl, h.count, hview, .exhausted rfl rfl rfl hu'⟩
        | rows b row rest =>
          obtain ⟨l, s', ha, hring, hu'⟩ := hreach
          rw [next_of_found hopen hr ha]
          refine ⟨_, s', rfl, rfl, rfl, rfl, rfl, rfl, h.count, ?_, ?_⟩
          · show (c.view.atFrame (S.frame b)).atRow row = _
            rw [hview]
            rfl
          · exact .holding (.inr rfl) rfl hring rfl hu'
        | failure b f =>
          obtain ⟨s', ha, hu'⟩ := hreach
          rw [next_of_stop hopen hr ha]
          exact ⟨_, s', rfl, rfl, h.count, hview, .exhausted rfl rfl rfl hu'⟩
  · exact .inl ⟨hopen, next_of_ended (ended_of_not_open hopen) s⟩

/-- A cursor that moves on reads its course. -/
lemma next (hS : S.Lawful) (h : c.Reads S s) (hs : s.Sound (c.leases ++ N) C L F H) :
    (c.next s).2.1.Reads S (c.next s).2.2 := by
  rcases h.next_cases hS hs with ⟨-, hn⟩ | ⟨row, rest, hopen, hr, hn⟩ | ⟨-, -, x, -, hx⟩
  · rw [hn]
    exact h
  · rw [hn]
    have hview := h.view
    refine ⟨h.count, ?_, ?_⟩
    · show c.view.atRow row = _
      rw [hview]
      rfl
    · cases h.stands with
      | holding phase lease ring frame underway =>
        exact .holding (.inr rfl) lease ring frame underway
      | past phase lease rest' => simp [hr] at rest'
      | exhausted phase | closed phase =>
        rcases hopen with hc | hc <;> rw [hc] at phase <;> cases phase
  · cases x with
    | nothing | failure =>
      obtain ⟨c', s', hn, -, hreads⟩ := hx
      rw [hn]
      exact hreads
    | rows =>
      obtain ⟨c', s', hn, -, -, -, -, -, hreads⟩ := hx
      rw [hn]
      exact hreads

end Reads

end Cursor

end TableScan
