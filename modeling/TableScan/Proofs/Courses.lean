import TableScan.Proofs.Effects

/-!
# Courses

What an execution comes to: its frames in the order of the scan, the tasks that are published for
them and what is found there.  Main statement: a task of a lawful course that is run at the right
moment finds what the course says, and leaves the state that it says.
-/

namespace TableScan

variable {ω σ : Type}

/-! ## Numbered lists -/

/-- The property `P` holds of the members of a list by their number, counted from `n`. -/
def Numbered (P : Nat → Nat → Prop) : Nat → List Nat → Prop
  | _, [] => True
  | n, a :: l => P n a ∧ Numbered P (n + 1) l

namespace Numbered

variable {P Q : Nat → Nat → Prop} {n : Nat} {l l' : List Nat}

lemma append : Numbered P n (l ++ l') ↔ Numbered P n l ∧ Numbered P (n + l.length) l' := by
  induction l generalizing n with
  | nil => simp [Numbered]
  | cons a l ih => simp [Numbered, ih, and_assoc, Nat.add_assoc, Nat.add_comm 1]

lemma imp_of_lt (h : Numbered P n l) (hPQ : ∀ j < n + l.length, ∀ a ∈ l, P j a → Q j a) :
    Numbered Q n l := by
  induction l generalizing n with
  | nil => trivial
  | cons a l ih =>
    rw [List.length_cons] at hPQ
    exact ⟨hPQ n (by omega) a (List.mem_cons_self ..) h.1,
      ih h.2 fun j hj b hb => hPQ j (by omega) b (List.mem_cons_of_mem a hb)⟩

lemma imp (h : Numbered P n l) (hPQ : ∀ j, ∀ a ∈ l, P j a → Q j a) : Numbered Q n l :=
  h.imp_of_lt fun j _ => hPQ j

/-- The number of a member of a numbered list. -/
lemma mem_lt (h : Numbered P n l) {a : Nat} (ha : a ∈ l) : ∃ j < n + l.length, P j a := by
  induction l generalizing n with
  | nil => cases ha
  | cons b l ih =>
    rw [List.length_cons]
    rcases List.mem_cons.1 ha with rfl | ha
    · exact ⟨n, by omega, h.1⟩
    · obtain ⟨j, hj, hP⟩ := ih h.2 ha
      exact ⟨j, by omega, hP⟩

lemma mem (h : Numbered P n l) {a : Nat} (ha : a ∈ l) : ∃ j, P j a := by
  obtain ⟨j, -, hP⟩ := h.mem_lt ha
  exact ⟨j, hP⟩

end Numbered

/-! ## Courses -/

/-- The course of an execution: who publishes it into which ring, what its tasks ask for and, by
the position of the frame in the scan, what is found there.  What `shown` shows of the world
before each position is its `state`. -/
structure Course (ω σ : Type) where
  id : Nat
  ring : Nat
  work : Work ω
  order : Order
  count : Nat
  directory : Directory
  shown : ω → σ
  state : Nat → σ
  found : Nat → List Nat → Option Failure → Prop

namespace Course

variable {S : Course ω σ} {e : Engine ω} {j epoch : Nat} {t : Task ω}

/-- The frame at a position of the scan. -/
def frame (S : Course ω σ) (position : Nat) : Nat := S.order.itemAt S.count position

/-- The task for the frame at a position. -/
def ask (S : Course ω σ) (epoch position : Nat) : Task ω :=
  .ask S.work epoch (S.frame position) (S.directory.rowCount (S.frame position))

/-- The course of another pass over the same frames. -/
def again (S : Course ω σ) (state : Nat → σ) (found : Nat → List Nat → Option Failure → Prop) :
    Course ω σ :=
  { S with state, found }

/-- A course is lawful if the tasks find what it says and leave the state that it says. -/
structure Lawful (S : Course ω σ) : Prop where
  dispatcher : S.work.dispatcher = S.id
  reduce : ∀ j < S.count, ∀ epoch w result w', S.shown w = S.state j →
    S.work.reducer ⟨S.frame j, S.directory.rowCount (S.frame j)⟩ (S.work.view.atFrame (S.frame j))
      S.work.filter w = (result, w') →
    S.found j ((S.ask epoch j).finish result).rows ((S.ask epoch j).finish result).error ∧
      S.shown w' = S.state (j + 1)

/-- A task of the present epoch of the course. -/
def Current (S : Course ω σ) (e : Engine ω) (t : Task ω) : Prop :=
  t.dispatcher = S.id ∧ t.epoch = e.epoch S.id

/-- A task that brings what is found at a position. -/
structure Done (S : Course ω σ) (e : Engine ω) (position : Nat) (t : Task ω) : Prop where
  current : S.Current e t
  frame : t.frame = S.frame position
  found : S.found position t.rows t.error

lemma Done.congr {e' : Engine ω} (h : S.Done e j t) (he : e'.epoch S.id = e.epoch S.id) :
    S.Done e' j t :=
  ⟨⟨h.current.1, h.current.2.trans he.symm⟩, h.frame, h.found⟩

/-- What becomes of a task of the course when it is run at the right moment. -/
lemma Lawful.run (h : S.Lawful) (hj : j < S.count) {w w' : ω} {x : Option Fault}
    (hw : S.shown w = S.state j) (hr : (S.ask (e.epoch S.id) j).run e.epoch w = (t, x, w')) :
    S.Done e j t ∧ S.shown w' = S.state (j + 1) := by
  have hask : (S.ask (e.epoch S.id) j).dispatcher = S.id := h.dispatcher
  simp only [Task.run, ask, Task.ask, h.dispatcher, ne_eq, not_true_eq_false, if_false] at hr
  rcases hred : S.work.reducer ⟨S.frame j, S.directory.rowCount (S.frame j)⟩
    (S.work.view.atFrame (S.frame j)) S.work.filter w with ⟨result, w₁⟩
  obtain ⟨hfound, hshown⟩ := h.reduce j hj (e.epoch S.id) w result w₁ hw hred
  -- whether the reducer gave up or not, the task is finished with its result
  have hfin : t = (S.ask (e.epoch S.id) j).finish result ∧ w' = w₁ := by
    rw [hred] at hr
    simp only [ask, Task.ask, h.dispatcher]
    cases result <;> simp only [Prod.mk.injEq] at hr <;> exact ⟨hr.1.symm, hr.2.2.symm⟩
  obtain ⟨rfl, rfl⟩ := hfin
  refine ⟨⟨⟨?_, ?_⟩, ?_, hfound⟩, hshown⟩ <;> cases result <;> first | exact hask | rfl

end Course

end TableScan
