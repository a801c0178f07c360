import TableScan.Proofs.Engagements
import TableScan.Proofs.Progress

/-!
# Alignment

A cursor and its dispatcher both count the frames of a pass, the one when it collects them and the
other when it publishes them, and what is in flight to the inbox lies between the two counts.
Main statement: in every workshop that can be reached the three agree for every open cursor on a
plan, so that its calls come to an answer or to a failure and no cursor meets a frame out of order
or lacks a row that it counts on (`Workshop.cursors_aligned`).
-/

namespace TableScan

variable {ω σ : Type}

namespace Scan

variable {s s' : Scan ω} {π : ω → σ} {M M' N : List Lease} {C L H : List Place} {F : List Lease}
  {S : Course ω σ} {b position : Nat} {K : List Nat} {t : Task ω}

/-! ## What is in flight -/

/-- A task for the frame at a position of the present pass. -/
def AsksFor (s : Scan ω) (position : Nat) (t : Task ω) : Prop :=
  Cursor.isCurrent s t = true ∧ s.dispatcher.frameAt? position = some t.frame

lemma AsksFor.dispatcher (h : s.AsksFor position t) : t.dispatcher = s.dispatcher.id := by
  have hcur := h.1
  rw [Cursor.isCurrent, Bool.and_eq_true, beq_iff_eq] at hcur
  exact hcur.1

/-- A task of an earlier pass of the same dispatcher. -/
def LeftBehind (s : Scan ω) (t : Task ω) : Prop :=
  t.dispatcher = s.dispatcher.id ∧ t.epoch < s.engine.epoch s.dispatcher.id

/-- Only tasks of its own dispatcher are in flight to the inbox of a scan. -/
def Exclusive (s : Scan ω) : Prop :=
  ∀ slot ∈ s.inbox.inFlight, (s.engine.task s.inbox.home slot).dispatcher = s.dispatcher.id

lemma Move.exclusive (m : Move π (s, M) (s', M')) (hs : s.Sound M C L F H) (h : s.Exclusive) :
    s'.Exclusive := by
  intro slot hslot
  rw [(Move.sameSite m).dispatcher]
  rcases Move.inFlight m hs hslot with ⟨hold, hreq⟩ | ⟨work, epoch, frame, rowCount, hwork, ht⟩
  · rw [hreq.dispatcher]
    exact h slot hold
  · rw [ht]
    exact hs.employed.work_dispatcher work hwork

lemma Moves.exclusive {x y : Scan ω × List Lease} (m : Moves π x y) (hs : x.1.Sound x.2 C L F H)
    (h : x.1.Exclusive) : y.1.Exclusive :=
  Moves.keeps (P := Exclusive) Move.exclusive m hs h

/-- What others do to the engine leaves the tasks in flight to a scan to its own dispatcher. -/
lemma Exclusive.steps (h : s.Exclusive) (hs : s.Sound M C L F H) {id : Nat} {mine : Place → Prop}
    {e : Engine ω} (hmine : ∀ l ∈ s.inbox.flights, mine l.place)
    (hsteps : Engine.Steps id mine π s.engine e) : Exclusive { s with engine := e } := by
  intro slot hslot
  have hm : mine (s.inbox.home, slot) := hmine _ (List.mem_map_of_mem hslot)
  exact (hsteps.kept hm (.inl (hs.isFlown hslot))).request.dispatcher.trans (h slot hslot)

lemma Runs.asksFor_iff (h : s.Runs S) :
    s.AsksFor position t ↔
      S.Current s.engine t ∧ position < S.count ∧ t.frame = S.frame position := by
  rw [AsksFor, Cursor.isCurrent_iff h, h.frameAt?_eq_some_iff]

/-- On a scan under way, slots of earlier passes are in flight, and then the frames that were
published and not yet collected, in their order. -/
lemma Underway.inFlight_eq (hS : S.Lawful) (h : s.Underway S b K) (hs : s.Sound N C L F H)
    (hx : s.Exclusive) :
    b ≤ s.dispatcher.position ∧ s.dispatcher.position ≤ s.dispatcher.frameCount ∧
      ∃ old new, s.inbox.inFlight = old ++ new ∧
        (∀ slot ∈ old, s.LeftBehind (s.engine.task s.inbox.home slot)) ∧
        new.length = s.dispatcher.position - b ∧
        Numbered (fun j slot => s.AsksFor j (s.engine.task s.inbox.home slot)) b new := by
  obtain ⟨O, R, D, hflight, hpos, hl⟩ := h.lane
  have hbound := hl.bound
  have hhome : s.inbox.home = S.ring := by rw [Inbox.home, h.home, Option.getD_some]
  rw [Exclusive, hhome] at hx
  rw [hhome, h.count]
  refine ⟨by omega, by omega, O, R ++ D, hflight, fun slot hslot => ?_, ?_,
    Numbered.append.2 ⟨?_, ?_⟩⟩
  · -- a task of the dispatcher that is not of the present epoch is of an earlier one
    have hid := hx slot (hflight ▸ List.mem_append_left _ hslot)
    refine ⟨hid, lt_of_le_of_ne ?_ fun he => (hl.old slot hslot).1 ⟨hid.trans h.id, h.id ▸ he⟩⟩
    exact hid ▸ (hs.engine.dated S.ring slot).1
  · rw [List.length_append]
    omega
  · refine hl.ready.imp_of_lt fun j hj slot _ hdone => h.asksFor_iff.2 ?_
    exact ⟨hdone.1.current, by omega, hdone.1.frame⟩
  · refine hl.due.imp_of_lt fun j hj slot _ hdue => h.asksFor_iff.2 ?_
    rw [hdue.1]
    exact ⟨⟨hS.dispatcher, rfl⟩, by omega, rfl⟩

end Scan

namespace Cursor

open Scan

variable {c c' : Cursor} {s s' : Scan ω} {l : Lease} {taken : List Nat} {row : Nat} {M : List Lease}
  {C L H : List Place} {F : List Lease} {r : Except Stop Bool}

/-! ## What is at hand -/

/-- The slot `l` of a cursor holds the frame before the next one to collect, with at least one row
and without an error.  The rows of it that are not to come any more are `taken`. -/
structure AtHand (c : Cursor) (s : Scan ω) (l : Lease) (taken : List Nat) : Prop where
  position : 0 < c.position
  asks : s.AsksFor (c.position - 1) (s.engine.task l.ring l.slot)
  frame : (s.engine.task l.ring l.slot).frame = c.view.frame
  error : (s.engine.task l.ring l.slot).error = none
  rows : (s.engine.task l.ring l.slot).rows = taken ++ c.rest
  ne_nil : taken ++ c.rest ≠ []

/-- The frame of a cursor's slot is at hand.  The cursor stands on the last row that it took of it,
and before its first move it has taken none. -/
def Grips (c : Cursor) (s : Scan ω) : Prop :=
  ∀ l, c.lease = some l → ∃ taken, c.AtHand s l taken ∧ (c.phase = .fresh → taken = []) ∧
    (c.phase = .iterating → taken.getLast? = some c.view.row)

lemma Grips.of_lease (h : c.lease = none) : c.Grips s := fun _ hl => nomatch h.symm.trans hl

/-- A cursor that moves to the next row of the frame at hand takes it. -/
lemma AtHand.deliver {rest : List Nat} (h : c.AtHand s l taken) (hr : c.rest = row :: rest) :
    c.deliver.AtHand s l (taken ++ [row]) ∧ c.deliver.view.row = row := by
  have hd : c.deliver = { c with view := c.view.atRow row, rest, phase := .iterating } := by
    simp only [Cursor.deliver, hr]
  rw [hd]
  refine ⟨⟨h.position, h.asks, h.frame, h.error, ?_, by simp⟩, rfl⟩
  rw [h.rows, hr, List.append_assoc, List.singleton_append]

lemma lease_deliver (c : Cursor) : c.deliver.lease = c.lease := by
  unfold Cursor.deliver
  split <;> rfl

lemma grips_deliver (h : ∀ l, c.lease = some l → ∃ taken, c.AtHand s l taken) (hr : c.rest ≠ []) :
    c.deliver.Grips s := by
  intro l hl
  obtain ⟨taken, ht⟩ := h l (c.lease_deliver ▸ hl)
  obtain ⟨row, rest, hr⟩ := List.exists_cons_of_ne_nil hr
  obtain ⟨hd, hrow⟩ := ht.deliver hr
  refine ⟨_, hd, fun hp => ?_, fun _ => ?_⟩
  · rw [phase_deliver] at hp
    cases hp
  · rw [List.getLast?_concat, hrow]

/-- A cursor without a slot gets one only with a frame that has rows, none of them taken yet. -/
lemma atHand_advance (hc : c.lease = none) (ha : c.advance s = (r, c', s')) :
    (r ≠ .ok true ∧ c'.lease = none) ∨
      (r = .ok true ∧ c'.phase = c.phase ∧ ∃ l, c'.lease = some l ∧ c'.AtHand s' l []) := by
  fun_induction Cursor.advance c s with
  | case1 c s _ stop =>
    cases ha
    cases stop <;> exact .inl ⟨by simp, hc⟩
  | case2 c s _ l s₁ _ _ _ ih => exact ih hc ha
  | case3 | case4 | case7 =>
    cases ha
    exact .inl ⟨by simp, hc⟩
  | case5 c s _ l s₁ _ _ _ _ _ _ ih => exact ih hc ha
  | case6 c s _ l s₁ _ task hcur hframe row rows hrows herror =>
    cases ha
    refine .inr ⟨rfl, rfl, l, rfl, Nat.succ_pos _, ⟨?_, ?_⟩, rfl, herror, hrows,
      List.cons_ne_nil _ _⟩
    · simpa using hcur
    · exact (not_not.1 hframe).symm

/-- A cursor that comes to a new frame before its first move has taken no row of it. -/
lemma grips_advance (hc : c.lease = none) (hp : c.phase = .fresh)
    (ha : c.advance s = (r, c', s')) : c'.Grips s' := by
  rcases atHand_advance hc ha with ⟨-, hl⟩ | ⟨-, hphase, l, hl, hat⟩
  · exact .of_lease hl
  · intro l' hl'
    obtain rfl := Option.some.inj (hl.symm.trans hl')
    refine ⟨[], hat, fun _ => rfl, fun hp' => ?_⟩
    cases (hphase.trans hp).symm.trans hp'

namespace Grips

lemma next (h : c.Grips s) : (c.next s).2.1.Grips (c.next s).2.2 := by
  by_cases hopen : c.IsOpen
  · by_cases hr : c.rest = []
    · rcases ha : c.emptied.advance (c.giveBack s) with ⟨stop | b, c', s'⟩
      · rw [next_of_stop hopen hr ha]
        rcases atHand_advance (c := c.emptied) rfl ha with ⟨-, hl⟩ | ⟨hstop, -⟩
        · exact .of_lease hl
        · cases hstop
      · cases b with
        | false =>
          rw [next_of_nothing hopen hr ha]
          rcases atHand_advance (c := c.emptied) rfl ha with ⟨-, hl⟩ | ⟨hfalse, -⟩
          · exact .of_lease hl
          · cases hfalse
        | true =>
          rw [next_of_found hopen hr ha]
          rcases atHand_advance (c := c.emptied) rfl ha with ⟨hn, -⟩ | ⟨-, -, l, hl, hat⟩
          · exact absurd rfl hn
          · refine grips_deliver (fun l' hl' => ⟨[], ?_⟩) hat.ne_nil
            exact Option.some.inj (hl.symm.trans hl') ▸ hat
    · have hn : c.next s = (.ok true, c.deliver, s) := by
        rcases hopen with hp | hp <;> simp [Cursor.next, hp, hr]
      rw [hn]
      exact grips_deliver (fun l hl => (h l hl).imp fun _ ht => ht.1) hr
  · rw [next_of_ended (ended_of_not_open hopen)]
    exact h

lemma rewind (h : c.Grips s) : (c.rewind s).2.1.Grips (c.rewind s).2.2 := by
  by_cases hphase : c.phase = .iterating ∨ c.phase = .exhausted
  · rw [Reads.rewind_eq hphase]
    exact grips_advance (c := { c.emptied with position := 0, phase := .fresh }) rfl rfl rfl
  · rw [rewind_of_still hphase]
    exact h

lemma close (h : c.Grips s) : (c.close s).2.1.Grips (c.close s).2.2 := by
  unfold Cursor.close
  split
  · exact h
  all_goals split <;> exact .of_lease rfl

/-- What others do to the engine leaves the frame at hand as it is. -/
lemma steps (h : c.Grips s) (hs : s.Sound c.leases C L F H) {mine : Place → Prop}
    {π : ω → σ} {e : Engine ω} (hmine : ∀ l ∈ c.leases, mine l.place)
    (hsteps : Engine.Steps s.dispatcher.id mine π s.engine e) :
    c.Grips { s with engine := e } := by
  intro l hl
  obtain ⟨taken, ht, hphase⟩ := h l hl
  have hmem : l ∈ c.leases := by simp [leases, hl]
  obtain ⟨q, hq, hstage, -⟩ := hs.engine.books.leased (i := l.ring) (k := l.slot)
    (List.mem_append_left _ (List.mem_map_of_mem hmem))
  have hleased : s.engine.stage? l.ring l.slot = some .leased := (Engine.stage?_eq hq).trans hstage
  have htask : e.task l.ring l.slot = s.engine.task l.ring l.slot :=
    ((hsteps.kept (p := (l.ring, l.slot)) (hmine l hmem) (.inr hleased)).same (by simp [hleased])).1
  refine ⟨taken, ⟨ht.position, ⟨?_, ?_⟩, ?_, ?_, ?_, ht.ne_nil⟩, hphase⟩ <;> dsimp only <;>
    rw [htask]
  · have hcur := ht.asks.1
    simp only [isCurrent, hsteps.epoch_eq] at hcur ⊢
    exact hcur
  · exact ht.asks.2
  · exact ht.frame
  · exact ht.error
  · exact ht.rows

end Grips

lemma grips_openOn (ho : openOn s = (.ok c, s')) : c.Grips s' := by
  unfold openOn at ho
  split at ho
  · rename_i ha
    cases ho
    exact grips_advance (c := start s.dispatcher) rfl rfl ha
  · split at ho <;> cases ho

/-! ## Alignment -/

/-- A cursor and its scan agree on what is published, in flight, collected and at hand. -/
structure Aligned (c : Cursor) (s : Scan ω) : Prop where
  count : c.frameCount = s.dispatcher.frameCount
  position_le : c.position ≤ s.dispatcher.position
  bound : s.dispatcher.position ≤ s.dispatcher.frameCount
  /-- In flight are slots of earlier passes, and then the frames that were published in this one and
  not yet collected. -/
  flight : ∃ old new, s.inbox.inFlight = old ++ new ∧
    (∀ slot ∈ old, s.LeftBehind (s.engine.task s.inbox.home slot)) ∧
    new.length = s.dispatcher.position - c.position ∧
    Numbered (fun j slot => s.AsksFor j (s.engine.task s.inbox.home slot)) c.position new
  grips : c.Grips s
  /-- A cursor without a slot has collected all frames. -/
  past : c.lease = none → c.position = c.frameCount

/-- What is in flight to a cursor that is aligned with its scan is of its own dispatcher. -/
lemma Aligned.exclusive (h : c.Aligned s) : s.Exclusive := by
  obtain ⟨old, new, hflight, hold, -, hnew⟩ := h.flight
  intro slot hslot
  rw [hflight] at hslot
  rcases List.mem_append.1 hslot with hslot | hslot
  · exact (hold slot hslot).1
  · obtain ⟨j, hasks⟩ := hnew.mem hslot
    exact hasks.dispatcher

/-- A cursor that reads a course is aligned with its scan while it is open. -/
lemma Reads.aligned {S : Course ω σ} (hS : S.Lawful) (h : c.Reads S s) (hc : c.IsOpen)
    (hs : s.Sound M C L F H) (hx : s.Exclusive) (hg : c.Grips s) : c.Aligned s := by
  cases h.stands with
  | holding _ lease _ _ underway =>
    obtain ⟨hle, hbound, hflight⟩ := underway.inFlight_eq hS hs hx
    exact ⟨h.count.trans underway.count.symm, hle, hbound, hflight, hg,
      fun hl => nomatch lease.symm.trans hl⟩
  | past _ _ _ position underway =>
    obtain ⟨hle, hbound, hflight⟩ := underway.inFlight_eq hS hs hx
    exact ⟨h.count.trans underway.count.symm, hle, hbound, hflight, hg,
      fun _ => position.trans h.count.symm⟩
  | exhausted phase | closed phase => rcases hc with hc | hc <;> rw [hc] at phase <;> cases phase

end Cursor

namespace Workshop

open Cursor

variable {W : Workshop ω} {H : List Place} {n : String} {c : OpenCursor} {s : Scan ω}

/-- A cursor that was just opened on a plan is on a scan that had nothing in flight before. -/
lemma Sound.opened_on_plan {F : List Lease} {a : Deed ω} (h : W.Sound F H) (hp : W.Permits a)
    (hnew : a.opens? = some n) (hc : (W.after a).cursors.find? n = some c)
    (hs : (W.after a).scan? c.site = some s) {plan : String} (hplan : c.site.inbox = .plan plan) :
    ∃ t M M' C L, t.inbox.inFlight = [] ∧ t.Sound M C L F H ∧
      Scan.Moves (fun _ : ω => ()) (t, M) (s, M') := by
  obtain ⟨-, -, -, -, ⟨rfl, -⟩ | ⟨plan', p, hub, rfl, hsite, hpl, -⟩⟩ := opened_cases hp hnew hc
  · -- a cursor opened by hand has an inbox of its own
    obtain ⟨⟨-, K, hK, -⟩, -⟩ := hp
    exact absurd (hK.symm.trans hplan) Owner.noConfusion
  · obtain ⟨hs₀, -, hidle⟩ := h.vacant hp.1 hpl
    rcases h.shift_unit hp rfl with hW | ⟨t, t', M, M', hshift⟩
    · rw [hW] at hc
      exact absurd (hp.2.1.symm.trans hc) (Option.some_ne_none c).symm
    · obtain ⟨N, -, hsound⟩ := hshift.sound h
      obtain rfl := Option.some.inj (hs₀.symm.trans hshift.scan)
      rw [hsite] at hs
      obtain rfl := Option.some.inj (hs.symm.trans hshift.scan?)
      exact ⟨p.scan W.engine, M, M', _, _, hidle, hsound, hshift.moves⟩

/-- In every workshop that can be reached, only tasks of its own dispatcher are in flight to a
cursor on a plan. -/
lemma Reached.exclusive (hW : W.Reached H) (hc : W.cursors.find? n = some c)
    (hs : W.scan? c.site = some s) {plan : String} (hplan : c.site.inbox = .plan plan) :
    s.Exclusive := by
  refine hW.cursors (P := fun c s => ∀ plan, c.site.inbox = .plan plan → s.Exclusive)
    (fun h hp hnew hc hs plan hplan => ?_)
    (fun {_ _ _ _ n b _ _} h hb hs ht hx plan hplan => ?_)
    (fun h hb hs hsteps hx plan hplan => ?_) hc hs plan hplan
  · obtain ⟨t, M, M', C, L, hidle, hsound, m⟩ := h.opened_on_plan hp hnew hc hs hplan
    refine Scan.Moves.exclusive m hsound fun slot hslot => ?_
    rw [hidle] at hslot
    cases hslot
  · obtain ⟨s₀, hs₀, hfit⟩ := h.fit n b hb
    obtain rfl := Option.some.inj (hs.symm.trans hs₀)
    have m := ht.moves (π := fun _ => ()) (c := b.cursor) hfit.home (fun _ _ => leaves_unit ..) []
    rw [List.append_nil] at m
    exact Scan.Moves.exclusive m (h.scan hs (h.leased_perm hb)) (hx plan hplan)
  · exact (hx plan hplan).steps (h.scan hs (h.leased_perm hb))
      (fun _ hl => .inr (List.mem_map_of_mem hl)) hsteps

/-- In every workshop that can be reached, the frame of a cursor's slot is at hand. -/
lemma Reached.grips (hW : W.Reached H) (hc : W.cursors.find? n = some c)
    (hs : W.scan? c.site = some s) : c.cursor.Grips s := by
  refine hW.cursors (P := fun c s => c.cursor.Grips s) (fun _ hp hnew hc hs => ?_)
    (fun _ _ _ ht hg => ?_) (fun h hb hs hsteps hg => ?_) hc hs
  · obtain ⟨t, t', ho, ht, -⟩ := opened_cases hp hnew hc
    obtain rfl := Option.some.inj (hs.symm.trans ht)
    exact grips_openOn ho
  · cases ht with
    | next => exact hg.next
    | rewind => exact hg.rewind
    | close => exact hg.close
  · exact hg.steps (h.scan hs (h.leased_perm hb)) (fun _ hl => .inl (List.mem_map_of_mem hl)) hsteps

/-- A cursor that answers that there is a next row stands on a row of the frame at hand, with all
rows after it still to come. -/
lemma Reached.stands_on_row (hW : W.Reached H) (hc : W.cursors.find? n = some c)
    (hs : W.scan? c.site = some s) {plan : String} (hplan : c.site.inbox = .plan plan)
    (hphase : c.cursor.phase = .iterating) : ∃ l before, c.cursor.lease = some l ∧
      (s.engine.task l.ring l.slot).rows = before ++ c.cursor.view.row :: c.cursor.rest := by
  obtain ⟨S, d, k, -, -, hr⟩ := hW.attended n c plan hc hplan
  cases hr.reads.stands with
  | @holding l _ lease =>
    obtain ⟨taken, ht, -, hlast⟩ := hW.grips hc hs l lease
    obtain ⟨before, rfl⟩ := List.getLast?_eq_some_iff.1 (hlast hphase)
    refine ⟨l, before, lease, ht.rows.trans ?_⟩
    rw [List.append_assoc, List.singleton_append]
  | past phase | exhausted phase | closed phase => cases hphase.symm.trans phase

/-- The opening of a cursor on a plan is faulted only if its execution is. -/
lemma Sound.openCursor_faulted_iff {F : List Lease} (h : W.Sound F H) {plan : String} {hub : Nat}
    {p : Plan ω} (hp : W.Permits (.openCursor plan n hub)) (hpl : W.plans.find? plan = some p)
    (fault : Fault) :
    ((Session.openCursor plan n hub).on W).1 = .error (.faulted fault) ↔
      ((p.scan W.engine).dispatch p.source hub p.filter).1 = .error (.faulted fault) := by
  obtain ⟨-, -, hidle⟩ := h.vacant hp.1 hpl
  have hout := Session.fst_openCursor hpl hp.2.1 hub
  constructor
  · intro hfault
    rcases hw : p.source.supply W.engine.world with ⟨stop | frames, w⟩
    · rw [hout, Plan.openCursor_stop hidle hw] at hfault
      rw [Plan.dispatch_stop hidle hw]
      exact congrArg Except.error (Except.error.inj hfault)
    · by_cases hfit : p.source.Fits frames
      · -- over frames that fit, the opening comes to an end
        rcases h.opens hp hpl hw hfit with ⟨-, -, shard, waited, hsat⟩ | ⟨-, hends, -⟩
        · cases hsat.symm.trans hfault
        · rcases hends with ⟨_, he⟩ | ⟨_, he⟩ <;> cases he.symm.trans hfault
      · rw [hout, Plan.openCursor_misfit hidle hw hfit] at hfault
        rw [Plan.dispatch_eq hidle hw, Scan.launch_misfit hfit]
        exact congrArg Except.error (Except.error.inj hfault)
  · intro hfault
    rcases hd : (p.scan W.engine).dispatch p.source hub p.filter with ⟨stop | u, t⟩ <;>
      rw [hd] at hfault
    · obtain rfl := Except.error.inj hfault
      rw [hout, Plan.openCursor_eq, hd]
      rfl
    · cases hfault

/-- In every workshop that can be reached an open cursor on a plan is aligned with its scan.  A
cursor on a plan therefore moves on and starts over without a fault, and stands on a row of the
frame at hand when it says that it has one.  A cursor is opened with an inbox that has nothing in
flight, and without any fault but those of the execution. -/
theorem cursors_aligned (hW : W.Reached H) :
    (∀ n c s plan, W.cursors.find? n = some c → W.scan? c.site = some s →
      c.site.inbox = .plan plan →
        (c.cursor.IsOpen → c.cursor.Aligned s) ∧
        Ends ((Session.next n).on W).1 ∧ Ends ((Session.rewindCursor n).on W).1 ∧
        (((Session.next n).on W).1 = .ok true → ∃ c' s' l before,
          (W.after (.next n)).cursors.find? n = some c' ∧
          (W.after (.next n)).scan? c'.site = some s' ∧ c'.cursor.lease = some l ∧
          (s'.engine.task l.ring l.slot).rows =
            before ++ c'.cursor.view.row :: c'.cursor.rest)) ∧
    ∀ plan n hub p, W.Permits (.openCursor plan n hub) → W.plans.find? plan = some p →
      p.inbox.inFlight = [] ∧
      (∀ frames w, p.source.supply W.engine.world = (.ok frames, w) →
        (p.scan W.engine).dispatch p.source hub p.filter =
          (p.scan (W.engine.withWorld w)).launch p.source hub p.filter frames ∧
        ((p.scan (W.engine.withWorld w)).nextEpoch.drawShard hub).2.inbox = p.inbox) ∧
      ∀ fault, ((Session.openCursor plan n hub).on W).1 = .error (.faulted fault) ↔
        ((p.scan W.engine).dispatch p.source hub p.filter).1 = .error (.faulted fault) := by
  obtain ⟨F, h⟩ := hW.sound
  refine ⟨fun n c s plan hc hs hplan => ?_, fun plan n hub p hp hpl => ?_⟩
  · obtain ⟨S, d, k, hS, hcalm, hr⟩ := hW.attended n c plan hc hplan
    obtain rfl := Option.some.inj (hs.symm.trans hr.scan)
    refine ⟨fun hopen => ?_, (hr.next_ends hS hcalm h).1, (hr.rewind_ends hS hcalm h).1,
      fun htrue => ?_⟩
    · exact hr.reads.aligned hS hopen (hr.sound h) (hW.exclusive hc hs hplan) (hW.grips hc hs)
    · -- the workshop after the call can be reached as well
      have hV := hW.deed (a := .next n) trivial
      have hphase : (c.cursor.next ⟨d, k, W.engine⟩).2.1.phase = .iterating := by
        rw [Session.next, Session.on_onCursor hc hs] at htrue
        exact phase_of_next (Prod.ext htrue rfl)
      have hc' := Turn.next.find?_after hc hs
      have hs' := (Turn.next.moved hc hs).scan?
      obtain ⟨l, before, hl, hrows⟩ := hV.stands_on_row hc' hs' hplan hphase
      exact ⟨_, _, l, before, hc', hs', hl, hrows⟩
  · obtain ⟨-, -, hidle⟩ := h.vacant hp.1 hpl
    exact ⟨hidle, fun frames w hw => ⟨Plan.dispatch_eq hidle hw, Scan.inbox_drawShard hub⟩,
      h.openCursor_faulted_iff hp hpl⟩

/-- The stocked workshop with a cursor on the first row of its plan. -/
def begun : Workshop Unit := (stocked.after (.openCursor "p" "c" 0)).after (.next "c")

lemma reached_begun : begun.Reached [] :=
  (reached_stocked.deed permits_stocked).deed (a := .next "c") trivial

/-- One frame is at hand and one in flight, and the third is still to be published.  The next row
is that of the third frame. -/
theorem cursors_aligned_begun :
    (∃ c s, begun.cursors.find? "c" = some c ∧ begun.scan? c.site = some s ∧
      (c.cursor.phase = .iterating ∧ c.cursor.position = 1) ∧
      (s.inbox.inFlight = [1] ∧ s.dispatcher.position = 2 ∧ s.dispatcher.frameCount = 3) ∧
      c.cursor.Aligned s) ∧
    Ends ((Session.next "c").on begun).1 ∧ Ends ((Session.rewindCursor "c").on begun).1 ∧
    (((Session.next "c").on begun).1 = .ok true ∧ ∃ c s l before,
      (begun.after (.next "c")).cursors.find? "c" = some c ∧
      (begun.after (.next "c")).scan? c.site = some s ∧ c.cursor.lease = some l ∧
      (s.engine.task l.ring l.slot).rows = before ++ c.cursor.view.row :: c.cursor.rest) ∧
    stock.inbox.inFlight = [] ∧
    (stock.scan stocked.engine).dispatch stock.source 0 stock.filter =
      (stock.scan stocked.engine).launch stock.source 0 stock.filter (plainFrames [1, 0, 2]) := by
  have hcursor : (begun.cursors.find? "c").map (fun c => (c.cursor.phase, c.cursor.position)) =
      some (.iterating, 1) := by decide +kernel
  have hscan : (begun.scan? (.ofPlan "p")).map (fun s =>
      (s.inbox.inFlight, s.dispatcher.position, s.dispatcher.frameCount)) = some ([1], 2, 3) := by
    decide +kernel
  obtain ⟨c, hc, hcur⟩ := Option.map_eq_some_iff.1 hcursor
  obtain ⟨s, hs, hsc⟩ := Option.map_eq_some_iff.1 hscan
  simp only [Prod.mk.injEq] at hcur hsc
  have hsite : c.site = .ofPlan "p" := site_eq_of_find? (by decide +kernel) hc
  have htrue : ((Session.next "c").on begun).1 = .ok true := by decide +kernel
  obtain ⟨haligned, hnext, hrewind, hrow⟩ := (cursors_aligned reached_begun).1 "c" c s "p" hc
    (hsite ▸ hs) (congrArg Site.inbox hsite)
  obtain ⟨hidle, hlaunch, -⟩ := (cursors_aligned reached_stocked).2 "p" "c" 0 stock
    permits_stocked find?_stocked
  exact ⟨⟨c, s, hc, hsite ▸ hs, hcur, hsc, haligned (.inr hcur.1)⟩, hnext, hrewind,
    ⟨htrue, hrow htrue⟩, hidle, (hlaunch (plainFrames [1, 0, 2]) () rfl).1⟩

/-- A dispatcher of another ring may take away the slot of a frame: once somebody else publishes
into it, the cursor is not aligned any more, and the next frame that comes to it is out of
order. -/
theorem misaligned_crossing :
    (∃ H, furnished.Reached H) ∧ ∃ as V,
      Run (fun V a => V.Tolerates a ∧ a ≠ .dropCursor "c") (attended "g") as V ∧
        (∃ c s, V.cursors.find? "c" = some c ∧ V.scan? c.site = some s ∧
          c.site = .ofPlan "g" ∧ c.cursor.IsOpen ∧ ¬ c.cursor.Aligned s) ∧
        ((Session.next "c").on V).1 = .error (.faulted .outOfOrder) := by
  let as := crossing ++ [.dispatch ⟨.own "q", .own "l"⟩ (plainSource [1, 1]) 0 keepAll, .next "c"]
  refine ⟨reached_furnished, as, as.foldl after (attended "g"),
    tolerates_crossing (.inr rfl) (.cons ⟨?_, nofun⟩ (.cons ⟨trivial, nofun⟩ .nil)), ?_, ?_⟩
  · exact ⟨available_of_sites (s := .ofPlan "g") (by decide +kernel) nofun nofun,
      by decide +kernel⟩
  · have hcursor : ((as.foldl after (attended "g")).cursors.find? "c").map
        (·.cursor.phase) = some .iterating := by decide +kernel
    -- the slot in flight carries a task of another dispatcher
    have hscan : ((as.foldl after (attended "g")).scan? (.ofPlan "g")).map (fun s =>
        (s.dispatcher.id, s.inbox.inFlight.map fun slot =>
          (s.engine.task s.inbox.home slot).dispatcher)) = some (2, [4]) := by decide +kernel
    obtain ⟨c, hc, hphase⟩ := Option.map_eq_some_iff.1 hcursor
    obtain ⟨s, hs, hsc⟩ := Option.map_eq_some_iff.1 hscan
    have hsite : c.site = .ofPlan "g" := site_eq_of_find? (by decide +kernel) hc
    simp only [Prod.mk.injEq] at hsc
    refine ⟨c, s, hc, hsite ▸ hs, hsite, .inr hphase, fun h => ?_⟩
    obtain ⟨slot, hslot, hfour⟩ := List.mem_map.1 (hsc.2 ▸ List.mem_singleton_self 4)
    have htwo := h.exclusive slot hslot
    rw [hfour, hsc.1] at htwo
    cases htwo
  · decide +kernel

end Workshop

end TableScan
