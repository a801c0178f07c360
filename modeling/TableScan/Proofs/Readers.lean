import TableScan.Proofs.Starting
import TableScan.Proofs.Tenants

/-!
# Readers

A reader is the tenant of a site whose cursor reads the course of its scan.  Main statement: it
stays one whatever others do (`Reader.after`), and whatever its cursor does on its own course.
-/

namespace TableScan

variable {ω σ : Type}

/-- What others do to the engine leaves a cursor on its course. -/
lemma Cursor.Reads.steps {S : Course ω σ} {c : Cursor} {s : Scan ω} {mine : Place → Prop}
    {e : Engine ω} (hS : S.Lawful) (h : c.Reads S s) (hl : ∀ l ∈ c.leases, mine l.place)
    (hf : ∀ l ∈ s.inbox.flights, mine l.place)
    (hsteps : Engine.Steps s.dispatcher.id mine S.shown s.engine e) :
    c.Reads S { s with engine := e } := by
  -- a scan under way stays under way
  have under : ∀ {b M}, s.Underway S b M → (∀ slot ∈ M, mine (S.ring, slot)) →
      ({ s with engine := e } : Scan ω).Underway S b M := by
    intro b M hu hM
    refine hu.steps hS hM (fun slot hs => ?_) (hu.id ▸ hsteps)
    have hm := hf ⟨s.inbox.home, slot, s.inbox.id⟩ (List.mem_map.2 ⟨slot, hs, rfl⟩)
    rwa [Inbox.home, hu.home] at hm
  refine ⟨h.count, h.view, ?_⟩
  cases h.stands with
  | @holding l phase lease ring frame underway =>
    refine .holding phase lease ring frame (under underway fun slot hs => ?_)
    have hm := hl l (by simp [Cursor.leases, lease])
    rw [List.mem_singleton.1 hs, ← ring]
    exact hm
  | past phase lease rest position underway =>
    exact .past phase lease rest position (under underway fun _ hs => absurd hs List.not_mem_nil)
  | exhausted phase lease rest underway =>
    exact .exhausted phase lease rest (under underway fun _ hs => absurd hs List.not_mem_nil)
  | closed phase => exact .closed phase

namespace Cursor.Reads

open Scan

variable {S : Course ω σ} {c : Cursor} {s : Scan ω} {N : List Lease} {C L H : List Place}
  {F : List Lease}

lemma runs (h : c.Reads S s) (hc : c.phase ≠ .closed) : s.Runs S := by
  cases h.stands with
  | holding _ _ _ _ underway => exact underway.toRuns
  | past _ _ _ _ underway => exact underway.toRuns
  | exhausted _ _ _ underway => exact underway.toRuns
  | closed phase => exact absurd phase hc

/-- A cursor that starts over, or does not move, reads its course. -/
lemma rewind_reads (hS : S.Lawful) (hrewind : ∀ w, S.shown (S.work.filter.rewind w) = S.state 0)
    (h : c.Reads S s) (hs : s.Sound (c.leases ++ N) C L F H) :
    (c.rewind s).2.1.Reads S (c.rewind s).2.2 := by
  by_cases hphase : c.phase = .iterating ∨ c.phase = .exhausted
  · have hS' : (S.again S.state S.found).Lawful := hS
    rcases h.rewind hS' hrewind hs hphase with
      ⟨-, -, -, shard, waited, c', s', hr, -, hreads⟩ | ⟨-, x, -, c', s', hr, -, hreads⟩ <;> rw [hr]
    · exact hreads
    · exact hreads
  · rw [rewind_of_still hphase]
    exact h

/-- A cursor that reads its course can be closed. -/
lemma close (h : c.Reads S s) (hs : s.Sound (c.leases ++ N) C L F H) :
    (c.close s).1 = .ok () ∧ (c.close s).2.1.Reads S (c.close s).2.2 := by
  by_cases hc : c.phase = .closed
  · have hclose : c.close s = (.ok (), c, s) := by simp only [Cursor.close, hc]
    rw [hclose]
    exact ⟨rfl, h⟩
  · obtain ⟨s', hclose, -⟩ := close_ok hs (h.runs hc).moored hc
    rw [hclose]
    exact ⟨rfl, h.count, h.view, .closed rfl⟩

end Cursor.Reads

namespace Workshop

variable {W : Workshop ω} {F : List Lease} {H : List Place} {n : String} {S : Course ω σ}
  {c : OpenCursor} {d : Dispatcher ω} {k : Inbox} {a : Deed ω}

/-- The reducer of a plan is the library's own. -/
lemma Sound.reducer_eq (h : W.Sound F H) {plan : String} {p : Plan ω}
    (hpl : W.plans.find? plan = some p) : p.dispatcher.reducer = .filtering p.source.order :=
  h.reducers plan p.dispatcher p.source.order (by simp [dispatcher?, hpl]) (by simp [order?, hpl])

/-- The tenant of a site whose cursor reads a course. -/
structure Reader (W : Workshop ω) (n : String) (S : Course ω σ) (c : OpenCursor)
    (d : Dispatcher ω) (k : Inbox) : Prop extends W.Tenant n c d k S.shown where
  reads : c.cursor.Reads S ⟨d, k, W.engine⟩

namespace Reader

lemma sound (h : W.Sound F H) (hr : W.Reader n S c d k) :
    Scan.Sound ⟨d, k, W.engine⟩ (c.cursor.leases ++ []) W.claimed (leasedBut W n) F H := by
  rw [List.append_nil]
  exact h.scan hr.scan (h.leased_perm hr.cursor)

/-- A deed of others leaves a reader alone. -/
lemma after (hS : S.Lawful) (h : W.Sound F H) (hr : W.Reader n S c d k) (hp : W.Permits a)
    (hsp : W.Spares S.shown a) (hme : a.cursor? ≠ some n) : (W.after a).Reader n S c d k :=
  ⟨hr.toTenant.after h hp hsp hme, hr.reads.steps hS
    (fun _ hl => .inl (List.mem_map_of_mem hl)) (fun _ hl => .inr (List.mem_map_of_mem hl))
    (hr.toTenant.steps h hp hsp hme)⟩

/-- What the cursor of a reader does on its course. -/
lemma turn (h : W.Sound F H) (hr : W.Reader n S c d k) {f : Cursor → Scan ω → Cursor × Scan ω}
    {T : Course ω σ} (hT : T.shown = S.shown) (ht : Turn a n f)
    (hreads : (f c.cursor ⟨d, k, W.engine⟩).1.Reads T (f c.cursor ⟨d, k, W.engine⟩).2) :
    (W.after a).Reader n T { c with cursor := (f c.cursor ⟨d, k, W.engine⟩).1 }
      (f c.cursor ⟨d, k, W.engine⟩).2.dispatcher (f c.cursor ⟨d, k, W.engine⟩).2.inbox := by
  obtain ⟨s, hs, hfit⟩ := h.fit n c hr.cursor
  obtain rfl := Option.some.inj (hs.symm.trans hr.scan)
  have hsame := Scan.Moves.sameSite
    (ht.moves (π := fun _ => ()) (c := c.cursor) hfit.home (fun _ _ => leaves_unit ..) [])
  rw [ht.after hr.cursor hr.scan]
  have hD := dispatcher?_putScan hr.scan (f c.cursor ⟨d, k, W.engine⟩).2
  have hK := inbox?_putScan hr.scan (f c.cursor ⟨d, k, W.engine⟩).2
  refine ⟨⟨Register.find?_bind_self, ?_, ?_, fun o d' w hd hid hw => ?_⟩, hreads⟩
  · exact (congrFun hD _).trans (Function.update_self ..)
  · exact (congrFun hK _).trans (Function.update_self ..)
  · have hd' := (congrFun hD o).symm.trans hd
    rw [Function.update_apply] at hd'
    split at hd'
    · exact absurd (Option.some.inj hd' ▸ rfl) hid
    · exact hT ▸ hr.others o d' w hd' (hsame.dispatcher ▸ hid) hw

/-- A reader reads its course until its cursor is let go of. -/
lemma persists (hS : S.Lawful) (hrewind : ∀ w, S.shown (S.work.filter.rewind w) = S.state 0)
    (h : W.Sound F H) (hr : W.Reader n S c d k) (hp : W.Permits a)
    (hsp : W.Spares S.shown a) (hdrop : a ≠ .dropCursor n) :
    ∃ c' d' k', (W.after a).Reader n S c' d' k' ∧ c'.site = c.site := by
  by_cases hme : a.cursor? = some n
  · have hs := hr.sound h
    rcases Deed.cursor?_cases hme with rfl | rfl | rfl | rfl
    · exact ⟨_, _, _, hr.turn h rfl .next (hr.reads.next hS hs), rfl⟩
    · exact ⟨_, _, _, hr.turn h rfl .rewind (hr.reads.rewind_reads hS hrewind hs), rfl⟩
    · exact ⟨_, _, _, hr.turn h rfl .close (hr.reads.close hs).2, rfl⟩
    · exact absurd rfl hdrop
  · exact ⟨c, d, k, hr.after hS h hp hsp hme, rfl⟩

/-! ## Opening -/

/-- What the opening of a cursor on a plan comes to, as far as the plan's source supplies frames
that fit its schema. -/
lemma opened (h : W.Sound F H) {plan : String} {p : Plan ω} {hub : Nat} {frames : List Frame}
    {w : ω} {shown : ω → σ} {state : Nat → σ} {found : Nat → List Nat → Option Failure → Prop}
    (hp : W.Permits (.openCursor plan n hub)) (hpl : W.plans.find? plan = some p)
    (hw : p.source.supply W.engine.world = (.ok frames, w)) (hfit : p.source.Fits frames)
    (hS : (p.course hub W.engine frames shown state found).Lawful)
    (hothers : ∀ o d w, W.dispatcher? o = some d → d.id ≠ p.dispatcher.id → d.work = some w →
      w.reducer.Leaves w.filter shown)
    (htame : ∀ i slot v, (W.engine.task i slot).work = some v → v.dispatcher ≠ p.dispatcher.id →
      v.reducer.Leaves v.filter shown)
    (hworld : shown w = state 0) :
    (frames ≠ [] ∧ W.engine.Saturated (p.nextRing hub W.engine) ∧
      Saturates ((Session.openCursor plan n hub).on W).1) ∨
    (¬ (frames ≠ [] ∧ W.engine.Saturated (p.nextRing hub W.engine)) ∧
      ∃ x, (p.course hub W.engine frames shown state found).Finds 0 x ∧
        ((Session.openCursor plan n hub).on W).1 = x.outcome ∧
        (x.outcome = .ok () → ∃ c d k,
          (W.after (.openCursor plan n hub)).Reader n
            (p.course hub W.engine frames shown state found) ⟨.ofPlan plan, c⟩ d k ∧
          c.Poised (p.course hub W.engine frames shown state found) x)) := by
  obtain ⟨hfree, hc, hhub⟩ := hp
  obtain ⟨hs, hsite, hidle⟩ := h.vacant hfree hpl
  rw [Session.fst_openCursor hpl hc]
  rcases Plan.openCursor_reads hS hidle hw hfit (h.hasHub hs hhub) (h.scan hs (M := []) (.refl _))
    htame hworld with ⟨hne, hsat, shard, waited, ho⟩ | ⟨hsat, x, hx, ho⟩
  · refine .inl ⟨hne, hsat, shard, waited, ?_⟩
    rw [ho]
    rfl
  · refine .inr ⟨hsat, x, hx, ?_⟩
    rcases ho with ⟨c, s', hx, ho, hpoised, hreads⟩ | ⟨stop, hx, ho⟩
    -- the cursor stands at the site of the plan, whose dispatcher and inbox are its own
    · have hphase : c.phase ≠ .closed := by
        rw [hpoised.fresh hx]
        exact Phase.noConfusion
      have hid : s'.dispatcher.id = p.dispatcher.id := (hreads.runs hphase).id
      have hD : (W.putPlan plan (p.ofScan s')).dispatcher? = _ := dispatcher?_putPlan
      have hK : (W.putPlan plan (p.ofScan s')).inbox? = _ := inbox?_putPlan
      rw [ho, hx]
      refine ⟨rfl, fun _ => ⟨c, s'.dispatcher, s'.inbox, ?_, hpoised⟩⟩
      rw [after_openCursor hpl hc, ho]
      refine ⟨⟨Register.find?_bind_self, ?_, ?_, fun o d w hd hne hw => ?_⟩, hreads⟩
      · exact (congrFun hD _).trans (Function.update_self ..)
      · exact (congrFun hK _).trans (Function.update_self ..)
      · have hd' := (congrFun hD o).symm.trans hd
        rw [Function.update_apply] at hd'
        split at hd'
        · exact absurd (Option.some.inj hd' ▸ rfl) hne
        · exact hothers o d w hd' (hid ▸ hne) hw
    · rw [ho, hx]
      exact ⟨rfl, fun hok => nomatch hok⟩

end Reader

end Workshop

end TableScan
