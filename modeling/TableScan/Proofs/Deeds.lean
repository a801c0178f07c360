import TableScan.Proofs.Floor
import TableScan.Proofs.Sessions

/-!
# Deeds

Everything that can be done in a workshop, one deed at a time, and the workshops that can be
reached.  A cursor has the dispatcher and the inbox of its site to itself until it is let go of,
and a name is given to a new claim, lease or cursor once it is free.  Dispatchers and inboxes
without a plan may be combined at will, but a dispatcher publishes only for an inbox that listens
to its ring.
-/

namespace TableScan

variable {ω σ : Type}

/-- Something done in a workshop. -/
inductive Deed (ω : Type)
  | addRing (name : String) (shard capacity : Nat)
  | claim (ring : Nat) (name : String)
  | edit (name : String) (rows : List Nat → List Nat) (error : Option Failure → Option Failure)
  | dropClaim (name : String)
  | publishClaim (name : String)
  | reduce (ring : Nat)
  | addInbox (name : String)
  | nextLease (inbox name : String)
  | removeError (name : String)
  | done (name : String)
  | dropLease (name : String)
  | addDispatcher (name : String) (reducer : Reducer ω)
  | dispatch (site : Site) (source : Source ω) (hub : Nat) (filter : Filter ω)
  | steal (site : Site)
  | drain (site : Site)
  | rewind (site : Site)
  | gather (site : Site) (n : Nat)
  | clear (owner : Owner)
  | drawShard (hub : Nat)
  | addPlan (name : String) (source : Source ω) (filter : Filter ω)
  | execute (plan inbox : String) (hub : Nat)
  | closePlan (name : String)
  | openCursor (plan name : String) (hub : Nat)
  | openOn (site : Site) (name : String)
  | next (name : String)
  | rewindCursor (name : String)
  | close (name : String)
  | dropCursor (name : String)
  | keepView (name : String) (v : RowView)
  | moveView (name : String) (i : RowId)
  /-- The collaborators do something of their own. -/
  | touch (f : ω → ω)

namespace Deed

/-- The task with its results changed by hand. -/
def edited (rows : List Nat → List Nat) (error : Option Failure → Option Failure)
    (t : Task ω) : Task ω :=
  { t with rows := rows t.rows, error := error t.error }

/-- The operation of a deed. -/
def act : Deed ω → Session ω Unit
  | addRing name shard capacity => Session.addRing name shard capacity
  | claim ring name => do let _ ← Session.claim ring name
  | edit name rows error => do let _ ← Session.editClaim name (edited rows error)
  | dropClaim name => Session.dropClaim name
  | publishClaim name => do let _ ← Session.publishClaim name
  | reduce ring => do let _ ← Session.reduce ring
  | addInbox name => Session.addInbox name
  | nextLease inbox name => do let _ ← Session.nextLease (.own inbox) name
  | removeError name => do let _ ← Session.removeError name
  | done name => Session.done name
  | dropLease name => Session.dropLease name
  | addDispatcher name reducer => Session.addDispatcher name reducer
  | dispatch site source hub filter => Session.dispatch site source hub filter
  | steal site => Session.steal site
  | drain site => Session.drain site
  | rewind site => Session.rewind site
  | gather site n => do let _ ← Session.gather site n
  | clear owner => Session.clear owner
  | drawShard hub => do let _ ← Session.drawShard hub
  | addPlan name source filter => Session.addPlan name source filter
  | execute plan inbox hub => Session.execute plan (.own inbox) hub
  | closePlan name => Session.closePlan name
  | openCursor plan name hub => Session.openCursor plan name hub
  | openOn site name => Session.openOn site name
  | next name => do let _ ← Session.next name
  | rewindCursor name => Session.rewindCursor name
  | close name => Session.close name
  | dropCursor name => Session.dropCursor name
  | keepView name v => Session.keepView name v
  | moveView name i => do let _ ← Session.moveView name i
  | touch f => Session.modifyEngine fun e => e.withWorld (f e.world)

end Deed

namespace Workshop

variable {W : Workshop ω} {site : Site} {name : String}

/-- The workshop after a deed. -/
def after (W : Workshop ω) (a : Deed ω) : Workshop ω := (a.act.on W).2

/-- No cursor has the dispatcher of this owner. -/
def Free (W : Workshop ω) (o : Owner) : Prop :=
  ∀ name c, W.cursors.find? name = some c → c.site.dispatcher ≠ o

/-- No cursor has the inbox of this name. -/
def FreeInbox (W : Workshop ω) (inbox : String) : Prop :=
  ∀ name c, W.cursors.find? name = some c → c.site.inbox ≠ .own inbox

/-- A site of an inbox of its own that no cursor has. -/
def Available (W : Workshop ω) (site : Site) : Prop :=
  W.Free site.dispatcher ∧ ∃ inbox, site.inbox = .own inbox ∧ W.FreeInbox inbox

/-- The dispatcher of a site publishes into the ring that the inbox listens to, be it because
there is no other ring.  Among several rings an inbox that listens to none may be handed to a
dispatcher of the first ring and to no other (`Inbox.home`). -/
def AtHome (W : Workshop ω) (site : Site) : Prop :=
  W.engine.rings.size ≤ 1 ∨ ∀ s, W.scan? site = some s → s.Home

/-- The deeds that the theory is about.  Two kinds are left out that nothing in the engine prevents.
An inbox is not handed to a dispatcher that publishes into another ring than its home: its slots
would be looked up in the wrong ring (`Tolerates` lets that happen).  And what a cursor has at its
site is not used beside it, nor is the name of a claim, a lease or a cursor given away while it is
borne. -/
def Permits (W : Workshop ω) : Deed ω → Prop
  | .claim _ name => W.claims.find? name = none
  | .addInbox name => W.FreeInbox name
  | .nextLease inbox name => W.FreeInbox inbox ∧ W.leases.find? name = none
  | .addDispatcher name _ => W.Free (.own name)
  | .dispatch site _ hub _ => W.Available site ∧ hub < W.engine.hubs.size
  | .drain site => W.Available site
  | .steal site | .rewind site | .gather site _ => W.Available site ∧ W.AtHome site
  | .clear owner => W.Free owner
  | .addPlan name _ _ | .closePlan name => W.Free (.plan name)
  | .execute plan inbox hub =>
      W.Available ⟨.plan plan, .own inbox⟩ ∧ hub < W.engine.hubs.size
  | .openCursor plan name hub =>
      W.Free (.plan plan) ∧ W.cursors.find? name = none ∧ hub < W.engine.hubs.size
  | .openOn site name =>
      W.Available site ∧ W.AtHome site ∧ W.cursors.find? name = none
  | .addRing .. | .edit .. | .dropClaim _ | .publishClaim _ | .reduce _ | .removeError _
  | .done _ | .dropLease _ | .drawShard _ | .next _ | .rewindCursor _ | .close _
  | .dropCursor _ | .keepView .. | .moveView .. | .touch _ => True

/-- What can be done in a workshop in which an inbox may also be handed to a dispatcher that
publishes into another ring than the one it listens to. -/
def Tolerates (W : Workshop ω) : Deed ω → Prop
  | .steal site | .rewind site | .gather site _ => W.Available site
  | .openOn site name => W.Available site ∧ W.cursors.find? name = none
  | a => W.Permits a

/-- The places that a deed leaves to nobody: a slot published by hand, and what is in flight to
an inbox that makes way for another. -/
def strays (W : Workshop ω) : Deed ω → List Place
  | .publishClaim name => (W.claims.find? name).toList.map fun c => (c.ring, c.slot)
  | .addInbox name => Floor.flightsOf (W.inbox? (.own name))
  | .addPlan name _ _ => Floor.flightsOf (W.inbox? (.plan name))
  | _ => []

/-- The workshops that can be reached by permitted deeds, with all the places that were left to
nobody. -/
inductive Reached : Workshop ω → List Place → Prop
  | make {W : Workshop ω} {world : ω} {settings : List Settings}
      (made : Workshop.make? world settings = .ok W) : Reached W []
  | deed {W : Workshop ω} {H : List Place} {a : Deed ω} (reached : Reached W H)
      (permitted : W.Permits a) : Reached (W.after a) (W.strays a ++ H)

/-- A run of deeds, each of which has a property in the workshop in which it is done. -/
inductive Run (P : Workshop ω → Deed ω → Prop) : Workshop ω → List (Deed ω) → Workshop ω → Prop
  | nil {W : Workshop ω} : Run P W [] W
  | cons {W V : Workshop ω} {a : Deed ω} {as : List (Deed ω)} (here : P W a)
      (rest : Run P (W.after a) as V) : Run P W (a :: as) V

section Run

variable {V : Workshop ω} {P Q : Workshop ω → Deed ω → Prop} {as : List (Deed ω)} {H : List Place}

lemma Run.imp (h : Run P W as V) (hPQ : ∀ W a, P W a → Q W a) : Run Q W as V := by
  induction h with
  | nil => exact .nil
  | cons here _ ih => exact .cons (hPQ _ _ here) ih

/-- What can be reached by a run of permitted deeds can be reached. -/
lemma Run.reached (h : Run P W as V) (hP : ∀ W a, P W a → W.Permits a) (hW : W.Reached H) :
    ∃ H', V.Reached H' := by
  induction h generalizing H with
  | nil => exact ⟨H, hW⟩
  | cons here _ ih => exact ih (hW.deed (hP _ _ here))

end Run

/-! ## Sites that no cursor has -/

lemma Available.site_ne (h : W.Available site) {c : OpenCursor}
    (hc : W.cursors.find? name = some c) :
    c.site.dispatcher ≠ site.dispatcher ∧ c.site.inbox ≠ site.inbox := by
  obtain ⟨hfree, inbox, hinbox, hfreeInbox⟩ := h
  exact ⟨hfree name c hc, hinbox ▸ hfreeInbox name c hc⟩

section Sites

variable {s : Site} (h : ∀ e ∈ W.cursors.entries, e.2.site = s)

include h

lemma site_eq_of_find? {c : OpenCursor} (hc : W.cursors.find? name = some c) : c.site = s := by
  obtain ⟨l₁, l₂, hl, -⟩ := List.lookup_eq_some_iff.1 hc
  exact h (name, c) (hl ▸ List.mem_append_right _ (List.mem_cons_self ..))

lemma free_of_sites {o : Owner} (ho : s.dispatcher ≠ o) : W.Free o :=
  fun _ _ hc => site_eq_of_find? h hc ▸ ho

lemma freeInbox_of_sites {inbox : String} (hk : s.inbox ≠ .own inbox) : W.FreeInbox inbox :=
  fun _ _ hc => site_eq_of_find? h hc ▸ hk

lemma available_of_sites {d k : String} (hd : s.dispatcher ≠ .own d) (hk : s.inbox ≠ .own k) :
    W.Available ⟨.own d, .own k⟩ :=
  ⟨free_of_sites h hd, k, rfl, freeInbox_of_sites h hk⟩

end Sites

end Workshop

namespace Session

variable {α : Type} {W : Workshop ω} {site : Site} {s : Scan ω} {name : String}

/-! ## Outcomes of deeds -/

lemma on_onCursor {held : OpenCursor} (hc : W.cursors.find? name = some held)
    (hs : W.scan? held.site = some s)
    (f : Cursor → Scan ω → Except Stop α × Cursor × Scan ω) :
    (onCursor name f).on W = ((f held.cursor s).1,
      { W.putScan held.site (f held.cursor s).2.2 with
        cursors := W.cursors.bind name { held with cursor := (f held.cursor s).2.1 } }) := by
  simp only [onCursor, on_bind, on_named, hc, on_scan, hs, on_putScan hs, on_modify,
    on_ofExcept, Workshop.cursors_putScan]

lemma on_dropCursor {held : OpenCursor} (hc : W.cursors.find? name = some held)
    (hs : W.scan? held.site = some s) :
    (dropCursor name).on W = ((held.cursor.close s).1,
      Workshop.putScan { W with cursors := W.cursors.erase name } held.site
        (held.cursor.close s).2.2) := by
  have hs' : Workshop.scan? { W with cursors := W.cursors.erase name } held.site = some s := hs
  simp only [dropCursor, on_bind, on_named, hc, on_modify, on_onScan hs']

lemma on_bindCursor (hc : W.cursors.find? name = none) (c : OpenCursor) :
    (bindCursor name c).on W = (.ok (), { W with cursors := W.cursors.bind name c }) := by
  simp only [bindCursor, on_bind, on_get, hc]
  rfl

lemma on_openOn (hc : W.cursors.find? name = none) (hs : W.scan? site = some s) :
    (openOn site name).on W = match Cursor.openOn s with
      | (.ok c, s') =>
          (.ok (), { W.putScan site s' with cursors := W.cursors.bind name ⟨site, c⟩ })
      | (.error stop, s') => (.error stop, W.putScan site s') := by
  simp only [openOn, on_bind, on_onScan hs]
  rcases Cursor.openOn s with ⟨stop | c, s'⟩
  · rfl
  · have hc' : (W.putScan site s').cursors.find? name = none := by
      rw [Workshop.cursors_putScan]
      exact hc
    simp only [on_bindCursor hc', Workshop.cursors_putScan]

lemma on_openCursor {plan : String} {p : Plan ω} (hp : W.plans.find? plan = some p)
    (hc : W.cursors.find? name = none) (hub : Nat) :
    (openCursor plan name hub).on W = match p.openCursor hub W.engine with
      | (.ok c, p', e) => (.ok (), { W.putPlan plan p' with
          engine := e, cursors := W.cursors.bind name ⟨.ofPlan plan, c⟩ })
      | (.error stop, p', e) => (.error stop, { W.putPlan plan p' with engine := e }) := by
  simp only [openCursor, on_bind, on_named, hp, on_engine]
  rcases p.openCursor hub W.engine with ⟨stop | c, p', e⟩
  · rfl
  · simp only [on_modify, on_ofExcept]
    exact on_bindCursor (W := { W with engine := e, plans := W.plans.bind plan p' }) hc _

lemma fst_openCursor {plan : String} {p : Plan ω} (hp : W.plans.find? plan = some p)
    (hc : W.cursors.find? name = none) (hub : Nat) :
    ((openCursor plan name hub).on W).1 = (p.openCursor hub W.engine).1.map fun _ => () := by
  rw [on_openCursor hp hc]
  rcases p.openCursor hub W.engine with ⟨stop | c, p', e⟩ <;> rfl

end Session

namespace Workshop

open Session

variable {W : Workshop ω} {name : String} {a : Deed ω}

lemma after_addRing (name : String) (shard capacity : Nat) :
    W.after (.addRing name shard capacity) = W ∨
      ∃ n e, W.engine.addRing? shard capacity = .ok (n, e) ∧
        W.after (.addRing name shard capacity) =
          { W with engine := e, rings := W.rings.bind name n } := by
  simp only [after, Deed.act, addRing, ofFault, on_bind, on_ofExcept, on_engine]
  cases (powerOfTwo? (max 1 capacity) >>= fun n => layOut n slotWidth : Except Fault Unit) with
  | error fault => exact .inl rfl
  | ok _ =>
    cases ha : W.engine.addRing? shard capacity with
    | error fault =>
      left
      simp only [Stop.ofFault, ha]
    | ok p =>
      refine .inr ⟨p.1, p.2, rfl, ?_⟩
      simp only [Stop.ofFault, ha]
      rfl

lemma after_claim (ring : Nat) (hc : W.claims.find? name = none) :
    W.after (.claim ring name) = match W.engine.claim? ring with
      | none => W
      | some (slot, e) => { W with engine := e, claims := W.claims.bind name ⟨ring, slot⟩ } := by
  simp only [after, Deed.act, claim, on_bind, on_engine]
  cases W.engine.claim? ring with
  | none => rfl
  | some p =>
    simp only [on_bind, on_modifyEngine, on_get, hc]
    rfl

lemma after_edit (name : String) (rows : List Nat → List Nat)
    (error : Option Failure → Option Failure) :
    W.after (.edit name rows error) =
      (W.claims.find? name).elim W fun c => { W with
          engine := W.engine.modifyRing c.ring (·.modifyTask c.slot (Deed.edited rows error)) } := by
  simp only [after, Deed.act, editClaim, on_bind, on_named]
  cases W.claims.find? name <;> rfl

lemma after_dropClaim (name : String) :
    W.after (.dropClaim name) =
      (W.claims.find? name).elim W fun c => { W with
          engine := W.engine.putBack c.ring c.slot, claims := W.claims.erase name } := by
  simp only [after, Deed.act, dropClaim, on_bind, on_named]
  cases W.claims.find? name <;> rfl

lemma after_publishClaim (name : String) :
    W.after (.publishClaim name) =
      (W.claims.find? name).elim W fun c => { W with
          engine := W.engine.publish c.ring c.slot, claims := W.claims.erase name } := by
  simp only [after, Deed.act, publishClaim, on_bind, on_named]
  cases W.claims.find? name <;> rfl

lemma after_nextLease (inbox : String) (hl : W.leases.find? name = none) :
    W.after (.nextLease inbox name) = match W.inboxes.find? inbox with
      | none => W
      | some k => match k.next? W.engine with
        | .ok (some (l, k', e)) => { W with
            engine := e
            inboxes := W.inboxes.bind inbox k'
            leases := W.leases.bind name l }
        | _ => W := by
  simp only [after, Deed.act, nextLease, on_bind, on_inbox, inbox?]
  cases W.inboxes.find? inbox with
  | none => rfl
  | some k =>
    simp only [on_engine, ofFault, on_ofExcept]
    rcases k.next? W.engine with fault | _ | ⟨l, k', e⟩
    · rfl
    · rfl
    · simp only [Stop.ofFault, on_bind, Session.putInbox, on_modify, on_modifyEngine, on_get, hl]
      rfl

lemma after_removeError (name : String) :
    W.after (.removeError name) =
      (W.leases.find? name).elim W fun l => { W with
          engine := W.engine.modifyRing l.ring (·.modifyTask l.slot ({ · with error := none })) } := by
  simp only [after, Deed.act, removeError, on_bind, on_named]
  cases W.leases.find? name <;> rfl

lemma after_done (name : String) :
    W.after (.done name) =
      (W.leases.find? name).elim W fun l => { W with
          engine := W.engine.release l, leases := W.leases.erase name } := by
  simp only [after, Deed.act, done, on_bind, on_named]
  cases W.leases.find? name <;> rfl

lemma after_dropLease (name : String) :
    W.after (.dropLease name) =
      (W.leases.find? name).elim W fun l => { W with
          engine := W.engine.dropLease l, leases := W.leases.erase name } := by
  simp only [after, Deed.act, dropLease, on_bind, on_named]
  cases W.leases.find? name <;> rfl

lemma after_clear (owner : Owner) :
    W.after (.clear owner) =
      (W.dispatcher? owner).elim W fun d => W.putDispatcher d.clear owner := by
  simp only [after, Deed.act, clear, on_bind, on_dispatcher]
  cases hd : W.dispatcher? owner with
  | none => rfl
  | some d => simp only [on_putDispatcher hd, Option.elim_some]

lemma after_closePlan (name : String) :
    W.after (.closePlan name) =
      (W.plans.find? name).elim W fun p => { W with
          engine := W.engine.withWorld (p.close W.engine.world) } := by
  simp only [after, Deed.act, closePlan, on_bind, on_named]
  cases W.plans.find? name <;> rfl

lemma after_moveView (name : String) (i : RowId) :
    ∃ views, W.after (.moveView name i) = { W with views } := by
  simp only [after, Deed.act, moveView, on_bind, on_named]
  cases W.views.find? name <;> exact ⟨_, rfl⟩

/-! ## Deeds on a scan -/

/-- The deeds on the scan of a site, with what they do there. -/
inductive Errand : Deed ω → Site → (Scan ω → Scan ω) → Prop
  | dispatch {site : Site} {source : Source ω} {hub : Nat} {filter : Filter ω} :
      Errand (.dispatch site source hub filter) site fun s => (s.dispatch source hub filter).2
  | steal {site : Site} : Errand (.steal site) site fun s => s.steal.2
  | drain {site : Site} : Errand (.drain site) site fun s => s.drain.2
  | rewind {site : Site} : Errand (.rewind site) site Scan.rewind
  | gather {site : Site} {n : Nat} : Errand (.gather site n) site fun s => (s.gather n).2

lemma Errand.after {site : Site} {f : Scan ω → Scan ω} (h : Errand a site f) :
    W.after a = match W.scan? site with
      | none => W
      | some s => W.putScan site (f s) := by
  cases hs : W.scan? site with
  | none =>
    cases h <;> simp only [Workshop.after, Deed.act, Session.dispatch, Session.steal,
      Session.drain, Session.rewind, Session.gather, on_bind, on_onScan_none hs]
  | some s =>
    cases h with
    | gather =>
      simp only [Workshop.after, Deed.act, Session.gather, on_bind, on_onScan hs]
      cases (s.gather _).1 <;> rfl
    | _ => simp only [Workshop.after, Deed.act, Session.dispatch, Session.steal, Session.drain,
        Session.rewind, on_onScan hs]

/-- The deeds of a cursor that has a name, with what it does on its scan. -/
inductive Turn : Deed ω → String → (Cursor → Scan ω → Cursor × Scan ω) → Prop
  | next {name : String} : Turn (.next name) name fun c s => (c.next s).2
  | rewind {name : String} : Turn (.rewindCursor name) name fun c s => (c.rewind s).2
  | close {name : String} : Turn (.close name) name fun c s => (c.close s).2

lemma Turn.after {f : Cursor → Scan ω → Cursor × Scan ω} (h : Turn a name f) {c : OpenCursor}
    {s : Scan ω} (hc : W.cursors.find? name = some c) (hs : W.scan? c.site = some s) :
    W.after a = { W.putScan c.site (f c.cursor s).2 with
      cursors := W.cursors.bind name { c with cursor := (f c.cursor s).1 } } := by
  cases h with
  | next =>
    simp only [Workshop.after, Deed.act, Session.next, on_bind, on_onCursor hc hs]
    cases (c.cursor.next s).1 <;> rfl
  | rewind => simp only [Workshop.after, Deed.act, Session.rewindCursor, on_onCursor hc hs]
  | close => simp only [Workshop.after, Deed.act, Session.close, on_onCursor hc hs]

lemma Turn.after_none {f : Cursor → Scan ω → Cursor × Scan ω} (h : Turn a name f)
    (hc : W.cursors.find? name = none) : W.after a = W := by
  cases h <;> simp only [Workshop.after, Deed.act, Session.next, Session.rewindCursor,
    Session.close, onCursor, on_bind, on_named, hc]

lemma after_execute (plan inbox : String) (hub : Nat) :
    W.after (.execute plan inbox hub) = match W.plans.find? plan with
      | none => W
      | some p => W.after (.dispatch ⟨.plan plan, .own inbox⟩ p.source hub p.filter) := by
  simp only [after, Deed.act, execute, on_bind, on_named]
  cases W.plans.find? plan <;> rfl

lemma after_openOn {site : Site} {s : Scan ω} (hc : W.cursors.find? name = none)
    (hs : W.scan? site = some s) :
    W.after (.openOn site name) = match Cursor.openOn s with
      | (.ok c, s') => { W.putScan site s' with cursors := W.cursors.bind name ⟨site, c⟩ }
      | (.error _, s') => W.putScan site s' := by
  simp only [after, Deed.act, on_openOn hc hs]
  rcases Cursor.openOn s with ⟨stop | c, s'⟩ <;> rfl

lemma after_openOn_none {site : Site} (hs : W.scan? site = none) :
    W.after (.openOn site name) = W := by
  simp only [after, Deed.act, Session.openOn, on_bind, on_onScan_none hs]

lemma after_openCursor {plan : String} {p : Plan ω} (hp : W.plans.find? plan = some p)
    (hc : W.cursors.find? name = none) (hub : Nat) :
    W.after (.openCursor plan name hub) = match p.openCursor hub W.engine with
      | (.ok c, p', e) => { W.putPlan plan p' with
          engine := e, cursors := W.cursors.bind name ⟨.ofPlan plan, c⟩ }
      | (.error _, p', e) => { W.putPlan plan p' with engine := e } := by
  simp only [after, Deed.act, on_openCursor hp hc]
  rcases p.openCursor hub W.engine with ⟨stop | c, p', e⟩ <;> rfl

lemma after_openCursor_none {plan : String} (hp : W.plans.find? plan = none) (hub : Nat) :
    W.after (.openCursor plan name hub) = W := by
  simp only [after, Deed.act, Session.openCursor, on_bind, on_named, hp]

lemma after_dropCursor {c : OpenCursor} {s : Scan ω} (hc : W.cursors.find? name = some c)
    (hs : W.scan? c.site = some s) :
    W.after (.dropCursor name) = Workshop.putScan { W with cursors := W.cursors.erase name }
      c.site (c.cursor.close s).2.2 := by
  simp only [after, Deed.act, on_dropCursor hc hs]

lemma after_dropCursor_none (hc : W.cursors.find? name = none) :
    W.after (.dropCursor name) = W := by
  simp only [after, Deed.act, Session.dropCursor, on_bind, on_named, hc]

end Workshop

end TableScan
