import Mathlib.Data.List.Nodup
import Mathlib.Data.List.Perm.Basic
import Mathlib.Logic.Function.Basic
import TableScan.Workshop

/-!
# Outcomes of sessions

What an operation of a session comes to on a given workshop.  An operation on a scan or on a
cursor takes the scan out of the workshop, works on it, and puts it back; there is an equation
for each kind of operation.
-/

namespace TableScan

variable {ω : Type}

/-! ## Registers -/

namespace Register

variable {α : Type} {r : Register α} {name other : String} {a b : α}

/-- No name is bound twice. -/
def Keyed (r : Register α) : Prop := (r.entries.map (·.1)).Nodup

lemma find?_erase_self : (r.erase name).find? name = none := by
  unfold find? erase
  rw [List.lookup_eq_none_iff]
  intro p hp
  have hne : p.1 ≠ name := by simpa using (List.mem_filter.1 hp).2
  simpa using hne.symm

lemma lookup_cons_ne {l : List (String × α)} (h : other ≠ name) :
    ((name, a) :: l).lookup other = l.lookup other := by
  rw [List.lookup_cons, beq_false_of_ne h]

lemma find?_erase_ne (h : other ≠ name) : (r.erase name).find? other = r.find? other := by
  unfold find? erase
  induction r.entries with
  | nil => rfl
  | cons p l ih =>
    obtain ⟨n, a⟩ := p
    by_cases hn : n = name
    · subst hn
      rw [List.filter_cons_of_neg (by simp), ih, lookup_cons_ne h]
    · rw [List.filter_cons_of_pos (by simpa using hn), List.lookup_cons, List.lookup_cons, ih]

@[simp] lemma find?_bind_self : (r.bind name a).find? name = some a := by
  simp [find?, bind]

lemma find?_bind_ne (h : other ≠ name) : (r.bind name a).find? other = r.find? other :=
  (lookup_cons_ne h).trans (find?_erase_ne h)

lemma find?_bind : (r.bind name a).find? other = if other = name then some a else r.find? other := by
  split
  · rename_i h
    rw [h, find?_bind_self]
  · rename_i h
    exact find?_bind_ne h

/-- To bind a name again to what it bears changes nothing. -/
lemma find?_bind_again (h : r.find? name = some a) : (r.bind name a).find? = r.find? := by
  funext other
  rw [find?_bind]
  split
  · rename_i hn
    rw [hn, h]
  · rfl

lemma find?_erase : (r.erase name).find? other = if other = name then none else r.find? other := by
  split
  · rename_i h
    rw [h, find?_erase_self]
  · rename_i h
    exact find?_erase_ne h

lemma erase_of_find?_none (h : r.find? name = none) : r.erase name = r := by
  unfold erase
  rw [List.filter_eq_self.2]
  intro p hp
  have hne : name ≠ p.1 := by simpa using List.lookup_eq_none_iff.1 h p hp
  simpa using hne.symm

lemma Keyed.erase (h : r.Keyed) (name : String) : (r.erase name).Keyed :=
  List.Nodup.sublist (List.Sublist.map _ List.filter_sublist) h

lemma Keyed.bind (h : r.Keyed) (name : String) (a : α) : (r.bind name a).Keyed := by
  refine List.nodup_cons.2 ⟨fun hm => ?_, h.erase name⟩
  obtain ⟨p, hp, hpn⟩ := List.mem_map.1 hm
  have := (List.mem_filter.1 hp).2
  simp [hpn] at this

/-- The thing of a name comes first, up to order. -/
lemma Keyed.perm (h : r.Keyed) (hf : r.find? name = some a) :
    r.entries.Perm ((name, a) :: (r.erase name).entries) := by
  unfold Keyed at h
  unfold find? at hf
  unfold Register.erase
  induction hr : r.entries generalizing r with
  | nil => simp [hr] at hf
  | cons p l ih =>
    obtain ⟨n, b⟩ := p
    rw [hr] at h hf
    obtain ⟨hn, hl⟩ := List.nodup_cons.1 h
    rw [List.lookup_cons] at hf
    by_cases hnn : name = n
    · subst hnn
      simp only [beq_self_eq_true, Option.some.injEq] at hf
      subst hf
      rw [List.filter_cons_of_neg (by simp), List.filter_eq_self.2]
      intro p hp
      have hne : p.1 ≠ name := fun hp' => hn (List.mem_map.2 ⟨p, hp, hp'⟩)
      simpa using hne
    · rw [List.filter_cons_of_pos (by simpa using Ne.symm hnn)]
      have hf' : l.lookup name = some a := by rwa [beq_false_of_ne hnn] at hf
      exact ((ih (r := ⟨l⟩) hl hf' rfl).cons _).trans (List.Perm.swap _ _ _)

lemma Keyed.mem_iff (h : r.Keyed) : (name, a) ∈ r.entries ↔ r.find? name = some a := by
  constructor
  · intro hm
    cases hf : r.find? name with
    | none =>
      have := List.lookup_eq_none_iff.1 hf _ hm
      simp at this
    | some b =>
      rw [(h.perm hf).mem_iff] at hm
      rcases List.mem_cons.1 hm with hm | hm
      · rw [(Prod.mk.inj hm).2]
      · have := (List.mem_filter.1 hm).2
        simp at this
  · intro hf
    exact (h.perm hf).mem_iff.2 (List.mem_cons_self ..)

lemma keyed_empty : (({} : Register α)).Keyed := List.nodup_nil

@[simp] lemma find?_empty : (({} : Register α)).find? name = none := rfl

end Register

/-! ## Parts of a workshop -/

namespace Workshop

variable {W : Workshop ω} {site : Site} {s : Scan ω} {o : Owner}

/-- The dispatcher of an owner, if there is one. -/
def dispatcher? (W : Workshop ω) : Owner → Option (Dispatcher ω)
  | .own name => W.dispatchers.find? name
  | .plan name => (W.plans.find? name).map (·.dispatcher)

/-- The inbox of an owner, if there is one. -/
def inbox? (W : Workshop ω) : Owner → Option Inbox
  | .own name => W.inboxes.find? name
  | .plan name => (W.plans.find? name).map (·.inbox)

/-- The order in which the plan of that name visits rows. -/
def order? (W : Workshop ω) (plan : String) : Option Order :=
  (W.plans.find? plan).map (·.source.order)

/-- The scan of a site, if all of it is there. -/
def scan? (W : Workshop ω) (site : Site) : Option (Scan ω) :=
  match W.dispatcher? site.dispatcher, W.inbox? site.inbox with
  | some d, some k => some ⟨d, k, W.engine⟩
  | _, _ => none

/-- The workshop with a dispatcher put back. -/
def putDispatcher (W : Workshop ω) (d : Dispatcher ω) : Owner → Workshop ω
  | .own name => { W with dispatchers := W.dispatchers.bind name d }
  | .plan name =>
      match W.plans.find? name with
      | some p => { W with plans := W.plans.bind name { p with dispatcher := d } }
      | none => W

/-- The workshop with an inbox put back. -/
def putInbox (W : Workshop ω) (k : Inbox) : Owner → Workshop ω
  | .own name => { W with inboxes := W.inboxes.bind name k }
  | .plan name =>
      match W.plans.find? name with
      | some p => { W with plans := W.plans.bind name { p with inbox := k } }
      | none => W

/-- The workshop with the parts of a scan put back. -/
def putScan (W : Workshop ω) (site : Site) (s : Scan ω) : Workshop ω :=
  { (W.putDispatcher s.dispatcher site.dispatcher).putInbox s.inbox site.inbox with
    engine := s.engine }

lemma scan?_eq_some_iff : W.scan? site = some s ↔
    W.dispatcher? site.dispatcher = some s.dispatcher ∧ W.inbox? site.inbox = some s.inbox ∧
      W.engine = s.engine := by
  unfold scan?
  obtain ⟨d, k, e⟩ := s
  cases W.dispatcher? site.dispatcher <;> cases W.inbox? site.inbox <;> simp

lemma dispatcher?_putDispatcher {d d' : Dispatcher ω} (h : W.dispatcher? o = some d) :
    (W.putDispatcher d' o).dispatcher? = Function.update W.dispatcher? o (some d') := by
  funext o'
  rw [Function.update_apply]
  cases o with
  | own name =>
    cases o' with
    | own other => simp [putDispatcher, dispatcher?, Register.find?_bind]
    | plan other => simp [putDispatcher, dispatcher?]
  | plan name =>
    obtain ⟨p, hp, -⟩ := Option.map_eq_some_iff.1 h
    simp only [putDispatcher, hp]
    cases o' with
    | own other => simp [dispatcher?]
    | plan other =>
      by_cases ho : other = name <;> simp [dispatcher?, Register.find?_bind, ho]

@[simp] lemma inbox?_putDispatcher (d : Dispatcher ω) :
    (W.putDispatcher d o).inbox? = W.inbox? := by
  funext o'
  cases o with
  | own name => cases o' <;> rfl
  | plan name =>
    simp only [putDispatcher]
    cases hp : W.plans.find? name with
    | none => rfl
    | some p =>
      cases o' with
      | own other => rfl
      | plan other =>
        by_cases ho : other = name <;> simp [inbox?, Register.find?_bind, ho, hp]

@[simp] lemma order?_putDispatcher (d : Dispatcher ω) :
    (W.putDispatcher d o).order? = W.order? := by
  funext other
  cases o with
  | own name => rfl
  | plan name =>
    simp only [putDispatcher]
    cases hp : W.plans.find? name with
    | none => rfl
    | some p => by_cases ho : other = name <;> simp [order?, Register.find?_bind, ho, hp]

lemma inbox?_putInbox {k k' : Inbox} (h : W.inbox? o = some k) :
    (W.putInbox k' o).inbox? = Function.update W.inbox? o (some k') := by
  funext o'
  rw [Function.update_apply]
  cases o with
  | own name =>
    cases o' with
    | own other => simp [putInbox, inbox?, Register.find?_bind]
    | plan other => simp [putInbox, inbox?]
  | plan name =>
    obtain ⟨p, hp, -⟩ := Option.map_eq_some_iff.1 h
    simp only [putInbox, hp]
    cases o' with
    | own other => simp [inbox?]
    | plan other =>
      by_cases ho : other = name <;> simp [inbox?, Register.find?_bind, ho]

@[simp] lemma dispatcher?_putInbox (k : Inbox) :
    (W.putInbox k o).dispatcher? = W.dispatcher? := by
  funext o'
  cases o with
  | own name => cases o' <;> rfl
  | plan name =>
    simp only [putInbox]
    cases hp : W.plans.find? name with
    | none => rfl
    | some p =>
      cases o' with
      | own other => rfl
      | plan other =>
        by_cases ho : other = name <;> simp [dispatcher?, Register.find?_bind, ho, hp]

@[simp] lemma order?_putInbox (k : Inbox) : (W.putInbox k o).order? = W.order? := by
  funext other
  cases o with
  | own name => rfl
  | plan name =>
    simp only [putInbox]
    cases hp : W.plans.find? name with
    | none => rfl
    | some p => by_cases ho : other = name <;> simp [order?, Register.find?_bind, ho, hp]

lemma dispatcher?_bind {V : Workshop ω} {name : String} {d : Dispatcher ω}
    (hp : V.plans = W.plans) (hd : V.dispatchers = W.dispatchers.bind name d) :
    V.dispatcher? = Function.update W.dispatcher? (.own name) (some d) := by
  funext o
  rw [Function.update_apply]
  cases o <;> simp [dispatcher?, hp, hd, Register.find?_bind]

lemma inbox?_bind {V : Workshop ω} {name : String} {k : Inbox}
    (hp : V.plans = W.plans) (hk : V.inboxes = W.inboxes.bind name k) :
    V.inbox? = Function.update W.inbox? (.own name) (some k) := by
  funext o
  rw [Function.update_apply]
  cases o <;> simp [inbox?, hp, hk, Register.find?_bind]

/-- The parts of a workshop that no dispatcher and no inbox depends on may change at will. -/
lemma dispatcher?_congr {V : Workshop ω} (hp : V.plans = W.plans)
    (hd : V.dispatchers = W.dispatchers) : V.dispatcher? = W.dispatcher? := by
  funext o
  cases o <;> simp [dispatcher?, hp, hd]

lemma inbox?_congr {V : Workshop ω} (hp : V.plans = W.plans)
    (hk : V.inboxes = W.inboxes) : V.inbox? = W.inbox? := by
  funext o
  cases o <;> simp [inbox?, hp, hk]

lemma dispatcher?_putScan (h : W.scan? site = some s) (s' : Scan ω) :
    (W.putScan site s').dispatcher? =
      Function.update W.dispatcher? site.dispatcher (some s'.dispatcher) :=
  (dispatcher?_congr (W := (W.putDispatcher s'.dispatcher site.dispatcher).putInbox s'.inbox
    site.inbox) rfl rfl).trans ((dispatcher?_putInbox _).trans
      (dispatcher?_putDispatcher (scan?_eq_some_iff.1 h).1))

lemma inbox?_putScan (h : W.scan? site = some s) (s' : Scan ω) :
    (W.putScan site s').inbox? = Function.update W.inbox? site.inbox (some s'.inbox) := by
  have hk : (W.putDispatcher s'.dispatcher site.dispatcher).inbox? site.inbox = some s.inbox := by
    rw [inbox?_putDispatcher]
    exact (scan?_eq_some_iff.1 h).2.1
  refine (inbox?_congr (W := (W.putDispatcher s'.dispatcher site.dispatcher).putInbox s'.inbox
    site.inbox) rfl rfl).trans ((inbox?_putInbox hk).trans ?_)
  rw [inbox?_putDispatcher]

@[simp] lemma order?_putScan (s' : Scan ω) : (W.putScan site s').order? = W.order? :=
  (order?_putInbox (W := W.putDispatcher s'.dispatcher site.dispatcher) _).trans
    (order?_putDispatcher _)

@[simp] lemma engine_putScan (s' : Scan ω) : (W.putScan site s').engine = s'.engine := rfl

@[simp] lemma engine_putDispatcher (d : Dispatcher ω) :
    (W.putDispatcher d o).engine = W.engine := by
  unfold putDispatcher
  split
  · rfl
  · split <;> rfl

@[simp] lemma claims_putDispatcher (d : Dispatcher ω) :
    (W.putDispatcher d o).claims = W.claims := by
  unfold putDispatcher
  split
  · rfl
  · split <;> rfl

@[simp] lemma claims_putScan (s' : Scan ω) : (W.putScan site s').claims = W.claims := by
  unfold putScan putInbox
  split
  · exact claims_putDispatcher _
  · split <;> exact claims_putDispatcher _

@[simp] lemma leases_putDispatcher (d : Dispatcher ω) :
    (W.putDispatcher d o).leases = W.leases := by
  unfold putDispatcher
  split
  · rfl
  · split <;> rfl

@[simp] lemma leases_putScan (s' : Scan ω) : (W.putScan site s').leases = W.leases := by
  unfold putScan putInbox
  split
  · exact leases_putDispatcher _
  · split <;> exact leases_putDispatcher _

@[simp] lemma cursors_putDispatcher (d : Dispatcher ω) :
    (W.putDispatcher d o).cursors = W.cursors := by
  unfold putDispatcher
  split
  · rfl
  · split <;> rfl

@[simp] lemma cursors_putScan (s' : Scan ω) : (W.putScan site s').cursors = W.cursors := by
  unfold putScan putInbox
  split
  · exact cursors_putDispatcher _
  · split <;> exact cursors_putDispatcher _

/-- The workshop with a plan whose scan has moved on. -/
def putPlan (W : Workshop ω) (name : String) (p : Plan ω) : Workshop ω :=
  { W with plans := W.plans.bind name p }

lemma dispatcher?_putPlan {name : String} {p : Plan ω} :
    (W.putPlan name p).dispatcher? =
      Function.update W.dispatcher? (.plan name) (some p.dispatcher) := by
  funext o
  rw [Function.update_apply]
  cases o with
  | own other => simp [dispatcher?, putPlan]
  | plan other => by_cases ho : other = name <;> simp [dispatcher?, putPlan, Register.find?_bind, ho]

lemma inbox?_putPlan {name : String} {p : Plan ω} :
    (W.putPlan name p).inbox? = Function.update W.inbox? (.plan name) (some p.inbox) := by
  funext o
  rw [Function.update_apply]
  cases o with
  | own other => simp [inbox?, putPlan]
  | plan other => by_cases ho : other = name <;> simp [inbox?, putPlan, Register.find?_bind, ho]

lemma order?_putPlan {name : String} {p : Plan ω} :
    (W.putPlan name p).order? = Function.update W.order? name (some p.source.order) := by
  funext other
  rw [Function.update_apply]
  by_cases ho : other = name <;> simp [order?, putPlan, Register.find?_bind, ho]

end Workshop

/-! ## Outcomes -/

namespace Session

variable {α β : Type} {W : Workshop ω} {site : Site} {s : Scan ω} {o : Owner} {name : String}

/-- The outcome of an operation on a workshop. -/
def on (x : Session ω α) (W : Workshop ω) : Except Stop α × Workshop ω := (ExceptT.run x).run W

lemma on_bind (x : Session ω α) (f : α → Session ω β) :
    (x >>= f).on W = match x.on W with
      | (.ok a, V) => (f a).on V
      | (.error stop, V) => (.error stop, V) := by
  unfold on
  rw [ExceptT.run_bind, StateT.run_bind]
  rcases (ExceptT.run x).run W with ⟨r, V⟩
  cases r <;> rfl

lemma on_get : (get : Session ω (Workshop ω)).on W = (.ok W, W) := rfl

lemma on_modify (f : Workshop ω → Workshop ω) :
    (modify f : Session ω Unit).on W = (.ok (), f W) := rfl

lemma on_ofExcept (x : Except Stop α) : (ofExcept x : Session ω α).on W = (x, W) := by
  cases x <;> rfl

lemma on_engine : (engine : Session ω (Engine ω)).on W = (.ok W.engine, W) := rfl

lemma on_modifyEngine (f : Engine ω → Engine ω) :
    (modifyEngine f : Session ω Unit).on W = (.ok (), { W with engine := f W.engine }) := rfl

lemma on_named (r : Workshop ω → Register α) (name : String) :
    (named r name).on W = match (r W).find? name with
      | some a => (.ok a, W)
      | none => (.error (.faulted .unknownName), W) := by
  unfold named
  rw [on_bind, on_get]
  dsimp only
  cases (r W).find? name <;> rfl

lemma on_dispatcher (o : Owner) :
    (dispatcher o).on W = match W.dispatcher? o with
      | some d => (.ok d, W)
      | none => (.error (.faulted .unknownName), W) := by
  cases o with
  | own name =>
    simp only [dispatcher, on_named, Workshop.dispatcher?]
    cases W.dispatchers.find? name <;> rfl
  | plan name =>
    simp only [dispatcher, on_bind, on_named, Workshop.dispatcher?]
    cases W.plans.find? name <;> rfl

lemma on_inbox (o : Owner) :
    (inbox o).on W = match W.inbox? o with
      | some k => (.ok k, W)
      | none => (.error (.faulted .unknownName), W) := by
  cases o with
  | own name =>
    simp only [inbox, on_named, Workshop.inbox?]
    cases W.inboxes.find? name <;> rfl
  | plan name =>
    simp only [inbox, on_bind, on_named, Workshop.inbox?]
    cases W.plans.find? name <;> rfl

lemma on_scan (site : Site) :
    (scan site).on W = match W.scan? site with
      | some s => (.ok s, W)
      | none => (.error (.faulted .unknownName), W) := by
  simp only [scan, on_bind, on_dispatcher, Workshop.scan?]
  cases W.dispatcher? site.dispatcher with
  | none => rfl
  | some d =>
    simp only [on_inbox]
    cases W.inbox? site.inbox <;> rfl

lemma on_putDispatcher {d : Dispatcher ω} (h : W.dispatcher? o = some d) (d' : Dispatcher ω) :
    (putDispatcher d' o).on W = (.ok (), W.putDispatcher d' o) := by
  cases o with
  | own name => rfl
  | plan name =>
    obtain ⟨p, hp, -⟩ := Option.map_eq_some_iff.1 h
    simp only [putDispatcher, on_bind, on_named, hp, Workshop.putDispatcher]
    rfl

lemma on_putInbox {k : Inbox} (h : W.inbox? o = some k) (k' : Inbox) :
    (putInbox k' o).on W = (.ok (), W.putInbox k' o) := by
  cases o with
  | own name => rfl
  | plan name =>
    obtain ⟨p, hp, -⟩ := Option.map_eq_some_iff.1 h
    simp only [putInbox, on_bind, on_named, hp, Workshop.putInbox]
    rfl

lemma on_putScan (h : W.scan? site = some s) (s' : Scan ω) :
    (putScan site s').on W = (.ok (), W.putScan site s') := by
  obtain ⟨hd, hk, -⟩ := Workshop.scan?_eq_some_iff.1 h
  have hk' : (W.putDispatcher s'.dispatcher site.dispatcher).inbox? site.inbox =
      some s.inbox := by
    rw [Workshop.inbox?_putDispatcher]
    exact hk
  unfold putScan
  rw [on_bind, on_putDispatcher hd]
  dsimp only
  rw [on_bind, on_putInbox hk']
  rfl

lemma on_onScan (h : W.scan? site = some s) (f : Scan ω → Except Stop α × Scan ω) :
    (onScan site f).on W = ((f s).1, W.putScan site (f s).2) := by
  simp only [onScan, on_bind, on_scan, h, on_putScan h, on_ofExcept]

lemma on_onScan_none (h : W.scan? site = none) (f : Scan ω → Except Stop α × Scan ω) :
    (onScan site f).on W = (.error (.faulted .unknownName), W) := by
  simp only [onScan, on_bind, on_scan, h]

end Session

end TableScan
