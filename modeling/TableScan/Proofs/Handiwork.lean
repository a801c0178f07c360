import TableScan.Proofs.Sites
import TableScan.Proofs.Steps

/-!
# Deeds by hand

What is done in a workshop at no site: rings, claims and leases by hand, new dispatchers, inboxes
and plans.  Main statements: what such a deed comes to (`Workshop.byHand_after`); it keeps the
workshop in order (`Workshop.Sound.of_byHand`), and for everybody else it is a sequence of
steps (`Workshop.Sound.steps_byHand`).
-/

namespace TableScan.Workshop

variable {ω σ : Type} {W V : Workshop ω} {F F' : List Lease} {H H' : List Place} {a : Deed ω}
  {o : Owner} {name : String} {id : Nat} {mine : Place → Prop} {π : ω → σ}

/-! ## What a deed by hand comes to -/

/-- What a deed by hand comes to. -/
inductive ByHand (W : Workshop ω) : Deed ω → Workshop ω → Prop
  /-- Nothing but the views may have changed. -/
  | viewed {a : Deed ω} {views : Register RowView} (strays : W.strays a = []) :
      ByHand W a { W with views }
  | addRing {name : String} {shard capacity n : Nat} {e : Engine ω}
      (added : W.engine.addRing? shard capacity = .ok (n, e)) :
      ByHand W (.addRing name shard capacity)
        { W with engine := e, rings := W.rings.bind name n }
  | claim {ring slot : Nat} {name : String} {e : Engine ω} (new : W.claims.find? name = none)
      (claimed : W.engine.claim? ring = some (slot, e)) :
      ByHand W (.claim ring name)
        { W with engine := e, claims := W.claims.bind name ⟨ring, slot⟩ }
  | edit {name : String} {rows : List Nat → List Nat} {error : Option Failure → Option Failure}
      {c : Claim} (held : W.claims.find? name = some c) :
      ByHand W (.edit name rows error) { W with
        engine := W.engine.modifyRing c.ring (·.modifyTask c.slot (Deed.edited rows error)) }
  | dropClaim {name : String} {c : Claim} (held : W.claims.find? name = some c) :
      ByHand W (.dropClaim name) { W with
        engine := W.engine.putBack c.ring c.slot, claims := W.claims.erase name }
  | publishClaim {name : String} {c : Claim} (held : W.claims.find? name = some c) :
      ByHand W (.publishClaim name) { W with
        engine := W.engine.publish c.ring c.slot, claims := W.claims.erase name }
  | reduce {ring : Nat} :
      ByHand W (.reduce ring) { W with engine := (W.engine.reduceOldest ring).2 }
  | addInbox {name : String} (free : W.FreeInbox name) : ByHand W (.addInbox name) { W with
      engine := W.engine.addInbox.2
      inboxes := W.inboxes.bind name { id := W.engine.addInbox.1 } }
  | nextLease {inbox name : String} {k k' : Inbox} {l : Lease} {e : Engine ω}
      (free : W.FreeInbox inbox) (new : W.leases.find? name = none)
      (found : W.inboxes.find? inbox = some k)
      (next : k.next? W.engine = .ok (some (l, k', e))) :
      ByHand W (.nextLease inbox name) { W with
        engine := e, inboxes := W.inboxes.bind inbox k', leases := W.leases.bind name l }
  | removeError {name : String} {l : Lease} (held : W.leases.find? name = some l) :
      ByHand W (.removeError name) { W with
        engine := W.engine.modifyRing l.ring (·.modifyTask l.slot ({ · with error := none })) }
  | done {name : String} {l : Lease} (held : W.leases.find? name = some l) :
      ByHand W (.done name) { W with
        engine := W.engine.release l, leases := W.leases.erase name }
  | dropLease {name : String} {l : Lease} (held : W.leases.find? name = some l) :
      ByHand W (.dropLease name) { W with
        engine := W.engine.dropLease l, leases := W.leases.erase name }
  | addDispatcher {name : String} {reducer : Reducer ω} (free : W.Free (.own name)) :
      ByHand W (.addDispatcher name reducer) { W with
        engine := W.engine.addDispatcher.2
        dispatchers := W.dispatchers.bind name { id := W.engine.addDispatcher.1, reducer } }
  | clear {owner : Owner} {d : Dispatcher ω} (free : W.Free owner)
      (found : W.dispatcher? owner = some d) :
      ByHand W (.clear owner) (W.putDispatcher d.clear owner)
  | drawShard {hub : Nat} :
      ByHand W (.drawShard hub) { W with engine := (W.engine.drawShard hub).2 }
  | addPlan {name : String} {source : Source ω} {filter : Filter ω} (free : W.Free (.plan name)) :
      ByHand W (.addPlan name source filter)
        ({ W with engine := W.engine.addDispatcher.2.addInbox.2 }.putPlan name
          { source, filter
            dispatcher := { id := W.engine.addDispatcher.1, reducer := .filtering source.order }
            inbox := { id := W.engine.addDispatcher.2.addInbox.1 } })
  | closePlan {name : String} {p : Plan ω} (found : W.plans.find? name = some p) :
      ByHand W (.closePlan name)
        { W with engine := W.engine.withWorld (p.close W.engine.world) }
  | touch {f : ω → ω} :
      ByHand W (.touch f) { W with engine := W.engine.withWorld (f W.engine.world) }

/-- A deed on something that may not be there. -/
lemma byHand_found {α : Type} {x? : Option α} {f : α → Workshop ω} (hW : W.after a = x?.elim W f)
    (hs : x? = none → W.strays a = []) (hf : ∀ x, x? = some x → W.ByHand a (f x)) :
    W.ByHand a (W.after a) := by
  rw [hW]
  cases x? with
  | none => exact .viewed (hs rfl)
  | some x => exact hf x rfl

/-- A deed after which the workshop is as it was. -/
lemma byHand_same (hW : W.after a = W) (hs : W.strays a = []) : W.ByHand a (W.after a) := by
  rw [hW]
  exact .viewed hs

lemma byHand_addRing (name : String) (shard capacity : Nat) :
    W.ByHand (.addRing name shard capacity) (W.after (.addRing name shard capacity)) := by
  rcases W.after_addRing name shard capacity with hW | ⟨n, e, he, hW⟩
  · exact byHand_same hW rfl
  · rw [hW]
    exact .addRing he

lemma byHand_claim (ring : Nat) (hnew : W.claims.find? name = none) :
    W.ByHand (.claim ring name) (W.after (.claim ring name)) := by
  rw [after_claim ring hnew]
  cases hc : W.engine.claim? ring with
  | none => exact .viewed rfl
  | some p => exact .claim hnew hc

lemma byHand_nextLease {inbox : String} (hfree : W.FreeInbox inbox)
    (hnew : W.leases.find? name = none) :
    W.ByHand (.nextLease inbox name) (W.after (.nextLease inbox name)) := by
  rw [after_nextLease inbox hnew]
  cases hk : W.inboxes.find? inbox with
  | none => exact .viewed rfl
  | some k =>
    rcases hn : k.next? W.engine with fault | _ | ⟨l, k', e⟩ <;> simp only [hn]
    · exact .viewed rfl
    · exact .viewed rfl
    · exact .nextLease hfree hnew hk hn

/-- A permitted deed that works at no site is done by hand. -/
lemma byHand_after (hp : W.Permits a) (ha : W.site? a = none) : W.ByHand a (W.after a) := by
  cases a with
  | addRing name shard capacity => exact byHand_addRing name shard capacity
  | claim ring name => exact byHand_claim ring hp
  | edit name => exact byHand_found (after_edit name ..) (fun _ => rfl) fun c => .edit
  | dropClaim name => exact byHand_found (after_dropClaim name) (fun _ => rfl) fun c => .dropClaim
  | publishClaim name =>
    refine byHand_found (after_publishClaim name) (fun hc => ?_) fun c => .publishClaim
    rw [strays, hc]
    rfl
  | reduce => exact .reduce
  | addInbox name => exact .addInbox hp
  | nextLease inbox name => exact byHand_nextLease hp.1 hp.2
  | removeError name =>
    exact byHand_found (after_removeError name) (fun _ => rfl) fun l => .removeError
  | done name => exact byHand_found (after_done name) (fun _ => rfl) fun l => .done
  | dropLease name => exact byHand_found (after_dropLease name) (fun _ => rfl) fun l => .dropLease
  | addDispatcher name reducer => exact .addDispatcher hp
  | clear owner => exact byHand_found (after_clear owner) (fun _ => rfl) fun d => .clear hp
  | drawShard => exact .drawShard
  | addPlan name source filter => exact .addPlan hp
  | closePlan name => exact byHand_found (after_closePlan name) (fun _ => rfl) fun p => .closePlan
  -- a cursor that is there has a site
  | next => exact byHand_same (Turn.next.after_none (Option.map_eq_none_iff.1 ha)) rfl
  | rewindCursor => exact byHand_same (Turn.rewind.after_none (Option.map_eq_none_iff.1 ha)) rfl
  | close => exact byHand_same (Turn.close.after_none (Option.map_eq_none_iff.1 ha)) rfl
  | dropCursor => exact byHand_same (after_dropCursor_none (Option.map_eq_none_iff.1 ha)) rfl
  | keepView => exact .viewed rfl
  | moveView name i =>
    obtain ⟨views, hW⟩ := after_moveView (W := W) name i
    rw [hW]
    exact .viewed rfl
  | touch => exact .touch
  | _ => cases ha

lemma ByHand.cursors (h : W.ByHand a V) : V.cursors = W.cursors := by
  cases h with
  | clear => exact cursors_putDispatcher _
  | _ => rfl

/-! ## Deeds by hand keep the workshop in order -/

namespace Sound

/-- An inbox without a plan makes way for another, with no cursor on it. -/
lemma bindInbox (h : W.Sound F H) {inbox : String} {k : Inbox} (hfree : W.FreeInbox inbox)
    (hf : Floor V.engine W.dispatcher? (Function.update W.inbox? (.own inbox) (some k)) V.claimed
      V.leased F' H')
    (hp : V.plans = W.plans) (hd : V.dispatchers = W.dispatchers)
    (hk : V.inboxes = W.inboxes.bind inbox k) (hcur : V.cursors = W.cursors)
    (hc : V.claims.Keyed) (hl : V.leases.Keyed) : V.Sound F' H' := by
  have hD := dispatcher?_congr hp hd
  have hK := inbox?_bind hp hk
  refine h.renew (o := .own inbox) ?_ (fun o _ => congrFun hD o) (fun o ho => ?_) (fun p _ => ?_) hc
    hl hcur (.inl (congrFun hD _)) (.inr hfree) nofun nofun
  · rw [hD, hK]
    exact hf
  · rw [hK, Function.update_of_ne ho]
  · rw [order?, hp, order?]

lemma addDispatcher (h : W.Sound F H) {reducer : Reducer ω} (hfree : W.Free (.own name)) :
    Workshop.Sound { W with
      engine := W.engine.addDispatcher.2
      dispatchers := W.dispatchers.bind name { id := W.engine.addDispatcher.1, reducer } } F H := by
  have hD : dispatcher? _ = Function.update W.dispatcher? (.own name) _ := dispatcher?_bind
    (W := W) (V := { W with
      engine := W.engine.addDispatcher.2
      dispatchers := W.dispatchers.bind name { id := W.engine.addDispatcher.1, reducer } })
    rfl rfl
  have hK (o : Owner) : inbox? { W with
      engine := W.engine.addDispatcher.2
      dispatchers := W.dispatchers.bind name { id := W.engine.addDispatcher.1, reducer } } o =
      W.inbox? o := congrFun (inbox?_congr rfl rfl) o
  refine h.renew (o := .own name) ?_ (fun o ho => ?_) (fun o _ => hK o) (fun p _ => rfl) h.claims
    h.leases rfl (.inr hfree) (.inl (hK _)) nofun nofun
  · rw [hD]
    exact h.floor.addDispatcher (.own name) reducer
  · rw [hD, Function.update_of_ne ho]

lemma clear (h : W.Sound F H) {d : Dispatcher ω} (hfree : W.Free o)
    (hd : W.dispatcher? o = some d) : (W.putDispatcher d.clear o).Sound F H := by
  have hD : (W.putDispatcher d.clear o).dispatcher? = _ := dispatcher?_putDispatcher hd
  refine h.renew (o := o) ?_ (fun o' ho => ?_) (fun o' _ => ?_) (fun p _ => ?_) ?_ ?_
    (cursors_putDispatcher _) (.inr hfree) (.inl ?_) (fun p k hpo hk hu => ?_)
    fun p d' order hpo hd' ho => ?_
  · rw [hD, inbox?_putDispatcher, engine_putDispatcher, claimed, leased, claims_putDispatcher,
      leases_putDispatcher, cursors_putDispatcher]
    exact h.floor.clear hd
  · rw [hD, Function.update_of_ne ho]
  · rw [inbox?_putDispatcher]
  · rw [order?_putDispatcher]
  · rw [claims_putDispatcher]
    exact h.claims
  · rw [leases_putDispatcher]
    exact h.leases
  · rw [inbox?_putDispatcher]
  · rw [inbox?_putDispatcher, hpo] at hk
    exact h.idle p k hk fun n c hn => hu n c ((cursors_putDispatcher _).symm ▸ hn)
  · rw [order?_putDispatcher] at ho
    rw [hD, Function.update_self] at hd'
    obtain rfl := Option.some.inj hd'
    exact h.reducers p d order (hpo ▸ hd) ho

lemma addPlan (h : W.Sound F H) {source : Source ω} {filter : Filter ω}
    (hfree : W.Free (.plan name)) :
    ∃ F', Workshop.Sound
      ({ W with engine := W.engine.addDispatcher.2.addInbox.2 }.putPlan name
        { source, filter
          dispatcher := { id := W.engine.addDispatcher.1, reducer := .filtering source.order }
          inbox := { id := W.engine.addDispatcher.2.addInbox.1 } }) F'
      (Floor.flightsOf (W.inbox? (.plan name)) ++ H) := by
  have hf := h.floor.addDispatcher (.plan name) (.filtering source.order)
  obtain ⟨F', hf'⟩ := hf.addInbox (.plan name)
  refine ⟨F', h.renew (o := .plan name) ?_ (fun o ho => ?_) (fun o ho => ?_) (fun p hpo => ?_)
    h.claims h.leases rfl (.inr hfree) (.inr fun n c hn hcn => ?_) (fun p k hpo hk _ => ?_)
    fun p d order hpo hd ho => ?_⟩
  · rw [dispatcher?_putPlan, inbox?_putPlan]
    exact hf'
  · rw [dispatcher?_putPlan, Function.update_of_ne ho]
    cases o <;> rfl
  · rw [inbox?_putPlan, Function.update_of_ne ho]
    cases o <;> rfl
  · rw [order?_putPlan, Function.update_of_ne fun hpn => hpo (congrArg _ hpn.symm)]
    rfl
  · -- a cursor with the inbox of a plan has its dispatcher as well
    obtain ⟨s, -, hfit⟩ := h.fit n c hn
    exact hfree n c hn (hfit.plan name hcn)
  · rw [inbox?_putPlan, Function.update_self] at hk
    exact Option.some.inj hk ▸ rfl
  · obtain rfl : name = p := Owner.plan.inj hpo
    rw [dispatcher?_putPlan, Function.update_self] at hd
    rw [order?_putPlan, Function.update_self] at ho
    exact Option.some.inj hd ▸ Option.some.inj ho ▸ rfl

/-- A deed by hand keeps the workshop in order. -/
lemma of_byHand (h : W.Sound F H) (hV : W.ByHand a V) :
    ∃ F', V.Sound F' (W.strays a ++ H) := by
  -- what changes no more than the engine, claims and leases
  have hand : ∀ {V : Workshop ω} {H' : List Place},
      Floor V.engine W.dispatcher? W.inbox? V.claimed V.leased F H' → V.plans = W.plans →
      V.dispatchers = W.dispatchers → V.inboxes = W.inboxes → V.cursors = W.cursors →
      V.claims.Keyed → V.leases.Keyed → ∃ F', V.Sound F' H' :=
    fun hf hp hd hk hcur hc hl => ⟨F, h.byHand hf hp hd hk hcur hc hl⟩
  cases hV with
  | viewed strays =>
    rw [strays]
    exact hand h.floor rfl rfl rfl rfl h.claims h.leases
  | addRing added =>
    have hs := h.floor.engine.addRing added
    obtain ⟨m, rfl⟩ := Engine.addRing?_eq added
    exact hand (h.floor.ofEngine hs (by simp) (Nat.le_refl _) (Nat.le_refl _)) rfl rfl rfl rfl
      h.claims h.leases
  | @claim ring slot name e new claimed =>
    refine hand ?_ rfl rfl rfl rfl (h.claims.bind ..) h.leases
    have hf := h.floor.ofSameSize (h.floor.engine.claim? claimed) (Engine.sameSize_claim? claimed)
    have hcl : Workshop.claimed { W with
        engine := e, claims := W.claims.bind name ⟨ring, slot⟩ } = (ring, slot) :: W.claimed := by
      simp [Workshop.claimed, Register.bind, Register.erase_of_find?_none new]
    rw [hcl]
    exact hf
  | edit held | removeError held =>
    exact hand (h.floor.ofSameSize (h.floor.engine.modifyTask fun t ht => ht) (.modifyRing ..)) rfl
      rfl rfl rfl h.claims h.leases
  | dropClaim held =>
    have hf := h.floor.perm (perm_claimed h.claims held) (.refl _) (.refl _)
    exact hand (hf.ofSameSize hf.engine.putBack (.modifyRing ..)) rfl rfl rfl rfl
      (h.claims.erase _) h.leases
  | publishClaim held =>
    have hf := h.floor.perm (perm_claimed h.claims held) (.refl _) (.refl _)
    simp only [strays, held]
    exact hand (hf.ofSameSize hf.engine.publish_stray (.modifyRing ..)) rfl rfl rfl rfl
      (h.claims.erase _) h.leases
  | reduce =>
    exact hand (h.floor.ofSameSize (h.floor.engine.reduceOldest _)
      (Engine.sameSize_reduceOldest ..)) rfl rfl rfl rfl h.claims h.leases
  | @addInbox name free =>
    obtain ⟨F', hf⟩ := h.floor.addInbox (.own name)
    exact ⟨F', h.bindInbox free hf rfl rfl rfl rfl h.claims h.leases⟩
  | @nextLease inbox name k k' l e free new found next =>
    obtain ⟨F', hf⟩ := h.floor.next? (o := .own inbox) found next
    have hL : leased { W with
        engine := e, inboxes := W.inboxes.bind inbox k', leases := W.leases.bind name l } =
        l.place :: W.leased := by
      simp [leased, Register.bind, Register.erase_of_find?_none new]
    exact ⟨F', h.bindInbox free (hL ▸ hf) rfl rfl rfl rfl h.claims (h.leases.bind ..)⟩
  | done held =>
    have hf := h.floor.perm (.refl _) (perm_leased h.leases held) (.refl _)
    exact hand (hf.ofSameSize hf.engine.release (Engine.sameSize_release ..)) rfl rfl rfl rfl
      h.claims (h.leases.erase _)
  | dropLease held =>
    have hf := h.floor.perm (.refl _) (perm_leased h.leases held) (.refl _)
    exact hand (hf.ofSameSize hf.engine.dropLease (Engine.sameSize_dropLease ..)) rfl rfl rfl rfl
      h.claims (h.leases.erase _)
  | addDispatcher free => exact ⟨F, h.addDispatcher free⟩
  | clear free found => exact ⟨F, h.clear free found⟩
  | @drawShard hub =>
    have ha := Engine.alike_drawShard W.engine (fun _ => ()) hub
    exact hand (h.floor.ofSameSize (h.floor.engine.alike ha) ha.sameSize) rfl rfl rfl rfl
      h.claims h.leases
  | addPlan free => exact h.addPlan free
  | closePlan | touch =>
    exact hand (h.floor.ofSameSize (h.floor.engine.congr rfl rfl rfl) ⟨rfl, rfl, rfl, rfl⟩) rfl
      rfl rfl rfl h.claims h.leases

end Sound

/-! ## Deeds by hand as steps -/

/-- What a deed leases by hand. -/
def Leases (W : Workshop ω) (a : Deed ω) (l : Lease) : Prop :=
  ∃ inbox name k k' e, a = .nextLease inbox name ∧ W.inboxes.find? inbox = some k ∧
    k.next? W.engine = .ok (some (l, k', e))

/-- A deed by hand is a sequence of steps. -/
lemma Sound.steps_byHand (h : W.Sound F H) (hV : W.ByHand a V) (hsp : W.Spares π a)
    (hheld : ∀ name l, W.leases.find? name = some l → ¬ mine l.place)
    (hnext : ∀ l, W.Leases a l → ¬ mine l.place) :
    Engine.Steps id mine π W.engine V.engine := by
  have hbooks := h.floor.engine.books
  cases hV with
  | viewed => exact .refl
  | addRing added =>
    obtain ⟨m, rfl⟩ := Engine.addRing?_eq added
    exact .single (.quiet ⟨#[Ring.ofCapacity _ m], Array.push_eq_append, by simp⟩ rfl rfl)
  | claim new claimed => exact .single (Engine.step_claim? h.floor.engine claimed)
  | edit held =>
    obtain ⟨r, hr, hk, -⟩ := hbooks.claimed
      ((perm_claimed h.claims held).mem_iff.2 (List.mem_cons_self ..))
    exact .single (.write hr hk fun t => .inl ⟨_, _, rfl⟩)
  | dropClaim held =>
    obtain ⟨r, hr, hk, hroom, -⟩ := hbooks.claimed
      ((perm_claimed h.claims held).mem_iff.2 (List.mem_cons_self ..))
    exact .single (.drop hr hk hroom)
  | publishClaim held =>
    obtain ⟨r, hr, hk, -, hroom⟩ := hbooks.claimed
      ((perm_claimed h.claims held).mem_iff.2 (List.mem_cons_self ..))
    exact .single (.publish hr hk hroom)
  | reduce => exact Engine.steps_reduceOldest hbooks _
  | addInbox => exact .single (Engine.step_still rfl rfl rfl)
  | nextLease free new found next =>
    have hl' := hnext _ ⟨_, _, _, _, _, rfl, found, next⟩
    obtain ⟨ring, slot, rest, r, hring, hf, hr, hs, rfl, -, rfl⟩ := Inbox.next?_cases next
    have hl : Engine.Steps id mine π W.engine (W.engine.modifyRing ring (·.lease slot)) :=
      .single (.lease hr hs hl')
    exact hl.tail (Engine.step_still rfl rfl rfl)
  | removeError held =>
    obtain ⟨r, hr, hk, -⟩ := hbooks.leased
      ((perm_leased h.leases held).mem_iff.2 (List.mem_cons_self ..))
    exact .single (.edit hr hk (fun t => .inl ⟨_, _, rfl⟩) (hheld _ _ held))
  | done held =>
    exact Engine.steps_release hbooks
      ((perm_leased h.leases held).mem_iff.2 (List.mem_cons_self ..)) (hheld _ _ held)
  | @dropLease _ l held =>
    have hn : Engine.Steps id mine π W.engine
        (W.engine.note (.leaseDropped (W.engine.shardOf l.ring) l.slot)) :=
      .single (Engine.step_still rfl rfl rfl)
    exact hn.trans (Engine.steps_release (hbooks.congr rfl)
      ((perm_leased h.leases held).mem_iff.2 (List.mem_cons_self ..)) (hheld _ _ held))
  | addDispatcher | addPlan =>
    exact .single (Engine.step_still rfl (Engine.epoch_addDispatcher _) rfl)
  | clear =>
    rw [engine_putDispatcher]
  | drawShard => exact (Engine.alike_drawShard W.engine π _).steps
  | closePlan found => exact .single (Engine.step_still rfl rfl (hsp _ found _))
  | touch => exact .single (Engine.step_still rfl rfl (hsp _))

/-! ## Dispatchers and inboxes after deeds by hand -/

/-- A changed dispatcher is the new one, or was there before. -/
lemma dispatcher?_of_update {o' : Owner} {d d' : Dispatcher ω}
    (hd : V.dispatcher? o = some d)
    (hV : V.dispatcher? = Function.update W.dispatcher? o' (some d')) :
    d = d' ∨ W.dispatcher? o = some d := by
  rw [hV, Function.update_apply] at hd
  split at hd
  · exact .inl (Option.some.inj hd).symm
  · exact .inr hd

/-- By hand a dispatcher is left as it is, or it has no execution afterwards. -/
lemma ByHand.dispatcher? (hV : W.ByHand a V) {d : Dispatcher ω} (hd : V.dispatcher? o = some d) :
    W.dispatcher? o = some d ∨ d.work = none := by
  cases hV with
  | addDispatcher =>
    rcases dispatcher?_of_update hd (dispatcher?_bind (W := W) rfl rfl) with rfl | hd
    · exact .inr rfl
    · exact .inl hd
  | clear _ found =>
    rcases dispatcher?_of_update hd (dispatcher?_putDispatcher found) with rfl | hd
    · exact .inr rfl
    · exact .inl hd
  | addPlan =>
    rcases dispatcher?_of_update hd dispatcher?_putPlan with rfl | hd
    · exact .inr rfl
    · exact .inl hd
  | _ => exact .inl hd

/-- A changed inbox is the new one, or was there before. -/
lemma inbox?_of_update {o' : Owner} {k k' : Inbox}
    (hk : V.inbox? o = some k)
    (hV : V.inbox? = Function.update W.inbox? o' (some k')) :
    o = o' ∧ k = k' ∨ o ≠ o' ∧ W.inbox? o = some k := by
  rw [hV, Function.update_apply] at hk
  split at hk
  · rename_i ho
    exact .inl ⟨ho, (Option.some.inj hk).symm⟩
  · rename_i ho
    exact .inr ⟨ho, hk⟩

/-- By hand slots are only taken from an inbox. -/
lemma ByHand.inbox? (hV : W.ByHand a V) {k : Inbox} (hk : V.inbox? o = some k) :
    k.inFlight = [] ∨
      ∃ k₀, W.inbox? o = some k₀ ∧ k.home = k₀.home ∧ k.inFlight ⊆ k₀.inFlight := by
  have same : W.inbox? o = some k → k.inFlight = [] ∨
      ∃ k₀, W.inbox? o = some k₀ ∧ k.home = k₀.home ∧ k.inFlight ⊆ k₀.inFlight :=
    fun h => .inr ⟨k, h, rfl, List.Subset.refl _⟩
  cases hV with
  | addInbox =>
    rcases inbox?_of_update hk (inbox?_bind (W := W) rfl rfl) with ⟨-, rfl⟩ | ⟨-, hk⟩
    · exact .inl rfl
    · exact same hk
  | @nextLease _ _ k₀ _ _ _ _ _ found next =>
    obtain ⟨ring, slot, rest, r, -, hf, -, -, -, rfl, -⟩ := Inbox.next?_cases next
    rcases inbox?_of_update hk (inbox?_bind (W := W) rfl rfl) with ⟨rfl, rfl⟩ | ⟨-, hk⟩
    · refine .inr ⟨k₀, found, rfl, ?_⟩
      rw [hf]
      exact List.subset_cons_self slot rest
    · exact same hk
  | addPlan =>
    rcases inbox?_of_update hk inbox?_putPlan with ⟨-, rfl⟩ | ⟨-, hk⟩
    · exact .inl rfl
    · exact same hk
  | clear =>
    rw [inbox?_putDispatcher] at hk
    exact same hk
  | _ => exact same hk

end TableScan.Workshop
