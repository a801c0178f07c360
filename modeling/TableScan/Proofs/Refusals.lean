import TableScan.Proofs.Ages
import TableScan.Proofs.Settling
import TableScan.Proofs.Tallies

/-!
# Refusals

An execution that cannot begin, because the source refuses to supply its frames.  What is in
flight of the last execution is settled before the source is asked, and all else changes only
afterwards.  Main statement, as far as it can be settled: with nothing in flight a refusal changes
nothing, and the last execution goes on; else it is left with all its slots given back, and with
nothing to publish for as long as it lasts (`Workshop.dispatch_refused`).  Where it cannot be
settled, the source is not asked, or not all comes back (`Workshop.refused_unsettled`).
-/

namespace TableScan

variable {ω σ : Type}

/-- A dispatcher with no frame left to publish. -/
def Dispatcher.Spent (d : Dispatcher ω) : Prop := d.work = none ∨ d.frameCount ≤ d.position

lemma Dispatcher.Spent.next? {d : Dispatcher ω} (h : d.Spent) (e : Engine ω) :
    d.next? e = none := by
  rcases h with hw | hp
  · simp [Dispatcher.next?, hw]
  · simp [Dispatcher.next?, Dispatcher.frameAt?, Nat.not_lt.2 hp]

/-- A round of reduction touches nothing of the hubs and of other rings. -/
lemma Engine.aside_reduceOldest (e : Engine ω) (i : Nat) :
    (e.reduceOldest i).2.hubs = e.hubs ∧
      ∀ j ≠ i, (e.reduceOldest i).2.rings[j]? = e.rings[j]? := by
  obtain ⟨f, hrings, hhubs, -⟩ := e.reduceOldest_modifies i
  exact ⟨hhubs, fun j hj => by rw [hrings, getElem?_modifyRing_ne hj]⟩

namespace Scan

variable {s s' s'' : Scan ω} {l : Lease} {collected collected' : List Nat} {i n : Nat}
  {M M' : List Lease} {C L H : List Place} {F : List Lease} {π : ω → σ}

/-! ## Settling -/

/-- What is collected and given back while a scan settles, and all that this changes beside the
rings of the scan and the world. -/
structure Collects (s s' : Scan ω) (collected : List Nat) : Prop where
  dispatcher : s'.dispatcher = s.dispatcher
  inbox : s.inbox = { s'.inbox with inFlight := collected ++ s'.inbox.inFlight }
  epoch : s'.engine.epoch = s.engine.epoch
  hubs : s'.engine.hubs = s.engine.hubs
  tally : s'.engine.tally s.inbox.id =
    { claimed := (s.engine.tally s.inbox.id).claimed + collected.length
      released := (s.engine.tally s.inbox.id).released + collected.length }
  tallies : ∀ j ≠ s.inbox.id, s'.engine.tally j = s.engine.tally j
  known : s'.engine.tallies.size = s.engine.tallies.size
  rings : ∀ j, s.dispatcher.ring ≠ some j → s.inbox.ring ≠ some j →
    s'.engine.rings[j]? = s.engine.rings[j]?

namespace Collects

lemma refl (s : Scan ω) : s.Collects s [] :=
  ⟨rfl, rfl, rfl, rfl, rfl, fun _ _ => rfl, rfl, fun _ _ _ => rfl⟩

lemma inbox_id (h : s.Collects s' collected) : s.inbox.id = s'.inbox.id := by rw [h.inbox]

lemma trans (h : s.Collects s' collected) (h' : s'.Collects s'' collected') :
    s.Collects s'' (collected ++ collected') := by
  have hid := h.inbox_id
  have hring : s.inbox.ring = s'.inbox.ring := by rw [h.inbox]
  refine ⟨h'.dispatcher.trans h.dispatcher, ?_, h'.epoch.trans h.epoch, h'.hubs.trans h.hubs, ?_,
    fun j hj => (h'.tallies j (hid ▸ hj)).trans (h.tallies j hj), h'.known.trans h.known,
    fun j hd hk => ?_⟩
  · rw [h.inbox, h'.inbox, List.append_assoc]
  · have ht := h'.tally
    rw [← hid, h.tally] at ht
    rw [ht, List.length_append, Nat.add_assoc, Nat.add_assoc]
  · exact (h'.rings j (h.dispatcher ▸ hd) (hring ▸ hk)).trans (h.rings j hd hk)

end Collects

/-- A slot is collected and given back. -/
lemma collects_next? (hid : s.inbox.id < s.engine.tallies.size)
    (hn : s.next? = .ok (some (l, s'))) : s.Collects (s'.done l) [l.slot] := by
  obtain ⟨ring, slot, rest, r, hring, hflight, -, -, rfl, rfl⟩ := next?_cases hn
  -- the tally of the inbox counts the slot twice, as leased and as given back
  have hleased : ∀ j, (s.inbox.leased s.engine ring slot).tally j = if j = s.inbox.id then
      { s.engine.tally j with claimed := (s.engine.tally j).claimed + 1 }
      else s.engine.tally j := fun j =>
    Engine.tally_modify (f := fun t => { t with claimed := t.claimed + 1 }) rfl hid j
  have htally : ∀ j,
      ((s.inbox.leased s.engine ring slot).release ⟨ring, slot, s.inbox.id⟩).tally j =
      if j = s.inbox.id then
        { claimed := (s.engine.tally j).claimed + 1, released := (s.engine.tally j).released + 1 }
      else s.engine.tally j := by
    intro j
    refine (Engine.tally_modify (e := s.inbox.leased s.engine ring slot)
      (f := fun t => { t with released := t.released + 1 }) rfl
      (by simpa [Inbox.leased] using hid) j).trans ?_
    rw [hleased]
    split <;> rfl
  refine ⟨rfl, ?_, rfl, rfl, (htally _).trans (if_pos rfl),
    fun j hj => (htally j).trans (if_neg hj), ?_, fun j _ hj => ?_⟩
  · show s.inbox = { s.inbox with inFlight := [slot] ++ rest }
    rw [List.singleton_append, ← hflight]
  · simp [Scan.done, Engine.release, Engine.putBack, Engine.modifyRing, Inbox.leased]
  · have hne : j ≠ ring := fun h => hj (h ▸ hring)
    exact (Engine.getElem?_modifyRing_ne hne).trans (Engine.getElem?_modifyRing_ne hne)

/-- A slot is reduced. -/
lemma collects_reduceOne (s : Scan ω) : s.Collects s.reduceOne.2 [] := by
  rcases s.reduceOne_snd with hr | ⟨i, hi, hr⟩ <;> rw [hr]
  · exact .refl s
  · have ht := Engine.tallies_reduceOldest s.engine i
    obtain ⟨hhubs, hrings⟩ := s.engine.aside_reduceOldest i
    refine ⟨rfl, rfl, Engine.epoch_reduceOldest .., hhubs, ?_, fun j _ => ?_,
      by rw [ht], fun j hj _ => hrings j fun hij => hj (hij ▸ hi)⟩
    · exact congrFun (Engine.tally_congr ht) _
    · exact congrFun (Engine.tally_congr ht) j

/-- A scan that settles has collected all that was in flight. -/
lemma collects_settle (hid : s.inbox.id < s.engine.tallies.size) (hs : s.settle = (.ok (), s')) :
    s.Collects s' s.inbox.inFlight := by
  fun_induction settle s with
  | case1 s hf =>
    obtain ⟨-, rfl⟩ := Prod.mk.inj hs
    exact hf ▸ .refl s
  | case3 s hf l s₁ hn ih =>
    have h := collects_next? hid hn
    have hinbox := h.inbox
    have hcollected := h.trans (ih (by rw [h.known, ← h.inbox_id]; exact hid) hs)
    rwa [show s.inbox.inFlight = [l.slot] ++ (s₁.done l).inbox.inFlight by rw [hinbox]]
  | case4 s hf hn s₁ hr ih =>
    have h := s.collects_reduceOne
    rw [hr] at h
    have hcollected := h.trans (ih (by rw [h.known, ← h.inbox_id]; exact hid) hs)
    rwa [show s.inbox.inFlight = [] ++ s₁.inbox.inFlight by rw [h.inbox]]
  | case2 | case5 => cases hs

/-- An execution that is replaced while slots are in flight is halted, and has collected them
all. -/
lemma collects_replace (hid : s.inbox.id < s.engine.tallies.size) (hf : s.inbox.inFlight ≠ [])
    (hr : s.replace = (.ok (), s')) : s.halted.Collects s' s.inbox.inFlight := by
  rw [replace, if_neg hf, drain] at hr
  have hc := collects_settle (s := (s.note (.restarted s.dispatcher.id _)).halted) hid hr
  exact ⟨hc.dispatcher, hc.inbox, hc.epoch, hc.hubs, hc.tally, hc.tallies, hc.known, hc.rings⟩

/-- A refusal ends an execution where its predecessor was settled. -/
lemma dispatch_of_refusal {source : Source ω} {failure : Failure} (hr : s.replace = (.ok (), s'))
    (hrefused : (source.supply s'.engine.world).1 = .error (.failed failure)) (hub : Nat)
    (filter : Filter ω) : s.dispatch source hub filter = (.error (.failed failure),
      { s' with engine := s'.engine.withWorld (source.supply s'.engine.world).2 }) := by
  simp only [dispatch, hr, hrefused]

/-! ## Nothing more to publish -/

/-- The epoch `n` of a dispatcher has come, and while it lasts no frame is left to publish. -/
structure Over (s : Scan ω) (n : Nat) : Prop where
  come : n ≤ s.engine.epoch s.dispatcher.id
  spent : s.engine.epoch s.dispatcher.id = n → s.dispatcher.Spent

/-- A move publishes nothing in an epoch that is over.  Only in a later one frames come again. -/
lemma Move.over (m : Move π (s, M) (s', M')) (hs : s.Sound M C L F H) (h : s.Over n) :
    s'.Over n := by
  have hid := m.sameSite.dispatcher
  have hcome : n ≤ s'.engine.epoch s'.dispatcher.id := hid ▸ h.come.trans (m.epoch_le _)
  refine ⟨hcome, fun hn => ?_⟩
  have hle := m.epoch_le s.dispatcher.id
  rw [hid] at hn
  have hspent : s.dispatcher.Spent := h.spent (by have := h.come; omega)
  -- a new epoch is a later one
  have later : s'.engine = s.engine.nextEpoch s.dispatcher.id → s'.dispatcher.Spent := by
    intro he
    have := h.come
    rw [he, Engine.epoch_nextEpoch, if_pos ⟨rfl, hs.employed.id_lt⟩] at hn
    omega
  cases m with
  | publish home done =>
    obtain ⟨ring, work, frame, slot, e, -, hwork, hframe, -, -⟩ := publishOne?_cases done
    have hnone := hspent.next? s.engine
    simp [Dispatcher.next?, hwork, hframe] at hnone
  | reduce => rwa [dispatcher_reduceOne]
  | lease done => rwa [dispatcher_next? done]
  | giveBack | epoch | alike => exact hspent
  | begin | restart => exact later rfl
  | adjust id reducer ring work =>
    rcases work with hd | hd
    · rcases hspent with hw | hp
      · exact .inl (hd.work.trans hw)
      · refine .inr ?_
        rcases hd.position with hp' | hp' <;> rw [hd.count, hp']
        exact hp
    · exact .inl hd

lemma Moves.over {x y : Scan ω × List Lease} (m : Moves π x y) (hs : x.1.Sound x.2 C L F H)
    (h : x.1.Over n) : y.1.Over n :=
  Moves.keeps (P := (·.Over n)) Move.over m hs h

end Scan

namespace Workshop

open Scan

variable {W V : Workshop ω} {H : List Place} {F : List Lease} {id n : Nat} {a : Deed ω}
  {as : List (Deed ω)} {site : Site} {s : Scan ω}

/-- The epoch `n` of a dispatcher has come, and while it lasts no frame is left to publish. -/
structure Over (W : Workshop ω) (id n : Nat) : Prop where
  come : n ≤ W.engine.epoch id
  spent : ∀ o d, W.dispatcher? o = some d → d.id = id → W.engine.epoch id = n → d.Spent

lemma Reached.aged (h : W.Reached H) : W.Aged fun _ => 0 := by
  induction h with
  | make made => exact aged_make made
  | deed _ _ ih => exact aged_after ih _

/-- Every permitted deed leaves an epoch over. -/
lemma Reached.over (hW : W.Reached H) (hp : W.Permits a) (ho : W.Over id n) :
    (W.after a).Over id n := by
  obtain ⟨F, h⟩ := hW.sound
  have hle : W.engine.epoch id ≤ (W.after a).engine.epoch id :=
    (aged_after hW.aged.now a).engine.past id
  refine ⟨ho.come.trans hle, fun o d hd hid hn => ?_⟩
  have still : W.dispatcher? o = some d → d.Spent := fun hd =>
    ho.spent o d hd hid (by have := ho.come; omega)
  cases hsite : W.site? a with
  | none => exact ((byHand_after hp hsite).dispatcher? hd).elim still .inl
  | some site =>
    rcases h.shift_unit hp hsite with hV | ⟨s, s', M, M', hshift⟩
    · rw [hV] at hd
      exact still hd
    · rcases dispatcher?_of_update hd hshift.dispatchers with rfl | hd
      · obtain ⟨N, -, hs⟩ := hshift.sound h
        obtain ⟨hsd, -, hse⟩ := scan?_eq_some_iff.1 hshift.scan
        have hsid : s.dispatcher.id = id := (Moves.sameSite hshift.moves).dispatcher.symm.trans hid
        have hover : s.Over n := by
          refine ⟨?_, fun he => ?_⟩
          · rw [← hse, hsid]
            exact ho.come
          · rw [← hse, hsid] at he
            exact ho.spent _ _ hsd hsid he
        rw [hshift.engine, ← hid] at hn
        exact (Moves.over hshift.moves hs hover).spent hn
      · exact still hd

lemma Reached.over_run (hW : W.Reached H) (hrun : Run Permits W as V) (ho : W.Over id n) :
    V.Over id n := by
  induction hrun generalizing H with
  | nil => exact ho
  | cons here _ ih => exact ih (hW.deed here) (hW.over here ho)

/-- Where the scan of a site is spent, its epoch is over. -/
lemma Sound.over (h : W.Sound F H) (hs : W.scan? site = some s) (hspent : s.dispatcher.Spent) :
    W.Over s.dispatcher.id (s.engine.epoch s.dispatcher.id) := by
  obtain ⟨hd, -, he⟩ := scan?_eq_some_iff.1 hs
  refine ⟨he ▸ Nat.le_refl _, fun o d ho hid _ => ?_⟩
  obtain rfl := h.floor.dispatchers _ _ _ _ ho hd hid
  exact Option.some.inj (ho.symm.trans hd) ▸ hspent

/-- In every workshop that can be reached by permitted deeds, an execution whose source refuses to
supply its frames fails as the source does, as far as its dispatcher can settle what is in flight to
the inbox: nothing is, or the inbox listens to the ring that the dispatcher publishes into, or all
of it was reduced already in the ring that the inbox listens to.  (What cannot be settled keeps the
source from being asked: the dispatcher waits for it without end.  Nor are deeds permitted that hand
an inbox to a dispatcher of another ring, so that what is in flight lies in the home of the inbox.)
With nothing in flight the refusal is all, but for what the source did in the world.  Else the last
execution is left halted, with all that was in flight collected and given back; wherever it stays
so, it has no frame to publish again before its dispatcher's next epoch. -/
theorem dispatch_refused (h : W.Reached H) (hs : W.scan? site = some s)
    (hsettles : s.Settles) {source : Source ω} {failure : Failure}
    (hrefused : (source.supply s.replace.2.engine.world).1 = .error (.failed failure)) (hub : Nat)
    (filter : Filter ω) :
    ∃ s', s.dispatch source hub filter = (.error (.failed failure), s') ∧
      (W.after (.dispatch site source hub filter)).scan? site = some s' ∧
      (s.inbox.inFlight = [] →
        s' = { s with engine := s.engine.withWorld (source.supply s.engine.world).2 }) ∧
      (s.inbox.inFlight ≠ [] → s.Settled s' ∧ s.halted.Collects s' s.inbox.inFlight ∧
        ∀ V V' H' as, V.Reached H' → V.scan? site = some s' → Run Permits V as V' →
          ∀ o d, V'.dispatcher? o = some d → d.id = s.dispatcher.id →
            V'.engine.epoch d.id = s.engine.epoch d.id → ∀ e, d.next? e = none) := by
  obtain ⟨F, hsound⟩ := h.sound
  have hscan : s.Sound [] W.claimed W.leased F H := hsound.scan hs (.refl _)
  obtain ⟨s₁, hr, hsettled⟩ := hscan.replace.1 hsettles
  rw [hr] at hrefused
  have hdispatch := dispatch_of_refusal hr hrefused hub filter
  refine ⟨_, hdispatch, ?_, fun hf => ?_, fun hf => ?_⟩
  · rw [Errand.dispatch.after, hs]
    dsimp only
    rw [hdispatch]
    exact (moved_putScan hs _).scan?
  · rw [replace, if_pos hf] at hr
    obtain ⟨-, rfl⟩ := Prod.mk.inj hr
    rfl
  · have hc := collects_replace hscan.fed.id_lt hf hr
    refine ⟨⟨hsettled.inFlight, hsettled.free⟩, ⟨hc.dispatcher, hc.inbox, hc.epoch, hc.hubs,
      hc.tally, hc.tallies, hc.known, hc.rings⟩, fun V V' H' as hV hs' hrun o d hd hid hn e => ?_⟩
    obtain ⟨F', hV'⟩ := hV.sound
    have hspent : s₁.dispatcher.Spent := by
      rw [hc.dispatcher]
      exact .inr (Nat.le_refl _)
    have hover := hV.over_run hrun (hV'.over hs' hspent)
    have hid₁ : s₁.dispatcher.id = d.id := by
      rw [hc.dispatcher]
      exact hid.symm
    have hn₁ : s₁.engine.epoch d.id = s.engine.epoch d.id := congrFun hc.epoch d.id
    exact (hover.spent o d hd hid₁.symm (by rw [hid₁, hn, ← hn₁]; rfl)).next? e

/-- A source that never supplies any frames. -/
def barredSource : Source Unit :=
  { schema := { columns := #[] }, supply := fun w => (.error (.failed (.source "barred")), w) }

/-- What is done until two frames of three are in flight. -/
def underway : List (Deed Unit) :=
  [.addDispatcher "d" (.filtering .ascending), .addInbox "k",
    .dispatch ⟨.own "d", .own "k"⟩ (plainSource [1, 1, 1]) 0 keepAll]

/-- The execution with two frames in flight is halted when its successor is refused. -/
theorem dispatch_refused_underway : ∃ s H, (underway.foldl after small).Reached H ∧
    (underway.foldl after small).scan? ⟨.own "d", .own "k"⟩ = some s ∧
      s.inbox.inFlight = [0, 1] ∧ s.Moored ∧
      (barredSource.supply s.replace.2.engine.world).1 = .error (.failed (.source "barred")) ∧
      ∃ s', s.dispatch barredSource 0 keepAll = (.error (.failed (.source "barred")), s') ∧
        s.Settled s' ∧ s.halted.Collects s' [0, 1] := by
  have h : (underway.foldl after small).Reached [] :=
    reached_fitted.deed (permits_fitted (plainSource [1, 1, 1]) keepAll)
  have hat : ((underway.foldl after small).scan? ⟨.own "d", .own "k"⟩).map (fun s =>
      (s.inbox.inFlight, s.dispatcher.ring, s.inbox.ring)) = some ([0, 1], some 0, some 0) := by
    decide +kernel
  obtain ⟨s, hs, hat⟩ := Option.map_eq_some_iff.1 hat
  simp only [Prod.mk.injEq] at hat
  obtain ⟨hf, hd, hk⟩ := hat
  have hmoored : s.Moored := ⟨0, hd, hk⟩
  have hrefused : (barredSource.supply s.replace.2.engine.world).1 =
      .error (.failed (.source "barred")) := rfl
  obtain ⟨s', hdispatch, -, -, hleft⟩ := dispatch_refused h hs (.inr (.inl hmoored)) hrefused 0 keepAll
  obtain ⟨hsettled, hcollects, -⟩ := hleft (by simp [hf])
  exact ⟨s, [], h, hs, hf, hmoored, rfl, s', hdispatch, hsettled, hf ▸ hcollects⟩

/-- What is done until the last frame of three is in flight to an inbox that listens to no ring. -/
def unheard : List (Deed Unit) :=
  [.addDispatcher "d" (.filtering .ascending), .addInbox "k",
    .dispatch ⟨.own "d", .own "k"⟩ (plainSource [1, 1, 1]) 0 keepAll, .reduce 0,
    .nextLease "k" "a", .done "a", .addInbox "l", .steal ⟨.own "d", .own "l"⟩]

lemma reached_unheard : ∃ H, (unheard.foldl after small).Reached H := by
  have hrun : Run Permits small unheard (unheard.foldl after small) := by
    refine .cons ?_ (.cons ?_ (.cons ?_ (.cons trivial (.cons ?_ (.cons trivial (.cons ?_
      (.cons ?_ .nil)))))))
    iterate 2 exact fun _ _ hc => nomatch hc
    · exact permits_fitted (plainSource [1, 1, 1]) keepAll
    · exact ⟨freeInbox_of_sites (s := .ofPlan "p") (by decide +kernel) nofun, by decide +kernel⟩
    · exact freeInbox_of_sites (s := .ofPlan "p") (by decide +kernel) nofun
    · exact ⟨available_of_sites (s := .ofPlan "p") (by decide +kernel) nofun nofun,
        .inl (by decide +kernel)⟩
  exact hrun.reached (fun _ _ h => h) reached_small

/-- A slot of the second ring is reduced by hand.  Then the inbox that listens there is handed to
the dispatcher of the first ring, which publishes a frame into the slot of that number. -/
def mistaken : List (Deed Unit) :=
  [.claim 1 "g", .claim 1 "h", .publishClaim "h", .reduce 1, .steal ⟨.own "p", .own "l"⟩]

/-- Two executions that are refused with the frame in flight that their dispatcher published last.
The inbox of the first one listens to no ring: the execution stalls, and its source is not asked.
The inbox of the second one listens to another ring: the execution fails as its source does, with
nothing in flight, but the frame is still published. -/
theorem refused_unsettled :
    (∃ s H, (unheard.foldl after small).Reached H ∧
      (unheard.foldl after small).scan? ⟨.own "d", .own "l"⟩ = some s ∧
        s.dispatcher.ring = some 0 ∧ s.inbox.inFlight = [0] ∧
        (s.engine.task 0 0).dispatcher = s.dispatcher.id ∧
        (s.dispatch barredSource 0 keepAll).1 = .error .stalled) ∧
      (∃ H, furnished.Reached H) ∧ Run Tolerates furnished mistaken (mistaken.foldl after furnished) ∧
        ∃ s, (mistaken.foldl after furnished).scan? ⟨.own "p", .own "l"⟩ = some s ∧
          s.dispatcher.ring = some 0 ∧ s.inbox.inFlight = [1] ∧
          (s.engine.task 0 1).dispatcher = s.dispatcher.id ∧
          (s.dispatch barredSource 0 keepAll).1 = .error (.failed (.source "barred")) ∧
          (s.dispatch barredSource 0 keepAll).2.inbox.inFlight = [] ∧
          (s.dispatch barredSource 0 keepAll).2.engine.stage? 0 1 = some .published := by
  refine ⟨?_, reached_furnished, ?_, ?_⟩
  · obtain ⟨H, h⟩ := reached_unheard
    have hat : ((unheard.foldl after small).scan? ⟨.own "d", .own "l"⟩).map (fun s =>
        (s.dispatcher.ring, s.inbox.inFlight,
          (s.engine.task 0 0).dispatcher == s.dispatcher.id,
          (s.dispatch barredSource 0 keepAll).1)) =
            some (some 0, [0], true, .error .stalled) := by decide +kernel
    obtain ⟨s, hs, hat⟩ := Option.map_eq_some_iff.1 hat
    simp only [Prod.mk.injEq, beq_iff_eq] at hat
    exact ⟨s, H, h, hs, hat⟩
  · refine .cons ?_ (.cons ?_ (.cons trivial (.cons trivial (.cons ?_ .nil))))
    · show Register.find? _ "g" = none
      decide +kernel
    · show Register.find? _ "h" = none
      decide +kernel
    · exact available_of_sites (s := .ofPlan "f") (by decide +kernel) nofun nofun
  · have hbefore : ((mistaken.foldl after furnished).scan? ⟨.own "p", .own "l"⟩).map (fun s =>
        (s.dispatcher.ring, s.inbox.inFlight,
          (s.engine.task 0 1).dispatcher == s.dispatcher.id)) = some (some 0, [1], true) := by
      decide +kernel
    have hafter : ((mistaken.foldl after furnished).scan? ⟨.own "p", .own "l"⟩).map (fun s =>
        ((s.dispatch barredSource 0 keepAll).1,
          (s.dispatch barredSource 0 keepAll).2.inbox.inFlight,
          (s.dispatch barredSource 0 keepAll).2.engine.stage? 0 1)) =
            some (.error (.failed (.source "barred")), [], some .published) := by decide +kernel
    obtain ⟨s, hs, hbefore⟩ := Option.map_eq_some_iff.1 hbefore
    rw [hs, Option.map_some, Option.some.injEq] at hafter
    simp only [Prod.mk.injEq, beq_iff_eq] at hbefore hafter
    obtain ⟨hring, hflight, htask⟩ := hbefore
    exact ⟨s, hs, hring, hflight, htask, hafter⟩

end Workshop

end TableScan
