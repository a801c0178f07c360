import Mathlib.Data.Int.CardIntervalMod
import TableScan.Proofs.Refusals
import TableScan.Proofs.Seats

/-!
# Shards

Which shards are drawn, and for whom.  The draws from a hub go round its shards in turn; a
dispatcher has one shard drawn for it, when it gets the frames of an execution for the first time,
and keeps it.  Main statement: this is so whatever is done in a workshop, and what is done at a
site publishes only in the ring that the shard has in the hub of the execution
(`Ledger.shards_in_turn`).
-/

namespace TableScan

variable {ω : Type}

/-! ## Draws -/

/-- A shard that was drawn from a hub. -/
structure Draw where
  hub : Nat
  /-- The dispatcher that it was drawn for; what is drawn by hand is for none. -/
  dispatcher : Option Nat
  shard : Option Nat
deriving DecidableEq, Repr

/-- The shards that were drawn from a hub, one after the other. -/
def Draw.shardsOf (draws : List Draw) (hub : Nat) : List (Option Nat) :=
  (draws.filter (·.hub == hub)).map (·.shard)

/-- What is drawn for a seat: its first shard. -/
def Seat.draws (x : Seat) (hub shard : Nat) : List Draw :=
  if x.shard = none then [⟨hub, some x.id, some shard⟩] else []

/-- The first `drawn` of `n` shards in turn. -/
def Draw.turns (n drawn : Nat) : List (Option Nat) := (List.range drawn).map fun m => some (m % n)

/-- The hub after one more draw. -/
def Hub.next (h : Hub) : Hub := { h with drawn := h.drawn + 1 }

/-- The hubs after some draws. -/
def Draw.counted (hubs : Array Hub) (draws : List Draw) : Array Hub :=
  draws.foldl (fun hubs draw => hubs.modify draw.hub Hub.next) hubs

/-- A seat that is in order: a shard was drawn for it if it has one, and just this one, and its
ring is that of the shard. -/
structure Seat.Fair (x : Seat) (hubs : Array Hub) (size : Nat) (draws : List Draw) : Prop where
  id_lt : x.id < size
  assigned : ∀ draw ∈ draws, draw.dispatcher = some x.id → draw.shard = x.shard
  drawn : x.shard ≠ none ↔ ∃ draw ∈ draws, draw.dispatcher = some x.id
  ring : ∀ h hub, x.hub = some h → hubs[h]? = some hub →
    ∃ shard, x.shard = some shard ∧ x.ring = some (hub.ring shard)

/-- No two dispatchers have the same number. -/
def Apart (seats : Owner → Option Seat) : Prop :=
  ∀ o o' x x', seats o = some x → seats o' = some x' → x.id = x'.id → o = o'

/-- What was drawn is in order: it is what the hubs have counted since they were laid out, it went
round the shards of each hub, and all seats are in order. -/
structure Fair (laid hubs : Array Hub) (size : Nat) (seats : Owner → Option Seat)
    (draws : List Draw) : Prop where
  counted : hubs = Draw.counted laid draws
  turns : ∀ h hub, hubs[h]? = some hub → Draw.shardsOf draws h = Draw.turns hub.shards hub.drawn
  known : ∀ draw ∈ draws, ∀ id, draw.dispatcher = some id → id < size
  each : ∀ o x, seats o = some x → x.Fair hubs size draws
  apart : Apart seats

variable {laid hubs : Array Hub} {size h shard : Nat} {seats : Owner → Option Seat}
  {draws : List Draw} {o : Owner} {x x' : Seat} {who : Option Nat}

lemma Draw.shardsOf_append (draws draws' : List Draw) (hub : Nat) :
    shardsOf (draws ++ draws') hub = shardsOf draws hub ++ shardsOf draws' hub := by
  rw [shardsOf, List.filter_append, List.map_append, ← shardsOf, ← shardsOf]

lemma Draw.turns_succ (n drawn : Nat) :
    Draw.turns n (drawn + 1) = Draw.turns n drawn ++ [some (drawn % n)] := by
  rw [turns, List.range_succ, List.map_append, List.map_singleton, ← turns]

lemma Draw.counted_append_singleton (hubs : Array Hub) (draws : List Draw) (draw : Draw) :
    counted hubs (draws ++ [draw]) = (counted hubs draws).modify draw.hub Hub.next := by
  rw [counted, List.foldl_append, ← counted]
  rfl

lemma Draw.count_turns (n drawn shard : Nat) (h : shard < n) :
    (turns n drawn).count (some shard) = drawn.count (· ≡ shard [MOD n]) := by
  induction drawn with
  | zero => rfl
  | succ drawn ih =>
    have hmod : drawn ≡ shard [MOD n] ↔ drawn % n = shard := by
      rw [Nat.ModEq, Nat.mod_eq_of_lt h]
    rw [turns_succ, List.count_append, ih, Nat.count_succ, List.count_singleton]
    simp [hmod]

/-- Whatever was drawn in turn, no shard was drawn more than once more often than another. -/
lemma Draw.count_turns_le {n s s' : Nat} (drawn : Nat) (hs : s < n) (hs' : s' < n) :
    (turns n drawn).count (some s) ≤ (turns n drawn).count (some s') + 1 := by
  have hn : 0 < n := Nat.zero_lt_of_lt hs
  rw [count_turns n drawn s hs, count_turns n drawn s' hs', Nat.count_modEq_card drawn hn,
    Nat.count_modEq_card drawn hn]
  split <;> split <;> omega

/-- The hubs after a draw have the same rings. -/
lemma getElem?_modify_next {i : Nat} {b' : Hub} (hb : (hubs.modify h Hub.next)[i]? = some b') :
    ∃ b, hubs[i]? = some b ∧ b'.ring = b.ring ∧ b' = if h = i then b.next else b := by
  rw [Array.getElem?_modify] at hb
  by_cases hi : h = i
  · rw [if_pos hi] at hb
    obtain ⟨b, hold, rfl⟩ := Option.map_eq_some_iff.1 hb
    exact ⟨b, hold, rfl, (if_pos hi).symm⟩
  · rw [if_neg hi] at hb
    exact ⟨b', hb, rfl, (if_neg hi).symm⟩

namespace Seat.Fair

/-- A seat for which nothing is drawn stays in order. -/
lemma draw (hx : x.Fair hubs size draws) (hwho : who ≠ some x.id) :
    x.Fair (hubs.modify h Hub.next) size (draws ++ [⟨h, who, some shard⟩]) where
  id_lt := hx.id_lt
  assigned draw hd hid := by
    rcases List.mem_append.1 hd with hd | hd
    · exact hx.assigned draw hd hid
    · obtain rfl := List.mem_singleton.1 hd
      exact absurd hid hwho
  drawn := by
    simp only [hx.drawn, List.mem_append, List.mem_singleton]
    constructor
    · rintro ⟨draw, hd, hid⟩
      exact ⟨draw, .inl hd, hid⟩
    · rintro ⟨draw, hd | rfl, hid⟩
      · exact ⟨draw, hd, hid⟩
      · exact absurd hid hwho
  ring i b hi hb := by
    obtain ⟨b, hb, hring, -⟩ := getElem?_modify_next hb
    rw [hring]
    exact hx.ring i b hi hb

/-- The first shard that is drawn for a seat. -/
lemma first (hx : x.Fair hubs size draws) (hnone : x.shard = none) :
    Seat.Fair { x with shard := some shard } (hubs.modify h Hub.next) size
      (draws ++ [⟨h, some x.id, some shard⟩]) where
  id_lt := hx.id_lt
  assigned draw hd hid := by
    rcases List.mem_append.1 hd with hd | hd
    · exact absurd hnone (hx.drawn.2 ⟨draw, hd, hid⟩)
    · rw [List.mem_singleton.1 hd]
  drawn := ⟨fun _ => ⟨_, List.mem_append_right _ (List.mem_singleton_self _), rfl⟩, fun _ => nofun⟩
  ring i b hi hb := by
    -- a dispatcher that is at a hub has a shard
    obtain ⟨b, hb, -, -⟩ := getElem?_modify_next hb
    obtain ⟨s, hs, -⟩ := hx.ring i b hi hb
    exact absurd (hs.symm.trans hnone) (Option.some_ne_none s)

/-- A seat in the ring of its shard. -/
lemma sit (hx : x.Fair hubs size draws) {ring : Nat} (hring : ∀ b, hubs[h]? = some b →
      ∃ shard, x.shard = some shard ∧ ring = b.ring shard) :
    Seat.Fair { x with hub := some h, ring := some ring } hubs size draws where
  id_lt := hx.id_lt
  assigned := hx.assigned
  drawn := hx.drawn
  ring i b hi hb := by
    obtain rfl : h = i := Option.some.inj hi
    obtain ⟨s, hs, rfl⟩ := hring b hb
    exact ⟨s, hs, rfl⟩

end Seat.Fair

namespace Apart

lemma update (hs : Apart seats) (hx : seats o = some x) (hid : x'.id = x.id) :
    Apart (Function.update seats o (some x')) := by
  have hold : ∀ o' y, Function.update seats o (some x') o' = some y →
      ∃ z, seats o' = some z ∧ z.id = y.id := by
    intro o' y hy
    rw [Function.update_apply] at hy
    split at hy
    · rename_i ho
      exact ⟨x, ho ▸ hx, hid.symm.trans (congrArg _ (Option.some.inj hy))⟩
    · exact ⟨y, hy, rfl⟩
  intro o₁ o₂ y₁ y₂ h₁ h₂ hy
  obtain ⟨z₁, hz₁, hid₁⟩ := hold o₁ y₁ h₁
  obtain ⟨z₂, hz₂, hid₂⟩ := hold o₂ y₂ h₂
  exact hs o₁ o₂ z₁ z₂ hz₁ hz₂ (hid₁.trans (hy.trans hid₂.symm))

lemma new (hs : Apart seats) (hnew : ∀ o' y, seats o' = some y → y.id ≠ x.id) :
    Apart (Function.update seats o (some x)) := by
  intro o₁ o₂ y₁ y₂ h₁ h₂ hy
  rw [Function.update_apply] at h₁ h₂
  split at h₁ <;> split at h₂
  · rename_i ho₁ ho₂
    exact ho₁.trans ho₂.symm
  · exact absurd (hy.symm.trans (congrArg _ (Option.some.inj h₁).symm)) (hnew o₂ y₂ h₂)
  · exact absurd (hy.trans (congrArg _ (Option.some.inj h₂).symm)) (hnew o₁ y₁ h₁)
  · exact hs o₁ o₂ y₁ y₂ h₁ h₂ hy

end Apart

namespace Fair

lemma counted_draw (hf : Fair laid hubs size seats draws) :
    hubs.modify h Hub.next = Draw.counted laid (draws ++ [⟨h, who, some shard⟩]) := by
  rw [Draw.counted_append_singleton, ← hf.counted]

/-- The hubs go on in turn. -/
lemma turns_draw (hf : Fair laid hubs size seats draws)
    (hshard : ∀ b, hubs[h]? = some b → shard = b.drawn % b.shards) (i : Nat) (b : Hub)
    (hb : (hubs.modify h Hub.next)[i]? = some b) :
    Draw.shardsOf (draws ++ [⟨h, who, some shard⟩]) i = Draw.turns b.shards b.drawn := by
  obtain ⟨b, hold, -, rfl⟩ := getElem?_modify_next hb
  rw [Draw.shardsOf_append, hf.turns i b hold]
  by_cases hi : h = i
  · subst hi
    rw [if_pos rfl, hshard b hold, Hub.next, Draw.turns_succ]
    simp [Draw.shardsOf]
  · simp [Draw.shardsOf, hi]

/-- A shard is drawn by hand. -/
lemma byHand (hf : Fair laid hubs size seats draws)
    (hshard : ∀ b, hubs[h]? = some b → shard = b.drawn % b.shards) :
    Fair laid (hubs.modify h Hub.next) size seats (draws ++ [⟨h, none, some shard⟩]) where
  counted := hf.counted_draw
  turns := hf.turns_draw hshard
  known draw hd id hid := by
    rcases List.mem_append.1 hd with hd | hd
    · exact hf.known draw hd id hid
    · rw [List.mem_singleton.1 hd] at hid
      cases hid
  each o x hx := (hf.each o x hx).draw nofun
  apart := hf.apart

/-- A seat is replaced by another one of the same dispatcher. -/
lemma update (hf : Fair laid hubs size seats draws) (hx : seats o = some x) (hid : x'.id = x.id)
    (hx' : x'.Fair hubs size draws) : Fair laid hubs size (Function.update seats o (some x')) draws where
  counted := hf.counted
  turns := hf.turns
  known := hf.known
  each o' y hy := by
    rw [Function.update_apply] at hy
    split at hy
    · exact Option.some.inj hy ▸ hx'
    · exact hf.each o' y hy
  apart := hf.apart.update hx hid

/-- A dispatcher takes the seat in the ring of its shard. -/
lemma sit (hf : Fair laid hubs size (Function.update seats o (some x)) draws) {ring : Nat}
    (hring : ∀ b, hubs[h]? = some b → ∃ shard, x.shard = some shard ∧ ring = b.ring shard) :
    Fair laid hubs size (Function.update seats o (some { x with hub := some h, ring := some ring }))
      draws := by
  have hx : Function.update seats o (some x) o = some x := Function.update_self ..
  have hsit : Fair laid hubs size (Function.update (Function.update seats o (some x)) o
      (some { x with hub := some h, ring := some ring })) draws :=
    hf.update hx rfl ((hf.each o x hx).sit hring)
  rwa [Function.update_idem] at hsit

/-- The first shard is drawn for a dispatcher. -/
lemma first (hf : Fair laid hubs size seats draws) (hx : seats o = some x) (hnone : x.shard = none)
    (hshard : ∀ b, hubs[h]? = some b → shard = b.drawn % b.shards) :
    Fair laid (hubs.modify h Hub.next) size
      (Function.update seats o (some { x with shard := some shard }))
      (draws ++ [⟨h, some x.id, some shard⟩]) where
  counted := hf.counted_draw
  turns := hf.turns_draw hshard
  known draw hd id hid := by
    rcases List.mem_append.1 hd with hd | hd
    · exact hf.known draw hd id hid
    · rw [List.mem_singleton.1 hd] at hid
      exact Option.some.inj hid ▸ (hf.each o x hx).id_lt
  each o' y hy := by
    rw [Function.update_apply] at hy
    split at hy
    · exact Option.some.inj hy ▸ (hf.each o x hx).first hnone
    · rename_i ho
      exact (hf.each o' y hy).draw fun hid => ho (hf.apart o' o y x hy hx (Option.some.inj hid).symm)
  apart := hf.apart.update hx rfl

/-- A dispatcher is employed. -/
lemma employ (hf : Fair laid hubs size seats draws) (o : Owner) :
    Fair laid hubs (size + 1) (Function.update seats o (some ⟨size, none, none, none⟩)) draws where
  counted := hf.counted
  turns := hf.turns
  known draw hd id hid := Nat.lt_succ_of_lt (hf.known draw hd id hid)
  each o' y hy := by
    rw [Function.update_apply] at hy
    split at hy
    · obtain rfl := Option.some.inj hy
      have hnew : ∀ draw ∈ draws, draw.dispatcher ≠ some size := fun draw hd hid =>
        Nat.lt_irrefl _ (hf.known draw hd size hid)
      exact ⟨Nat.lt_succ_self _, fun draw hd hid => absurd hid (hnew draw hd),
        ⟨fun hs => absurd rfl hs, fun ⟨draw, hd, hid⟩ => absurd hid (hnew draw hd)⟩, nofun⟩
    · have hy := hf.each o' y hy
      exact ⟨Nat.lt_succ_of_lt hy.id_lt, hy.assigned, hy.drawn, hy.ring⟩
  apart := hf.apart.new fun o' y hy hid => Nat.lt_irrefl _ (hid ▸ (hf.each o' y hy).id_lt)

end Fair

/-! ## Launches -/

namespace Engine

variable (e : Engine ω) (hub : Nat)

lemma hubs_drawShard : (e.drawShard hub).2.hubs = e.hubs.modify hub Hub.next := by
  unfold drawShard
  split
  · rfl
  · rename_i hnone
    refine Array.ext_getElem? fun i => ?_
    rw [Array.getElem?_modify]
    split
    · rename_i hi
      rw [← hi, hnone, Option.map_none]
    · rfl

lemma fst_drawShard {b : Hub} (hb : e.hubs[hub]? = some b) :
    (e.drawShard hub).1 = b.drawn % b.shards := by
  simp only [drawShard, hb]

end Engine

namespace Workshop

variable {W U V : Workshop ω} {R : Nat → Prop} {site : Site} {s : Scan ω}

/-- What was drawn in a workshop is in order. -/
def Fair (W : Workshop ω) (laid : Array Hub) (draws : List Draw) : Prop :=
  TableScan.Fair laid W.engine.hubs W.engine.epochs.size W.seat? draws

lemma Calm.fair (h : W.Calm R V) (hf : W.Fair laid draws) : V.Fair laid draws := by
  unfold Fair
  rw [h.engine.hubs, h.engine.size, h.seats]
  exact hf

/-- The shard of a dispatcher is drawn, unless it has one. -/
lemma fair_drawShard (hf : W.Fair laid draws) (hs : W.seat? o = some s.dispatcher.seat)
    (hhubs : s.engine.hubs = W.engine.hubs) (hsize : s.engine.epochs.size = W.engine.epochs.size)
    {hub : Nat} {t : Scan ω} (hdraw : s.drawShard hub = (shard, t)) :
    t.dispatcher.seat = { s.dispatcher.seat with shard := some shard } ∧
    TableScan.Fair laid t.engine.hubs t.engine.epochs.size
      (Function.update W.seat? o (some t.dispatcher.seat))
      (draws ++ s.dispatcher.seat.draws hub shard) := by
  cases hsh : s.dispatcher.shard with
  | some sh =>
    have hsome : s.dispatcher.seat.shard ≠ none := fun hc => nomatch hsh.symm.trans hc
    rw [Scan.drawShard_of_some hsh] at hdraw
    obtain ⟨rfl, rfl⟩ := Prod.mk.inj hdraw
    have hsame : Function.update W.seat? o (some s.dispatcher.seat) = W.seat? := by
      rw [← hs, Function.update_eq_self]
    rw [hsame, Seat.draws, if_neg hsome, List.append_nil, hhubs, hsize, ← hsh]
    exact ⟨rfl, hf⟩
  | none =>
    have hnone : s.dispatcher.seat.shard = none := hsh
    rw [Scan.drawShard_of_none hsh] at hdraw
    obtain ⟨rfl, rfl⟩ := Prod.mk.inj hdraw
    rw [Seat.draws, if_pos hnone, Engine.hubs_drawShard,
      (Engine.alike_drawShard s.engine id hub).epochs, hhubs, hsize]
    exact ⟨rfl, hf.first hs hnone fun b hb => Engine.fst_drawShard _ hub (hhubs.symm ▸ hb)⟩

/-- A dispatch that gets its frames opened draws a shard for a dispatcher that has none. -/
lemma fair_dispatch (hf : W.Fair laid draws) (hs : W.scan? site = some s) {source : Source ω}
    {hub : Nat} {filter : Filter ω} {s' : Scan ω} (hopen : s.opensFrames source = true)
    (hd : (s.dispatch source hub filter).2 = s') (hmoved : W.Moved U site s') :
    ∃ shard, s'.dispatcher.shard = some shard ∧
      U.Fair laid (draws ++ s.dispatcher.seat.draws hub shard) := by
  obtain ⟨hdisp, -, hengine⟩ := scan?_eq_some_iff.1 hs
  obtain ⟨t, frames, m, hlaunch⟩ := Scan.dispatch_opened (R := fun _ => True) hopen hub filter
  rcases hdraw : t.nextEpoch.drawShard hub with ⟨shard, u⟩
  have m' : s.Motions (fun _ => True) t.nextEpoch := m.tail .epoch
  have hseat : W.seat? site.dispatcher = some t.nextEpoch.dispatcher.seat := by
    rw [m'.seat, seat?, hdisp, Option.map_some]
  obtain ⟨hu, hfair⟩ := fair_drawShard hf hseat (m'.calm.hubs.trans (hengine ▸ rfl))
    (m'.calm.size.trans (hengine ▸ rfl)) hdraw
  obtain ⟨hcalm, hsit⟩ := Scan.calm_launch t source hub filter frames hdraw
  rw [← hlaunch, hd] at hcalm hsit
  rw [m'.seat] at hu hfair
  have hshard : u.dispatcher.seat.shard = some shard := congrArg Seat.shard hu
  unfold Fair
  rw [hmoved.engine, hcalm.hubs, hcalm.size, seat?_update hmoved.dispatchers]
  rcases hsit with hsit | hsit
  · exact ⟨shard, (congrArg Seat.shard hsit).trans hshard, hsit ▸ hfair⟩
  · refine ⟨shard, (congrArg Seat.shard hsit).trans hshard, ?_⟩
    rw [hsit]
    exact hfair.sit fun b hb => ⟨shard, hshard, by simp only [Scan.ringOf, hb]⟩

/-! ## What a deed draws -/

variable {a : Deed ω}

/-- The execution that a deed starts, with its dispatcher, if it gets its frames opened. -/
def opened? (W : Workshop ω) (a : Deed ω) : Option (Execution ω × Dispatcher ω) := do
  let x ← W.execution? a
  let s ← W.scan? x.site
  if s.opensFrames x.source then some (x, s.dispatcher) else none

/-- The shard that an execution draws for its dispatcher, which has not been among those seated
before. -/
def firstDraw? (W : Workshop ω) (seated : List Nat) (a : Deed ω) : Option Draw := do
  let (x, d) ← W.opened? a
  if d.id ∈ seated then none
  else some ⟨x.hub, some d.id, ((W.after a).dispatcher? x.site.dispatcher).bind (·.shard)⟩

/-- The shard that a deed draws. -/
def draw? (W : Workshop ω) (seated : List Nat) : Deed ω → Option Draw
  | .drawShard hub => some ⟨hub, none, ((Session.drawShard hub).on W).1.toOption⟩
  | a => W.firstDraw? seated a

lemma draw?_eq {seated : List Nat} (h : ∀ hub, a ≠ .drawShard hub) :
    W.draw? seated a = W.firstDraw? seated a := by
  cases a with
  | drawShard hub => exact absurd rfl (h hub)
  | _ => rfl

lemma draw?_eq_none {seated : List Nat} (h : ∀ hub, a ≠ .drawShard hub)
    (ho : W.opened? a = none) : W.draw? seated a = none := by
  rw [draw?_eq h, firstDraw?, ho]
  rfl

lemma site?_of_execution? {x : Execution ω} (hx : W.execution? a = some x) :
    W.site? a = some x.site := by
  cases a with
  | dispatch =>
    obtain rfl := Option.some.inj hx
    rfl
  | execute | openCursor =>
    obtain ⟨p, -, rfl⟩ := Option.map_eq_some_iff.1 hx
    rfl
  | _ => cases hx

lemma opened?_eq_none (h : ∀ x, W.execution? a = some x → W.scan? x.site = none) :
    W.opened? a = none := by
  cases hx : W.execution? a with
  | none => rw [opened?, hx, Option.bind_eq_bind, Option.bind_none]
  | some x => rw [opened?, hx, Option.bind_eq_bind, Option.bind_some, h x hx]; rfl

lemma opened?_eq {x : Execution ω} (hx : W.execution? a = some x) (hs : W.scan? x.site = some s) :
    W.opened? a = if s.opensFrames x.source then some (x, s.dispatcher) else none := by
  rw [opened?, hx, Option.bind_eq_bind, Option.bind_some, hs]
  rfl

/-- The dispatchers that are seated have a shard. -/
lemma mem_seated (hf : W.Fair laid draws) {d : Dispatcher ω} (hd : W.dispatcher? o = some d) :
    d.id ∈ draws.filterMap (·.dispatcher) ↔ d.shard ≠ none := by
  have hseat : W.seat? o = some d.seat := by rw [seat?, hd, Option.map_some]
  rw [List.mem_filterMap]
  exact (hf.each _ _ hseat).drawn.symm

/-- The first shard of the dispatcher of an execution is drawn. -/
lemma firstDraw?_of_opened {x : Execution ω} (hf : W.Fair laid draws)
    (hd : W.dispatcher? o = some s.dispatcher) (ho : W.opened? a = some (x, s.dispatcher))
    (hshard : ((W.after a).dispatcher? x.site.dispatcher).bind (·.shard) = some shard) :
    (W.firstDraw? (draws.filterMap (·.dispatcher)) a).toList =
      s.dispatcher.seat.draws x.hub shard := by
  have hdrawn := mem_seated hf hd
  simp only [firstDraw?, ho, Option.bind_eq_bind, Option.bind_some, hshard, Seat.draws]
  by_cases hnone : s.dispatcher.seat.shard = none
  · rw [if_pos hnone, if_neg fun h => hdrawn.1 h hnone]
    rfl
  · rw [if_neg hnone, if_pos (hdrawn.2 hnone)]
    rfl

lemma dispatcher?_of_opened? {x : Execution ω} {d : Dispatcher ω}
    (h : W.opened? a = some (x, d)) : ∃ o, W.dispatcher? o = some d := by
  simp only [opened?, Option.bind_eq_bind, Option.bind_eq_some_iff] at h
  obtain ⟨y, -, s, hs, h⟩ := h
  split at h
  · obtain ⟨rfl, rfl⟩ := Prod.mk.inj (Option.some.inj h)
    exact ⟨_, (scan?_eq_some_iff.1 hs).1⟩
  · cases h

/-- Whatever is done, what is drawn stays in order. -/
lemma fair_after (hf : W.Fair laid draws) (a : Deed ω) :
    (W.after a).Fair laid (draws ++ (W.draw? (draws.filterMap (·.dispatcher)) a).toList) := by
  cases W.comesTo_after a with
  | draw deed engine dispatchers =>
    subst deed
    unfold Fair seat?
    rw [engine, dispatchers, Engine.hubs_drawShard, (Engine.alike_drawShard W.engine id _).epochs]
    exact hf.byHand fun b hb => Engine.fst_drawShard _ _ hb
  | @employ o d byHand undrawn new idle rings hubs epochs dispatchers =>
    have ho : W.opened? a = none := opened?_eq_none fun x hx =>
      absurd (byHand.symm.trans (site?_of_execution? hx)) nofun
    rw [draw?_eq_none undrawn ho, Option.toList_none, List.append_nil]
    unfold Fair
    rw [hubs, epochs, Array.size_push, seat?_update dispatchers, new]
    exact hf.employ o
  | @execute x s s' U deed site scan dispatched moved motions =>
    have hcalm : U.Calm (s'.dispatcher.ring = some ·) (W.after a) := motions.calm
    have hne : ∀ hub, a ≠ .drawShard hub := fun hub h => by
      rw [h] at deed
      cases deed
    have ho := opened?_eq deed scan
    cases hopen : s.opensFrames x.source with
    | false =>
      rw [hopen] at ho
      rw [draw?_eq_none hne ho, Option.toList_none, List.append_nil]
      have hU : W.Calm (fun _ => True) U :=
        (moved.motions scan (dispatched ▸ Scan.motions_dispatch hopen x.hub x.filter)).calm
      exact hcalm.fair (hU.fair hf)
    | true =>
      rw [hopen, if_pos rfl] at ho
      obtain ⟨shard, hshard, hfair⟩ := fair_dispatch hf scan hopen dispatched moved
      obtain ⟨d, hd, hd'⟩ := Option.map_eq_some_iff.1 (moved.seat? hcalm)
      have hdrawn : ((W.after a).dispatcher? x.site.dispatcher).bind (·.shard) = some shard := by
        rw [hd, Option.bind_some, ← hshard]
        exact congrArg Seat.shard hd'
      rw [draw?_eq hne, firstDraw?_of_opened hf (scan?_eq_some_iff.1 scan).1 ho hdrawn]
      exact hcalm.fair hfair
  | motions undrawn idle motions =>
    rw [draw?_eq_none undrawn (opened?_eq_none idle), Option.toList_none, List.append_nil]
    exact motions.calm.fair hf

/-- A deed that neither draws by hand nor gets frames opened for a dispatcher without a shard draws
nothing. -/
lemma draw?_of_spared (hf : W.Fair laid draws) (hdraw : ∀ hub, a ≠ .drawShard hub)
    (hopen : ∀ x d, W.opened? a = some (x, d) → d.shard ≠ none) :
    W.draw? (draws.filterMap (·.dispatcher)) a = none := by
  cases ho : W.opened? a with
  | none => exact draw?_eq_none hdraw ho
  | some p =>
    obtain ⟨x, d⟩ := p
    obtain ⟨o, hd⟩ := dispatcher?_of_opened? ho
    rw [draw?_eq hdraw]
    simp only [firstDraw?, ho, Option.bind_eq_bind, Option.bind_some]
    exact if_pos ((mem_seated hf hd).2 (hopen x d ho))

lemma fair_make {world : ω} {settings : List Settings}
    (made : Workshop.make? world settings = .ok W) : W.Fair W.engine.hubs [] := by
  have hub : ∀ (e : Engine ω) (s : Settings) n e', (∀ h ∈ e.hubs, h.drawn = 0) →
      e.addHub? s = .ok (n, e') → ∀ h ∈ e'.hubs, h.drawn = 0 := by
    intro e s n e' he ha h hh
    obtain ⟨capacity, rfl⟩ := Engine.addHub?_eq ha
    rcases Array.mem_push.1 hh with hh | rfl
    · exact he h hh
    · rfl
  obtain ⟨e, rfl, he⟩ := made_of_hubs made (fun _ h => nomatch h) hub
  have hseats : ∀ o x, Workshop.seat? ({ engine := e } : Workshop ω) o ≠ some x := by
    intro o x
    cases o <;> nofun
  refine ⟨rfl, fun h hub hh => ?_, nofun, fun o x hx => absurd hx (hseats o x),
    fun o _ x _ hx => absurd hx (hseats o x)⟩
  rw [he hub (Array.mem_of_getElem? hh)]
  rfl

end Workshop

/-! ## Runs -/

/-- A workshop, and what was drawn in it. -/
structure Ledger (ω : Type) where
  workshop : Workshop ω
  draws : List Draw := []

namespace Ledger

variable {L : Ledger ω} {W V : Workshop ω}

/-- Does a deed, and enters what it draws. -/
def after (L : Ledger ω) (a : Deed ω) : Ledger ω where
  workshop := L.workshop.after a
  draws := L.draws ++ (L.workshop.draw? (L.draws.filterMap (·.dispatcher)) a).toList

/-- What is drawn while some deeds are done, one after the other. -/
def ofDeeds (W : Workshop ω) (as : List (Deed ω)) : Ledger ω :=
  as.foldl after { workshop := W }

lemma workshop_foldl (L : Ledger ω) (as : List (Deed ω)) :
    (as.foldl after L).workshop = as.foldl Workshop.after L.workshop := by
  induction as generalizing L with
  | nil => rfl
  | cons a as ih => exact ih (L.after a)

lemma draws_foldl (L : Ledger ω) (as : List (Deed ω)) : L.draws <+: (as.foldl after L).draws := by
  induction as generalizing L with
  | nil => exact List.prefix_refl _
  | cons a as ih => exact (List.prefix_append ..).trans (ih (L.after a))

lemma fair_foldl (h : L.workshop.Fair laid L.draws) (as : List (Deed ω)) :
    (as.foldl after L).workshop.Fair laid (as.foldl after L).draws := by
  induction as generalizing L with
  | nil => exact h
  | cons a as ih => exact ih (Workshop.fair_after h a)

/-- Shards are drawn in turn.  The shards that were drawn from a hub are `0`, `1`, … modulo their
number, so that they were drawn equally often up to one.  Deeds that get no frames opened, or do so
for a dispatcher that has a shard, draw none, unless this is done by hand.  A dispatcher has the
shard that was drawn for it, and keeps it; and what is done at a site claims and publishes slots
only in the ring that this shard has in the hub of the execution there. -/
theorem shards_in_turn {world : ω} {settings : List Settings} {as : List (Deed ω)}
    (made : Workshop.make? world settings = .ok W) (hL : ofDeeds W as = ⟨V, draws⟩) :
    V = as.foldl Workshop.after W ∧
    (∀ h hub, V.engine.hubs[h]? = some hub →
      Draw.shardsOf draws h = Draw.turns hub.shards hub.drawn ∧
      ∀ s < hub.shards, ∀ s' < hub.shards,
        (Draw.shardsOf draws h).count (some s) ≤ (Draw.shardsOf draws h).count (some s') + 1) ∧
    (∀ a, (∀ hub, a ≠ .drawShard hub) → (∀ x d, V.opened? a = some (x, d) → d.shard ≠ none) →
      (V.after a).engine.hubs = V.engine.hubs) ∧
    (∀ o d, V.dispatcher? o = some d →
      (d.shard ≠ none ↔ ∃ draw ∈ draws, draw.dispatcher = some d.id) ∧
      (∀ draw ∈ draws, draw.dispatcher = some d.id → draw.shard = d.shard) ∧
      (d.shard ≠ none → ∀ (bs : List (Deed ω)) o' d',
        (bs.foldl Workshop.after V).dispatcher? o' = some d' → d'.id = d.id →
          d'.shard = d.shard)) ∧
    (∀ a site d, V.site? a = some site → (V.after a).dispatcher? site.dispatcher = some d →
      V.engine.RestsOutside (d.ring = some ·) (V.after a).engine ∧
      ∀ h hub, d.hub = some h → (V.after a).engine.hubs[h]? = some hub →
        ∃ s, d.shard = some s ∧ d.ring = some (hub.ring s)) := by
  -- also after any deeds to come: a shard that is assigned stays assigned
  have hfold : ∀ bs : List (Deed ω), (bs.foldl after ⟨V, draws⟩).workshop.Fair W.engine.hubs
      (bs.foldl after ⟨V, draws⟩).draws := by
    intro bs
    rw [← hL, ofDeeds, ← List.foldl_append]
    exact fair_foldl (Workshop.fair_make made) (as ++ bs)
  have hV : V.Fair W.engine.hubs draws := hfold []
  refine ⟨?_, fun h hub hh => ⟨hV.turns h hub hh, fun s hs s' hs' => ?_⟩, fun a hdraw hopen => ?_,
    fun o d hd => ?_, fun a site d ha hd => ⟨Workshop.rests_after ha hd, ?_⟩⟩
  · rw [← workshop_foldl { workshop := W } as, ← ofDeeds, hL]
  · rw [hV.turns h hub hh]
    exact Draw.count_turns_le _ hs hs'
  · have hafter := (Workshop.fair_after hV a).counted
    rw [Workshop.draw?_of_spared hV hdraw hopen, Option.toList_none, List.append_nil] at hafter
    exact hafter.trans hV.counted.symm
  · have hseat : V.seat? o = some d.seat := by rw [Workshop.seat?, hd, Option.map_some]
    have hfair := hV.each o d.seat hseat
    refine ⟨hfair.drawn, hfair.assigned, fun hsome bs o' d' hd' hid => ?_⟩
    obtain ⟨draw, hdraw, hwho⟩ := hfair.drawn.1 hsome
    have hlater := (draws_foldl ⟨V, draws⟩ bs).subset hdraw
    rw [← workshop_foldl ⟨V, draws⟩ bs] at hd'
    have hseat' : (bs.foldl after ⟨V, draws⟩).workshop.seat? o' = some d'.seat := by
      rw [Workshop.seat?, hd', Option.map_some]
    have hwho' : draw.dispatcher = some d'.id := hid ▸ hwho
    have hlater := ((hfold bs).each o' d'.seat hseat').assigned draw hlater hwho'
    exact hlater.symm.trans (hfair.assigned draw hdraw hwho)
  · have hseat : (V.after a).seat? site.dispatcher = some d.seat := by
      rw [Workshop.seat?, hd, Option.map_some]
    exact ((Workshop.fair_after hV a).each _ d.seat hseat).ring

open Workshop in
/-- The first dispatch gets no frames opened.  The second dispatcher is the first one to draw then;
another dispatch leaves it its shard. -/
def rounds : List (Deed Unit) :=
  [.addDispatcher "d" (.filtering .ascending), .addInbox "k",
    .addDispatcher "e" (.filtering .ascending), .addInbox "l",
    .dispatch ⟨.own "d", .own "k"⟩ barredSource 0 keepAll,
    .dispatch ⟨.own "e", .own "l"⟩ (plainSource [1]) 0 keepAll, .drawShard 0,
    .dispatch ⟨.own "d", .own "k"⟩ (plainSource [1, 1, 1]) 0 keepAll,
    .dispatch ⟨.own "e", .own "l"⟩ (plainSource []) 0 keepAll, .drawShard 0]

/-- Two dispatchers and two draws by hand go round two shards twice. -/
theorem shards_in_turn_rounds :
    (ofDeeds Workshop.paired rounds).draws =
      [⟨0, some 2, some 0⟩, ⟨0, none, some 1⟩, ⟨0, some 1, some 0⟩, ⟨0, none, some 1⟩] ∧
    Draw.shardsOf (ofDeeds Workshop.paired rounds).draws 0 = Draw.turns 2 4 ∧
    (∀ (bs : List (Deed Unit)) o d,
      (bs.foldl Workshop.after (ofDeeds Workshop.paired rounds).workshop).dispatcher? o = some d →
        d.id = 2 → d.shard = some 0) ∧
    (ofDeeds Workshop.paired rounds).workshop.engine.RestsOutside (some 0 = some ·)
      ((ofDeeds Workshop.paired rounds).workshop.after (.steal ⟨.own "d", .own "k"⟩)).engine := by
  have hledger : ofDeeds Workshop.paired rounds =
      ⟨(ofDeeds Workshop.paired rounds).workshop, (ofDeeds Workshop.paired rounds).draws⟩ := rfl
  obtain ⟨-, hturns, -, hkept, hrests⟩ := shards_in_turn Workshop.made_paired hledger
  have hhub : (ofDeeds Workshop.paired rounds).workshop.engine.hubs[0]? =
      some { firstRing := 0, shards := 2, drawn := 4, patience := 0 } := by decide +kernel
  have hseat : ((ofDeeds Workshop.paired rounds).workshop.dispatcher? (.own "e")).map
      (fun d => (d.id, d.shard)) = some (2, some 0) := by decide +kernel
  obtain ⟨d, hd, hseat⟩ := Option.map_eq_some_iff.1 hseat
  obtain ⟨hid, hshard⟩ := Prod.mk.inj hseat
  have hring : (((ofDeeds Workshop.paired rounds).workshop.after
      (.steal ⟨.own "d", .own "k"⟩)).dispatcher? (.own "d")).map (·.ring) = some (some 0) := by
    decide +kernel
  obtain ⟨u, hu, hring⟩ := Option.map_eq_some_iff.1 hring
  refine ⟨by decide +kernel, (hturns 0 _ hhub).1, fun bs o d' hd' hid' => ?_, ?_⟩
  · have hsome : d.shard ≠ none := fun hnone => nomatch hshard.symm.trans hnone
    have hsame := (hkept _ d hd).2.2 hsome bs o d' hd' (hid'.trans hid.symm)
    exact hsame.trans hshard
  · have hsteal := (hrests (.steal ⟨.own "d", .own "k"⟩) _ u rfl hu).1
    rwa [hring] at hsteal

end Ledger

end TableScan
