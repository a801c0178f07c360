import TableScan.Proofs.Lanes

/-!
# Scans under way

What the scan of a course does on its own lane: it publishes the next frame, leases the next slot
and gives it back, and begins a new epoch.  Main statement: after publishing something is in
flight, unless nothing was and the ring has no free slot.
-/

namespace TableScan

variable {ω σ : Type}

namespace Engine

variable {e e' : Engine ω} {i k : Nat} {r : Ring ω} {t : Task ω} {s : Stage}

/-- A ring of an engine without free slots. -/
def Saturated (e : Engine ω) (ring : Nat) : Prop :=
  ∃ r, e.rings[ring]? = some r ∧ r.available = 0

end Engine

/-- What stays of a row when one place turns that is not in it. -/
lemma Row.turn {S : Course ω σ} {e e' : Engine ω} {b k : Nat} {M O R : List Nat} {t : Task ω}
    {s : Stage} (h : Row S e b M O R) (ht : e.Turns e' (S.ring, k) t s)
    (hk : k ∉ M ++ (O ++ R)) : Row S e' b M O R :=
  h.kept (fun slot hs => ht.off.kept (fun heq => hk ((Prod.mk.inj heq).2 ▸ hs)) (h.held hs))
    (by rw [ht.epoch])

namespace Lane

variable {S : Course ω σ} {e e' : Engine ω} {b k : Nat} {M O R D : List Nat}

/-! ## Moves on the lane -/

/-- The next frame is published in a slot that was claimed. -/
lemma publish (hS : S.Lawful) (h : Lane S e b M O R D) (hk : e.stage? S.ring k = some .claimed)
    (ht : e.Turns e' (S.ring, k) (S.ask (e.epoch S.id) (b + R.length + D.length)) .published)
    (hp : e'.pendingIn (some S.ring) = e.pendingIn (some S.ring) ++ [k])
    (hlt : b + R.length + D.length < S.count) : Lane S e' b M O R (D ++ [k]) := by
  have hrow : k ∉ M ++ (O ++ R) := by
    intro hs
    have hheld := h.toRow.held hs
    simp [Engine.Held, Engine.Flown, hk] at hheld
  refine ⟨h.toRow.turn ht hrow, h.toTrail.publish hS hk ht hp hlt, fun i slot w hw hid he => ?_⟩
  by_cases hne : (i, slot) = (S.ring, k)
  · obtain ⟨rfl, rfl⟩ := Prod.mk.inj hne
    simp
  · rw [(ht.off i slot hne).1] at hw he
    have hs := h.sole i slot w hw hid (he.trans (by rw [ht.epoch]))
    simp only [List.mem_append] at hs ⊢
    exact ⟨hs.1, hs.2.imp_right fun hs => hs.imp_right .inl⟩

section lease

variable (ht : e.Turns e' (S.ring, k) (e.task S.ring k) .leased) (hp : e'.pendingIn = e.pendingIn)

include ht hp

/-- A slot of a past epoch is leased, that was reduced. -/
lemma lease_old (h : Lane S e b [] (k :: O) R D) (hst : e.stage? S.ring k = some .reduced)
    (hk : k ∉ O ++ (R ++ D)) :
    Lane S e' b [k] O R D ∧ ¬ S.Current e' (e'.task S.ring k) := by
  have hepoch : e'.epoch S.id = e.epoch S.id := by rw [ht.epoch]
  have hkin : ∀ i slot, (e.task i slot).Kin S.id S.shown (e'.task i slot) := ht.kin (.refl _)
  have hrow : Row S e b [] O R :=
    ⟨h.hand, fun slot hs => h.old slot (List.mem_cons_of_mem k hs), h.ready⟩
  obtain ⟨-, hold, hready⟩ := hrow.turn ht fun hs => hk (by
    rw [← List.append_assoc]
    exact List.mem_append_left D hs)
  refine ⟨⟨⟨fun slot hs => ?_, hold, hready⟩,
    h.toTrail.passes (ht.passes (by simp [hst]) (.inl rfl) hp) hkin, fun i slot w hw hid he => ?_⟩,
    fun hc => (h.old k (List.mem_cons_self ..)).1 ?_⟩
  · exact List.mem_singleton.1 hs ▸ ht.stage
  · exact (h.sole_kin hkin hepoch i slot w hw hid he).imp_right (List.mem_append_right [k])
  · rw [ht.task] at hc
    exact ⟨hc.1, hc.2.trans hepoch⟩

/-- The next frame is leased. -/
lemma lease_ready (h : Lane S e b [] [] (k :: R) D) (hk : k ∉ R ++ D) :
    Lane S e' (b + 1) [k] [] R D ∧ S.Done e' b (e'.task S.ring k) := by
  have hepoch : e'.epoch S.id = e.epoch S.id := by rw [ht.epoch]
  have hkin : ∀ i slot, (e.task i slot).Kin S.id S.shown (e'.task i slot) := ht.kin (.refl _)
  have hlen : b + (k :: R).length = b + 1 + R.length := by
    rw [List.length_cons]
    omega
  have hrow : Row S e (b + 1) [] [] R := ⟨h.hand, h.old, h.ready.2⟩
  obtain ⟨-, hold, hready⟩ := hrow.turn ht fun hs => hk (List.mem_append_left D hs)
  have hst := h.reduced (List.mem_cons_self ..)
  have htrail := h.toTrail.passes (ht.passes (by simp [hst]) (.inl rfl) hp) hkin
  refine ⟨⟨⟨fun slot hs => ?_, hold, hready⟩, hlen ▸ htrail, h.sole_kin hkin hepoch⟩, ?_⟩
  · exact List.mem_singleton.1 hs ▸ ht.stage
  · rw [ht.task]
    exact h.ready.1.1.congr hepoch

end lease

/-- The slot at hand is given back. -/
lemma giveBack (h : Lane S e b [k] O R D)
    (ht : e.Turns e' (S.ring, k) (e.task S.ring k).cleared .free)
    (hp : e'.pendingIn = e.pendingIn) : Lane S e' b [] O R D := by
  have hst := h.hand k (List.mem_singleton_self k)
  have hkin : ∀ i slot, (e.task i slot).Kin S.id S.shown (e'.task i slot) :=
    ht.kin (Task.kin_cleared _)
  have hrow : Row S e b [] O R := ⟨nofun, h.old, h.ready⟩
  have hk : k ∉ O ++ R := by
    intro hs
    rcases List.mem_append.1 hs with hs | hs
    · rcases (h.old k hs).2 with hf | hf <;> rw [hst] at hf <;> cases hf
    · rw [h.reduced hs] at hst
      cases hst
  refine ⟨hrow.turn ht hk, h.toTrail.passes (ht.passes (by simp [hst]) (.inr rfl) hp) hkin,
    fun i slot w hw hid he => ?_⟩
  obtain ⟨hi, hs⟩ := h.sole_kin hkin (by rw [ht.epoch]) i slot w hw hid he
  refine ⟨hi, (List.mem_append.1 hs).resolve_left fun hs => ?_⟩
  -- the slot that was given back has no work
  obtain rfl := List.mem_singleton.1 hs
  subst hi
  rw [ht.task] at hw
  cases hw

/-- In a new epoch all that is in flight is of the past. -/
lemma fresh (hdated : ∀ i slot, (e.task i slot).Dated e.epoch)
    (hepoch : e.epoch S.id < e'.epoch S.id) (hr : e'.rings = e.rings)
    (hO : ∀ slot ∈ O, e.Flown S.ring slot) (htame : e.Tame S.id S.shown)
    (hworld : S.shown e'.world = S.state 0) : Lane S e' 0 [] O [] [] := by
  refine ⟨⟨nofun, fun slot hs => ⟨Trail.not_current hdated hepoch hr S.ring slot, ?_⟩, trivial⟩,
    Trail.fresh hdated hepoch hr htame hworld, fun i slot w hw hid he => ?_⟩
  · rw [Engine.Flown, (Engine.seen_of_rings hr).2.1]
    exact hO slot hs
  · exact absurd he (Trail.epoch_ne_of_work hdated hepoch hr hw hid)

end Lane

namespace Scan

variable {S : Course ω σ} {s s' : Scan ω} {b : Nat} {M : List Nat} {C L H : List Place}
  {F : List Lease} {l : Lease}

/-! ## Scans of a course -/

/-- The scan of a course. -/
structure Runs (s : Scan ω) (S : Course ω σ) : Prop where
  id : s.dispatcher.id = S.id
  work : s.dispatcher.work = some S.work
  ring : s.dispatcher.ring = some S.ring
  home : s.inbox.ring = some S.ring
  count : s.dispatcher.frameCount = S.count
  order : s.dispatcher.order = S.order
  directory : s.dispatcher.directory = S.directory

/-- The scan of a course with a lane to a cursor that has collected the first `b` frames and
holds the slots `M`. -/
structure Underway (s : Scan ω) (S : Course ω σ) (b : Nat) (M : List Nat) : Prop
    extends s.Runs S where
  lane : ∃ O R D, s.inbox.inFlight = O ++ (R ++ D) ∧
    s.dispatcher.position = b + R.length + D.length ∧ Lane S s.engine b M O R D

/-- Nothing is in flight to a scan, and there is no slot to publish a frame in. -/
def Starving (s : Scan ω) (ring : Nat) : Prop :=
  s.inbox.inFlight = [] ∧ s.engine.Saturated ring

lemma claim?_eq_none_iff {e : Engine ω} {i : Nat} (hi : i < e.rings.size) :
    e.claim? i = none ↔ e.Saturated i := by
  obtain ⟨r, hr⟩ := Engine.exists_ring hi
  simp only [Engine.claim?, hr, Engine.Saturated, Option.map_eq_none_iff, List.head?_eq_none_iff,
    Option.some.injEq, exists_eq_left', Ring.available, List.length_eq_zero_iff]

namespace Runs

lemma moored (h : s.Runs S) : s.Moored := ⟨S.ring, h.ring, h.home⟩

lemma frameAt?_eq_some_iff (h : s.Runs S) {position frame : Nat} :
    s.dispatcher.frameAt? position = some frame ↔ position < S.count ∧ frame = S.frame position := by
  rw [Dispatcher.frameAt?_eq_some_iff, h.count, h.order, Course.frame]

/-- A frame is published if there is one and the ring has a free slot. -/
lemma publishOne?_eq_none_iff (h : s.Runs S) (hring : S.ring < s.engine.rings.size) :
    s.publishOne? = none ↔ S.count ≤ s.dispatcher.position ∨ s.engine.Saturated S.ring := by
  rw [← claim?_eq_none_iff hring]
  by_cases hlt : s.dispatcher.position < S.count
  · have hle : ¬ S.count ≤ s.dispatcher.position := Nat.not_le.2 hlt
    simp [Scan.publishOne?, h.ring, Dispatcher.next?, h.work, Dispatcher.frameAt?, h.count, hlt, hle]
  · simp [Scan.publishOne?, h.ring, Dispatcher.next?, h.work, Dispatcher.frameAt?, h.count, hlt,
      Nat.not_lt.1 hlt]

end Runs

namespace Underway

lemma position_eq (h : s.Underway S b M) (hf : s.inbox.inFlight = []) :
    s.dispatcher.position = b := by
  obtain ⟨O, R, D, hflight, hpos, -⟩ := h.lane
  rw [hf] at hflight
  have hlen := congrArg List.length hflight
  simp only [List.length_nil, List.length_append] at hlen
  omega

/-- Bookkeeping of the dispatcher, and of the engine where it leaves the lane alone. -/
lemma still (h : s.Underway S b M) (hd : s'.dispatcher =
      { s.dispatcher with starvedAt := s'.dispatcher.starvedAt }) (hk : s'.inbox = s.inbox)
    (hr : s'.engine.rings = s.engine.rings)
    (hepoch : s'.engine.epoch S.id = s.engine.epoch S.id)
    (hworld : s'.engine.world = s.engine.world) : s'.Underway S b M := by
  obtain ⟨O, R, D, hflight, hpos, hl⟩ := h.lane
  refine ⟨⟨?_, ?_, ?_, hk ▸ h.home, ?_, ?_, ?_⟩, O, R, D, hk ▸ hflight, ?_,
    hl.still hr hepoch (by rw [hworld])⟩ <;> rw [hd]
  · exact h.id
  · exact h.work
  · exact h.ring
  · exact h.count
  · exact h.order
  · exact h.directory
  · exact hpos

/-- What others do to the engine. -/
lemma steps (hS : S.Lawful) (h : s.Underway S b M) {mine : Place → Prop} {e : Engine ω}
    (hM : ∀ slot ∈ M, mine (S.ring, slot))
    (hmine : ∀ slot ∈ s.inbox.inFlight, mine (S.ring, slot))
    (hsteps : Engine.Steps S.id mine S.shown s.engine e) :
    ({ s with engine := e } : Scan ω).Underway S b M := by
  obtain ⟨O, R, D, hflight, hpos, hl⟩ := h.lane
  have hall : ∀ slot ∈ M ++ (O ++ (R ++ D)), mine (S.ring, slot) := by
    intro slot hs
    rcases List.mem_append.1 hs with hs | hs
    · exact hM slot hs
    · exact hmine slot (hflight ▸ hs)
  obtain ⟨R', D', heq, hl'⟩ := hl.steps hS hall hsteps
  have hlen := congrArg List.length heq
  simp only [List.length_append] at hlen
  refine ⟨⟨h.id, h.work, h.ring, h.home, h.count, h.order, h.directory⟩, O, R', D', ?_, ?_, hl'⟩
  · rw [heq]
    exact hflight
  · show s.dispatcher.position = _
    omega

/-! ## Publishing -/

lemma publishOne? (hS : S.Lawful) (h : s.Underway S b M) {N : List Lease} (hs : s.Sound N C L F H)
    (hp : s.publishOne? = some s') : s'.Underway S b M := by
  obtain ⟨ring, work, frame, slot, e, hring, hwork, hframe, hclaim, rfl⟩ := publishOne?_cases hp
  obtain rfl : ring = S.ring := Option.some.inj (hring.symm.trans h.ring)
  obtain rfl : work = S.work := Option.some.inj (hwork.symm.trans h.work)
  obtain ⟨O, R, D, hflight, hpos, hl⟩ := h.lane
  have hstep : Engine.Step S.id (fun _ => True) S.shown s.engine e :=
    Engine.step_claim? hs.engine hclaim
  obtain ⟨R', D', heq, hl'⟩ := hl.step hS (fun _ _ => trivial) hstep
  have hlen := congrArg List.length heq
  simp only [List.length_append] at hlen
  obtain ⟨r, hr, hst, -⟩ := (hs.engine.claim? hclaim).books.claimed (List.mem_cons_self ..)
  have hat := h.frameAt?_eq_some_iff.1 hframe
  have hposition : s.dispatcher.position = b + R'.length + D'.length := by omega
  have hask : Task.ask S.work (s.engine.epoch s.dispatcher.id) frame
      (s.dispatcher.directory.rowCount frame) =
      S.ask (e.epoch S.id) (b + R'.length + D'.length) := by
    rw [← hposition, h.id, h.directory, hat.2, Engine.epoch_claim? hclaim]
    rfl
  have hturn := Engine.turns_publish hr hst (S.ask (e.epoch S.id) (b + R'.length + D'.length))
  have hpending := Engine.pendingIn_some (Engine.getElem?_modifyRing_self (f := (·.publish slot))
    (Engine.getElem?_modifyRing_self
      (f := (·.modifyTask slot fun _ => S.ask (e.epoch S.id) (b + R'.length + D'.length))) hr))
  rw [hask]
  refine ⟨⟨h.id, h.work, h.ring, h.home, h.count, h.order, h.directory⟩, O, R', D' ++ [slot], ?_, ?_,
    hl'.publish hS ((Engine.stage?_eq hr).trans hst) hturn (hpending.trans ?_) (by omega)⟩
  · show s.inbox.inFlight ++ [slot] = _
    rw [hflight, ← heq, List.append_assoc, List.append_assoc]
  · show s.dispatcher.position + 1 = _
    rw [List.length_append, List.length_singleton]
    omega
  · rw [Ring.pending_publish, Ring.pending_modifyTask, Engine.pendingIn_some hr]

lemma sound_publishOne? (h : s.Underway S b M) {N : List Lease} (hs : s.Sound N C L F H)
    (hp : s.publishOne? = some s') : ∃ F', s'.Sound N C L F' H := by
  have m : Move (fun _ : ω => ()) (s, N) (s', N) := .publish h.moored.home hp
  obtain ⟨F', hs', -⟩ := m.sound hs
  exact ⟨F', hs'⟩

lemma publishUpTo (hS : S.Lawful) (n : Nat) (h : s.Underway S b M) {N : List Lease}
    (hs : s.Sound N C L F H) :
    (Scan.publishUpTo n s).Underway S b M ∧
      s.inbox.inFlight <+: (Scan.publishUpTo n s).inbox.inFlight := by
  induction n generalizing s F with
  | zero => exact ⟨h, List.prefix_rfl⟩
  | succ n ih =>
    unfold Scan.publishUpTo
    cases hp : s.publishOne? with
    | none => exact ⟨h, List.prefix_rfl⟩
    | some s' =>
      obtain ⟨F', hs'⟩ := h.sound_publishOne? hs hp
      obtain ⟨hu, hprefix⟩ := ih (h.publishOne? hS hs hp) hs'
      refine ⟨hu, .trans ?_ hprefix⟩
      obtain ⟨ring, work, frame, slot, e, -, -, -, -, rfl⟩ := publishOne?_cases hp
      exact List.prefix_append ..

lemma publish (hS : S.Lawful) (h : s.Underway S b M) {N : List Lease} (hs : s.Sound N C L F H) :
    s.publish.Underway S b M := (h.publishUpTo hS _ hs).1

lemma publish_of_saturated (h : s.Underway S b M) {N : List Lease} (hs : s.Sound N C L F H)
    (hsat : s.engine.Saturated S.ring) : s.publish = s := by
  have hn := (h.publishOne?_eq_none_iff (hs.employed.ring_lt _ h.ring)).2 (.inr hsat)
  unfold Scan.publish
  cases s.dispatcher.frameCount - s.dispatcher.position with
  | zero => rfl
  | succ n => simp only [Scan.publishUpTo, hn]

/-- Unless the scan is starving, something is in flight after publishing. -/
lemma inFlight_publish (hS : S.Lawful) (h : s.Underway S b M) {N : List Lease}
    (hs : s.Sound N C L F H) (hb : b < S.count) (hn : ¬ s.Starving S.ring) :
    s.publish.inbox.inFlight ≠ [] := by
  by_cases hf : s.inbox.inFlight = []
  · have hpos := h.position_eq hf
    have hone : s.publishOne? ≠ none := by
      rw [Ne, h.publishOne?_eq_none_iff (hs.employed.ring_lt _ h.ring), hpos]
      rintro (hle | hsat)
      · omega
      · exact hn ⟨hf, hsat⟩
    obtain ⟨s', hs'⟩ := Option.ne_none_iff_exists'.1 hone
    obtain ⟨F', hsound⟩ := h.sound_publishOne? hs hs'
    unfold Scan.publish
    obtain ⟨n, hn⟩ : ∃ n, s.dispatcher.frameCount - s.dispatcher.position = n + 1 :=
      ⟨S.count - b - 1, by rw [h.count, hpos]; omega⟩
    simp only [hn, Scan.publishUpTo, hs']
    intro hnil
    have hprefix := ((h.publishOne? hS hs hs').publishUpTo hS n hsound).2
    rw [hnil, List.prefix_nil] at hprefix
    obtain ⟨ring, work, frame, slot, e, -, -, -, -, rfl⟩ := publishOne?_cases hs'
    simp [Inbox.push] at hprefix
  · intro hnil
    have hprefix : s.inbox.inFlight <+: s.publish.inbox.inFlight := (h.publishUpTo hS _ hs).2
    rw [hnil, List.prefix_nil] at hprefix
    exact hf hprefix

lemma starving_publish (hS : S.Lawful) (h : s.Underway S b M) {N : List Lease}
    (hs : s.Sound N C L F H) (hb : b < S.count) :
    s.publish.Starving S.ring ↔ s.Starving S.ring := by
  constructor
  · intro hp
    by_contra hn
    exact h.inFlight_publish hS hs hb hn hp.1
  · intro hp
    rwa [h.publish_of_saturated hs hp.2]

end Underway

end Scan

end TableScan
