import TableScan.Proofs.Underway

/-!
# Waits

A scan under way that waits for a frame still to come.  Main statement: the wait ends with the
next slot in flight, unless the scan is starving; then it fails, and only then (`Underway.await`).
-/

namespace TableScan

variable {ω σ : Type}

namespace Engine

variable {e : Engine ω} {C L P : List Place} {i j : Nat}

/-- Reducing frees no slot and takes none. -/
lemma saturated_reduceOldest (h : e.Books C L P) :
    (e.reduceOldest i).2.Saturated j ↔ e.Saturated j := by
  rcases hred : e.reduceOldest i with ⟨b, e'⟩
  rcases h.reduceOldest_cases hred with ⟨-, rfl, -⟩ | ⟨-, r, k, rest, t, x, w, hr, -, -, he, -⟩
  · exact Iff.rfl
  · simp only [Saturated, he, getElem?_modifyRing]
    by_cases hij : i = j
    · subst hij
      simp [hr, Ring.available, Ring.reduceTo, Ring.setStage, Ring.modifyTask]
    · simp [hij]

/-- A slot that comes back is free. -/
lemma not_saturated_release {l : Lease} : ¬ (e.release l).Saturated l.ring := by
  rintro ⟨r, hr, ha⟩
  have hr' : (e.putBack l.ring l.slot).rings[l.ring]? = some r := hr
  rw [putBack, getElem?_modifyRing, if_pos rfl] at hr'
  obtain ⟨r₀, -, rfl⟩ := Option.map_eq_some_iff.1 hr'
  simp [Ring.available, Ring.putBack] at ha

end Engine

namespace Scan

variable {S : Course ω σ} {s s' : Scan ω} {b : Nat} {M : List Nat} {N : List Lease}
  {C L H : List Place} {F : List Lease} {l : Lease}

/-- The next slot in flight is not in flight twice. -/
lemma Sound.not_mem_rest (h : s.Sound N C L F H) {ring slot : Nat} {rest : List Nat}
    (hring : s.inbox.ring = some ring) (hf : s.inbox.inFlight = slot :: rest) : slot ∉ rest := by
  obtain ⟨F₁, F₂, rfl, -, hF₂⟩ := h.fed.split hring hf
  intro hm
  refine h.engine.books.flown_nodup (Engine.map_place_middle F₁ F₂ H _)
    (List.mem_append_left _ (List.mem_map.2 ⟨⟨ring, slot, s.inbox.id⟩, ?_, rfl⟩))
  have hm' : ⟨ring, slot, s.inbox.id⟩ ∈ F₂.filter (·.inbox == s.inbox.id) := by
    rw [hF₂]
    exact List.mem_map.2 ⟨slot, hm, by simp [Inbox.home, hring]⟩
  exact List.mem_append_right _ (List.mem_filter.1 hm').1

/-- What a cursor of a course gets with the next slot: a task of a past epoch, or the next
frame. -/
def Caught (s : Scan ω) (S : Course ω σ) (b : Nat) (l : Lease) : Prop :=
  (s.Underway S b [l.slot] ∧ ¬ S.Current s.engine (s.engine.task l.ring l.slot)) ∨
    (s.Underway S (b + 1) [l.slot] ∧ S.Done s.engine b (s.engine.task l.ring l.slot))

namespace Underway

/-! ## Helping -/

lemma reduceOne (hS : S.Lawful) (h : s.Underway S b M) (hs : s.Sound N C L F H) :
    s.reduceOne.2.Underway S b M ∧ s.reduceOne.2.inbox = s.inbox ∧
      (s.reduceOne.2.engine.Saturated S.ring ↔ s.engine.Saturated S.ring) := by
  rcases s.reduceOne_snd with hr | ⟨i, -, hr⟩ <;> rw [hr]
  · exact ⟨h, rfl, Iff.rfl⟩
  · have hsteps : Engine.Steps S.id (fun _ => True) S.shown s.engine
        (s.engine.reduceOldest i).2 := Engine.steps_reduceOldest hs.engine.books i
    exact ⟨h.steps hS (fun _ _ => trivial) (fun _ _ => trivial) hsteps, rfl,
      Engine.saturated_reduceOldest hs.engine.books⟩

lemma sound_publish (h : s.Underway S b M) (hs : s.Sound N C L F H) :
    ∃ F', s.publish.Sound N C L F' H := by
  have m : Moves (fun _ : ω => ()) (s, N) (s.publish, N) := moves_publish h.moored.home
  obtain ⟨F', hs', -⟩ := Moves.sound m hs
  exact ⟨F', hs'⟩

/-- A round of help gets on, unless the scan is starving and there is nothing to reduce. -/
lemma help (hS : S.Lawful) (h : s.Underway S b M) (hs : s.Sound N C L F H) (hb : b < S.count) :
    (∃ s', s.help = (.ok .progressed, s') ∧ s'.Underway S b M ∧
      (s'.Starving S.ring ↔ s.Starving S.ring)) ∨
    ∃ s', s.help = (.ok .starved, s') ∧ s'.Underway S b M ∧ s.Starving S.ring := by
  have hp := h.publish hS hs
  obtain ⟨F', hs'⟩ := h.sound_publish hs
  have hstarving := h.starving_publish hS hs hb
  obtain ⟨hu, hk, hsat⟩ := hp.reduceOne hS hs'
  have hstarving' : s.publish.reduceOne.2.Starving S.ring ↔ s.Starving S.ring := by
    rw [← hstarving, Starving, Starving, hk, hsat]
  unfold Scan.help
  rcases hs'.next?_or_pending hp.home with ⟨l, s₁, hn⟩ | ⟨hn, hpending⟩
  · -- the next slot is ready
    left
    obtain ⟨ring, slot, rest, r, hring, hflight, hr, hst, -, -⟩ := next?_cases hn
    have hc : s.publish.inbox.canLease s.publish.engine = .ok true := by
      have hlt := Ring.lt_capacity hst
      simp [Inbox.canLease, Inbox.ready?, hring, hflight, hr, hlt, (Ring.isCollectable_iff hlt).2 hst]
    simp only [hc]
    exact ⟨_, rfl, hp, hstarving⟩
  · simp only [canLease_of_next? hn]
    rcases hred : s.publish.reduceOne with ⟨_ | _, s₂⟩ <;> rw [hred] at hu hk hstarving'
    · -- nothing is pending, so nothing is in flight
      have hnil : s₂.inbox.inFlight = [] := by
        rw [hk]
        by_contra hne
        obtain ⟨slot, rest, hf⟩ := List.exists_cons_of_ne_nil hne
        have hr := (hs'.reduceOne_fst hp.ring).2 (List.ne_nil_of_mem (hpending slot rest hf))
        rw [hred] at hr
        cases hr
      dsimp only
      split_ifs
      · exact .inl ⟨s₂, rfl, hu, hstarving'⟩
      · refine .inr ⟨s₂, rfl, hu, ?_⟩
        by_contra hn'
        exact h.inFlight_publish hS hs hb hn' (hk ▸ hnil)
    · exact .inl ⟨s₂, rfl, hu, hstarving'⟩

/-! ## Leasing -/

lemma next? (h : s.Underway S b []) (hs : s.Sound N C L F H) (hn : s.next? = .ok (some (l, s'))) :
    l.ring = S.ring ∧ s'.Caught S b l := by
  obtain ⟨ring, slot, rest, r, hring, hflight, hr, hst, rfl, rfl⟩ := next?_cases hn
  have hrest := hs.not_mem_rest hring hflight
  obtain rfl : ring = S.ring := Option.some.inj (hring.symm.trans h.home)
  obtain ⟨O, R, D, hf, hpos, hl⟩ := h.lane
  rw [hflight] at hf
  have hturn₀ := Engine.turns_lease hr hst
  have hturn : s.engine.Turns (s.inbox.leased s.engine S.ring slot) (S.ring, slot)
      (s.engine.task S.ring slot) .leased :=
    ⟨hturn₀.off, hturn₀.task, hturn₀.stage, rfl, rfl⟩
  have hp : (s.inbox.leased s.engine S.ring slot).pendingIn = s.engine.pendingIn :=
    funext fun _ => Engine.pendingIn_modifyRing (fun r => r.pending_lease _) _
  refine ⟨rfl, ?_⟩
  cases O with
  | cons k O =>
    obtain ⟨rfl, rfl⟩ := List.cons.inj hf
    obtain ⟨hl', hcur⟩ := hl.lease_old hturn hp ((Engine.stage?_eq hr).trans hst) hrest
    exact .inl ⟨⟨⟨h.id, h.work, h.ring, h.home, h.count, h.order, h.directory⟩, O, R, D, rfl, hpos,
      hl'⟩, hcur⟩
  | nil =>
    cases R with
    | cons k R =>
      obtain ⟨rfl, rfl⟩ := List.cons.inj hf
      obtain ⟨hl', hdone⟩ := hl.lease_ready hturn hp hrest
      refine .inr ⟨⟨⟨h.id, h.work, h.ring, h.home, h.count, h.order, h.directory⟩, [], R, D, rfl, ?_,
        hl'⟩, hdone⟩
      rw [List.length_cons] at hpos
      show s.dispatcher.position = _
      omega
    | nil =>
      -- what is due is not reduced
      exfalso
      have hm : slot ∈ D := by
        rw [List.nil_append, List.nil_append] at hf
        exact hf ▸ List.mem_cons_self ..
      have hpub := hl.published hm
      rw [Engine.stage?_eq hr, hst] at hpub
      cases hpub

/-- The slot at hand is given back. -/
lemma done (h : s.Underway S b [l.slot]) (hring : l.ring = S.ring) :
    (s.done l).Underway S b [] ∧ ¬ (s.done l).Starving S.ring := by
  obtain ⟨O, R, D, hflight, hpos, hl⟩ := h.lane
  have hst := hl.hand l.slot (List.mem_singleton_self _)
  obtain ⟨r, hr, hst'⟩ := Option.bind_eq_some_iff.1 hst
  have hturn₀ := Engine.turns_putBack hr hst'
  have hturn : s.engine.Turns (s.engine.release l) (S.ring, l.slot)
      (s.engine.task S.ring l.slot).cleared .free := by
    unfold Engine.release
    rw [hring]
    exact ⟨hturn₀.off, hturn₀.task, hturn₀.stage, rfl, rfl⟩
  refine ⟨⟨⟨h.id, h.work, h.ring, h.home, h.count, h.order, h.directory⟩, O, R, D, hflight, hpos,
    hl.giveBack hturn (funext fun _ => Engine.pendingIn_release ..)⟩, fun hn => ?_⟩
  exact Engine.not_saturated_release (hring.symm ▸ hn.2)

/-! ## Waiting -/

/-- A wait for a frame still to come ends with the next slot, unless the scan is starving. -/
lemma await (hS : S.Lawful) (h : s.Underway S b []) (hs : s.Sound N C L F H) (hb : b < S.count) :
    (∃ l s', s.await = (.ok l, s') ∧ l.ring = S.ring ∧ s'.Caught S b l ∧ ¬ s.Starving S.ring) ∨
    ∃ shard waited s', s.await = (.error (.failed (.saturated shard waited)), s') ∧
      s'.Underway S b [] ∧ s.Starving S.ring := by
  fun_induction Scan.await s generalizing F with
  | case1 s fault hn =>
    rcases hs.next?_or_pending h.home with ⟨l, s', hn'⟩ | ⟨hn', -⟩ <;> rw [hn] at hn' <;> cases hn'
  | case2 s l s' hn =>
    obtain ⟨hring, hcaught⟩ := h.next? hs hn
    obtain ⟨ring, slot, rest, r, -, hflight, -⟩ := next?_cases hn
    exact .inl ⟨l, s', rfl, hring, hcaught, fun hst => by simp [hst.1] at hflight⟩
  | case3 s hn fault s' hh =>
    rcases h.help hS hs hb with ⟨s₁, hh', -⟩ | ⟨s₁, hh', -⟩ <;> rw [hh] at hh' <;> cases hh'
  | case4 s hn s' hh ih =>
    rcases h.help hS hs hb with ⟨s₁, hh', hu, hiff⟩ | ⟨s₁, hh', -⟩ <;> rw [hh] at hh' <;> cases hh'
    have m : Moves (fun _ : ω => ()) (s, N) (s.help.2, N) := moves_help h.moored.home
    rw [hh] at m
    obtain ⟨F', hs', -⟩ := Moves.sound (m.trans (moves_starvedFrom none)) hs
    have hu' : (s'.starvedFrom none).Underway S b [] := hu.still rfl rfl rfl rfl rfl
    have hiff' : (s'.starvedFrom none).Starving S.ring ↔ s.Starving S.ring := hiff
    rw [← hiff']
    exact ih hu' hs'
  | case5 s hn s' hh =>
    rcases h.help hS hs hb with ⟨s₁, hh', -⟩ | ⟨s₁, hh', -⟩ <;> rw [hh] at hh' <;> cases hh'
  | case6 s hn s' hh failure s'' hst =>
    rcases h.help hS hs hb with ⟨s₁, hh', -⟩ | ⟨s₁, hh', hu, hstarving⟩ <;> rw [hh] at hh' <;>
      cases hh'
    obtain ⟨rfl, rfl⟩ := Prod.mk.inj hst
    exact .inr ⟨_, _, _, rfl, hu.still rfl rfl rfl rfl rfl, hstarving⟩

end Underway

end Scan

end TableScan
