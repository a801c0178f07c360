import TableScan.Proofs.Upkeep

/-!
# Tallies

An inbox tallies the slots that it has leased and those that came back.  Main statement: in every
workshop that can be reached the tallies agree with the leases that are out, so that the inbox of
a plan has as many slots out as its cursor has leases, which is at most one.
-/

namespace TableScan

variable {ω σ : Type}

namespace Engine

variable {e e' : Engine ω} {N : List Lease} {l : Lease} {i j : Nat}

/-- The tallies agree with the leases that are out. -/
structure Tallied (e : Engine ω) (N : List Lease) : Prop where
  known : ∀ l ∈ N, l.inbox < e.tallies.size
  claimed : ∀ i, (e.tally i).claimed = (e.tally i).released + N.countP (·.inbox == i)

lemma tally_congr (h : e'.tallies = e.tallies) : e'.tally = e.tally := by
  funext i
  simp [tally, h]

lemma tally_modify {f : Tally → Tally} (h : e'.tallies = e.tallies.modify j f)
    (hj : j < e.tallies.size) (i : Nat) :
    e'.tally i = if i = j then f (e.tally i) else e.tally i := by
  unfold tally
  rw [h, Array.getElem?_modify]
  by_cases hij : j = i
  · subst hij
    simp [hj]
  · simp [hij, Ne.symm hij]

/-- A new inbox begins with what any number without an inbox has. -/
lemma tally_addInbox (e : Engine ω) : e.addInbox.2.tally = e.tally := by
  funext i
  simp only [tally, addInbox, Array.getElem?_push]
  by_cases hi : i = e.tallies.size <;> simp [hi]

lemma tallies_claim? {k : Nat} (h : e.claim? i = some (k, e')) : e'.tallies = e.tallies := by
  obtain ⟨r, rest, -, -, rfl⟩ := claim?_cases h
  rfl

lemma tallies_addHub? {settings : Settings} {n : Nat} (h : e.addHub? settings = .ok (n, e')) :
    e'.tallies = e.tallies := by
  obtain ⟨m, rfl⟩ := addHub?_eq h
  rfl

lemma tallies_reduceOldest (e : Engine ω) (i : Nat) :
    (e.reduceOldest i).2.tallies = e.tallies := by
  obtain ⟨f, -, -, -, htallies, -⟩ := e.reduceOldest_modifies i
  exact htallies

namespace Tallied

lemma perm (h : e.Tallied N) {N' : List Lease} (hN : N.Perm N') : e.Tallied N' :=
  ⟨fun l hl => h.known l (hN.mem_iff.2 hl), fun i => by rw [h.claimed i, hN.countP_eq]⟩

lemma congr (h : e.Tallied N) (he : e'.tallies = e.tallies) : e'.Tallied N :=
  ⟨fun l hl => he ▸ h.known l hl, fun i => by rw [tally_congr he, h.claimed i]⟩

/-- A slot goes to an inbox, which tallies it. -/
lemma lease (h : e.Tallied N) (hl : l.inbox < e.tallies.size)
    (he : e'.tallies = e.tallies.modify l.inbox fun t => { t with claimed := t.claimed + 1 }) :
    e'.Tallied (l :: N) := by
  refine ⟨fun l' hl' => ?_, fun i => ?_⟩
  · rw [he, Array.size_modify]
    rcases List.mem_cons.1 hl' with rfl | hl'
    · exact hl
    · exact h.known l' hl'
  · have hi := h.claimed i
    rw [tally_modify he hl, List.countP_cons]
    by_cases hli : i = l.inbox
    · simp only [hli, if_pos, beq_self_eq_true] at hi ⊢
      omega
    · have hne : (l.inbox == i) = false := beq_false_of_ne (Ne.symm hli)
      simp only [if_neg hli, hne, Bool.false_eq_true, if_false] at hi ⊢
      omega

/-- A slot comes back. -/
lemma release (h : e.Tallied (l :: N))
    (he : e'.tallies = e.tallies.modify l.inbox fun t => { t with released := t.released + 1 }) :
    e'.Tallied N := by
  refine ⟨fun l' hl' => ?_, fun i => ?_⟩
  · rw [he, Array.size_modify]
    exact h.known l' (List.mem_cons_of_mem _ hl')
  · have hi := h.claimed i
    rw [List.countP_cons] at hi
    rw [tally_modify he (h.known l (List.mem_cons_self ..))]
    by_cases hli : i = l.inbox
    · simp only [hli, if_pos, beq_self_eq_true] at hi ⊢
      omega
    · have hne : (l.inbox == i) = false := beq_false_of_ne (Ne.symm hli)
      simp only [if_neg hli, hne, Bool.false_eq_true, if_false] at hi ⊢
      omega

lemma addInbox (h : e.Tallied N) : e.addInbox.2.Tallied N := by
  refine ⟨fun l hl => ?_, fun i => ?_⟩
  · have := h.known l hl
    simp only [Engine.addInbox, Array.size_push]
    omega
  · rw [tally_addInbox]
    exact h.claimed i

end Tallied

end Engine

namespace Scan

variable {s s' : Scan ω} {M M' N : List Lease} {π : ω → σ}

/-! ## Tallies along moves -/

/-- A move keeps the tallies in agreement with the leases. -/
lemma Move.tallied (m : Move π (s, M) (s', M')) (hid : s.inbox.id < s.engine.tallies.size)
    (h : s.engine.Tallied (M ++ N)) : s'.engine.Tallied (M' ++ N) := by
  cases m with
  | publish home done =>
    obtain ⟨ring, work, frame, slot, e, -, -, -, hclaim, rfl⟩ := publishOne?_cases done
    have he : e.tallies = s.engine.tallies := Engine.tallies_claim? hclaim
    exact h.congr he
  | reduce =>
    rcases s.reduceOne_snd with hr | ⟨i, -, hr⟩ <;> rw [hr]
    · exact h
    · exact h.congr (Engine.tallies_reduceOldest ..)
  | lease done =>
    obtain ⟨ring, slot, rest, r, -, -, -, -, rfl, rfl⟩ := next?_cases done
    exact h.lease hid rfl
  | giveBack => exact h.release rfl
  | epoch | begin | restart | adjust => exact h.congr rfl
  | alike alike => exact h.congr alike.tallies

lemma Moves.tallied {a b : Scan ω × List Lease} (m : Moves π a b)
    (hid : a.1.inbox.id < a.1.engine.tallies.size) (h : a.1.engine.Tallied (a.2 ++ N)) :
    b.1.engine.Tallied (b.2 ++ N) := by
  induction m with
  | refl => exact h
  | tail m' m ih =>
    refine Move.tallied m ?_ ih
    have hsame := Moves.sameSite m'
    rw [hsame.inbox, hsame.size.tallies]
    exact hid

/-- The leases at hand are those of the inbox. -/
lemma Move.marked (m : Move π (s, M) (s', M')) (h : ∀ l ∈ M, l.inbox = s.inbox.id) :
    ∀ l ∈ M', l.inbox = s.inbox.id := by
  cases m with
  | lease done =>
    obtain ⟨ring, slot, rest, r, -, -, -, -, rfl, rfl⟩ := next?_cases done
    intro l hl
    rcases List.mem_cons.1 hl with rfl | hl
    · rfl
    · exact h l hl
  | giveBack => exact fun l hl => h l (List.mem_cons_of_mem _ hl)
  | publish | reduce | epoch | begin | restart | adjust | alike => exact h

lemma Moves.marked {a b : Scan ω × List Lease} (m : Moves π a b)
    (h : ∀ l ∈ a.2, l.inbox = a.1.inbox.id) : ∀ l ∈ b.2, l.inbox = a.1.inbox.id := by
  induction m with
  | refl => exact h
  | tail m' m ih =>
    have hid := (Moves.sameSite m').inbox
    rw [← hid] at ih ⊢
    exact Move.marked m ih

end Scan

namespace Workshop

variable {W V : Workshop ω} {F : List Lease} {H : List Place} {site : Site} {s s' : Scan ω}
  {name plan : String} {π : ω → σ} {a : Deed ω} {M M' : List Lease} {c : OpenCursor} {k : Inbox}
  {l : Lease}

/-! ## Balanced workshops -/

/-- The tallies agree with the leases that are out.  No lease by hand is one of a plan's inbox,
and a cursor has leases of the inbox of its site. -/
structure Balanced (W : Workshop ω) : Prop where
  tallied : W.engine.Tallied W.outstanding
  hand : ∀ p ∈ W.leases.entries, ∀ plan k, W.inbox? (.plan plan) = some k → p.2.inbox ≠ k.id
  cursor : ∀ n c k, W.cursors.find? n = some c → W.inbox? c.site.inbox = some k →
    ∀ l ∈ c.cursor.leases, l.inbox = k.id

namespace Balanced

lemma congr (hb : W.Balanced) (ht : V.engine.tallies = W.engine.tallies)
    (hl : V.leases = W.leases) (hc : V.cursors = W.cursors) (hk : V.inbox? = W.inbox?) :
    V.Balanced := by
  have hout : V.outstanding = W.outstanding := by rw [outstanding, hl, hc, outstanding]
  refine ⟨hout ▸ hb.tallied.congr ht, ?_, ?_⟩
  · rw [hl, hk]
    exact hb.hand
  · rw [hc, hk]
    exact hb.cursor

/-- An inbox makes way for a new one, with no cursor on it. -/
lemma renew (hb : W.Balanced) {o : Owner} (ht : V.engine.tallies = W.engine.addInbox.2.tallies)
    (hl : V.leases = W.leases) (hc : V.cursors = W.cursors)
    (hk : V.inbox? = Function.update W.inbox? o (some { id := W.engine.tallies.size }))
    (hfree : ∀ n c, W.cursors.find? n = some c → c.site.inbox ≠ o) : V.Balanced := by
  have hout : V.outstanding = W.outstanding := by rw [outstanding, hl, hc, outstanding]
  refine ⟨hout ▸ hb.tallied.addInbox.congr ht, fun p hp plan k hk' => ?_,
    fun n c k hn hk' => ?_⟩
  · rw [hl] at hp
    rw [hk, Function.update_apply] at hk'
    split at hk'
    · -- the new number is past those of all leases
      have hlt := hb.tallied.known p.2 (List.mem_append_left _ (List.mem_map.2 ⟨p, hp, rfl⟩))
      obtain rfl := Option.some.inj hk'
      exact Nat.ne_of_lt hlt
    · exact hb.hand p hp plan k hk'
  · rw [hc] at hn
    rw [hk, Function.update_of_ne (hfree n c hn)] at hk'
    exact hb.cursor n c k hn hk'

/-- A lease by hand comes back. -/
lemma release (hb : W.Balanced) (hkeyed : W.leases.Keyed) (hf : W.leases.find? name = some l)
    (ht : V.engine.tallies =
      W.engine.tallies.modify l.inbox fun t => { t with released := t.released + 1 })
    (hl : V.leases = W.leases.erase name) (hc : V.cursors = W.cursors)
    (hk : V.inbox? = W.inbox?) : V.Balanced := by
  have hout : W.outstanding.Perm (l :: V.outstanding) := by
    rw [outstanding, outstanding, hl, hc]
    exact ((hkeyed.perm hf).map _).append_right _
  refine ⟨(hb.tallied.perm hout).release ht, fun p hp => ?_, ?_⟩
  · rw [hk]
    exact hb.hand p (List.mem_filter.1 (hl ▸ hp)).1
  · rw [hc, hk]
    exact hb.cursor

/-- A shift keeps a workshop balanced. -/
lemma shift (h : W.Sound F H) (hb : W.Balanced) (hsh : W.Shift V π site s s' M M') :
    V.Balanced := by
  obtain ⟨N, hW, hV⟩ := hsh.held
  obtain ⟨hd, hk, he⟩ := scan?_eq_some_iff.1 hsh.scan
  have hsame := Scan.Moves.sameSite hsh.moves
  have hfed := h.floor.fed _ _ hk
  rw [he] at hfed
  refine ⟨?_, fun p hp plan k hk' => ?_, fun n c k hn hk' => ?_⟩
  · have ht := hb.tallied.perm hW
    rw [he] at ht
    rw [hsh.engine]
    exact (Scan.Moves.tallied hsh.moves hfed.id_lt ht).perm hV.symm
  · rw [hsh.leases] at hp
    rw [hsh.inboxes, Function.update_apply] at hk'
    split at hk'
    · rename_i ho
      obtain rfl := Option.some.inj hk'
      rw [hsame.inbox]
      exact hb.hand p hp plan _ (ho ▸ hk)
    · exact hb.hand p hp plan k hk'
  · rw [hsh.inboxes] at hk'
    rcases hsh.cursors n c hn with ⟨hn, -, hne⟩ | ⟨hsite, hleases⟩
    · rw [Function.update_of_ne hne] at hk'
      exact hb.cursor n c k hn hk'
    · rw [hsite, Function.update_self] at hk'
      obtain rfl := Option.some.inj hk'
      rw [hleases, hsame.inbox]
      refine Scan.Moves.marked hsh.moves fun l hl => ?_
      obtain ⟨m, b, hm, hb', hl'⟩ := hsh.before l hl
      exact hb.cursor m b _ hm (hb' ▸ hk) l hl'

/-- A deed by hand keeps a workshop balanced. -/
lemma byHand (h : W.Sound F H) (hb : W.Balanced) (hV : W.ByHand a V) : V.Balanced := by
  cases hV with
  | addRing added =>
    obtain ⟨m, rfl⟩ := Engine.addRing?_eq added
    exact hb.congr rfl rfl rfl (inbox?_congr rfl rfl)
  | claim new claimed =>
    exact hb.congr (Engine.tallies_claim? claimed) rfl rfl (inbox?_congr rfl rfl)
  | reduce => exact hb.congr (Engine.tallies_reduceOldest ..) rfl rfl (inbox?_congr rfl rfl)
  | addInbox free => exact hb.renew rfl rfl rfl (inbox?_bind rfl rfl) free
  | @nextLease inbox name k k' l e free new found next =>
    obtain ⟨ring, slot, rest, r, -, -, -, -, rfl, rfl, rfl⟩ := Inbox.next?_cases next
    have hfed := h.floor.fed (.own inbox) k found
    refine ⟨?_, fun p hp plan b hb' => ?_, fun n c b hc hb' => ?_⟩
    · have hl : (k.leased W.engine ring slot).Tallied (⟨ring, slot, k.id⟩ :: W.outstanding) :=
        hb.tallied.lease hfed.id_lt rfl
      simpa only [outstanding, Register.bind, Register.erase_of_find?_none new,
        List.map_cons, List.cons_append] using hl
    · have hb'' : W.inbox? (.plan plan) = some b := hb'
      rcases List.mem_cons.1 hp with rfl | hp
      · -- two inboxes differ in their numbers
        intro hid
        have hk : W.inbox? (.own inbox) = some k := found
        exact absurd (h.floor.inboxes _ _ _ _ hk hb'' hid) Owner.noConfusion
      · exact hb.hand p (List.mem_filter.1 hp).1 plan b hb''
    -- no cursor stands on an inbox that is leased from by hand
    · have hK := inbox?_bind (W := W) (V := { W with
        engine := k.leased W.engine ring slot
        inboxes := W.inboxes.bind inbox { k with inFlight := rest }
        leases := W.leases.bind name ⟨ring, slot, k.id⟩ }) rfl rfl
      rw [hK, Function.update_of_ne (free n c hc)] at hb'
      exact hb.cursor n c b hc hb'
  | done held | dropLease held =>
    exact hb.release h.leases held rfl rfl rfl (inbox?_congr rfl rfl)
  | clear =>
    exact hb.congr (by rw [engine_putDispatcher]) (leases_putDispatcher _)
      (cursors_putDispatcher _) (inbox?_putDispatcher _)
  | drawShard =>
    exact hb.congr (Engine.alike_drawShard W.engine (fun _ => ()) _).tallies rfl rfl
      (inbox?_congr rfl rfl)
  | @addPlan name _ _ free =>
    refine hb.renew (o := .plan name) rfl rfl rfl ?_ fun n c hc hcn => ?_
    · exact inbox?_putPlan.trans (congrArg (Function.update · _ _) (inbox?_congr rfl rfl))
    · obtain ⟨s, -, hfit⟩ := h.fit n c hc
      exact free n c hc (hfit.plan name hcn)
  | _ => exact hb.congr rfl rfl rfl (inbox?_congr rfl rfl)

/-- Every deed that is permitted keeps a workshop balanced. -/
lemma after (h : W.Sound F H) (hb : W.Balanced) (hp : W.Permits a) : (W.after a).Balanced := by
  cases hs : W.site? a with
  | none => exact byHand h hb (byHand_after hp hs)
  | some site =>
    rcases h.shift_unit hp hs with heq | ⟨s, s', M, M', hsh⟩
    · rw [heq]
      exact hb
    · exact shift h hb hsh

end Balanced

/-- Every workshop that can be reached is balanced. -/
lemma Reached.balanced (h : W.Reached H) : W.Balanced := by
  induction h with
  | make made =>
    obtain ⟨e, rfl, he⟩ := made_of_hubs (P := fun e => e.tallies = #[]) made rfl
      fun _ _ _ _ he ha => (Engine.tallies_addHub? ha).trans he
    refine ⟨⟨nofun, fun i => ?_⟩, nofun, nofun⟩
    simp [Engine.tally, he, outstanding]
  | deed reached permitted ih =>
    obtain ⟨F, h⟩ := reached.sound
    exact ih.after h permitted

/-! ## The tally of a plan -/

section Plan

variable (h : W.Sound F H) (hb : W.Balanced) (hk : W.inbox? (.plan plan) = some k)

include h hb hk

/-- No lease that is out by hand, or with one of these cursors, is of the inbox of a plan. -/
lemma not_counted {cursors : Register OpenCursor} (hcur : cursors.Keyed)
    (hc : ∀ n c, cursors.find? n = some c → W.cursors.find? n = some c ∧
      (c.site.inbox = .plan plan → c.cursor.leases = [])) :
    (W.leases.entries.map (·.2) ++ cursors.entries.flatMap (·.2.cursor.leases)).countP
      (·.inbox == k.id) = 0 := by
  rw [List.countP_eq_zero]
  intro l hl
  rw [beq_iff_eq]
  rcases List.mem_append.1 hl with hl | hl
  · obtain ⟨p, hp, rfl⟩ := List.mem_map.1 hl
    exact hb.hand p hp plan k hk
  · obtain ⟨⟨n, c⟩, hm, hl⟩ := List.mem_flatMap.1 hl
    obtain ⟨hn, hnone⟩ := hc n c (hcur.mem_iff.1 hm)
    obtain ⟨s, hs, -⟩ := h.fit n c hn
    obtain ⟨-, hk', -⟩ := scan?_eq_some_iff.1 hs
    rw [hb.cursor n c _ hn hk' l hl]
    intro hid
    have hl' : l ∈ c.cursor.leases := hl
    rw [hnone (h.floor.inboxes _ _ _ _ hk' hk hid)] at hl'
    cases hl'

/-- A plan whose cursor holds nothing, or that has none, has no slot out. -/
lemma tally_settled (hc : ∀ n c, W.cursors.find? n = some c → c.site.inbox = .plan plan →
    c.cursor.leases = []) :
    (W.engine.tally k.id).claimed = (W.engine.tally k.id).released := by
  have hcount := not_counted h hb hk h.cursors fun n c hn => ⟨hn, hc n c hn⟩
  have := hb.tallied.claimed k.id
  unfold outstanding at this
  omega

/-- A plan has as many slots out as its cursor has leases. -/
lemma tally_cursor (hc : W.cursors.find? name = some c) (hsite : c.site.inbox = .plan plan) :
    (W.engine.tally k.id).claimed =
      (W.engine.tally k.id).released + c.cursor.leases.length := by
  have hcount := not_counted h hb hk (h.cursors.erase name) fun n b hn => by
    rw [Register.find?_erase] at hn
    split at hn
    · cases hn
    · rename_i hne
      exact ⟨hn, fun hb' => absurd (hb'.trans hsite.symm) (h.site_ne hn hc hne).2⟩
  have hown : c.cursor.leases.countP (·.inbox == k.id) = c.cursor.leases.length := by
    rw [List.countP_eq_length]
    intro l hl
    rw [beq_iff_eq]
    exact hb.cursor name c k hc (hsite ▸ hk) l hl
  have hclaimed := hb.tallied.claimed k.id
  rw [(outstanding_perm h.cursors hc).countP_eq, List.countP_append, hown] at hclaimed
  unfold outstandingBut at hclaimed
  omega

end Plan

end Workshop

end TableScan
