import TableScan.Proofs.Upkeep

/-!
# Deeds seen by an observer

An observer has a dispatcher, an inbox and a cursor of its own, or nothing at all, and watches
what others do to the engine.  Main statement: for it, every deed of others is a sequence of
steps that leave its own places alone.
-/

namespace TableScan

variable {ω σ : Type}

/-- The cursor that a deed moves, closes or lets go of. -/
def Deed.cursor? : Deed ω → Option String
  | .next name | .rewindCursor name | .close name | .dropCursor name => some name
  | _ => none

/-- The cursor that a deed opens. -/
def Deed.opens? : Deed ω → Option String
  | .openCursor _ name _ | .openOn _ name => some name
  | _ => none

lemma Deed.cursor?_cases {a : Deed ω} {n : String} (h : a.cursor? = some n) :
    a = .next n ∨ a = .rewindCursor n ∨ a = .close n ∨ a = .dropCursor n := by
  cases a with
  | next | rewindCursor | close | dropCursor =>
    obtain rfl := Option.some.inj h
    simp
  | _ => cases h

lemma Deed.opens?_cases {a : Deed ω} {n : String} (h : a.opens? = some n) :
    (∃ plan hub, a = .openCursor plan n hub) ∨ ∃ site, a = .openOn site n := by
  cases a with
  | openCursor plan name hub =>
    obtain rfl := Option.some.inj h
    exact .inl ⟨plan, hub, rfl⟩
  | openOn site name =>
    obtain rfl := Option.some.inj h
    exact .inr ⟨site, rfl⟩
  | _ => cases h

namespace Workshop

variable {W : Workshop ω} {F : List Lease} {H : List Place} {site : Site} {s s' : Scan ω}
  {name : String} {me : Option String} {id kid : Nat} {mine : Place → Prop} {π : ω → σ}
  {a : Deed ω} {M M' : List Lease} {L : List Place}

/-- An observer, who owns nothing but the cursor `me`, its site, and the places that this cursor
has leased or that are in flight to it.  The work of all others leaves alone what `π` shows. -/
structure Observer (W : Workshop ω) (F : List Lease) (me : Option String) (id kid : Nat)
    (mine : Place → Prop) (π : ω → σ) : Prop where
  dispatcher : ∀ o d, W.dispatcher? o = some d → d.id = id →
    ∃ n c, me = some n ∧ W.cursors.find? n = some c ∧ c.site.dispatcher = o
  inbox : ∀ o k, W.inbox? o = some k → k.id = kid →
    ∃ n c, me = some n ∧ W.cursors.find? n = some c ∧ c.site.inbox = o
  mine : ∀ p, mine p → (∃ l ∈ F, l.inbox = kid ∧ l.place = p) ∨
    ∃ n c, me = some n ∧ W.cursors.find? n = some c ∧ p ∈ c.cursor.leases.map Lease.place
  others : ∀ o d w, W.dispatcher? o = some d → d.id ≠ id → d.work = some w →
    w.reducer.Leaves w.filter π

/-- Somebody who owns nothing. -/
lemma Sound.bystander (h : W.Sound F H) :
    W.Observer F none W.engine.epochs.size W.engine.tallies.size (fun _ => False)
      (fun _ => ()) := by
  refine ⟨fun o d hd hid => ?_, fun o k hk hid => ?_, fun p hp => hp.elim,
    fun _ _ w _ _ _ => leaves_unit ..⟩
  · exact absurd (h.floor.employed o d hd).id_lt (by omega)
  · exact absurd (h.floor.fed o k hk).id_lt (by omega)

/-- What a cursor has leased is leased. -/
lemma Sound.mem_cursors (h : W.Sound F H) {n : String} {c : OpenCursor}
    (hc : W.cursors.find? n = some c) {p : Place} (hp : p ∈ c.cursor.leases.map Lease.place) :
    p ∈ W.cursors.entries.flatMap fun c => c.2.cursor.leases.map Lease.place :=
  List.mem_flatMap.2 ⟨(n, c), h.cursors.mem_iff.2 hc, hp⟩

/-- The site of a permitted deed is not that of a cursor of others. -/
lemma Sound.site_ne_of_others (h : W.Sound F H) (hp : W.Permits a) (ha : W.site? a = some site)
    {n : String} {c : OpenCursor} (hc : W.cursors.find? n = some c) (hme : a.cursor? ≠ some n) :
    c.site.dispatcher ≠ site.dispatcher ∧ c.site.inbox ≠ site.inbox := by
  cases a with
  | dispatch | steal | rewind | gather | execute | openOn =>
    obtain rfl := Option.some.inj ha
    exact hp.1.site_ne hc
  | drain =>
    obtain rfl := Option.some.inj ha
    exact hp.site_ne hc
  | openCursor plan =>
    obtain rfl := Option.some.inj ha
    obtain ⟨s, -, hfit⟩ := h.fit n c hc
    exact ⟨hp.1 n c hc, fun hk => hp.1 n c hc (hfit.plan plan hk)⟩
  | next | rewindCursor | close | dropCursor =>
    obtain ⟨b, hb, rfl⟩ := Option.map_eq_some_iff.1 ha
    exact h.site_ne hc hb fun hn => hme (hn ▸ rfl)
  | _ => cases ha

namespace Observer

variable (ho : W.Observer F me id kid mine π)

include ho

/-- What the observer owns is held by its cursor or in flight to others than this inbox. -/
lemma mine_of_ne {k : Inbox} (hk : k.id ≠ kid)
    (hL : ∀ n c p, me = some n → W.cursors.find? n = some c →
      p ∈ c.cursor.leases.map Lease.place → p ∈ L) (p : Place) (hp : mine p) :
    p ∈ L ∨ ∃ l ∈ F, l.inbox ≠ k.id ∧ l.place = p := by
  rcases ho.mine p hp with ⟨l, hl, hlk, hlp⟩ | ⟨n, c, hn, hc, hpc⟩
  · exact .inr ⟨l, hl, hlk ▸ hk.symm, hlp⟩
  · exact .inl (hL n c p hn hc hpc)

/-- A scan at a site that is not the observer's works apart from it. -/
lemma apart (hs : W.scan? site = some s)
    (hsite : ∀ n c, me = some n → W.cursors.find? n = some c →
      c.site.dispatcher ≠ site.dispatcher ∧ c.site.inbox ≠ site.inbox)
    (hL : ∀ n c p, me = some n → W.cursors.find? n = some c →
      p ∈ c.cursor.leases.map Lease.place → p ∈ L) : s.Apart L F id mine π := by
  obtain ⟨hsd, hsk, -⟩ := scan?_eq_some_iff.1 hs
  have hid : s.dispatcher.id ≠ id := by
    intro hid
    obtain ⟨n, c, hn, hc, hcd⟩ := ho.dispatcher _ _ hsd hid
    exact (hsite n c hn hc).1 hcd
  have hkid : s.inbox.id ≠ kid := by
    intro hid
    obtain ⟨n, c, hn, hc, hck⟩ := ho.inbox _ _ hsk hid
    exact (hsite n c hn hc).2 hck
  exact ⟨hid, fun w hw => ho.others _ _ w hsd hid hw, ho.mine_of_ne hkid hL⟩

/-- A lease held by hand is not the observer's. -/
lemma not_mine_lease (h : W.Sound F H) {l : Lease} (hl : W.leases.find? name = some l) :
    ¬ mine l.place := by
  intro hm
  have hperm := perm_leased h.leases hl
  rcases ho.mine _ hm with ⟨l', hl', -, hp⟩ | ⟨n, c, -, hc, hp⟩
  · refine h.floor.engine.books.not_flown (hperm.mem_iff.2 (List.mem_cons_self ..)) ?_
    exact List.mem_append_left _ (List.mem_map.2 ⟨l', hl', hp⟩)
  · exact h.floor.engine.books.leased_nodup hperm
      (List.mem_append_right _ (h.mem_cursors hc hp))

/-- A deed of others is a sequence of steps. -/
lemma steps (h : W.Sound F H) (hp : W.Permits a) (hsp : W.Spares π a)
    (hme : ∀ n, a.cursor? = some n → me ≠ some n) :
    Engine.Steps id mine π W.engine (W.after a).engine := by
  cases ha : W.site? a with
  | none =>
    refine h.steps_byHand (byHand_after hp ha) hsp (fun _ _ hl => ho.not_mine_lease h hl) ?_
    rintro l ⟨inbox, name, k, k', e, rfl, hk, hn⟩
    obtain ⟨ring, slot, rest, r, hring, hf, -, -, rfl, -⟩ := Inbox.next?_cases hn
    have hkid : k.id ≠ kid := by
      intro hid
      obtain ⟨n, c, -, hc, hck⟩ := ho.inbox (.own inbox) k hk hid
      exact hp.1 n c hc hck
    exact (h.floor.fed (.own inbox) k hk).not_mine h.floor.engine.books hring hf
      (ho.mine_of_ne hkid fun n c p _ hc hpc => List.mem_append_right _ (h.mem_cursors hc hpc))
  | some site =>
    have hsite : ∀ n c, me = some n → W.cursors.find? n = some c →
        c.site.dispatcher ≠ site.dispatcher ∧ c.site.inbox ≠ site.inbox :=
      fun n c hn hc => h.site_ne_of_others hp ha hc fun hn' => hme n hn' hn
    have hall : ∀ n c p, me = some n → W.cursors.find? n = some c →
        p ∈ c.cursor.leases.map Lease.place → p ∈ W.leased :=
      fun _ _ _ _ hc hp => List.mem_append_right _ (h.mem_cursors hc hp)
    rcases h.shift hp hsp ha fun _ s _ hs => (ho.apart hs hsite hall).leaves with
      hW | ⟨s, s', M, M', hsh⟩
    · rw [hW]
    · obtain ⟨N, hN, hsound⟩ := hsh.sound h
      rw [hsh.engine, (scan?_eq_some_iff.1 hsh.scan).2.2]
      refine Scan.Moves.steps hsh.moves hsound (ho.apart hsh.scan hsite fun n c p hn hc hpc => ?_)
      -- the leases of the observer's cursor are among the rest
      obtain ⟨l, hl, rfl⟩ := List.mem_map.1 hpc
      refine List.mem_map_of_mem (hsh.mem_rest h hN hc (fun heq => ?_) hl)
      exact (hsite n c hn hc).1 (congrArg _ heq)

end Observer

end Workshop

end TableScan
