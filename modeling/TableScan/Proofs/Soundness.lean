import TableScan.Proofs.Deeds

/-!
# Workshops in order

A workshop is in order if its floor is, and if every cursor has a site to itself; the inbox of a
plan without a cursor has nothing in flight.  Main statements: a workshop stays in order when the
scan of a site moves, with its cursor (`Workshop.Sound.turn`) or without one
(`Workshop.Sound.errand`), and when a cursor comes or goes there.
-/

namespace TableScan

variable {ω σ : Type}

namespace Workshop

variable {W V : Workshop ω} {F F' : List Lease} {H H' : List Place} {site : Site}
  {s s' : Scan ω} {name : String} {π : ω → σ} {M M' : List Lease} {L : List Place}

/-! ## Order -/

/-- The places of the claims held by hand. -/
def claimed (W : Workshop ω) : List Place := W.claims.entries.map fun c => (c.2.ring, c.2.slot)

/-- The places of the leases held by hand or by cursors. -/
def leased (W : Workshop ω) : List Place :=
  W.leases.entries.map (·.2.place) ++
    (W.cursors.entries.flatMap fun c => c.2.cursor.leases.map Lease.place)

/-- The places that the leases by hand and the other cursors have. -/
def leasedBut (W : Workshop ω) (name : String) : List Place :=
  W.leases.entries.map (·.2.place) ++
    ((W.cursors.erase name).entries.flatMap fun c => c.2.cursor.leases.map Lease.place)

/-- A scan is fit for a cursor: the cursor of a plan has the inbox of the plan listen to the ring
of its dispatcher until it is closed, and leaves nothing in flight when it is. -/
structure Fit (s : Scan ω) (c : OpenCursor) : Prop where
  home : s.Home
  closed : c.cursor.phase = .closed → c.cursor.leases = []
  plan : ∀ plan, c.site.inbox = .plan plan → c.site.dispatcher = .plan plan
  moored : ∀ plan, c.site.inbox = .plan plan → c.cursor.phase ≠ .closed → s.Moored
  settled : ∀ plan, c.site.inbox = .plan plan → c.cursor.phase = .closed → s.inbox.inFlight = []

/-- No cursor has the inbox of this plan. -/
def Unread (W : Workshop ω) (plan : String) : Prop :=
  ∀ name c, W.cursors.find? name = some c → c.site.inbox ≠ .plan plan

/-- A workshop in order. -/
structure Sound (W : Workshop ω) (F : List Lease) (H : List Place) : Prop where
  floor : Floor W.engine W.dispatcher? W.inbox? W.claimed W.leased F H
  claims : W.claims.Keyed
  leases : W.leases.Keyed
  cursors : W.cursors.Keyed
  fit : ∀ name c, W.cursors.find? name = some c → ∃ s, W.scan? c.site = some s ∧ Fit s c
  sites : ∀ name name' c c', W.cursors.find? name = some c → W.cursors.find? name' = some c' →
    c.site.dispatcher = c'.site.dispatcher ∨ c.site.inbox = c'.site.inbox → name = name'
  idle : ∀ plan k, W.inbox? (.plan plan) = some k → W.Unread plan → k.inFlight = []
  reducers : ∀ plan d order, W.dispatcher? (.plan plan) = some d → W.order? plan = some order →
    d.reducer = .filtering order

lemma perm_claimed (h : W.claims.Keyed) {c : Claim} (hc : W.claims.find? name = some c) :
    W.claimed.Perm ((c.ring, c.slot) ::
      (W.claims.erase name).entries.map fun c => (c.2.ring, c.2.slot)) :=
  (h.perm hc).map _

lemma perm_leased (h : W.leases.Keyed) {l : Lease} (hl : W.leases.find? name = some l) :
    W.leased.Perm (l.place :: ((W.leases.erase name).entries.map (·.2.place) ++
      (W.cursors.entries.flatMap fun c => c.2.cursor.leases.map Lease.place))) :=
  ((h.perm hl).map _).append_right _

lemma Fit.congr {c : OpenCursor} (h : Fit s c) (hd : s'.dispatcher = s.dispatcher)
    (hk : s'.inbox = s.inbox) : Fit s' c := by
  refine ⟨fun i hi => ?_, h.closed, h.plan, fun p hp hc => ?_, fun p hp hc => ?_⟩
  · rw [hk]
    exact h.home i (hd ▸ hi)
  · obtain ⟨i, h₁, h₂⟩ := h.moored p hp hc
    exact ⟨i, hd ▸ h₁, hk ▸ h₂⟩
  · rw [hk]
    exact h.settled p hp hc

lemma scan?_congr (h : W.scan? site = some s)
    (hd : V.dispatcher? site.dispatcher = W.dispatcher? site.dispatcher)
    (hk : V.inbox? site.inbox = W.inbox? site.inbox) :
    V.scan? site = some { s with engine := V.engine } := by
  obtain ⟨h₁, h₂, -⟩ := scan?_eq_some_iff.1 h
  exact scan?_eq_some_iff.2 ⟨hd.trans h₁, hk.trans h₂, rfl⟩

namespace Sound

/-- Deeds by hand leave dispatchers, inboxes and cursors alone. -/
lemma byHand (h : W.Sound F H)
    (hf : Floor V.engine W.dispatcher? W.inbox? V.claimed V.leased F H')
    (hp : V.plans = W.plans) (hd : V.dispatchers = W.dispatchers)
    (hk : V.inboxes = W.inboxes) (hcur : V.cursors = W.cursors) (hc : V.claims.Keyed)
    (hl : V.leases.Keyed) : V.Sound F H' := by
  have hD := dispatcher?_congr hp hd
  have hK := inbox?_congr hp hk
  have hO : V.order? = W.order? := by
    funext p
    simp [order?, hp]
  refine ⟨by rw [hD, hK]; exact hf, hc, hl, hcur ▸ h.cursors, fun n c hn => ?_,
    fun n n' c c' hn hn' => ?_, fun p k hk hu => ?_, fun p d o hd ho => ?_⟩
  · obtain ⟨s, hs, hfit⟩ := h.fit n c (hcur ▸ hn)
    exact ⟨_, scan?_congr hs (by rw [hD]) (by rw [hK]), hfit.congr rfl rfl⟩
  · exact h.sites n n' c c' (hcur ▸ hn) (hcur ▸ hn')
  · exact h.idle p k (hK ▸ hk) fun n c hn => hu n c (hcur ▸ hn)
  · exact h.reducers p d o (hD ▸ hd) (hO ▸ ho)

/-- The moves of one site, and what becomes of a cursor there. -/
lemma put (h : W.Sound F H) (name : String) (hs : W.scan? site = some s)
    (m : Scan.Moves π (s, M) (s', M')) (hL : W.leased.Perm (M.map Lease.place ++ L))
    (he : V.engine = s'.engine)
    (hD : V.dispatcher? = Function.update W.dispatcher? site.dispatcher (some s'.dispatcher))
    (hK : V.inbox? = Function.update W.inbox? site.inbox (some s'.inbox))
    (hO : V.order? = W.order?) (hC : V.claims = W.claims) (hkeyed : V.leases.Keyed)
    (hkeyed' : V.cursors.Keyed) (hL' : V.leased.Perm (M'.map Lease.place ++ L))
    (hnew : ∀ n c, V.cursors.find? n = some c →
      (W.cursors.find? n = some c ∧ c.site.dispatcher ≠ site.dispatcher ∧
        c.site.inbox ≠ site.inbox) ∨ (n = name ∧ c.site = site ∧ Fit s' c))
    (hold : ∀ n c, W.cursors.find? n = some c → c.site.inbox ≠ site.inbox →
      V.cursors.find? n = some c)
    (hidle : ∀ p, site.inbox = .plan p → V.Unread p → s'.inbox.inFlight = []) :
    ∃ F', V.Sound F' H ∧ F'.filter (·.inbox != s.inbox.id) = F.filter (·.inbox != s.inbox.id) := by
  obtain ⟨hsd, hsk, hse⟩ := scan?_eq_some_iff.1 hs
  have hfloor := h.floor.perm (.refl _) hL (.refl _)
  rw [hse] at hfloor
  obtain ⟨F', hf, hF⟩ := hfloor.moves hsd hsk m
  refine ⟨F', ⟨?_, hC ▸ h.claims, hkeyed, hkeyed', fun n c hn => ?_, fun n n' c c' hn hn' hcc => ?_,
    fun p k hk hu => ?_, fun p d o hd ho => ?_⟩, hF⟩
  · have hclaimed : V.claimed = W.claimed := by rw [claimed, hC, claimed]
    rw [he, hD, hK, hclaimed]
    exact hf.perm (.refl _) hL'.symm (.refl _)
  · rcases hnew n c hn with ⟨hn, hne, hne'⟩ | ⟨-, hsite, hfit⟩
    · obtain ⟨t, ht, hfit⟩ := h.fit n c hn
      refine ⟨_, scan?_congr ht ?_ ?_, hfit.congr rfl rfl⟩
      · rw [hD, Function.update_of_ne hne]
      · rw [hK, Function.update_of_ne hne']
    · refine ⟨s', scan?_eq_some_iff.2 ⟨?_, ?_, he⟩, hfit⟩
      · rw [hsite, hD, Function.update_self]
      · rw [hsite, hK, Function.update_self]
  -- two cursors that share a place: both elsewhere, or both the one that is here
  · rcases hnew n c hn with ⟨hn, hne, hne'⟩ | ⟨hname, hsite, -⟩ <;>
      rcases hnew n' c' hn' with ⟨hn', hne₁, hne₁'⟩ | ⟨hname', hsite', -⟩
    · exact h.sites n n' c c' hn hn' hcc
    · rw [hsite'] at hcc
      exact absurd hcc (by simp [hne, hne'])
    · rw [hsite] at hcc
      rcases hcc with hcc | hcc
      · exact absurd hcc.symm hne₁
      · exact absurd hcc.symm hne₁'
    · rw [hname, hname']
  · rw [hK, Function.update_apply] at hk
    split at hk
    · rename_i hp
      obtain rfl := Option.some.inj hk
      exact hidle p hp.symm hu
    · rename_i hp
      refine h.idle p k hk fun n c hn hcp => ?_
      exact hu n c (hold n c hn fun hcs => hp (hcp.symm.trans hcs)) hcp
  · rw [hO] at ho
    rw [hD, Function.update_apply] at hd
    split at hd
    · rename_i hp
      obtain rfl := Option.some.inj hd
      rw [(Scan.Moves.sameSite m).reducer]
      exact h.reducers p s.dispatcher o (hp ▸ hsd) ho
    · exact h.reducers p d o hd ho

/-- A dispatcher or an inbox makes way for another, with no cursor on it. -/
lemma renew (h : W.Sound F H) {o : Owner}
    (hf : Floor V.engine V.dispatcher? V.inbox? V.claimed V.leased F' H')
    (hD : ∀ o', o' ≠ o → V.dispatcher? o' = W.dispatcher? o')
    (hK : ∀ o', o' ≠ o → V.inbox? o' = W.inbox? o')
    (hO : ∀ p, o ≠ .plan p → V.order? p = W.order? p) (hC : V.claims.Keyed)
    (hL : V.leases.Keyed) (hcur : V.cursors = W.cursors)
    (hd : V.dispatcher? o = W.dispatcher? o ∨ W.Free o)
    (hk : V.inbox? o = W.inbox? o ∨ ∀ n c, W.cursors.find? n = some c → c.site.inbox ≠ o)
    (hidle : ∀ p k, o = .plan p → V.inbox? o = some k → V.Unread p → k.inFlight = [])
    (hred : ∀ p d order, o = .plan p → V.dispatcher? o = some d → V.order? p = some order →
      d.reducer = .filtering order) : V.Sound F' H' := by
  refine ⟨hf, hC, hL, hcur ▸ h.cursors, fun n c hn => ?_,
    fun n n' c c' hn hn' => h.sites n n' c c' (hcur ▸ hn) (hcur ▸ hn'), fun p k hpk hu => ?_,
    fun p d order hpd hpo => ?_⟩
  · rw [hcur] at hn
    obtain ⟨s, hs, hfit⟩ := h.fit n c hn
    refine ⟨_, scan?_congr hs ?_ ?_, hfit.congr rfl rfl⟩
    · by_cases ho : c.site.dispatcher = o
      · rcases hd with hd | hd
        · rw [ho, hd]
        · exact absurd ho (hd n c hn)
      · exact hD _ ho
    · by_cases ho : c.site.inbox = o
      · rcases hk with hk | hk
        · rw [ho, hk]
        · exact absurd ho (hk n c hn)
      · exact hK _ ho
  · by_cases ho : o = .plan p
    · exact hidle p k ho (ho ▸ hpk) hu
    · exact h.idle p k (hK (.plan p) (Ne.symm ho) ▸ hpk) fun n c hn => hu n c (hcur ▸ hn)
  · by_cases ho : o = .plan p
    · exact hred p d order ho (ho ▸ hpd) hpo
    · exact h.reducers p d order (hD (.plan p) (Ne.symm ho) ▸ hpd) (hO p ho ▸ hpo)

/-! ## Scans of a site -/

lemma scan (h : W.Sound F H) (hs : W.scan? site = some s)
    (hL : W.leased.Perm (M.map Lease.place ++ L)) : s.Sound M W.claimed L F H := by
  obtain ⟨hd, hk, he⟩ := scan?_eq_some_iff.1 hs
  have := (h.floor.perm (.refl _) hL (.refl _)).scan hd hk
  rw [he] at this
  exact this

lemma home (h : W.Sound F H) (ha : W.AtHome site) (hs : W.scan? site = some s) : s.Home := by
  rcases ha with ha | ha
  · -- with one ring there is no other place to look
    have hss := h.scan (M := []) hs (.refl _)
    obtain ⟨-, -, he⟩ := scan?_eq_some_iff.1 hs
    intro i hi
    have hi' := hss.employed.ring_lt i hi
    rw [← he] at hi'
    cases hk : s.inbox.ring with
    | none =>
      simp only [Inbox.home, hk, Option.getD_none]
      omega
    | some j =>
      have hj := hss.fed.ring_lt j hk
      rw [← he] at hj
      simp only [Inbox.home, hk, Option.getD_some]
      omega
  · exact ha s hs

lemma hasHub (h : W.Sound F H) (hs : W.scan? site = some s) {hub : Nat}
    (hh : hub < W.engine.hubs.size) : s.HasHub hub := by
  obtain ⟨-, -, he⟩ := scan?_eq_some_iff.1 hs
  intro shard
  obtain ⟨a, ha⟩ : ∃ a, W.engine.hubs[hub]? = some a := ⟨_, Array.getElem?_eq_getElem hh⟩
  have hlt := h.floor.engine.ring_lt ha shard
  rw [he] at ha hlt
  simp only [Scan.ringOf, ha]
  exact hlt

/-- The moves of a scan at a site that no cursor has. -/
lemma errand (h : W.Sound F H) (hs : W.scan? site = some s) (ha : W.Available site)
    (m : Scan.Moves π (s, []) (s', [])) : ∃ F', (W.putScan site s').Sound F' H ∧
      F'.filter (·.inbox != s.inbox.id) = F.filter (·.inbox != s.inbox.id) := by
  refine h.put "" (L := W.leased) hs m (.refl _) rfl (dispatcher?_putScan hs s')
    (inbox?_putScan hs s') (order?_putScan s') (claims_putScan s') ?_ ?_ ?_ (fun n c hn => ?_)
    (fun n c hn _ => ?_) fun p hp => ?_
  · rw [leases_putScan]
    exact h.leases
  · rw [cursors_putScan]
    exact h.cursors
  · rw [leased, leases_putScan, cursors_putScan]
    exact .refl _
  · rw [cursors_putScan] at hn
    exact .inl ⟨hn, ha.site_ne hn⟩
  · rw [cursors_putScan]
    exact hn
  · obtain ⟨-, K, hK, -⟩ := ha
    rw [hK] at hp
    cases hp

/-! ## Scans of a cursor -/

lemma leased_perm (h : W.Sound F H) {c : OpenCursor} (hc : W.cursors.find? name = some c) :
    W.leased.Perm (c.cursor.leases.map Lease.place ++ leasedBut W name) := by
  refine (((h.cursors.perm hc).flatMap_right _).append_left _).trans ?_
  rw [List.flatMap_cons]
  exact List.perm_append_comm_assoc ..

/-- What a cursor does on its scan, and what becomes of the cursor. -/
lemma turn (h : W.Sound F H) {c : OpenCursor} {c' : Cursor} (hc : W.cursors.find? name = some c)
    (hs : W.scan? c.site = some s)
    (m : Scan.Moves π (s, c.cursor.leases ++ []) (s', c'.leases ++ []))
    (hfit : Fit s' { c with cursor := c' }) :
    ∃ F', Sound { W.putScan c.site s' with
        cursors := W.cursors.bind name { c with cursor := c' } } F' H ∧
      F'.filter (·.inbox != s.inbox.id) = F.filter (·.inbox != s.inbox.id) := by
  rw [List.append_nil, List.append_nil] at m
  refine h.put name (L := leasedBut W name) hs m (h.leased_perm hc) rfl
    ((dispatcher?_congr rfl rfl).trans (dispatcher?_putScan hs s'))
    ((inbox?_congr rfl rfl).trans (inbox?_putScan hs s')) (order?_putScan s')
    (claims_putScan s') ?_ (h.cursors.bind ..) ?_ (fun n a hn => ?_) (fun n a hn hne => ?_)
    fun p hp hu => ?_
  · rw [leases_putScan]
    exact h.leases
  · simp only [leased, leases_putScan, Register.bind, List.flatMap_cons, leasedBut]
    exact List.perm_append_comm_assoc ..
  · rw [Register.find?_bind] at hn
    split at hn
    · rename_i hname
      obtain rfl := Option.some.inj hn
      exact .inr ⟨hname, rfl, hfit⟩
    · rename_i hname
      exact .inl ⟨hn, fun hd => hname (h.sites n name a c hn hc (.inl hd)),
        fun hk => hname (h.sites n name a c hn hc (.inr hk))⟩
  · rw [Register.find?_bind_ne, hn]
    rintro rfl
    obtain rfl := Option.some.inj (hn.symm.trans hc)
    exact hne rfl
  · exact absurd hp (hu name { c with cursor := c' } Register.find?_bind_self)

/-- A cursor is let go of. -/
lemma letGo (h : W.Sound F H) {c : OpenCursor} (hc : W.cursors.find? name = some c)
    (hs : W.scan? c.site = some s) (m : Scan.Moves π (s, c.cursor.leases ++ []) (s', []))
    (hf : ∀ p, c.site.inbox = .plan p → s'.inbox.inFlight = []) :
    ∃ F', (Workshop.putScan { W with cursors := W.cursors.erase name } c.site s').Sound F' H ∧
      F'.filter (·.inbox != s.inbox.id) = F.filter (·.inbox != s.inbox.id) := by
  rw [List.append_nil] at m
  have hs' : Workshop.scan? { W with cursors := W.cursors.erase name } c.site = some s := hs
  refine h.put name (L := leasedBut W name) hs m (h.leased_perm hc) rfl
    (dispatcher?_putScan hs' s') (inbox?_putScan hs' s') (order?_putScan s') (claims_putScan s')
    ?_ ?_ ?_ (fun n a hn => ?_) (fun n a hn hne => ?_) fun p hp _ => hf p hp
  · rw [leases_putScan]
    exact h.leases
  · rw [cursors_putScan]
    exact h.cursors.erase name
  · rw [leased, leases_putScan, cursors_putScan]
    exact .refl _
  · rw [cursors_putScan, Register.find?_erase] at hn
    split at hn
    · cases hn
    · rename_i hname
      exact .inl ⟨hn, fun hd => hname (h.sites n name a c hn hc (.inl hd)),
        fun hk => hname (h.sites n name a c hn hc (.inr hk))⟩
  · rw [cursors_putScan, Register.find?_erase_ne, hn]
    rintro rfl
    obtain rfl := Option.some.inj (hn.symm.trans hc)
    exact hne rfl

/-- A cursor is opened at a site that no cursor has. -/
lemma opened (h : W.Sound F H) (hs : W.scan? site = some s) {c : Cursor}
    (hc : W.cursors.find? name = none)
    (hsite : ∀ n a, W.cursors.find? n = some a →
      a.site.dispatcher ≠ site.dispatcher ∧ a.site.inbox ≠ site.inbox)
    (m : Scan.Moves π (s, []) (s', c.leases)) (hfit : Fit s' ⟨site, c⟩)
    (he : V.engine = s'.engine)
    (hD : V.dispatcher? = Function.update W.dispatcher? site.dispatcher (some s'.dispatcher))
    (hK : V.inbox? = Function.update W.inbox? site.inbox (some s'.inbox))
    (hO : V.order? = W.order?) (hC : V.claims = W.claims) (hL : V.leases = W.leases)
    (hcur : V.cursors = W.cursors.bind name ⟨site, c⟩) :
    ∃ F', V.Sound F' H ∧ F'.filter (·.inbox != s.inbox.id) = F.filter (·.inbox != s.inbox.id) := by
  refine h.put name (L := W.leased) hs m (.refl _) he hD hK hO hC (hL ▸ h.leases)
    (hcur ▸ h.cursors.bind ..) ?_ (fun n a hn => ?_) (fun n a hn hne => ?_) fun p hp hu => ?_
  · rw [leased, hL, hcur, leased, Register.bind, Register.erase_of_find?_none hc,
      List.flatMap_cons]
    exact List.perm_append_comm_assoc ..
  · rw [hcur, Register.find?_bind] at hn
    split at hn
    · rename_i hname
      obtain rfl := Option.some.inj hn
      exact .inr ⟨hname, rfl, hfit⟩
    · exact .inl ⟨hn, hsite n a hn⟩
  · rw [hcur, Register.find?_bind_ne, hn]
    rintro rfl
    rw [hc] at hn
    cases hn
  · exact absurd hp (hu name ⟨site, c⟩ (by rw [hcur, Register.find?_bind_self]))

/-- A cursor could not be opened for a plan that no cursor has. -/
lemma unopened (h : W.Sound F H) (hs : W.scan? site = some s)
    (hsite : ∀ n a, W.cursors.find? n = some a →
      a.site.dispatcher ≠ site.dispatcher ∧ a.site.inbox ≠ site.inbox)
    (m : Scan.Moves π (s, []) (s', [])) (he : V.engine = s'.engine)
    (hD : V.dispatcher? = Function.update W.dispatcher? site.dispatcher (some s'.dispatcher))
    (hK : V.inbox? = Function.update W.inbox? site.inbox (some s'.inbox))
    (hO : V.order? = W.order?) (hC : V.claims = W.claims) (hL : V.leases = W.leases)
    (hcur : V.cursors = W.cursors) (hf : ∀ p, site.inbox = .plan p → s'.inbox.inFlight = []) :
    ∃ F', V.Sound F' H ∧ F'.filter (·.inbox != s.inbox.id) = F.filter (·.inbox != s.inbox.id) := by
  refine h.put "" (L := W.leased) hs m (.refl _) he hD hK hO hC (hL ▸ h.leases)
    (hcur ▸ h.cursors) ?_ (fun n a hn => ?_) (fun n a hn _ => ?_) fun p hp _ => hf p hp
  · rw [leased, hL, hcur, leased]
    exact .refl _
  · rw [hcur] at hn
    exact .inl ⟨hn, hsite n a hn⟩
  · rw [hcur]
    exact hn

/-- A plan that no cursor has: nothing is in flight to it. -/
lemma vacant (h : W.Sound F H) {plan : String} {p : Plan ω} (hfree : W.Free (.plan plan))
    (hp : W.plans.find? plan = some p) :
    W.scan? (.ofPlan plan) = some (p.scan W.engine) ∧
      (∀ n a, W.cursors.find? n = some a →
        a.site.dispatcher ≠ .plan plan ∧ a.site.inbox ≠ .plan plan) ∧
      p.inbox.inFlight = [] := by
  have hsite : ∀ n a, W.cursors.find? n = some a →
      a.site.dispatcher ≠ .plan plan ∧ a.site.inbox ≠ .plan plan := by
    intro n a hn
    obtain ⟨t, -, hfit⟩ := h.fit n a hn
    exact ⟨hfree n a hn, fun hk => hfree n a hn (hfit.plan plan hk)⟩
  refine ⟨?_, hsite, h.idle plan p.inbox ?_ fun n a hn => (hsite n a hn).2⟩
  · simp [scan?, Site.ofPlan, dispatcher?, inbox?, hp, Plan.scan]
  · simp [inbox?, hp]

/-- What the execution of a plan that no cursor has comes to. -/
lemma moves_openCursor (h : W.Sound F H) {plan : String} {p : Plan ω} {hub : Nat}
    (hfree : W.Free (.plan plan)) (hc : W.cursors.find? name = none)
    (hhub : hub < W.engine.hubs.size) (hp : W.plans.find? plan = some p)
    (hl : (∀ w, π (p.source.supply w).2 = π w) ∧ p.dispatcher.reducer.Leaves p.filter π) :
    ∃ s r s', W.scan? (.ofPlan plan) = some s ∧
      (∀ n a, W.cursors.find? n = some a →
        a.site.dispatcher ≠ .plan plan ∧ a.site.inbox ≠ .plan plan) ∧
      p.openCursor hub W.engine = (r, p.ofScan s', s'.engine) ∧
      Scan.Moves π (s, []) (s', Cursor.leasesOf r) ∧
      (W.after (.openCursor plan name hub)).engine = s'.engine ∧
      s = p.scan W.engine ∧
      (∀ c, r = .ok c → s'.Moored ∧ c.phase ≠ .closed) ∧
      (∀ stop, r = .error stop → s'.inbox.inFlight = []) := by
  obtain ⟨hs, hsite, hidle⟩ := h.vacant hfree hp
  obtain ⟨r, s', ho, m, hok, herr⟩ := Plan.moves_openCursor (M := []) (h.scan hs (.refl _)) hidle
    (h.hasHub hs hhub) hl.1 hl.2
  rw [List.append_nil] at m
  refine ⟨_, r, s', hs, hsite, ho, m, ?_, rfl, hok, herr⟩
  rw [after_openCursor hp hc, ho]
  cases r <;> rfl

/-- A plan is executed, and a cursor opened if that succeeds. -/
lemma openCursor (h : W.Sound F H) {plan : String} {p : Plan ω} {hub : Nat}
    (hfree : W.Free (.plan plan)) (hc : W.cursors.find? name = none)
    (hhub : hub < W.engine.hubs.size) (hp : W.plans.find? plan = some p)
    (hl : (∀ w, π (p.source.supply w).2 = π w) ∧ p.dispatcher.reducer.Leaves p.filter π) :
    ∃ F', (W.after (.openCursor plan name hub)).Sound F' H ∧
      F'.filter (·.inbox != p.inbox.id) = F.filter (·.inbox != p.inbox.id) := by
  obtain ⟨s, r, s', hs, hsite, ho, m, -, rfl, hok, herr⟩ :=
    h.moves_openCursor hfree hc hhub hp hl
  have hO : (W.putPlan plan (p.ofScan s')).order? = W.order? := by
    rw [order?_putPlan]
    refine Function.update_eq_self_iff.2 ?_
    simp [order?, hp, Plan.ofScan]
  have hD : (W.putPlan plan (p.ofScan s')).dispatcher? = _ := dispatcher?_putPlan
  have hK : (W.putPlan plan (p.ofScan s')).inbox? = _ := inbox?_putPlan
  rw [after_openCursor hp hc, ho]
  cases r with
  | error stop =>
    exact h.unopened (V := { W.putPlan plan (p.ofScan s') with engine := s'.engine }) hs hsite m
      rfl ((dispatcher?_congr rfl rfl).trans hD) ((inbox?_congr rfl rfl).trans hK) hO rfl rfl rfl
      fun q _ => herr stop rfl
  | ok c =>
    obtain ⟨hm, hcl⟩ := hok c rfl
    have hfit : Fit s' ⟨.ofPlan plan, c⟩ :=
      ⟨hm.home, fun h' => absurd h' hcl, fun q hq => hq, fun _ _ _ => hm,
        fun _ _ h' => absurd h' hcl⟩
    exact h.opened (V := { W.putPlan plan (p.ofScan s') with
        engine := s'.engine, cursors := W.cursors.bind name ⟨.ofPlan plan, c⟩ }) hs hc hsite m hfit
      rfl ((dispatcher?_congr rfl rfl).trans hD) ((inbox?_congr rfl rfl).trans hK) hO rfl rfl rfl

/-- A cursor is let go of, which closes it. -/
lemma dropCursor (h : W.Sound F H) {c : OpenCursor} (hc : W.cursors.find? name = some c)
    (hs : W.scan? c.site = some s) (hfit : Fit s c) :
    ∃ F', (W.after (.dropCursor name)).Sound F' H ∧
      F'.filter (·.inbox != s.inbox.id) = F.filter (·.inbox != s.inbox.id) := by
  have m : Scan.Moves (fun _ : ω => ()) (s, c.cursor.leases ++ []) _ := Cursor.moves_close
  have hs' : s.Sound (c.cursor.leases ++ []) W.claimed (leasedBut W name) F H := by
    rw [List.append_nil]
    exact h.scan hs (h.leased_perm hc)
  rw [after_dropCursor hc hs]
  by_cases hcl : c.cursor.phase = .closed
  · have hclose : c.cursor.close s = (.ok (), c.cursor, s) := by simp only [Cursor.close, hcl]
    rw [hclose]
    refine h.letGo (π := fun _ => ()) hc hs ?_ fun p hp => hfit.settled p hp hcl
    rw [hfit.closed hcl]
    exact .refl
  · rw [Cursor.leases_close hcl] at m
    refine h.letGo hc hs m fun p hp => ?_
    obtain ⟨s', hclose, hf⟩ := Cursor.close_ok hs' (hfit.moored p hp hcl) hcl
    rw [hclose]
    exact hf

end Sound

/-! ## Deeds that leave a part of the world alone -/

/-- A deed leaves alone what `π` shows of the world. -/
def Spares (W : Workshop ω) (π : ω → σ) : Deed ω → Prop
  | .dispatch site source _ filter =>
      (∀ w, π (source.supply w).2 = π w) ∧
        ∀ d, W.dispatcher? site.dispatcher = some d → d.reducer.Leaves filter π
  | .execute plan _ _ | .openCursor plan _ _ =>
      ∀ p, W.plans.find? plan = some p →
        (∀ w, π (p.source.supply w).2 = π w) ∧ p.dispatcher.reducer.Leaves p.filter π
  | .closePlan plan => ∀ p, W.plans.find? plan = some p → ∀ w, π (p.close w) = π w
  | .touch f => ∀ w, π (f w) = π w
  | _ => True

lemma leaves_unit (r : Reducer ω) (f : Filter ω) : r.Leaves f fun _ => () :=
  ⟨fun _ _ _ => rfl, fun _ => rfl⟩

lemma spares_unit (W : Workshop ω) (a : Deed ω) : W.Spares (fun _ => ()) a := by
  cases a <;> simp [Spares, leaves_unit]

/-- A plan is executed by a dispatch of its source with its filter. -/
lemma Spares.dispatch {plan inbox : String} {hub : Nat} {p : Plan ω}
    (h : W.Spares π (.execute plan inbox hub)) (hp : W.plans.find? plan = some p) :
    W.Spares π (.dispatch ⟨.plan plan, .own inbox⟩ p.source hub p.filter) := by
  obtain ⟨hw, hl⟩ := h p hp
  refine ⟨hw, fun d hd => ?_⟩
  have hd' : p.dispatcher = d := by simpa [dispatcher?, hp] using hd
  exact hd' ▸ hl

variable {a : Deed ω}

lemma Errand.available {f : Scan ω → Scan ω} (h : Errand a site f) (hp : W.Permits a) :
    W.Available site := by
  cases h with
  | dispatch | steal | rewind | gather => exact hp.1
  | drain => exact hp

lemma Errand.moves {f : Scan ω → Scan ω} (h : Errand a site f) (hW : W.Sound F H)
    (hp : W.Permits a) (hsp : W.Spares π a) (hs : W.scan? site = some s) (M : List Lease) :
    Scan.Moves π (s, M) (f s, M) := by
  cases h with
  | dispatch =>
    exact Scan.moves_dispatch (hW.hasHub hs hp.2) hsp.1 (hsp.2 _ (scan?_eq_some_iff.1 hs).1)
  | steal => exact Scan.moves_steal (hW.home hp.2 hs)
  | drain => exact Scan.moves_drain
  | rewind => exact Scan.moves_rewind (hW.home hp.2 hs)
  | gather => exact Scan.moves_gather _ (hW.home hp.2 hs)

lemma Turn.moves {f : Cursor → Scan ω → Cursor × Scan ω} (h : Turn a name f) {c : Cursor}
    (hs : s.Home) (hl : ∀ w, s.dispatcher.work = some w → w.reducer.Leaves w.filter π)
    (M : List Lease) :
    Scan.Moves π (s, c.leases ++ M) ((f c s).2, (f c s).1.leases ++ M) := by
  cases h with
  | next => exact Cursor.moves_next hs
  | rewind => exact Cursor.moves_rewind hs hl
  | close => exact Cursor.moves_close

lemma Turn.fit {f : Cursor → Scan ω → Cursor × Scan ω} (h : Turn a name f) {c : OpenCursor}
    {C L : List Place} (hfit : Fit s c) (hs : s.Sound (c.cursor.leases ++ M) C L F H) :
    Fit (f c.cursor s).2 { c with cursor := (f c.cursor s).1 } := by
  have m : Scan.Moves (fun _ : ω => ()) (s, c.cursor.leases ++ M) _ :=
    h.moves hfit.home (fun _ _ => leaves_unit _ _) M
  have hsame := Scan.Moves.sameSite m
  by_cases hc : c.cursor.phase = .closed
  · -- a closed cursor stays as it is, and so does its scan
    have hf : f c.cursor s = (c.cursor, s) := by
      cases h with
      | next => simp only [Cursor.next_of_ended (.inr hc)]
      | rewind => simp only [Cursor.rewind, hc]
      | close => simp only [Cursor.close, hc]
    rw [hf]
    exact ⟨hfit.home, hfit.closed, hfit.plan, hfit.moored, hfit.settled⟩
  · refine ⟨hsame.home hfit.home, fun hcl => ?_, hfit.plan,
      fun p hp _ => hsame.moored (hfit.moored p hp hc), fun p hp hcl => ?_⟩
    · cases h with
      | next => exact absurd hcl (Cursor.phase_next hc)
      | rewind => exact absurd hcl (Cursor.phase_rewind hc)
      | close => exact Cursor.leases_close hc
    · cases h with
      | next => exact absurd hcl (Cursor.phase_next hc)
      | rewind => exact absurd hcl (Cursor.phase_rewind hc)
      | close =>
        obtain ⟨s', hcl', hf⟩ := Cursor.close_ok hs (hfit.moored p hp hc) hc
        simp only [hcl']
        exact hf

end Workshop

end TableScan
