import TableScan.Proofs.Epochs
import TableScan.Proofs.Handiwork
import TableScan.Proofs.Returns

/-!
# Work in flight

Whatever is in flight to an inbox was published by a scan: its task has work, which only goes when
the slot is given back.  Main statement: in every workshop that can be reached the slots in flight
have work (`Workshop.Reached.laden`).
-/

namespace TableScan

variable {ω σ : Type}

namespace Engine

variable {e : Engine ω} {p : Place}

/-- What is in flight by the books is in flight. -/
lemma Books.isFlown {C L P : List Place} (h : e.Books C L P) (hp : p ∈ P) : e.Flown p.1 p.2 := by
  obtain ⟨r, hr, hs⟩ := h.flown hp
  rwa [Flown, stage?_eq hr]

end Engine

/-- All slots in flight to an inbox have work. -/
def Inbox.Laden (k : Inbox) (e : Engine ω) : Prop :=
  ∀ slot ∈ k.inFlight, (e.task k.home slot).work ≠ none

namespace Scan

variable {s s' : Scan ω} {π : ω → σ} {M M' : List Lease} {C L H : List Place} {F : List Lease}

lemma Sound.isFlown (hs : s.Sound M C L F H) {slot : Nat} (h : slot ∈ s.inbox.inFlight) :
    s.engine.Flown s.inbox.home slot := by
  refine hs.engine.books.isFlown (p := (s.inbox.home, slot)) (List.mem_append_left _ ?_)
  have hl : (⟨s.inbox.home, slot, s.inbox.id⟩ : Lease) ∈ s.inbox.flights := List.mem_map_of_mem h
  rw [← hs.fed.flights] at hl
  exact List.mem_map.2 ⟨_, (List.mem_filter.1 hl).1, rfl⟩

/-- What is in flight after a move was in flight before it, or the scan has just asked for it. -/
lemma Move.inFlight (m : Move π (s, M) (s', M')) (hs : s.Sound M C L F H) {slot : Nat}
    (h : slot ∈ s'.inbox.inFlight) :
    (slot ∈ s.inbox.inFlight ∧ (s.engine.task s.inbox.home slot).SameRequest
      (s'.engine.task s'.inbox.home slot)) ∨
    ∃ work epoch frame rowCount, s.dispatcher.work = some work ∧
      s'.engine.task s'.inbox.home slot = .ask work epoch frame rowCount := by
  -- steps that touch nothing in flight
  have still : ∀ {e : Engine ω} {slot : Nat},
      Engine.Steps (s.dispatcher.id + 1) (fun p => s.engine.Flown p.1 p.2) (fun _ => ())
        s.engine e → slot ∈ s.inbox.inFlight →
      (s.engine.task s.inbox.home slot).SameRequest (e.task s.inbox.home slot) := by
    intro e slot hsteps hslot
    have hf := hs.isFlown hslot
    exact (hsteps.kept (p := (s.inbox.home, slot)) hf (.inl hf)).request
  cases m with
  | publish home done =>
    obtain ⟨ring, work, frame, k, e, hring, hwork, -, hclaim, rfl⟩ := publishOne?_cases done
    obtain ⟨r, hr, hst, -⟩ := (hs.engine.claim? hclaim).books.claimed (List.mem_cons_self ..)
    rcases List.mem_append.1 h with h | h
    · refine .inl ⟨h, still (Engine.steps_publish hs.engine hclaim fun u => .inr ⟨work, rfl, ?_,
        Workshop.leaves_unit ..⟩) h⟩
      rw [hs.employed.work_dispatcher work hwork]
      exact (Nat.lt_succ_self _).ne
    · -- the slot that was published last
      have ht := (Engine.turns_publish hr hst (.ask work (s.engine.epoch s.dispatcher.id) frame
        (s.dispatcher.directory.rowCount frame))).task
      have hhome : (s.inbox.push k).home = ring := home ring hring
      rw [List.mem_singleton.1 h, hhome]
      exact .inr ⟨work, _, frame, _, hwork, ht⟩
  | reduce =>
    rw [inbox_reduceOne] at h ⊢
    exact .inl ⟨h, still hs.steps_reduceOne h⟩
  | lease done =>
    obtain ⟨ring, k, rest, r, -, hflight, hr, hk, -, rfl⟩ := next?_cases done
    have ht : (s.engine.modifyRing ring (·.lease k)).task s.inbox.home slot =
        s.engine.task s.inbox.home slot := by
      by_cases heq : (s.inbox.home, slot) = (ring, k)
      · obtain ⟨hi, rfl⟩ := Prod.mk.inj heq
        rw [hi]
        exact (Engine.turns_lease hr hk).task
      · exact ((Engine.turns_lease hr hk).off _ _ heq).1
    exact .inl ⟨hflight ▸ List.mem_cons_of_mem k h, .of_eq ht⟩
  | giveBack =>
    refine .inl ⟨h, still (Engine.steps_release hs.engine.books (List.mem_cons_self ..)
      fun hf => ?_) h⟩
    -- a lease is not in flight any more
    obtain ⟨r, hr, hk, -⟩ := hs.engine.books.leased (List.mem_cons_self ..)
    rcases hf with hf | hf <;> cases (Engine.stage?_eq hr).symm.trans hf |>.symm.trans hk
  | begin => exact absurd h (List.not_mem_nil (a := slot))
  | epoch | restart | adjust => exact .inl ⟨h, .of_eq rfl⟩
  | alike alike =>
    have hr := alike.rings
    exact .inl ⟨h, still (.single (Engine.step_still hr (by rw [alike.epoch]) rfl)) h⟩

/-- A move of a scan leaves work in flight to its inbox. -/
lemma Move.laden (m : Move π (s, M) (s', M')) (hs : s.Sound M C L F H)
    (h : s.inbox.Laden s.engine) : s'.inbox.Laden s'.engine := by
  intro slot hslot
  rcases Move.inFlight m hs hslot with ⟨hold, hreq⟩ | ⟨work, epoch, frame, rowCount, -, ht⟩
  · rw [hreq.work]
    exact h slot hold
  · rw [ht]
    exact Option.some_ne_none work

lemma Moves.laden {x y : Scan ω × List Lease} (m : Moves π x y) (hs : x.1.Sound x.2 C L F H)
    (h : x.1.inbox.Laden x.1.engine) : y.1.inbox.Laden y.1.engine :=
  Moves.keeps (P := fun s => s.inbox.Laden s.engine) Move.laden m hs h

end Scan

namespace Workshop

variable {W : Workshop ω} {F : List Lease} {H : List Place} {a : Deed ω}

/-- Every permitted deed leaves work in flight. -/
lemma Sound.laden (h : W.Sound F H) (hp : W.Permits a)
    (hl : ∀ o k, W.inbox? o = some k → k.Laden W.engine) (o : Owner) (k : Inbox)
    (hk : (W.after a).inbox? o = some k) : k.Laden (W.after a).engine := by
  obtain ⟨F', h'⟩ := h.after hp
  have hbooks := h.floor.engine.books
  cases hsite : W.site? a with
  | none =>
    -- nobody touches what is in flight and is not leased by hand just now
    have hsteps : Engine.Steps 0 (fun p => p ∈ F.map Lease.place ∧ ∀ l, W.Leases a l → l.place ≠ p)
        (fun _ => ()) W.engine (W.after a).engine := by
      refine h.steps_byHand (byHand_after hp hsite) (spares_unit W a) (fun name l hl hm => ?_)
        fun l hl hm => hm.2 l hl rfl
      exact hbooks.not_flown ((perm_leased h.leases hl).mem_iff.2 (List.mem_cons_self ..))
        (List.mem_append_left _ hm.1)
    intro slot hslot
    rcases (byHand_after hp hsite).inbox? hk with hnil | ⟨k₀, hk₀, hhome, hsub⟩
    · rw [hnil] at hslot
      cases hslot
    · have hmem : (k.home, slot) ∈ F.map Lease.place :=
        hhome ▸ List.mem_map_of_mem (h.mem_flights hk₀ (hsub hslot))
      have hout : ∀ l, W.Leases a l → l.place ≠ (k.home, slot) := by
        rintro l ⟨inbox, name, k₁, k', e, rfl, hk₁, hn⟩ hl
        have hl' : (W.after (.nextLease inbox name)).leases.find? name = some l := by
          rw [after_nextLease inbox hp.2]
          simp only [hk₁, hn, Register.find?_bind_self]
        refine h'.floor.engine.books.not_flown
          ((perm_leased h'.leases hl').mem_iff.2 (List.mem_cons_self ..))
          (List.mem_append_left _ ?_)
        exact hl ▸ List.mem_map_of_mem (h'.mem_flights hk hslot)
      have hf := hbooks.isFlown (List.mem_append_left H hmem)
      have hkept := hsteps.kept (p := (k.home, slot)) ⟨hmem, hout⟩ (.inl hf)
      show ((W.after a).engine.task k.home slot).work ≠ none
      rw [hkept.request.work, hhome]
      exact hl o k₀ hk₀ slot (hsub hslot)
  | some site =>
    rcases h.shift_unit hp hsite with hW | ⟨s, s', M, M', hshift⟩
    · rw [hW] at hk ⊢
      exact hl o k hk
    · obtain ⟨N, -, hs⟩ := hshift.sound h
      obtain ⟨-, hin, heng⟩ := scan?_eq_some_iff.1 hshift.scan
      rw [hshift.engine]
      rcases inbox?_of_update hk hshift.inboxes with ⟨-, rfl⟩ | ⟨hne, hk⟩
      · refine Scan.Moves.laden hshift.moves hs ?_
        exact heng ▸ hl site.inbox s.inbox hin
      · -- the moves keep what is in flight to others
        intro slot hslot
        have hid : k.id ≠ s.inbox.id := fun hid => hne (h.floor.inboxes o site.inbox k _ hk hin hid)
        have hmem : (⟨k.home, slot, k.id⟩ : Lease) ∈ F.filter (·.inbox != s.inbox.id) :=
          List.mem_filter.2 ⟨h.mem_flights hk hslot, by simpa using hid⟩
        have hkept : s.engine.Kept s'.engine (k.home, slot) :=
          Scan.Moves.kept hshift.moves hs (List.mem_append_right _ (List.mem_append_right _
            (List.mem_append_left _ (List.mem_map_of_mem hmem))))
        rw [hkept.request.work, ← heng]
        exact hl o k hk slot hslot

/-- In every workshop that can be reached, what is in flight has work. -/
lemma Reached.laden (hW : W.Reached H) {o : Owner} {k : Inbox} (hk : W.inbox? o = some k) :
    k.Laden W.engine := by
  induction hW generalizing o k with
  | make made =>
    obtain ⟨e, rfl, -⟩ := made_of_hubs (P := fun _ => True) made trivial fun _ _ _ _ _ _ => trivial
    cases o <;> cases hk
  | deed reached permitted ih =>
    obtain ⟨F, h⟩ := reached.sound
    exact h.laden permitted (fun o k hk => ih hk) o k hk

end Workshop

end TableScan
