import TableScan.Proofs.Moves

/-!
# Stability

What every step of an execution keeps, the operations made of such steps keep: waiting,
collecting and settling, and a cursor that moves on.
-/

namespace TableScan

variable {ω : Type} {P : Scan ω → Prop} {s s' : Scan ω}

namespace Scan

/-- The scan with no frame left to publish. -/
def halted (s : Scan ω) : Scan ω :=
  { s with dispatcher := { s.dispatcher with position := s.dispatcher.frameCount } }

/-- A property that every step of an execution keeps.  It does not depend on bookkeeping or on the
world. -/
structure Steady (P : Scan ω → Prop) : Prop where
  publishOne? : ∀ {s s'}, P s → s.publishOne? = some s' → P s'
  reduceOldest : ∀ {s : Scan ω}, P s → ∀ i, P { s with engine := (s.engine.reduceOldest i).2 }
  next? : ∀ {s s' l}, P s → s.next? = .ok (some (l, s')) → P s'
  done : ∀ {s : Scan ω}, P s → ∀ l, P (s.done l)
  quiet : ∀ {s : Scan ω} {e : Engine ω}, P s → e.rings = s.engine.rings → e.hubs = s.engine.hubs →
    e.epochs = s.engine.epochs → e.tallies = s.engine.tallies → P { s with engine := e }
  starvedFrom : ∀ {s : Scan ω}, P s → ∀ since, P (s.starvedFrom since)

/-- A property that an execution keeps which may also be given up at any time. -/
structure Stable (P : Scan ω → Prop) : Prop extends Steady P where
  halted : ∀ {s : Scan ω}, P s → P s.halted

namespace Steady

lemma publish (h : Steady P) (hs : P s) : P s.publish :=
  publish_keeps h.publishOne? hs

lemma reduceOne (h : Steady P) (hs : P s) : P s.reduceOne.2 := by
  rcases s.reduceOne_snd with hr | ⟨i, -, hr⟩ <;> rw [hr]
  · exact hs
  · exact h.reduceOldest hs i

lemma note (h : Steady P) (hs : P s) (x : Notice) : P (s.note x) := h.quiet hs rfl rfl rfl rfl

lemma help (h : Steady P) (hs : P s) : P s.help.2 := by
  have hp := h.publish hs
  unfold Scan.help
  dsimp only
  split
  · exact hp
  · exact hp
  · have hr := h.reduceOne hp
    split <;> rename_i hred <;> rw [hred] at hr
    · exact hr
    · split
      · exact hr
      · split <;> exact hr

lemma giveUp (h : Steady P) (hs : P s) (waited : Nat) : P (s.giveUp waited).2 :=
  h.note (h.starvedFrom hs none) _

lemma starve (h : Steady P) (hs : P s) : P s.starve.2 := by
  have hclock : ∀ clock, P { s with engine := { s.engine with clock } } :=
    fun clock => h.quiet hs rfl rfl rfl rfl
  exact h.giveUp (hclock _) _

lemma steal (h : Steady P) (hs : P s) : P s.steal.2 := by
  have hh := h.help hs
  unfold Scan.steal
  split <;> rename_i hr <;> rw [hr] at hh
  · exact hh
  · dsimp only
    split
    · exact h.giveUp hh 0
    · exact h.starvedFrom hh _
  · exact h.starvedFrom hh none

lemma await (h : Steady P) (hs : P s) : P s.await.2 := by
  fun_induction Scan.await s with
  | case1 => exact hs
  | case2 s l s' hn => exact h.next? hs hn
  | case3 s hn fault s' hh =>
    have hp := h.help hs
    rwa [hh] at hp
  | case4 s hn s' hh ih =>
    have hp := h.help hs
    rw [hh] at hp
    exact ih (h.starvedFrom hp none)
  | case5 s hn s' hh =>
    have hp := h.help hs
    rw [hh] at hp
    exact h.starvedFrom hp none
  | case6 s hn s' hh failure s₁ hst =>
    have hp := h.help hs
    rw [hh] at hp
    have hstarve := h.starve hp
    rwa [hst] at hstarve

lemma gather (h : Steady P) (hs : P s) (n : Nat) : P (s.gather n).2 := by
  induction n generalizing s with
  | zero => exact hs
  | succ n ih =>
    have hp := h.await hs
    unfold Scan.gather
    split <;> rename_i ha <;> rw [ha] at hp
    · exact hp
    · rename_i l t
      have hg := ih (h.done hp l)
      split
      · rename_i hr
        rwa [hr] at hg
      · exact hg

end Steady

namespace Stable

lemma settle (h : Stable P) (hs : P s) : P s.settle.2 := by
  fun_induction Scan.settle s with
  | case1 | case2 => exact hs
  | case3 s hf l s' hn ih => exact ih (h.done (h.next? hs hn) l)
  | case4 s hf hn s' hr ih =>
    have hp := h.reduceOne hs
    rw [hr] at hp
    exact ih hp
  | case5 s hf hn s' hr =>
    have hp := h.reduceOne hs
    rwa [hr] at hp

lemma drain (h : Stable P) (hs : P s) : P s.drain.2 :=
  h.settle (h.halted hs)

lemma replace (h : Stable P) (hs : P s) : P s.replace.2 := by
  unfold Scan.replace
  split
  · exact hs
  · exact h.drain (h.note hs _)

end Stable

end Scan

namespace Cursor

lemma steady_giveBack (h : Scan.Steady P) (hs : P s) (c : Cursor) : P (c.giveBack s) := by
  unfold giveBack
  split
  · exact h.done hs _
  · exact hs

lemma steady_advance (h : Scan.Steady P) (hs : P s) (c : Cursor) : P (c.advance s).2.2 := by
  have wait : ∀ {s s' : Scan ω} {r : Except Stop Lease}, s.await = (r, s') → P s → P s' := by
    intro s s' r ha hs
    have hp := h.await hs
    rwa [ha] at hp
  fun_induction Cursor.advance c s with
  | case1 c s _ stop s' ha => exact wait ha hs
  | case2 c s _ l s' ha _ _ ih => exact ih (h.done (wait ha hs) l)
  | case3 c s _ l s' ha => exact h.done (h.note (wait ha hs) _) l
  | case4 c s _ l s' ha => exact h.note (h.done (wait ha hs) l) _
  | case5 c s _ l s' ha _ _ _ _ _ ih => exact ih (h.done (wait ha hs) l)
  | case6 c s _ l s' ha => exact wait ha hs
  | case7 => exact hs

lemma steady_next (h : Scan.Steady P) (hs : P s) (c : Cursor) : P (c.next s).2.2 := by
  have ha := steady_advance h (steady_giveBack h hs c) c.emptied
  unfold Cursor.next
  split
  · exact hs
  · exact hs
  all_goals
    split
    · exact hs
    · split <;> rename_i hadv <;> rwa [hadv] at ha

end Cursor

end TableScan
