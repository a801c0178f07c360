import TableScan.Proofs.Renewal
import TableScan.Proofs.Turnover

/-!
# Histories

What happens on the ring of an execution whose consumer goes back to the first frame whenever it
likes, publishing, reducing, leasing and giving back in between.  Every call enters its events in
the record of the ring, dated with the epochs of the dispatcher.
-/

namespace TableScan

variable {ω σ : Type}

/-! ## What calls enter in the record -/

namespace Scan

/-- What the publication of up to `n` frames enters. -/
def postedUpTo : Nat → Scan ω → Record ω
  | 0, _ => []
  | n + 1, s =>
      match s.post?, s.publishOne? with
      | some p, some s' => .posted s.inbox.id p :: postedUpTo n s'
      | _, _ => []

/-- What the publication of all frames that fit enters. -/
def posted (s : Scan ω) : Record ω :=
  postedUpTo (s.dispatcher.frameCount - s.dispatcher.position) s

/-- What the reduction of one slot of the dispatcher's ring enters. -/
def reduction (s : Scan ω) : Record ω :=
  match s.dispatcher.ring with
  | some ring => s.engine.reduction ring
  | none => []

/-- The scan back at the first frame, in a new epoch, before it publishes. -/
def restarted (s : Scan ω) : Scan ω :=
  { s.nextEpoch with dispatcher := { s.dispatcher with position := 0, starvedAt := none } }

end Scan

/-- What a call enters in the record of the ring that the inbox listens to. -/
def Call.record (s : Scan ω) (held : List Lease) : Call → Record ω
  | next =>
      match s.next? with
      | .ok (some (l, s')) => [.leased s.inbox.id l (s'.engine.task l.ring l.slot)]
      | _ => []
  | done n =>
      match held.drop n with
      | l :: _ => if s.inbox.ring = some l.ring then [.freed l.slot] else []
      | [] => []
  | steal =>
      match s.publish.inbox.canLease s.publish.engine with
      | .ok false => s.posted ++ s.publish.reduction
      | _ => s.posted
  | rewind => if s.dispatcher.isActive then s.restarted.posted else []
  | work => s.reduction
  | wait _ => []

namespace Scan

/-- The scan after some calls, with the leases in the consumer's hands. -/
def run (s : Scan ω) (held : List Lease) : List Call → Scan ω × List Lease
  | [] => (s, held)
  | c :: calls =>
      let r := c.on s held
      r.2.1.run r.2.2 calls

/-- What some calls enter in the record. -/
def history (s : Scan ω) (held : List Lease) : List Call → Record ω
  | [] => []
  | c :: calls =>
      let r := c.on s held
      c.record s held ++ r.2.1.history r.2.2 calls

end Scan

/-! ## Laps -/

/-- The laps of a course: what is posted in the epochs up to `e`, the positions below `j` in that
epoch.  A new epoch may begin at any position. -/
inductive Course.Laps (S : Course ω σ) : Nat → Nat → List (Post ω) → Prop
  | start (e : Nat) : S.Laps e 0 []
  | post {e j : Nat} {ps : List (Post ω)} {p : Post ω} (laps : S.Laps e j ps) (lt : j < S.count)
      (asks : p.task = S.ask e j) : S.Laps e (j + 1) (ps ++ [p])
  | again {e e' j : Nat} {ps : List (Post ω)} (laps : S.Laps e j ps) (lt : e < e') :
      S.Laps e' 0 ps

/-- The frames posted in an epoch. -/
def framesIn (e : Nat) (ps : List (Post ω)) : List Nat := (ps.filter (·.epoch == e)).map (·.frame)

namespace Course.Laps

variable {S : Course ω σ} {e j : Nat} {ps : List (Post ω)}

lemma asks (h : S.Laps e j ps) : ∀ p ∈ ps, ∃ j < S.count, p.task = S.ask p.epoch j := by
  induction h with
  | start => simp
  | post _ lt asks ih =>
    intro p hp
    rcases List.mem_append.1 hp with hp | hp
    · exact ih p hp
    · obtain rfl := List.mem_singleton.1 hp
      have he : p.epoch = _ := congrArg Task.epoch asks
      exact ⟨_, lt, he ▸ asks⟩
  | again _ _ ih => exact ih

lemma epoch_le (h : S.Laps e j ps) : ∀ p ∈ ps, p.epoch ≤ e := by
  induction h with
  | start => simp
  | post _ _ asks ih =>
    intro p hp
    rcases List.mem_append.1 hp with hp | hp
    · exact ih p hp
    · obtain rfl := List.mem_singleton.1 hp
      exact Nat.le_of_eq (congrArg Task.epoch asks)
  | again _ lt ih => exact fun p hp => (ih p hp).trans (Nat.le_of_lt lt)

lemma sorted (h : S.Laps e j ps) : (ps.map (·.epoch)).Pairwise (· ≤ ·) := by
  induction h with
  | start => exact .nil
  | post laps _ asks ih =>
    rw [List.map_append, List.pairwise_append]
    refine ⟨ih, List.pairwise_singleton .., fun n hn m hm => ?_⟩
    obtain ⟨p, hp, rfl⟩ := List.mem_map.1 hn
    obtain rfl := List.mem_singleton.1 hm
    exact (laps.epoch_le p hp).trans_eq (congrArg Task.epoch asks).symm
  | again _ _ ih => exact ih

/-- The frames of the last epoch are those of the positions before the one that has come. -/
lemma framesIn_last (h : S.Laps e j ps) : framesIn e ps = (S.order.items S.count).take j := by
  induction h with
  | start => simp [framesIn]
  | @post e j ps p laps lt asks ih =>
    have hp : framesIn e [p] = [S.frame j] := by
      have he : p.epoch = e := congrArg Task.epoch asks
      have hframe : p.frame = S.frame j := congrArg Task.frame asks
      simp [framesIn, he, hframe]
    have hitem : (S.order.items S.count)[j]? = some (S.frame j) := by
      simp [Order.items_eq_map, lt, Course.frame]
    rw [List.take_add_one, hitem, ← ih, Option.toList_some, ← hp]
    simp [framesIn]
  | again laps lt =>
    have hnone : ∀ p ∈ _, _ := laps.epoch_le
    rw [List.take_zero, framesIn, List.filter_eq_nil_iff.2 fun p hp => ?_, List.map_nil]
    have := hnone p hp
    simp only [beq_iff_eq]
    omega

/-- Every epoch goes through the frames in the order of the scan, without gap or repetition. -/
lemma framesIn_prefix (h : S.Laps e j ps) (n : Nat) : framesIn n ps <+: S.order.items S.count := by
  induction h with
  | start => simp [framesIn]
  | @post e j ps p laps lt asks ih =>
    by_cases hn : n = e
    · rw [hn, (laps.post lt asks).framesIn_last]
      exact List.take_prefix ..
    · have he : p.epoch ≠ n := fun h => hn (h.symm.trans (congrArg Task.epoch asks))
      simpa [framesIn, List.filter_append, he] using ih
  | again _ _ ih => exact ih

end Course.Laps

/-! ## Dates -/

/-- The epoch of dispatcher `id` that dates an event: that of a post for inbox `k`, and the one in
which a task is run. -/
def Event.date? (k id : Nat) : Event ω → Option Nat
  | posted k' p => if k' = k then some p.epoch else none
  | reduced _ epochOf _ => some (epochOf id)
  | _ => none

/-- The dates of a record go up to `e`. -/
structure Record.Dated (t : Record ω) (k id e : Nat) : Prop where
  sorted : (t.filterMap (Event.date? k id)).Pairwise (· ≤ ·)
  le : ∀ n ∈ t.filterMap (Event.date? k id), n ≤ e

namespace Record.Dated

variable {t u before after : Record ω} {k id e e' : Nat} {p : Post ω}

lemma nil : Dated ([] : Record ω) k id e := ⟨.nil, by simp⟩

lemma append (h : t.Dated k id e) (he : e ≤ e') (hu : ∀ ev ∈ u, ∀ n ∈ ev.date? k id, n = e') :
    (t ++ u).Dated k id e' := by
  have hnew : ∀ n ∈ u.filterMap (Event.date? k id), n = e' := fun n hn => by
    obtain ⟨ev, hev, hn⟩ := List.mem_filterMap.1 hn
    exact hu ev hev n hn
  constructor
  · rw [List.filterMap_append, List.pairwise_append]
    refine ⟨h.sorted, List.Pairwise.imp_of_mem (R := fun _ _ => True) ?_ ?_, fun a ha b hb => ?_⟩
    · intro a b ha hb _
      exact Nat.le_of_eq ((hnew a ha).trans (hnew b hb).symm)
    · exact List.pairwise_of_forall fun _ _ => trivial
    · exact (hnew b hb).symm ▸ (h.le a ha).trans he
  · intro n hn
    rw [List.filterMap_append] at hn
    rcases List.mem_append.1 hn with hn | hn
    · exact (h.le n hn).trans he
    · exact Nat.le_of_eq (hnew n hn)

/-- What is posted in an epoch is reduced in it or in a later one. -/
lemma epoch_le (h : Dated (before ++ .posted k p :: after) k id e) {slot : Nat}
    {epochOf : Nat → Nat} {w : ω} (hm : .reduced slot epochOf w ∈ after) :
    p.epoch ≤ epochOf id := by
  have hs := h.sorted
  rw [List.filterMap_append, List.pairwise_append, List.filterMap_cons_some (b := p.epoch)
    (by simp [Event.date?]), List.pairwise_cons] at hs
  exact hs.2.1.1 _ (List.mem_filterMap.2 ⟨_, hm, rfl⟩)

end Record.Dated

/-! ## Histories of a course -/

namespace Scan

variable {S : Course ω σ} {k : Nat} {t : Record ω} {held held' : List Lease} {s s' : Scan ω}
  {l : Lease}

/-- The traffic on ring `i` with the scan at work there for inbox `k`. -/
def traffic (s : Scan ω) (k i : Nat) (claimed : List Nat) (leases : List Lease) : Traffic ω where
  engine := s.engine
  inboxes := Function.update (fun j => { id := j, ring := some i }) k s.inbox
  claimed
  leases

lemma setInbox_traffic {i : Nat} {claimed : List Nat} {leases : List Lease} (s' : Scan ω) :
    (({ s.traffic k i claimed leases with engine := s'.engine } : Traffic ω).setInbox k s'.inbox) =
      s'.traffic k i claimed leases := by
  simp [traffic, Traffic.setInbox]

/-- A scan of the course `S` for inbox `k` after the events `t` on its ring, with the leases `held`
in the hands of its consumer. -/
structure Recalls (S : Course ω σ) (k : Nat) (t : Record ω) (held : List Lease) (s : Scan ω) : Prop
    extends s.Runs S where
  inbox : s.inbox.id = k
  there : S.id < s.engine.epochs.size
  kept : ∃ r claimed leases others,
    leases.Perm (held.filter (·.ring == S.ring) ++ others) ∧
      (s.traffic k S.ring claimed leases).Kept S.ring r t
  laps : S.Laps (s.engine.epoch S.id) s.dispatcher.position (t.posts k)
  dated : t.Dated k S.id (s.engine.epoch S.id)

/-- The scan of a course is still one when only the dispatcher's position and patience change. -/
lemma Runs.adjust (h : s.Runs S) {position : Nat} {starvedAt : Option Nat}
    (hd : s'.dispatcher = { s.dispatcher with position, starvedAt })
    (hk : s'.inbox.ring = s.inbox.ring) : s'.Runs S := by
  refine ⟨?_, ?_, ?_, hk.trans h.home, ?_, ?_, ?_⟩ <;> rw [hd]
  · exact h.id
  · exact h.work
  · exact h.ring
  · exact h.count
  · exact h.order
  · exact h.directory

namespace Recalls

/-- A call that concerns neither the ring nor the dispatcher's place in the scan. -/
lemma quiet (h : s.Recalls S k t held) {starvedAt : Option Nat}
    (hd : s'.dispatcher = { s.dispatcher with starvedAt }) (hk : s'.inbox = s.inbox)
    (hr : s'.engine.rings[S.ring]? = s.engine.rings[S.ring]?)
    (he : s'.engine.epochs = s.engine.epochs) : s'.Recalls S k t held := by
  obtain ⟨r, claimed, leases, others, hperm, hkept⟩ := h.kept
  have hepoch : s'.engine.epoch = s.engine.epoch := by
    funext d
    simp only [Engine.epoch, he]
  refine ⟨h.adjust hd (congrArg Inbox.ring hk), (congrArg Inbox.id hk).trans h.inbox, he ▸ h.there,
    ⟨r, claimed, leases, others, hperm, ?_⟩, ?_, ?_⟩
  · have hkept' := hkept.elsewhere (e := s'.engine) hr
    rw [List.append_nil] at hkept'
    simpa [traffic, hk] using hkept'
  · rw [hepoch, hd]
    exact h.laps
  · rw [hepoch]
    exact h.dated

/-- A frame is published. -/
lemma publishOne? (h : s.Recalls S k t held) (hp : s.publishOne? = some s') :
    ∃ p, s.post? = some p ∧ s'.Recalls S k (t ++ [.posted k p]) held := by
  obtain ⟨r, claimed, leases, others, hperm, hkept⟩ := h.kept
  obtain ⟨p, hpost, hrun⟩ := Traffic.Run.publishOne? (s := s.traffic k S.ring claimed leases)
    k (a := s) rfl (by simp [traffic]) h.ring hp
  rw [setInbox_traffic] at hrun
  obtain ⟨r', hkept'⟩ := hrun.kept_from hkept
  have hsize := (Move.publish (π := fun _ : ω => ()) (M := []) h.moored.home hp).sameSite.size
  obtain ⟨ring, work, frame, slot, e, hring, hwork, hframe, hclaim, rfl⟩ := publishOne?_cases hp
  obtain ⟨hlt, hat⟩ := h.frameAt?_eq_some_iff.1 hframe
  have hepoch : e.epoch = s.engine.epoch := Engine.epoch_claim? hclaim
  have hasks : p.task = S.ask (s.engine.epoch S.id) s.dispatcher.position := by
    simp only [post?, hring, hwork, hframe, hclaim, Option.map_some, Option.some.injEq] at hpost
    rw [← hpost, Post.task, Course.ask, ← hat, h.id, h.directory,
      Option.some.inj (hwork.symm.trans h.work)]
  refine ⟨p, hpost, h.adjust rfl rfl, h.inbox, hsize.epochs ▸ h.there,
    ⟨r', claimed, leases, others, hperm, hkept'⟩, ?_, ?_⟩
  · show S.Laps (e.epoch S.id) (s.dispatcher.position + 1) _
    rw [hepoch, Record.posts_append, Record.posts_posted, Record.posts_nil]
    exact h.laps.post hlt hasks
  · show Record.Dated _ k S.id (e.epoch S.id)
    rw [hepoch]
    have hp : p.epoch = s.engine.epoch S.id := congrArg Task.epoch hasks
    exact h.dated.append (Nat.le_refl _) (by simp [Event.date?, hp])

/-- Frames are published. -/
lemma publishUpTo (n : Nat) (h : s.Recalls S k t held) :
    (Scan.publishUpTo n s).Recalls S k (t ++ s.postedUpTo n) held := by
  induction n generalizing s t with
  | zero => simpa [Scan.publishUpTo, postedUpTo] using h
  | succ n ih =>
    unfold Scan.publishUpTo postedUpTo
    cases hp : s.publishOne? with
    | none => cases s.post? <;> simpa using h
    | some s' =>
      obtain ⟨p, hpost, h'⟩ := h.publishOne? hp
      simpa [hpost, h.inbox] using ih h'

lemma publish (h : s.Recalls S k t held) : s.publish.Recalls S k (t ++ s.posted) held :=
  h.publishUpTo _

/-- A slot is reduced, if there is one. -/
lemma reduceOne (h : s.Recalls S k t held) :
    s.reduceOne.2.Recalls S k (t ++ s.reduction) held := by
  obtain ⟨r, claimed, leases, others, hperm, hkept⟩ := h.kept
  obtain ⟨r', hkept'⟩ := (Traffic.Run.reduceOldest hkept).kept_from hkept
  have heq : s.reduceOne.2 = { s with engine := (s.engine.reduceOldest S.ring).2 } := by
    simp only [Scan.reduceOne, h.ring]
  have hred : s.reduction = s.engine.reduction S.ring := by simp only [reduction, h.ring]
  have hepoch : (s.engine.reduceOldest S.ring).2.epoch = s.engine.epoch :=
    Engine.epoch_reduceOldest ..
  have hposts : (s.engine.reduction S.ring).posts k = [] := by
    unfold Engine.reduction
    cases s.engine.rings[S.ring]?.bind (·.due.head?) <;> rfl
  rw [heq, hred]
  refine ⟨h.adjust rfl rfl, h.inbox,
    (Engine.sameSize_reduceOldest s.engine S.ring).epochs ▸ h.there,
    ⟨r', claimed, leases, others, hperm, hkept'⟩, ?_, ?_⟩
  · rw [hepoch, Record.posts_append, hposts, List.append_nil]
    exact h.laps
  · rw [hepoch]
    refine h.dated.append (Nat.le_refl _) fun ev hev => ?_
    unfold Engine.reduction at hev
    obtain ⟨slot, -, rfl⟩ := Option.map_eq_some_iff.1 (Option.mem_toList.1 hev)
    simp [Event.date?]

/-- The next slot is leased. -/
lemma next? (h : s.Recalls S k t held) (hn : s.next? = .ok (some (l, s'))) :
    s'.Recalls S k (t ++ [.leased k l (s'.engine.task l.ring l.slot)]) (held ++ [l]) := by
  obtain ⟨r, claimed, leases, others, hperm, hkept⟩ := h.kept
  obtain ⟨inbox, e, hnext, rfl⟩ := next?_of_scan hn
  have hlisten : (s.traffic k S.ring claimed leases).inboxes k = s.inbox := by simp [traffic]
  have hkept' := hkept.lease k (hlisten ▸ hnext)
  have hring : l.ring = S.ring := hkept'.leases l (by simp [Traffic.setInbox])
  have hsame := (Move.lease (π := fun _ : ω => ()) (M := []) hn).sameSite
  obtain ⟨ring, slot, rest, -, -, -, -, -, -, rfl, rfl⟩ := Inbox.next?_cases hnext
  refine ⟨h.adjust rfl rfl, h.inbox, hsame.size.epochs ▸ h.there,
    ⟨r.lease l.slot, claimed, l :: leases, others, ?_, ?_⟩, ?_, ?_⟩
  · rw [List.filter_append, List.filter_singleton, hring, beq_self_eq_true]
    refine (hperm.cons l).trans ?_
    simpa using List.perm_middle.symm
  · simpa [traffic, Traffic.setInbox] using hkept'
  · rw [Record.posts_append, Record.posts_leased, Record.posts_nil, List.append_nil]
    exact h.laps
  · exact h.dated.append (Nat.le_refl _) (by simp [Event.date?])

/-- A lease is given back.  It may be for a slot of another ring. -/
lemma done (h : s.Recalls S k t (held ++ l :: held')) :
    (s.done l).Recalls S k (t ++ if S.ring = l.ring then [.freed l.slot] else [])
      (held ++ held') := by
  split
  · rename_i hring
    obtain ⟨r, claimed, leases, others, hperm, hkept⟩ := h.kept
    have hsplit : leases.Perm (l :: ((held ++ held').filter (·.ring == S.ring) ++ others)) := by
      refine hperm.trans ?_
      rw [List.filter_append, List.filter_cons_of_pos (by simp [hring]), List.filter_append]
      simp
    obtain ⟨r', hkept'⟩ := hkept.step (.giveBack (hsplit.mem_iff.2 (List.mem_cons_self ..)))
    refine ⟨h.adjust rfl rfl, h.inbox, h.there,
      ⟨r', claimed, leases.erase l, others, ?_, hkept'⟩, ?_, ?_⟩
    · simpa using hsplit.erase l
    · rw [Record.posts_append, Record.posts_freed, Record.posts_nil, List.append_nil]
      exact h.laps
    · exact h.dated.append (Nat.le_refl _) (by simp [Event.date?])
  · rename_i hring
    have h' : (s.done l).Recalls S k t (held ++ l :: held') :=
      h.quiet rfl rfl (Engine.getElem?_modifyRing_ne hring) rfl
    obtain ⟨r, claimed, leases, others, hperm, hkept⟩ := h'.kept
    rw [List.append_nil]
    refine ⟨h'.toRuns, h'.inbox, h'.there, ⟨r, claimed, leases, others, ?_, hkept⟩, h'.laps,
      h'.dated⟩
    rwa [List.filter_append, List.filter_cons_of_neg (by simpa using Ne.symm hring),
      ← List.filter_append] at hperm

/-- The scan goes back to the first frame. -/
lemma restarted (h : s.Recalls S k t held) : s.restarted.Recalls S k t held := by
  obtain ⟨r, claimed, leases, others, hperm, hkept⟩ := h.kept
  have hlt : s.engine.epoch S.id < (s.engine.nextEpoch s.dispatcher.id).epoch S.id := by
    rw [← h.id]
    exact epoch_lt_nextEpoch (h.id ▸ h.there)
  have hkept' := hkept.elsewhere (e := s.engine.nextEpoch s.dispatcher.id) rfl
  have hdated := h.dated.append (u := []) (Nat.le_of_lt hlt) (by simp)
  rw [List.append_nil] at hkept' hdated
  exact ⟨h.adjust rfl rfl, h.inbox, s.sameSize_nextEpoch.epochs ▸ h.there,
    ⟨r, claimed, leases, others, hperm, hkept'⟩, h.laps.again hlt, hdated⟩

/-! ## Calls -/

/-- A consumer tries to get on. -/
lemma help (h : s.Recalls S k t held) :
    s.help.2.Recalls S k (t ++ Call.steal.record s held) held := by
  have hpub := h.publish
  unfold Scan.help Call.record
  dsimp only
  cases hc : s.publish.inbox.canLease s.publish.engine with
  | error fault => exact hpub
  | ok ready =>
    cases ready with
    | true => exact hpub
    | false =>
      have hred := hpub.reduceOne
      rw [List.append_assoc] at hred
      dsimp only
      rcases hr : s.publish.reduceOne with ⟨_ | _, s'⟩ <;> rw [hr] at hred
      · dsimp only
        split_ifs <;> exact hred
      · exact hred

lemma steal (h : s.Recalls S k t held) :
    s.steal.2.Recalls S k (t ++ Call.steal.record s held) held := by
  have hhelp := h.help
  unfold Scan.steal
  split
  all_goals
    rename_i hh
    rw [hh] at hhelp
  · exact hhelp
  · dsimp only
    split
    · exact hhelp.quiet rfl rfl rfl rfl
    · exact hhelp.quiet rfl rfl rfl rfl
  · exact hhelp.quiet rfl rfl rfl rfl

lemma rewind (h : s.Recalls S k t held) :
    s.rewind.Recalls S k (t ++ Call.rewind.record s held) held := by
  have hactive : s.dispatcher.isActive = true := by simp [Dispatcher.isActive, h.work]
  simp only [Scan.rewind, Call.record, hactive, if_true]
  exact h.restarted.publish

/-- Every call enters in the record what it does. -/
lemma call (h : s.Recalls S k t held) (c : Call) :
    (c.on s held).2.1.Recalls S k (t ++ c.record s held) (c.on s held).2.2 := by
  cases c with
  | next =>
    simp only [Call.on, Call.record, h.inbox]
    rcases hn : s.next? with fault | _ | ⟨l, s'⟩
    · simpa using h
    · simpa using h
    · exact h.next? hn
  | done n =>
    simp only [Call.on, Call.record, h.home]
    rcases hd : held.drop n with _ | ⟨l, rest⟩
    · simpa using h
    · rw [← List.take_append_drop n held, hd] at h
      simpa using h.done
  | steal =>
    have hs := h.steal
    simp only [Call.on]
    rcases hsteal : s.steal with ⟨_ | _, s'⟩ <;> rw [hsteal] at hs <;> exact hs
  | rewind => exact h.rewind
  | work => exact h.reduceOne
  | wait time =>
    rw [Call.record, List.append_nil]
    exact h.quiet rfl rfl rfl rfl

/-- Any number of calls enter in the record what they do. -/
lemma calls (h : s.Recalls S k t held) (calls : List Call) :
    (s.run held calls).1.Recalls S k (t ++ s.history held calls) (s.run held calls).2 := by
  induction calls generalizing s t held with
  | nil => simpa [run, history] using h
  | cons c calls ih =>
    have h' := ih (h.call c)
    rwa [List.append_assoc] at h'

end Recalls

end Scan

end TableScan
