/-
# Setka.Federation.SendQueueRetention — what the send queue forgets, and when.

An entry may go once every sender process has acknowledged it, or once it is five minutes old; and a
periodic sweep lets everything go that is older. Two things stand in the way. Acknowledgements are
minimised over the processes that have said something, so one that has not yet is left out. And the
sweep takes the largest overdue *time* for a position, which in practice is past every entry.
-/
import Setka.Federation.SendQueue
import Setka.Lib.Transition

namespace Setka.Federation

open Setka.Api Setka.Lib FederationRemoteSendQueue Dict

/-! ## §1 Runs -/

/-- One call on the queue, with the time of the call where it is not one of an entry. -/
inductive RetentionInput
  | edu (now : ℤ) (destination eduType : String) (content : Json) (key : Option (List String))
  | presence (states : List (ℤ × UserPresenceState)) (destinations : List String)
  | ack (now : ℤ) (instanceName : String) (token : ℤ)
  | clear (now : ℤ)

/-- The queue, position and time of everything that was ever queued, and every acknowledgement. -/
structure Retention where
  queue : FederationRemoteSendQueue
  entries : List (ℤ × ℤ)
  acks : List (String × ℤ)

/-- Position and time of the entries of one call for presence. -/
def queuedPresence : ℤ → List (ℤ × UserPresenceState) → List (ℤ × ℤ)
  | _, [] => []
  | pos, turn :: states => (pos, turn.1) :: queuedPresence (pos + 1) states

/-- One call. -/
def Retention.step (cfg : SendQueueConfig) (w : Retention) : RetentionInput → Retention
  | .edu now destination eduType content key =>
    { w with
      queue := w.queue.buildAndSendEdu cfg now destination eduType content key
      entries :=
        if destination = cfg.serverName then w.entries else w.entries ++ [(w.queue.pos, now)] }
  | .presence states destinations =>
    { w with
      queue := w.queue.sendPresenceToDestinations states destinations
      entries := w.entries ++ queuedPresence w.queue.pos states }
  | .ack _ instanceName token =>
    { w with
      queue := w.queue.federationAck cfg instanceName token
      acks := w.acks ++ [(instanceName, token)] }
  | .clear now => { w with queue := w.queue.clearQueue now }

/-- A run from the empty queue. -/
def Retention.run (cfg : SendQueueConfig) (inputs : List RetentionInput) : Retention :=
  inputs.foldl (Retention.step cfg) ⟨.init, [], []⟩

/-- The queue holds an entry at a position. -/
def Held (q : FederationRemoteSendQueue) (pos : ℤ) : Prop :=
  pos ∈ q.presenceDestinations.keys ∨ pos ∈ q.keyedEduChanged.keys ∨ pos ∈ q.edus.keys

/-- Every configured process has acknowledged a position at or past this one. -/
def AckedByAll (cfg : SendQueueConfig) (acks : List (String × ℤ)) (pos : ℤ) : Prop :=
  ∀ instanceName ∈ cfg.senderInstances, ∃ token, (instanceName, token) ∈ acks ∧ pos ≤ token

/-- Queued more than five minutes before a call. -/
def Overdue (now t : ℤ) : Prop := t < now - fiveMinutes

instance (now t : ℤ) : Decidable (Overdue now t) := inferInstanceAs (Decidable (_ < _))

/-- The time of an acknowledgement or a sweep. The other calls drop nothing. -/
def RetentionInput.now? : RetentionInput → Option ℤ
  | .ack now _ _ => some now
  | .clear now => some now
  | _ => none

/-- **What a call may drop and what a sweep must drop.** -/
def Retention.Keeps (cfg : SendQueueConfig) (w : Retention) (input : RetentionInput) : Prop :=
  (∀ e ∈ w.entries, Held w.queue e.1 → ¬ Held (w.step cfg input).queue e.1 →
    AckedByAll cfg (w.step cfg input).acks e.1 ∨ ∃ now ∈ input.now?, Overdue now e.2) ∧
  ∀ now, input = .clear now → ∀ e ∈ w.entries, Overdue now e.2 → ¬ Held (w.step cfg input).queue e.1

/-- The smallest acknowledged position after an acknowledgement. -/
def smallestAck (q : FederationRemoteSendQueue) (instanceName : String) (token : ℤ) : ℤ :=
  ((q.senderPositions.set instanceName token).values.min?).getD token

/-- **The condition**, on the state before the call. At an acknowledgement: every configured process
has been heard from, or what lies below the smallest acknowledged position is overdue. At a sweep
that finds an overdue time: the entries whose position is below the largest such time are overdue or
acknowledged by all, and all overdue entries are among them. -/
def Retention.Sound (cfg : SendQueueConfig) (w : Retention) : RetentionInput → Prop
  | .ack now instanceName token =>
    (∀ i ∈ cfg.senderInstances, i ∈ (w.queue.senderPositions.set instanceName token).keys) ∨
      ∀ e ∈ w.entries, Held w.queue e.1 → e.1 < smallestAck w.queue instanceName token → Overdue now e.2
  | .clear now =>
    ∀ time ∈ (w.queue.overdueTimes now).max?, ∀ e ∈ w.entries, Held w.queue e.1 →
      (e.1 < time → Overdue now e.2 ∨ AckedByAll cfg w.acks e.1) ∧ (Overdue now e.2 → e.1 < time)
  | _ => True

/-! ## §2 What the calls do to the entries -/

theorem get?_fromPos {ν : Type} (position : ℤ) (d : Dict ℤ ν) (k : ℤ) :
    (fromPos position d).get? k = if k < position then none else d.get? k := by
  have hmem : k ∈ (Dict.slice d.sortedItems 0 (d.bisectLeft position)).map Prod.fst ↔
      k < position ∧ k ∈ d.keys := by
    rw [slice_bisectLeft, List.mem_map, mem_keys_iff]
    constructor
    · rintro ⟨e, he, rfl⟩
      obtain ⟨he, hlt⟩ := List.mem_filter.mp he
      exact ⟨of_decide_eq_true hlt, e.2, mem_sortedItems.mp he⟩
    · rintro ⟨hlt, v, hv⟩
      exact ⟨(k, v), List.mem_filter.mpr ⟨mem_sortedItems.mpr hv, decide_eq_true hlt⟩, rfl⟩
  unfold fromPos
  rw [get?_foldl_erase_eq]
  by_cases hk : k < position
  · by_cases hkeys : k ∈ d.keys
    · rw [if_pos (hmem.mpr ⟨hk, hkeys⟩), if_pos hk]
    · rw [if_neg fun h => hkeys (hmem.mp h).2, if_pos hk, get?_eq_none_iff.mpr hkeys]
  · rw [if_neg fun h => hk (hmem.mp h).1, if_neg hk]

theorem mem_keys_fromPos {ν : Type} {position : ℤ} {d : Dict ℤ ν} {k : ℤ} :
    k ∈ (fromPos position d).keys ↔ k ∈ d.keys ∧ position ≤ k := by
  simp only [mem_keys_iff, get?_fromPos]
  by_cases hk : k < position
  · simp [hk]
  · simp [hk, not_lt.mp hk]

variable {q : FederationRemoteSendQueue} {pos : ℤ}

/-- **Clearing keeps what is at or past the position.** -/
theorem held_clearQueueBeforePos {position : ℤ} :
    Held (q.clearQueueBeforePos position) pos ↔ Held q pos ∧ position ≤ pos := by
  unfold Held clearQueueBeforePos
  simp only [mem_keys_fromPos]
  tauto

variable {now : ℤ}

theorem mem_overdueTimes {t : ℤ} : t ∈ q.overdueTimes now ↔ t ∈ q.posTime.keys ∧ Overdue now t := by
  unfold overdueTimes Overdue
  rw [slice_bisectLeft, List.mem_map, mem_keys_iff]
  constructor
  · rintro ⟨e, he, rfl⟩
    obtain ⟨he, hlt⟩ := List.mem_filter.mp he
    exact ⟨⟨e.2, mem_sortedItems.mp he⟩, of_decide_eq_true hlt⟩
  · rintro ⟨⟨v, hv⟩, hlt⟩
    exact ⟨(t, v), List.mem_filter.mpr ⟨mem_sortedItems.mpr hv, decide_eq_true hlt⟩, rfl⟩

variable {cfg : SendQueueConfig}

/-- An acknowledgement clears up to the smallest one, or up to its own token when no process is
configured. -/
theorem held_federationAck {instanceName : String} {token : ℤ} : Held (q.federationAck cfg instanceName token) pos ↔
      Held q pos ∧ (if cfg.senderInstances ≠ [] then smallestAck q instanceName token else token) ≤ pos := by
  unfold federationAck
  split
  · exact held_clearQueueBeforePos
  · exact held_clearQueueBeforePos

/-- A sweep that finds an overdue time clears up to the largest, taken for a position. -/
theorem held_clearQueue : Held (q.clearQueue now) pos ↔
      Held q pos ∧ ∀ time ∈ (q.overdueTimes now).max?, time ≤ pos := by
  unfold clearQueue
  cases (q.overdueTimes now).max? with
  | none => simp
  | some time => exact held_clearQueueBeforePos.trans (by simp [Held])

/-- The times that are left after a sweep. -/
theorem mem_posTime_clearQueue {t : ℤ} :
    t ∈ (q.clearQueue now).posTime.keys ↔ t ∈ q.posTime.keys ∧ ¬ Overdue now t := by
  have herase : t ∈ ((q.overdueTimes now).foldl Dict.erase q.posTime).keys ↔
      t ∈ q.posTime.keys ∧ ¬ Overdue now t := by
    simp only [mem_keys_iff, get?_foldl_erase_eq]
    by_cases ht : t ∈ q.overdueTimes now
    · simp [ht, (mem_overdueTimes.mp ht).2]
    · rw [if_neg ht, ← mem_keys_iff]
      refine ⟨fun hkey => ⟨hkey, fun hover => ht (mem_overdueTimes.mpr ⟨hkey, hover⟩)⟩, And.left⟩
  unfold clearQueue
  cases hmax : (q.overdueTimes now).max? with
  | none =>
    have hnil : q.overdueTimes now = [] := List.max?_eq_none_iff.mp hmax
    rw [hnil] at herase
    exact herase
  | some time => exact herase

/-- What a new entry changes. -/
structure Enqueued (now : ℤ) (q q' : FederationRemoteSendQueue) : Prop where
  pos : q'.pos = q.pos + 1
  times : ∀ t, t ∈ q'.posTime.keys ↔ t = now ∨ t ∈ q.posTime.keys
  sender : q'.senderPositions = q.senderPositions
  held : ∀ p, Held q' p ↔ Held q p ∨ p = q.pos

theorem enqueued_sendPresence (states : List UserPresenceState) (destinations : List String)
    (q : FederationRemoteSendQueue) (turn : ℤ × UserPresenceState) :
    Enqueued turn.1 q (q.sendPresence states destinations turn) where
  pos := rfl
  times _ := mem_keys_set
  sender := rfl
  held p := by
    simp only [Held, sendPresence, nextPos, mem_keys_set]
    tauto

/-- An EDU for another server is one new entry, whatever its key. -/
theorem enqueued_buildAndSendEdu (now : ℤ) {destination eduType : String} {content : Json}
    {key : Option (List String)} (q : FederationRemoteSendQueue) (h : destination ≠ cfg.serverName) :
    Enqueued now q (q.buildAndSendEdu cfg now destination eduType content key) := by
  unfold buildAndSendEdu
  rw [if_neg h]
  cases key.filter fun k => k ≠ [] with
  | some key =>
    refine ⟨rfl, fun _ => mem_keys_set, rfl, fun p => ?_⟩
    simp only [Held, nextPos, mem_keys_set]
    tauto
  | none =>
    refine ⟨rfl, fun _ => mem_keys_set, rfl, fun p => ?_⟩
    simp only [Held, nextPos, mem_keys_set]
    tauto

/-! ## §3 The invariant -/

/-- The queue against the history: a held entry still has its time in `pos_time`, and the sender
positions are those of the last acknowledgements. -/
structure Tracks (cfg : SendQueueConfig) (w : Retention) : Prop where
  below : ∀ e ∈ w.entries, e.1 < w.queue.pos
  timed : ∀ e ∈ w.entries, Held w.queue e.1 → e.2 ∈ w.queue.posTime.keys
  heard : cfg.senderInstances ≠ [] → ∀ i v, (i, v) ∈ w.acks → i ∈ w.queue.senderPositions.keys
  acked : ∀ i v, w.queue.senderPositions.get? i = some v → (i, v) ∈ w.acks

theorem Tracks.init (cfg : SendQueueConfig) : Tracks cfg ⟨.init, [], []⟩ where
  below := by simp
  timed := by simp
  heard := by simp
  acked := by simp [FederationRemoteSendQueue.init]

variable {w : Retention}

theorem Tracks.enqueue (h : Tracks cfg w) (hq : Enqueued now w.queue q) :
    Tracks cfg { w with queue := q, entries := w.entries ++ [(w.queue.pos, now)] } where
  below e he := by
    show e.1 < q.pos
    rw [hq.pos]
    rcases List.mem_append.mp he with he | he
    · have hlt := h.below e he
      omega
    obtain rfl := List.mem_singleton.mp he
    show w.queue.pos < w.queue.pos + 1
    omega
  timed e he hheld := by
    refine (hq.times e.2).mpr ?_
    rcases List.mem_append.mp he with he | he
    · rcases (hq.held e.1).mp hheld with hheld | heq
      · exact Or.inr (h.timed e he hheld)
      · have hlt := h.below e he
        omega
    · obtain rfl := List.mem_singleton.mp he
      exact Or.inl rfl
  heard hne i v hv := by
    show i ∈ q.senderPositions.keys
    rw [hq.sender]
    exact h.heard hne i v hv
  acked i v hv := by
    replace hv : q.senderPositions.get? i = some v := hv
    rw [hq.sender] at hv
    exact h.acked i v hv

/-- The loop over the states of one presence call. -/
theorem Tracks.foldl_sendPresence (states : List UserPresenceState) (destinations : List String)
    (turns : List (ℤ × UserPresenceState)) (h : Tracks cfg w) : Tracks cfg { w with
          queue := turns.foldl (sendPresence states destinations) w.queue
          entries := w.entries ++ queuedPresence w.queue.pos turns } ∧
      ∀ p, Held w.queue p → Held (turns.foldl (sendPresence states destinations) w.queue) p := by
  induction turns generalizing w with
  | nil =>
    rw [queuedPresence, List.append_nil]
    exact ⟨h, fun _ hp => hp⟩
  | cons turn turns ih =>
    have hq := enqueued_sendPresence states destinations w.queue turn
    obtain ⟨htracks, hheld⟩ := ih (h.enqueue hq)
    rw [hq.pos, List.append_assoc, List.singleton_append] at htracks
    exact ⟨htracks, fun p hp => hheld p ((hq.held p).mpr (Or.inl hp))⟩

/-- The smallest acknowledged position is that of some process, and at most that of each. -/
theorem smallestAck_le {instanceName i : String} {token v : ℤ}
    (hv : (q.senderPositions.set instanceName token).get? i = some v) :
    smallestAck q instanceName token ≤ v := by
  have hmem : v ∈ (q.senderPositions.set instanceName token).values :=
    mem_values_iff.mpr ⟨i, hv⟩
  unfold smallestAck
  cases hmin : (q.senderPositions.set instanceName token).values.min? with
  | none =>
    rw [List.min?_eq_none_iff.mp hmin] at hmem
    cases hmem
  | some m => exact (List.min?_eq_some_iff.mp hmin).2 v hmem

theorem Tracks.ack (h : Tracks cfg w) (instanceName : String) (token : ℤ) : Tracks cfg { w with
        queue := w.queue.federationAck cfg instanceName token
        acks := w.acks ++ [(instanceName, token)] } := by
  have hpos : (w.queue.federationAck cfg instanceName token).pos = w.queue.pos := by
    unfold federationAck
    split <;> rfl
  have htimes : (w.queue.federationAck cfg instanceName token).posTime = w.queue.posTime := by
    unfold federationAck
    split <;> rfl
  have hsender : cfg.senderInstances ≠ [] → (w.queue.federationAck cfg instanceName token).senderPositions =
        w.queue.senderPositions.set instanceName token := by
    intro hne
    unfold federationAck
    rw [if_pos hne]
    rfl
  refine ⟨fun e he => hpos ▸ h.below e he, fun e he hheld => ?_, fun hne i v hv => ?_, fun i v hv => ?_⟩
  · show e.2 ∈ (w.queue.federationAck cfg instanceName token).posTime.keys
    rw [htimes]
    exact h.timed e he (held_federationAck.mp hheld).1
  · show i ∈ (w.queue.federationAck cfg instanceName token).senderPositions.keys
    rw [hsender hne, mem_keys_set]
    rcases List.mem_append.mp hv with hv | hv
    · exact Or.inr (h.heard hne i v hv)
    · simp only [List.mem_singleton, Prod.mk.injEq] at hv
      exact Or.inl hv.1
  · replace hv : (w.queue.federationAck cfg instanceName token).senderPositions.get? i = some v := hv
    show (i, v) ∈ w.acks ++ [(instanceName, token)]
    by_cases hne : cfg.senderInstances ≠ []
    · rw [hsender hne, get?_set] at hv
      split at hv
      · rename_i hi
        rw [hi, Option.some.inj hv]
        exact List.mem_append_right _ (List.mem_singleton_self _)
      · exact List.mem_append_left _ (h.acked i v hv)
    · have hsame : (w.queue.federationAck cfg instanceName token).senderPositions = w.queue.senderPositions := by
        unfold federationAck
        rw [if_neg hne]
        rfl
      rw [hsame] at hv
      exact List.mem_append_left _ (h.acked i v hv)

/-- A sweep under the condition keeps the times of the entries that stay. -/
theorem Tracks.clear (h : Tracks cfg w) (hsound : w.Sound cfg (.clear now)) :
    Tracks cfg { w with queue := w.queue.clearQueue now } := by
  have hsame : (w.queue.clearQueue now).pos = w.queue.pos ∧
      (w.queue.clearQueue now).senderPositions = w.queue.senderPositions := by
    unfold clearQueue
    split <;> exact ⟨rfl, rfl⟩
  refine ⟨fun e he => hsame.1 ▸ h.below e he, fun e he hheld => ?_,
    fun hne i v hv => hsame.2 ▸ h.heard hne i v hv, fun i v hv => h.acked i v (hsame.2 ▸ hv)⟩
  obtain ⟨hbefore, hpast⟩ := held_clearQueue.mp hheld
  have hkey := h.timed e he hbefore
  refine mem_posTime_clearQueue.mpr ⟨hkey, fun hover => ?_⟩
  -- an overdue entry has its time in the map, so the sweep found a time and dropped the entry
  cases hmax : (w.queue.overdueTimes now).max? with
  | none =>
    have hmem := mem_overdueTimes.mpr ⟨hkey, hover⟩
    rw [List.max?_eq_none_iff.mp hmax] at hmem
    cases hmem
  | some time =>
    have hlt := (hsound time hmax e he hbefore).2 hover
    exact absurd hlt (not_lt.mpr (hpast time hmax))

/-- **Every call under the condition keeps the invariant.** -/
theorem Tracks.step (h : Tracks cfg w) {input : RetentionInput}
    (hsound : w.Sound cfg input) : Tracks cfg (w.step cfg input) := by
  cases input with
  | edu now destination eduType content key =>
    by_cases hd : destination = cfg.serverName
    · have hq : w.queue.buildAndSendEdu cfg now destination eduType content key = w.queue :=
        if_pos hd
      unfold Retention.step
      dsimp only
      rw [hq, if_pos hd]
      exact h
    · unfold Retention.step
      dsimp only
      rw [if_neg hd]
      exact h.enqueue (enqueued_buildAndSendEdu now w.queue hd)
  | presence states destinations =>
    exact (h.foldl_sendPresence (states.map Prod.snd) destinations states).1
  | ack _ instanceName token => exact h.ack instanceName token
  | clear now => exact h.clear hsound

/-! ## §4 When nothing is lost -/

/-- Calls that put something into the queue drop nothing. -/
theorem held_step_of_send (h : Tracks cfg w) {input : RetentionInput} (hinput : input.now? = none) {p : ℤ}
    (hp : Held w.queue p) : Held (w.step cfg input).queue p := by
  cases input with
  | edu now destination eduType content key =>
    show Held (w.queue.buildAndSendEdu cfg now destination eduType content key) p
    by_cases hd : destination = cfg.serverName
    · rw [show w.queue.buildAndSendEdu cfg now destination eduType content key = w.queue from
        if_pos hd]
      exact hp
    · exact ((enqueued_buildAndSendEdu now w.queue hd).held p).mpr (Or.inl hp)
  | presence states destinations =>
    exact (h.foldl_sendPresence (states.map Prod.snd) destinations states).2 p hp
  | ack => cases hinput
  | clear => cases hinput

/-- **One call does what it should exactly under the condition.** -/
theorem keeps_iff_sound (h : Tracks cfg w) (input : RetentionInput) : w.Keeps cfg input ↔ w.Sound cfg input := by
  cases input with
  | edu =>
    refine iff_of_true ⟨fun e _ hp hnot => ?_, fun _ h => by cases h⟩ trivial
    exact absurd (held_step_of_send h rfl hp) hnot
  | presence =>
    refine iff_of_true ⟨fun e _ hp hnot => ?_, fun _ h => by cases h⟩ trivial
    exact absurd (held_step_of_send h rfl hp) hnot
  | ack now instanceName token =>
    have hheld : ∀ p, Held (w.step cfg (.ack now instanceName token)).queue p ↔ _ := fun p =>
      held_federationAck
    constructor
    · rintro ⟨hdrop, -⟩
      by_cases hall : ∀ i ∈ cfg.senderInstances, i ∈ (w.queue.senderPositions.set instanceName token).keys
      · exact Or.inl hall
      -- a process that was never heard from has acknowledged nothing
      right
      intro e he hp hlt
      simp only [not_forall] at hall
      obtain ⟨i, hi, hnot⟩ := hall
      have hne : cfg.senderInstances ≠ [] := List.ne_nil_of_mem hi
      have hgone : ¬ Held (w.step cfg (.ack now instanceName token)).queue e.1 := by
        rw [hheld, if_pos hne]
        exact fun hstay => absurd hlt (not_lt.mpr hstay.2)
      rcases hdrop e he hp hgone with hacked | ⟨n, hn, hover⟩
      · obtain ⟨v, hv, _⟩ := hacked i hi
        exact absurd ((h.ack instanceName token).heard hne i v hv) (by
          have hsender : (w.queue.federationAck cfg instanceName token).senderPositions =
              w.queue.senderPositions.set instanceName token := by
            unfold federationAck
            rw [if_pos hne]
            rfl
          show i ∉ (w.queue.federationAck cfg instanceName token).senderPositions.keys
          rw [hsender]
          exact hnot)
      · cases hn
        exact hover
    · intro hsound
      refine ⟨fun e he hp hnot => ?_, fun _ h => by cases h⟩
      by_cases hne : cfg.senderInstances ≠ []
      · rw [hheld, if_pos hne] at hnot
        have hlt : e.1 < smallestAck w.queue instanceName token :=
          not_le.mp fun hle => hnot ⟨hp, hle⟩
        rcases hsound with hall | hold
        · left
          intro i hi
          obtain ⟨v, hv⟩ := mem_keys_iff.mp (hall i hi)
          refine ⟨v, ?_, le_of_lt (lt_of_lt_of_le hlt (smallestAck_le hv))⟩
          show (i, v) ∈ w.acks ++ [(instanceName, token)]
          rw [get?_set] at hv
          split at hv
          · rename_i heq
            rw [heq, Option.some.inj hv]
            exact List.mem_append_right _ (List.mem_singleton_self _)
          · exact List.mem_append_left _ (h.acked i v hv)
        · exact Or.inr ⟨now, rfl, hold e he hp hlt⟩
      · -- without configured processes everybody has acknowledged
        left
        intro i hi
        rw [not_not.mp hne] at hi
        cases hi
  | clear now =>
    have hheld : ∀ p, Held (w.step cfg (.clear now)).queue p ↔ _ := fun p => held_clearQueue
    constructor
    · rintro ⟨hdrop, hclear⟩ time htime e he hp
      refine ⟨fun hlt => ?_, fun hover => ?_⟩
      · have hgone : ¬ Held (w.step cfg (.clear now)).queue e.1 := by
          rw [hheld]
          exact fun hstay => absurd hlt (not_lt.mpr (hstay.2 time htime))
        rcases hdrop e he hp hgone with hacked | ⟨n, hn, hover⟩
        · exact Or.inr hacked
        · cases hn
          exact Or.inl hover
      · by_contra hnot
        refine hclear now rfl e he hover ((hheld e.1).mpr ⟨hp, fun t ht => ?_⟩)
        obtain rfl : t = time := Option.some.inj (ht.symm.trans htime)
        exact not_lt.mp hnot
    · intro hsound
      refine ⟨fun e he hp hnot => ?_, fun n hn e he hover hstay => ?_⟩
      · rw [hheld] at hnot
        cases hmax : (w.queue.overdueTimes now).max? with
        | none =>
          rw [hmax] at hnot
          exact absurd ⟨hp, by simp⟩ hnot
        | some time =>
          have hlt : e.1 < time := by
            by_contra hge
            refine hnot ⟨hp, fun t ht => ?_⟩
            obtain rfl : t = time := Option.some.inj (ht.symm.trans hmax)
            exact not_lt.mp hge
          rcases (hsound time hmax e he hp).1 hlt with hover | hacked
          · exact Or.inr ⟨now, rfl, hover⟩
          · exact Or.inl hacked
      · obtain rfl : now = n := by
          cases hn
          rfl
        exact (mem_posTime_clearQueue.mp ((h.clear hsound).timed e he hstay)).2 hover

theorem Retention.run_concat (cfg : SendQueueConfig) (inputs : List RetentionInput) (input : RetentionInput) :
    Retention.run cfg (inputs ++ [input]) = (Retention.run cfg inputs).step cfg input := by
  unfold Retention.run
  rw [List.foldl_append]
  rfl

theorem tracks_run {inputs : List RetentionInput}
    (h : AllSteps (fun before input => (Retention.run cfg before).Sound cfg input) inputs) :
    Tracks cfg (Retention.run cfg inputs) := by
  induction inputs using List.reverseRecOn with
  | nil => exact Tracks.init cfg
  | append_singleton inputs input ih =>
    obtain ⟨hinputs, hlast⟩ := allSteps_concat.mp h
    rw [Retention.run_concat]
    exact (ih hinputs).step hlast

/-- **The queue drops only what may go and sweeps all that must, exactly when every call of the run
meets the condition.** -/
theorem retention_iff (cfg : SendQueueConfig) (inputs : List RetentionInput) :
    AllSteps (fun before input => (Retention.run cfg before).Keeps cfg input) inputs ↔
      AllSteps (fun before input => (Retention.run cfg before).Sound cfg input) inputs := by
  induction inputs using List.reverseRecOn with
  | nil => exact iff_of_true (allSteps_nil _) (allSteps_nil _)
  | append_singleton inputs input ih =>
    rw [allSteps_concat, allSteps_concat, ih]
    exact and_congr_right fun hinputs => keeps_iff_sound (tracks_run hinputs) input

/-- An entry acknowledged by one of two processes, the other being silent so far. -/
def silentSender : List RetentionInput :=
  [.edu 1000000 "b.example" "m.receipt" .null none, .edu 1000001 "b.example" "m.receipt" .null none,
    .ack 1000002 "sender1" 2]

/-- An entry a millisecond old when the sweep finds another of almost seven minutes. -/
def freshEntry : List RetentionInput :=
  [.edu 1000000 "b.example" "m.receipt" .null none, .edu 1400000 "b.example" "m.receipt" .null none, .clear 1400001]

instance (q : FederationRemoteSendQueue) (pos : ℤ) : Decidable (Held q pos) :=
  inferInstanceAs (Decidable (_ ∨ _ ∨ _))

/-- **Entries are lost in both ways**: the first run drops position 1, of which `sender2` has heard
nothing, and the second position 2, which is a millisecond old and which nobody has acknowledged. -/
theorem entries_lost : let cfg : SendQueueConfig := ⟨"a.example", ["sender1", "sender2"]⟩
    ¬ AllSteps (fun before input => (Retention.run cfg before).Keeps cfg input) silentSender ∧
      ¬ AllSteps (fun before input => (Retention.run cfg before).Keeps cfg input) freshEntry := by
  intro cfg
  constructor
  · intro h
    have hlast := ((@allSteps_concat _ _ silentSender.dropLast _).mp h).2.1 (1, 1000000)
      (by decide +kernel) (by decide +kernel) (by decide +kernel)
    rcases hlast with hacked | ⟨now, hnow, hover⟩
    · obtain ⟨token, htoken, _⟩ := hacked "sender2" (by decide)
      have hacks : (Retention.step cfg (Retention.run cfg silentSender.dropLast)
          (.ack 1000002 "sender1" 2)).acks = [("sender1", 2)] := rfl
      rw [hacks] at htoken
      simp at htoken
    · cases hnow
      exact absurd hover (by decide)
  · intro h
    have hlast := ((@allSteps_concat _ _ freshEntry.dropLast _).mp h).2.1 (2, 1400000)
      (by decide +kernel) (by decide +kernel) (by decide +kernel)
    rcases hlast with hacked | ⟨now, hnow, hover⟩
    · obtain ⟨token, htoken, _⟩ := hacked "sender2" (by decide)
      cases htoken
    · cases hnow
      exact absurd hover (by decide)

end Setka.Federation
