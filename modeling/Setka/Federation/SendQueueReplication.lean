/-
# Setka.Federation.SendQueueReplication — what a reader of the send queue receives.

A reader polls contiguous ranges of positions while the queue keeps growing. The upper end of each
slice is one behind `bisect_right`, so a poll that does not ask for everything the queue holds gets an
entry past its range, and that entry again with the next poll. Polls that do ask for everything are
exact, over any run.
-/
import Setka.Federation.SendQueue
import Setka.Lib.Transition

namespace Setka.Federation

open Setka.Api Setka.Lib FederationRemoteSendQueue Dict
open List (mem_append_left mem_append_right mem_singleton mem_singleton_self mem_map_of_mem)

/-! ## §1 Runs -/

/-- What was put into the queue at a position. -/
inductive Sent
  | presence (state : UserPresenceState) (destinations : List String)
  | keyed (key : EduKey) (edu : Edu)
  | edu (edu : Edu)

/-- One call on the queue: an EDU, presence for some destinations, or a poll of the reader up to a
token. -/
inductive QueueInput
  | edu (now : ℤ) (destination eduType : String) (content : Json) (key : Option (List String))
  | presence (states : List (ℤ × UserPresenceState)) (destinations : List String)
  | poll (toToken : ℤ)

/-- A poll, with the queue it found. -/
structure Poll where
  queue : FederationRemoteSendQueue
  fromToken : ℤ
  toToken : ℤ

/-- What the reader gets back. -/
def Poll.answer (p : Poll) : Except Error (List (ℤ × String × BaseFederationRow) × ℤ × Bool) :=
  p.queue.getReplicationRows p.fromToken p.toToken

/-- The rows of the answer. -/
def Poll.rows (p : Poll) : List (ℤ × String × BaseFederationRow) :=
  match p.answer with
  | .ok (rows, _) => rows
  | .error _ => []

/-- The queue, what was sent through it at which position, and the reader with its polls so far. -/
structure Replication where
  queue : FederationRemoteSendQueue
  sent : List (ℤ × Sent)
  reader : ℤ
  polls : List Poll

/-- All rows in the order they were received. -/
def Replication.received (w : Replication) : List (ℤ × String × BaseFederationRow) :=
  w.polls.flatMap Poll.rows

/-- What a call sends, at the queue's next position: nothing for the own server. -/
def sentEdu (cfg : SendQueueConfig) (pos : ℤ) (destination eduType : String) (content : Json)
    (key : Option (List String)) : List (ℤ × Sent) :=
  if destination = cfg.serverName then []
  else
    let edu : Edu := ⟨eduType, content, cfg.serverName, destination⟩
    match key.filter fun k => k ≠ [] with
    | some key => [(pos, .keyed (destination, key) edu)]
    | none => [(pos, .edu edu)]

/-- One row for each state, at consecutive positions. -/
def sentPresence (destinations : List String) : ℤ → List (ℤ × UserPresenceState) → List (ℤ × Sent)
  | _, [] => []
  | pos, turn :: states =>
    (pos, .presence turn.2 destinations) :: sentPresence destinations (pos + 1) states

/-- One call. -/
def Replication.step (cfg : SendQueueConfig) (w : Replication) : QueueInput → Replication
  | .edu now destination eduType content key =>
    { w with
      queue := w.queue.buildAndSendEdu cfg now destination eduType content key
      sent := w.sent ++ sentEdu cfg w.queue.pos destination eduType content key }
  | .presence states destinations =>
    { w with
      queue := w.queue.sendPresenceToDestinations states destinations
      sent := w.sent ++ sentPresence destinations w.queue.pos states }
  | .poll toToken =>
    { w with reader := toToken, polls := w.polls ++ [⟨w.queue, w.reader, toToken⟩] }

/-- A run from the empty queue, for a reader that starts at a token. -/
def Replication.run (cfg : SendQueueConfig) (start : ℤ) (inputs : List QueueInput) : Replication :=
  inputs.foldl (Replication.step cfg) ⟨.init, [], start, []⟩

/-- The reader continues where it was, and never asks past the current token. -/
def Replication.MayPoll (w : Replication) : QueueInput → Prop
  | .poll toToken => w.reader ≤ toToken ∧ toToken ≤ w.queue.getCurrentToken
  | _ => True

/-- Runs in which the reader polls contiguous ranges. -/
def Contiguous (cfg : SendQueueConfig) (start : ℤ) (inputs : List QueueInput) : Prop :=
  AllSteps (fun before input => (Replication.run cfg start before).MayPoll input) inputs

/-- The queue holds no entry past a token. -/
def NothingPast (q : FederationRemoteSendQueue) (toToken : ℤ) : Prop :=
  (∀ pos ∈ q.presenceDestinations.keys, pos ≤ toToken) ∧
    (∀ pos ∈ q.keyedEduChanged.keys, pos ≤ toToken) ∧ ∀ pos ∈ q.edus.keys, pos ≤ toToken

/-- Whether a row is of a keyed EDU. -/
def ofKey (k : EduKey) (row : ℤ × String × BaseFederationRow) : Bool :=
  match row.2.2 with
  | .keyedEdu key edu => (edu.destination, key) = k
  | _ => false

/-- **Exact replication**: every poll is answered, with rows of its own range; what stands in the
range the reader went through was received exactly once; and of a keyed EDU the last version came
last. -/
structure Exact (start : ℤ) (w : Replication) : Prop where
  answered : ∀ p ∈ w.polls, ∃ rows, p.answer = .ok (rows, p.toToken, false)
  within : ∀ p ∈ w.polls, ∀ row ∈ p.rows, p.fromToken < row.1 ∧ row.1 ≤ p.toToken
  edus : ∀ pos edu, (pos, Sent.edu edu) ∈ w.sent → start < pos → pos ≤ w.reader →
    w.received.filter (fun row => row.1 = pos) = [(pos, "e", .edu edu)]
  presence : ∀ pos state destinations, (pos, Sent.presence state destinations) ∈ w.sent →
    start < pos → pos ≤ w.reader → ∃ shown : UserPresenceState, shown.userId = state.userId ∧
      w.received.filter (fun row => row.1 = pos) = [(pos, "pd", .presenceDestinations shown destinations)]
  keyed : ∀ pos k edu, (pos, Sent.keyed k edu) ∈ w.sent → start < pos → pos ≤ w.reader →
    (∀ pos' edu', (pos', Sent.keyed k edu') ∈ w.sent → pos' ≤ pos) →
    (w.received.filter (ofKey k)).getLast? = some (pos, "k", .keyedEdu k.2 edu)

/-! ## §2 The queue holds what was sent -/

/-- The maps of the queue against the list of what was sent. -/
structure Matches (q : FederationRemoteSendQueue) (sent : List (ℤ × Sent)) : Prop where
  below : ∀ e ∈ sent, e.1 < q.pos
  increasing : sent.Pairwise fun a b => a.1 < b.1
  presence : ∀ pos x, q.presenceDestinations.get? pos = some x ↔
    ∃ state, (pos, Sent.presence state x.2) ∈ sent ∧ state.userId = x.1
  changed : ∀ pos k, q.keyedEduChanged.get? pos = some k ↔ ∃ edu, (pos, Sent.keyed k edu) ∈ sent
  edus : ∀ pos edu, q.edus.get? pos = some edu ↔ (pos, Sent.edu edu) ∈ sent
  known : ∀ pos state destinations, (pos, Sent.presence state destinations) ∈ sent →
    ∃ shown, q.presenceMap.get? state.userId = some shown
  own : ∀ userId state, q.presenceMap.get? userId = some state → state.userId = userId
  newest : ∀ pos k edu, (pos, Sent.keyed k edu) ∈ sent →
    (∀ pos' edu', (pos', Sent.keyed k edu') ∈ sent → pos' ≤ pos) → q.keyedEdu.get? k = some edu
  stored : ∀ pos k edu, (pos, Sent.keyed k edu) ∈ sent → ∃ shown, q.keyedEdu.get? k = some shown
  destination : ∀ k edu, q.keyedEdu.get? k = some edu → edu.destination = k.1

theorem Matches.init : Matches .init [] where
  below := by simp
  increasing := List.Pairwise.nil
  presence := by simp [FederationRemoteSendQueue.init]
  changed := by simp [FederationRemoteSendQueue.init]
  edus := by simp [FederationRemoteSendQueue.init]
  known := by simp
  own := by simp [FederationRemoteSendQueue.init]
  newest := by simp
  stored := by simp
  destination := by simp [FederationRemoteSendQueue.init]

section Enqueue

variable {q : FederationRemoteSendQueue} {sent : List (ℤ × Sent)}

variable {p : ℤ}

/-- A new entry at the queue's position in one of the maps. -/
theorem get?_set_pos {ν : Type} {d : Dict ℤ ν} {pos : ℤ} {x y : ν} (hfresh : ∀ p y, d.get? p = some y → p < pos) :
    (d.set pos x).get? p = some y ↔ d.get? p = some y ∨ p = pos ∧ y = x := by
  by_cases hp : p = pos
  · subst hp
    have hnone : d.get? p ≠ some y := fun h => lt_irrefl p (hfresh p y h)
    simp [hnone, eq_comm]
  · simp [hp]

theorem Matches.presence_lt (h : Matches q sent) {x : String × List String}
    (hx : q.presenceDestinations.get? p = some x) : p < q.pos := by
  obtain ⟨state, hmem, _⟩ := (h.presence p x).mp hx
  exact h.below _ hmem

theorem Matches.changed_lt (h : Matches q sent) {k : EduKey}
    (hk : q.keyedEduChanged.get? p = some k) : p < q.pos := by
  obtain ⟨edu, hmem⟩ := (h.changed p k).mp hk
  exact h.below _ hmem

theorem Matches.edus_lt (h : Matches q sent) {edu : Edu} (he : q.edus.get? p = some edu) : p < q.pos :=
  h.below _ ((h.edus p edu).mp he)

/-- Positions stay increasing and below the queue's. -/
theorem Matches.append_order (h : Matches q sent) (s : Sent) : (∀ e ∈ sent ++ [(q.pos, s)], e.1 < q.pos + 1) ∧
      (sent ++ [(q.pos, s)]).Pairwise fun a b => a.1 < b.1 := by
  constructor
  · intro e he
    rcases List.mem_append.mp he with he | he
    · have hlt := h.below e he
      omega
    obtain rfl := List.mem_singleton.mp he
    show q.pos < q.pos + 1
    omega
  · refine List.pairwise_append.mpr ⟨h.increasing, List.pairwise_singleton _ _, ?_⟩
    intro a ha b hb
    obtain rfl := List.mem_singleton.mp hb
    exact h.below a ha

theorem Matches.enqueue_edu (h : Matches q sent) (now : ℤ) (edu : Edu) :
    Matches { q.nextPos now with edus := q.edus.set q.pos edu } (sent ++ [(q.pos, .edu edu)]) where
  below := (h.append_order _).1
  increasing := (h.append_order _).2
  presence p x := by
    refine (h.presence p x).trans (exists_congr fun state => ?_)
    simp
  changed p k := by
    refine (h.changed p k).trans (exists_congr fun e => ?_)
    simp
  edus p e := by
    refine (get?_set_pos fun _ _ => h.edus_lt).trans ?_
    rw [h.edus]
    simp
  known p state destinations hmem := by
    refine h.known p state destinations ?_
    simpa using hmem
  own := h.own
  newest p k e hmem hlast := by
    refine h.newest p k e (by simpa using hmem) fun p' e' hmem' => hlast p' e' ?_
    exact mem_append_left _ hmem'
  stored p k e hmem := h.stored p k e (by simpa using hmem)
  destination := h.destination

theorem Matches.enqueue_keyed (h : Matches q sent) (now : ℤ) (k : EduKey) {edu : Edu}
    (hdest : edu.destination = k.1) :
    Matches { q.nextPos now with
        keyedEdu := q.keyedEdu.set k edu
        keyedEduChanged := q.keyedEduChanged.set q.pos k }
      (sent ++ [(q.pos, .keyed k edu)]) where
  below := (h.append_order _).1
  increasing := (h.append_order _).2
  presence p x := by
    refine (h.presence p x).trans (exists_congr fun state => ?_)
    simp
  changed p k' := by
    refine (get?_set_pos fun _ _ => h.changed_lt).trans ?_
    rw [h.changed]
    constructor
    · rintro (⟨e, he⟩ | ⟨rfl, rfl⟩)
      · exact ⟨e, mem_append_left _ he⟩
      · exact ⟨edu, by simp⟩
    rintro ⟨e, he⟩
    rcases List.mem_append.mp he with he | he
    · exact Or.inl ⟨e, he⟩
    · simp only [mem_singleton, Prod.mk.injEq, Sent.keyed.injEq] at he
      exact Or.inr ⟨he.1, he.2.1⟩
  edus p e := by
    refine (h.edus p e).trans ?_
    simp
  known p state destinations hmem := by
    refine h.known p state destinations ?_
    simpa using hmem
  own := h.own
  newest p k' e hmem hlast := by
    show (q.keyedEdu.set k edu).get? k' = some e
    rw [get?_set]
    by_cases hk : k' = k
    · -- the entry just sent is the last of its key
      subst hk
      rw [if_pos rfl]
      rcases List.mem_append.mp hmem with hold | hnew
      · have hle := hlast q.pos edu (by simp)
        have hlt := h.below _ hold
        exact absurd hlt (not_lt.mpr hle)
      · simp only [mem_singleton, Prod.mk.injEq, Sent.keyed.injEq] at hnew
        rw [hnew.2.2]
    · rw [if_neg hk]
      refine h.newest p k' e ?_ fun p' e' hmem' => hlast p' e' (mem_append_left _ hmem')
      rcases List.mem_append.mp hmem with hold | hnew
      · exact hold
      · simp only [mem_singleton, Prod.mk.injEq, Sent.keyed.injEq] at hnew
        exact absurd hnew.2.1 hk
  stored p k' e hmem := by
    show ∃ shown, (q.keyedEdu.set k edu).get? k' = some shown
    rw [get?_set]
    by_cases hk : k' = k
    · exact ⟨edu, if_pos hk⟩
    rw [if_neg hk]
    rcases List.mem_append.mp hmem with hold | hnew
    · exact h.stored p k' e hold
    · simp only [mem_singleton, Prod.mk.injEq, Sent.keyed.injEq] at hnew
      exact absurd hnew.2.1 hk
  destination k' e he := by
    replace he : (q.keyedEdu.set k edu).get? k' = some e := he
    rw [get?_set] at he
    split at he
    · rename_i hk
      rw [← Option.some.inj he, hdest, hk]
    · exact h.destination k' e he

/-- What the presence map holds after an update: the states of the call, and the older ones. -/
theorem get?_updatePresence {states : List UserPresenceState} {d : Dict String UserPresenceState}
    (hown : ∀ userId state, d.get? userId = some state → state.userId = userId) :
    (∀ userId state, (updatePresence states d).get? userId = some state → state.userId = userId) ∧
      (∀ userId, (∃ shown, d.get? userId = some shown) →
        ∃ shown, (updatePresence states d).get? userId = some shown) ∧
      ∀ state ∈ states, ∃ shown, (updatePresence states d).get? state.userId = some shown := by
  induction states generalizing d with
  | nil => exact ⟨hown, fun _ h => h, by simp⟩
  | cons state states ih =>
    have hset : ∀ userId shown, (d.set state.userId state).get? userId = some shown → shown.userId = userId := by
      intro userId shown h
      rw [get?_set] at h
      split at h
      · rename_i heq
        rw [← Option.some.inj h, heq]
      · exact hown userId shown h
    obtain ⟨hown', hkeep, hall⟩ := ih hset
    have hstate : ∃ shown, (d.set state.userId state).get? state.userId = some shown :=
      ⟨state, by simp⟩
    refine ⟨hown', fun userId h => hkeep userId ?_, fun s hs => ?_⟩
    · obtain ⟨shown, hshown⟩ := h
      by_cases hu : userId = state.userId
      · exact hu ▸ hstate
      · exact ⟨shown, by rw [get?_set, if_neg hu, hshown]⟩
    · rcases List.mem_cons.mp hs with rfl | hs
      · exact hkeep _ hstate
      · exact hall s hs

theorem Matches.enqueue_presence (h : Matches q sent) (states : List UserPresenceState)
    (destinations : List String) {turn : ℤ × UserPresenceState} (hturn : turn.2 ∈ states) :
    Matches (q.sendPresence states destinations turn) (sent ++ [(q.pos, .presence turn.2 destinations)]) where
  below := (h.append_order _).1
  increasing := (h.append_order _).2
  presence p x := by
    refine (get?_set_pos fun _ _ => h.presence_lt).trans ?_
    rw [h.presence]
    constructor
    · rintro (⟨state, hmem, hid⟩ | ⟨rfl, rfl⟩)
      · exact ⟨state, mem_append_left _ hmem, hid⟩
      · exact ⟨turn.2, by simp, rfl⟩
    rintro ⟨state, hmem, hid⟩
    rcases List.mem_append.mp hmem with hmem | hmem
    · exact Or.inl ⟨state, hmem, hid⟩
    · simp only [mem_singleton, Prod.mk.injEq, Sent.presence.injEq] at hmem
      exact Or.inr ⟨hmem.1, Prod.ext (hid.symm.trans (by rw [hmem.2.1])) hmem.2.2⟩
  changed p k := by
    refine (h.changed p k).trans (exists_congr fun e => ?_)
    simp
  edus p e := by
    refine (h.edus p e).trans ?_
    simp
  known p state ds hmem := by
    obtain ⟨-, hkeep, hall⟩ := @get?_updatePresence states _ h.own
    rcases List.mem_append.mp hmem with hmem | hmem
    · exact hkeep _ (h.known p state ds hmem)
    simp only [mem_singleton, Prod.mk.injEq, Sent.presence.injEq] at hmem
    rw [hmem.2.1]
    exact hall turn.2 hturn
  own := (@get?_updatePresence states _ h.own).1
  newest p k e hmem hlast := by
    refine h.newest p k e (by simpa using hmem) fun p' e' hmem' => hlast p' e' ?_
    exact mem_append_left _ hmem'
  stored p k e hmem := h.stored p k e (by simpa using hmem)
  destination := h.destination

/-- The loop of `send_presence_to_destinations`. -/
theorem Matches.foldl_sendPresence (states : List UserPresenceState) (destinations : List String)
    {turns : List (ℤ × UserPresenceState)} (hturns : ∀ turn ∈ turns, turn.2 ∈ states)
    (h : Matches q sent) :
    Matches (turns.foldl (sendPresence states destinations) q) (sent ++ sentPresence destinations q.pos turns) := by
  induction turns generalizing q sent with
  | nil =>
    rw [sentPresence, List.append_nil]
    exact h
  | cons turn turns ih =>
    have hnext := h.enqueue_presence states destinations (hturns turn List.mem_cons_self)
    have hrest := ih (fun t ht => hturns t (List.mem_cons_of_mem turn ht)) hnext
    rw [List.append_assoc, List.singleton_append] at hrest
    exact hrest

/-- **Every call keeps queue and list in step.** -/
theorem Matches.step {cfg : SendQueueConfig} {w : Replication} (h : Matches w.queue w.sent)
    (input : QueueInput) : Matches (w.step cfg input).queue (w.step cfg input).sent := by
  cases input with
  | poll => exact h
  | presence states destinations =>
    exact h.foldl_sendPresence _ destinations fun turn hturn => mem_map_of_mem hturn
  | edu now destination eduType content key =>
    show Matches (w.queue.buildAndSendEdu cfg now destination eduType content key)
      (w.sent ++ sentEdu cfg w.queue.pos destination eduType content key)
    unfold buildAndSendEdu sentEdu
    split
    · rw [List.append_nil]
      exact h
    cases key.filter fun k => k ≠ [] with
    | some key => exact h.enqueue_keyed now (destination, key) rfl
    | none => exact h.enqueue_edu now _

end Enqueue

/-! ## §3 One poll -/

section Polled

variable {ν : Type} {d : Dict ℤ ν} {fromToken toToken : ℤ}

theorem polled_sorted (d : Dict ℤ ν) (fromToken toToken : ℤ) :
    (polled d fromToken toToken).Pairwise fun a b => a.1 < b.1 :=
  d.pairwise_sortedItems.sublist ((List.drop_sublist _ _).trans (List.take_sublist _ _))

theorem get?_of_mem_polled (h : fromToken ≤ toToken) {e : ℤ × ν}
    (he : e ∈ polled d fromToken toToken) : d.get? e.1 = some e.2 ∧ fromToken < e.1 := by
  unfold polled at he
  rw [slice_bisectRight_succ d h] at he
  rcases List.mem_append.mp he with he | he
  · obtain ⟨hmem, hcond⟩ := List.mem_filter.mp he
    exact ⟨mem_sortedItems.mp hmem, (of_decide_eq_true hcond).1⟩
  · obtain ⟨hmem, hcond⟩ := List.mem_filter.mp (List.mem_of_mem_take he)
    exact ⟨mem_sortedItems.mp hmem, lt_of_le_of_lt h (of_decide_eq_true hcond)⟩

/-- A poll finds the entries of its range. -/
theorem mem_polled (h : fromToken ≤ toToken) {e : ℤ × ν} (hget : d.get? e.1 = some e.2)
    (hfrom : fromToken < e.1) (hto : e.1 ≤ toToken) : e ∈ polled d fromToken toToken := by
  unfold polled
  rw [slice_bisectRight_succ d h]
  exact mem_append_left _ (List.mem_filter.mpr ⟨mem_sortedItems.mpr hget, decide_eq_true ⟨hfrom, hto⟩⟩)

/-- **The off-by-one.** When the map holds an entry past the range, the last entry a poll finds is
one past the range. -/
theorem polled_past (h : fromToken ≤ toToken) {pos : ℤ} (hpos : pos ∈ d.keys) (hlt : toToken < pos) :
    ∃ front e, polled d fromToken toToken = front ++ [e] ∧ toToken < e.1 := by
  unfold polled
  rw [slice_bisectRight_succ d h]
  obtain ⟨v, hv⟩ := mem_keys_iff.mp hpos
  have hmem : (pos, v) ∈ d.sortedItems.filter fun e => toToken < e.1 :=
    List.mem_filter.mpr ⟨mem_sortedItems.mpr hv, decide_eq_true hlt⟩
  cases hpast : d.sortedItems.filter fun e => toToken < e.1 with
  | nil =>
    rw [hpast] at hmem
    cases hmem
  | cons e rest =>
    refine ⟨_, e, rfl, ?_⟩
    have he : e ∈ d.sortedItems.filter fun e => toToken < e.1 := hpast ▸ List.mem_cons_self
    exact of_decide_eq_true (List.mem_filter.mp he).2

end Polled

variable {pos : ℤ}

/-- The last position of a key in a list of increasing positions. -/
theorem get?_lastPositions {l : List (ℤ × EduKey)} (hl : l.Pairwise fun a b => a.1 < b.1) {k : EduKey} :
    (lastPositions l).get? k = some pos ↔ (pos, k) ∈ l ∧ ∀ pos', (pos', k) ∈ l → pos' ≤ pos := by
  unfold lastPositions
  induction l using List.reverseRecOn with
  | nil => simp
  | append_singleton l e ih =>
    obtain ⟨p, a⟩ := e
    obtain ⟨hold, _, hlast⟩ := List.pairwise_append.mp hl
    have hbefore : ∀ q b, (q, b) ∈ l → q < p := fun q b hq =>
      hlast (q, b) hq (p, a) (mem_singleton_self _)
    rw [List.foldl_append, List.foldl_cons, List.foldl_nil, get?_set]
    by_cases hk : k = a
    · subst hk
      rw [if_pos rfl]
      constructor
      · intro h
        obtain rfl := Option.some.inj h
        refine ⟨by simp, fun pos' hpos' => ?_⟩
        rcases List.mem_append.mp hpos' with hpos' | hpos'
        · exact le_of_lt (hbefore _ _ hpos')
        · simp only [mem_singleton, Prod.mk.injEq] at hpos'
          exact le_of_eq hpos'.1
      · rintro ⟨hmem, hmax⟩
        rcases List.mem_append.mp hmem with hmem | hmem
        · exact absurd (hbefore _ _ hmem) (not_lt.mpr (hmax p (by simp)))
        · simp only [mem_singleton, Prod.mk.injEq] at hmem
          rw [hmem.1]
    · rw [if_neg hk, ih hold]
      simp [hk]

section Rows

variable {q : FederationRemoteSendQueue} {sent : List (ℤ × Sent)} {fromToken toToken : ℤ}

/-- The three kinds of rows. -/
def presenceRow (q : FederationRemoteSendQueue) (e : ℤ × String × List String) : ℤ × BaseFederationRow :=
  (e.1, .presenceDestinations ((q.presenceMap.get? e.2.1).getD default) e.2.2)

def keyedRow (q : FederationRemoteSendQueue) (e : EduKey × ℤ) : ℤ × BaseFederationRow :=
  (e.2, .keyedEdu e.1.2 ((q.keyedEdu.get? e.1).getD default))

def eduRow (e : ℤ × Edu) : ℤ × BaseFederationRow := (e.1, .edu e.2)

/-- The rows of a poll before they are sorted. -/
def foundRows (fromToken toToken : ℤ) (q : FederationRemoteSendQueue) : List (ℤ × BaseFederationRow) :=
  (polled q.presenceDestinations fromToken toToken).map (presenceRow q) ++
    (lastPositions (polled q.keyedEduChanged fromToken toToken)).items.map (keyedRow q) ++
    (polled q.edus fromToken toToken).map eduRow

variable {pos : ℤ}

/-- Nothing shares its position with anything else. -/
theorem Matches.unique (h : Matches q sent) {s s' : Sent} (hs : (pos, s) ∈ sent)
    (hs' : (pos, s') ∈ sent) : s = s' := by
  have hnodup : (sent.map Prod.fst).Nodup :=
    List.pairwise_map.mpr (h.increasing.imp fun hlt => ne_of_lt hlt)
  exact congrArg Prod.snd (List.inj_on_of_nodup_map hnodup hs hs' rfl)

/-- No `KeyError`: every user and every key of an entry is known. -/
theorem collectRows_eq (h : Matches q sent) (hle : fromToken ≤ toToken) :
    collectRows fromToken toToken q = .ok (foundRows fromToken toToken q) := by
  have hpresence : (polled q.presenceDestinations fromToken toToken).mapM (fun e => do
      let state ← item q.presenceMap e.2.1
      return (e.1, BaseFederationRow.presenceDestinations state e.2.2)) =
      .ok ((polled q.presenceDestinations fromToken toToken).map (presenceRow q)) := by
    refine mapM_eq_ok_map fun e he => ?_
    obtain ⟨state, hmem, hid⟩ := (h.presence e.1 e.2).mp (get?_of_mem_polled hle he).1
    obtain ⟨shown, hshown⟩ := h.known _ _ _ hmem
    rw [hid] at hshown
    simp only [item, presenceRow, hshown, Option.getD_some]
    rfl
  have hkeyed : (lastPositions (polled q.keyedEduChanged fromToken toToken)).items.mapM (fun e => do
      let edu ← item q.keyedEdu e.1
      return (e.2, BaseFederationRow.keyedEdu e.1.2 edu)) =
      .ok ((lastPositions (polled q.keyedEduChanged fromToken toToken)).items.map (keyedRow q)) := by
    refine mapM_eq_ok_map fun e he => ?_
    have hlast := (get?_lastPositions (polled_sorted _ _ _)).mp (get?_eq_some_iff.mpr he)
    obtain ⟨edu, hmem⟩ := (h.changed e.2 e.1).mp (get?_of_mem_polled hle hlast.1).1
    obtain ⟨shown, hshown⟩ := h.stored _ _ _ hmem
    simp only [item, keyedRow, hshown, Option.getD_some]
    rfl
  unfold collectRows
  rw [hpresence, hkeyed]
  rfl

/-- What the rows of a poll come from. -/
theorem mem_foundRows (h : Matches q sent) (hle : fromToken ≤ toToken)
    {row : ℤ × BaseFederationRow} (hrow : row ∈ foundRows fromToken toToken q) :
    fromToken < row.1 ∧
      ((∃ edu, row.2 = .edu edu ∧ (row.1, Sent.edu edu) ∈ sent) ∨
        (∃ state shown destinations, row.2 = .presenceDestinations shown destinations ∧
          (row.1, Sent.presence state destinations) ∈ sent) ∨
        ∃ k edu shown, row.2 = .keyedEdu k.2 shown ∧ shown.destination = k.1 ∧
          (row.1, Sent.keyed k edu) ∈ sent) := by
  rcases List.mem_append.mp hrow with hrow | hrow
  · rcases List.mem_append.mp hrow with hrow | hrow
    · obtain ⟨e, he, rfl⟩ := List.mem_map.mp hrow
      obtain ⟨hget, hlt⟩ := get?_of_mem_polled hle he
      obtain ⟨state, hmem, _⟩ := (h.presence e.1 e.2).mp hget
      exact ⟨hlt, Or.inr (Or.inl ⟨state, _, _, rfl, hmem⟩)⟩
    · obtain ⟨e, he, rfl⟩ := List.mem_map.mp hrow
      have hlast := (get?_lastPositions (polled_sorted _ _ _)).mp (get?_eq_some_iff.mpr he)
      obtain ⟨hget, hlt⟩ := get?_of_mem_polled hle hlast.1
      obtain ⟨edu, hmem⟩ := (h.changed e.2 e.1).mp hget
      obtain ⟨shown, hshown⟩ := h.stored _ _ _ hmem
      refine ⟨hlt, Or.inr (Or.inr ⟨e.1, edu, shown, ?_, h.destination _ _ hshown, hmem⟩)⟩
      simp only [keyedRow, hshown, Option.getD_some]
  · obtain ⟨e, he, rfl⟩ := List.mem_map.mp hrow
    obtain ⟨hget, hlt⟩ := get?_of_mem_polled hle he
    exact ⟨hlt, Or.inl ⟨e.2, rfl, (h.edus e.1 e.2).mp hget⟩⟩

/-- No two rows of a poll have one position. -/
theorem nodup_foundRows (h : Matches q sent) (hle : fromToken ≤ toToken) :
    ((foundRows fromToken toToken q).map Prod.fst).Nodup := by
  have hdistinct : ∀ {ν : Type} (d : Dict ℤ ν), ((polled d fromToken toToken).map Prod.fst).Nodup := fun d =>
    List.pairwise_map.mpr ((polled_sorted d fromToken toToken).imp fun hlt => ne_of_lt hlt)
  have hp : ∀ pos ∈ (polled q.presenceDestinations fromToken toToken).map Prod.fst,
      ∃ state destinations, (pos, Sent.presence state destinations) ∈ sent := by
    intro pos hpos
    obtain ⟨e, he, rfl⟩ := List.mem_map.mp hpos
    obtain ⟨state, hmem, _⟩ := (h.presence e.1 e.2).mp (get?_of_mem_polled hle he).1
    exact ⟨state, _, hmem⟩
  have hk : ∀ e ∈ (lastPositions (polled q.keyedEduChanged fromToken toToken)).items,
      q.keyedEduChanged.get? e.2 = some e.1 := fun e he =>
    (get?_of_mem_polled hle ((get?_lastPositions (polled_sorted _ _ _)).mp (get?_eq_some_iff.mpr he)).1).1
  have he : ∀ pos ∈ (polled q.edus fromToken toToken).map Prod.fst, ∃ edu, (pos, Sent.edu edu) ∈ sent := by
    intro pos hpos
    obtain ⟨e, he, rfl⟩ := List.mem_map.mp hpos
    exact ⟨e.2, (h.edus e.1 e.2).mp (get?_of_mem_polled hle he).1⟩
  have hkeyed : ((lastPositions (polled q.keyedEduChanged fromToken toToken)).items.map Prod.snd).Nodup := by
    refine List.Nodup.map_on ?_ (List.Nodup.of_map Prod.fst (Dict.nodup _))
    intro a ha b hb hab
    refine Prod.ext ?_ hab
    have hka := hk a ha
    rw [hab, hk b hb] at hka
    exact (Option.some.inj hka).symm
  have hmap : (foundRows fromToken toToken q).map Prod.fst =
      (polled q.presenceDestinations fromToken toToken).map Prod.fst ++
        (lastPositions (polled q.keyedEduChanged fromToken toToken)).items.map Prod.snd ++
        (polled q.edus fromToken toToken).map Prod.fst := by
    simp only [foundRows, List.map_append, List.map_map]
    rfl
  rw [hmap]
  -- a position of two kinds would be two entries at one position
  refine List.Nodup.append (List.Nodup.append (hdistinct _) hkeyed ?_) (hdistinct _) ?_
  · intro pos h1 h2
    obtain ⟨state, destinations, hs⟩ := hp pos h1
    obtain ⟨e, hemem, rfl⟩ := List.mem_map.mp h2
    obtain ⟨edu, hs'⟩ := (h.changed _ _).mp (hk e hemem)
    cases h.unique hs hs'
  intro pos h1 h2
  obtain ⟨edu, hs'⟩ := he pos h2
  rcases List.mem_append.mp h1 with h1 | h1
  · obtain ⟨state, destinations, hs⟩ := hp pos h1
    cases h.unique hs hs'
  obtain ⟨e, hemem, rfl⟩ := List.mem_map.mp h1
  obtain ⟨edu', hs⟩ := (h.changed _ _).mp (hk e hemem)
  cases h.unique hs hs'

/-- The rows of a poll as the reader sees them. -/
def sortedRows (fromToken toToken : ℤ) (q : FederationRemoteSendQueue) : List (ℤ × String × BaseFederationRow) :=
  ((foundRows fromToken toToken q).insertionSort fun a b => a.1 ≤ b.1).map fun r =>
    (r.1, r.2.typeId, r.2)

theorem mem_sortedRows {row : ℤ × String × BaseFederationRow} : row ∈ sortedRows fromToken toToken q ↔
      row.2.1 = row.2.2.typeId ∧ (row.1, row.2.2) ∈ foundRows fromToken toToken q := by
  obtain ⟨pos, typeId, r⟩ := row
  simp only [sortedRows, List.mem_map, List.mem_insertionSort, Prod.mk.injEq]
  constructor
  · rintro ⟨e, he, rfl, rfl, rfl⟩
    exact ⟨rfl, he⟩
  · rintro ⟨rfl, he⟩
    exact ⟨(pos, r), he, rfl, rfl, rfl⟩

/-- Rows come in the order of their positions. -/
theorem pairwise_sortedRows (h : Matches q sent) (hle : fromToken ≤ toToken) :
    (sortedRows fromToken toToken q).Pairwise fun a b => a.1 < b.1 := by
  have hsorted := List.pairwise_insertionSort (fun a b : ℤ × BaseFederationRow => a.1 ≤ b.1)
    (foundRows fromToken toToken q)
  have hnodup : (((foundRows fromToken toToken q).insertionSort fun a b => a.1 ≤ b.1).map Prod.fst).Nodup :=
    ((List.perm_insertionSort _ _).map Prod.fst).nodup_iff.mpr (nodup_foundRows h hle)
  exact List.pairwise_map.mpr
    (hsorted.imp₂ (fun _ _ hab hne => lt_of_le_of_ne hab hne) (List.pairwise_map.mp hnodup))

/-- **A poll within the current token is answered.** -/
theorem getReplicationRows_eq (h : Matches q sent) (hle : fromToken ≤ toToken)
    (hpos : toToken ≤ q.getCurrentToken) :
    q.getReplicationRows fromToken toToken = .ok (sortedRows fromToken toToken q, toToken, false) := by
  have hcur : toToken ≤ q.pos - 1 := hpos
  have hnot : ¬ fromToken > q.pos := by omega
  unfold getReplicationRows
  rw [if_neg hnot]
  dsimp only
  rw [collectRows_eq h hle]
  rfl

/-- **A poll that leaves entries behind its range gets one of them.** -/
theorem exists_past (hle : fromToken ≤ toToken) (hpast : ¬ NothingPast q toToken) :
    ∃ row ∈ sortedRows fromToken toToken q, toToken < row.1 := by
  have hsort : ∀ row ∈ foundRows fromToken toToken q, toToken < row.1 →
      ∃ row ∈ sortedRows fromToken toToken q, toToken < row.1 := fun row hrow hlt =>
    ⟨(row.1, row.2.typeId, row.2), mem_sortedRows.mpr ⟨rfl, hrow⟩, hlt⟩
  have hmem : ∀ {ν : Type} (d : Dict ℤ ν), (¬ ∀ pos ∈ d.keys, pos ≤ toToken) →
      ∃ (front : List (ℤ × ν)) (e : ℤ × ν), polled d fromToken toToken = front ++ [e] ∧
        toToken < e.1 := by
    intro ν d hd
    simp only [not_forall, not_le] at hd
    obtain ⟨pos, hpos, hlt⟩ := hd
    exact polled_past hle hpos hlt
  by_cases hp : ∀ pos ∈ q.presenceDestinations.keys, pos ≤ toToken
  · by_cases hk : ∀ pos ∈ q.keyedEduChanged.keys, pos ≤ toToken
    · by_cases he : ∀ pos ∈ q.edus.keys, pos ≤ toToken
      · exact absurd ⟨hp, hk, he⟩ hpast
      · obtain ⟨front, e, heq, hlt⟩ := hmem _ he
        refine hsort (eduRow e) (mem_append_right _ (mem_map_of_mem ?_)) hlt
        rw [heq]
        exact mem_append_right _ (mem_singleton_self e)
    · -- the last position of its key is the one past the range
      obtain ⟨front, e, heq, hlt⟩ := hmem _ hk
      have hlast : (lastPositions (polled q.keyedEduChanged fromToken toToken)).get? e.2 = some e.1 := by
        rw [heq, lastPositions, List.foldl_append, List.foldl_cons, List.foldl_nil, get?_set, if_pos rfl]
      refine hsort (keyedRow q (e.2, e.1)) (mem_append_left _ (mem_append_right _
        (mem_map_of_mem (get?_eq_some_iff.mp hlast)))) hlt
  · obtain ⟨front, e, heq, hlt⟩ := hmem _ hp
    refine hsort (presenceRow q e) (mem_append_left _ (mem_append_left _ (mem_map_of_mem ?_))) hlt
    rw [heq]
    exact mem_append_right _ (mem_singleton_self e)

/-- The positions of everything sent are within the range or before it, when nothing is past. -/
theorem Matches.le_of_nothingPast (h : Matches q sent) (hpast : NothingPast q toToken) {s : Sent}
    (hs : (pos, s) ∈ sent) : pos ≤ toToken := by
  cases s with
  | presence state destinations =>
    exact hpast.1 pos (mem_keys_iff.mpr ⟨(state.userId, destinations), (h.presence _ _).mpr ⟨state, hs, rfl⟩⟩)
  | keyed k edu =>
    exact hpast.2.1 pos (mem_keys_iff.mpr ⟨k, (h.changed _ _).mpr ⟨edu, hs⟩⟩)
  | edu edu =>
    exact hpast.2.2 pos (mem_keys_iff.mpr ⟨edu, (h.edus _ _).mpr hs⟩)

/-- The rows of the entries in the range of a poll. -/
theorem row_of_edu (h : Matches q sent) (hle : fromToken ≤ toToken) {edu : Edu}
    (hs : (pos, Sent.edu edu) ∈ sent) (hfrom : fromToken < pos) (hto : pos ≤ toToken) :
    (pos, "e", .edu edu) ∈ sortedRows fromToken toToken q :=
  mem_sortedRows.mpr ⟨rfl, mem_append_right _ (List.mem_map.mpr
    ⟨(pos, edu), mem_polled hle ((h.edus pos edu).mpr hs) hfrom hto, rfl⟩)⟩

theorem row_of_presence (h : Matches q sent) (hle : fromToken ≤ toToken) {state : UserPresenceState}
    {destinations : List String} (hs : (pos, Sent.presence state destinations) ∈ sent) (hfrom : fromToken < pos)
    (hto : pos ≤ toToken) : ∃ shown : UserPresenceState, shown.userId = state.userId ∧
      (pos, "pd", .presenceDestinations shown destinations) ∈ sortedRows fromToken toToken q := by
  have hget := (h.presence pos (state.userId, destinations)).mpr ⟨state, hs, rfl⟩
  obtain ⟨shown, hshown⟩ := h.known _ _ _ hs
  refine ⟨shown, h.own _ _ hshown, mem_sortedRows.mpr ⟨rfl, mem_append_left _
    (mem_append_left _ (List.mem_map.mpr ⟨(pos, state.userId, destinations),
      mem_polled hle hget hfrom hto, ?_⟩))⟩⟩
  simp only [presenceRow, hshown, Option.getD_some]

theorem row_of_keyed (h : Matches q sent) (hle : fromToken ≤ toToken) {k : EduKey} {edu : Edu}
    (hs : (pos, Sent.keyed k edu) ∈ sent) (hlast : ∀ pos' edu', (pos', Sent.keyed k edu') ∈ sent → pos' ≤ pos)
    (hfrom : fromToken < pos) (hto : pos ≤ toToken) :
    (pos, "k", .keyedEdu k.2 edu) ∈ sortedRows fromToken toToken q := by
  have hpolled := mem_polled (e := (pos, k)) hle ((h.changed pos k).mpr ⟨edu, hs⟩) hfrom hto
  have hget : (lastPositions (polled q.keyedEduChanged fromToken toToken)).get? k = some pos := by
    refine (get?_lastPositions (polled_sorted _ _ _)).mpr ⟨hpolled, fun pos' hpos' => ?_⟩
    obtain ⟨edu', hs'⟩ := (h.changed pos' k).mp (get?_of_mem_polled hle hpos').1
    exact hlast pos' edu' hs'
  refine mem_sortedRows.mpr ⟨rfl, mem_append_left _ (mem_append_right _
    (List.mem_map.mpr ⟨(k, pos), get?_eq_some_iff.mp hget, ?_⟩))⟩
  simp only [keyedRow, h.newest _ _ _ hs hlast, Option.getD_some]

end Rows

/-! ## §4 Runs whose polls ask for everything -/

/-- What the reader has got, with what is needed to carry it from one call to the next. -/
structure Caught (start : ℤ) (w : Replication) : Prop where
  inStep : Matches w.queue w.sent
  reader_lt : w.reader = start ∨ w.reader < w.queue.pos
  start_le : start ≤ w.reader
  answered : ∀ p ∈ w.polls, ∃ rows, p.answer = .ok (rows, p.toToken, false)
  within : ∀ p ∈ w.polls, ∀ row ∈ p.rows, p.fromToken < row.1 ∧ row.1 ≤ p.toToken
  increasing : w.received.Pairwise fun a b => a.1 < b.1
  inRange : ∀ row ∈ w.received, row.1 ≤ w.reader
  edus : ∀ pos edu, (pos, Sent.edu edu) ∈ w.sent → start < pos → pos ≤ w.reader → (pos, "e", .edu edu) ∈ w.received
  presence : ∀ pos state destinations, (pos, Sent.presence state destinations) ∈ w.sent →
    start < pos → pos ≤ w.reader → ∃ shown : UserPresenceState, shown.userId = state.userId ∧
      (pos, "pd", .presenceDestinations shown destinations) ∈ w.received
  keyed : ∀ pos k edu, (pos, Sent.keyed k edu) ∈ w.sent → start < pos → pos ≤ w.reader →
    (∀ pos' edu', (pos', Sent.keyed k edu') ∈ w.sent → pos' ≤ pos) →
    (pos, "k", .keyedEdu k.2 edu) ∈ w.received
  keys : ∀ row ∈ w.received, ∀ k, ofKey k row = true → ∃ edu, (row.1, Sent.keyed k edu) ∈ w.sent

/-- A row of a sorted list of rows is the only one at its position. -/
theorem filter_position {rows : List (ℤ × String × BaseFederationRow)}
    (hrows : rows.Pairwise fun a b => a.1 < b.1) {row : ℤ × String × BaseFederationRow}
    (hrow : row ∈ rows) : rows.filter (fun r => r.1 = row.1) = [row] := by
  induction rows with
  | nil => cases hrow
  | cons r rows ih =>
    rw [List.pairwise_cons] at hrows
    rcases List.mem_cons.mp hrow with rfl | hrow
    · rw [List.filter_cons_of_pos (by simp), List.filter_eq_nil_iff.mpr]
      intro r hr
      have hlt := hrows.1 r hr
      simp only [decide_eq_true_eq]
      omega
    · have hlt := hrows.1 row hrow
      rw [List.filter_cons_of_neg (by simp only [decide_eq_true_eq]; omega)]
      exact ih hrows.2 hrow

variable {start : ℤ} {w : Replication}

/-- **What was caught is exact.** -/
theorem Caught.exact (h : Caught start w) : Exact start w where
  answered := h.answered
  within := h.within
  edus pos edu hs hstart hreader := filter_position h.increasing (h.edus pos edu hs hstart hreader)
  presence pos state destinations hs hstart hreader := by
    obtain ⟨shown, hid, hrow⟩ := h.presence pos state destinations hs hstart hreader
    exact ⟨shown, hid, filter_position h.increasing hrow⟩
  keyed pos k edu hs hstart hreader hlast := by
    have hrow := h.keyed pos k edu hs hstart hreader hlast
    have hof : ofKey k (pos, "k", .keyedEdu k.2 edu) = true := by
      have hdest := h.inStep.destination k edu (h.inStep.newest pos k edu hs hlast)
      simp [ofKey, hdest]
    have hmem : (pos, "k", .keyedEdu k.2 edu) ∈ w.received.filter (ofKey k) :=
      List.mem_filter.mpr ⟨hrow, hof⟩
    obtain ⟨last, hget⟩ := List.getLast?_isSome.mpr (List.ne_nil_of_mem hmem) |> Option.isSome_iff_exists.mp
    obtain ⟨front, hfront⟩ := List.getLast?_eq_some_iff.mp hget
    have hsorted : (w.received.filter (ofKey k)).Pairwise fun a b => a.1 < b.1 :=
      h.increasing.filter _
    -- the last row of the key is at a position of the key, and none is behind `pos`
    have hlastMem : last ∈ w.received.filter (ofKey k) := by
      rw [hfront]
      exact mem_append_right _ (mem_singleton_self last)
    obtain ⟨hlastRow, hlastOf⟩ := List.mem_filter.mp hlastMem
    obtain ⟨edu', hs'⟩ := h.keys last hlastRow k hlastOf
    have hle := hlast last.1 edu' hs'
    rw [hget]
    rw [hfront] at hmem hsorted
    rcases List.mem_append.mp hmem with hmem | hmem
    · have hlt := (List.pairwise_append.mp hsorted).2.2 _ hmem last (mem_singleton_self last)
      exact absurd hlt (not_lt.mpr hle)
    · rw [List.mem_singleton.mp hmem]

theorem Caught.init (start : ℤ) : Caught start ⟨.init, [], start, []⟩ where
  inStep := Matches.init
  reader_lt := Or.inl rfl
  start_le := le_rfl
  answered := by simp
  within := by simp
  increasing := List.Pairwise.nil
  inRange := by simp [Replication.received]
  edus := by simp
  presence := by simp
  keyed := by simp
  keys := by simp [Replication.received]

/-- What a call sends stands at the queue's position or behind it. -/
theorem pos_le_of_mem_sentPresence {destinations : List String} {e : ℤ × Sent}
    {states : List (ℤ × UserPresenceState)} (h : e ∈ sentPresence destinations pos states) : pos ≤ e.1 := by
  induction states generalizing pos with
  | nil => cases h
  | cons turn states ih =>
    rcases List.mem_cons.mp h with rfl | h
    · exact le_rfl
    · have hle := ih h
      omega

variable {cfg : SendQueueConfig}

theorem pos_le_of_mem_sentEdu {destination eduType : String} {content : Json} {key : Option (List String)}
    {e : ℤ × Sent} (h : e ∈ sentEdu cfg pos destination eduType content key) : pos ≤ e.1 := by
  unfold sentEdu at h
  split at h
  · cases h
  split at h
  all_goals
    obtain rfl := List.mem_singleton.mp h
    exact le_rfl

/-- **Sending more keeps what was caught.** -/
theorem Caught.send (h : Caught start w) {queue : FederationRemoteSendQueue} {new : List (ℤ × Sent)}
    (hin : Matches queue (w.sent ++ new)) (hnew : ∀ e ∈ new, w.queue.pos ≤ e.1)
    (hpos : w.queue.pos ≤ queue.pos) : Caught start { w with queue := queue, sent := w.sent ++ new } := by
  -- nothing new is in the range the reader went through
  have hold : ∀ pos s, (pos, s) ∈ w.sent ++ new → start < pos → pos ≤ w.reader → (pos, s) ∈ w.sent := by
    intro pos s hs hstart hreader
    rcases List.mem_append.mp hs with hs | hs
    · exact hs
    have hle := hnew _ hs
    rcases h.reader_lt with heq | hlt
    · omega
    · exact absurd (lt_of_le_of_lt hreader hlt) (not_lt.mpr hle)
  exact
    { inStep := hin
      reader_lt := h.reader_lt.imp id fun hlt => lt_of_lt_of_le hlt hpos
      start_le := h.start_le
      answered := h.answered
      within := h.within
      increasing := h.increasing
      inRange := h.inRange
      edus := fun pos edu hs hstart hreader =>
        h.edus pos edu (hold pos _ hs hstart hreader) hstart hreader
      presence := fun pos state destinations hs hstart hreader =>
        h.presence pos state destinations (hold pos _ hs hstart hreader) hstart hreader
      keyed := fun pos k edu hs hstart hreader hlast =>
        h.keyed pos k edu (hold pos _ hs hstart hreader) hstart hreader fun pos' edu' hs' =>
          hlast pos' edu' (mem_append_left _ hs')
      keys := fun row hrow k hk => by
        obtain ⟨edu, hs⟩ := h.keys row hrow k hk
        exact ⟨edu, mem_append_left _ hs⟩ }

/-- **A poll for everything keeps it too.** -/
theorem Caught.poll (h : Caught start w) {toToken : ℤ} (hle : w.reader ≤ toToken)
    (hpos : toToken ≤ w.queue.getCurrentToken) (hpast : NothingPast w.queue toToken) : Caught start
      { w with reader := toToken, polls := w.polls ++ [⟨w.queue, w.reader, toToken⟩] } := by
  have hanswer := getReplicationRows_eq h.inStep hle hpos
  have hrows : (Poll.mk w.queue w.reader toToken).rows = sortedRows w.reader toToken w.queue := by
    unfold Poll.rows Poll.answer
    rw [hanswer]
  have hreceived : Replication.received
      { w with reader := toToken, polls := w.polls ++ [⟨w.queue, w.reader, toToken⟩] } =
      w.received ++ sortedRows w.reader toToken w.queue := by
    unfold Replication.received
    rw [List.flatMap_append, List.flatMap_singleton, hrows]
  have hfound : ∀ row ∈ sortedRows w.reader toToken w.queue, w.reader < row.1 ∧
      ∃ s, (row.1, s) ∈ w.sent := by
    intro row hrow
    obtain ⟨hlt, hfrom⟩ := mem_foundRows h.inStep hle (mem_sortedRows.mp hrow).2
    refine ⟨hlt, ?_⟩
    rcases hfrom with ⟨edu, _, hs⟩ | ⟨state, _, destinations, _, hs⟩ | ⟨k, edu, _, _, _, hs⟩
    · exact ⟨_, hs⟩
    · exact ⟨_, hs⟩
    · exact ⟨_, hs⟩
  have hto : ∀ row ∈ sortedRows w.reader toToken w.queue, row.1 ≤ toToken := fun row hrow => by
    obtain ⟨_, s, hs⟩ := hfound row hrow
    exact h.inStep.le_of_nothingPast hpast hs
  exact
    { inStep := h.inStep
      reader_lt := by
        have hcur : toToken ≤ w.queue.pos - 1 := hpos
        right
        show toToken < w.queue.pos
        omega
      start_le := le_trans h.start_le hle
      answered := by
        intro p hp
        rcases List.mem_append.mp hp with hp | hp
        · exact h.answered p hp
        · obtain rfl := List.mem_singleton.mp hp
          exact ⟨_, hanswer⟩
      within := by
        intro p hp row hrow
        rcases List.mem_append.mp hp with hp | hp
        · exact h.within p hp row hrow
        obtain rfl := List.mem_singleton.mp hp
        rw [hrows] at hrow
        exact ⟨(hfound row hrow).1, hto row hrow⟩
      increasing := by
        rw [hreceived]
        refine List.pairwise_append.mpr ⟨h.increasing, pairwise_sortedRows h.inStep hle, ?_⟩
        intro a ha b hb
        exact lt_of_le_of_lt (h.inRange a ha) (hfound b hb).1
      inRange := by
        intro row hrow
        rw [hreceived] at hrow
        rcases List.mem_append.mp hrow with hrow | hrow
        · exact le_trans (h.inRange row hrow) hle
        · exact hto row hrow
      edus := by
        intro pos edu hs hstart hreader
        rw [hreceived]
        rcases le_or_gt pos w.reader with hold | hnew
        · exact mem_append_left _ (h.edus pos edu hs hstart hold)
        · exact mem_append_right _ (row_of_edu h.inStep hle hs hnew hreader)
      presence := by
        intro pos state destinations hs hstart hreader
        rw [hreceived]
        rcases le_or_gt pos w.reader with hold | hnew
        · obtain ⟨shown, hid, hrow⟩ := h.presence pos state destinations hs hstart hold
          exact ⟨shown, hid, mem_append_left _ hrow⟩
        · obtain ⟨shown, hid, hrow⟩ := row_of_presence h.inStep hle hs hnew hreader
          exact ⟨shown, hid, mem_append_right _ hrow⟩
      keyed := by
        intro pos k edu hs hstart hreader hlast
        rw [hreceived]
        rcases le_or_gt pos w.reader with hold | hnew
        · exact mem_append_left _ (h.keyed pos k edu hs hstart hold hlast)
        · exact mem_append_right _ (row_of_keyed h.inStep hle hs hlast hnew hreader)
      keys := by
        intro row hrow k hk
        rw [hreceived] at hrow
        rcases List.mem_append.mp hrow with hrow | hrow
        · exact h.keys row hrow k hk
        obtain ⟨_, hfrom⟩ := mem_foundRows h.inStep hle (mem_sortedRows.mp hrow).2
        unfold ofKey at hk
        rcases hfrom with ⟨edu, heq, _⟩ | ⟨_, _, _, heq, _⟩ | ⟨k', edu, shown, heq, hdest, hs⟩
        · rw [heq] at hk
          cases hk
        · rw [heq] at hk
          cases hk
        · rw [heq] at hk
          have hk' : (shown.destination, k'.2) = k := of_decide_eq_true hk
          rw [hdest] at hk'
          exact ⟨edu, hk' ▸ hs⟩ }

/-- Positions are only handed out. -/
theorem pos_le_step (cfg : SendQueueConfig) (w : Replication) (input : QueueInput) :
    w.queue.pos ≤ (w.step cfg input).queue.pos := by
  cases input with
  | poll => exact le_rfl
  | edu now destination eduType content key =>
    show w.queue.pos ≤ (w.queue.buildAndSendEdu cfg now destination eduType content key).pos
    unfold buildAndSendEdu
    split
    · exact le_rfl
    · dsimp only
      split <;> exact Int.le_add_one le_rfl
  | presence states destinations =>
    show w.queue.pos ≤ (states.foldl (sendPresence (states.map Prod.snd) destinations) w.queue).pos
    have hfold : ∀ (turns : List (ℤ × UserPresenceState)) (q : FederationRemoteSendQueue),
        q.pos ≤ (turns.foldl (sendPresence (states.map Prod.snd) destinations) q).pos := by
      intro turns
      induction turns with
      | nil => exact fun q => le_rfl
      | cons turn turns ih =>
        intro q
        exact le_trans (Int.le_add_one le_rfl) (ih _)
    exact hfold states w.queue

/-- One call of a run, when a poll asks for everything. -/
theorem Caught.step (h : Caught start w) {input : QueueInput} (hmay : w.MayPoll input)
    (hpast : ∀ p ∈ (w.step cfg input).polls, NothingPast p.queue p.toToken) :
    Caught start (w.step cfg input) := by
  have hin : Matches (w.step cfg input).queue (w.step cfg input).sent := h.inStep.step input
  have hpos := pos_le_step cfg w input
  cases input with
  | edu now destination eduType content key =>
    exact h.send hin (fun _ he => pos_le_of_mem_sentEdu he) hpos
  | presence states destinations =>
    exact h.send hin (fun _ he => pos_le_of_mem_sentPresence he) hpos
  | poll toToken =>
    exact h.poll hmay.1 hmay.2
      (hpast ⟨w.queue, w.reader, toToken⟩ (mem_append_right _ (mem_singleton_self _)))

theorem Replication.run_concat (cfg : SendQueueConfig) (start : ℤ) (inputs : List QueueInput) (input : QueueInput) :
    Replication.run cfg start (inputs ++ [input]) = (Replication.run cfg start inputs).step cfg input := by
  unfold Replication.run
  rw [List.foldl_append]
  rfl

/-- A later call keeps the polls. -/
theorem mem_polls_step {input : QueueInput} {p : Poll} (hp : p ∈ w.polls) : p ∈ (w.step cfg input).polls := by
  cases input with
  | edu => exact hp
  | presence => exact hp
  | poll => exact mem_append_left _ hp

/-- The polls of a run were made on queues in step with what had been sent. -/
theorem polls_fit {inputs : List QueueInput} (h : Contiguous cfg start inputs) :
    Matches (Replication.run cfg start inputs).queue (Replication.run cfg start inputs).sent ∧
      ∀ p ∈ (Replication.run cfg start inputs).polls, (∃ sent, Matches p.queue sent) ∧
        p.fromToken ≤ p.toToken ∧ p.toToken ≤ p.queue.getCurrentToken := by
  induction inputs using List.reverseRecOn with
  | nil => exact ⟨Matches.init, by simp [Replication.run]⟩
  | append_singleton inputs input ih =>
    obtain ⟨hinputs, hmay⟩ := allSteps_concat.mp h
    obtain ⟨hin, hpolls⟩ := ih hinputs
    rw [Replication.run_concat]
    refine ⟨hin.step input, fun p hp => ?_⟩
    cases input with
    | edu => exact hpolls p hp
    | presence => exact hpolls p hp
    | poll toToken =>
      rcases List.mem_append.mp hp with hp | hp
      · exact hpolls p hp
      · obtain rfl := List.mem_singleton.mp hp
        exact ⟨⟨_, hin⟩, hmay⟩

/-- **Replication of the send queue is exact exactly when no poll leaves an entry behind its range.**
This holds for every run of calls and every reader that polls contiguous ranges. -/
theorem replication_exact_iff (cfg : SendQueueConfig) (start : ℤ) (inputs : List QueueInput)
    (h : Contiguous cfg start inputs) :
    Exact start (Replication.run cfg start inputs) ↔
      ∀ p ∈ (Replication.run cfg start inputs).polls, NothingPast p.queue p.toToken := by
  constructor
  · intro hexact p hp
    obtain ⟨⟨sent, hin⟩, hle, hcur⟩ := (polls_fit h).2 p hp
    by_contra hpast
    obtain ⟨row, hrow, hlt⟩ := exists_past hle hpast
    have hrows : p.rows = sortedRows p.fromToken p.toToken p.queue := by
      unfold Poll.rows Poll.answer
      rw [getReplicationRows_eq hin hle hcur]
    exact absurd (hexact.within p hp row (hrows ▸ hrow)).2 (not_le.mpr hlt)
  intro hpast
  refine Caught.exact ?_
  induction inputs using List.reverseRecOn with
  | nil => exact Caught.init start
  | append_singleton inputs input ih =>
    obtain ⟨hinputs, hmay⟩ := allSteps_concat.mp h
    rw [Replication.run_concat] at hpast ⊢
    exact (ih hinputs fun p hp => hpast p (mem_polls_step hp)).step hmay hpast

/-- A server with two sender processes. -/
def exampleConfig : SendQueueConfig := ⟨"a.example", ["sender1", "sender2"]⟩

/-- Two EDUs without a key, and a poll for each position. -/
def lateRun : List QueueInput :=
  [.edu 1000 "b.example" "m.direct_to_device" .null none,
    .edu 1001 "b.example" "m.direct_to_device" .null none, .poll 1, .poll 2]

theorem contiguous_lateRun : Contiguous exampleConfig 0 lateRun := by
  refine allSteps_cons.mpr ⟨trivial, allSteps_cons.mpr ⟨trivial, allSteps_cons.mpr ⟨?_,
    allSteps_cons.mpr ⟨?_, allSteps_nil _⟩⟩⟩⟩
  · show (0 : ℤ) ≤ 1 ∧ (1 : ℤ) ≤ _
    decide +kernel
  · show (1 : ℤ) ≤ 2 ∧ (2 : ℤ) ≤ _
    decide +kernel

theorem replication_exact_iff_example : Exact 0 (Replication.run exampleConfig 0 lateRun) ↔
      ∀ p ∈ (Replication.run exampleConfig 0 lateRun).polls, NothingPast p.queue p.toToken :=
  replication_exact_iff exampleConfig 0 lateRun contiguous_lateRun

/-- **The reader gets the second EDU twice**, the first time with a poll for position 1 alone. -/
theorem row_received_twice : Contiguous exampleConfig 0 lateRun ∧
      (Replication.run exampleConfig 0 lateRun).received.map Prod.fst = [1, 2, 2] ∧
      ¬ Exact 0 (Replication.run exampleConfig 0 lateRun) := by
  refine ⟨contiguous_lateRun, by decide +kernel, fun h => ?_⟩
  have hall : ((Replication.run exampleConfig 0 lateRun).polls.all fun p =>
      p.rows.all fun row => decide (row.1 ≤ p.toToken)) = true := by
    refine List.all_eq_true.mpr fun p hp => List.all_eq_true.mpr fun row hrow => ?_
    exact decide_eq_true (h.within p hp row hrow).2
  revert hall
  decide +kernel

end Setka.Federation
