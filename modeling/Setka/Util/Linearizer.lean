/-
# Setka.Util.Linearizer — at most `max_count` holders of a key, the rest in a queue.

A call of `queue` either takes the lock of its key at once or puts a deferred at the end of the key's
queue. A release resolves the first deferred, and what waited on it runs on within the same call, as far
as its `sleep(0)`. A step below is what runs between two awaits: a call, a wake-up, an exit from the
body, a cancellation. Entries have addresses, so that a call keeps the entry object it was given.
-/
import Setka.Lib.Dict
import Setka.Lib.Transition

namespace Setka.Util

open Setka.Lib Dict Function

/-! ## §1 The lock -/

/-- `_LinearizerEntry`. A deferred is named by the call that waits on it. -/
structure LinearizerEntry where
  count : ℤ
  deferreds : List ℕ

/-- Where a call of `queue` is suspended: on its deferred, in `sleep(0)`, in the body of the `async with`. -/
inductive Suspended
  | newDefer
  | sleep
  | body
deriving DecidableEq

/-- A call of `queue` that has not ended, with the entry it was given. -/
structure QueueCall (κ : Type) where
  key : κ
  entry : ℕ
  suspended : Suspended
deriving DecidableEq

/-- A call holds the lock of its key while it sleeps after it was woken and while it runs its body. -/
def QueueCall.holds {κ : Type} [DecidableEq κ] (c : QueueCall κ) (key : κ) : Bool :=
  c.key = key ∧ c.suspended ≠ .newDefer

/-- What happened to a call, in the order in which it did. -/
inductive QueueEvent (κ : Type)
  | queued (key : κ) (call : ℕ)
  | acquired (key : κ) (call : ℕ)
  | withdrawn (key : κ) (call : ℕ)

/-- `Linearizer`, with the calls of `queue` that run. `entries` is the heap of entry objects. -/
structure Linearizer (κ : Type) where
  maxCount : ℤ
  keyToDefer : Dict κ ℕ
  entries : ℕ → LinearizerEntry
  nextEntry : ℕ
  calls : Dict ℕ (QueueCall κ)
  nextCall : ℕ
  history : List (QueueEvent κ)

namespace Linearizer

variable {κ : Type} [DecidableEq κ]

/-- `__init__`. -/
def new (maxCount : ℤ) : Linearizer κ where
  maxCount := maxCount
  keyToDefer := .empty
  entries := fun _ => ⟨0, []⟩
  nextEntry := 0
  calls := .empty
  nextCall := 0
  history := []

/-- `is_queued`. -/
def isQueued (l : Linearizer κ) (key : κ) : Bool :=
  match l.keyToDefer.get? key with
  | none => false
  | some entry => !(l.entries entry).deferreds.isEmpty

/-- `key_to_defer.setdefault(key, _LinearizerEntry(0, OrderedDict()))`. -/
def setdefault (l : Linearizer κ) (key : κ) : Linearizer κ × ℕ :=
  match l.keyToDefer.get? key with
  | some entry => (l, entry)
  | none =>
    ({ l with
        keyToDefer := l.keyToDefer.set key l.nextEntry
        entries := Function.update l.entries l.nextEntry ⟨0, []⟩
        nextEntry := l.nextEntry + 1 }, l.nextEntry)

/-- `_acquire_lock`, as far as its first suspension. -/
def acquireLock (l : Linearizer κ) (key : κ) (call : ℕ) : Linearizer κ :=
  let (l, address) := l.setdefault key
  let entry := l.entries address
  if entry.count < l.maxCount then
    { l with
      entries := Function.update l.entries address { entry with count := entry.count + 1 }
      calls := l.calls.set call ⟨key, address, .body⟩
      history := l.history ++ [.queued key call, .acquired key call] }
  else
    { l with
      entries := Function.update l.entries address { entry with deferreds := entry.deferreds ++ [call] }
      calls := l.calls.set call ⟨key, address, .newDefer⟩
      history := l.history ++ [.queued key call] }

/-- `next_def.callback(None)`: the rest of `_acquire_lock` in the call that waits, as far as `sleep(0)`. -/
def callback (l : Linearizer κ) (call : ℕ) : Option (Linearizer κ) :=
  match l.calls.get? call with
  | some ⟨key, address, .newDefer⟩ =>
    let entry := l.entries address
    some { l with
      entries := Function.update l.entries address { entry with count := entry.count + 1 }
      calls := l.calls.set call ⟨key, address, .sleep⟩
      history := l.history ++ [.acquired key call] }
  | _ => none

/-- `_release_lock`. There is no result where it raises a `KeyError`. -/
def releaseLock (l : Linearizer κ) (key : κ) (address : ℕ) : Option (Linearizer κ) :=
  let entry := { l.entries address with count := (l.entries address).count - 1 }
  match entry.deferreds with
  | next :: rest =>
    callback { l with
      entries := Function.update l.entries address { entry with deferreds := rest } } next
  | [] =>
    if entry.count = 0 then
      if key ∈ l.keyToDefer.keys then
        some { l with
          entries := Function.update l.entries address entry
          keyToDefer := l.keyToDefer.erase key }
      else none
    else some { l with entries := Function.update l.entries address entry }

/-- What a running call does, or what is done to it. -/
inductive Action (κ : Type)
  | queue (key : κ)
  | wake (call : ℕ)
  | exit (call : ℕ)
  | cancel (call : ℕ)

/-- One action. There is no result where a call is not at the place the action is about, or where the
code raises an error of its own. -/
def step (l : Linearizer κ) : Action κ → Option (Linearizer κ)
  | .queue key => some { l.acquireLock key l.nextCall with nextCall := l.nextCall + 1 }
  | .wake call =>
    match l.calls.get? call with
    | some ⟨key, address, .sleep⟩ =>
      some { l with calls := l.calls.set call ⟨key, address, .body⟩ }
    | _ => none
  | .exit call =>
    match l.calls.get? call with
    | some ⟨key, address, .body⟩ =>
      releaseLock { l with calls := l.calls.erase call } key address
    | _ => none
  | .cancel call =>
    match l.calls.get? call with
    | some ⟨key, address, .newDefer⟩ =>
      let entry := l.entries address
      -- `del entry.deferreds[new_defer]`
      if call ∈ entry.deferreds then
        some { l with
          entries := Function.update l.entries address { entry with deferreds := entry.deferreds.erase call }
          calls := l.calls.erase call
          history := l.history ++ [.withdrawn key call] }
      else none
    | some ⟨key, address, .sleep⟩ =>
      releaseLock { l with calls := l.calls.erase call } key address
    -- cancelled in the body: what the body makes of it is an exit, or nothing
    | _ => none

/-- The states that a lock reaches. -/
def Reached (maxCount : ℤ) : Linearizer κ → Prop :=
  Reachable (· = new maxCount) fun l l' => ∃ a, l.step a = some l'

/-! ## §2 Holders, waiters and their order -/

/-- How many calls hold the lock of a key. -/
def holders (l : Linearizer κ) (key : κ) : ℕ :=
  l.calls.items.countP fun c => QueueCall.holds c.2 key

/-- A call is blocked: it waits on its deferred. -/
def Blocked (l : Linearizer κ) (key : κ) (call : ℕ) : Prop :=
  ∃ address, l.calls.get? call = some ⟨key, address, .newDefer⟩

/-- The calls for a key, in the order in which they queued. -/
def queued (l : Linearizer κ) (key : κ) : List ℕ :=
  l.history.filterMap fun
    | .queued k call => if k = key then some call else none
    | _ => none

/-- The calls that took the lock of a key, in the order in which they did. -/
def acquired (l : Linearizer κ) (key : κ) : List ℕ :=
  l.history.filterMap fun
    | .acquired k call => if k = key then some call else none
    | _ => none

/-- The calls for a key that were cancelled while they waited. -/
def withdrawn (l : Linearizer κ) (key : κ) : List ℕ :=
  l.history.filterMap fun
    | .withdrawn k call => if k = key then some call else none
    | _ => none

/-- The calls for a key that were not cancelled while they waited, in the order in which they queued. -/
def staying (l : Linearizer κ) (key : κ) : List ℕ :=
  (l.queued key).filter fun call => call ∉ l.withdrawn key

/-- The entry of a key. -/
def entryOf (l : Linearizer κ) (key : κ) : Option LinearizerEntry :=
  (l.keyToDefer.get? key).map l.entries

/-- The deferreds that wait for a key. -/
def deferredsOf (l : Linearizer κ) (key : κ) : List ℕ :=
  ((l.entryOf key).map LinearizerEntry.deferreds).getD []

/-! ## §3 What an action does -/

/-- What one action does to the lock of `key`. -/
inductive Effect (l : Linearizer κ) (key : κ) : Linearizer κ → Prop
  | enterNew : l.keyToDefer.get? key = none → Effect l key { l with
        keyToDefer := l.keyToDefer.set key l.nextEntry
        entries := Function.update l.entries l.nextEntry ⟨1, []⟩
        nextEntry := l.nextEntry + 1
        calls := l.calls.set l.nextCall ⟨key, l.nextEntry, .body⟩
        nextCall := l.nextCall + 1
        history := l.history ++ [.queued key l.nextCall, .acquired key l.nextCall] }
  | enter (address : ℕ) : l.keyToDefer.get? key = some address → (l.entries address).count < l.maxCount →
      Effect l key { l with
        entries := Function.update l.entries address
          { l.entries address with count := (l.entries address).count + 1 }
        calls := l.calls.set l.nextCall ⟨key, address, .body⟩
        nextCall := l.nextCall + 1
        history := l.history ++ [.queued key l.nextCall, .acquired key l.nextCall] }
  | wait (address : ℕ) : l.keyToDefer.get? key = some address → l.maxCount ≤ (l.entries address).count →
      Effect l key { l with
        entries := Function.update l.entries address
          { l.entries address with deferreds := (l.entries address).deferreds ++ [l.nextCall] }
        calls := l.calls.set l.nextCall ⟨key, address, .newDefer⟩
        nextCall := l.nextCall + 1
        history := l.history ++ [.queued key l.nextCall] }
  | wake (call address : ℕ) : l.calls.get? call = some ⟨key, address, .sleep⟩ →
      Effect l key { l with calls := l.calls.set call ⟨key, address, .body⟩ }
  | handOver (call address next : ℕ) (place : Suspended) (rest : List ℕ) :
      l.calls.get? call = some ⟨key, address, place⟩ → place ≠ .newDefer →
      l.calls.get? next = some ⟨key, address, .newDefer⟩ →
      (l.entries address).deferreds = next :: rest →
      Effect l key { l with
        entries := Function.update l.entries address { l.entries address with deferreds := rest }
        calls := (l.calls.erase call).set next ⟨key, address, .sleep⟩
        history := l.history ++ [.acquired key next] }
  | leave (call address : ℕ) (place : Suspended) :
      l.calls.get? call = some ⟨key, address, place⟩ → place ≠ .newDefer →
      (l.entries address).deferreds = [] → (l.entries address).count ≠ 1 →
      Effect l key { l with
        entries := Function.update l.entries address
          { l.entries address with count := (l.entries address).count - 1 }
        calls := l.calls.erase call }
  | leaveLast (call address : ℕ) (place : Suspended) (entry : LinearizerEntry) :
      l.calls.get? call = some ⟨key, address, place⟩ → place ≠ .newDefer →
      (l.entries address).deferreds = [] → (l.entries address).count = 1 →
      Effect l key { l with
        entries := Function.update l.entries address entry
        keyToDefer := l.keyToDefer.erase key
        calls := l.calls.erase call }
  | withdraw (call address : ℕ) : l.calls.get? call = some ⟨key, address, .newDefer⟩ → Effect l key { l with
        entries := Function.update l.entries address
          { l.entries address with deferreds := (l.entries address).deferreds.erase call }
        calls := l.calls.erase call
        history := l.history ++ [.withdrawn key call] }

/-! ## §4 The invariant -/

/-- A key without an entry: nothing runs for it, and all that queued and stayed took the lock. -/
structure Unused (l : Linearizer κ) (key : κ) : Prop where
  registered : l.keyToDefer.get? key = none
  noCalls : ∀ call c, l.calls.get? call = some c → c.key ≠ key
  order : l.acquired key = l.staying key

/-- A key with an entry: its calls use this entry, the count is the number of holders, somebody waits
only while the lock is full, and the queue is what queued and has neither taken the lock nor gone. -/
structure Used (l : Linearizer κ) (key : κ) (address : ℕ) : Prop where
  registered : l.keyToDefer.get? key = some address
  calls : ∀ call c, l.calls.get? call = some c → c.key = key → c.entry = address
  count : (l.entries address).count = l.holders key
  pos : 0 < (l.entries address).count
  le : (l.entries address).count ≤ l.maxCount
  full : (l.entries address).deferreds ≠ [] → (l.entries address).count = l.maxCount
  blocked : ∀ call, call ∈ (l.entries address).deferreds ↔
    l.calls.get? call = some ⟨key, address, .newDefer⟩
  order : l.acquired key ++ (l.entries address).deferreds = l.staying key

/-- What holds of every key, and of the names and addresses that are given out. -/
structure Inv (l : Linearizer κ) : Prop where
  key : ∀ key, l.Unused key ∨ ∃ address, l.Used key address
  injective : ∀ key key' address, l.keyToDefer.get? key = some address →
    l.keyToDefer.get? key' = some address → key = key'
  entry_lt : ∀ key address, l.keyToDefer.get? key = some address → address < l.nextEntry
  call_lt : ∀ call c, l.calls.get? call = some c → call < l.nextCall
  queued_lt : ∀ key, ∀ call ∈ l.queued key, call < l.nextCall
  withdrawn_lt : ∀ key, ∀ call ∈ l.withdrawn key, call < l.nextCall
  nodup : ∀ key, (l.queued key).Nodup

variable {l : Linearizer κ} {key : κ} {address : ℕ}

/-- The key of a registered entry is in use. -/
theorem Inv.used (hi : l.Inv) (h : l.keyToDefer.get? key = some address) : l.Used key address := by
  rcases hi.key key with hunused | ⟨other, hused⟩
  · rw [hunused.registered] at h
    cases h
  have hother := hused.registered
  rw [h] at hother
  cases hother
  exact hused

variable {call : ℕ} {c : QueueCall κ}

/-- The key of a call is in use, with the entry that the call was given. -/
theorem Inv.used_of_call (hi : l.Inv) (h : l.calls.get? call = some c) : l.Used c.key c.entry := by
  rcases hi.key c.key with hunused | ⟨address, hused⟩
  · exact absurd rfl (hunused.noCalls call c h)
  · rw [hused.calls call c h rfl]
    exact hused

/-- The next call is not running yet. -/
theorem Inv.get?_nextCall (hi : l.Inv) : l.calls.get? l.nextCall = none := by
  rw [Option.eq_none_iff_forall_ne_some]
  intro c hc
  exact absurd (hi.call_lt _ c hc) (Nat.lt_irrefl _)

variable {place : Suspended}

/-- A release by a call that holds the lock raises no error. -/
theorem Inv.releaseLock (hi : l.Inv) (hc : l.calls.get? call = some ⟨key, address, place⟩)
    (hp : place ≠ .newDefer) :
    ∃ l', Linearizer.releaseLock { l with calls := l.calls.erase call } key address = some l' ∧
      l.Effect key l' := by
  have hused : l.Used key address := hi.used_of_call hc
  cases hd : (l.entries address).deferreds with
  | nil =>
    by_cases hcount : (l.entries address).count = 1
    · have hkey : key ∈ l.keyToDefer.keys := mem_keys_iff.mpr ⟨address, hused.registered⟩
      have hzero : (l.entries address).count - 1 = 0 := by omega
      refine ⟨_, ?_, .leaveLast call address place
        { l.entries address with count := (l.entries address).count - 1 } hc hp hd hcount⟩
      simp only [Linearizer.releaseLock, hd, if_pos hzero, if_pos hkey]
    · have hne : ¬ (l.entries address).count - 1 = 0 := by omega
      refine ⟨_, ?_, .leave call address place hc hp hd hcount⟩
      simp only [Linearizer.releaseLock, hd, if_neg hne]
  | cons next rest =>
    have hnext : l.calls.get? next = some ⟨key, address, .newDefer⟩ :=
      (hused.blocked next).mp (by rw [hd]; exact List.mem_cons_self)
    have hne : next ≠ call := by
      rintro rfl
      rw [hc] at hnext
      cases hnext
      exact hp rfl
    refine ⟨_, ?_, .handOver call address next place rest hc hp hnext hd⟩
    simp only [Linearizer.releaseLock, hd, callback, get?_erase, if_neg hne, hnext,
      update_self, update_idem, Int.sub_add_cancel]

variable {l' : Linearizer κ}

/-- **What a step does**, in a state that satisfies the invariant. -/
theorem Inv.step (hi : l.Inv) (hmax : 0 < l.maxCount) {a : Action κ}
    (h : l.step a = some l') : ∃ key, l.Effect key l' := by
  cases a with
  | queue key =>
    simp only [Linearizer.step, Option.some.injEq] at h
    subst h
    refine ⟨key, ?_⟩
    cases hk : l.keyToDefer.get? key with
    | none =>
      simp only [acquireLock, setdefault, hk, update_self, if_pos hmax, update_idem]
      exact .enterNew hk
    | some address =>
      by_cases hlt : (l.entries address).count < l.maxCount
      · simp only [acquireLock, setdefault, hk, if_pos hlt]
        exact .enter address hk hlt
      · simp only [acquireLock, setdefault, hk, if_neg hlt]
        exact .wait address hk (by omega)
  | wake call =>
    cases hc : l.calls.get? call with
    | none => simp [Linearizer.step, hc] at h
    | some c =>
      obtain ⟨key, address, place⟩ := c
      cases place with
      | newDefer => simp [Linearizer.step, hc] at h
      | sleep =>
        simp only [Linearizer.step, hc, Option.some.injEq] at h
        subst h
        exact ⟨key, .wake call address hc⟩
      | body => simp [Linearizer.step, hc] at h
  | exit call =>
    cases hc : l.calls.get? call with
    | none => simp [Linearizer.step, hc] at h
    | some c =>
      obtain ⟨key, address, place⟩ := c
      cases place with
      | newDefer => simp [Linearizer.step, hc] at h
      | sleep => simp [Linearizer.step, hc] at h
      | body =>
        obtain ⟨l'', hl'', heffect⟩ := hi.releaseLock hc (by simp)
        simp only [Linearizer.step, hc, hl'', Option.some.injEq] at h
        subst h
        exact ⟨key, heffect⟩
  | cancel call =>
    cases hc : l.calls.get? call with
    | none => simp [Linearizer.step, hc] at h
    | some c =>
      obtain ⟨key, address, place⟩ := c
      cases place with
      | newDefer =>
        simp only [Linearizer.step, hc] at h
        split at h
        · cases h
          exact ⟨key, .withdraw call address hc⟩
        · cases h
      | sleep =>
        obtain ⟨l'', hl'', heffect⟩ := hi.releaseLock hc (by simp)
        simp only [Linearizer.step, hc, hl'', Option.some.injEq] at h
        subst h
        exact ⟨key, heffect⟩
      | body => simp [Linearizer.step, hc] at h

/-! ## §5 The other keys -/

/-- Two tables of calls have the same calls for a key. -/
structure SameCalls (calls calls' : Dict ℕ (QueueCall κ)) (key : κ) : Prop where
  get? : ∀ call c, c.key = key → (calls'.get? call = some c ↔ calls.get? call = some c)
  holders : calls'.items.countP (fun c => QueueCall.holds c.2 key) =
    calls.items.countP fun c => QueueCall.holds c.2 key

variable {calls : Dict ℕ (QueueCall κ)}

theorem SameCalls.trans {calls' calls'' : Dict ℕ (QueueCall κ)} (h : SameCalls calls calls' key)
    (h' : SameCalls calls' calls'' key) : SameCalls calls calls'' key :=
  ⟨fun call c hc => (h'.get? call c hc).trans (h.get? call c hc), h'.holders.trans h.holders⟩

theorem not_holds_of_ne (h : c.key ≠ key) : c.holds key = false := by
  simp [QueueCall.holds, h]

theorem SameCalls.setNew (hnew : calls.get? call = none)
    (h : c.key ≠ key) : SameCalls calls (calls.set call c) key := by
  constructor
  · intro other d hd
    rw [get?_set]
    split
    · next heq =>
        subst heq
        have hne : c ≠ d := fun he => h (he ▸ hd)
        simp [hnew, hne]
    · rfl
  · rw [countP_items_set_of_notMem (get?_eq_none_iff.mp hnew)]
    simp [not_holds_of_ne h]

theorem SameCalls.set {c' : QueueCall κ} (hc : calls.get? call = some c) (h : c.key ≠ key) (h' : c'.key ≠ key) :
    SameCalls calls (calls.set call c') key := by
  constructor
  · intro other d hd
    rw [get?_set]
    split
    · next heq =>
        subst heq
        have hne : c ≠ d := fun he => h (he ▸ hd)
        have hne' : c' ≠ d := fun he => h' (he ▸ hd)
        simp [hc, hne, hne']
    · rfl
  · have hcount := countP_items_set hc c' fun c => QueueCall.holds c.2 key
    simpa [not_holds_of_ne h, not_holds_of_ne h'] using hcount

theorem SameCalls.erase (hc : calls.get? call = some c)
    (h : c.key ≠ key) : SameCalls calls (calls.erase call) key := by
  constructor
  · intro other d hd
    rw [get?_erase]
    split
    · next heq =>
        subst heq
        have hne : c ≠ d := fun he => h (he ▸ hd)
        simp [hc, hne]
    · rfl
  · have hcount := countP_items_erase hc fun c => QueueCall.holds c.2 key
    simpa [not_holds_of_ne h] using hcount

/-- All that is known of a key depends on its address, its entry, its calls and its events. -/
theorem keyInv_of_same (h : l.Unused key ∨ ∃ address, l.Used key address) (hmax : l'.maxCount = l.maxCount)
    (haddress : l'.keyToDefer.get? key = l.keyToDefer.get? key)
    (hentry : ∀ address, l.keyToDefer.get? key = some address →
      l'.entries address = l.entries address) (hcalls : SameCalls l.calls l'.calls key)
    (hacquired : l'.acquired key = l.acquired key) (hstaying : l'.staying key = l.staying key) :
    l'.Unused key ∨ ∃ address, l'.Used key address := by
  rcases h with h | ⟨address, h⟩
  · left
    refine ⟨haddress.trans h.registered, ?_, ?_⟩
    · intro call c hc hkey
      exact h.noCalls call c ((hcalls.get? call c hkey).mp hc) hkey
    · rw [hacquired, hstaying, h.order]
  right
  have he := hentry address h.registered
  refine ⟨address, haddress.trans h.registered, ?_, ?_, ?_, ?_, ?_, ?_, ?_⟩
  · intro call c hc hkey
    exact h.calls call c ((hcalls.get? call c hkey).mp hc) hkey
  · rw [he, h.count]
    exact congrArg _ hcalls.holders.symm
  · rw [he]
    exact h.pos
  · rw [he, hmax]
    exact h.le
  · rw [he, hmax]
    exact h.full
  · intro call
    rw [he, h.blocked, hcalls.get? call _ rfl]
  · rw [hacquired, hstaying, he, h.order]

/-- **An action leaves every other key as it is.** -/
theorem Effect.other {l l' : Linearizer κ} {key k : κ} (h : l.Effect key l') (hi : l.Inv)
    (hk : key ≠ k) : l'.Unused k ∨ ∃ address, l'.Used k address := by
  have hk' : k ≠ key := hk.symm
  have hnew := hi.get?_nextCall
  -- an entry of `key` is not at the address of another key
  have hentry : ∀ address entry, l.keyToDefer.get? key = some address → ∀ b, l.keyToDefer.get? k = some b →
        update l.entries address entry b = l.entries b := by
    intro address entry haddress b hb
    have hne : b ≠ address := by
      rintro rfl
      exact hk (hi.injective key k b haddress hb)
    exact update_of_ne hne _ _
  cases h with
  | enterNew hnone =>
    refine keyInv_of_same (hi.key k) rfl ?_ ?_ (.setNew hnew hk) ?_ ?_
    · rw [get?_set, if_neg hk']
    · intro b hb
      exact update_of_ne (Nat.ne_of_lt (hi.entry_lt k b hb)) _ _
    · simp [acquired, hk]
    · simp [staying, queued, withdrawn, hk]
  | enter address haddress hlt =>
    refine keyInv_of_same (hi.key k) rfl rfl (hentry _ _ haddress) (.setNew hnew hk) ?_ ?_
    · simp [acquired, hk]
    · simp [staying, queued, withdrawn, hk]
  | wait address haddress hle =>
    refine keyInv_of_same (hi.key k) rfl rfl (hentry _ _ haddress) (.setNew hnew hk) ?_ ?_
    · simp [acquired]
    · simp [staying, queued, withdrawn, hk]
  | wake call address hc =>
    exact keyInv_of_same (hi.key k) rfl rfl (fun _ _ => rfl) (.set hc hk hk) rfl rfl
  | handOver call address next place rest hc hp hnext hd =>
    have hnext' : (l.calls.erase call).get? next = some ⟨key, address, .newDefer⟩ := by
      rw [get?_erase, if_neg, hnext]
      rintro rfl
      rw [hc] at hnext
      cases hnext
      exact hp rfl
    refine keyInv_of_same (hi.key k) rfl rfl (hentry _ _ (hi.used_of_call hc).registered)
      ((SameCalls.erase hc hk).trans (.set hnext' hk hk)) ?_ ?_
    · simp [acquired, hk]
    · simp [staying, queued, withdrawn]
  | leave call address place hc hp hd hcount =>
    exact keyInv_of_same (hi.key k) rfl rfl (hentry _ _ (hi.used_of_call hc).registered) (.erase hc hk) rfl rfl
  | leaveLast call address place entry hc hp hd hcount =>
    refine keyInv_of_same (hi.key k) rfl ?_ (hentry _ _ (hi.used_of_call hc).registered) (.erase hc hk) rfl rfl
    rw [get?_erase, if_neg hk']
  | withdraw call address hc =>
    refine keyInv_of_same (hi.key k) rfl rfl (hentry _ _ (hi.used_of_call hc).registered) (.erase hc hk) ?_ ?_
    · simp [acquired]
    · simp [staying, queued, withdrawn, hk]

/-! ## §6 The key of the action -/

theorem staying_queued (hi : l.Inv) (hcall : call = l.nextCall) (hq : l'.queued key = l.queued key ++ [call])
    (hw : l'.withdrawn key = l.withdrawn key) : l'.staying key = l.staying key ++ [call] := by
  have hnotin : call ∉ l.withdrawn key := by
    intro hm
    have hlt := hi.withdrawn_lt key call hm
    omega
  rw [staying, staying, hq, hw, List.filter_append, List.filter_singleton]
  simp [hnotin]

/-- No call for an unused key holds its lock. -/
theorem Unused.holders (h : l.Unused key) : l.holders key = 0 := by
  rw [Linearizer.holders, List.countP_eq_zero]
  rintro ⟨call, c⟩ hc
  have hne := h.noCalls call c (get?_eq_some_iff.mpr hc)
  simp [not_holds_of_ne hne]

/-- A key gets its first entry, with one call that takes the lock. -/
theorem Inv.used_enterNew (hi : l.Inv) (hmax : 0 < l.maxCount) (hnone : l.keyToDefer.get? key = none) :
    Used { l with
      keyToDefer := l.keyToDefer.set key l.nextEntry
      entries := update l.entries l.nextEntry ⟨1, []⟩
      nextEntry := l.nextEntry + 1
      calls := l.calls.set l.nextCall ⟨key, l.nextEntry, .body⟩
      nextCall := l.nextCall + 1
      history := l.history ++ [.queued key l.nextCall, .acquired key l.nextCall] } key l.nextEntry := by
  have hu : l.Unused key := by
    rcases hi.key key with hu | ⟨address, hu⟩
    · exact hu
    · rw [hu.registered] at hnone
      cases hnone
  have hnew : l.nextCall ∉ l.calls.keys := get?_eq_none_iff.mp hi.get?_nextCall
  refine ⟨?_, ?_, ?_, ?_, ?_, ?_, ?_, ?_⟩
  · simp
  · intro call c hc hkey
    rcases of_get?_set hc with ⟨-, rfl⟩ | ⟨-, hc⟩
    · rfl
    · exact absurd hkey (hu.noCalls call c hc)
  · have hzero := hu.holders
    simp only [Linearizer.holders, update_self] at hzero ⊢
    rw [countP_items_set_of_notMem hnew, hzero]
    simp [QueueCall.holds]
  · simp
  · simp only [update_self]
    omega
  · simp
  · intro call
    simp only [update_self, List.not_mem_nil, get?_set, false_iff]
    split
    · simp
    · intro hc
      exact hu.noCalls call _ hc rfl
  · rw [staying_queued hi rfl (l := l) (by simp [queued]) (by simp [withdrawn])]
    have horder := hu.order
    simp only [acquired, update_self] at horder ⊢
    simp [horder]

/-- A call takes the lock at once: nobody waits. -/
theorem Used.enter (hi : l.Inv) (hu : l.Used key address) (hlt : (l.entries address).count < l.maxCount) :
    Used { l with
      entries := update l.entries address { l.entries address with count := (l.entries address).count + 1 }
      calls := l.calls.set l.nextCall ⟨key, address, .body⟩
      nextCall := l.nextCall + 1
      history := l.history ++ [.queued key l.nextCall, .acquired key l.nextCall] } key address := by
  have hnew : l.nextCall ∉ l.calls.keys := get?_eq_none_iff.mp hi.get?_nextCall
  have hempty : (l.entries address).deferreds = [] := by
    by_contra hne
    have hfull := hu.full hne
    omega
  have hpos := hu.pos
  refine ⟨hu.registered, ?_, ?_, ?_, ?_, ?_, ?_, ?_⟩
  · intro call c hc hkey
    rcases of_get?_set hc with ⟨-, rfl⟩ | ⟨-, hc⟩
    · rfl
    · exact hu.calls call c hc hkey
  · have hcount := hu.count
    simp only [Linearizer.holders, update_self] at hcount ⊢
    rw [countP_items_set_of_notMem hnew, hcount]
    simp [QueueCall.holds]
  · simp only [update_self]
    omega
  · simp only [update_self]
    omega
  · simp [hempty]
  · intro call
    have hblocked := hu.blocked call
    simp only [update_self, get?_set]
    split
    · next heq => simp [hempty]
    · exact hblocked
  · rw [staying_queued hi rfl (l := l) (by simp [queued]) (by simp [withdrawn])]
    have horder := hu.order
    simp only [hempty, acquired, update_self, List.append_nil] at horder ⊢
    simp [horder]

/-- A call waits at the end of the queue of a full lock. -/
theorem Used.wait (hi : l.Inv) (hu : l.Used key address) (hle : l.maxCount ≤ (l.entries address).count) :
    Used { l with
      entries := update l.entries address
        { l.entries address with deferreds := (l.entries address).deferreds ++ [l.nextCall] }
      calls := l.calls.set l.nextCall ⟨key, address, .newDefer⟩
      nextCall := l.nextCall + 1
      history := l.history ++ [.queued key l.nextCall] } key address := by
  have hnew := hi.get?_nextCall
  refine ⟨hu.registered, ?_, ?_, ?_, ?_, ?_, ?_, ?_⟩
  · intro call c hc hkey
    rcases of_get?_set hc with ⟨-, rfl⟩ | ⟨-, hc⟩
    · rfl
    · exact hu.calls call c hc hkey
  · have hcount := hu.count
    simp only [Linearizer.holders, update_self] at hcount ⊢
    rw [countP_items_set_of_notMem (get?_eq_none_iff.mp hnew), hcount]
    simp [QueueCall.holds]
  · simpa using hu.pos
  · simpa using hu.le
  · intro _
    simp only [update_self]
    exact Int.le_antisymm hu.le hle
  · intro call
    have hblocked := hu.blocked call
    simp only [update_self, get?_set, List.mem_append, List.mem_singleton]
    split
    · next heq => simp [heq]
    · next hne => simpa [hne] using hblocked
  · rw [staying_queued hi rfl (l := l) (by simp [queued]) (by simp [withdrawn])]
    have horder := hu.order
    simp only [acquired, update_self] at horder ⊢
    simp [← horder]

/-- A call that was woken goes on to its body. -/
theorem Used.wake (hu : l.Used key address) (hc : l.calls.get? call = some ⟨key, address, .sleep⟩) :
    Used { l with calls := l.calls.set call ⟨key, address, .body⟩ } key address := by
  refine ⟨hu.registered, ?_, ?_, hu.pos, hu.le, hu.full, ?_, hu.order⟩
  · intro other c hother hkey
    rcases of_get?_set hother with ⟨-, rfl⟩ | ⟨-, hother⟩
    · rfl
    · exact hu.calls other c hother hkey
  · have hcount := countP_items_set hc ⟨key, address, .body⟩ fun c => QueueCall.holds c.2 key
    rw [hu.count, Linearizer.holders, Linearizer.holders]
    simp [QueueCall.holds] at hcount ⊢
    omega
  · intro other
    rw [hu.blocked, get?_set]
    split
    · next heq =>
        subst heq
        simp [hc]
    · rfl

/-- A holder goes and the first that waits takes its place. -/
theorem Used.handOver {next : ℕ} {rest : List ℕ} (hu : l.Used key address) (hnodup : (l.staying key).Nodup)
    (hc : l.calls.get? call = some ⟨key, address, place⟩) (hp : place ≠ .newDefer)
    (hnext : l.calls.get? next = some ⟨key, address, .newDefer⟩)
    (hd : (l.entries address).deferreds = next :: rest) : Used { l with
      entries := update l.entries address { l.entries address with deferreds := rest }
      calls := (l.calls.erase call).set next ⟨key, address, .sleep⟩
      history := l.history ++ [.acquired key next] } key address := by
  have hne : next ≠ call := by
    rintro rfl
    rw [hc] at hnext
    cases hnext
    exact hp rfl
  have hnext' : (l.calls.erase call).get? next = some ⟨key, address, .newDefer⟩ := by
    rw [get?_erase, if_neg hne, hnext]
  have hnotin : next ∉ rest := by
    rw [← hu.order, hd] at hnodup
    exact (List.nodup_cons.mp (List.nodup_append.mp hnodup).2.1).1
  have hfull := hu.full (by rw [hd]; exact List.cons_ne_nil _ _)
  refine ⟨hu.registered, ?_, ?_, ?_, ?_, ?_, ?_, ?_⟩
  · intro other c hother hkey
    rw [get?_set, get?_erase] at hother
    split at hother
    · cases hother
      rfl
    split at hother
    · cases hother
    · exact hu.calls other c hother hkey
  · have hset := countP_items_set hnext' ⟨key, address, .sleep⟩ fun c => QueueCall.holds c.2 key
    have herase := countP_items_erase hc fun c => QueueCall.holds c.2 key
    have hcount := hu.count
    simp only [Linearizer.holders, update_self] at hcount ⊢
    simp [QueueCall.holds, hp] at hset herase hcount ⊢
    omega
  · simpa using hu.pos
  · simpa using hu.le
  · simpa using fun _ => hfull
  · intro other
    have hblocked := hu.blocked other
    simp only [update_self, get?_set, get?_erase]
    rw [hd, List.mem_cons] at hblocked
    by_cases hother : other = next
    · subst hother
      simp [hnotin]
    by_cases hcall : other = call
    · subst hcall
      -- the call that leaves holds the lock: it does not wait
      have hwaits : other ∉ rest := by
        intro hm
        have hw := hblocked.mp (Or.inr hm)
        rw [hc] at hw
        cases hw
        exact hp rfl
      simp [hother, hwaits]
    · simpa [hother, hcall] using hblocked
  · have horder := hu.order
    simp only [acquired, staying, queued, withdrawn, update_self, hd] at horder ⊢
    simpa using horder

/-- A holder goes, nobody waits, and others hold the lock. -/
theorem Used.leave (hu : l.Used key address) (hc : l.calls.get? call = some ⟨key, address, place⟩)
    (hp : place ≠ .newDefer) (hd : (l.entries address).deferreds = [])
    (hcount : (l.entries address).count ≠ 1) : Used { l with
      entries := update l.entries address { l.entries address with count := (l.entries address).count - 1 }
      calls := l.calls.erase call } key address := by
  have hpos := hu.pos
  have hle := hu.le
  refine ⟨hu.registered, ?_, ?_, ?_, ?_, ?_, ?_, ?_⟩
  · intro other c hother hkey
    obtain ⟨-, hother⟩ := of_get?_erase hother
    exact hu.calls other c hother hkey
  · have herase := countP_items_erase hc fun c => QueueCall.holds c.2 key
    have hholders := hu.count
    simp only [Linearizer.holders, update_self] at hholders ⊢
    simp [QueueCall.holds, hp] at herase hholders ⊢
    omega
  · simp only [update_self]
    omega
  · simp only [update_self]
    omega
  · simp [hd]
  · intro other
    have hblocked := hu.blocked other
    simp only [update_self, get?_erase]
    split
    · next heq => simp [hd]
    · exact hblocked
  · show l.acquired key ++ (update l.entries address _ address).deferreds = l.staying key
    rw [update_self]
    exact hu.order

/-- The last holder goes, nobody waits: the entry goes too. -/
theorem Used.leaveLast (hu : l.Used key address) (hc : l.calls.get? call = some ⟨key, address, place⟩)
    (hp : place ≠ .newDefer) (hd : (l.entries address).deferreds = []) (hcount : (l.entries address).count = 1)
    (entry : LinearizerEntry) : Unused { l with
      entries := update l.entries address entry
      keyToDefer := l.keyToDefer.erase key
      calls := l.calls.erase call } key := by
  refine ⟨?_, ?_, ?_⟩
  · simp [get?_erase]
  · intro other c hother hkey
    have herase := countP_items_erase hc fun c => QueueCall.holds c.2 key
    have hholders := hu.count
    have hentry : c.entry = address := by
      obtain ⟨-, hother⟩ := of_get?_erase hother
      exact hu.calls other c hother hkey
    simp only [Linearizer.holders] at hholders
    -- a call that is left would hold the lock, as nobody waits: two holders
    have hzero : (l.calls.erase call).items.countP (fun c => QueueCall.holds c.2 key) = 0 := by
      simp only [QueueCall.holds, hp, ne_eq, not_false_eq_true, and_self, decide_true, if_true] at herase hholders ⊢
      omega
    have hnot := List.countP_eq_zero.mp hzero (other, c) (get?_eq_some_iff.mp hother)
    have hwaits : c.suspended = .newDefer := by
      simpa [QueueCall.holds, hkey] using hnot
    obtain ⟨-, hother⟩ := of_get?_erase hother
    have hm : other ∈ (l.entries address).deferreds := by
      rw [hu.blocked, hother, ← hkey, ← hentry, ← hwaits]
    rw [hd] at hm
    cases hm
  · have horder := hu.order
    rw [hd, List.append_nil] at horder
    exact horder

/-- A call that waits is cancelled. -/
theorem Used.withdraw (hu : l.Used key address) (hnodup : (l.staying key).Nodup)
    (hc : l.calls.get? call = some ⟨key, address, .newDefer⟩) : Used { l with
      entries := update l.entries address
        { l.entries address with deferreds := (l.entries address).deferreds.erase call }
      calls := l.calls.erase call
      history := l.history ++ [.withdrawn key call] } key address := by
  have hm : call ∈ (l.entries address).deferreds := (hu.blocked call).mpr hc
  have hsplit : (l.acquired key ++ (l.entries address).deferreds).Nodup := by
    rw [hu.order]
    exact hnodup
  obtain ⟨-, hdnodup, hdisjoint⟩ := List.nodup_append.mp hsplit
  refine ⟨hu.registered, ?_, ?_, ?_, ?_, ?_, ?_, ?_⟩
  · intro other c hother hkey
    obtain ⟨-, hother⟩ := of_get?_erase hother
    exact hu.calls other c hother hkey
  · have herase := countP_items_erase hc fun c => QueueCall.holds c.2 key
    have hcount := hu.count
    simp only [Linearizer.holders, update_self] at hcount ⊢
    simp [QueueCall.holds] at herase hcount ⊢
    omega
  · simpa using hu.pos
  · simpa using hu.le
  · simp only [update_self]
    intro _
    exact hu.full (List.ne_nil_of_mem hm)
  · intro other
    have hblocked := hu.blocked other
    simp only [update_self, get?_erase, hdnodup.mem_erase_iff]
    split
    · next heq => simp [heq]
    · next hne => simpa [hne] using hblocked
  · have horder := hu.order
    have hacquired : (l.acquired key).filter (fun other => other != call) = l.acquired key := by
      rw [List.filter_eq_self]
      intro other hother
      simpa using hdisjoint other hother call hm
    have hstaying : staying { l with history := l.history ++ [.withdrawn key call] } key =
        (l.staying key).filter fun other => other != call := by
      have hq : queued { l with history := l.history ++ [.withdrawn key call] } key = l.queued key := by
        simp [queued]
      have hw : withdrawn { l with history := l.history ++ [.withdrawn key call] } key =
          l.withdrawn key ++ [call] := by
        simp [withdrawn]
      rw [staying, staying, hq, hw, List.filter_filter]
      refine List.filter_congr fun other _ => ?_
      by_cases heq : other = call
      · simp [heq]
      · simp [heq]
    show acquired { l with history := l.history ++ [.withdrawn key call] } key ++ _ =
      staying { l with history := l.history ++ [.withdrawn key call] } key
    rw [hstaying, ← horder, List.filter_append, hacquired, ← hdnodup.erase_eq_filter]
    simp [acquired]

/-- **An action keeps what holds of its own key.** -/
theorem Effect.own (h : l.Effect key l') (hi : l.Inv)
    (hmax : 0 < l.maxCount) : l'.Unused key ∨ ∃ address, l'.Used key address := by
  have hnodup : (l.staying key).Nodup := (hi.nodup key).filter _
  cases h with
  | enterNew hnone => exact Or.inr ⟨_, hi.used_enterNew hmax hnone⟩
  | enter address haddress hlt => exact Or.inr ⟨address, (hi.used haddress).enter hi hlt⟩
  | wait address haddress hle => exact Or.inr ⟨address, (hi.used haddress).wait hi hle⟩
  | wake call address hc => exact Or.inr ⟨address, (hi.used_of_call hc).wake hc⟩
  | handOver call address next place rest hc hp hnext hd =>
    exact Or.inr ⟨address, (hi.used_of_call hc).handOver hnodup hc hp hnext hd⟩
  | leave call address place hc hp hd hcount =>
    exact Or.inr ⟨address, (hi.used_of_call hc).leave hc hp hd hcount⟩
  | leaveLast call address place entry hc hp hd hcount =>
    exact Or.inl ((hi.used_of_call hc).leaveLast hc hp hd hcount entry)
  | withdraw call address hc => exact Or.inr ⟨address, (hi.used_of_call hc).withdraw hnodup hc⟩

/-! ## §7 Names and addresses -/

theorem Effect.addresses (h : l.Effect key l') (hi : l.Inv) : (∀ k k' address, l'.keyToDefer.get? k = some address →
      l'.keyToDefer.get? k' = some address → k = k') ∧
      ∀ k address, l'.keyToDefer.get? k = some address → address < l'.nextEntry := by
  cases h with
  | enterNew hnone =>
    constructor
    · intro k k' address hk hk'
      simp only [get?_set] at hk hk'
      split at hk
      · next heq =>
          cases hk
          split at hk'
          · next heq' => rw [heq, heq']
          · exact absurd (hi.entry_lt k' _ hk') (Nat.lt_irrefl _)
      · split at hk'
        · cases hk'
          exact absurd (hi.entry_lt k _ hk) (Nat.lt_irrefl _)
        · exact hi.injective k k' address hk hk'
    · intro k address hk
      simp only [get?_set] at hk
      split at hk
      · cases hk
        exact Nat.lt_succ_self _
      · exact Nat.lt_succ_of_lt (hi.entry_lt k address hk)
  | leaveLast call address place entry hc hp hd hcount =>
    have herased : ∀ k b, (l.keyToDefer.erase key).get? k = some b → l.keyToDefer.get? k = some b := by
      intro k b hk
      obtain ⟨-, hk⟩ := of_get?_erase hk
      exact hk
    exact ⟨fun k k' b hk hk' => hi.injective k k' b (herased k b hk) (herased k' b hk'),
      fun k b hk => hi.entry_lt k b (herased k b hk)⟩
  | _ => exact ⟨hi.injective, hi.entry_lt⟩

theorem Effect.call_lt (h : l.Effect key l') (hi : l.Inv) {x : ℕ} {d : QueueCall κ}
    (hx : l'.calls.get? x = some d) : x < l'.nextCall := by
  have hset : ∀ c, (l.calls.set l.nextCall c).get? x = some d → x < l.nextCall + 1 := by
    intro c hx
    rw [get?_set] at hx
    split at hx
    · omega
    · exact Nat.lt_succ_of_lt (hi.call_lt x d hx)
  have herase : ∀ call, (l.calls.erase call).get? x = some d → x < l.nextCall := by
    intro call hx
    obtain ⟨-, hx⟩ := of_get?_erase hx
    exact hi.call_lt x d hx
  cases h with
  | enterNew hnone => exact hset _ hx
  | enter address haddress hlt => exact hset _ hx
  | wait address haddress hle => exact hset _ hx
  | wake call address hc =>
    rcases of_get?_set hx with ⟨heq, -⟩ | ⟨-, hx⟩
    · exact heq ▸ hi.call_lt call _ hc
    · exact hi.call_lt x d hx
  | handOver call address next place rest hc hp hnext hd =>
    rcases of_get?_set hx with ⟨heq, -⟩ | ⟨-, hx⟩
    · exact heq ▸ hi.call_lt next _ hnext
    · exact herase call hx
  | leave call address place hc hp hd hcount => exact herase call hx
  | leaveLast call address place entry hc hp hd hcount => exact herase call hx
  | withdraw call address hc => exact herase call hx

/-- What an action adds to the calls that queued. -/
theorem Effect.queued (h : l.Effect key l') (k : κ) : l.nextCall ≤ l'.nextCall ∧
      (l'.queued k = l.queued k ∨
        l'.queued k = l.queued k ++ [l.nextCall] ∧ l'.nextCall = l.nextCall + 1) := by
  by_cases hk : key = k
  · cases h <;> simp [Linearizer.queued, hk]
  · cases h <;> simp [Linearizer.queued, hk]

/-- What an action adds to the calls that went away. -/
theorem Effect.withdrawn (h : l.Effect key l') (k : κ) : l'.withdrawn k = l.withdrawn k ∨
      ∃ call c, l.calls.get? call = some c ∧ l'.withdrawn k = l.withdrawn k ++ [call] := by
  cases h with
  | withdraw call address hc =>
    by_cases hk : key = k
    · exact Or.inr ⟨call, _, hc, by simp [Linearizer.withdrawn, hk]⟩
    · exact Or.inl (by simp [Linearizer.withdrawn, hk])
  | _ => exact Or.inl (by simp [Linearizer.withdrawn])

/-- **An action keeps the invariant.** -/
theorem Effect.inv (h : l.Effect key l') (hi : l.Inv) (hmax : 0 < l.maxCount) : l'.Inv := by
  obtain ⟨hinjective, hentry⟩ := h.addresses hi
  refine ⟨?_, hinjective, hentry, fun x d => h.call_lt hi, ?_, ?_, ?_⟩
  · intro k
    by_cases hk : key = k
    · subst hk
      exact h.own hi hmax
    · exact h.other hi hk
  · intro k call hcall
    obtain ⟨hle, hqueued⟩ := h.queued k
    rcases hqueued with hq | ⟨hq, hnext⟩
    · rw [hq] at hcall
      exact Nat.lt_of_lt_of_le (hi.queued_lt k call hcall) hle
    rw [hq, List.mem_append, List.mem_singleton] at hcall
    rcases hcall with hcall | hcall
    · exact Nat.lt_of_lt_of_le (hi.queued_lt k call hcall) hle
    · omega
  · intro k call hcall
    have hle := (h.queued k).1
    rcases h.withdrawn k with hw | ⟨other, c, hc, hw⟩
    · rw [hw] at hcall
      exact Nat.lt_of_lt_of_le (hi.withdrawn_lt k call hcall) hle
    rw [hw, List.mem_append, List.mem_singleton] at hcall
    rcases hcall with hcall | rfl
    · exact Nat.lt_of_lt_of_le (hi.withdrawn_lt k call hcall) hle
    · exact Nat.lt_of_lt_of_le (hi.call_lt call c hc) hle
  · intro k
    obtain ⟨-, hqueued⟩ := h.queued k
    rcases hqueued with hq | ⟨hq, -⟩
    · rw [hq]
      exact hi.nodup k
    rw [hq, List.nodup_append]
    refine ⟨hi.nodup k, List.nodup_singleton _, ?_⟩
    intro a ha b hb
    rw [List.mem_singleton] at hb
    exact Nat.ne_of_lt (hb ▸ hi.queued_lt k a ha)

theorem inv_new (maxCount : ℤ) : (new maxCount : Linearizer κ).Inv := by
  refine ⟨fun key => Or.inl ⟨rfl, ?_, rfl⟩, ?_, ?_, ?_, ?_, ?_, ?_⟩
  · intro call c hc
    cases hc
  · intro key key' address h
    cases h
  · intro key address h
    cases h
  · intro call c hc
    cases hc
  · intro key call hcall
    cases hcall
  · intro key call hcall
    cases hcall
  · intro key
    exact List.nodup_nil

theorem Effect.maxCount (h : l.Effect key l') : l'.maxCount = l.maxCount := by
  cases h <;> rfl

/-- **The invariant holds in every state reached.** -/
theorem Reached.inv {maxCount : ℤ} (hmax : 0 < maxCount)
    (h : Reached maxCount l) : l.Inv ∧ l.maxCount = maxCount := by
  refine Reachable.invariant (?_ : ∀ l, _ → l.Inv ∧ l.maxCount = maxCount) ?_ h
  · rintro l rfl
    exact ⟨inv_new maxCount, rfl⟩
  rintro l l' - ⟨hi, hcount⟩ ⟨a, ha⟩
  have hpos : 0 < l.maxCount := hcount ▸ hmax
  obtain ⟨key, heffect⟩ := hi.step hpos ha
  exact ⟨heffect.inv hi hpos, heffect.maxCount.trans hcount⟩

/-! ## §8 A fair bounded lock -/

/-- The calls that wait for a key are the rest of its queue: those that took the lock came first. -/
theorem Inv.order (hi : l.Inv) (key : κ) : ∃ waiting, l.acquired key ++ waiting = l.staying key ∧
      ∀ call, call ∈ waiting ↔ l.Blocked key call := by
  rcases hi.key key with hu | ⟨address, hu⟩
  · refine ⟨[], ?_, ?_⟩
    · rw [List.append_nil, hu.order]
    · intro call
      constructor
      · intro hm
        cases hm
      · rintro ⟨address, hc⟩
        exact absurd rfl (hu.noCalls call _ hc)
  refine ⟨_, hu.order, ?_⟩
  intro call
  rw [hu.blocked]
  constructor
  · intro hc
    exact ⟨address, hc⟩
  rintro ⟨other, hc⟩
  obtain rfl : other = address := hu.calls call _ hc rfl
  exact hc

theorem Inv.holders_le (hi : l.Inv) (hmax : 0 < l.maxCount) (key : κ) : (l.holders key : ℤ) ≤ l.maxCount := by
  rcases hi.key key with hu | ⟨address, hu⟩
  · have hzero := hu.holders
    omega
  · rw [← hu.count]
    exact hu.le

theorem Inv.not_blocked (hi : l.Inv) (h : (l.holders key : ℤ) < l.maxCount) (call : ℕ) : ¬ l.Blocked key call := by
  rintro ⟨address, hc⟩
  have hu : l.Used key address := hi.used_of_call hc
  have hfull := hu.full (List.ne_nil_of_mem ((hu.blocked call).mpr hc))
  rw [hu.count] at hfull
  omega

theorem Inv.no_entry (hi : l.Inv)
    (h : ∀ call c, l.calls.get? call = some c → c.key ≠ key) : l.keyToDefer.get? key = none := by
  rcases hi.key key with hu | ⟨address, hu⟩
  · exact hu.registered
  have hpos : 0 < l.holders key := by
    have hcount := hu.count
    have hentry := hu.pos
    omega
  obtain ⟨⟨call, c⟩, hc, hholds⟩ := List.countP_pos_iff.mp hpos
  refine absurd ?_ (h call c (get?_eq_some_iff.mpr hc))
  simp only [QueueCall.holds, decide_eq_true_eq] at hholds
  exact hholds.1

/-- What a call can do at its place, and what can be done to it, raises no error. -/
theorem Inv.enabled (hi : l.Inv) (hc : l.calls.get? call = some c) :
    (c.suspended = .sleep → (l.step (.wake call)).isSome) ∧
      (c.suspended = .body → (l.step (.exit call)).isSome) ∧
      (c.suspended ≠ .body → (l.step (.cancel call)).isSome) := by
  obtain ⟨key, address, place⟩ := c
  cases place with
  | newDefer =>
    have hu : l.Used key address := hi.used_of_call hc
    have hm := (hu.blocked call).mpr hc
    simp [Linearizer.step, hc, hm]
  | sleep =>
    obtain ⟨l', hl', -⟩ := hi.releaseLock hc (by simp)
    simp [Linearizer.step, hc, hl']
  | body =>
    obtain ⟨l', hl', -⟩ := hi.releaseLock hc (by simp)
    simp [Linearizer.step, hc, hl']

/-- **A fair bounded lock.** In every state that calls, wake-ups, exits and cancellations lead to, at
most `maxCount` calls hold a key; those that took the lock and then those that wait are the calls that
stayed, in the order in which they queued; nobody waits while fewer than `maxCount` hold the key; a key
without calls has no entry; and no release or cancellation raises an error. -/
theorem linearizer_fair {maxCount : ℤ} (hmax : 0 < maxCount) {l : Linearizer κ} (h : Reached maxCount l) (key : κ) :
    (l.holders key : ℤ) ≤ maxCount ∧
      (∃ waiting, l.acquired key ++ waiting = l.staying key ∧
        ∀ call, call ∈ waiting ↔ l.Blocked key call) ∧
      ((l.holders key : ℤ) < maxCount → ∀ call, ¬ l.Blocked key call) ∧
      ((∀ call c, l.calls.get? call = some c → c.key ≠ key) → l.keyToDefer.get? key = none) ∧
      ∀ call c, l.calls.get? call = some c → (c.suspended = .sleep → (l.step (.wake call)).isSome) ∧
          (c.suspended = .body → (l.step (.exit call)).isSome) ∧
          (c.suspended ≠ .body → (l.step (.cancel call)).isSome) := by
  obtain ⟨hi, rfl⟩ := h.inv hmax
  exact ⟨hi.holders_le hmax key, hi.order key, hi.not_blocked, hi.no_entry, fun call c hc => hi.enabled hc⟩

/-- A run over a list of actions reaches its last state. -/
theorem reached_of_run {maxCount : ℤ} {actions : List (Action κ)}
    (h : actions.foldlM step (new maxCount) = some l) : Reached maxCount l :=
  Reachable.of_foldlM (fun _ a _ h => ⟨a, h⟩) (.start rfl) h

theorem linearizer_fair_example : ∃ l : Linearizer String,
      [Action.queue "room", .queue "room", .queue "room", .cancel 1, .exit 0].foldlM step (new 1) = some l ∧
      (l.holders "room" : ℤ) ≤ 1 ∧ l.acquired "room" <+: l.staying "room" := by
  obtain ⟨l, hl⟩ : ∃ l : Linearizer String,
      [Action.queue "room", .queue "room", .queue "room", .cancel 1, .exit 0].foldlM step (new 1) = some l :=
    Option.isSome_iff_exists.mp (by decide +kernel)
  have hfair := linearizer_fair (by decide) (reached_of_run hl) "room"
  obtain ⟨waiting, horder, -⟩ := hfair.2.1
  exact ⟨l, hl, hfair.1, waiting, horder⟩

/-- **`is_queued` sees who waits**, and nobody waits before the lock is full. -/
theorem isQueued_iff {maxCount : ℤ} (hmax : 0 < maxCount) (h : Reached maxCount l) (key : κ) :
    (l.isQueued key = true ↔ ∃ call, l.Blocked key call) ∧ (l.isQueued key = true → l.holders key = maxCount) := by
  obtain ⟨hi, rfl⟩ := h.inv hmax
  rw [isQueued]
  rcases hi.key key with hu | ⟨address, hu⟩
  · rw [hu.registered]
    refine ⟨iff_of_false Bool.false_ne_true ?_, nofun⟩
    rintro ⟨call, address, hc⟩
    exact hu.noCalls call _ hc rfl
  simp only [hu.registered, Bool.not_eq_true', List.isEmpty_eq_false_iff]
  refine ⟨⟨fun hne => ?_, ?_⟩, fun hne => hu.count.symm.trans (hu.full hne)⟩
  · obtain ⟨call, hcall⟩ := List.exists_mem_of_ne_nil _ hne
    exact ⟨call, address, (hu.blocked call).mp hcall⟩
  · rintro ⟨call, other, hc⟩
    obtain rfl := hu.calls call _ hc rfl
    exact List.ne_nil_of_mem ((hu.blocked call).mpr hc)

/-- The second call waits. -/
theorem isQueued_iff_second : ∃ l : Linearizer String, Reached 1 l ∧ ∃ call, l.Blocked "room" call := by
  have hrun : [Action.queue "room", .queue "room"].foldlM step (new 1) = some _ := rfl
  have h := reached_of_run hrun
  exact ⟨_, h, (isQueued_iff (by decide) h "room").1.mp rfl⟩

end Linearizer

end Setka.Util
