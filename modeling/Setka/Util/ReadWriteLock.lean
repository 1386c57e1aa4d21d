/-
# Setka.Util.ReadWriteLock — readers together, writers alone.

A request has a deferred that it resolves when it lets the lock go. Two maps keep, for each key, the
deferreds of the latest readers and of the latest writer; a new reader waits for that writer, a new writer
for both and takes their place. What runs between a resolved deferred and the requests that wait for it is
not fixed here: resuming, releasing and tidying up are steps of their own, in any order.
-/
import Setka.Lib.Dict
import Setka.Lib.Transition
import Mathlib.Data.Finset.Insert
import Mathlib.Data.Finset.Erase
import Mathlib.Data.Finset.Lattice.Basic

namespace Setka.Util

open Setka.Lib Dict

/-! ## §1 The lock -/

/-- `read` or `write`. -/
inductive LockKind
  | read
  | write
deriving DecidableEq

/-- Where a request is. `waiting`: it awaits what it found in the two maps. `cancelling`: a writer that was
cancelled then, and waits on all the same (`delay_cancellation`). `holding`: in the body. `resolved`: its
own deferred has been called back. `ended`: its entry in the maps is gone too. -/
inductive LockPhase
  | waiting
  | cancelling
  | holding
  | resolved
  | ended
deriving DecidableEq

/-- A call of `read` or `write`, with the deferreds that it waits on. -/
structure LockRequest where
  key : String
  kind : LockKind
  waitsOn : Finset ℕ
  phase : LockPhase

/-- `ReadWriteLock`, with the requests made so far. A deferred is named by the request that owns it. -/
structure ReadWriteLock where
  keyToCurrentReaders : Dict String (Finset ℕ)
  keyToCurrentWriter : Dict String ℕ
  requests : Dict ℕ LockRequest
  nextRequest : ℕ

/-- The request's own deferred has been called back. -/
def LockRequest.released (r : LockRequest) : Bool := r.phase = .resolved ∨ r.phase = .ended

/-- Two requests exclude each other. -/
def LockRequest.conflicts (r r' : LockRequest) : Prop :=
  r.key = r'.key ∧ (r.kind = .write ∨ r'.kind = .write)

namespace ReadWriteLock

/-- `__init__`. -/
def new : ReadWriteLock where
  keyToCurrentReaders := .empty
  keyToCurrentWriter := .empty
  requests := .empty
  nextRequest := 0

/-- The deferred of a request has been called back. -/
def released (l : ReadWriteLock) (request : ℕ) : Bool :=
  match l.requests.get? request with
  | none => false
  | some r => r.released

/-- All that is waited on has been called back. -/
def Ready (l : ReadWriteLock) (waitsOn : Finset ℕ) : Prop := ∀ d ∈ waitsOn, l.released d = true

instance (l : ReadWriteLock) (waitsOn : Finset ℕ) : Decidable (l.Ready waitsOn) :=
  inferInstanceAs (Decidable (∀ d ∈ waitsOn, l.released d = true))

/-- `key_to_current_readers.get(key, set())`. -/
def currentReaders (l : ReadWriteLock) (key : String) : Finset ℕ :=
  l.keyToCurrentReaders.getD key ∅

/-- The deferred of the latest writer, if there is one. -/
def currentWriter (l : ReadWriteLock) (key : String) : Finset ℕ :=
  match l.keyToCurrentWriter.get? key with
  | none => ∅
  | some writer => {writer}

/-- A new request, which goes on at once when it has nothing to wait for. -/
def request (l : ReadWriteLock) (key : String) (kind : LockKind) (waitsOn : Finset ℕ) : LockRequest :=
  ⟨key, kind, waitsOn, if l.Ready waitsOn then .holding else .waiting⟩

/-- `read`, as far as its first suspension. -/
def read (l : ReadWriteLock) (key : String) : ReadWriteLock :=
  { keyToCurrentReaders :=
      l.keyToCurrentReaders.set key (insert l.nextRequest (l.currentReaders key))
    keyToCurrentWriter := l.keyToCurrentWriter
    requests := l.requests.set l.nextRequest (l.request key .read (l.currentWriter key))
    nextRequest := l.nextRequest + 1 }

/-- `write`, as far as its first suspension. -/
def write (l : ReadWriteLock) (key : String) : ReadWriteLock :=
  { keyToCurrentReaders :=
      -- `curr_readers.clear()` empties a set of the map, or a fresh one
      if key ∈ l.keyToCurrentReaders.keys then l.keyToCurrentReaders.set key ∅
      else l.keyToCurrentReaders
    keyToCurrentWriter := l.keyToCurrentWriter.set key l.nextRequest
    requests := l.requests.set l.nextRequest (l.request key .write (l.currentReaders key ∪ l.currentWriter key))
    nextRequest := l.nextRequest + 1 }

/-- What the `finally` does after the callback: `discard`, or `pop` if this is still the latest writer. -/
def tidy (l : ReadWriteLock) (id : ℕ) (r : LockRequest) : ReadWriteLock :=
  match r.kind with
  | .read =>
    if r.key ∈ l.keyToCurrentReaders.keys then
      { l with keyToCurrentReaders :=
          l.keyToCurrentReaders.set r.key ((l.currentReaders r.key).erase id) }
    else l
  | .write =>
    if l.keyToCurrentWriter.get? r.key = some id then
      { l with keyToCurrentWriter := l.keyToCurrentWriter.erase r.key }
    else l

/-- The request is in another phase. -/
def setPhase (l : ReadWriteLock) (id : ℕ) (r : LockRequest) (phase : LockPhase) : ReadWriteLock :=
  { l with requests := l.requests.set id { r with phase := phase } }

/-- What a request does, or what is done to it. -/
inductive Action
  | read (key : String)
  | write (key : String)
  | resume (id : ℕ)
  | cancel (id : ℕ)
  | release (id : ℕ)
  | finish (id : ℕ)

/-- One action. There is no result where the request is not at the place the action is about. -/
def step (l : ReadWriteLock) : Action → Option ReadWriteLock
  | .read key => some (l.read key)
  | .write key => some (l.write key)
  | .resume id =>
    match l.requests.get? id with
    | none => none
    | some r =>
      if l.Ready r.waitsOn then
        match r.phase with
        | .waiting => some (l.setPhase id r .holding)
        -- the `CancelledError` is raised now, and the `finally` calls the deferred back
        | .cancelling => some (l.setPhase id r .resolved)
        | _ => none
      else none
  | .cancel id =>
    match l.requests.get? id with
    | none => none
    | some r =>
      match r.phase, r.kind with
      -- `stop_cancellation`: the `CancelledError` is raised at once
      | .waiting, .read => some (l.setPhase id r .resolved)
      -- `delay_cancellation`: not before all that is waited on is resolved
      | .waiting, .write => some (l.setPhase id r .cancelling)
      | _, _ => none
  | .release id =>
    match l.requests.get? id with
    | none => none
    | some r =>
      match r.phase with
      | .holding => some (l.setPhase id r .resolved)
      | _ => none
  | .finish id =>
    match l.requests.get? id with
    | none => none
    | some r =>
      match r.phase with
      | .resolved => some ((l.tidy id r).setPhase id r .ended)
      | _ => none

/-- One step, of any request. -/
def Step (l l' : ReadWriteLock) : Prop := ∃ a, l.step a = some l'

/-- The states that a lock reaches. -/
def Reached : ReadWriteLock → Prop := Reachable (· = new) Step

/-! ## §2 What an action does -/

/-- A change of phase that the code makes: what a request may go on to, and when. -/
inductive Moves (l : ReadWriteLock) (r : LockRequest) : LockPhase → Prop
  | acquire : r.phase = .waiting → l.Ready r.waitsOn → Moves l r .holding
  | giveUp : r.phase = .cancelling → l.Ready r.waitsOn → Moves l r .resolved
  | leave : r.phase = .waiting → r.kind = .read → Moves l r .resolved
  | delay : r.phase = .waiting → r.kind = .write → Moves l r .cancelling
  | release : r.phase = .holding → Moves l r .resolved

/-- What one action does to the lock. -/
inductive Effect (l : ReadWriteLock) : ReadWriteLock → Prop
  | read (key : String) : Effect l (l.read key)
  | write (key : String) : Effect l (l.write key)
  | move (id : ℕ) (r : LockRequest) (phase : LockPhase) : l.requests.get? id = some r →
      l.Moves r phase → Effect l (l.setPhase id r phase)
  | finish (id : ℕ) (r : LockRequest) : l.requests.get? id = some r → r.phase = .resolved →
      Effect l ((l.tidy id r).setPhase id r .ended)

variable {l l' : ReadWriteLock}

/-- **What a step does.** -/
theorem Step.effect (h : l.Step l') : l.Effect l' := by
  obtain ⟨a, ha⟩ := h
  cases a with
  | read key =>
    cases ha
    exact .read key
  | write key =>
    cases ha
    exact .write key
  | resume id =>
    cases hr : l.requests.get? id with
    | none => simp [ReadWriteLock.step, hr] at ha
    | some r =>
      simp only [ReadWriteLock.step, hr] at ha
      split at ha
      · next hready =>
          split at ha
          · next hphase =>
              cases ha
              exact .move id r _ hr (.acquire hphase hready)
          · next hphase =>
              cases ha
              exact .move id r _ hr (.giveUp hphase hready)
          · cases ha
      · cases ha
  | cancel id =>
    cases hr : l.requests.get? id with
    | none => simp [ReadWriteLock.step, hr] at ha
    | some r =>
      simp only [ReadWriteLock.step, hr] at ha
      split at ha
      · next hphase hkind =>
          cases ha
          exact .move id r _ hr (.leave hphase hkind)
      · next hphase hkind =>
          cases ha
          exact .move id r _ hr (.delay hphase hkind)
      · cases ha
  | release id =>
    cases hr : l.requests.get? id with
    | none => simp [ReadWriteLock.step, hr] at ha
    | some r =>
      simp only [ReadWriteLock.step, hr] at ha
      split at ha
      · next hphase =>
          cases ha
          exact .move id r _ hr (.release hphase)
      · cases ha
  | finish id =>
    cases hr : l.requests.get? id with
    | none => simp [ReadWriteLock.step, hr] at ha
    | some r =>
      simp only [ReadWriteLock.step, hr] at ha
      split at ha
      · next hphase =>
          cases ha
          exact .finish id r hr hphase
      · cases ha

/-! ## §3 The invariant -/

/-- What holds of the requests and the two maps. -/
structure Inv (l : ReadWriteLock) : Prop where
  /-- Requests are numbered in the order in which they are made. -/
  lt : ∀ id r, l.requests.get? id = some r → id < l.nextRequest
  /-- A request waits on earlier requests for its key. -/
  waitsOn : ∀ id r, l.requests.get? id = some r → ∀ d ∈ r.waitsOn,
    d < id ∧ ∃ r', l.requests.get? d = some r' ∧ r'.key = r.key
  readers : ∀ key, ∀ id ∈ l.currentReaders key, ∃ r, l.requests.get? id = some r ∧ r.key = key ∧ r.kind = .read
  writer : ∀ key, ∀ id ∈ l.currentWriter key, ∃ r, l.requests.get? id = some r ∧ r.key = key ∧ r.kind = .write
  /-- Who has not let the lock go is in one of the maps, or comes before the writer that is. -/
  current : ∀ id r, l.requests.get? id = some r → r.released = false →
    id ∈ l.currentReaders r.key ∨ ∃ writer ∈ l.currentWriter r.key, id ≤ writer
  /-- Who came before and excludes the request is waited on, or comes before a writer that is. -/
  covered : ∀ id r, l.requests.get? id = some r → ∀ id' r', l.requests.get? id' = some r' →
    id' < id → r'.conflicts r → r'.released = false → id' ∈ r.waitsOn ∨ ∃ w ∈ r.waitsOn, id' < w ∧
        ∃ r'', l.requests.get? w = some r'' ∧ r''.kind = .write
  /-- Before a request that holds the lock, and before a writer that held it, all that it excludes have
  let it go. -/
  passed : ∀ id r, l.requests.get? id = some r → r.phase = .holding ∨ (r.kind = .write ∧ r.released = true) →
      ∀ id' r', l.requests.get? id' = some r' → id' < id → r'.conflicts r → r'.released = true

theorem inv_new : new.Inv := by
  refine ⟨?_, ?_, ?_, ?_, ?_, ?_, ?_⟩
  · intro id r h
    cases h
  · intro id r h
    cases h
  · intro key id h
    cases h
  · intro key id h
    cases h
  · intro id r h
    cases h
  · intro id r h
    cases h
  · intro id r h
    cases h

variable {id id' : ℕ} {r r' : LockRequest}

/-- **What a ready request may rely on**: all that it excludes and that came before have let the lock
go. One that it does not wait on comes before a writer that it does wait on, and that writer waited. -/
theorem Inv.passed_of_ready (hi : l.Inv)
    (hwaits : ∀ d ∈ r.waitsOn, ∃ r', l.requests.get? d = some r' ∧ r'.key = r.key)
    (hcovered : ∀ id' r', l.requests.get? id' = some r' → id' < id → r'.conflicts r →
      r'.released = false → id' ∈ r.waitsOn ∨ ∃ w ∈ r.waitsOn, id' < w ∧
        ∃ r'', l.requests.get? w = some r'' ∧ r''.kind = .write) (hready : l.Ready r.waitsOn)
    (hr' : l.requests.get? id' = some r') (hlt : id' < id) (hconflicts : r'.conflicts r) :
    r'.released = true := by
  by_contra hnot
  rw [Bool.not_eq_true] at hnot
  rcases hcovered id' r' hr' hlt hconflicts hnot with hmem | ⟨w, hw, hlt', r'', hr'', hkind⟩
  · have hreleased := hready id' hmem
    simp [ReadWriteLock.released, hr', hnot] at hreleased
  have hreleased := hready w hw
  obtain ⟨r₀, hr₀, hkey⟩ := hwaits w hw
  rw [hr''] at hr₀
  cases hr₀
  simp only [ReadWriteLock.released, hr''] at hreleased
  have hpassed := hi.passed w r'' hr'' (Or.inr ⟨hkind, hreleased⟩) id' r' hr' hlt'
    ⟨hconflicts.1.trans hkey.symm, Or.inr hkind⟩
  rw [hnot] at hpassed
  cases hpassed

/-! ### A change of phase -/

variable {phase : LockPhase}

/-- What happens to one request in a change of phase. -/
theorem get?_setPhase (x : ℕ) : (l.setPhase id r phase).requests.get? x =
      if x = id then some { r with phase := phase } else l.requests.get? x :=
  get?_set _ _ _ _

/-- A request only goes on: it keeps what it asked for, and stays released. -/
structure Continues (r r' : LockRequest) : Prop where
  key : r'.key = r.key
  kind : r'.kind = r.kind
  waitsOn : r'.waitsOn = r.waitsOn
  released : r.released = true → r'.released = true

theorem Continues.refl (r : LockRequest) : Continues r r := ⟨rfl, rfl, rfl, id⟩

theorem Continues.conflicts {s s' : LockRequest} (h : Continues r r') (h' : Continues s s') :
    r'.conflicts s' ↔ r.conflicts s := by
  rw [LockRequest.conflicts, LockRequest.conflicts, h.key, h.kind, h'.key, h'.kind]

theorem Moves.continues (h : l.Moves r phase) : Continues r { r with phase := phase } := by
  refine ⟨rfl, rfl, rfl, ?_⟩
  intro hr
  cases h <;> simp_all [LockRequest.released]

/-- **Requests that only go on keep the invariant**, when the maps lose nobody who has not let the lock
go, and when who takes the lock was ready. -/
theorem Inv.of_continues (hi : l.Inv) (hnext : l'.nextRequest = l.nextRequest)
    (hback : ∀ id r', l'.requests.get? id = some r' →
      ∃ r, l.requests.get? id = some r ∧ Continues r r') (hforth : ∀ id r, l.requests.get? id = some r →
      ∃ r', l'.requests.get? id = some r' ∧ Continues r r')
    (hreaders : ∀ key, l'.currentReaders key ⊆ l.currentReaders key)
    (hwriter : ∀ key, l'.currentWriter key ⊆ l.currentWriter key)
    (hcurrent : ∀ id r', l'.requests.get? id = some r' → r'.released = false →
      id ∈ l'.currentReaders r'.key ∨ ∃ writer ∈ l'.currentWriter r'.key, id ≤ writer)
    (hpassed : ∀ id r r', l.requests.get? id = some r → l'.requests.get? id = some r' →
      r'.phase = .holding ∨ (r'.kind = .write ∧ r'.released = true) →
        (r.phase = .holding ∨ (r.kind = .write ∧ r.released = true)) ∨ l.Ready r.waitsOn) : l'.Inv := by
  refine ⟨?_, ?_, ?_, ?_, hcurrent, ?_, ?_⟩
  · intro id r' hr'
    obtain ⟨r, hr, -⟩ := hback id r' hr'
    rw [hnext]
    exact hi.lt id r hr
  · intro id r' hr' d hd
    obtain ⟨r, hr, hcont⟩ := hback id r' hr'
    rw [hcont.waitsOn] at hd
    obtain ⟨hlt, rd, hrd, hkey⟩ := hi.waitsOn id r hr d hd
    obtain ⟨rd', hrd', hcont'⟩ := hforth d rd hrd
    exact ⟨hlt, rd', hrd', by rw [hcont'.key, hkey, hcont.key]⟩
  · intro key id hid
    obtain ⟨r, hr, hkey, hkind⟩ := hi.readers key id (hreaders key hid)
    obtain ⟨r', hr', hcont⟩ := hforth id r hr
    exact ⟨r', hr', hcont.key.trans hkey, hcont.kind.trans hkind⟩
  · intro key id hid
    obtain ⟨r, hr, hkey, hkind⟩ := hi.writer key id (hwriter key hid)
    obtain ⟨r', hr', hcont⟩ := hforth id r hr
    exact ⟨r', hr', hcont.key.trans hkey, hcont.kind.trans hkind⟩
  · intro id r' hr' x s' hs' hlt hconflicts hnot
    obtain ⟨r, hr, hcont⟩ := hback id r' hr'
    obtain ⟨s, hs, hcont'⟩ := hback x s' hs'
    have hnot' : s.released = false := by
      cases hrel : s.released with
      | false => rfl
      | true =>
        rw [hcont'.released hrel] at hnot
        cases hnot
    rw [hcont.waitsOn]
    rcases hi.covered id r hr x s hs hlt ((hcont'.conflicts hcont).mp hconflicts) hnot' with
      hmem | ⟨w, hw, hlt', rw', hrw, hkind⟩
    · exact Or.inl hmem
    · obtain ⟨rw'', hrw', hcont''⟩ := hforth w rw' hrw
      exact Or.inr ⟨w, hw, hlt', rw'', hrw', hcont''.kind.trans hkind⟩
  · intro id r' hr' hphase x s' hs' hlt hconflicts
    obtain ⟨r, hr, hcont⟩ := hback id r' hr'
    obtain ⟨s, hs, hcont'⟩ := hback x s' hs'
    have hconflicts' := (hcont'.conflicts hcont).mp hconflicts
    refine hcont'.released ?_
    rcases hpassed id r r' hr hr' hphase with hold | hready
    · exact hi.passed id r hr hold x s hs hlt hconflicts'
    · exact hi.passed_of_ready (fun d hd => (hi.waitsOn id r hr d hd).2) (hi.covered id r hr)
        hready hs hlt hconflicts'

/-- What the requests are after one of them has changed its phase. -/
theorem setPhase_back (hr : l.requests.get? id = some r) (hcont : Continues r { r with phase := phase })
    (hl' : l'.requests = (l.setPhase id r phase).requests) {x : ℕ} {s' : LockRequest}
    (hs' : l'.requests.get? x = some s') : ∃ s, l.requests.get? x = some s ∧ Continues s s' := by
  rw [hl', get?_setPhase] at hs'
  split at hs'
  · next heq =>
      cases hs'
      exact ⟨r, heq ▸ hr, hcont⟩
  · exact ⟨s', hs', .refl s'⟩

theorem setPhase_forth (hr : l.requests.get? id = some r) (hcont : Continues r { r with phase := phase })
    (hl' : l'.requests = (l.setPhase id r phase).requests) {x : ℕ} {s : LockRequest}
    (hs : l.requests.get? x = some s) : ∃ s', l'.requests.get? x = some s' ∧ Continues s s' := by
  rw [hl', get?_setPhase]
  split
  · next heq =>
      rw [heq, hr] at hs
      cases hs
      exact ⟨_, rfl, hcont⟩
  · exact ⟨s, hs, .refl s⟩

theorem Inv.move (hi : l.Inv) (hr : l.requests.get? id = some r)
    (h : l.Moves r phase) : (l.setPhase id r phase).Inv := by
  have hcont := h.continues
  refine hi.of_continues rfl (fun x s' => setPhase_back hr hcont rfl)
    (fun x s => setPhase_forth hr hcont rfl) (fun key => Finset.Subset.refl _)
    (fun key => Finset.Subset.refl _) ?_ ?_
  · intro x s' hs' hnot
    obtain ⟨s, hs, hcont'⟩ := setPhase_back hr hcont rfl hs'
    rw [hcont'.key]
    refine hi.current x s hs ?_
    cases hrel : s.released with
    | false => rfl
    | true =>
      rw [hcont'.released hrel] at hnot
      cases hnot
  · intro x s s' hs hs' hphase
    rw [get?_setPhase] at hs'
    split at hs'
    · next heq =>
        cases hs'
        rw [heq, hr] at hs
        cases hs
        cases h with
        | acquire _ hready => exact Or.inr hready
        | giveUp _ hready => exact Or.inr hready
        | leave _ hkind => simp [hkind] at hphase
        | delay => simp [LockRequest.released] at hphase
        | release hholding => exact Or.inl (Or.inl hholding)
    · rw [hs] at hs'
      cases hs'
      exact Or.inl hphase

/-! ### Tidying up -/

theorem currentReaders_tidy (key : String) : (l.tidy id r).currentReaders key ⊆ l.currentReaders key ∧
      (l.currentReaders key).erase id ⊆ (l.tidy id r).currentReaders key := by
  cases hkind : r.kind with
  | read =>
    simp only [tidy, hkind]
    split
    · by_cases hkey : key = r.key
      · subst hkey
        simp [currentReaders, Dict.getD, Finset.erase_subset]
      · simp [currentReaders, Dict.getD, hkey, Finset.erase_subset]
    · exact ⟨Finset.Subset.refl _, Finset.erase_subset _ _⟩
  | write =>
    simp only [tidy, hkind]
    split
    · exact ⟨Finset.Subset.refl _, Finset.erase_subset _ _⟩
    · exact ⟨Finset.Subset.refl _, Finset.erase_subset _ _⟩

/-- Only the latest writer takes its own deferred out. -/
theorem currentWriter_tidy {l : ReadWriteLock} {id : ℕ} {r : LockRequest} (key : String) :
    (l.tidy id r).currentWriter key = l.currentWriter key ∨
      r.kind = .write ∧ key = r.key ∧ l.currentWriter key = {id} ∧
        (l.tidy id r).currentWriter key = ∅ := by
  cases hkind : r.kind with
  | read =>
    left
    simp only [tidy, hkind]
    split
    · rfl
    · rfl
  | write =>
    simp only [tidy, hkind]
    split
    · next hcurrent =>
        by_cases hkey : key = r.key
        · subst hkey
          right
          simp [currentWriter, hcurrent, get?_erase]
        · left
          simp [currentWriter, get?_erase, hkey]
    · exact Or.inl rfl

theorem requests_tidy (l : ReadWriteLock) (id : ℕ) (r : LockRequest) :
    (l.tidy id r).requests = l.requests ∧ (l.tidy id r).nextRequest = l.nextRequest := by
  unfold tidy
  split
  · split
    · exact ⟨rfl, rfl⟩
    · exact ⟨rfl, rfl⟩
  split
  · exact ⟨rfl, rfl⟩
  · exact ⟨rfl, rfl⟩

theorem Inv.finish (hi : l.Inv) (hr : l.requests.get? id = some r) (hphase : r.phase = .resolved) :
    ((l.tidy id r).setPhase id r .ended).Inv := by
  have hreleased : r.released = true := by simp [LockRequest.released, hphase]
  have hcont : Continues r { r with phase := .ended } := ⟨rfl, rfl, rfl, fun _ => rfl⟩
  have hrequests : ((l.tidy id r).setPhase id r .ended).requests = (l.setPhase id r .ended).requests := by
    simp only [setPhase, (requests_tidy l id r).1]
  refine hi.of_continues (requests_tidy l id r).2 (fun x s' => setPhase_back hr hcont hrequests)
    (fun x s => setPhase_forth hr hcont hrequests) (fun key => (currentReaders_tidy key).1) ?_ ?_ ?_
  · intro key
    show (l.tidy id r).currentWriter key ⊆ l.currentWriter key
    rcases @currentWriter_tidy l id r key with h | ⟨-, -, -, h⟩
    · rw [h]
    · rw [h]
      exact Finset.empty_subset _
  · intro x s' hs' hnot
    show x ∈ (l.tidy id r).currentReaders s'.key ∨
      ∃ writer ∈ (l.tidy id r).currentWriter s'.key, x ≤ writer
    have hs := hs'
    rw [hrequests, get?_setPhase] at hs
    split at hs
    · cases hs
      cases hnot
    next hne =>
      rcases hi.current x s' hs hnot with hmem | ⟨w, hw, hle⟩
      · exact Or.inl ((currentReaders_tidy s'.key).2 (Finset.mem_erase.mpr ⟨hne, hmem⟩))
      rcases @currentWriter_tidy l id r s'.key with
        h | ⟨hkind, hkey, hcurrent, -⟩
      · exact Or.inr ⟨w, h ▸ hw, hle⟩
      -- the latest writer has let go, and with it all that came before
      rw [hcurrent, Finset.mem_singleton] at hw
      have hpassed := hi.passed id r hr (Or.inr ⟨hkind, hreleased⟩) x s' hs (by omega) ⟨hkey, Or.inr hkind⟩
      rw [hnot] at hpassed
      cases hpassed
  · intro x s s' hs hs' hholds
    rw [hrequests, get?_setPhase] at hs'
    split at hs'
    · next heq =>
        cases hs'
        rw [heq, hr] at hs
        cases hs
        rcases hholds with hholding | ⟨hkind, -⟩
        · cases hholding
        · exact Or.inl (Or.inr ⟨hkind, hreleased⟩)
    · rw [hs] at hs'
      cases hs'
      exact Or.inl hholds

/-! ### A new request -/

/-- **A new request keeps the invariant**, when it waits on earlier requests for its key that cover those
it excludes, and when the maps have it and lose nobody who has not let the lock go. -/
theorem Inv.add (hi : l.Inv) {key : String} {kind : LockKind} {waitsOn : Finset ℕ}
    (hrequests : l'.requests = l.requests.set l.nextRequest (l.request key kind waitsOn))
    (hnext : l'.nextRequest = l.nextRequest + 1)
    (hwaits : ∀ d ∈ waitsOn, ∃ r, l.requests.get? d = some r ∧ r.key = key)
    (hcovered : ∀ id r, l.requests.get? id = some r → r.key = key →
      r.kind = .write ∨ kind = .write → r.released = false →
        id ∈ waitsOn ∨ ∃ w ∈ waitsOn, id < w ∧ ∃ r', l.requests.get? w = some r' ∧ r'.kind = .write)
    (hreaders : ∀ k, ∀ id ∈ l'.currentReaders k,
      ∃ r, l'.requests.get? id = some r ∧ r.key = k ∧ r.kind = .read) (hwriter : ∀ k, ∀ id ∈ l'.currentWriter k,
      ∃ r, l'.requests.get? id = some r ∧ r.key = k ∧ r.kind = .write)
    (hcurrent : ∀ id r, l'.requests.get? id = some r → r.released = false →
      id ∈ l'.currentReaders r.key ∨ ∃ writer ∈ l'.currentWriter r.key, id ≤ writer) : l'.Inv := by
  have hget : ∀ id, l'.requests.get? id =
      if id = l.nextRequest then some (l.request key kind waitsOn) else l.requests.get? id := by
    intro id
    rw [hrequests, get?_set]
  have hold : ∀ id r, l.requests.get? id = some r → l'.requests.get? id = some r := by
    intro id r hr
    rw [hget, if_neg (Nat.ne_of_lt (hi.lt id r hr)), hr]
  -- an earlier request is an old one
  have hearlier : ∀ id r x s, l'.requests.get? id = some r → l'.requests.get? x = some s → x < id →
      l.requests.get? x = some s := by
    intro id r x s hr hs hlt
    rw [hget] at hr hs
    split at hs
    · next heq =>
        split at hr
        · omega
        · have hlt' := hi.lt id r hr
          omega
    · exact hs
  refine ⟨?_, ?_, hreaders, hwriter, hcurrent, ?_, ?_⟩
  · intro id r hr
    rw [hget] at hr
    split at hr
    · omega
    · have hlt := hi.lt id r hr
      omega
  · intro id r hr d hd
    rw [hget] at hr
    split at hr
    · next heq =>
        cases hr
        obtain ⟨r', hr', hkey⟩ := hwaits d hd
        exact ⟨heq ▸ hi.lt d r' hr', r', hold d r' hr', hkey⟩
    · obtain ⟨hlt, r', hr', hkey⟩ := hi.waitsOn id r hr d hd
      exact ⟨hlt, r', hold d r' hr', hkey⟩
  · intro id r hr x s hs hlt hconflicts hnot
    have hs' := hearlier id r x s hr hs hlt
    rw [hget] at hr
    split at hr
    · cases hr
      rcases hcovered x s hs' hconflicts.1 hconflicts.2 hnot with hmem | ⟨w, hw, hlt', r', hr', hk⟩
      · exact Or.inl hmem
      · exact Or.inr ⟨w, hw, hlt', r', hold w r' hr', hk⟩
    · rcases hi.covered id r hr x s hs' hlt hconflicts hnot with hmem | ⟨w, hw, hlt', r', hr', hk⟩
      · exact Or.inl hmem
      · exact Or.inr ⟨w, hw, hlt', r', hold w r' hr', hk⟩
  · intro id r hr hphase x s hs hlt hconflicts
    have hs' := hearlier id r x s hr hs hlt
    rw [hget] at hr
    split at hr
    · cases hr
      have hready : l.Ready waitsOn := by
        by_contra hnot
        simp [request, LockRequest.released, hnot] at hphase
      refine hi.passed_of_ready (r := l.request key kind waitsOn) hwaits ?_ hready hs' hlt hconflicts
      intro x' s' hs'' _ hconflicts' hnot
      exact hcovered x' s' hs'' hconflicts'.1 hconflicts'.2 hnot
    · exact hi.passed id r hr hphase x s hs' hlt hconflicts

theorem Inv.read (hi : l.Inv) (key : String) : (l.read key).Inv := by
  have hreaders : ∀ k, (l.read key).currentReaders k =
      if k = key then insert l.nextRequest (l.currentReaders key) else l.currentReaders k := by
    intro k
    by_cases hk : k = key
    · simp [currentReaders, ReadWriteLock.read, Dict.getD, hk]
    · simp [currentReaders, ReadWriteLock.read, Dict.getD, hk]
  have hold : ∀ id r, l.requests.get? id = some r → (l.read key).requests.get? id = some r := by
    intro id r hr
    show (l.requests.set l.nextRequest _).get? id = some r
    rw [get?_set, if_neg (Nat.ne_of_lt (hi.lt id r hr)), hr]
  refine hi.add rfl rfl ?_ ?_ ?_ ?_ ?_
  · intro d hd
    obtain ⟨r, hr, hkey, -⟩ := hi.writer key d hd
    exact ⟨r, hr, hkey⟩
  · intro id r hr hkey hkind hnot
    have hwrite : r.kind = .write := by
      rcases hkind with hkind | hkind
      · exact hkind
      · cases hkind
    subst hkey
    rcases hi.current id r hr hnot with hmem | ⟨w, hw, hle⟩
    · obtain ⟨r', hr', -, hread⟩ := hi.readers r.key id hmem
      rw [hr] at hr'
      cases hr'
      rw [hwrite] at hread
      cases hread
    · obtain ⟨r', hr', -, hkind'⟩ := hi.writer r.key w hw
      rcases Nat.lt_or_eq_of_le hle with hlt | rfl
      · exact Or.inr ⟨w, hw, hlt, r', hr', hkind'⟩
      · exact Or.inl hw
  · intro k id hid
    rw [hreaders] at hid
    split at hid
    · next heq =>
        rcases Finset.mem_insert.mp hid with rfl | hid
        · exact ⟨l.request key .read (l.currentWriter key), by simp [ReadWriteLock.read], heq.symm, rfl⟩
        · obtain ⟨r, hr, hkey, hkind⟩ := hi.readers key id hid
          exact ⟨r, hold id r hr, hkey.trans heq.symm, hkind⟩
    · obtain ⟨r, hr, hkey, hkind⟩ := hi.readers k id hid
      exact ⟨r, hold id r hr, hkey, hkind⟩
  · intro k id hid
    obtain ⟨r, hr, hkey, hkind⟩ := hi.writer k id hid
    exact ⟨r, hold id r hr, hkey, hkind⟩
  · intro id r hr hnot
    rw [hreaders]
    have hr' : (l.requests.set l.nextRequest (l.request key .read (l.currentWriter key))).get? id = some r := hr
    rcases of_get?_set hr' with ⟨heq, rfl⟩ | ⟨-, hr'⟩
    · left
      simp [request, heq]
    rcases hi.current id r hr' hnot with hmem | hw
    · left
      split
      · next heq => exact Finset.mem_insert_of_mem (heq ▸ hmem)
      · exact hmem
    · exact Or.inr hw

theorem currentReaders_write (key k : String) :
    (l.write key).currentReaders k = if k = key then ∅ else l.currentReaders k := by
  simp only [currentReaders, ReadWriteLock.write, Dict.getD]
  split
  · next hkey =>
      by_cases hk : k = key
      · simp [hk]
      · simp [hk]
  · next hkey =>
      by_cases hk : k = key
      · rw [hk, get?_eq_none_iff.mpr hkey]
        simp
      · simp [hk]

theorem Inv.write (hi : l.Inv) (key : String) : (l.write key).Inv := by
  have hwriter : ∀ k, (l.write key).currentWriter k = if k = key then {l.nextRequest} else l.currentWriter k := by
    intro k
    by_cases hk : k = key
    · simp [currentWriter, ReadWriteLock.write, hk]
    · simp [currentWriter, ReadWriteLock.write, hk]
  have hold : ∀ id r, l.requests.get? id = some r → (l.write key).requests.get? id = some r := by
    intro id r hr
    show (l.requests.set l.nextRequest _).get? id = some r
    rw [get?_set, if_neg (Nat.ne_of_lt (hi.lt id r hr)), hr]
  refine hi.add rfl rfl ?_ ?_ ?_ ?_ ?_
  · intro d hd
    rcases Finset.mem_union.mp hd with hd | hd
    · obtain ⟨r, hr, hkey, -⟩ := hi.readers key d hd
      exact ⟨r, hr, hkey⟩
    · obtain ⟨r, hr, hkey, -⟩ := hi.writer key d hd
      exact ⟨r, hr, hkey⟩
  · intro id r hr hkey _ hnot
    subst hkey
    rcases hi.current id r hr hnot with hmem | ⟨w, hw, hle⟩
    · exact Or.inl (Finset.mem_union_left _ hmem)
    obtain ⟨r', hr', -, hkind⟩ := hi.writer r.key w hw
    rcases Nat.lt_or_eq_of_le hle with hlt | rfl
    · exact Or.inr ⟨w, Finset.mem_union_right _ hw, hlt, r', hr', hkind⟩
    · exact Or.inl (Finset.mem_union_right _ hw)
  · intro k id hid
    rw [currentReaders_write] at hid
    split at hid
    · cases hid
    · obtain ⟨r, hr, hkey, hkind⟩ := hi.readers k id hid
      exact ⟨r, hold id r hr, hkey, hkind⟩
  · intro k id hid
    rw [hwriter] at hid
    split at hid
    · next heq =>
        obtain rfl := Finset.mem_singleton.mp hid
        exact ⟨l.request key .write (l.currentReaders key ∪ l.currentWriter key),
          by simp [ReadWriteLock.write], heq.symm, rfl⟩
    · obtain ⟨r, hr, hkey, hkind⟩ := hi.writer k id hid
      exact ⟨r, hold id r hr, hkey, hkind⟩
  · intro id r hr hnot
    rw [currentReaders_write, hwriter]
    have hr' : (l.requests.set l.nextRequest
        (l.request key .write (l.currentReaders key ∪ l.currentWriter key))).get? id = some r := hr
    rcases of_get?_set hr' with ⟨heq, rfl⟩ | ⟨-, hr'⟩
    · right
      exact ⟨l.nextRequest, by simp [request], heq.le⟩
    by_cases hkey : r.key = key
    · -- all that is there comes before the new writer
      right
      rw [if_pos hkey]
      exact ⟨l.nextRequest, Finset.mem_singleton_self _, (hi.lt id r hr').le⟩
    · rw [if_neg hkey, if_neg hkey]
      exact hi.current id r hr' hnot

/-- **The invariant holds in every state reached.** -/
theorem Reached.inv (h : Reached l) : l.Inv := by
  refine Reachable.invariant ?_ ?_ h
  · rintro l rfl
    exact inv_new
  rintro l l' - hi hstep
  cases hstep.effect with
  | read key => exact hi.read key
  | write key => exact hi.write key
  | move id r phase hr hmoves => exact hi.move hr hmoves
  | finish id r hr hphase => exact hi.finish hr hphase

/-! ## §4 Exclusion and order -/

/-- Before a request that holds the lock, all that it excludes have let it go. -/
theorem Inv.order (hi : l.Inv) (hr : l.requests.get? id = some r) (hr' : l.requests.get? id' = some r')
    (hholding : r.phase = .holding) (hlt : id' < id) (hconflicts : r'.conflicts r) : r'.released = true :=
  hi.passed id r hr (Or.inl hholding) id' r' hr' hlt hconflicts

theorem LockRequest.conflicts_symm (h : r.conflicts r') : r'.conflicts r :=
  ⟨h.1.symm, h.2.symm⟩

/-- Two requests that exclude each other do not hold the lock together. -/
theorem Inv.exclusive (hi : l.Inv) (hr : l.requests.get? id = some r) (hr' : l.requests.get? id' = some r')
    (hne : id ≠ id') (hholding : r.phase = .holding) (hholding' : r'.phase = .holding) : ¬ r.conflicts r' := by
  intro hconflicts
  rcases Nat.lt_or_gt_of_ne hne with hlt | hlt
  · have hreleased := hi.order hr' hr hholding' hlt hconflicts
    simp [LockRequest.released, hholding] at hreleased
  · have hreleased := hi.order hr hr' hholding hlt (LockRequest.conflicts_symm hconflicts)
    simp [LockRequest.released, hholding'] at hreleased

/-! ## §5 Nobody stays blocked -/

/-- What a run without end is asked to do: a holder lets the lock go in the end, and a request all of
whose deferreds have been called back is resumed, which is what their callbacks do. -/
structure Fair (run : ℕ → ReadWriteLock) : Prop where
  release : ∀ n id r, (run n).requests.get? id = some r → r.phase = .holding →
    ∃ m, n ≤ m ∧ (run m).released id = true
  resume : ∀ n id r, (run n).requests.get? id = some r →
    r.phase = .waiting ∨ r.phase = .cancelling → (run n).Ready r.waitsOn →
      ∃ m r', n ≤ m ∧ (run m).requests.get? id = some r' ∧
        r'.phase ≠ .waiting ∧ r'.phase ≠ .cancelling

/-- A request goes on from step to step. -/
theorem Effect.forth (hi : l.Inv) (h : l.Effect l') (hr : l.requests.get? id = some r) :
    ∃ r', l'.requests.get? id = some r' ∧ Continues r r' := by
  have hne : id ≠ l.nextRequest := Nat.ne_of_lt (hi.lt id r hr)
  cases h with
  | read key =>
    refine ⟨r, ?_, .refl r⟩
    simp only [ReadWriteLock.read, get?_set, if_neg hne, hr]
  | write key =>
    refine ⟨r, ?_, .refl r⟩
    simp only [ReadWriteLock.write, get?_set, if_neg hne, hr]
  | move x s phase hs hmoves => exact setPhase_forth hs hmoves.continues rfl hr
  | finish x s hs hphase =>
    have hcont : Continues s { s with phase := .ended } := ⟨rfl, rfl, rfl, fun _ => rfl⟩
    refine setPhase_forth hs hcont ?_ hr
    simp only [setPhase, (requests_tidy l x s).1]

/-- A deferred that has been called back stays so. -/
theorem released_step (id : ℕ) (l l' : ReadWriteLock) (h : Reachable (· = new) Step l)
    (hreleased : l.released id = true) (hstep : l.Step l') : l'.released id = true := by
  cases hr : l.requests.get? id with
  | none => simp [ReadWriteLock.released, hr] at hreleased
  | some r =>
    obtain ⟨r', hr', hcont⟩ := hstep.effect.forth (Reached.inv h) hr
    simp only [ReadWriteLock.released, hr] at hreleased
    simp only [ReadWriteLock.released, hr', hcont.released hreleased]

/-- **Every request lets the lock go in the end**: those that it waits on came before it, and do. -/
theorem released_eventually {run : ℕ → ReadWriteLock} (hrun : EndlessRun (· = new) Step run)
    (hfair : Fair run) (id : ℕ) : ∀ n r, (run n).requests.get? id = some r →
      ∃ m, n ≤ m ∧ (run m).released id = true := by
  induction id using Nat.strong_induction_on with
  | h id ih =>
    intro n r hr
    have hi := Reached.inv (hrun.reachable n)
    -- all that is waited on is called back in the end
    have hwaits : ∃ m, n ≤ m ∧ ∀ d ∈ r.waitsOn.toList, (run m).released d = true := by
      refine hrun.eventually_all (P := fun d l => l.released d = true) released_step ?_
      intro d hd
      obtain ⟨hlt, rd, hrd, -⟩ := hi.waitsOn id r hr d (Finset.mem_toList.mp hd)
      exact ih d hlt n rd hrd
    obtain ⟨m, hnm, hready⟩ := hwaits
    obtain ⟨s, hs, hcont⟩ := hrun.stable (P := fun l => ∃ s, l.requests.get? id = some s ∧ Continues r s) (by
        rintro l l' hl ⟨s, hs, hcont⟩ hstep
        obtain ⟨s', hs', hcont'⟩ := hstep.effect.forth (Reached.inv hl) hs
        exact ⟨s', hs', hcont'.key.trans hcont.key, hcont'.kind.trans hcont.kind,
          hcont'.waitsOn.trans hcont.waitsOn, fun h => hcont'.released (hcont.released h)⟩)
      hnm ⟨r, hr, .refl r⟩
    -- then the request is resumed, if it still waits, and lets go, if it holds the lock
    have hmoved : ∃ k s', m ≤ k ∧ (run k).requests.get? id = some s' ∧
        s'.phase ≠ .waiting ∧ s'.phase ≠ .cancelling := by
      by_cases hphase : s.phase = .waiting ∨ s.phase = .cancelling
      · refine hfair.resume m id s hs hphase ?_
        intro d hd
        rw [hcont.waitsOn] at hd
        exact hready d (Finset.mem_toList.mpr hd)
      · rw [not_or] at hphase
        exact ⟨m, s, le_refl m, hs, hphase⟩
    obtain ⟨k, s', hmk, hs', hwaiting, hcancelling⟩ := hmoved
    have hnk : n ≤ k := le_trans hnm hmk
    cases hphase : s'.phase with
    | waiting => exact absurd hphase hwaiting
    | cancelling => exact absurd hphase hcancelling
    | holding =>
      obtain ⟨j, hkj, hreleased⟩ := hfair.release k id s' hs' hphase
      exact ⟨j, le_trans hnk hkj, hreleased⟩
    | resolved => exact ⟨k, hnk, by simp [ReadWriteLock.released, hs', LockRequest.released, hphase]⟩
    | ended => exact ⟨k, hnk, by simp [ReadWriteLock.released, hs', LockRequest.released, hphase]⟩

/-- A request waits. -/
def Waiting (l : ReadWriteLock) (id : ℕ) : Prop :=
  ∃ r, l.requests.get? id = some r ∧ r.phase = .waiting

/-- A request holds the lock. -/
def Holding (l : ReadWriteLock) (id : ℕ) : Prop :=
  ∃ r, l.requests.get? id = some r ∧ r.phase = .holding

/-- A request that waits goes on to hold the lock, or is cancelled. -/
theorem Effect.of_waiting (hi : l.Inv) (h : l.Effect l') (hw : l.Waiting id) (hnot : ¬ l'.Waiting id) :
    l'.Holding id ∨ l.step (.cancel id) = some l' := by
  obtain ⟨r, hr, hphase⟩ := hw
  have hne : id ≠ l.nextRequest := Nat.ne_of_lt (hi.lt id r hr)
  cases h with
  | read key =>
    refine absurd ⟨r, ?_, hphase⟩ hnot
    simp only [ReadWriteLock.read, get?_set, if_neg hne, hr]
  | write key =>
    refine absurd ⟨r, ?_, hphase⟩ hnot
    simp only [ReadWriteLock.write, get?_set, if_neg hne, hr]
  | move x s phase hs hmoves =>
    by_cases hx : id = x
    · subst hx
      rw [hr] at hs
      cases hs
      cases hmoves with
      | acquire => exact Or.inl ⟨_, by rw [get?_setPhase, if_pos rfl], rfl⟩
      | giveUp hcancelling =>
        rw [hphase] at hcancelling
        cases hcancelling
      | leave _ hkind => exact Or.inr (by simp only [ReadWriteLock.step, hr, hphase, hkind])
      | delay _ hkind => exact Or.inr (by simp only [ReadWriteLock.step, hr, hphase, hkind])
      | release hholding =>
        rw [hphase] at hholding
        cases hholding
    · exact absurd ⟨r, by rw [get?_setPhase, if_neg hx, hr], hphase⟩ hnot
  | finish x s hs hresolved =>
    have hx : id ≠ x := by
      rintro rfl
      rw [hr] at hs
      cases hs
      rw [hphase] at hresolved
      cases hresolved
    refine absurd ⟨r, ?_, hphase⟩ hnot
    rw [get?_setPhase, if_neg hx, (requests_tidy l x s).1, hr]

/-- **No request stays blocked**: it holds the lock in the end, or is cancelled. -/
theorem granted_eventually {run : ℕ → ReadWriteLock} (hrun : EndlessRun (· = new) Step run) (hfair : Fair run)
    {n : ℕ} (hw : (run n).Waiting id) :
    ∃ m, n ≤ m ∧ ((run m).Holding id ∨ (run m).step (.cancel id) = some (run (m + 1))) := by
  have ⟨r, hr, _⟩ := hw
  obtain ⟨k, hnk, hreleased⟩ := released_eventually hrun hfair id n r hr
  have hnot : ¬ (run k).Waiting id := by
    rintro ⟨s, hs, hphase⟩
    simp [ReadWriteLock.released, hs, LockRequest.released, hphase] at hreleased
  obtain ⟨m, hnm, hwaiting, hleft, hstep⟩ :=
    hrun.leaves (P := fun l => l.Waiting id) hnk hw hnot
  rcases hstep.effect.of_waiting (Reached.inv (hrun.reachable m)) hwaiting hleft with hheld | hcancel
  · exact ⟨m + 1, Nat.le_succ_of_le hnm, Or.inl hheld⟩
  · exact ⟨m, hnm, Or.inr hcancel⟩

/-- **The lock is sound.** In every state that requests, releases and cancellations lead to, two requests
that hold a key do not exclude each other, and a request that holds it has been let through by all the
earlier ones that it excludes; and in every run in which holders let go in the end, a request that waits
holds the lock in the end or is cancelled, and every request, cancelled or not, ends. -/
theorem readWriteLock_sound :
    (∀ l, Reached l → ∀ id id' r r', l.requests.get? id = some r → l.requests.get? id' = some r' →
      id ≠ id' → r.phase = .holding → r'.phase = .holding → ¬ r.conflicts r') ∧
    (∀ l, Reached l → ∀ id id' r r', l.requests.get? id = some r → l.requests.get? id' = some r' →
      r.phase = .holding → id' < id → r'.conflicts r → r'.released = true) ∧
    ∀ run : ℕ → ReadWriteLock, EndlessRun (· = new) Step run → Fair run → ∀ n id, ((run n).Waiting id →
        ∃ m, n ≤ m ∧ ((run m).Holding id ∨ (run m).step (.cancel id) = some (run (m + 1)))) ∧
      ∀ r, (run n).requests.get? id = some r → ∃ m, n ≤ m ∧ (run m).released id = true := by
  refine ⟨?_, ?_, ?_⟩
  · intro l hl id id' r r' hr hr' hne hholding hholding'
    exact (Reached.inv hl).exclusive hr hr' hne hholding hholding'
  · intro l hl id id' r r' hr hr' hholding hlt hconflicts
    exact (Reached.inv hl).order hr hr' hholding hlt hconflicts
  · intro run hrun hfair n id
    exact ⟨granted_eventually hrun hfair, released_eventually hrun hfair id n⟩

/-- A list of actions, one after the other, and then nothing more. -/
def runOf (actions : List Action) (n : ℕ) : ReadWriteLock :=
  (actions.take n).foldl (fun l a => (l.step a).getD l) new

theorem endlessRun_runOf (actions : List Action) : EndlessRun (· = new) Step (runOf actions) := by
  refine ⟨rfl, ?_⟩
  intro n
  cases ha : actions[n]? with
  | none =>
    right
    have hlen : actions.length ≤ n := List.getElem?_eq_none_iff.mp ha
    rw [runOf, runOf, List.take_of_length_le hlen, List.take_of_length_le (by omega)]
  | some a =>
    have htake : actions.take (n + 1) = actions.take n ++ [a] := by
      rw [List.take_add_one, ha, Option.toList_some]
    have hrun : runOf actions (n + 1) = ((runOf actions n).step a).getD (runOf actions n) := by
      rw [runOf, htake, List.foldl_append]
      rfl
    cases hstep : (runOf actions n).step a with
    | none => exact Or.inr (by rw [hrun, hstep, Option.getD_none])
    | some l => exact Or.inl ⟨a, by rw [hrun, hstep, Option.getD_some]⟩

/-- A run at whose end all requests have let the lock go is fair. -/
theorem fair_runOf {actions : List Action}
    (hend : ∀ item ∈ (runOf actions actions.length).requests.items, item.2.released = true) :
    Fair (runOf actions) := by
  have hrun := endlessRun_runOf actions
  have hlater : ∀ n id r, (runOf actions n).requests.get? id = some r →
      ∃ m s, n ≤ m ∧ (runOf actions m).requests.get? id = some s ∧ s.released = true := by
    intro n id r hr
    have hmax : runOf actions (max n actions.length) = runOf actions actions.length := by
      rw [runOf, runOf, List.take_of_length_le (le_max_right _ _), List.take_length]
    obtain ⟨s, hs⟩ := hrun.stable (P := fun l => ∃ s, l.requests.get? id = some s) (by
        rintro l l' hl ⟨s, hs⟩ hstep
        obtain ⟨s', hs', -⟩ := hstep.effect.forth (Reached.inv hl) hs
        exact ⟨s', hs'⟩)
      (le_max_left n actions.length) ⟨r, hr⟩
    refine ⟨_, s, le_max_left _ _, hs, ?_⟩
    rw [hmax] at hs
    exact hend (id, s) (get?_eq_some_iff.mp hs)
  constructor
  · intro n id r hr _
    obtain ⟨m, s, hnm, hs, hreleased⟩ := hlater n id r hr
    exact ⟨m, hnm, by simp only [ReadWriteLock.released, hs, hreleased]⟩
  intro n id r hr _ _
  obtain ⟨m, s, hnm, hs, hreleased⟩ := hlater n id r hr
  refine ⟨m, s, hnm, hs, ?_, ?_⟩
  · intro hphase
    simp [LockRequest.released, hphase] at hreleased
  · intro hphase
    simp [LockRequest.released, hphase] at hreleased

/-- A reader waits for a writer, and a writer behind it is cancelled. -/
theorem readWriteLock_sound_example : ∃ run : ℕ → ReadWriteLock, (run 3).Waiting 1 ∧
      ∃ m, 3 ≤ m ∧ ((run m).Holding 1 ∨ (run m).step (.cancel 1) = some (run (m + 1))) := by
  let actions : List Action := [.write "media", .read "media", .write "media", .cancel 2, .release 0,
    .finish 0, .resume 1, .release 1, .resume 2, .finish 1, .finish 2]
  have hwaiting : (runOf actions 3).Waiting 1 := by
    have hget : ((runOf actions 3).requests.get? 1).map LockRequest.phase = some .waiting := by
      decide +kernel
    obtain ⟨r, hr, hphase⟩ := Option.map_eq_some_iff.mp hget
    exact ⟨r, hr, hphase⟩
  have hfair : Fair (runOf actions) := fair_runOf (by decide +kernel)
  exact ⟨runOf actions, hwaiting,
    (readWriteLock_sound.2.2 (runOf actions) (endlessRun_runOf actions) hfair 3 1).1 hwaiting⟩

end ReadWriteLock

end Setka.Util
