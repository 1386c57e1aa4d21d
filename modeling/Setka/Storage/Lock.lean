/-
# Setka.Storage.Lock — the exclusive lock between workers.

One name and key. Who has the lock is written in a row of `worker_locks`; each instance also has a map of
the `Lock` objects that it believes in and a set of acquisitions that are under way. A step below is one
statement of the database, or the code of a call between two awaits, and statements and code of different
calls come in any order. Tokens are random and taken to be distinct: an acquisition is named by the token
that it will draw, and so is the `Lock` that comes of it. Read-write locks are left out.
-/
import Setka.Lib.Dict
import Setka.Lib.Transition
import Mathlib.Data.Finset.Insert
import Mathlib.Data.Finset.Erase
import Mathlib.Data.Finset.Lattice.Basic

namespace Setka.Storage.Lock

open Setka.Lib Dict

/-! ## §1 Instances, their calls and the row -/

/-- `_LOCK_TIMEOUT_MS`. -/
def lockTimeoutMs : ℤ := 2 * 60 * 1000

/-- The row of `worker_locks` for the name and key. -/
structure LockRow where
  instanceName : String
  token : ℕ
  lastRenewedTs : ℤ

/-- Where `_try_acquire_lock` is. `checking`: it awaits the `SELECT` of `is_still_valid` on the lock that it
found. `checked`: that has read a time, or no row. `inserting`: it awaits its `INSERT`. `inserted`: that
has run. -/
inductive AcquirePhase
  | checking (lock : ℕ)
  | checked (lock : ℕ) (lastRenewedTs : Option ℤ)
  | inserting (now : ℤ)
  | inserted (didLock : Bool)

/-- The lock that an acquisition has found. -/
def AcquirePhase.lock? : AcquirePhase → Option ℕ
  | .checking lock => some lock
  | .checked lock _ => some lock
  | .inserting _ => none
  | .inserted _ => none

structure AcquireCall where
  instanceName : String
  phase : AcquirePhase

/-- A `Lock` that `try_acquire_lock` has returned. From the first call of `release` on it is not renewed. -/
structure LockObject where
  instanceName : String
  releaseBegun : Bool
  dropped : Bool

/-- Where `release` is: before its `DELETE`, or after it. -/
inductive ReleasePhase
  | deleting
  | deleted

structure ReleaseCall where
  lock : ℕ
  phase : ReleasePhase

/-- The clock, the row, and what the instances have in memory: `acquiringLocks` and `liveLockTokens` for
each instance, the calls that run, the locks that exist and the renewals on their way to the database. -/
structure LockWorld where
  now : ℤ
  row : Option LockRow
  acquiringLocks : Finset String
  liveLockTokens : Dict String ℕ
  acquires : Dict ℕ AcquireCall
  locks : Dict ℕ LockObject
  releases : Dict ℕ ReleaseCall
  renewals : List (ℕ × ℤ)
  nextToken : ℕ
  nextRelease : ℕ

namespace LockWorld

/-! ## §2 The steps -/

/-- `try_acquire_lock`, as far as its first await. -/
def tryAcquireLock (w : LockWorld) (instanceName : String) : LockWorld :=
  if instanceName ∈ w.acquiringLocks then w
  else
    let phase := match w.liveLockTokens.get? instanceName with
      | some lock => .checking lock
      | none => .inserting w.now
    { w with
      acquiringLocks := insert instanceName w.acquiringLocks
      acquires := w.acquires.set w.nextToken ⟨instanceName, phase⟩
      nextToken := w.nextToken + 1 }

/-- The acquisition goes on in another phase. -/
def setAcquire (w : LockWorld) (token : ℕ) (instanceName : String) (phase : AcquirePhase) : LockWorld :=
  { w with acquires := w.acquires.set token ⟨instanceName, phase⟩ }

/-- `try_acquire_lock` returns: the `finally` takes it off the set. -/
def returnAcquire (w : LockWorld) (token : ℕ) (instanceName : String) : LockWorld :=
  { w with
    acquiringLocks := w.acquiringLocks.erase instanceName
    acquires := w.acquires.erase token }

/-- What the `SELECT` of `is_still_valid` reads. -/
def lastRenewedTs (w : LockWorld) (token : ℕ) : Option ℤ :=
  match w.row with
  | some row => if row.token = token then some row.lastRenewedTs else none
  | none => none

/-- The answer of `is_still_valid`, after its `SELECT`. -/
def isStillValid (w : LockWorld) (lastRenewedTs : Option ℤ) : Bool :=
  match lastRenewedTs with
  | some ts => w.now - lockTimeoutMs < ts
  | none => false

/-- `INSERT … ON CONFLICT … DO UPDATE … WHERE`: the row, and whether it was written. -/
def insertRow (row : Option LockRow) (instanceName : String) (token : ℕ) (now : ℤ) : Option LockRow × Bool :=
  match row with
  | none => (some ⟨instanceName, token, now⟩, true)
  | some row =>
    if row.lastRenewedTs < now - lockTimeoutMs ∨ row.instanceName = instanceName then
      (some ⟨instanceName, token, now⟩, true)
    else (some row, false)

/-- The code after the `INSERT`. -/
def afterInsert (w : LockWorld) (token : ℕ) (instanceName : String) (didLock : Bool) : LockWorld :=
  if didLock then
    { w.returnAcquire token instanceName with
      locks := w.locks.set token ⟨instanceName, false, false⟩
      liveLockTokens := w.liveLockTokens.set instanceName token }
  else w.returnAcquire token instanceName

/-- `release`, as far as its await. -/
def release (w : LockWorld) (token : ℕ) (lock : LockObject) : LockWorld :=
  if lock.dropped then w
  else
    { w with
      locks := w.locks.set token { lock with releaseBegun := true }
      releases := w.releases.set w.nextRelease ⟨token, .deleting⟩
      nextRelease := w.nextRelease + 1 }

/-- The `DELETE` of `release`. -/
def deleteRow (row : Option LockRow) (token : ℕ) : Option LockRow :=
  row.filter fun row => row.token ≠ token

/-- The code after the `DELETE`: `pop` takes whatever lock the instance has under the name and key. -/
def afterDelete (w : LockWorld) (id token : ℕ) : LockWorld :=
  match w.locks.get? token with
  | some lock =>
    { w with
      liveLockTokens := w.liveLockTokens.erase lock.instanceName
      locks := w.locks.set token { lock with dropped := true }
      releases := w.releases.erase id }
  | none => w

/-- The `UPDATE` of `_renew`. -/
def renewRow (row : Option LockRow) (token : ℕ) (ts : ℤ) : Option LockRow :=
  row.map fun row => if row.token = token then { row with lastRenewedTs := ts } else row

/-- Whether a call still refers to the lock. -/
def InUse (w : LockWorld) (token : ℕ) : Prop :=
  (∃ call ∈ w.releases.values, call.lock = token) ∨
    ∃ call ∈ w.acquires.values, call.phase.lock? = some token

instance (w : LockWorld) (token : ℕ) : Decidable (w.InUse token) :=
  inferInstanceAs (Decidable (_ ∨ _))

/-- The weak map forgets a lock that is no more. -/
def forget (w : LockWorld) (token : ℕ) (lock : LockObject) : LockWorld :=
  { w with
    locks := w.locks.erase token
    liveLockTokens :=
      if w.liveLockTokens.get? lock.instanceName = some token then
        w.liveLockTokens.erase lock.instanceName
      else w.liveLockTokens }

/-- One step. Statements of the database are `select`, `insert`, `delete` and `update`. -/
inductive Action
  | tick (ms : ℕ)
  | tryAcquireLock (instanceName : String)
  | select (token : ℕ)
  | resumeSelect (token : ℕ)
  | insert (token : ℕ)
  | resumeInsert (token : ℕ)
  | release (token : ℕ)
  | delete (id : ℕ)
  | resumeDelete (id : ℕ)
  | renew (token : ℕ)
  | update (index : ℕ)
  | collect (token : ℕ)

/-- One step. There is no result where no call is at the place that the step is about. -/
def step (w : LockWorld) : Action → Option LockWorld
  | .tick ms => some { w with now := w.now + ms }
  | .tryAcquireLock instanceName => some (w.tryAcquireLock instanceName)
  | .select token =>
    match w.acquires.get? token with
    | some ⟨instanceName, .checking lock⟩ =>
      some (w.setAcquire token instanceName (.checked lock (w.lastRenewedTs lock)))
    | _ => none
  | .resumeSelect token =>
    match w.acquires.get? token with
    | some ⟨instanceName, .checked _ lastRenewedTs⟩ =>
      if w.isStillValid lastRenewedTs then some (w.returnAcquire token instanceName)
      else some (w.setAcquire token instanceName (.inserting w.now))
    | _ => none
  | .insert token =>
    match w.acquires.get? token with
    | some ⟨instanceName, .inserting now⟩ =>
      let (row, didLock) := insertRow w.row instanceName token now
      some { w.setAcquire token instanceName (.inserted didLock) with row := row }
    | _ => none
  | .resumeInsert token =>
    match w.acquires.get? token with
    | some ⟨instanceName, .inserted didLock⟩ => some (w.afterInsert token instanceName didLock)
    | _ => none
  | .release token =>
    match w.locks.get? token with
    | some lock => some (w.release token lock)
    | none => none
  | .delete id =>
    match w.releases.get? id with
    | some ⟨token, .deleting⟩ =>
      some { w with
        row := deleteRow w.row token
        releases := w.releases.set id ⟨token, .deleted⟩ }
    | _ => none
  | .resumeDelete id =>
    match w.releases.get? id with
    | some ⟨token, .deleted⟩ => some (w.afterDelete id token)
    | _ => none
  | .renew token =>
    match w.locks.get? token with
    | some ⟨_, false, _⟩ => some { w with renewals := w.renewals ++ [(token, w.now)] }
    | _ => none
  | .update index =>
    match w.renewals[index]? with
    | some (token, ts) =>
      some { w with row := renewRow w.row token ts, renewals := w.renewals.eraseIdx index }
    | none => none
  | .collect token =>
    match w.locks.get? token with
    | some lock => if w.InUse token then none else some (w.forget token lock)
    | none => none

/-- Nothing is in memory; the row may be anything that was left there. -/
def Init (w : LockWorld) : Prop :=
  w.acquiringLocks = ∅ ∧ w.liveLockTokens = ∅ ∧ w.acquires = ∅ ∧ w.locks = ∅ ∧ w.releases = ∅ ∧
    w.renewals = []

/-! ## §3 Exclusion, and what is asked of the steps -/

/-- `try_acquire_lock` has returned the lock, and its release has not begun. -/
def Held (w : LockWorld) (token : ℕ) : Prop :=
  ∃ lock, w.locks.get? token = some lock ∧ lock.releaseBegun = false

/-- At most one lock is held. -/
def Exclusive (w : LockWorld) : Prop := ∀ a b, w.Held a → w.Held b → a = b

/-- The instance has the lock: it holds it, or has written the row and is about to return it. -/
def Owned (w : LockWorld) (token : ℕ) (instanceName : String) : Prop :=
  (∃ lock, w.locks.get? token = some lock ∧ lock.releaseBegun = false ∧
      lock.instanceName = instanceName) ∨
    w.acquires.get? token = some ⟨instanceName, .inserted true⟩

/-- Holders renew in time: no `INSERT` finds the row of one that has timed out. -/
def InTime (w : LockWorld) : Action → Prop
  | .insert token => ∀ instanceName now row owner,
      w.acquires.get? token = some ⟨instanceName, .inserting now⟩ → w.row = some row →
      w.Owned row.token owner → now - lockTimeoutMs ≤ row.lastRenewedTs
  | _ => True

/-- What `is_still_valid` has read of a lock that is held has not timed out when it is looked at. -/
def Prompt (w : LockWorld) : Action → Prop
  | .resumeSelect token => ∀ instanceName lock ts,
      w.acquires.get? token = some ⟨instanceName, .checked lock (some ts)⟩ → w.Held lock →
      w.now - lockTimeoutMs < ts
  | _ => True

/-- What a release pops is its own lock, or nothing. -/
def PopsOwn (w : LockWorld) : Action → Prop
  | .resumeDelete id => ∀ token lock other,
      w.releases.get? id = some ⟨token, .deleted⟩ → w.locks.get? token = some lock →
      w.liveLockTokens.get? lock.instanceName = some other → other = token
  | _ => True

/-- The worlds that runs reach in which each step is as `P` asks. -/
def Reached (P : LockWorld → Action → Prop) : LockWorld → Prop :=
  Reachable Init fun w w' => ∃ a, P w a ∧ w.step a = some w'

/-! ## §4 The invariant -/

/-- Each instance has one acquisition under way, and only what has returned is a lock. -/
structure Calls (w : LockWorld) : Prop where
  fresh : ∀ t, w.nextToken ≤ t → w.locks.get? t = none ∧ w.acquires.get? t = none
  apart : ∀ t call, w.acquires.get? t = some call → w.locks.get? t = none
  registered : ∀ t call, w.acquires.get? t = some call → call.instanceName ∈ w.acquiringLocks
  one : ∀ t t' call call', w.acquires.get? t = some call → w.acquires.get? t' = some call' →
    call.instanceName = call'.instanceName → t = t'

/-- The acquisition of that token has returned. -/
def Returned (w : LockWorld) (token : ℕ) : Prop :=
  token < w.nextToken ∧ w.acquires.get? token = none

/-- Maps and calls refer to acquisitions that have returned. -/
structure Refs (w : LockWorld) : Prop where
  live : ∀ i t, w.liveLockTokens.get? i = some t → w.Returned t
  found : ∀ t call lock, w.acquires.get? t = some call → call.phase.lock? = some lock → w.Returned lock
  released : ∀ id call, w.releases.get? id = some call → w.Returned call.lock

/-- Who has the lock has the row and is in the map of its instance; who may write the row has looked there
and found nobody. -/
structure Inv (w : LockWorld) : Prop extends Calls w where
  refs : Refs w
  row : ∀ t i, w.Owned t i → ∃ row, w.row = some row ∧ row.token = t ∧ row.instanceName = i
  live : ∀ t lock, w.locks.get? t = some lock → lock.releaseBegun = false →
    w.liveLockTokens.get? lock.instanceName = some t
  found : ∀ t call lock, w.acquires.get? t = some call → call.phase.lock? = some lock →
    ∀ other, w.liveLockTokens.get? call.instanceName = some other → other = lock
  gone : ∀ t i lock, w.acquires.get? t = some ⟨i, .checked lock none⟩ → ¬ w.Held lock
  inserting : ∀ t i now, w.acquires.get? t = some ⟨i, .inserting now⟩ → ∀ t', ¬ w.Owned t' i
  releasing : ∀ id call, w.releases.get? id = some call → ¬ w.Held call.lock

variable {w : LockWorld} {token : ℕ}

theorem Held.owned (h : w.Held token) : ∃ i, w.Owned token i := by
  obtain ⟨lock, hlock, hbegun⟩ := h
  exact ⟨lock.instanceName, Or.inl ⟨lock, hlock, hbegun, rfl⟩⟩

variable {t : ℕ} {i : String}

/-- Whoever has the lock has the one row. -/
theorem Inv.owned_unique (h : w.Inv) {t' : ℕ} {i' : String} (ht : w.Owned t i)
    (ht' : w.Owned t' i') : t = t' ∧ i = i' := by
  obtain ⟨row, hrow, rfl, rfl⟩ := h.row t i ht
  obtain ⟨row', hrow', rfl, rfl⟩ := h.row t' i' ht'
  cases hrow.symm.trans hrow'
  exact ⟨rfl, rfl⟩

theorem Inv.exclusive (h : w.Inv) : w.Exclusive := by
  intro a b ha hb
  obtain ⟨i, hi⟩ := ha.owned
  obtain ⟨j, hj⟩ := hb.owned
  exact (h.owned_unique hi hj).1

theorem inv_init (h : w.Init) : w.Inv := by
  obtain ⟨-, hlive, hacquires, hlocks, hreleases, -⟩ := h
  have hnone : ∀ t, w.locks.get? t = none := fun t => by rw [hlocks]; rfl
  have hnone' : ∀ t, w.acquires.get? t = none := fun t => by rw [hacquires]; rfl
  have hnone'' : ∀ t, w.releases.get? t = none := fun t => by rw [hreleases]; rfl
  have hnone''' : ∀ i, w.liveLockTokens.get? i = none := fun i => by rw [hlive]; rfl
  refine { toCalls := ?_, refs := ?_, row := ?_, live := ?_, found := ?_, gone := ?_, inserting := ?_, releasing := ?_ }
  · constructor <;> simp [hnone, hnone']
  · constructor <;> simp [hnone', hnone'', hnone''']
  all_goals simp [hnone, hnone', hnone'', Owned, Held]

/-! ## §5 Steps of an acquisition -/

theorem get?_setAcquire (w : LockWorld) (token : ℕ) (i : String) (phase : AcquirePhase) (t : ℕ) :
    (w.setAcquire token i phase).acquires.get? t = if t = token then some ⟨i, phase⟩ else w.acquires.get? t :=
  get?_set ..

theorem get?_returnAcquire (w : LockWorld) (token : ℕ) (i : String) (t : ℕ) :
    (w.returnAcquire token i).acquires.get? t = if t = token then none else w.acquires.get? t :=
  get?_erase ..

variable {phase : AcquirePhase}

/-- The phase of an acquisition does not matter to what calls there are. -/
theorem Calls.setAcquire (h : w.Calls) (hcall : w.acquires.get? token = some ⟨i, phase⟩)
    (phase' : AcquirePhase) : (w.setAcquire token i phase').Calls := by
  -- every call was there before, with the same instance
  have hback : ∀ t call, (w.setAcquire token i phase').acquires.get? t = some call →
      ∃ call', w.acquires.get? t = some call' ∧ call'.instanceName = call.instanceName := by
    intro t call ht
    rw [get?_setAcquire] at ht
    split at ht
    · next heq =>
        cases ht
        exact ⟨⟨i, phase⟩, heq ▸ hcall, rfl⟩
    · exact ⟨call, ht, rfl⟩
  refine ⟨fun t ht => ⟨(h.fresh t ht).1, ?_⟩, fun t call ht => ?_, fun t call ht => ?_,
    fun t t' call call' ht ht' heq => ?_⟩
  · rw [get?_setAcquire, if_neg]
    · exact (h.fresh t ht).2
    · rintro rfl
      rw [(h.fresh t ht).2] at hcall
      cases hcall
  · obtain ⟨call', hcall', -⟩ := hback t call ht
    exact h.apart t call' hcall'
  · obtain ⟨call', hcall', hi⟩ := hback t call ht
    exact hi ▸ h.registered t call' hcall'
  · obtain ⟨c, hc, hi⟩ := hback t call ht
    obtain ⟨c', hc', hi'⟩ := hback t' call' ht'
    exact h.one t t' c c' hc hc' (hi.trans (heq.trans hi'.symm))

theorem Calls.returnAcquire (h : w.Calls) (hcall : w.acquires.get? token = some ⟨i, phase⟩) :
    (w.returnAcquire token i).Calls := by
  have hback : ∀ t call, (w.returnAcquire token i).acquires.get? t = some call →
      t ≠ token ∧ w.acquires.get? t = some call := by
    intro t call ht
    rw [get?_returnAcquire] at ht
    split at ht
    · cases ht
    · next hne => exact ⟨hne, ht⟩
  refine ⟨fun t ht => ⟨(h.fresh t ht).1, ?_⟩, fun t call ht => h.apart t call (hback t call ht).2,
    fun t call ht => ?_, fun t t' call call' ht ht' => h.one t t' call call' (hback t call ht).2
      (hback t' call' ht').2⟩
  · rw [get?_returnAcquire]
    split
    · rfl
    · exact (h.fresh t ht).2
  · obtain ⟨hne, hold⟩ := hback t call ht
    exact Finset.mem_erase.mpr ⟨fun heq => hne (h.one t token call _ hold hcall heq), h.registered t call hold⟩

variable {phase' : AcquirePhase}

theorem returned_setAcquire (hcall : w.acquires.get? token = some ⟨i, phase⟩)
    (h : w.Returned t) : (w.setAcquire token i phase').Returned t := by
  refine ⟨h.1, ?_⟩
  rw [get?_setAcquire, if_neg]
  · exact h.2
  rintro rfl
  rw [h.2] at hcall
  cases hcall

theorem returned_returnAcquire (h : w.Returned t) : (w.returnAcquire token i).Returned t := by
  refine ⟨h.1, ?_⟩
  rw [get?_returnAcquire]
  split
  · rfl
  · exact h.2

theorem Refs.setAcquire (h : w.Refs) (hcall : w.acquires.get? token = some ⟨i, phase⟩)
    (hfound : ∀ lock, phase'.lock? = some lock → phase.lock? = some lock) :
    (w.setAcquire token i phase').Refs where
  live j t ht := returned_setAcquire hcall (h.live j t ht)
  found t call lock ht hlock := by
    refine returned_setAcquire hcall ?_
    rw [get?_setAcquire] at ht
    split at ht
    · cases ht
      exact h.found token _ lock hcall (hfound lock hlock)
    · exact h.found t call lock ht hlock
  released id call hid := returned_setAcquire hcall (h.released id call hid)

theorem Refs.returnAcquire (h : w.Refs) (token : ℕ) (i : String) : (w.returnAcquire token i).Refs where
  live j t ht := returned_returnAcquire (h.live j t ht)
  found t call lock ht hlock := by
    rw [get?_returnAcquire] at ht
    split at ht
    · cases ht
    · exact returned_returnAcquire (h.found t call lock ht hlock)
  released id call hid := returned_returnAcquire (h.released id call hid)

/-- An acquisition that has not written the row goes on to another phase in which it has not. -/
theorem owned_setAcquire (hcall : w.acquires.get? token = some ⟨i, phase⟩) (hphase : phase ≠ .inserted true)
    (hphase' : phase' ≠ .inserted true) (t : ℕ) (j : String) :
    (w.setAcquire token i phase').Owned t j ↔ w.Owned t j := by
  refine or_congr Iff.rfl ?_
  rw [get?_setAcquire]
  split
  · next heq =>
      subst heq
      rw [hcall]
      simp [hphase, hphase']
  · rfl

/-- An acquisition goes on, and has not written the row before or after. -/
theorem Inv.advance {w : LockWorld} (h : w.Inv) {token : ℕ} {i : String} {phase phase' : AcquirePhase}
    (hcall : w.acquires.get? token = some ⟨i, phase⟩) (hphase : phase ≠ .inserted true)
    (hphase' : phase' ≠ .inserted true)
    (hfound : ∀ lock, phase'.lock? = some lock → phase.lock? = some lock)
    (hgone : ∀ lock, phase' = .checked lock none → ¬ w.Held lock)
    (hinserting : ∀ now, phase' = .inserting now → ∀ t, ¬ w.Owned t i) :
    (w.setAcquire token i phase').Inv where
  toCalls := h.toCalls.setAcquire hcall phase'
  refs := h.refs.setAcquire hcall hfound
  row t j ht := h.row t j ((owned_setAcquire hcall hphase hphase' t j).mp ht)
  live := h.live
  found t call lock ht hlock other hother := by
    rw [get?_setAcquire] at ht
    split at ht
    · cases ht
      exact h.found token ⟨i, phase⟩ lock hcall (hfound lock hlock) other hother
    · exact h.found t call lock ht hlock other hother
  gone t j lock ht := by
    rw [get?_setAcquire] at ht
    split at ht
    · cases ht
      exact hgone lock rfl
    · exact h.gone t j lock ht
  inserting t j now ht t' := by
    rw [owned_setAcquire hcall hphase hphase']
    rw [get?_setAcquire] at ht
    split at ht
    · cases ht
      exact hinserting now rfl t'
    · exact h.inserting t j now ht t'
  releasing := h.releasing

theorem Inv.select (h : w.Inv) {lock : ℕ} (hcall : w.acquires.get? token = some ⟨i, .checking lock⟩) :
    (w.setAcquire token i (.checked lock (w.lastRenewedTs lock))).Inv := by
  refine h.advance hcall nofun nofun (fun lock' hlock' => hlock') ?_ nofun
  -- a lock that is held has the row, and so its time is read
  rintro lock' hlock' hheld
  injection hlock' with heq hnone
  subst heq
  obtain ⟨j, hj⟩ := hheld.owned
  obtain ⟨row, hrow, htoken, -⟩ := h.row lock j hj
  simp [lastRenewedTs, hrow, htoken] at hnone

/-- An acquisition whose instance has no valid lock goes on to write the row: nobody there has it. -/
theorem Inv.resumeSelect (h : w.Inv) {lock : ℕ} {ts : Option ℤ} (hprompt : w.Prompt (.resumeSelect token))
    (hcall : w.acquires.get? token = some ⟨i, .checked lock ts⟩)
    (hvalid : w.isStillValid ts = false) : (w.setAcquire token i (.inserting w.now)).Inv := by
  refine h.advance hcall nofun nofun nofun nofun fun _ _ t ht => ?_
  rcases ht with ⟨obj, hobj, hbegun, rfl⟩ | ht
  · -- the lock in the map is the one that was found, and it was seen not to be valid
    obtain rfl : t = lock := h.found token _ lock hcall rfl t (h.live t obj hobj hbegun)
    have hheld : w.Held t := ⟨obj, hobj, hbegun⟩
    cases ts with
    | none => exact h.gone token _ t hcall hheld
    | some ts =>
      have hlt := hprompt _ t ts hcall hheld
      simp [isStillValid, hlt] at hvalid
  · obtain rfl := h.one token t _ _ hcall ht rfl
    rw [hcall] at ht
    cases ht

variable {now : ℤ}

/-- The row of somebody who has the lock is not written over. -/
theorem Inv.insertRow (h : w.Inv) (hintime : w.InTime (.insert token))
    (hcall : w.acquires.get? token = some ⟨i, .inserting now⟩)
    (hdid : (LockWorld.insertRow w.row i token now).2 = true) (t : ℕ) (j : String) : ¬ w.Owned t j := by
  intro ht
  obtain ⟨row, hrow, rfl, rfl⟩ := h.row t j ht
  rw [hrow] at hdid
  simp only [LockWorld.insertRow] at hdid
  split at hdid
  · next hcond =>
      rcases hcond with hold | hsame
      · have := hintime i now row _ hcall hrow ht
        omega
      · exact h.inserting token i now hcall row.token (hsame ▸ ht)
  · cases hdid

theorem insertRow_of_did {row : Option LockRow} (hdid : (LockWorld.insertRow row i token now).2 = true) :
    (LockWorld.insertRow row i token now).1 = some ⟨i, token, now⟩ := by
  cases row with
  | none => rfl
  | some row =>
    simp only [LockWorld.insertRow] at hdid ⊢
    split at hdid
    · next hcond => rw [if_pos hcond]
    · cases hdid

theorem insertRow_of_not {row : Option LockRow} (hdid : (LockWorld.insertRow row i token now).2 = false) :
    (LockWorld.insertRow row i token now).1 = row := by
  cases row with
  | none => cases hdid
  | some row =>
    simp only [LockWorld.insertRow] at hdid ⊢
    split at hdid
    · cases hdid
    · next hcond => rw [if_neg hcond]

theorem Calls.withRow (h : w.Calls) (row : Option LockRow) : ({ w with row := row } : LockWorld).Calls :=
  ⟨h.fresh, h.apart, h.registered, h.one⟩

theorem Refs.withRow (h : w.Refs) (row : Option LockRow) : ({ w with row := row } : LockWorld).Refs :=
  ⟨h.live, h.found, h.released⟩

/-- When nobody has the lock, an acquisition takes it by writing the row. -/
theorem Inv.take {w : LockWorld} (h : w.Inv) {token : ℕ} {i : String} {now : ℤ}
    (hcall : w.acquires.get? token = some ⟨i, .inserting now⟩) (hnobody : ∀ t j, ¬ w.Owned t j) :
    ({ w.setAcquire token i (.inserted true) with row := some ⟨i, token, now⟩ } : LockWorld).Inv := by
  have howned : ∀ t j, (w.setAcquire token i (.inserted true)).Owned t j → t = token ∧ j = i := by
    rintro t j (hlock | ht)
    · exact absurd (Or.inl hlock) (hnobody t j)
    rw [get?_setAcquire] at ht
    split at ht
    · next heq =>
        cases ht
        exact ⟨heq, rfl⟩
    · exact absurd (Or.inr ht) (hnobody t j)
  -- other acquisitions are where they were
  have hback : ∀ t call, (w.setAcquire token i (.inserted true)).acquires.get? t = some call →
      call.phase = .inserted true ∨ t ≠ token ∧ w.acquires.get? t = some call := by
    intro t call ht
    rw [get?_setAcquire] at ht
    split at ht
    · cases ht
      exact Or.inl rfl
    · next hne => exact Or.inr ⟨hne, ht⟩
  have hrefs : (w.setAcquire token i (.inserted true)).Refs := h.refs.setAcquire hcall nofun
  exact
    { toCalls := (h.toCalls.setAcquire hcall _).withRow _
      refs := hrefs.withRow _
      row := fun t j ht => by
        obtain ⟨rfl, rfl⟩ := howned t j ht
        exact ⟨_, rfl, rfl, rfl⟩
      live := h.live
      found := fun t call lock ht hlock => by
        rcases hback t call ht with hphase | ⟨-, hold⟩
        · rw [hphase] at hlock
          cases hlock
        · exact h.found t call lock hold hlock
      gone := fun t j lock ht => by
        rcases hback t _ ht with hphase | ⟨-, hold⟩
        · cases hphase
        · exact h.gone t j lock hold
      inserting := fun t j now' ht t' ht' => by
        rcases hback t _ ht with hphase | ⟨hne, hold⟩
        · cases hphase
        · exact hne (h.one t token _ _ hold hcall (howned t' j ht').2)
      releasing := h.releasing }

theorem Inv.writeRow (h : w.Inv) (hintime : w.InTime (.insert token))
    (hcall : w.acquires.get? token = some ⟨i, .inserting now⟩) :
    ({ w.setAcquire token i (.inserted (LockWorld.insertRow w.row i token now).2) with
      row := (LockWorld.insertRow w.row i token now).1 } : LockWorld).Inv := by
  cases hdid : (LockWorld.insertRow w.row i token now).2 with
  | false =>
    rw [insertRow_of_not hdid]
    exact h.advance hcall nofun nofun nofun nofun nofun
  | true =>
    rw [insertRow_of_did hdid]
    have hnobody := h.insertRow hintime hcall hdid
    exact h.take hcall hnobody

/-- An acquisition that has not written the row returns. -/
theorem Inv.returnAcquire (h : w.Inv)
    (hcall : w.acquires.get? token = some ⟨i, phase⟩) : (w.returnAcquire token i).Inv := by
  have hback : ∀ t call, (w.returnAcquire token i).acquires.get? t = some call → w.acquires.get? t = some call := by
    intro t call ht
    rw [get?_returnAcquire] at ht
    split at ht
    · cases ht
    · exact ht
  have howned : ∀ t j, (w.returnAcquire token i).Owned t j → w.Owned t j := by
    rintro t j (hlock | ht)
    · exact Or.inl hlock
    · exact Or.inr (hback t _ ht)
  exact
    { toCalls := h.toCalls.returnAcquire hcall
      refs := h.refs.returnAcquire token i
      row := fun t j ht => h.row t j (howned t j ht)
      live := h.live
      found := fun t call lock ht => h.found t call lock (hback t call ht)
      gone := fun t j lock ht => h.gone t j lock (hback t _ ht)
      inserting := fun t j now ht t' ht' => h.inserting t j now (hback t _ ht) t' (howned t' j ht')
      releasing := h.releasing }

/-- A lock is returned, and put into the map of its instance. -/
theorem Inv.resumeInsert (h : w.Inv) {didLock : Bool}
    (hcall : w.acquires.get? token = some ⟨i, .inserted didLock⟩) : (w.afterInsert token i didLock).Inv := by
  cases didLock with
  | false => exact h.returnAcquire hcall
  | true =>
    have hr := h.returnAcquire hcall
    have hlocks : ∀ t, (w.afterInsert token i true).locks.get? t =
        if t = token then some ⟨i, false, false⟩ else w.locks.get? t := fun t => get?_set ..
    have hlive : ∀ j, (w.afterInsert token i true).liveLockTokens.get? j =
        if j = i then some token else w.liveLockTokens.get? j := fun j => get?_set ..
    have hacquires : ∀ t, (w.afterInsert token i true).acquires.get? t =
        if t = token then none else w.acquires.get? t := fun t => get?_erase ..
    have hmine : w.Owned token i := Or.inr hcall
    have hback : ∀ t call, (w.afterInsert token i true).acquires.get? t = some call →
        t ≠ token ∧ call.instanceName ≠ i ∧ w.acquires.get? t = some call := by
      intro t call ht
      rw [hacquires] at ht
      split at ht
      · cases ht
      · next hne => exact ⟨hne, fun heq => hne (h.one t token _ _ ht hcall heq), ht⟩
    -- the lock is new to the map of locks, and nobody else has it
    have howned : ∀ t j, (w.afterInsert token i true).Owned t j → w.Owned t j := by
      rintro t j (⟨lock, hlock, hbegun, rfl⟩ | ht)
      · rw [hlocks] at hlock
        split at hlock
        · next heq =>
            cases hlock
            exact heq ▸ hmine
        · exact Or.inl ⟨lock, hlock, hbegun, rfl⟩
      · exact Or.inr (hback t _ ht).2.2
    have hheld : ∀ t, w.Returned t → (w.afterInsert token i true).Held t → w.Held t := by
      rintro t hreturned ⟨lock, hlock, hbegun⟩
      rw [hlocks, if_neg] at hlock
      · exact ⟨lock, hlock, hbegun⟩
      rintro rfl
      rw [hreturned.2] at hcall
      cases hcall
    have hreturned : ∀ t, w.Returned t → (w.afterInsert token i true).Returned t :=
      fun t ht => ⟨ht.1, by rw [hacquires]; split <;> simp [ht.2]⟩
    have htoken : token < w.nextToken := by
      by_contra hge
      rw [(h.fresh token (by omega)).2] at hcall
      cases hcall
    refine
      { toCalls := ⟨fun t ht => ⟨?_, (hr.fresh t ht).2⟩, fun t call ht => ?_, hr.registered, hr.one⟩
        refs := ⟨fun j t ht => ?_, fun t call lock ht hlock => ?_, hr.refs.released⟩
        row := fun t j ht => h.row t j (howned t j ht)
        live := fun t lock hlock hbegun => ?_
        found := fun t call lock ht hlock other hother => ?_
        gone := fun t j lock ht hlock => ?_
        inserting := fun t j now ht t' ht' =>
          h.inserting t j now (hback t _ ht).2.2 t' (howned t' j ht')
        releasing := fun id call hid hlock => ?_ }
    · rw [hlocks, if_neg (by rintro rfl; exact absurd htoken (Nat.not_lt.mpr ht))]
      exact (h.fresh t ht).1
    · rw [hlocks, if_neg (hback t call ht).1]
      exact h.apart t call (hback t call ht).2.2
    · rw [hlive] at ht
      split at ht
      · cases ht
        exact ⟨htoken, by rw [hacquires, if_pos rfl]⟩
      · exact hreturned t (h.refs.live j t ht)
    · exact hreturned lock (h.refs.found t call lock (hback t call ht).2.2 hlock)
    · rw [hlocks] at hlock
      rw [hlive]
      split at hlock
      · next heq =>
          cases hlock
          rw [if_pos rfl, heq]
      next hne =>
        rw [if_neg]
        · exact h.live t lock hlock hbegun
        · exact fun _ => hne (h.owned_unique (Or.inl ⟨lock, hlock, hbegun, rfl⟩) hmine).1
    · obtain ⟨-, hi, hold⟩ := hback t call ht
      rw [hlive, if_neg hi] at hother
      exact h.found t call lock hold hlock other hother
    · have hold := (hback t _ ht).2.2
      exact h.gone t j lock hold (hheld lock (h.refs.found t _ lock hold rfl) hlock)
    · exact h.releasing id call hid (hheld _ (h.refs.released id call hid) hlock)

variable {w' : LockWorld}

/-- A new acquisition, which looks at the lock in the map of its instance or finds none there. -/
theorem Inv.begin (h : w.Inv) (hfree : i ∉ w.acquiringLocks)
    (hphase : (∃ now, phase = .inserting now) ∧ w.liveLockTokens.get? i = none ∨
      ∃ lock, phase = .checking lock ∧ w.liveLockTokens.get? i = some lock) (hw : w' = { w with
      acquiringLocks := insert i w.acquiringLocks
      acquires := w.acquires.set w.nextToken ⟨i, phase⟩
      nextToken := w.nextToken + 1 }) : w'.Inv := by
  have hget : ∀ t, w'.acquires.get? t = if t = w.nextToken then some ⟨i, phase⟩ else w.acquires.get? t := by
    intro t
    rw [hw]
    exact get?_set ..
  have hnext : w'.nextToken = w.nextToken + 1 := by rw [hw]
  have hlocks : w'.locks = w.locks := by rw [hw]
  have hlive : w'.liveLockTokens = w.liveLockTokens := by rw [hw]
  have hset : w'.acquiringLocks = insert i w.acquiringLocks := by rw [hw]
  have hreleases : w'.releases = w.releases := by rw [hw]
  have hnew : phase ≠ .inserted true ∧ ∀ lock, phase ≠ .checked lock none := by
    rcases hphase with ⟨⟨now, rfl⟩, -⟩ | ⟨lock, rfl, -⟩
    · exact ⟨nofun, nofun⟩
    · exact ⟨nofun, nofun⟩
  -- a call is the new one, or one of another instance
  have hback : ∀ t call, w'.acquires.get? t = some call → t = w.nextToken ∧ call = ⟨i, phase⟩ ∨
      t ≠ w.nextToken ∧ call.instanceName ≠ i ∧ w.acquires.get? t = some call := by
    intro t call ht
    rw [hget] at ht
    split at ht
    · next heq =>
        cases ht
        exact Or.inl ⟨heq, rfl⟩
    · next hne => exact Or.inr ⟨hne, fun heq => hfree (heq ▸ h.registered t call ht), ht⟩
  have hreturned : ∀ t, w.Returned t → w'.Returned t := by
    intro t ht
    have hlt := ht.1
    rw [Returned, hget, if_neg (by omega), hnext]
    exact ⟨by omega, ht.2⟩
  have howned : ∀ t j, w'.Owned t j → w.Owned t j := by
    rintro t j (hlock | ht)
    · exact Or.inl (hlocks ▸ hlock)
    rcases hback t _ ht with ⟨-, hcall⟩ | ⟨-, -, hold⟩
    · injection hcall with _ hcall
      exact absurd hcall.symm hnew.1
    · exact Or.inr hold
  have hheld : ∀ t, w'.Held t → w.Held t := fun t ht => by rwa [Held, hlocks] at ht
  refine
    { toCalls := ⟨fun t ht => ?_, fun t call ht => ?_, fun t call ht => ?_, fun t t' call call' ht ht' heq => ?_⟩
      refs := ⟨fun j t ht => hreturned t (h.refs.live j t (hlive ▸ ht)), fun t call lock ht hlock => ?_,
        fun id call hid => hreturned _ (h.refs.released id call (hreleases ▸ hid))⟩
      row := fun t j ht => by
        have hrow := h.row t j (howned t j ht)
        rw [hw]
        exact hrow
      live := by
        rw [hlocks, hlive]
        exact h.live
      found := fun t call lock ht hlock other hother => ?_
      gone := fun t j lock ht hlock => ?_
      inserting := fun t j now ht t' ht' => ?_
      releasing := fun id call hid hlock => h.releasing id call (hreleases ▸ hid) (hheld _ hlock) }
  · rw [hget, if_neg (by omega), hlocks]
    exact h.fresh t (by omega)
  · rw [hlocks]
    rcases hback t call ht with ⟨rfl, -⟩ | ⟨-, -, hold⟩
    · exact (h.fresh _ le_rfl).1
    · exact h.apart t call hold
  · rw [hset]
    rcases hback t call ht with ⟨-, rfl⟩ | ⟨-, -, hold⟩
    · exact Finset.mem_insert_self i _
    · exact Finset.mem_insert_of_mem (h.registered t call hold)
  · rcases hback t call ht with ⟨rfl, rfl⟩ | ⟨-, hi, hold⟩
    · rcases hback t' call' ht' with ⟨rfl, -⟩ | ⟨-, hi', -⟩
      · rfl
      · exact absurd heq.symm hi'
    · rcases hback t' call' ht' with ⟨-, rfl⟩ | ⟨-, -, hold'⟩
      · exact absurd heq hi
      · exact h.one t t' call call' hold hold' heq
  · rcases hback t call ht with ⟨-, rfl⟩ | ⟨-, -, hold⟩
    · rcases hphase with ⟨⟨now, rfl⟩, -⟩ | ⟨lock', rfl, hfound⟩
      · cases hlock
      · cases hlock
        exact hreturned lock (h.refs.live i lock hfound)
    · exact hreturned lock (h.refs.found t call lock hold hlock)
  · rw [hlive] at hother
    rcases hback t call ht with ⟨-, rfl⟩ | ⟨-, -, hold⟩
    · rcases hphase with ⟨⟨now, rfl⟩, -⟩ | ⟨lock', rfl, hfound⟩
      · cases hlock
      · cases hlock
        exact Option.some.inj (hother.symm.trans hfound)
    · exact h.found t call lock hold hlock other hother
  · rcases hback t _ ht with ⟨-, hcall⟩ | ⟨-, -, hold⟩
    · injection hcall with _ hcall
      exact hnew.2 lock hcall.symm
    · exact h.gone t j lock hold (hheld lock hlock)
  · have hold' := howned t' j ht'
    rcases hback t _ ht with ⟨-, hcall⟩ | ⟨-, -, hold⟩
    · injection hcall with hij hcall
      subst hij
      rcases hphase with ⟨-, hnone⟩ | ⟨lock, rfl, -⟩
      · -- nobody at the instance has the lock: it is in the map, or its call is in the set
        rcases hold' with ⟨lock, hlock, hbegun, rfl⟩ | hcall'
        · rw [h.live t' lock hlock hbegun] at hnone
          cases hnone
        · exact hfree (h.registered t' _ hcall')
      · cases hcall
    · exact h.inserting t j now hold t' hold'

/-- `try_acquire_lock` begins. -/
theorem Inv.tryAcquireLock (h : w.Inv) (i : String) : (w.tryAcquireLock i).Inv := by
  unfold LockWorld.tryAcquireLock
  split
  · exact h
  next hfree =>
    refine h.begin hfree ?_ rfl
    cases hlive : w.liveLockTokens.get? i with
    | none => exact Or.inl ⟨⟨w.now, rfl⟩, rfl⟩
    | some lock => exact Or.inr ⟨lock, rfl, rfl⟩

/-- A step that takes no lock and moves no acquisition: locks may be released or forgotten. -/
theorem Inv.shrink (h : w.Inv) (hacquires : w'.acquires = w.acquires)
    (hset : w'.acquiringLocks = w.acquiringLocks) (hnext : w'.nextToken = w.nextToken)
    (hlocks : ∀ t lock', w'.locks.get? t = some lock' → ∃ lock, w.locks.get? t = some lock ∧
      lock.instanceName = lock'.instanceName ∧
        (lock'.releaseBegun = false → lock.releaseBegun = false))
    (hrow : ∀ row, w.row = some row → w'.Owned row.token row.instanceName →
      ∃ row', w'.row = some row' ∧ row'.token = row.token ∧ row'.instanceName = row.instanceName)
    (hlive : ∀ i t, w'.liveLockTokens.get? i = some t → w.liveLockTokens.get? i = some t)
    (hkept : ∀ t lock, w'.locks.get? t = some lock → lock.releaseBegun = false →
      w'.liveLockTokens.get? lock.instanceName = some t)
    (hreleases : ∀ id call, w'.releases.get? id = some call → w.Returned call.lock ∧
      ¬ w'.Held call.lock) : w'.Inv := by
  have howned : ∀ t i, w'.Owned t i → w.Owned t i := by
    rintro t i (⟨lock', hlock', hbegun, rfl⟩ | ht)
    · obtain ⟨lock, hlock, hi, hb⟩ := hlocks t lock' hlock'
      exact Or.inl ⟨lock, hlock, hb hbegun, hi⟩
    · exact Or.inr (hacquires ▸ ht)
  have hheld : ∀ t, w'.Held t → w.Held t := by
    rintro t ⟨lock', hlock', hbegun⟩
    obtain ⟨lock, hlock, -, hb⟩ := hlocks t lock' hlock'
    exact ⟨lock, hlock, hb hbegun⟩
  have hreturned : ∀ t, w.Returned t → w'.Returned t := by
    intro t ht
    rw [Returned, hacquires, hnext]
    exact ht
  have hnone : ∀ t, w.locks.get? t = none → w'.locks.get? t = none := by
    intro t ht
    by_contra hne
    obtain ⟨lock', hlock'⟩ := Option.ne_none_iff_exists'.mp hne
    obtain ⟨lock, hlock, -⟩ := hlocks t lock' hlock'
    rw [hlock] at ht
    cases ht
  exact
    { toCalls :=
        { fresh := fun t ht => by
            rw [hnext] at ht
            rw [hacquires]
            exact ⟨hnone t (h.fresh t ht).1, (h.fresh t ht).2⟩
          apart := fun t call ht => hnone t (h.apart t call (hacquires ▸ ht))
          registered := fun t call ht => hset ▸ h.registered t call (hacquires ▸ ht)
          one := by
            rw [hacquires]
            exact h.one }
      refs :=
        { live := fun i t ht => hreturned t (h.refs.live i t (hlive i t ht))
          found := fun t call lock ht hlock => hreturned lock (h.refs.found t call lock (hacquires ▸ ht) hlock)
          released := fun id call hid => hreturned _ (hreleases id call hid).1 }
      row := fun t i ht => by
        obtain ⟨row, hr, rfl, rfl⟩ := h.row t i (howned t i ht)
        exact hrow row hr ht
      live := hkept
      found := fun t call lock ht hlock other hother =>
        h.found t call lock (hacquires ▸ ht) hlock other (hlive _ _ hother)
      gone := fun t i lock ht hlock => h.gone t i lock (hacquires ▸ ht) (hheld lock hlock)
      inserting := fun t i now ht t' ht' => h.inserting t i now (hacquires ▸ ht) t' (howned t' i ht')
      releasing := fun id call hid => (hreleases id call hid).2 }

/-! ## §6 The other steps -/

/-- A step that writes the row and leaves the rest: the row of who has the lock stays theirs. -/
theorem Inv.newRow (h : w.Inv) (hrow : ∀ row, w.row = some row → w.Owned row.token row.instanceName →
      ∃ row', w'.row = some row' ∧ row'.token = row.token ∧ row'.instanceName = row.instanceName)
    (hacquires : w'.acquires = w.acquires) (hset : w'.acquiringLocks = w.acquiringLocks)
    (hnext : w'.nextToken = w.nextToken) (hlocks : w'.locks = w.locks)
    (hlive : w'.liveLockTokens = w.liveLockTokens) (hreleases : ∀ id call, w'.releases.get? id = some call →
      ∃ id' call', w.releases.get? id' = some call' ∧ call'.lock = call.lock) : w'.Inv := by
  have hsame : ∀ t i, w'.Owned t i ↔ w.Owned t i := by
    intro t i
    rw [Owned, Owned, hlocks, hacquires]
  refine h.shrink hacquires hset hnext ?_ (fun row hr ht => hrow row hr ((hsame _ _).mp ht)) ?_ ?_ ?_
  · intro t lock ht
    exact ⟨lock, hlocks ▸ ht, rfl, id⟩
  · intro i t ht
    exact hlive ▸ ht
  · rw [hlocks, hlive]
    exact h.live
  · intro id call hid
    obtain ⟨id', call', hid', hlock⟩ := hreleases id call hid
    rw [← hlock, Held, hlocks]
    exact ⟨h.refs.released id' call' hid', h.releasing id' call' hid'⟩

theorem Inv.deleteRow (h : w.Inv) {id : ℕ} (hcall : w.releases.get? id = some ⟨token, .deleting⟩) : ({ w with
      row := LockWorld.deleteRow w.row token
      releases := w.releases.set id ⟨token, .deleted⟩ } : LockWorld).Inv := by
  refine h.newRow (fun row hrow hown => ⟨row, ?_, rfl, rfl⟩) rfl rfl rfl rfl rfl fun id' call' hid' => ?_
  · -- the lock that is released is not the one that is held
    have hne : row.token ≠ token := by
      rintro rfl
      rcases hown with ⟨lock, hlock, hbegun, -⟩ | ht
      · exact h.releasing id _ hcall ⟨lock, hlock, hbegun⟩
      · rw [(h.refs.released id _ hcall).2] at ht
        cases ht
    show w.row.filter _ = _
    rw [hrow]
    simp [hne]
  · rcases of_get?_set hid' with ⟨-, rfl⟩ | ⟨-, hid'⟩
    · exact ⟨id, _, hcall, rfl⟩
    · exact ⟨id', call', hid', rfl⟩

theorem Inv.renewRow (h : w.Inv) (token : ℕ) (ts : ℤ) (rest : List (ℕ × ℤ)) :
    ({ w with row := LockWorld.renewRow w.row token ts, renewals := rest } : LockWorld).Inv := by
  refine h.newRow (fun row hrow _ => ?_) rfl rfl rfl rfl rfl fun id call hid => ⟨id, call, hid, rfl⟩
  show ∃ row', w.row.map _ = some row' ∧ _
  rw [hrow]
  refine ⟨_, rfl, ?_, ?_⟩
  · show (if row.token = token then _ else row).token = _
    split <;> rfl
  · show (if row.token = token then _ else row).instanceName = _
    split <;> rfl

theorem Inv.release (h : w.Inv) {lock : LockObject}
    (hlock : w.locks.get? token = some lock) : (w.release token lock).Inv := by
  unfold LockWorld.release
  split
  · exact h
  have hget : ∀ t, (w.locks.set token { lock with releaseBegun := true }).get? t =
      if t = token then some { lock with releaseBegun := true } else w.locks.get? t :=
    fun t => get?_set ..
  -- what is held was held before, and is another lock
  have hheld : ∀ t obj, (w.locks.set token { lock with releaseBegun := true }).get? t = some obj →
      obj.releaseBegun = false → t ≠ token ∧ w.locks.get? t = some obj := by
    intro t obj ht hbegun
    rw [hget] at ht
    split at ht
    · cases ht
      cases hbegun
    · next hne => exact ⟨hne, ht⟩
  have hreturned : w.Returned token := by
    constructor
    · by_contra hge
      rw [(h.fresh token (by omega)).1] at hlock
      cases hlock
    cases hcall : w.acquires.get? token with
    | none => rfl
    | some call =>
      rw [h.apart token call hcall] at hlock
      cases hlock
  refine h.shrink rfl rfl rfl ?_ (fun row hrow _ => ⟨row, hrow, rfl, rfl⟩) (fun _ _ => id) ?_ ?_
  · intro t obj ht
    rw [hget] at ht
    split at ht
    · next heq =>
        cases ht
        exact ⟨lock, heq ▸ hlock, rfl, nofun⟩
    · exact ⟨obj, ht, rfl, id⟩
  · intro t obj ht hbegun
    exact h.live t obj (hheld t obj ht hbegun).2 hbegun
  · intro id call hid
    rcases of_get?_set hid with ⟨-, rfl⟩ | ⟨-, hid⟩
    · refine ⟨hreturned, ?_⟩
      rintro ⟨obj, ht, hbegun⟩
      exact (hheld _ obj ht hbegun).1 rfl
    refine ⟨h.refs.released id call hid, ?_⟩
    rintro ⟨obj, ht, hbegun⟩
    exact h.releasing id call hid ⟨obj, (hheld _ obj ht hbegun).2, hbegun⟩

/-- The last part of a release pops its own lock. -/
theorem Inv.resumeDelete (h : w.Inv) {id : ℕ} (hpops : w.PopsOwn (.resumeDelete id))
    (hcall : w.releases.get? id = some ⟨token, .deleted⟩) : (w.afterDelete id token).Inv := by
  unfold LockWorld.afterDelete
  cases hlock : w.locks.get? token with
  | none => exact h
  | some lock =>
    have hget : ∀ t, (w.locks.set token { lock with dropped := true }).get? t =
        if t = token then some { lock with dropped := true } else w.locks.get? t :=
      fun t => get?_set ..
    have hnot := h.releasing id _ hcall
    have hheld : ∀ t obj, (w.locks.set token { lock with dropped := true }).get? t = some obj →
        obj.releaseBegun = false → t ≠ token ∧ w.locks.get? t = some obj := by
      intro t obj ht hbegun
      rw [hget] at ht
      split at ht
      · cases ht
        exact absurd ⟨lock, hlock, hbegun⟩ hnot
      · next hne => exact ⟨hne, ht⟩
    refine h.shrink rfl rfl rfl ?_ (fun row hrow _ => ⟨row, hrow, rfl, rfl⟩) ?_ ?_ ?_
    · intro t obj ht
      rw [hget] at ht
      split at ht
      · next heq =>
          cases ht
          exact ⟨lock, heq ▸ hlock, rfl, fun hbegun => hbegun⟩
      · exact ⟨obj, ht, rfl, fun hbegun => hbegun⟩
    · intro i t ht
      obtain ⟨-, ht⟩ := of_get?_erase ht
      exact ht
    · intro t obj ht hbegun
      obtain ⟨hne, hold⟩ := hheld t obj ht hbegun
      have hlive := h.live t obj hold hbegun
      rw [get?_erase, if_neg]
      · exact hlive
      · intro heq
        exact hne (hpops token lock t hcall hlock (heq ▸ hlive))
    · intro id' call' hid'
      obtain ⟨-, hid'⟩ := of_get?_erase hid'
      refine ⟨h.refs.released id' call' hid', ?_⟩
      rintro ⟨obj, ht, hbegun⟩
      exact h.releasing id' call' hid' ⟨obj, (hheld _ obj ht hbegun).2, hbegun⟩

theorem Inv.forget (h : w.Inv) (token : ℕ) (lock : LockObject) : (w.forget token lock).Inv := by
  have hheld : ∀ t obj, (w.locks.erase token).get? t = some obj → t ≠ token ∧ w.locks.get? t = some obj := by
    intro t obj ht
    obtain ⟨hne, ht⟩ := of_get?_erase ht
    exact ⟨hne, ht⟩
  refine h.shrink rfl rfl rfl (fun t obj ht => ⟨obj, (hheld t obj ht).2, rfl, id⟩)
    (fun row hrow _ => ⟨row, hrow, rfl, rfl⟩) ?_ ?_ ?_
  · intro i t ht
    simp only [LockWorld.forget] at ht
    split at ht
    · obtain ⟨-, ht⟩ := of_get?_erase ht
      exact ht
    · exact ht
  · intro t obj ht hbegun
    obtain ⟨hne, hold⟩ := hheld t obj ht
    have hlive := h.live t obj hold hbegun
    simp only [LockWorld.forget]
    split
    · next hmine =>
        rw [get?_erase, if_neg]
        · exact hlive
        intro heq
        rw [heq, hmine] at hlive
        exact hne (Option.some.inj hlive).symm
    · exact hlive
  · intro id call hid
    refine ⟨h.refs.released id call hid, ?_⟩
    rintro ⟨obj, ht, hbegun⟩
    exact h.releasing id call hid ⟨obj, (hheld _ obj ht).2, hbegun⟩

/-! ## §7 Runs -/

/-- What is asked of the steps of a run. -/
def Meets (w : LockWorld) (a : Action) : Prop := w.InTime a ∧ w.Prompt a ∧ w.PopsOwn a

variable {a : Action}

/-- Every step keeps the invariant. -/
theorem Inv.step (h : w.Inv) (hmeets : w.Meets a) (hstep : w.step a = some w') : w'.Inv := by
  obtain ⟨hintime, hprompt, hpops⟩ := hmeets
  cases a with
  | tick ms =>
    cases hstep
    exact h.newRow (fun row hrow _ => ⟨row, hrow, rfl, rfl⟩) rfl rfl rfl rfl rfl
      fun id call hid => ⟨id, call, hid, rfl⟩
  | tryAcquireLock i =>
    cases hstep
    exact h.tryAcquireLock i
  | select token =>
    simp only [LockWorld.step] at hstep
    split at hstep
    · next hcall =>
        cases hstep
        exact h.select hcall
    · cases hstep
  | resumeSelect token =>
    simp only [LockWorld.step] at hstep
    split at hstep
    · next hcall =>
        split at hstep
        · cases hstep
          exact h.returnAcquire hcall
        next hvalid =>
          cases hstep
          exact h.resumeSelect hprompt hcall (Bool.eq_false_iff.mpr hvalid)
    · cases hstep
  | insert token =>
    simp only [LockWorld.step] at hstep
    split at hstep
    · next hcall =>
        cases hstep
        exact h.writeRow hintime hcall
    · cases hstep
  | resumeInsert token =>
    simp only [LockWorld.step] at hstep
    split at hstep
    · next hcall =>
        cases hstep
        exact h.resumeInsert hcall
    · cases hstep
  | release token =>
    simp only [LockWorld.step] at hstep
    split at hstep
    · next hlock =>
        cases hstep
        exact h.release hlock
    · cases hstep
  | delete id =>
    simp only [LockWorld.step] at hstep
    split at hstep
    · next hcall =>
        cases hstep
        exact h.deleteRow hcall
    · cases hstep
  | resumeDelete id =>
    simp only [LockWorld.step] at hstep
    split at hstep
    · next hcall =>
        cases hstep
        exact h.resumeDelete hpops hcall
    · cases hstep
  | renew token =>
    simp only [LockWorld.step] at hstep
    split at hstep
    · cases hstep
      exact h.newRow (fun row hrow _ => ⟨row, hrow, rfl, rfl⟩) rfl rfl rfl rfl rfl
        fun id call hid => ⟨id, call, hid, rfl⟩
    · cases hstep
  | update index =>
    simp only [LockWorld.step] at hstep
    split at hstep
    · cases hstep
      exact h.renewRow _ _ _
    · cases hstep
  | collect token =>
    simp only [LockWorld.step] at hstep
    split at hstep
    · split at hstep
      · cases hstep
      · cases hstep
        exact h.forget _ _
    · cases hstep

theorem Reached.inv (h : Reached Meets w) : w.Inv := by
  induction h with
  | start hinit => exact inv_init hinit
  | next _ hstep ih =>
    obtain ⟨a, hmeets, hstep⟩ := hstep
    exact ih.step hmeets hstep

/-- **The lock excludes in every run in which holders renew in time, no check of a held lock comes too late,
and each release pops its own lock.** -/
theorem lock_exclusive {w : LockWorld} (h : Reached Meets w) : w.Exclusive := h.inv.exclusive

/-! ## §8 A release that pops another lock -/

/-- No row and no reading of one has timed out when the step looks at it. -/
def timely (w : LockWorld) : Action → Bool
  | .insert token =>
    match w.acquires.get? token, w.row with
    | some ⟨_, .inserting now⟩, some row => now - lockTimeoutMs ≤ row.lastRenewedTs
    | _, _ => true
  | .resumeSelect token =>
    match w.acquires.get? token with
    | some ⟨_, .checked _ (some ts)⟩ => w.now - lockTimeoutMs < ts
    | _ => true
  | _ => true

theorem inTime_of_timely (h : w.timely a = true) : w.InTime a ∧ w.Prompt a := by
  cases a with
  | insert token =>
    refine ⟨fun i now row owner hcall hrow _ => ?_, trivial⟩
    simpa [timely, hcall, hrow] using h
  | resumeSelect token =>
    refine ⟨trivial, fun i lock ts hcall _ => ?_⟩
    simpa [timely, hcall] using h
  | _ => exact ⟨trivial, trivial⟩

/-- Nothing in memory, and no row. -/
def idle : LockWorld := ⟨0, none, ∅, ∅, ∅, ∅, ∅, [], 0, 0⟩

/-- A step that is as `p` says. -/
def stepIf (p : LockWorld → Action → Bool) (w : LockWorld) (a : Action) : Option LockWorld :=
  if p w a then w.step a else none

theorem reached_of_run {p : LockWorld → Action → Bool} {P : LockWorld → Action → Prop}
    (hp : ∀ w a, p w a = true → P w a) {actions : List Action}
    (h : actions.foldlM (stepIf p) idle = some w) : Reached P w := by
  refine Reachable.of_foldlM (fun w a w' hstep => ?_) (.start ⟨rfl, rfl, rfl, rfl, rfl, rfl⟩) h
  unfold stepIf at hstep
  split at hstep
  · next hcond => exact ⟨a, hp w a hcond, hstep⟩
  · cases hstep

/-- The instance takes the lock, and begins to release it; before the release ends it takes the lock again. -/
def retaken : List Action :=
  [.tryAcquireLock "worker1", .insert 0, .resumeInsert 0, .release 0, .delete 0,
    .tryAcquireLock "worker1", .select 1, .resumeSelect 1, .insert 1, .resumeInsert 1, .resumeDelete 0]

/-- Then it takes the lock a third time. -/
def takenTwice : List Action := retaken ++ [.tryAcquireLock "worker1", .insert 2, .resumeInsert 2]

/-- **Two locks are held at once**: the end of the first release makes the instance forget its second lock,
and its third acquisition takes over the row that is its own. -/
theorem two_locks_held : ¬ ∀ w, Reached (fun w a => w.InTime a ∧ w.Prompt a) w → w.Exclusive := by
  intro h
  obtain ⟨w, hw⟩ := Option.isSome_iff_exists.mp
    (show (takenTwice.foldlM (stepIf timely) idle).isSome from by decide +kernel)
  have hlocks : (takenTwice.foldlM (stepIf timely) idle).map (fun w =>
      ((w.locks.get? 1).map LockObject.releaseBegun, (w.locks.get? 2).map LockObject.releaseBegun)) =
        some (some false, some false) := by decide +kernel
  rw [hw] at hlocks
  obtain ⟨hfirst, hsecond⟩ := Prod.mk.inj (Option.some.inj hlocks)
  obtain ⟨lock, hlock, hbegun⟩ := Option.map_eq_some_iff.mp hfirst
  obtain ⟨lock', hlock', hbegun'⟩ := Option.map_eq_some_iff.mp hsecond
  have heq := h w (reached_of_run (fun _ _ => inTime_of_timely) hw) 1 2 ⟨lock, hlock, hbegun⟩
    ⟨lock', hlock', hbegun'⟩
  exact absurd heq (by decide)

/-- The step pops no other lock. -/
def popsNoOther (w : LockWorld) : Action → Bool
  | .resumeDelete id =>
    (w.releases.get? id).all fun call => (w.locks.get? call.lock).all fun lock =>
      (w.liveLockTokens.get? lock.instanceName).all fun other => other = call.lock
  | _ => true

theorem meets_of_timely (h : (w.timely a && w.popsNoOther a) = true) : w.Meets a := by
  rw [Bool.and_eq_true] at h
  obtain ⟨hintime, hprompt⟩ := inTime_of_timely h.1
  refine ⟨hintime, hprompt, ?_⟩
  cases a with
  | resumeDelete id =>
    intro token lock other hcall hlock hother
    simpa [popsNoOther, hcall, hlock, hother] using h.2
  | _ => trivial

/-- An instance takes the lock, releases it to the end, and takes it again. -/
def takenAgain : List Action :=
  [.tryAcquireLock "worker1", .insert 0, .resumeInsert 0, .release 0, .delete 0, .resumeDelete 0,
    .tryAcquireLock "worker1", .insert 1, .resumeInsert 1]

theorem lock_exclusive_example : ∃ w, Reached Meets w ∧ w.Held 1 ∧ w.Exclusive := by
  obtain ⟨w, hw⟩ := Option.isSome_iff_exists.mp (show (takenAgain.foldlM
    (stepIf fun w a => w.timely a && w.popsNoOther a) idle).isSome from by decide +kernel)
  have hlock : (takenAgain.foldlM (stepIf fun w a => w.timely a && w.popsNoOther a) idle).map
      (fun w => (w.locks.get? 1).map LockObject.releaseBegun) = some (some false) := by decide +kernel
  rw [hw] at hlock
  obtain ⟨lock, hlock, hbegun⟩ := Option.map_eq_some_iff.mp (Option.some.inj hlock)
  have hreached : Reached Meets w := reached_of_run (fun _ _ => meets_of_timely) hw
  exact ⟨w, hreached, ⟨lock, hlock, hbegun⟩, lock_exclusive hreached⟩

end LockWorld

end Setka.Storage.Lock
