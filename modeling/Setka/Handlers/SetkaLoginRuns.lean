/-
# Setka.Handlers.SetkaLoginRuns — what the login calls of one user keep, and what overlapping ones lose.

A code is in force from the save that stores it until another one is stored for the device, or it is accepted,
or it is found to have expired. The invariant ties the stored value to the events so far: an open challenge is
of a code in force and counts every comparison, the verified devices are stored, and the recovery backup is the
one stored last. Each call keeps it by itself; a call that saves what it loaded before another call's save does
not.
-/
import Setka.Handlers.SetkaLogin

namespace Setka.Handlers.SetkaLogin

open Setka.Api Setka.Lib CellProg Dict
open Nat (le_succ le_succ_of_le)

/-! ## §1 Codes in force -/

/-- The draw that the event is about. -/
def LoginEvent.rotation? : LoginEvent → Option ℕ
  | .stored _ r _ => some r
  | .compared _ r => some r
  | .accepted _ r _ => some r
  | .expired _ r => some r
  | _ => none

/-- After the event, the code is not in force any more. -/
def LoginEvent.Ends (device : String) (rotation : ℕ) : LoginEvent → Prop
  | .stored d _ _ => d = device
  | .accepted d r _ => d = device ∧ r = rotation
  | .expired d r => d = device ∧ r = rotation
  | _ => False

/-- The code was stored for the device, nothing was heard of it before, and nothing has ended it since. -/
def InForce (history : List LoginEvent) (device : String) (rotation : ℕ) (expiresAt : ℤ) : Prop :=
  ∃ older later, history = older ++ .stored device rotation expiresAt :: later ∧
    (∀ e ∈ older, e.rotation? ≠ some rotation) ∧ ∀ e ∈ later, ¬ e.Ends device rotation

/-- A code is compared with at most `_MAX_ATTEMPTS` submitted ones, and one that is accepted is in force
and before its time. -/
def Resists (history : List LoginEvent) : Prop :=
  (∀ device rotation, history.count (.compared device rotation) ≤ maxAttempts) ∧
  ∀ before device rotation now after, history = before ++ .accepted device rotation now :: after →
    ∃ expiresAt, now < expiresAt ∧ InForce before device rotation expiresAt

theorem InForce.append {h : List LoginEvent} {device : String} {r : ℕ} {expiresAt : ℤ}
    (hforce : InForce h device r expiresAt) {e : LoginEvent} (he : ¬ e.Ends device r) :
    InForce (h ++ [e]) device r expiresAt := by
  obtain ⟨older, later, rfl, hold, hlater⟩ := hforce
  refine ⟨older, later ++ [e], by simp, hold, fun e' he' => ?_⟩
  rcases List.mem_append.mp he' with hin | hin
  · exact hlater e' hin
  · rw [List.mem_singleton.mp hin]
    exact he

/-- A code in force has not been accepted yet. -/
theorem InForce.not_accepted {h : List LoginEvent} {device : String} {r : ℕ} {expiresAt : ℤ}
    (hforce : InForce h device r expiresAt) (now : ℤ) : .accepted device r now ∉ h := by
  obtain ⟨older, later, rfl, hold, hlater⟩ := hforce
  intro hin
  rcases List.mem_append.mp hin with hin | hin
  · exact hold _ hin rfl
  rcases List.mem_cons.mp hin with heq | hin
  · cases heq
  · exact hlater _ hin ⟨rfl, rfl⟩

theorem inForce_stored {h : List LoginEvent} {device : String} {r : ℕ} {expiresAt : ℤ}
    (hnew : ∀ e ∈ h, e.rotation? ≠ some r) :
    InForce (h ++ [.stored device r expiresAt]) device r expiresAt :=
  ⟨h, [], rfl, hnew, by simp⟩

/-- How a history may go on. -/
theorem Resists.append {h : List LoginEvent} (hres : Resists h) {e : LoginEvent}
    (hcompared : ∀ device r, e = .compared device r → h.count (.compared device r) < maxAttempts)
    (haccepted : ∀ device r now, e = .accepted device r now →
      ∃ expiresAt, now < expiresAt ∧ InForce h device r expiresAt) : Resists (h ++ [e]) := by
  refine ⟨fun device r => ?_, fun before device r now after heq => ?_⟩
  · rw [List.count_append, List.count_singleton]
    have hold := hres.1 device r
    split
    · next hsame =>
        have := hcompared device r (eq_of_beq hsame)
        omega
    · omega
  · -- the acceptance is the new event or an older one
    rcases after.eq_nil_or_concat with rfl | ⟨after, last, rfl⟩
    · obtain ⟨rfl, hlast⟩ := List.append_inj' heq rfl
      exact haccepted device r now (List.singleton_inj.mp hlast)
    refine hres.2 before device r now after ?_
    rw [List.concat_eq_append, ← List.cons_append, ← List.append_assoc] at heq
    exact (List.append_inj' heq rfl).1

/-! ## §2 The stored value and the events -/

/-- The recovery backup that the events leave. -/
def recoveryAfter (backup : Option RecoveryBackup) (history : List LoginEvent) : Option RecoveryBackup :=
  history.foldl (fun backup e => match e with
    | .recovery _ backup => backup
    | _ => backup) backup

/-- What holds throughout: also while a call has looked at a code and not saved yet. -/
structure Kept (backup : Option RecoveryBackup) (h : List LoginEvent) (d : LoginData) : Prop where
  resists : Resists h
  verified : ∀ device, .verified device ∈ h → device ∈ d.verifiedDevices.keys
  recovery : d.recoveryBackup = recoveryAfter backup h

/-- A stored challenge is of a code in force, and counts the comparisons with it. -/
structure Open (h : List LoginEvent) (device : String) (challenge : Challenge) : Prop where
  inForce : InForce h device challenge.rotation challenge.expiresAt
  counted : h.count (.compared device challenge.rotation) ≤ challenge.attempts
  limited : challenge.attempts ≤ maxAttempts

structure LoginInv (backup : Option RecoveryBackup) (h : List LoginEvent) (d : LoginData) (n : ℕ) : Prop
    extends Kept backup h d where
  past : ∀ e ∈ h, ∀ r, e.rotation? = some r → r < n
  challenges : ∀ device challenge, d.challenges.get? device = some challenge → Open h device challenge

variable {backup : Option RecoveryBackup} {h : List LoginEvent} {d : LoginData} {n : ℕ}

theorem Open.append {device : String} {challenge : Challenge} (hopen : Open h device challenge)
    {e : LoginEvent} (hends : ¬ e.Ends device challenge.rotation)
    (hcompared : e ≠ .compared device challenge.rotation) : Open (h ++ [e]) device challenge := by
  refine ⟨hopen.inForce.append hends, ?_, hopen.limited⟩
  rw [List.count_append, List.count_singleton, if_neg (by simpa using hcompared)]
  exact hopen.counted

namespace LoginInv

theorem mono (hI : LoginInv backup h d n) {n' : ℕ} (hn : n ≤ n') : LoginInv backup h d n' :=
  { hI with past := fun e he r hr => lt_of_lt_of_le (hI.past e he r hr) hn }

/-- An event of a draw that was made, with the value that goes with it. -/
theorem append (hI : LoginInv backup h d n) {e : LoginEvent} {d' : LoginData}
    (hpast : ∀ r, e.rotation? = some r → r < n) (hresists : Resists (h ++ [e]))
    (hchallenges : ∀ device challenge, d'.challenges.get? device = some challenge →
      Open (h ++ [e]) device challenge)
    (hverified : ∀ device, device ∈ d.verifiedDevices.keys ∨ e = .verified device →
      device ∈ d'.verifiedDevices.keys)
    (hrecovery : d'.recoveryBackup = recoveryAfter d.recoveryBackup [e]) :
    LoginInv backup (h ++ [e]) d' n := by
  refine ⟨⟨hresists, fun device hin => ?_, ?_⟩, fun e' he' r hr => ?_, hchallenges⟩
  · refine hverified device ?_
    rcases List.mem_append.mp hin with hin | hin
    · exact Or.inl (hI.verified device hin)
    · exact Or.inr (List.mem_singleton.mp hin).symm
  · rw [hrecovery, hI.recovery, recoveryAfter, recoveryAfter, recoveryAfter, List.foldl_append]
  · rcases List.mem_append.mp he' with hin | hin
    · exact hI.past e' hin r hr
    · rw [List.mem_singleton.mp hin] at hr
      exact hpast r hr

/-- A challenge goes. -/
theorem pop (hI : LoginInv backup h d n) (device : String) : LoginInv backup h (d.popChallenge device) n := by
  refine ⟨⟨hI.resists, hI.verified, hI.recovery⟩, hI.past, fun device' challenge hget => ?_⟩
  change (d.challenges.erase device).get? device' = some challenge at hget
  obtain ⟨-, hget⟩ := of_get?_erase hget
  exact hI.challenges device' challenge hget

variable {device : String}

/-- A code that is drawn at this step is stored. -/
theorem store (hI : LoginInv backup h d n) {c : Challenge} (hdrawn : c.rotation = n)
    (hattempts : c.attempts = 0) {n' : ℕ} (hn : n < n') :
    LoginInv backup (h ++ [.stored device c.rotation c.expiresAt]) (d.setChallenge device c) n' := by
  have hnew : ∀ e ∈ h, e.rotation? ≠ some c.rotation := by
    intro e he hr
    have := hI.past e he _ hr
    omega
  refine (hI.mono hn.le).append (fun r hr => ?_) (hI.resists.append (by simp) (by simp))
    (fun device' c' hget => ?_) (fun device' hin => ?_) rfl
  · cases hr
    omega
  · change (d.challenges.set device c).get? device' = some c' at hget
    rcases of_get?_set hget with ⟨hsame, rfl⟩ | ⟨hother, hget⟩
    · subst hsame
      refine ⟨inForce_stored hnew, ?_, by omega⟩
      -- no comparison with a code that was not there
      have hzero : h.count (.compared device' c.rotation) = 0 :=
        List.count_eq_zero.mpr fun hin => hnew _ hin rfl
      rw [List.count_append, hzero, List.count_singleton, if_neg (by simp)]
      omega
    · exact (hI.challenges device' c' hget).append (fun hends => hother hends.symm) (by simp)
  · rcases hin with hin | hin
    · exact hin
    · cases hin

variable {challenge : Challenge}

theorem rotation_lt (hI : LoginInv backup h d n)
    (hget : d.challenges.get? device = some challenge) : challenge.rotation < n := by
  obtain ⟨older, later, hh, -, -⟩ := (hI.challenges device challenge hget).inForce
  exact hI.past (.stored device challenge.rotation challenge.expiresAt) (by rw [hh]; simp) _ rfl

/-- A submitted code is compared with the stored one. -/
theorem compare (hI : LoginInv backup h d n) (hget : d.challenges.get? device = some challenge)
    (hattempts : challenge.attempts < maxAttempts) :
    LoginInv backup (h ++ [.compared device challenge.rotation])
      (d.setChallenge device { challenge with attempts := challenge.attempts + 1 }) n := by
  have hopen := hI.challenges device challenge hget
  have hcounted := hopen.counted
  refine hI.append (fun r hr => ?_) (hI.resists.append (fun device' r heq => ?_) (by simp))
    (fun device' challenge' hget' => ?_) (fun device' hin => ?_) rfl
  · cases hr
    exact hI.rotation_lt hget
  · cases heq
    omega
  · change (d.challenges.set device _).get? device' = some challenge' at hget'
    rcases of_get?_set hget' with ⟨hsame, rfl⟩ | ⟨hother, hget'⟩
    · subst hsame
      refine ⟨hopen.inForce.append (fun hends => hends), ?_, hattempts⟩
      rw [List.count_append, List.count_singleton, if_pos (by simp)]
      exact Nat.succ_le_succ hcounted
    · refine (hI.challenges device' challenge' hget').append (fun hends => hends) fun heq => ?_
      exact hother (LoginEvent.compared.inj heq).1.symm
  · rcases hin with hin | hin
    · exact hin
    · cases hin

/-- The code is accepted or found to have expired, and its challenge goes. -/
theorem finish (hI : LoginInv backup h d n) (hget : d.challenges.get? device = some challenge) {e : LoginEvent}
    (he : e = .expired device challenge.rotation ∨
      ∃ now, e = .accepted device challenge.rotation now ∧ now < challenge.expiresAt) :
    LoginInv backup (h ++ [e]) (d.popChallenge device) n := by
  have hopen := hI.challenges device challenge hget
  have hothers : ∀ device' r, device' ≠ device → ¬ e.Ends device' r := by
    intro device' r hne hends
    rcases he with rfl | ⟨now, rfl, -⟩ <;> exact hne hends.1.symm
  refine hI.append (fun r hr => ?_) (hI.resists.append (fun device' r heq => ?_) fun device' r now heq => ?_)
    (fun device' challenge' hget' => ?_) (fun device' hin => ?_) ?_
  · rcases he with rfl | ⟨now, rfl, -⟩ <;> (cases hr; exact hI.rotation_lt hget)
  · rcases he with rfl | ⟨now, rfl, -⟩ <;> cases heq
  · rcases he with rfl | ⟨now', rfl, hnow⟩
    · cases heq
    · cases heq
      exact ⟨challenge.expiresAt, hnow, hopen.inForce⟩
  · change (d.challenges.erase device).get? device' = some challenge' at hget'
    obtain ⟨hother, hget'⟩ := of_get?_erase hget'
    refine (hI.challenges device' challenge' hget').append (hothers _ _ hother) ?_
    rcases he with rfl | ⟨now, rfl, -⟩ <;> simp
  · rcases hin with hin | rfl
    · exact hin
    · rcases he with heq | ⟨now, heq, -⟩ <;> cases heq
  · rcases he with rfl | ⟨now, rfl, -⟩ <;> rfl

/-- The device is verified, and its challenge goes. -/
theorem verify (hI : LoginInv backup h (d.popChallenge device) n) (now : ℤ) :
    LoginInv backup (h ++ [.verified device]) (d.verify device now) n := by
  refine hI.append (by simp [LoginEvent.rotation?]) (hI.resists.append (by simp) (by simp))
    (fun device' challenge hget => ?_) (fun device' hin => ?_) rfl
  · exact (hI.challenges device' challenge hget).append (fun hends => hends) (by simp)
  show device' ∈ (d.verifiedDevices.set device now).keys
  rw [mem_keys_set]
  rcases hin with hin | hin
  · exact Or.inr hin
  · cases hin
    exact Or.inl rfl

/-- The device was verified before. -/
theorem verifiedAgain (hI : LoginInv backup h d n)
    (hin : device ∈ d.verifiedDevices.keys) : LoginInv backup (h ++ [.verified device]) d n := by
  refine hI.append (by simp [LoginEvent.rotation?]) (hI.resists.append (by simp) (by simp))
    (fun device' challenge hget => ?_) (fun device' hor => ?_) rfl
  · exact (hI.challenges device' challenge hget).append (fun hends => hends) (by simp)
  rcases hor with hold | heq
  · exact hold
  · cases heq
    exact hin

theorem recover (hI : LoginInv backup h d n) (id : ℕ) (backup' : Option RecoveryBackup) :
    LoginInv backup (h ++ [.recovery id backup']) { d with recoveryBackup := backup' } n := by
  refine hI.append (by simp [LoginEvent.rotation?]) (hI.resists.append (by simp) (by simp))
    (fun device' challenge hget => ?_) (fun device' hin => ?_) rfl
  · exact (hI.challenges device' challenge hget).append (fun hends => hends) (by simp)
  rcases hin with hin | hin
  · exact hin
  · cases hin

end LoginInv

/-! ## §3 What each call keeps by itself -/

/-- What the events say for a call that has returned. -/
def Returned (id : ℕ) (call : LoginCall) (answer : LoginAnswer) (h : List LoginEvent) : Prop :=
  match answer with
  | .status true _ _ => .verified (deviceKey call.deviceId) ∈ h
  | .verified _ _ => .verified (deviceKey call.deviceId) ∈ h
  | .stored => ∃ stored, .recovery id (some stored) ∈ h
  | .deleted => .recovery id none ∈ h
  | _ => True

section Sound

variable {α : Type} {R : α → List LoginEvent → Prop}

variable {device : String} {data : LoginData}

theorem sound_markVerified {now : ℤ} {k : Unit → LoginProg α} (hkept : Kept backup h d)
    (hI : LoginInv backup h (data.popChallenge device) n)
    (hk : ∀ h', h ++ [.verified device] <+: h' → (k ()).Steady (LoginInv backup) (Kept backup) R h') :
    (markVerified device data now >>= k).Sound (LoginInv backup) (Kept backup) R h d n := by
  rw [markVerified, bind_assoc]
  refine sound_saved hkept fun n' i hn => ?_
  rw [bind_assoc]
  refine sound_emitted ?_
  have hafter := (hI.verify now).mono (le_succ_of_le hn)
  split
  · -- the analytics are awaited, and nothing is saved any more
    refine Steady.sound (p := awaited >>= fun _ => k ()) (steady_awaited fun h' m i' hh => ?_) hafter
    exact hk h' hh
  · exact (hk _ (List.prefix_refl _)).sound hafter

/-- The same code, after it was looked at or sent. -/
def SameCode (c c' : Challenge) : Prop :=
  c'.rotation = c.rotation ∧ c'.attempts = c.attempts ∧ c'.expiresAt = c.expiresAt

theorem deliverCodeEmail_eq (c : Challenge) : deliverCodeEmail c = awaited >>= fun i =>
      if i.2.deliveryEmail.getD "" = "" then
        pure { c with emailSent := some false }
      else
        awaited >>= fun i => pure { c with emailSent := some i.2.emailError.isNone } :=
  rfl

variable {c : Challenge} {k : Challenge → LoginProg α}

theorem maySave_deliverCodeEmail (hsave : ∀ c', (k c').MaySave) : (deliverCodeEmail c >>= k).MaySave := by
  exact ⟨(0, default), hsave _⟩

theorem sound_deliverCodeEmail (hkept : Kept backup h d) (hsave : ∀ c', (k c').MaySave)
    (hk : ∀ c' n', SameCode c c' → n ≤ n' → (k c').Sound (LoginInv backup) (Kept backup) R h d n') :
    (deliverCodeEmail c >>= k).Sound (LoginInv backup) (Kept backup) R h d n := by
  rw [deliverCodeEmail_eq, bind_assoc]
  refine sound_awaited hkept ⟨(0, default), hsave _⟩ fun n₁ i hn₁ => ?_
  split
  · exact hk _ _ ⟨rfl, rfl, rfl⟩ (by omega)
  refine sound_awaited hkept ⟨(0, i), hsave _⟩ fun n₂ i' hn₂ => ?_
  exact hk _ _ ⟨rfl, rfl, rfl⟩ (by omega)

theorem sound_saveAndSend (hI : LoginInv backup h data n) (hdrawn : c.rotation = n) (hattempts : c.attempts = 0)
    (hk : ∀ c' h', h <+: h' → (k c').Steady (LoginInv backup) (Kept backup) R h') :
    (saveAndSend device data c >>= k).Sound (LoginInv backup) (Kept backup) R h data (n + 1) := by
  simp only [saveAndSend, bind_assoc, pure_bind]
  refine sound_saved hI.toKept fun n₁ _ hn₁ => ?_
  refine sound_emitted ?_
  have hstored : ∀ c', SameCode c c' → ∀ m, n < m →
      LoginInv backup (h ++ [.stored device c.rotation c.expiresAt]) (data.setChallenge device c') m := by
    rintro c' ⟨hrotation, hattempts', hexpires⟩ m hm
    rw [← hrotation, ← hexpires]
    exact hI.store (hrotation.trans hdrawn) (hattempts'.trans hattempts) hm
  have hkept := (hstored c ⟨rfl, rfl, rfl⟩ (n + 1) (by omega)).toKept
  refine sound_awaited hkept ⟨(0, default), maySave_deliverCodeEmail fun _ => trivial⟩ fun n₂ i hn₂ => ?_
  refine sound_deliverCodeEmail hkept (fun _ => trivial) fun c' n₃ hsame hn₃ => ?_
  refine sound_saved hkept fun n₄ _ hn₄ => ?_
  exact (hk c' _ (List.prefix_append _ _)).sound (hstored c' hsame _ (by omega))

variable (hash : String → String)

theorem sound_ensureChallenge {ip userAgent : Option String} {input : LoginInput} (hI : LoginInv backup h data n)
    (hmissing : (data.challenges.get? device).filter (fun c => input.now < c.expiresAt) = none)
    (hk : ∀ c' h', h <+: h' → (k c').Steady (LoginInv backup) (Kept backup) R h') :
    (ensureChallenge hash device data ip userAgent n input >>= k).Sound (LoginInv backup) (Kept backup) R
      h data (n + 1) := by
  rw [ensureChallenge]
  split
  · next existing hget =>
      -- the caller has found that this one is over
      rw [hget] at hmissing
      rw [if_neg (by simpa [Option.filter] using hmissing)]
      exact sound_saveAndSend hI rfl rfl hk
  · exact sound_saveAndSend hI rfl rfl hk

end Sound

section Calls

variable {R : LoginAnswer → List LoginEvent → Prop} (hash : String → String)

variable {device : String} {ip : Option String} {data : LoginData} {input : LoginInput}

theorem sound_sendRotatedCode {deliveryEmail : String} {c : Challenge} (hI : LoginInv backup h data n)
    (hR : ∀ email h', R (.sent email) h') :
    (sendRotatedCode hash device deliveryEmail ip data c n input).Sound (LoginInv backup) (Kept backup) R
      h data (n + 1) := by
  refine sound_saved hI.toKept fun n₁ _ hn₁ => ?_
  refine sound_emitted ?_
  have hstored : ∀ noticeSent m, n < m → LoginInv backup (h ++ [.stored device n (input.now + challengeTtlMs)])
        (data.setChallenge device { (rotateCode hash c n input).withAddress ip with noticeSent := noticeSent }) m :=
    fun noticeSent m hm => hI.store
      (c := { (rotateCode hash c n input).withAddress ip with noticeSent := noticeSent }) rfl rfl hm
  have hkept := (hstored false (n + 1) (by omega)).toKept
  refine sound_awaited hkept ?_ fun n₂ i hn₂ => ?_
  · exact ⟨(0, { input with emailError := none }), (0, input), trivial⟩
  dsimp only
  split
  · exact hstored false _ (by omega)
  refine sound_awaited hkept ⟨(0, i), trivial⟩ fun n₃ i' hn₃ => ?_
  refine sound_saved hkept fun n₄ _ hn₄ => ?_
  exact ⟨hstored i'.noticeSent _ (by omega), hR _ _⟩

theorem sound_sendOpenCode {deliveryEmail : String} {userAgent : Option String} (hI : LoginInv backup h data n)
    (hR : ∀ email h', R (.sent email) h') :
    (sendOpenCode hash device deliveryEmail ip userAgent data n input).Sound (LoginInv backup) (Kept backup)
      R h data (n + 1) := by
  rw [sendOpenCode]
  split
  · exact sound_sendRotatedCode hash hI hR
  next hmissing =>
    refine sound_ensureChallenge hash hI hmissing fun _ h' _ => ?_
    refine steady_loaded fun h'' d' m i _ hI' => ?_
    dsimp only
    split
    · exact hI'.mono (le_succ m)
    · exact sound_sendRotatedCode hash hI' hR

variable {deviceId : String}

theorem steady_sendCodeViaEmail {email userAgent : Option String} (hR : ∀ email h', R (.sent email) h') :
    (sendCodeViaEmail hash deviceId email ip userAgent).Steady (LoginInv backup) (Kept backup) R h := by
  have hrest : ∀ deliveryEmail h', (if Option.getD deliveryEmail "" = "" then
      raise (.synapseError 400 "No email address is linked to this account" "M_NOT_FOUND")
    else loaded >>= fun i =>
      if hasRecoveryBackup i.1 then
        sendOpenCode hash (deviceKey deviceId) (deliveryEmail.getD "") (asStr ip) (asStr userAgent) i.1 i.2.1 i.2.2
      else
        raise (.synapseError 403 "Email verification requires server recovery backup" "M_FORBIDDEN")).Steady
      (LoginInv backup) (Kept backup) R h' := by
    intro deliveryEmail h'
    split
    · trivial
    refine steady_loaded fun h'' d m i _ hI => ?_
    split
    · exact sound_sendOpenCode hash hI hR
    · exact hI.mono (le_succ m)
  unfold sendCodeViaEmail resolveDeliveryEmail
  split
  · exact hrest _ h
  · exact steady_awaited fun h' m i _ => hrest i.deliveryEmail h'

theorem steady_getStatus
    (hR : ∀ verified address available h', .verified (deviceKey deviceId) ∈ h' ∨ verified = false →
      R (.status verified address available) h') :
    (getStatus deviceId ip).Steady (LoginInv backup) (Kept backup) R h := by
  refine steady_loaded fun h' data m input _ hI => ?_
  dsimp only
  have hnext := hI.mono (le_succ m)
  split
  · next hverified =>
      obtain ⟨at', hat⟩ := Option.isSome_iff_exists.mp hverified
      exact sound_emitted ⟨hnext.verifiedAgain (mem_keys_iff.mpr ⟨at', hat⟩), hR _ _ _ _ (Or.inl (by simp))⟩
  split
  · refine sound_markVerified hnext.toKept (hnext.pop _) fun h'' hh => hR _ _ _ _ (Or.inl ?_)
    exact hh.subset (by simp)
  split
  · refine sound_awaited hnext.toKept ⟨(0, input), trivial⟩ fun m' input' hm' => ?_
    have hlater := hnext.mono (le_succ_of_le hm')
    refine sound_markVerified hlater.toKept (hlater.pop _) fun h'' hh => hR _ _ _ _ (Or.inl ?_)
    exact hh.subset (by simp)
  · exact ⟨hnext, hR _ _ _ _ (Or.inr rfl)⟩

theorem sound_checkCode {cleaned : String} {c : Challenge} (hI : LoginInv backup h data n)
    (hget : data.challenges.get? device = some c)
    (hR : ∀ available h', .verified device ∈ h' → R (.verified "code" available) h') :
    (checkCode hash device cleaned data c input).Sound (LoginInv backup) (Kept backup) R h data n := by
  rw [checkCode]
  split
  · have hfinished := hI.finish hget (Or.inl rfl)
    refine sound_emitted (sound_saved ⟨hfinished.resists, hfinished.verified, hfinished.recovery⟩ fun m i hm => ?_)
    exact hfinished.mono (le_succ_of_le hm)
  next hlive =>
  split
  · exact sound_saved hI.toKept fun m i hm => (hI.pop device).mono (le_succ_of_le hm)
  next hattempts =>
  split
  · exact hI
  have hcompared := hI.compare hget (by omega)
  have hkept : Kept backup (h ++ [.compared device c.rotation]) data :=
    ⟨hcompared.resists, hcompared.verified, hcompared.recovery⟩
  refine sound_emitted ?_
  split
  · exact sound_saved hkept fun m i hm => hcompared.mono (le_succ_of_le hm)
  have hfound : (data.setChallenge device { c with attempts := c.attempts + 1 }).challenges.get? device =
      some { c with attempts := c.attempts + 1 } := by
    rw [LoginData.setChallenge, get?_set, if_pos rfl]
  have haccepted := hcompared.finish hfound (Or.inr ⟨input.now, rfl, not_le.mp hlive⟩)
  have hkept' : Kept backup _ data := ⟨haccepted.resists, haccepted.verified, haccepted.recovery⟩
  refine sound_emitted (sound_markVerified hkept' haccepted fun h' hh => ?_)
  refine steady_loaded fun h'' d' m i hh' hI' => ⟨hI'.mono (le_succ m), hR _ _ ?_⟩
  exact hh'.subset (hh.subset (by simp))

theorem steady_verifyCode (u : PyInt.Digits) {code : String}
    (hR : ∀ available h', .verified (deviceKey deviceId) ∈ h' → R (.verified "code" available) h') :
    (verifyCode hash u deviceId code).Steady (LoginInv backup) (Kept backup) R h := by
  rw [verifyCode]
  split
  · trivial
  refine steady_loaded fun h' data m input _ hI => ?_
  dsimp only
  split
  · exact hI.mono (le_succ m)
  · next hget => exact sound_checkCode hash (hI.mono (le_succ m)) hget hR

variable {id : ℕ}

theorem sound_saveRecoveryBackup {k : Unit → LoginProg LoginAnswer} (hI : LoginInv backup h data n)
    (hk : ∀ stored h', h ++ [.recovery id (some stored)] <+: h' →
      (k ()).Steady (LoginInv backup) (Kept backup) R h') :
    (saveRecoveryBackup id data input >>= k).Sound (LoginInv backup) (Kept backup) R h data n := by
  rw [saveRecoveryBackup]
  split
  · exact hI
  next nonce ciphertext _ =>
    refine sound_saved hI.toKept fun m _ hm => sound_emitted ?_
    have hstored := (hI.recover id (some ⟨1, nonce, ciphertext, input.now⟩)).mono (le_succ_of_le hm)
    exact (hk _ _ (List.prefix_refl _)).sound hstored

theorem steady_storeRecoveryKey {recoveryKey : String}
    (hR : ∀ stored h', .recovery id (some stored) ∈ h' → R .stored h') :
    (storeRecoveryKey id recoveryKey).Steady (LoginInv backup) (Kept backup) R h := by
  rw [storeRecoveryKey]
  split
  · trivial
  refine steady_loaded fun h' data m input _ hI => ?_
  refine sound_saveRecoveryBackup (hI.mono (le_succ m)) fun stored h'' hh => ?_
  have hin := hh.subset (List.mem_append_right h' List.mem_cons_self)
  split
  · exact steady_awaited fun h₃ _ _ hh' => hR stored h₃ (hh'.subset hin)
  · exact hR stored h'' hin

theorem steady_deleteRecoveryKey (hR : ∀ h', .recovery id none ∈ h' → R .deleted h') :
    (deleteRecoveryKey id).Steady (LoginInv backup) (Kept backup) R h := by
  refine steady_loaded fun h' data m _ _ hI => ?_
  dsimp only
  split
  · refine sound_saved hI.toKept fun m' i hm => sound_emitted ?_
    have hdeleted := (hI.recover id none).mono (show m ≤ m' + 1 by omega)
    refine Steady.sound (p := awaited >>= fun _ => pure LoginAnswer.deleted) ?_ hdeleted
    exact steady_awaited fun h'' _ _ hh => hR h'' (hh.subset (by simp))
  · next hnone =>
      have hsame : data = { data with recoveryBackup := none } := by
        have hbackup : data.recoveryBackup = none := by simpa using hnone
        rw [← hbackup]
      have hdeleted := (hI.recover id none).mono (le_succ m)
      rw [← hsame] at hdeleted
      exact sound_emitted ⟨hdeleted, hR _ (by simp)⟩

theorem steady_completeFallback (t : PyStr.Unicode) {method : String} {recoveryKey : Option String}
    (hR : ∀ method available h', .verified (deviceKey deviceId) ∈ h' → R (.verified method available) h') :
    (completeFallback t id deviceId method recoveryKey).Steady (LoginInv backup) (Kept backup) R h := by
  have hlast : ∀ lowered h', .verified (deviceKey deviceId) ∈ h' →
      (loaded >>= fun i => pure (.verified lowered (hasRecoveryBackup i.1)) :
        LoginProg LoginAnswer).Steady (LoginInv backup) (Kept backup) R h' := fun lowered h' hin =>
    steady_loaded fun h'' d' m _ hh hI => ⟨hI.mono (le_succ m), hR _ _ _ (hh.subset hin)⟩
  have hrest : ∀ lowered h', (loaded >>= fun i =>
      markVerified (deviceKey deviceId) i.1 i.2.2.now >>= fun _ =>
        if (recoveryKey.bind fun key => cleanStr key 512).isSome then
          loaded >>= fun i => saveRecoveryBackup id i.1 i.2.2 >>= fun _ =>
            loaded >>= fun i => pure (.verified lowered (hasRecoveryBackup i.1))
        else
          loaded >>= fun i => pure (.verified lowered (hasRecoveryBackup i.1)) :
      LoginProg LoginAnswer).Steady (LoginInv backup) (Kept backup) R h' := by
    intro lowered h'
    refine steady_loaded fun h₁ data m input _ hI => ?_
    have hnext := hI.mono (le_succ m)
    refine sound_markVerified hnext.toKept (hnext.pop _) fun h₂ hh₂ => ?_
    have hin := hh₂.subset (List.mem_append_right h₁ List.mem_cons_self)
    split
    · refine steady_loaded fun h₃ data' m' input' hh₃ hI' => ?_
      refine sound_saveRecoveryBackup (hI'.mono (le_succ m')) fun _ h₄ hh₄ => hlast lowered h₄ ?_
      exact ((List.prefix_append h₃ _).trans hh₄).subset (hh₃.subset hin)
    · exact hlast lowered h₂ hin
  unfold completeFallback
  dsimp only
  split
  · trivial
  refine steady_awaited fun h₁ _ _ _ => ?_
  split
  · exact steady_awaited fun h₂ _ _ _ => hrest (t.lower (PyStr.strip method)) h₂
  · exact hrest (t.lower (PyStr.strip method)) h₁

end Calls

/-! ## §4 Runs -/

section Runs

variable {hash : String → String} {u : PyInt.Digits} {t : PyStr.Unicode}

theorem steady_login (id : ℕ) (call : LoginCall) (h : List LoginEvent) :
    (login hash u t id call).Steady (LoginInv backup) (Kept backup) (Returned id call) h := by
  cases call with
  | getStatus deviceId ip =>
    refine steady_getStatus fun verified address available h' hor => ?_
    rcases hor with hin | rfl
    · cases verified with
      | true => exact hin
      | false => trivial
    · trivial
  | sendCodeViaEmail deviceId email ip userAgent => exact steady_sendCodeViaEmail hash fun _ _ => trivial
  | verifyCode deviceId code => exact steady_verifyCode hash u fun _ _ hin => hin
  | storeRecoveryKey deviceId recoveryKey => exact steady_storeRecoveryKey fun stored _ hin => ⟨stored, hin⟩
  | deleteRecoveryKey deviceId => exact steady_deleteRecoveryKey fun _ hin => hin
  | completeFallback deviceId method recoveryKey => exact steady_completeFallback t fun _ _ _ hin => hin

theorem Returned.mono {id : ℕ} {call : LoginCall} {answer : LoginAnswer} {h h' : List LoginEvent}
    (hreturned : Returned id call answer h) (hh : h <+: h') : Returned id call answer h' := by
  unfold Returned at hreturned ⊢
  split
  · exact hh.subset hreturned
  · exact hh.subset hreturned
  · exact hreturned.imp fun _ hin => hh.subset hin
  · exact hh.subset hreturned
  · trivial

/-- The value, the events and the calls of one user. -/
abbrev LoginWorld := World LoginData LoginInput LoginEvent Error LoginCall LoginAnswer

theorem login_keeps {data : LoginData} (hnone : data.challenges = ∅) {w : LoginWorld}
    (h : World.Reached (login hash u t) World.LoadsAlone data w) :
    w.Keeps (LoginInv data.recoveryBackup) (Kept data.recoveryBackup) Returned := by
  have hinit : LoginInv data.recoveryBackup [] data 0 := by
    refine ⟨⟨⟨by simp, by simp⟩, by simp, rfl⟩, by simp, fun device challenge hget => ?_⟩
    rw [hnone] at hget
    cases hget
  exact World.Reached.keeps (R := Returned) (fun _ _ _ _ hI hn => hI.mono hn) (fun _ _ _ _ _ => Returned.mono)
    (fun id call => (@steady_login none hash u t id call []).not_maySave)
    steady_login hinit h

/-- Nobody is verified, and there is a recovery backup. -/
def withBackup : LoginData := ⟨∅, ∅, some ⟨1, "bm9uY2U=", "Y2lwaGVydGV4dA==", 0⟩⟩

/-- What each call finds out: a minute has passed, `000000` is drawn, mails and notices are sent. -/
def minute : LoginInput := ⟨60000, 0, some ("bm9uY2U=", "Y2lwaGVydGV4dA=="), some "user@example.com", none, true⟩

/-- The steps of a world whose codes are stored behind a mark. -/
def loginStep (w : LoginWorld) (m : Move LoginInput LoginCall) : Option LoginWorld :=
  World.stepIf (login (fun code => "sha256:" ++ code) .ascii .ascii) (fun _ _ => true) w m

/-- The same, when every other call has ended. -/
def loginStepAlone (w : LoginWorld) (m : Move LoginInput LoginCall) : Option LoginWorld :=
  World.stepIf (login (fun code => "sha256:" ++ code) .ascii .ascii) World.alone w m

/-! ## §5 Codes -/

/-- **Login codes resist guessing** in every run in which no call loads the data while another one may still
save the copy it has loaded. -/
theorem login_codes_resist {data : LoginData} (hnone : data.challenges = ∅) {w : LoginWorld}
    (h : World.Reached (login hash u t) World.LoadsAlone data w) : Resists w.history :=
  ((login_keeps hnone h).always fun _ _ _ hI => hI.toKept).resists

/-- A code is requested, sent, and then verified. -/
def codeVerified : List (Move LoginInput LoginCall) :=
  .start (.sendCodeViaEmail "PHONE" (some "user@example.com") none none) ::
    (List.replicate 11 (.resume 0 minute) ++ [.start (.verifyCode "PHONE" "000000"), .resume 1 minute])

theorem login_codes_resist_example : ∃ w : LoginWorld, World.Reached
    (login (fun code => "sha256:" ++ code) .ascii .ascii) World.LoadsAlone withBackup w ∧
    .accepted "PHONE" 6 60000 ∈ w.history ∧ Resists w.history := by
  obtain ⟨w, hw⟩ := Option.isSome_iff_exists.mp
    (show (codeVerified.foldlM loginStepAlone (World.idle withBackup)).isSome from by decide +kernel)
  have hhistory : (codeVerified.foldlM loginStepAlone (World.idle withBackup)).map World.history =
      some [.stored "PHONE" 0 960000, .stored "PHONE" 6 960000, .compared "PHONE" 6,
        .accepted "PHONE" 6 60000] := by decide +kernel
  rw [hw] at hhistory
  have hreached := World.reached_of_run (fun _ _ => World.loadsAlone_of_alone) hw
  refine ⟨w, hreached, ?_, login_codes_resist rfl hreached⟩
  rw [Option.some.inj hhistory]
  decide

/-- A code is requested and stored, the notice is on its way; the code is verified to the end; the first call
goes on and saves its copy of the challenge; the code is verified once more. -/
def acceptedTwice : List (Move LoginInput LoginCall) :=
  [.start (.sendCodeViaEmail "PHONE" (some "user@example.com") none none), .resume 0 minute, .resume 0 minute,
    .start (.verifyCode "PHONE" "000000"), .resume 1 minute, .resume 1 minute, .resume 1 minute,
    .resume 1 minute, .resume 0 minute, .resume 0 minute, .resume 0 minute, .resume 0 minute,
    .start (.verifyCode "PHONE" "000000"), .resume 2 minute]

/-- **A code that was accepted is accepted again**, after a late save has put it back. -/
theorem code_accepted_twice :
    ¬ ∀ w : LoginWorld, World.Reached (login (fun code => "sha256:" ++ code) .ascii .ascii)
      (fun _ _ => True) withBackup w → Resists w.history := by
  intro hall
  obtain ⟨w, hw⟩ := Option.isSome_iff_exists.mp
    (show (acceptedTwice.foldlM loginStep (World.idle withBackup)).isSome from by decide +kernel)
  have hhistory : (acceptedTwice.foldlM loginStep (World.idle withBackup)).map World.history =
      some [.stored "PHONE" 0 960000, .compared "PHONE" 0, .accepted "PHONE" 0 60000, .verified "PHONE",
        .compared "PHONE" 0, .accepted "PHONE" 0 60000] := by decide +kernel
  rw [hw] at hhistory
  have hres := hall w (World.reached_of_run (fun _ _ _ => trivial) hw)
  rw [Option.some.inj hhistory] at hres
  -- the second acceptance finds the first one before it
  obtain ⟨expiresAt, -, hforce⟩ :=
    hres.2 [.stored "PHONE" 0 960000, .compared "PHONE" 0, .accepted "PHONE" 0 60000, .verified "PHONE",
      .compared "PHONE" 0] "PHONE" 0 60000 [] rfl
  exact hforce.not_accepted 60000 (by decide)

/-! ## §6 Devices and the recovery key -/

/-- The call says that its device is verified. -/
def LoginAnswer.SaysVerified : LoginAnswer → Prop
  | .status isVerified _ _ => isVerified = true
  | .verified _ _ => True
  | _ => False

/-- What calls have said is stored, until another call stores or deletes a recovery key. -/
structure Durable (w : LoginWorld) : Prop where
  verified : ∀ id call answer, w.calls.get? id = some (call, .ret answer) → answer.SaysVerified →
    deviceKey call.deviceId ∈ w.data.verifiedDevices.keys
  stored : ∀ id call, w.calls.get? id = some (call, .ret .stored) → ∃ stored, .recovery id (some stored) ∈ w.history
  deleted : ∀ id call, w.calls.get? id = some (call, .ret .deleted) → .recovery id none ∈ w.history
  recovery : ∀ id call answer, w.calls.get? id = some (call, .ret answer) → ∀ before backup after,
    w.history = before ++ .recovery id backup :: after → (∀ id' backup', .recovery id' backup' ∉ after) →
    w.data.recoveryBackup = backup

theorem recoveryAfter_of_last {before after : List LoginEvent} {id : ℕ} {stored : Option RecoveryBackup}
    (hlast : ∀ id' stored', .recovery id' stored' ∉ after) :
    recoveryAfter backup (before ++ .recovery id stored :: after) = stored := by
  have hkept : ∀ b, recoveryAfter b after = b := by
    induction after with
    | nil => exact fun _ => rfl
    | cons e after ih =>
      intro b
      have hrest := ih (fun id' stored' hin => hlast id' stored' (List.mem_cons_of_mem e hin)) b
      cases e with
      | recovery id' stored' => exact absurd List.mem_cons_self (hlast id' stored')
      | _ => exact hrest
  rw [recoveryAfter, List.foldl_append]
  exact hkept stored

/-- **Login state is durable** in every run in which no call loads the data while another one may still save
the copy it has loaded. -/
theorem login_state_durable {data : LoginData} (hnone : data.challenges = ∅) {w : LoginWorld}
    (h : World.Reached (login hash u t) World.LoadsAlone data w) : Durable w := by
  have hkeeps := login_keeps hnone h
  have hkept := hkeeps.always fun _ _ _ hI => hI.toKept
  refine ⟨fun id call answer hcall hsays => ?_, fun id call hcall => hkeeps.returned hcall,
    fun id call hcall => hkeeps.returned hcall, fun id call answer _ before stored after heq hlast => ?_⟩
  · have hreturned := hkeeps.returned hcall
    cases answer with
    | status isVerified address available =>
      cases hsays
      exact hkept.verified _ hreturned
    | verified method available => exact hkept.verified _ hreturned
    | _ => exact hsays.elim
  · rw [hkept.recovery, heq]
    exact recoveryAfter_of_last hlast

/-- The call has said that the recovery key is deleted. -/
def hasDeleted (call : LoginCall × LoginProg LoginAnswer) : Bool :=
  match call.2 with
  | .ret .deleted => true
  | _ => false

theorem eq_of_hasDeleted {call : LoginCall} {p : LoginProg LoginAnswer} (h : hasDeleted (call, p) = true) :
    p = .ret .deleted := by
  unfold hasDeleted at h
  split at h
  · assumption
  · cases h

/-- A code is requested and stored; the recovery key is deleted to the end; the first call goes on and saves
its copy of the data. -/
def deletedInVain : List (Move LoginInput LoginCall) :=
  [.start (.sendCodeViaEmail "PHONE" (some "user@example.com") none none), .resume 0 minute, .resume 0 minute,
    .start (.deleteRecoveryKey "PHONE"), .resume 1 minute, .resume 1 minute, .resume 1 minute,
    .resume 0 minute, .resume 0 minute, .resume 0 minute, .resume 0 minute]

/-- **A deleted recovery key is there again**, after a late save has put it back. -/
theorem deleted_key_restored :
    ¬ ∀ w : LoginWorld, World.Reached (login (fun code => "sha256:" ++ code) .ascii .ascii)
      (fun _ _ => True) withBackup w → Durable w := by
  intro hall
  obtain ⟨w, hw⟩ := Option.isSome_iff_exists.mp
    (show (deletedInVain.foldlM loginStep (World.idle withBackup)).isSome from by decide +kernel)
  have hend : (deletedInVain.foldlM loginStep (World.idle withBackup)).map (fun w =>
      (w.history, w.data.recoveryBackup, (w.calls.get? 1).map hasDeleted)) =
      some ([.stored "PHONE" 0 960000, .recovery 1 none], withBackup.recoveryBackup, some true) := by
    decide +kernel
  rw [hw] at hend
  simp only [Option.map_some, Option.some.injEq, Prod.mk.injEq] at hend
  obtain ⟨hhistory, hbackup, hcall⟩ := hend
  obtain ⟨⟨call, p⟩, hcall, hdeleted⟩ := Option.map_eq_some_iff.mp hcall
  have hret := eq_of_hasDeleted hdeleted
  subst hret
  have hdurable := hall w (World.reached_of_run (fun _ _ _ => trivial) hw)
  have hnone := hdurable.recovery 1 call .deleted hcall [.stored "PHONE" 0 960000] none [] hhistory (by simp)
  rw [hbackup] at hnone
  cases hnone

/-- A recovery key is stored, and then deleted. -/
def keyDeleted : List (Move LoginInput LoginCall) :=
  [.start (.storeRecoveryKey "PHONE" "EsTc"), .resume 0 minute, .resume 0 minute,
    .start (.deleteRecoveryKey "PHONE"), .resume 1 minute, .resume 1 minute, .resume 1 minute]

theorem login_state_durable_example : ∃ w : LoginWorld, World.Reached
    (login (fun code => "sha256:" ++ code) .ascii .ascii) World.LoadsAlone withBackup w ∧
    (∃ call, w.calls.get? 1 = some (call, .ret .deleted)) ∧ Durable w := by
  obtain ⟨w, hw⟩ := Option.isSome_iff_exists.mp
    (show (keyDeleted.foldlM loginStepAlone (World.idle withBackup)).isSome from by decide +kernel)
  have hcall : (keyDeleted.foldlM loginStepAlone (World.idle withBackup)).map (fun w =>
      (w.calls.get? 1).map hasDeleted) = some (some true) := by decide +kernel
  rw [hw] at hcall
  obtain ⟨⟨call, p⟩, hcall, hdeleted⟩ := Option.map_eq_some_iff.mp (Option.some.inj hcall)
  have hret := eq_of_hasDeleted hdeleted
  subst hret
  have hreached := World.reached_of_run (fun _ _ => World.loadsAlone_of_alone) hw
  exact ⟨w, hreached, ⟨call, hcall⟩, login_state_durable rfl hreached⟩

end Runs

end Setka.Handlers.SetkaLogin
