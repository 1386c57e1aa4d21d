/-
# Setka.Lib.SharedCell — calls that load and save one shared value.

Calls run next to each other. A call is a program whose accesses to the one shared value are loads and saves
of the whole value; it also awaits other things. Each access is atomic together with the code that follows it,
and between two accesses other calls may run. On the way a call records events. It may write back what it has
loaded long ago: until it will not any more, it is *open*. **If no call loads while another one is open, then
what each call keeps to by itself holds of the value and of the events throughout.**
-/
import Setka.Lib.Dict
import Setka.Lib.Transition

namespace Setka.Lib

open Dict

/-- A program on a shared value of type `δ` with events `ε`. Whenever it goes on it is told the number of the
step, which no other step has, and an input `ι`. -/
inductive CellProg (δ ι ε χ α : Type)
  | ret (a : α)
  | raise (x : χ)
  | load (next : δ → ℕ × ι → CellProg δ ι ε χ α)
  | save (d : δ) (next : ℕ × ι → CellProg δ ι ε χ α)
  | await (next : ℕ × ι → CellProg δ ι ε χ α)
  | emit (e : ε) (next : CellProg δ ι ε χ α)

namespace CellProg

variable {δ ι ε χ α β : Type}

/-- Run `p`, then `f` on its value. -/
def andThen (f : α → CellProg δ ι ε χ β) : CellProg δ ι ε χ α → CellProg δ ι ε χ β
  | ret a => f a
  | raise x => raise x
  | load next => load fun d i => andThen f (next d i)
  | save d next => save d fun i => andThen f (next i)
  | await next => await fun i => andThen f (next i)
  | emit e next => emit e (andThen f next)

instance : Monad (CellProg δ ι ε χ) where
  pure := ret
  bind p f := andThen f p

instance : LawfulMonad (CellProg δ ι ε χ) :=
  LawfulMonad.mk' _ (by
      intro α p
      show andThen ret p = p
      induction p with
      | load next ih => exact congrArg load (funext fun d => funext fun i => ih d i)
      | save d next ih => exact congrArg (save d) (funext ih)
      | await next ih => exact congrArg await (funext ih)
      | emit e next ih => exact congrArg (emit e) ih
      | _ => rfl)
    (fun _ _ => rfl)
    (by
      intro α β γ p f g
      show andThen g (andThen f p) = andThen (fun a => andThen g (f a)) p
      induction p with
      | load next ih => exact congrArg load (funext fun d => funext fun i => ih d i)
      | save d next ih => exact congrArg (save d) (funext ih)
      | await next ih => exact congrArg await (funext ih)
      | emit e next ih => exact congrArg (emit e) ih
      | _ => rfl)

/-- The value, and what the program is told when it goes on. -/
def loaded : CellProg δ ι ε χ (δ × ℕ × ι) := load fun d i => ret (d, i)

def saved (d : δ) : CellProg δ ι ε χ (ℕ × ι) := save d ret

def awaited : CellProg δ ι ε χ (ℕ × ι) := await ret

def emitted (e : ε) : CellProg δ ι ε χ Unit := emit e (ret ())

/-! ## §1 The code up to the next access -/

/-- The events of the code up to the next access, and the program from there. -/
def settle : CellProg δ ι ε χ α → List ε × CellProg δ ι ε χ α
  | emit e next => (e :: (settle next).1, (settle next).2)
  | p => ([], p)

/-- The program may save before it loads again. -/
def MaySave : CellProg δ ι ε χ α → Prop
  | ret _ => False
  | raise _ => False
  | load _ => False
  | save _ _ => True
  | await next => ∃ i, MaySave (next i)
  | emit _ next => MaySave next

/-- The program has ended. -/
def ended : CellProg δ ι ε χ α → Bool
  | ret _ => true
  | raise _ => true
  | _ => false

theorem not_maySave_of_ended {p : CellProg δ ι ε χ α} (h : p.ended = true) : ¬ p.MaySave := by
  cases p with
  | ret a => exact fun hs => hs
  | raise x => exact fun hs => hs
  | _ => cases h

/-! ## §2 Calls next to each other -/

/-- The value, the calls with what is left of them, the number of steps and the events so far. -/
structure World (δ ι ε χ κ α : Type) where
  data : δ
  calls : Dict ℕ (κ × CellProg δ ι ε χ α)
  nextCall : ℕ
  steps : ℕ
  history : List ε

/-- A new call, or a call that goes on. -/
inductive Move (ι κ : Type)
  | start (call : κ)
  | resume (id : ℕ) (input : ι)

namespace World

variable {κ : Type} (prog : ℕ → κ → CellProg δ ι ε χ α)

/-- The call is at `p`, and runs up to its next access. -/
def goOn (w : World δ ι ε χ κ α) (id : ℕ) (call : κ) (p : CellProg δ ι ε χ α) (data : δ) : World δ ι ε χ κ α where
  data := data
  calls := w.calls.set id (call, p.settle.2)
  nextCall := w.nextCall
  steps := w.steps + 1
  history := w.history ++ p.settle.1

/-- One step: nothing happens where the call has ended. -/
def step (w : World δ ι ε χ κ α) : Move ι κ → Option (World δ ι ε χ κ α)
  | .start call =>
    some { w with
      calls := w.calls.set w.nextCall (call, prog w.nextCall call)
      nextCall := w.nextCall + 1 }
  | .resume id input =>
    match w.calls.get? id with
    | some (call, .load next) => some (w.goOn id call (next w.data (w.steps, input)) w.data)
    | some (call, .save d next) => some (w.goOn id call (next (w.steps, input)) d)
    | some (call, .await next) => some (w.goOn id call (next (w.steps, input)) w.data)
    | _ => none

/-- Nothing has begun. -/
def Init (data : δ) (w : World δ ι ε χ κ α) : Prop :=
  w.data = data ∧ w.calls = ∅ ∧ w.nextCall = 0 ∧ w.steps = 0 ∧ w.history = []

/-- No call loads while another one may still save what it has. -/
def LoadsAlone (w : World δ ι ε χ κ α) : Move ι κ → Prop
  | .start _ => True
  | .resume id _ => ∀ call next, w.calls.get? id = some (call, .load next) →
      ∀ id' call' p, w.calls.get? id' = some (call', p) → id' ≠ id → ¬ p.MaySave

/-- The worlds that runs from the value reach in which each step is as `P` asks. -/
def Reached (P : World δ ι ε χ κ α → Move ι κ → Prop) (data : δ) : World δ ι ε χ κ α → Prop :=
  Reachable (Init data) fun w w' => ∃ m, P w m ∧ w.step prog m = some w'

end World

namespace World

variable {κ : Type} (prog : ℕ → κ → CellProg δ ι ε χ α)

/-- The world in which nothing has begun. -/
def idle (data : δ) : World δ ι ε χ κ α := ⟨data, ∅, 0, 0, []⟩

/-- A step that is as `p` says. -/
def stepIf (p : World δ ι ε χ κ α → Move ι κ → Bool) (w : World δ ι ε χ κ α) (m : Move ι κ) :
    Option (World δ ι ε χ κ α) :=
  if p w m then w.step prog m else none

variable {prog}

theorem reached_of_run {p : World δ ι ε χ κ α → Move ι κ → Bool} {P : World δ ι ε χ κ α → Move ι κ → Prop}
    (hp : ∀ w m, p w m = true → P w m) {data : δ} {moves : List (Move ι κ)} {w : World δ ι ε χ κ α}
    (h : moves.foldlM (stepIf prog p) (idle data) = some w) : Reached prog P data w := by
  refine Reachable.of_foldlM (fun w m w' hstep => ?_) (.start ⟨rfl, rfl, rfl, rfl, rfl⟩) h
  unfold stepIf at hstep
  split at hstep
  · next hcond => exact ⟨m, hp w m hcond, hstep⟩
  · cases hstep

/-- Every other call has ended. -/
def alone (w : World δ ι ε χ κ α) : Move ι κ → Bool
  | .start _ => true
  | .resume id _ => w.calls.items.all fun call => call.1 = id || call.2.2.ended

theorem loadsAlone_of_alone {w : World δ ι ε χ κ α} {m : Move ι κ} (h : w.alone m = true) : w.LoadsAlone m := by
  cases m with
  | start call => trivial
  | resume id input =>
    intro call next _ id' call' p hcall' hne
    have hitem := List.all_eq_true.mp h (id', call', p) (get?_eq_some_iff.mp hcall')
    simp only [hne, decide_false, Bool.false_or] at hitem
    exact not_maySave_of_ended hitem

end World

/-! ## §3 What a call keeps to by itself -/

section Sound

variable (I : List ε → δ → ℕ → Prop) (J : List ε → δ → Prop) (R : α → List ε → Prop)

mutual

/-- The program, which is not open, keeps to `I` from any later point on. -/
def Steady : CellProg δ ι ε χ α → List ε → Prop
  | ret a, h => R a h
  | raise _, _ => True
  | load next, h => ∀ h' d n i, h <+: h' → I h' d n → Sound (next d (n, i)) h' d (n + 1)
  | save _ _, _ => False
  | await next, h => ∀ h' n i, h <+: h' → Steady (next (n, i)) h'
  | emit _ _, _ => False

/-- The program keeps to `I` when it goes on from here and, while it is open, no other call saves. Until it
has put things right there is `J`. -/
def Sound : CellProg δ ι ε χ α → List ε → δ → ℕ → Prop
  | ret a, h, d, n => I h d n ∧ R a h
  | raise _, h, d, n => I h d n
  | load next, h, d, n => I h d n ∧
      ∀ h' d' n' i, h <+: h' → I h' d' n' → Sound (next d' (n', i)) h' d' (n' + 1)
  | save d' next, h, d, n => J h d ∧ ∀ n' i, n ≤ n' → Sound (next (n', i)) h d' (n' + 1)
  | await next, h, d, n =>
    ((∃ i, (next i).MaySave) → J h d ∧ ∀ n' i, n ≤ n' → Sound (next (n', i)) h d (n' + 1)) ∧
    ((¬ ∃ i, (next i).MaySave) → I h d n ∧ ∀ h' n' i, h <+: h' → Steady (next (n', i)) h')
  | emit e next, h, d, n => Sound next (h ++ [e]) d n

end

variable {I : List ε → δ → ℕ → Prop} {J : List ε → δ → Prop} {R : α → List ε → Prop}

variable {p : CellProg δ ι ε χ α} {h : List ε}

theorem Steady.mono (hR : ∀ a h h', R a h → h <+: h' → R a h') {h' : List ε} (hp : p.Steady I J R h)
    (hh : h <+: h') : p.Steady I J R h' := by
  cases p with
  | ret a => exact hR a h h' hp hh
  | raise x => trivial
  | load next => exact fun h'' d n i hh' => hp h'' d n i (hh.trans hh')
  | save d next => exact hp.elim
  | await next => exact fun h'' n i hh' => hp h'' n i (hh.trans hh')
  | emit e next => exact hp.elim

variable {d : δ} {n : ℕ}

theorem Sound.mono (hI : ∀ h d n n', I h d n → n ≤ n' → I h d n') {n' : ℕ} (hp : p.Sound I J R h d n)
    (hn : n ≤ n') : p.Sound I J R h d n' := by
  induction p generalizing h with
  | ret a => exact ⟨hI h d n n' hp.1 hn, hp.2⟩
  | raise x => exact hI h d n n' hp hn
  | load next _ => exact ⟨hI h d n n' hp.1 hn, hp.2⟩
  | save d' next _ => exact ⟨hp.1, fun m i hm => hp.2 m i (by omega)⟩
  | await next _ =>
    refine ⟨fun hopen => ⟨(hp.1 hopen).1, fun m i hm => (hp.1 hopen).2 m i (by omega)⟩, fun hopen => ?_⟩
    exact ⟨hI h d n n' (hp.2 hopen).1 hn, (hp.2 hopen).2⟩
  | emit e next ih => exact ih hp

theorem Steady.not_maySave (hp : p.Steady I J R h) : ¬ p.MaySave := by
  induction p with
  | await next ih => exact fun ⟨i, hi⟩ => ih i (hp h i.1 i.2 (List.prefix_refl _)) hi
  | save d next _ => exact hp.elim
  | emit e next _ => exact hp.elim
  | _ => exact fun hs => hs

/-- What is steady may go on where `I` holds. -/
theorem Steady.sound (hp : p.Steady I J R h) (hI : I h d n) : p.Sound I J R h d n := by
  cases p with
  | ret a => exact ⟨hI, hp⟩
  | raise x => exact hI
  | load next => exact ⟨hI, hp⟩
  | save d next => exact hp.elim
  | await next => exact ⟨fun hopen => absurd hopen hp.not_maySave, fun _ => ⟨hI, hp⟩⟩
  | emit e next => exact hp.elim

/-! The rules for a program that begins with one of the accesses. -/

variable {k : ℕ × ι → CellProg δ ι ε χ α}

theorem sound_saved {d' : δ} (hJ : J h d) (hk : ∀ n' i, n ≤ n' → (k (n', i)).Sound I J R h d' (n' + 1)) :
    (saved d' >>= k).Sound I J R h d n :=
  ⟨hJ, hk⟩

theorem sound_emitted {k : Unit → CellProg δ ι ε χ α} {e : ε}
    (hk : (k ()).Sound I J R (h ++ [e]) d n) : (emitted e >>= k).Sound I J R h d n :=
  hk

/-- A save is still to come after the await. -/
theorem sound_awaited (hJ : J h d) (hopen : ∃ i, (k i).MaySave)
    (hk : ∀ n' i, n ≤ n' → (k (n', i)).Sound I J R h d (n' + 1)) : (awaited >>= k).Sound I J R h d n :=
  ⟨fun _ => ⟨hJ, hk⟩, fun hclosed => absurd hopen hclosed⟩

theorem steady_awaited (hk : ∀ h' n i, h <+: h' → (k (n, i)).Steady I J R h') : (awaited >>= k).Steady I J R h :=
  hk

theorem steady_loaded {k : δ × ℕ × ι → CellProg δ ι ε χ α}
    (hk : ∀ h' d n i, h <+: h' → I h' d n → (k (d, n, i)).Sound I J R h' d (n + 1)) :
    (loaded >>= k).Steady I J R h :=
  hk

theorem sound_settle (hp : p.Sound I J R h d n) : p.settle.2.Sound I J R (h ++ p.settle.1) d n := by
  induction p generalizing h with
  | emit e next ih =>
    have hnext := ih (h := h ++ [e]) hp
    rw [List.append_assoc] at hnext
    exact hnext
  | _ => simpa [settle] using hp

theorem settle_settle (p : CellProg δ ι ε χ α) : p.settle.2.settle = ([], p.settle.2) := by
  induction p with
  | emit e next ih => exact ih
  | _ => rfl

theorem settle_of_steady (hp : p.Steady I J R h) : p.settle = ([], p) := by
  cases p with
  | emit e next => exact hp.elim
  | _ => rfl

/-- A program that is not open any more has put things right. -/
theorem steady_of_sound (hsettled : p.settle = ([], p)) (hclosed : ¬ p.MaySave)
    (hp : p.Sound I J R h d n) : I h d n ∧ p.Steady I J R h := by
  cases p with
  | ret a => exact hp
  | raise x => exact ⟨hp, trivial⟩
  | load next => exact hp
  | save d' next => exact absurd trivial hclosed
  | await next => exact hp.2 hclosed
  | emit e next => exact absurd hsettled (by simp [settle])

end Sound

/-! ## §4 Runs in which calls load alone -/

namespace World

variable {κ : Type} (I : List ε → δ → ℕ → Prop) (J : List ε → δ → Prop) (R : ℕ → κ → α → List ε → Prop)

/-- At most one call is open, and it keeps to `I` from here; the others do so from any later point; and when
none is open, `I` holds. -/
structure Keeps (w : World δ ι ε χ κ α) : Prop where
  fresh : ∀ id, w.nextCall ≤ id → w.calls.get? id = none
  settled : ∀ id call p, w.calls.get? id = some (call, p) → p.settle = ([], p)
  one : ∀ id id' call call' p p', w.calls.get? id = some (call, p) →
    w.calls.get? id' = some (call', p') → p.MaySave → p'.MaySave → id = id'
  steady : ∀ id call p, w.calls.get? id = some (call, p) → ¬ p.MaySave → p.Steady I J (R id call) w.history
  sound : ∀ id call p, w.calls.get? id = some (call, p) → p.MaySave →
    p.Sound I J (R id call) w.history w.data w.steps
  idle : (∀ id call p, w.calls.get? id = some (call, p) → ¬ p.MaySave) → I w.history w.data w.steps

variable {I J R} (hI : ∀ h d n n', I h d n → n ≤ n' → I h d n')
  (hR : ∀ id call a h h', R id call a h → h <+: h' → R id call a h')

variable {w : World δ ι ε χ κ α} {id : ℕ} {call : κ} {p : CellProg δ ι ε χ α} {data : δ}

include hR in
/-- A call goes on with a sound program, and no other one is open. -/
theorem Keeps.goOn (h : w.Keeps I J R) {p₀ : CellProg δ ι ε χ α} (hcall : w.calls.get? id = some (call, p₀))
    (hp : p.Sound I J (R id call) w.history data (w.steps + 1))
    (halone : ∀ id' call' p', w.calls.get? id' = some (call', p') → id' ≠ id → ¬ p'.MaySave) :
    (w.goOn id call p data).Keeps I J R := by
  have hget : ∀ id', (w.goOn id call p data).calls.get? id' =
      if id' = id then some (call, p.settle.2) else w.calls.get? id' := fun id' => get?_set ..
  have hbegins : w.history <+: (w.goOn id call p data).history := List.prefix_append ..
  have hsettle := sound_settle hp
  refine ⟨fun id' hid' => ?_, fun id' call' p' hp' => ?_, fun a b ca cb pa pb ha hb hsa hsb => ?_,
    fun id' call' p' hp' hclosed => ?_, fun id' call' p' hp' hopen => ?_, fun hclosed => ?_⟩
  · rw [hget, if_neg]
    · exact h.fresh id' hid'
    · rintro rfl
      rw [h.fresh id' hid'] at hcall
      cases hcall
  · rw [hget] at hp'
    split at hp'
    · cases hp'
      exact settle_settle p
    · exact h.settled id' call' p' hp'
  · -- only the call that goes on may be open
    have honly : ∀ c cc pc, (w.goOn id call p data).calls.get? c = some (cc, pc) → pc.MaySave → c = id := by
      intro c cc pc hc hs
      by_contra hne
      rw [hget, if_neg hne] at hc
      exact halone c cc pc hc hne hs
    rw [honly a ca pa ha hsa, honly b cb pb hb hsb]
  · rw [hget] at hp'
    split at hp'
    · next heq =>
        cases hp'
        subst heq
        exact (steady_of_sound (settle_settle p) hclosed hsettle).2
    · exact (h.steady id' call' p' hp' hclosed).mono (hR id' call') hbegins
  · rw [hget] at hp'
    split at hp'
    · next heq =>
        cases hp'
        subst heq
        exact hsettle
    · next hne => exact absurd hopen (halone id' call' p' hp' hne)
  · have hmine := hclosed id call p.settle.2 (by rw [hget, if_pos rfl])
    exact (steady_of_sound (settle_settle p) hmine hsettle).1

variable {prog : ℕ → κ → CellProg δ ι ε χ α}

theorem keeps_init (hdata : I [] data 0) (hw : w.Init data) : w.Keeps I J R := by
  obtain ⟨hd, hcalls, -, hsteps, hhistory⟩ := hw
  have hnone : ∀ id, w.calls.get? id = none := fun id => by rw [hcalls]; rfl
  refine ⟨fun id _ => hnone id, ?_, ?_, ?_, ?_, fun _ => ?_⟩
  · simp [hnone]
  · simp [hnone]
  · simp [hnone]
  · simp [hnone]
  · rw [hd, hsteps, hhistory]
    exact hdata

/-- A new call has loaded nothing yet. -/
theorem Keeps.start (h : w.Keeps I J R) (hclosed : ¬ p.MaySave)
    (hsteady : p.Steady I J (R w.nextCall call) w.history) : ({ w with
      calls := w.calls.set w.nextCall (call, p)
      nextCall := w.nextCall + 1 } : World δ ι ε χ κ α).Keeps I J R := by
  have hback : ∀ id call' p', (w.calls.set w.nextCall (call, p)).get? id = some (call', p') →
      id = w.nextCall ∧ call' = call ∧ p' = p ∨ w.calls.get? id = some (call', p') := by
    intro id call' p' hp'
    rw [get?_set] at hp'
    split at hp'
    · next heq =>
        cases hp'
        exact Or.inl ⟨heq, rfl, rfl⟩
    · exact Or.inr hp'
  have hopen : ∀ id call' p', (w.calls.set w.nextCall (call, p)).get? id = some (call', p') →
      p'.MaySave → w.calls.get? id = some (call', p') := by
    intro id call' p' hp' hs
    rcases hback id call' p' hp' with ⟨-, -, rfl⟩ | hold
    · exact absurd hs hclosed
    · exact hold
  refine ⟨fun id hid => ?_, fun id call' p' hp' => ?_, fun a b ca cb pa pb ha hb hsa hsb => ?_,
    fun id call' p' hp' hs => ?_, fun id call' p' hp' hs => ?_, fun hall => ?_⟩
  · have hid : w.nextCall + 1 ≤ id := hid
    rw [get?_set, if_neg (by omega)]
    exact h.fresh id (by omega)
  · rcases hback id call' p' hp' with ⟨-, -, rfl⟩ | hold
    · exact settle_of_steady hsteady
    · exact h.settled id call' p' hold
  · exact h.one a b ca cb pa pb (hopen a ca pa ha hsa) (hopen b cb pb hb hsb) hsa hsb
  · rcases hback id call' p' hp' with ⟨rfl, rfl, rfl⟩ | hold
    · exact hsteady
    · exact h.steady id call' p' hold hs
  · exact h.sound id call' p' (hopen id call' p' hp' hs) hs
  · refine h.idle fun id call' p' hp' => hall id call' p' ?_
    rw [get?_set, if_neg]
    · exact hp'
    rintro rfl
    rw [h.fresh _ le_rfl] at hp'
    cases hp'

include hI in
/-- A call that is not open goes on without a load. -/
theorem Keeps.goOnQuietly (h : w.Keeps I J R) {p₀ : CellProg δ ι ε χ α}
    (hcall : w.calls.get? id = some (call, p₀)) (hclosed₀ : ¬ p₀.MaySave) (hclosed : ¬ p.MaySave)
    (hp : p.Steady I J (R id call) w.history) : (w.goOn id call p w.data).Keeps I J R := by
  have hsettle := settle_of_steady hp
  have hget : ∀ id', (w.goOn id call p w.data).calls.get? id' =
      if id' = id then some (call, p) else w.calls.get? id' := by
    intro id'
    rw [World.goOn, hsettle]
    exact get?_set ..
  have hhistory : (w.goOn id call p w.data).history = w.history := by
    rw [World.goOn, hsettle, List.append_nil]
  have hopen : ∀ id' call' p', (w.goOn id call p w.data).calls.get? id' = some (call', p') →
      p'.MaySave → w.calls.get? id' = some (call', p') := by
    intro id' call' p' hp' hs
    rw [hget] at hp'
    split at hp'
    · cases hp'
      exact absurd hs hclosed
    · exact hp'
  refine ⟨fun id' hid' => ?_, fun id' call' p' hp' => ?_, fun a b ca cb pa pb ha hb hsa hsb => ?_,
    fun id' call' p' hp' hs => ?_, fun id' call' p' hp' hs => ?_, fun hall => ?_⟩
  · rw [hget, if_neg]
    · exact h.fresh id' hid'
    · rintro rfl
      rw [h.fresh id' hid'] at hcall
      cases hcall
  · rw [hget] at hp'
    split at hp'
    · cases hp'
      exact hsettle
    · exact h.settled id' call' p' hp'
  · exact h.one a b ca cb pa pb (hopen a ca pa ha hsa) (hopen b cb pb hb hsb) hsa hsb
  · rw [hhistory]
    rw [hget] at hp'
    split at hp'
    · next heq =>
        cases hp'
        subst heq
        exact hp
    · exact h.steady id' call' p' hp' hs
  · rw [hhistory]
    exact (h.sound id' call' p' (hopen id' call' p' hp' hs) hs).mono hI (Nat.le_succ _)
  · rw [hhistory]
    refine hI _ _ _ _ (h.idle fun id' call' p' hp' hs => ?_) (Nat.le_succ _)
    by_cases heq : id' = id
    · subst heq
      cases hcall.symm.trans hp'
      exact hclosed₀ hs
    · exact hall id' call' p' (by rw [hget, if_neg heq]; exact hp') hs

include hI hR in
/-- **A step keeps the invariant, when a call that loads is alone.** -/
theorem Keeps.step (hclosed : ∀ id call, ¬ (prog id call).MaySave)
    (hsteady : ∀ id call h, (prog id call).Steady I J (R id call) h) {w' : World δ ι ε χ κ α}
    (h : w.Keeps I J R) {m : Move ι κ} (halone : w.LoadsAlone m) (hstep : w.step prog m = some w') :
    w'.Keeps I J R := by
  cases m with
  | start call =>
    cases hstep
    exact h.start (hclosed _ _) (hsteady _ _ _)
  | resume id input =>
    simp only [World.step] at hstep
    split at hstep
    · next call next hcall =>
        cases hstep
        -- nothing is open, so the value is as `I` asks
        have hothers := halone call next hcall
        have hidle : I w.history w.data w.steps := by
          refine h.idle fun id' call' p' hp' => ?_
          by_cases heq : id' = id
          · subst heq
            cases hcall.symm.trans hp'
            exact id
          · exact hothers id' call' p' hp' heq
        exact h.goOn hR hcall (h.steady id call _ hcall (fun hs => hs) w.history w.data w.steps input
          (List.prefix_refl _) hidle) hothers
    · next call d next hcall =>
        cases hstep
        have hsound := h.sound id call _ hcall trivial
        refine h.goOn hR hcall (hsound.2 w.steps input le_rfl) fun id' call' p' hp' hne hs => ?_
        exact hne (h.one id' id call' call p' _ hp' hcall hs trivial)
    · next call next hcall =>
        cases hstep
        by_cases hopen : ∃ i, (next i).MaySave
        · have hsound := (h.sound id call _ hcall hopen).1 hopen
          refine h.goOn hR hcall (hsound.2 w.steps input le_rfl) fun id' call' p' hp' hne hs => ?_
          exact hne (h.one id' id call' call p' _ hp' hcall hs hopen)
        · have hsteady' := h.steady id call _ hcall hopen w.history w.steps input (List.prefix_refl _)
          exact h.goOnQuietly hI hcall hopen (fun hs => hopen ⟨_, hs⟩) hsteady'
    · cases hstep

include hI hR in
/-- **Runs in which calls load alone keep the invariant.** -/
theorem Reached.keeps (hclosed : ∀ id call, ¬ (prog id call).MaySave)
    (hsteady : ∀ id call h, (prog id call).Steady I J (R id call) h) (hdata : I [] data 0)
    (h : Reached prog LoadsAlone data w) : w.Keeps I J R := by
  induction h with
  | start hinit => exact keeps_init hdata hinit
  | next _ hstep ih =>
    obtain ⟨m, halone, hstep⟩ := hstep
    exact ih.step hI hR hclosed hsteady halone hstep

/-- In every such world there is `J`. -/
theorem Keeps.always (hJ : ∀ h d n, I h d n → J h d) (h : w.Keeps I J R) : J w.history w.data := by
  by_cases hclosed : ∀ id call p, w.calls.get? id = some (call, p) → ¬ p.MaySave
  · exact hJ _ _ _ (h.idle hclosed)
  push Not at hclosed
  obtain ⟨id, call, p, hcall, hopen⟩ := hclosed
  have hsound := h.sound id call p hcall hopen
  have hsettled := h.settled id call p hcall
  cases p with
  | save d next => exact hsound.1
  | await next => exact (hsound.1 hopen).1
  | emit e next => exact absurd hsettled (by simp [settle])
  | _ => exact hopen.elim

/-- What a call has returned. -/
theorem Keeps.returned (h : w.Keeps I J R) {a : α}
    (hcall : w.calls.get? id = some (call, .ret a)) : R id call a w.history :=
  h.steady id call _ hcall fun hs => hs

end World

end CellProg

end Setka.Lib
