import TikvClient.Transaction.Options

/-!
# The delays of a backoff

`Backoff` of `Transaction.Options` says whether an operation is retried; this module has what
`backoff.rs` computes beside it, how long a retry waits.  The delay starts with the base and is
doubled by a shift on every attempt, which drops the bit that does not fit into a `u64`; the random
part is drawn by `gen_range`, which panics on an empty range.

**Random choices.**  A choice is any number; `gen_range` takes it modulo the length of the range, so
every value of the range is drawn for some choice.

**Doubling.**  `documented_iff`: the delays are the documented ones exactly as long as a base that
is shifted out of the word still leaves enough of it: for a jittered delay something must be left,
and an exact one must not fall below the maximal delay.
-/

namespace TikvClient

namespace Delays

/-- The pattern for computing backoff times. -/
inductive BackoffKind where
  | none
  | noJitter
  | fullJitter
  | equalJitter
  | decorrelatedJitter
deriving DecidableEq

/-- **`Backoff`, with its delays** (in milliseconds). -/
structure Backoff where
  kind : BackoffKind
  currentAttempts : ℕ
  maxAttempts : ℕ
  baseDelayMs : ℕ
  currentDelayMs : ℕ
  maxDelayMs : ℕ
deriving DecidableEq

/-- `rng.gen_range(0..upper)`. -/
def genRange (choice upper : ℕ) : Except Error ℕ :=
  if upper = 0 then .error (.panicked "cannot sample empty range") else .ok (choice % upper)

namespace Backoff

/-- `self.current_delay_ms <<= 1`, a shift of a `u64`. -/
def double (b : Backoff) : Backoff := { b with currentDelayMs := b.currentDelayMs * 2 % 2 ^ 64 }

def nextDelayDuration (b : Backoff) (choice : ℕ) : Except Error (Option ℕ × Backoff) :=
  if b.currentAttempts ≥ b.maxAttempts then .ok (none, b)
  else
    let b := { b with currentAttempts := b.currentAttempts + 1 }
    match b.kind with
    | .none => .ok (none, b)
    | .noJitter => .ok (some (min b.maxDelayMs b.currentDelayMs), b.double)
    | .fullJitter => do
      let delayMs ← genRange choice (min b.maxDelayMs b.currentDelayMs)
      return (some delayMs, b.double)
    | .equalJitter => do
      let halfDelayMs := min b.maxDelayMs b.currentDelayMs / 2
      let drawn ← genRange choice halfDelayMs
      let delayMs ← addU64 drawn halfDelayMs
      return (some delayMs, b.double)
    | .decorrelatedJitter => do
      let upperExclusive := max (saturatingMul b.currentDelayMs 3 - b.baseDelayMs) 1
      let drawn ← genRange choice upperExclusive
      let delayMs ← addU64 drawn b.baseDelayMs
      let delayMs := min delayMs b.maxDelayMs
      return (some delayMs, { b with currentDelayMs := delayMs })

/-- Don't wait. -/
def noBackoff : Backoff := ⟨.none, 0, 0, 0, 0, 0⟩

def noJitterBackoff (baseDelayMs maxDelayMs : UInt64) (maxAttempts : UInt32) : Backoff :=
  ⟨.noJitter, 0, maxAttempts.toNat, baseDelayMs.toNat, baseDelayMs.toNat, maxDelayMs.toNat⟩

def fullJitterBackoff (baseDelayMs maxDelayMs : UInt64) (maxAttempts : UInt32) : Backoff :=
  let baseDelayMs := max baseDelayMs.toNat 1
  let maxDelayMs := max maxDelayMs.toNat 1
  ⟨.fullJitter, 0, maxAttempts.toNat, baseDelayMs, baseDelayMs, maxDelayMs⟩

def equalJitterBackoff (baseDelayMs maxDelayMs : UInt64) (maxAttempts : UInt32) : Backoff :=
  let baseDelayMs := max baseDelayMs.toNat 2
  let maxDelayMs := max maxDelayMs.toNat 2
  ⟨.equalJitter, 0, maxAttempts.toNat, baseDelayMs, baseDelayMs, maxDelayMs⟩

def decorrelatedJitterBackoff (baseDelayMs maxDelayMs : UInt64) (maxAttempts : UInt32) : Backoff :=
  let baseDelayMs := max baseDelayMs.toNat 1
  let maxDelayMs := max maxDelayMs.toNat baseDelayMs
  ⟨.decorrelatedJitter, 0, maxAttempts.toNat, baseDelayMs, baseDelayMs, maxDelayMs⟩

/-- A call of one of the constructors. -/
inductive Constructor where
  | noBackoff
  | noJitter (baseDelayMs maxDelayMs : UInt64) (maxAttempts : UInt32)
  | fullJitter (baseDelayMs maxDelayMs : UInt64) (maxAttempts : UInt32)
  | equalJitter (baseDelayMs maxDelayMs : UInt64) (maxAttempts : UInt32)
  | decorrelatedJitter (baseDelayMs maxDelayMs : UInt64) (maxAttempts : UInt32)

def Constructor.backoff : Constructor → Backoff
  | .noBackoff => .noBackoff
  | .noJitter base max attempts => noJitterBackoff base max attempts
  | .fullJitter base max attempts => fullJitterBackoff base max attempts
  | .equalJitter base max attempts => equalJitterBackoff base max attempts
  | .decorrelatedJitter base max attempts => decorrelatedJitterBackoff base max attempts

/-! ## Sequences of delays -/

/-- The backoff after the first `n` calls of `next_delay_duration`. -/
def afterCalls (b : Backoff) (choices : ℕ → ℕ) : ℕ → Except Error Backoff
  | 0 => .ok b
  | n + 1 =>
    match b.afterCalls choices n with
    | .error e => .error e
    | .ok b => (b.nextDelayDuration (choices n)).map Prod.snd

/-- What the call number `i` returns, counting from 0. -/
def delay (b : Backoff) (choices : ℕ → ℕ) (i : ℕ) : Except Error (Option ℕ) :=
  match b.afterCalls choices i with
  | .error e => .error e
  | .ok b => (b.nextDelayDuration (choices i)).map Prod.fst

/-- What the documentation says of the delay number `i`, in exact arithmetic. -/
def Documents (b : Backoff) (i d : ℕ) : Prop :=
  let exact := min b.maxDelayMs (b.baseDelayMs * 2 ^ i)
  match b.kind with
  | .none => False
  | .noJitter => d = exact
  | .fullJitter => d < exact
  | .equalJitter => exact / 2 ≤ d ∧ d < exact
  | .decorrelatedJitter => min b.baseDelayMs b.maxDelayMs ≤ d ∧ d ≤ b.maxDelayMs

/-- **The documented sequences**: whatever is drawn, no call panics, there are as many delays as
attempts, each as documented, and then none. -/
structure Documented (b : Backoff) : Prop where
  delays : ∀ choices, ∀ i < b.maxAttempts, ∃ d, b.delay choices i = .ok (some d) ∧ b.Documents i d
  stops : ∀ choices i, b.maxAttempts ≤ i → b.delay choices i = .ok none

/-- **What is left of the base is enough**, after it was shifted `i` times. -/
def LeavesEnough (b : Backoff) (i : ℕ) : Prop :=
  match b.kind with
  | .noJitter => 2 ^ 64 ≤ b.baseDelayMs * 2 ^ i → b.maxDelayMs ≤ b.baseDelayMs * 2 ^ i % 2 ^ 64
  | .fullJitter => b.baseDelayMs * 2 ^ i % 2 ^ 64 ≠ 0
  | .equalJitter =>
    2 ^ 64 ≤ b.baseDelayMs * 2 ^ i → b.maxDelayMs / 2 ≤ b.baseDelayMs * 2 ^ i % 2 ^ 64 / 2
  | _ => True

/-! ## Steps -/

section Steps

variable {b b' : Backoff} {choices : ℕ → ℕ} {i : ℕ}

lemma nextDelayDuration_of_ge (h : b.maxAttempts ≤ b.currentAttempts) (choice : ℕ) :
    b.nextDelayDuration choice = .ok (none, b) := if_pos h

lemma afterCalls_succ (h : b.afterCalls choices i = .ok b') :
    b.afterCalls choices (i + 1) = (b'.nextDelayDuration (choices i)).map Prod.snd := by
  rw [afterCalls, h]

lemma delay_eq (h : b.afterCalls choices i = .ok b') :
    b.delay choices i = (b'.nextDelayDuration (choices i)).map Prod.fst := by
  rw [delay, h]

lemma afterCalls_of_le {n : ℕ} (h : b.afterCalls choices n = .ok b')
    (hdone : b'.maxAttempts ≤ b'.currentAttempts) (hi : n ≤ i) :
    b.afterCalls choices i = .ok b' := by
  induction i, hi using Nat.le_induction with
  | base => exact h
  | succ i _ ih =>
    rw [afterCalls_succ ih, nextDelayDuration_of_ge hdone]
    rfl

lemma delay_of_le {n : ℕ} (h : b.afterCalls choices n = .ok b')
    (hdone : b'.maxAttempts ≤ b'.currentAttempts) (hi : n ≤ i) :
    b.delay choices i = .ok none := by
  rw [delay_eq (afterCalls_of_le h hdone hi), nextDelayDuration_of_ge hdone]
  rfl

end Steps

/-! ## Exponential delays -/

section Exponential

/-- The backoff after `i` attempts, if the delay is doubled on each. -/
def doubled (b : Backoff) (i : ℕ) : Backoff :=
  { b with currentAttempts := i, currentDelayMs := b.baseDelayMs * 2 ^ i % 2 ^ 64 }

/-- How the delay is drawn from an upper bound, when it is doubled on every attempt. -/
def draw (kind : BackoffKind) (delayMs choice : ℕ) : Except Error ℕ :=
  match kind with
  | .fullJitter => genRange choice delayMs
  | .equalJitter => do
    let drawn ← genRange choice (delayMs / 2)
    addU64 drawn (delayMs / 2)
  | _ => .ok delayMs

/-- The delay is doubled on every attempt. -/
def IsExponential (b : Backoff) : Prop :=
  b.kind = .noJitter ∨ b.kind = .fullJitter ∨ b.kind = .equalJitter

/-- What is drawn from for the delay number `i`. -/
def bound (b : Backoff) (i : ℕ) : ℕ := min b.maxDelayMs (b.baseDelayMs * 2 ^ i % 2 ^ 64)

variable {b : Backoff} {choices : ℕ → ℕ} {i : ℕ}

lemma double_doubled (b : Backoff) (i : ℕ) :
    double { b.doubled i with currentAttempts := i + 1 } = b.doubled (i + 1) := by
  have h : b.baseDelayMs * 2 ^ i % 2 ^ 64 * 2 % 2 ^ 64 = b.baseDelayMs * 2 ^ (i + 1) % 2 ^ 64 := by
    rw [Nat.mod_mul_mod, Nat.mul_assoc, ← Nat.pow_succ]
  simp only [double, doubled, h]

lemma bind_pure_eq_map {α β : Type} (x : Except Error α) (g : α → β) :
    (do let a ← x; return g a) = x.map g := by
  cases x <;> rfl

lemma bind_bind_pure {α β γ : Type} (x : Except Error α) (y : α → Except Error β) (g : β → γ) :
    (do let a ← x; let d ← y a; return g d) = (x >>= y).map g := by
  cases x with
  | error e => rfl
  | ok a => exact bind_pure_eq_map (y a) g

/-- **A step of an exponential backoff.** -/
lemma nextDelayDuration_doubled (hkind : b.IsExponential) (hi : i < b.maxAttempts) (choice : ℕ) :
    (b.doubled i).nextDelayDuration choice =
      (draw b.kind (b.bound i) choice).map fun d => (some d, b.doubled (i + 1)) := by
  rw [← double_doubled b i]
  obtain ⟨kind, attempts, maxAttempts, base, current, maxDelay⟩ := b
  refine (if_neg (not_le.mpr hi)).trans ?_
  rcases hkind with rfl | rfl | rfl
  · rfl
  · exact bind_pure_eq_map _ _
  · exact bind_bind_pure _ _ _

/-- If nothing panics before it, the state before the call number `i` is known. -/
lemma afterCalls_doubled (hkind : b.IsExponential) (hfirst : b.doubled 0 = b)
    (hi : i ≤ b.maxAttempts)
    (hdraw : ∀ j < i, ∃ d, draw b.kind (b.bound j) (choices j) = .ok d) :
    b.afterCalls choices i = .ok (b.doubled i) := by
  induction i with
  | zero => rw [hfirst]; rfl
  | succ i ih =>
    have h := ih (Nat.le_of_succ_le hi) fun j hj => hdraw j (Nat.lt_succ_of_lt hj)
    obtain ⟨d, hd⟩ := hdraw i (Nat.lt_succ_self i)
    rw [afterCalls_succ h, nextDelayDuration_doubled hkind hi, hd]
    rfl

/-- **An exponential backoff is as documented** if each of its draws is. -/
theorem documented_iff_draws (hkind : b.IsExponential) (hfirst : b.doubled 0 = b) :
    b.Documented ↔ ∀ i < b.maxAttempts, ∀ choice,
      ∃ d, draw b.kind (b.bound i) choice = .ok d ∧ b.Documents i d := by
  constructor
  · intro h i
    induction i using Nat.strong_induction_on with
    | _ i ih =>
      intro hi choice
      obtain ⟨d, hdelay, hdoc⟩ := h.delays (fun _ => choice) i hi
      have hstate : b.afterCalls (fun _ => choice) i = .ok (b.doubled i) :=
        afterCalls_doubled hkind hfirst hi.le fun j hj =>
          (ih j hj (hj.trans hi) choice).imp fun _ h => h.1
      rw [delay_eq hstate, nextDelayDuration_doubled hkind hi] at hdelay
      cases hdraw : draw b.kind (b.bound i) choice with
      | error e =>
        rw [hdraw] at hdelay
        cases hdelay
      | ok d' =>
        rw [hdraw] at hdelay
        cases hdelay
        exact ⟨d, rfl, hdoc⟩
  · intro h
    have hstate : ∀ choices, ∀ i ≤ b.maxAttempts,
        b.afterCalls choices i = .ok (b.doubled i) := fun choices i hi =>
      afterCalls_doubled hkind hfirst hi fun j hj =>
        (h j (hj.trans_le hi) (choices j)).imp fun _ h => h.1
    refine ⟨fun choices i hi => ?_, fun choices i hi => ?_⟩
    · obtain ⟨d, hd, hdoc⟩ := h i hi (choices i)
      refine ⟨d, ?_, hdoc⟩
      rw [delay_eq (hstate choices i hi.le), nextDelayDuration_doubled hkind hi, hd]
      rfl
    · exact delay_of_le (hstate choices _ le_rfl) le_rfl hi

/-! ### What is drawn -/

lemma exists_genRange_iff {upper : ℕ} {P : ℕ → Prop} :
    (∀ choice, ∃ d, genRange choice upper = .ok d ∧ P d) ↔ upper ≠ 0 ∧ ∀ d < upper, P d := by
  by_cases hupper : upper = 0
  · have hpanic : ∀ choice, genRange choice upper = .error _ := fun choice => if_pos hupper
    refine iff_of_false (fun h => ?_) fun h => h.1 hupper
    obtain ⟨d, hd, -⟩ := h 0
    cases (hpanic 0).symm.trans hd
  · have hdrawn : ∀ choice, genRange choice upper = .ok (choice % upper) := fun choice =>
      if_neg hupper
    constructor
    · refine fun h => ⟨hupper, fun d hd => ?_⟩
      obtain ⟨d', hd', hp⟩ := h d
      rw [hdrawn, Nat.mod_eq_of_lt hd] at hd'
      cases hd'
      exact hp
    · exact fun h choice =>
        ⟨_, hdrawn choice, h.2 _ (Nat.mod_lt _ (Nat.pos_of_ne_zero hupper))⟩

variable {base maxDelay : ℕ}

/-- Full jitter draws from something as long as some of the base is left. -/
lemma fullJitter_iff (hmax : 1 ≤ maxDelay) (x : ℕ) :
    (∀ choice, ∃ d, draw .fullJitter (min maxDelay (x % 2 ^ 64)) choice = .ok d ∧
      d < min maxDelay x) ↔ x % 2 ^ 64 ≠ 0 := by
  refine exists_genRange_iff.trans ?_
  have hle := Nat.mod_le x (2 ^ 64)
  constructor
  · rintro ⟨hne, -⟩ h0
    omega
  · exact fun h => ⟨by omega, fun d hd => by omega⟩

lemma addU64_half {drawn x : ℕ} (hx : x < 2 ^ 64) (h : drawn < x / 2) :
    addU64 drawn (x / 2) = .ok (drawn + x / 2) :=
  addU64_of_le (by rw [u64Max]; omega)

/-- Equal jitter draws from at least half of the exact delay as long as the half of the base that
is left is not below that of the maximal delay. -/
lemma equalJitter_iff (hmax : 2 ≤ maxDelay) (hmax' : maxDelay < 2 ^ 64) (x : ℕ) (hx : 2 ≤ x) :
    (∀ choice, ∃ d, draw .equalJitter (min maxDelay (x % 2 ^ 64)) choice = .ok d ∧
      (min maxDelay x / 2 ≤ d ∧ d < min maxDelay x)) ↔
      (2 ^ 64 ≤ x → maxDelay / 2 ≤ x % 2 ^ 64 / 2) := by
  have hlt : min maxDelay (x % 2 ^ 64) < 2 ^ 64 := by omega
  -- The sum of a draw and the half fits, so the delay is that sum.
  have hdraw : (∀ choice, ∃ d, draw .equalJitter (min maxDelay (x % 2 ^ 64)) choice = .ok d ∧
        (min maxDelay x / 2 ≤ d ∧ d < min maxDelay x)) ↔
      ∀ choice, ∃ d, genRange choice (min maxDelay (x % 2 ^ 64) / 2) = .ok d ∧
        (min maxDelay x / 2 ≤ d + min maxDelay (x % 2 ^ 64) / 2 ∧
          d + min maxDelay (x % 2 ^ 64) / 2 < min maxDelay x) := by
    refine forall_congr' fun choice => ?_
    change (∃ d, ((genRange choice _) >>= fun drawn => addU64 drawn _) = .ok d ∧ _) ↔ _
    cases hgen : genRange choice (min maxDelay (x % 2 ^ 64) / 2) with
    | error e => exact iff_of_false (fun ⟨_, h, _⟩ => by cases h) fun ⟨_, h, _⟩ => by cases h
    | ok drawn =>
      have hdrawn : drawn < min maxDelay (x % 2 ^ 64) / 2 := by
        rw [genRange] at hgen
        split_ifs at hgen with h0
        cases hgen
        exact Nat.mod_lt _ (Nat.pos_of_ne_zero h0)
      change (∃ d, addU64 drawn _ = .ok d ∧ _) ↔ _
      rw [addU64_half hlt hdrawn]
      simp
  rw [hdraw, exists_genRange_iff]
  have hle := Nat.mod_le x (2 ^ 64)
  constructor
  · rintro ⟨hne, h⟩ hbig
    have h0 := (h 0 (Nat.pos_of_ne_zero hne)).1
    omega
  · intro h
    by_cases hbig : 2 ^ 64 ≤ x
    · have henough := h hbig
      exact ⟨by omega, fun d hd => by omega⟩
    · rw [Nat.mod_eq_of_lt (not_le.mp hbig)]
      exact ⟨by omega, fun d hd => by omega⟩

/-- Without jitter, the delay is exact as long as what is left is not below the maximal delay. -/
lemma noJitter_iff (hmax : maxDelay < 2 ^ 64) (x : ℕ) :
    (∀ choice, ∃ d, draw .noJitter (min maxDelay (x % 2 ^ 64)) choice = .ok d ∧
      d = min maxDelay x) ↔ (2 ^ 64 ≤ x → maxDelay ≤ x % 2 ^ 64) := by
  have hdraw : (∀ choice, ∃ d, draw .noJitter (min maxDelay (x % 2 ^ 64)) choice = .ok d ∧
      d = min maxDelay x) ↔ min maxDelay (x % 2 ^ 64) = min maxDelay x := by
    constructor
    · intro h
      obtain ⟨d, hd, rfl⟩ := h 0
      exact Except.ok.inj hd
    · exact fun h _ => ⟨_, rfl, h⟩
  rw [hdraw]
  omega

end Exponential

/-! ## Decorrelated delays -/

section Decorrelated

variable {b : Backoff} {choices : ℕ → ℕ} {i : ℕ}

/-- The backoff after `i` attempts, the last of them with the given delay. -/
def drifted (b : Backoff) (i delayMs : ℕ) : Backoff :=
  { b with currentAttempts := i, currentDelayMs := delayMs }

/-- **A step of a decorrelated backoff** never overflows, and stays between the base and the maximal
delay. -/
lemma nextDelayDuration_drifted (hkind : b.kind = .decorrelatedJitter)
    (hmax : b.maxDelayMs < 2 ^ 64) {delayMs : ℕ} (hge : b.baseDelayMs ≤ delayMs)
    (hle : delayMs ≤ b.maxDelayMs) (hi : i < b.maxAttempts) (choice : ℕ) :
    ∃ d, (b.drifted i delayMs).nextDelayDuration choice = .ok (some d, b.drifted (i + 1) d) ∧
      b.baseDelayMs ≤ d ∧ d ≤ b.maxDelayMs := by
  set upper := max (saturatingMul delayMs 3 - b.baseDelayMs) 1 with hupper
  have hdrawn : genRange choice upper = .ok (choice % upper) := if_neg (by omega)
  have hlt : choice % upper < upper := Nat.mod_lt _ (by omega)
  have hsum : addU64 (choice % upper) b.baseDelayMs = .ok (choice % upper + b.baseDelayMs) := by
    rw [saturatingMul, u64Max] at hupper
    exact addU64_of_le (by rw [u64Max]; omega)
  refine ⟨min (choice % upper + b.baseDelayMs) b.maxDelayMs, ?_, by omega, by omega⟩
  obtain ⟨kind, attempts, maxAttempts, base, current, maxDelay⟩ := b
  cases hkind
  refine (if_neg (not_le.mpr hi)).trans ?_
  change (genRange choice upper >>= fun drawn => addU64 drawn base >>= fun delayMs => _) = _
  rw [hdrawn]
  change (addU64 (choice % upper) base >>= fun delayMs => _) = _
  rw [hsum]
  rfl

lemma afterCalls_drifted (choices : ℕ → ℕ) (hkind : b.kind = .decorrelatedJitter)
    (hmax : b.maxDelayMs < 2 ^ 64) (hfirst : b.drifted 0 b.baseDelayMs = b)
    (hle : b.baseDelayMs ≤ b.maxDelayMs) (hi : i ≤ b.maxAttempts) :
    ∃ d, b.afterCalls choices i = .ok (b.drifted i d) ∧ b.baseDelayMs ≤ d ∧ d ≤ b.maxDelayMs := by
  induction i with
  | zero => exact ⟨b.baseDelayMs, by rw [hfirst]; rfl, le_rfl, hle⟩
  | succ i ih =>
    obtain ⟨d, h, hge, hle⟩ := ih (Nat.le_of_succ_le hi)
    obtain ⟨d', hnext, hd'⟩ := nextDelayDuration_drifted hkind hmax hge hle hi (choices i)
    refine ⟨d', ?_, hd'⟩
    rw [afterCalls_succ h, hnext]
    rfl

lemma documented_decorrelated (hkind : b.kind = .decorrelatedJitter) (hmax : b.maxDelayMs < 2 ^ 64)
    (hfirst : b.drifted 0 b.baseDelayMs = b) (hle : b.baseDelayMs ≤ b.maxDelayMs) :
    b.Documented := by
  refine ⟨fun choices i hi => ?_, fun choices i hi => ?_⟩
  · obtain ⟨d, h, hge, hle'⟩ := afterCalls_drifted choices hkind hmax hfirst hle hi.le
    obtain ⟨d', hnext, hd'⟩ := nextDelayDuration_drifted hkind hmax hge hle' hi (choices i)
    refine ⟨d', ?_, ?_⟩
    · rw [delay_eq h, hnext]
      rfl
    · rw [Documents, hkind]
      exact ⟨(min_le_left _ _).trans hd'.1, hd'.2⟩
  · obtain ⟨d, h, -⟩ := afterCalls_drifted choices hkind hmax hfirst hle le_rfl
    exact delay_of_le h le_rfl hi

end Decorrelated

/-! ## The sequences of the constructors -/

/-- **The delays are the documented ones exactly as long as doubling leaves enough of the base.**
For every constructor with all its arguments, and whatever is drawn. -/
theorem documented_iff (c : Constructor) :
    c.backoff.Documented ↔ ∀ i < c.backoff.maxAttempts, c.backoff.LeavesEnough i := by
  cases c with
  | noBackoff =>
    refine iff_of_true ⟨nofun, fun choices i _ => ?_⟩ nofun
    have hfirst : noBackoff.afterCalls choices 0 = .ok noBackoff := rfl
    exact delay_of_le hfirst le_rfl i.zero_le
  | noJitter base maxDelay attempts =>
    have hfirst : (noJitterBackoff base maxDelay attempts).doubled 0 =
        noJitterBackoff base maxDelay attempts := by
      have h : base.toNat * 2 ^ 0 % 2 ^ 64 = base.toNat := by
        rw [Nat.pow_zero, Nat.mul_one, Nat.mod_eq_of_lt base.toNat_lt]
      simp only [doubled, noJitterBackoff, h]
    refine (documented_iff_draws (.inl rfl) hfirst).trans (forall₂_congr fun i _ => ?_)
    exact noJitter_iff maxDelay.toNat_lt _
  | fullJitter base maxDelay attempts =>
    have hfirst : (fullJitterBackoff base maxDelay attempts).doubled 0 =
        fullJitterBackoff base maxDelay attempts := by
      have h : max base.toNat 1 * 2 ^ 0 % 2 ^ 64 = max base.toNat 1 := by
        have hlt := base.toNat_lt
        rw [Nat.pow_zero, Nat.mul_one, Nat.mod_eq_of_lt (by omega)]
      simp only [doubled, fullJitterBackoff, h]
    refine (documented_iff_draws (.inr (.inl rfl)) hfirst).trans (forall₂_congr fun i _ => ?_)
    exact fullJitter_iff (le_max_right _ _) _
  | equalJitter base maxDelay attempts =>
    have hfirst : (equalJitterBackoff base maxDelay attempts).doubled 0 =
        equalJitterBackoff base maxDelay attempts := by
      have h : max base.toNat 2 * 2 ^ 0 % 2 ^ 64 = max base.toNat 2 := by
        have hlt := base.toNat_lt
        rw [Nat.pow_zero, Nat.mul_one, Nat.mod_eq_of_lt (by omega)]
      simp only [doubled, equalJitterBackoff, h]
    refine (documented_iff_draws (.inr (.inr rfl)) hfirst).trans (forall₂_congr fun i _ => ?_)
    have hlt := maxDelay.toNat_lt
    have hpos := Nat.two_pow_pos i
    have hbase : 2 ≤ max base.toNat 2 * 2 ^ i :=
      (le_max_right _ _).trans (Nat.le_mul_of_pos_right _ hpos)
    exact equalJitter_iff (le_max_right _ _) (by omega) _ hbase
  | decorrelatedJitter base maxDelay attempts =>
    refine iff_of_true (documented_decorrelated rfl ?_ rfl (le_max_right _ _)) fun _ _ => trivial
    have hbase := base.toNat_lt
    have hlt := maxDelay.toNat_lt
    change max maxDelay.toNat (max base.toNat 1) < 2 ^ 64
    omega

/-- A base of `2 ^ 62` is shifted out by two doublings: without jitter the delay is then 0 instead
of the maximal one, and with jitter there is nothing to draw from. -/
theorem doubling_overflows :
    (noJitterBackoff 0x4000000000000000 500 3).delay (fun _ => 0) 2 = .ok (some 0) ∧
      (fullJitterBackoff 0x4000000000000000 500 3).delay (fun _ => 0) 2 =
        .error (.panicked "cannot sample empty range") ∧
      (equalJitterBackoff 0x4000000000000000 500 3).delay (fun _ => 0) 2 =
        .error (.panicked "cannot sample empty range") :=
  ⟨by rfl, by rfl, by rfl⟩

/-- The default backoffs are never doubled out of the word. -/
example : ∀ i < 10, (noJitterBackoff 2 500 10).LeavesEnough i := by
  intro i hi hbig
  have hpow : 2 ^ i ≤ 2 ^ 10 := Nat.pow_le_pow_right (by decide) hi.le
  change 2 ^ 64 ≤ 2 * 2 ^ i at hbig
  omega

end Backoff

end Delays

end TikvClient
