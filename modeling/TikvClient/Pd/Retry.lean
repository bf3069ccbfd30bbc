import TikvClient.Common.Errors
import TikvClient.Core.Env

/-!
# Retrying PD requests

The loop that every PD request runs in (`retry_core!`): make the call, and if it fails connect
again, a bounded number of times, before the next call.  The outcomes of the call and of
`reconnect` are the answers of the outside, in any order.

**Counting down.**  `reconnect_count` is decremented before it is compared with 0.  For a limit of 0
that is an underflow: builds with overflow checks panic, the others go on with `usize::MAX`.

**Bounded and faithful.**  `Faithful` says what the loop promises of a run.  It keeps that promise
exactly in the runs in which the underflow is not reached: those with a positive limit, or without a
failed `reconnect`.
-/

namespace TikvClient

/-- `PdRetryConfig`, without the interval between two attempts. -/
structure PdRetryConfig where
  maxReconnectAttempts : ℕ
  leaderChangeRetry : ℕ
deriving DecidableEq

namespace PdRetry

/-- What the loop asks of the outside. -/
inductive PdCall where
  /-- The PD request itself. -/
  | request
  | reconnect
  | sleep
deriving DecidableEq

variable {α : Type}

/-- The outcomes of a call. -/
def PdCall.Ans (α : Type) : PdCall → Type
  | .request => Except Error α
  | .reconnect => Except Error Unit
  | .sleep => Unit

abbrev pdSig (α : Type) : Signature := ⟨PdCall, PdCall.Ans α⟩

/-- How the loop ends: with a result, or by a panic of its own. -/
inductive Ended (α : Type) where
  | returned (result : Except Error α)
  | panicked

/-- `usize::MAX`. -/
def usizeMax : ℕ := 2 ^ 64 - 1

lemma usizeMax_eq : usizeMax = 2 ^ 64 - 2 + 1 := by decide

/-- `reconnect_count -= 1`, in a build with or without overflow checks. -/
def decrement (overflowChecks : Bool) : ℕ → Option ℕ
  | 0 => if overflowChecks then none else some usizeMax
  | n + 1 => some n

/-- The number of attempts a count stands for. -/
def attemptsLeft (count : ℕ) : ℕ := if count = 0 then usizeMax + 1 else count

lemma attemptsLeft_of_decrement {overflowChecks : Bool} {count n : ℕ}
    (h : decrement overflowChecks count = some (n + 1)) :
    attemptsLeft (n + 1) < attemptsLeft count := by
  cases count with
  | zero =>
    cases overflowChecks with
    | true => cases h
    | false =>
      rw [← Option.some.inj h]
      decide
  | succ m =>
    have hm : m = n + 1 := Option.some.inj h
    simp only [attemptsLeft, Nat.succ_ne_zero, if_false]
    omega

/-- `while let Err(e) = reconnect(..)`. -/
def reconnectLoop (overflowChecks : Bool) (reconnectCount : ℕ) : Prog (pdSig α) (Ended Unit) :=
  .call (S := pdSig α) .reconnect fun
    | .ok _ => .ret (.returned (.ok ()))
    | .error e =>
      match h : decrement overflowChecks reconnectCount with
      | none => .ret .panicked
      | some 0 => .ret (.returned (.error e))
      | some (n + 1) =>
        .call (S := pdSig α) .sleep fun _ => reconnectLoop overflowChecks (n + 1)
termination_by attemptsLeft reconnectCount
decreasing_by exact attemptsLeft_of_decrement h

/-- The error of a configuration that allows no call. -/
def invalidConfig : Error := .internalError "PdRetryConfig.leader_change_retry must be > 0"

/-- What follows the loop. -/
def exhausted (cfg : PdRetryConfig) (lastErr : Option Error) : Error :=
  if cfg.leaderChangeRetry = 0 then invalidConfig
  else lastErr.getD (.internalError "pd retry loop exhausted without producing an error")

/-- `for _ in 0..retry_cfg.leader_change_retry`, with the calls that are left. -/
def retryLoop (overflowChecks : Bool) (cfg : PdRetryConfig) :
    ℕ → Option Error → Prog (pdSig α) (Ended α)
  | 0, lastErr => .ret (.returned (.error (exhausted cfg lastErr)))
  | n + 1, _ =>
    .call (S := pdSig α) .request fun
      | .ok r => .ret (.returned (.ok r))
      | .error e =>
        (reconnectLoop overflowChecks cfg.maxReconnectAttempts).bind fun
          | .panicked => .ret .panicked
          | .returned (.error e') => .ret (.returned (.error e'))
          | .returned (.ok _) => retryLoop overflowChecks cfg n (some e)

/-- `retry_core!`. -/
def retryCore (overflowChecks : Bool) (cfg : PdRetryConfig) : Prog (pdSig α) (Ended α) :=
  retryLoop overflowChecks cfg cfg.leaderChangeRetry none

/-! ## What a run did -/

/-- The outcomes of the calls of a run. -/
def calls : List (Event (pdSig α)) → List (Except Error α)
  | [] => []
  | .answered .request r :: tr => r :: calls tr
  | _ :: tr => calls tr

/-- The outcomes of its reconnects. -/
def reconnects : List (Event (pdSig α)) → List (Except Error Unit)
  | [] => []
  | .answered .reconnect r :: tr => r :: reconnects tr
  | _ :: tr => reconnects tr

/-- The number of reconnects before the first call, and after each of the calls. -/
def reconnectCounts : List (Event (pdSig α)) → ℕ × List ℕ
  | [] => (0, [])
  | .answered .request _ :: tr => (0, (reconnectCounts tr).1 :: (reconnectCounts tr).2)
  | .answered .reconnect _ :: tr => ((reconnectCounts tr).1 + 1, (reconnectCounts tr).2)
  | _ :: tr => reconnectCounts tr

/-- The errors of the calls that failed. -/
def callErrors (tr : List (Event (pdSig α))) : List Error :=
  (calls tr).filterMap fun
    | .ok _ => none
    | .error e => some e

/-- **The promise of the loop**, for a run with a given end. -/
structure Faithful (cfg : PdRetryConfig) (tr : List (Event (pdSig α))) (r : Ended α) : Prop where
  noPanic : r ≠ .panicked
  calls_le : (calls tr).length ≤ cfg.leaderChangeRetry
  reconnects_le : ∀ n ∈ (reconnectCounts tr).2, n ≤ max 1 cfg.maxReconnectAttempts
  /-- A successful call is the last one, and its result is returned. -/
  success : ∀ a, .ok a ∈ calls tr → r = .returned (.ok a)
  /-- Without one, the error is that of the last call or of the last reconnect, or says that the
  configuration is invalid. -/
  failure : (∀ a, .ok a ∉ calls tr) → ∃ e, r = .returned (.error e) ∧
    ((callErrors tr).getLast? = some e ∨ (reconnects tr).getLast? = some (.error e) ∨
      (cfg.leaderChangeRetry = 0 ∧ e = invalidConfig))

/-! ## Connecting again -/

lemma reconnectLoop_succ (overflowChecks : Bool) (n : ℕ) :
    (reconnectLoop overflowChecks (n + 1) : Prog (pdSig α) _) =
      .call (S := pdSig α) .reconnect fun
        | .ok _ => .ret (.returned (.ok ()))
        | .error e =>
          if n = 0 then .ret (.returned (.error e))
          else .call (S := pdSig α) .sleep fun _ => reconnectLoop overflowChecks n := by
  rw [reconnectLoop]
  congr 1
  funext outcome
  cases outcome with
  | ok _ => rfl
  | error e => cases n <;> rfl

lemma reconnectLoop_zero (overflowChecks : Bool) :
    (reconnectLoop overflowChecks 0 : Prog (pdSig α) _) =
      .call (S := pdSig α) .reconnect fun
        | .ok _ => .ret (.returned (.ok ()))
        | .error _ =>
          if overflowChecks then .ret .panicked
          else .call (S := pdSig α) .sleep fun _ => reconnectLoop overflowChecks usizeMax := by
  rw [reconnectLoop]
  congr 1
  funext outcome
  cases outcome with
  | ok _ => rfl
  | error e => cases overflowChecks <;> rfl

/-! ## Reading a run -/

section Reading

variable {seg tr : List (Event (pdSig α))}

lemma calls_append (seg tr : List (Event (pdSig α))) : calls
    (seg ++ tr) = calls seg ++ calls tr := by
  induction seg with
  | nil => rfl
  | cons event seg ih =>
    rcases event with ⟨_ | _ | _, r⟩ | cs
    · exact congrArg (r :: ·) ih
    all_goals exact ih

lemma reconnects_append (seg tr : List (Event (pdSig α))) :
    reconnects (seg ++ tr) = reconnects seg ++ reconnects tr := by
  induction seg with
  | nil => rfl
  | cons event seg ih =>
    rcases event with ⟨_ | _ | _, r⟩ | cs
    · exact ih
    · exact congrArg (r :: ·) ih
    all_goals exact ih

lemma callErrors_append (seg tr : List (Event (pdSig α))) :
    callErrors (seg ++ tr) = callErrors seg ++ callErrors tr := by
  rw [callErrors, calls_append, List.filterMap_append]
  rfl

/-- Reconnects that follow no call of their own are counted for the call before them. -/
lemma reconnectCounts_append (h : calls seg = []) (tr : List (Event (pdSig α))) :
    reconnectCounts (seg ++ tr) =
      ((reconnects seg).length + (reconnectCounts tr).1, (reconnectCounts tr).2) := by
  induction seg with
  | nil => simp [reconnects]
  | cons event seg ih =>
    rcases event with ⟨_ | _ | _, r⟩ | cs
    · cases h
    · have hcounts := Prod.ext_iff.mp (ih h)
      refine Prod.ext ?_ hcounts.2
      exact (congrArg (· + 1) hcounts.1).trans (Nat.add_right_comm _ _ 1)
    all_goals exact ih h

end Reading

/-! ## What connecting again does -/

section Reconnect

variable {overflowChecks : Bool} {seg : List (Event (pdSig α))} {out : Ended Unit}

/-- **The reconnects after a failed call**, when their count does not underflow. -/
structure Segment (bound : ℕ) (seg : List (Event (pdSig α))) (out : Ended Unit) : Prop where
  noCalls : calls seg = []
  length_le : (reconnects seg).length ≤ bound
  ends : out = .returned (.ok ()) ∨
    ∃ e, out = .returned (.error e) ∧ (reconnects seg).getLast? = some (.error e)

lemma segment_of_pos (n : ℕ) :
    ∀ {seg : List (Event (pdSig α))}, Prog.Returns (reconnectLoop overflowChecks (n + 1)) seg out →
      Segment (n + 1) seg out ∧ reconnects seg ≠ [] := by
  induction n with
  | zero =>
    intro seg h
    rw [reconnectLoop_succ, Prog.returns_call_iff] at h
    obtain ⟨outcome, tr, rfl, h⟩ := h
    rcases outcome with e | u
    · obtain ⟨rfl, rfl⟩ := Prog.returns_ret_iff.mp h
      exact ⟨⟨rfl, le_refl 1, .inr ⟨e, rfl, rfl⟩⟩, List.cons_ne_nil _ _⟩
    · obtain ⟨rfl, rfl⟩ := Prog.returns_ret_iff.mp h
      exact ⟨⟨rfl, le_refl 1, .inl rfl⟩, List.cons_ne_nil _ _⟩
  | succ n ih =>
    intro seg h
    rw [reconnectLoop_succ, Prog.returns_call_iff] at h
    obtain ⟨outcome, tr, rfl, h⟩ := h
    rcases outcome with e | u
    · simp only [Nat.succ_ne_zero, if_false] at h
      obtain ⟨_, rest, rfl, hrest⟩ := Prog.returns_call_iff.mp h
      obtain ⟨hseg, hne⟩ := ih hrest
      refine ⟨⟨hseg.noCalls, Nat.succ_le_succ hseg.length_le, ?_⟩, List.cons_ne_nil _ _⟩
      -- The last reconnect of the rest is the last of all.
      refine hseg.ends.imp_right fun ⟨e', hout, hlast⟩ => ⟨e', hout, ?_⟩
      rw [← hlast]
      exact List.getLast?_cons_of_ne_nil hne
    · obtain ⟨rfl, rfl⟩ := Prog.returns_ret_iff.mp h
      exact ⟨⟨rfl, by simp [reconnects], .inl rfl⟩, List.cons_ne_nil _ _⟩

variable {limit : ℕ}

/-- **Without an underflow**, at most one reconnect is made for a limit of 0, and otherwise as many
as the limit says. -/
lemma segment_of_returns (h : Prog.Returns (reconnectLoop overflowChecks limit) seg out)
    (hgood : limit = 0 → ∀ e, .error e ∉ reconnects seg) : Segment (max 1 limit) seg out := by
  cases limit with
  | succ n =>
    rw [max_eq_right (Nat.succ_le_succ n.zero_le)]
    exact (segment_of_pos n h).1
  | zero =>
    rw [reconnectLoop_zero, Prog.returns_call_iff] at h
    obtain ⟨outcome, tr, rfl, h⟩ := h
    rcases outcome with e | u
    · exact absurd (List.mem_cons_self) (hgood rfl e)
    · obtain ⟨rfl, rfl⟩ := Prog.returns_ret_iff.mp h
      exact ⟨rfl, le_refl 1, .inl rfl⟩

lemma noCalls_of_returns
    (h : Prog.Returns (reconnectLoop overflowChecks limit) seg out) : calls seg = [] := by
  cases limit with
  | succ n => exact (segment_of_pos n h).1.noCalls
  | zero =>
    rw [reconnectLoop_zero, Prog.returns_call_iff] at h
    obtain ⟨outcome, rest, rfl, hrest⟩ := h
    rcases outcome with e | u
    · cases overflowChecks with
      | true =>
        obtain ⟨rfl, -⟩ := Prog.returns_ret_iff.mp hrest
        rfl
      | false =>
        obtain ⟨_, rest', rfl, hrest'⟩ := Prog.returns_call_iff.mp hrest
        rw [usizeMax_eq] at hrest'
        obtain ⟨hseg, -⟩ := segment_of_pos (2 ^ 64 - 2) hrest'
        exact hseg.noCalls
    · obtain ⟨rfl, -⟩ := Prog.returns_ret_iff.mp hrest
      rfl

/-- With a limit of 0, one successful reconnect is all, or the first one fails. -/
lemma cases_of_returns_zero (h : Prog.Returns (reconnectLoop overflowChecks 0) seg out) :
    (seg = [.answered .reconnect (.ok ())] ∧ out = .returned (.ok ())) ∨
      ∃ e rest, seg = .answered .reconnect (.error e) :: rest ∧
        (out = .panicked ∨ reconnects rest ≠ []) := by
  rw [reconnectLoop_zero, Prog.returns_call_iff] at h
  obtain ⟨outcome, rest, rfl, hrest⟩ := h
  rcases outcome with e | u
  · refine .inr ⟨e, rest, rfl, ?_⟩
    cases overflowChecks with
    | true => exact .inl (Prog.returns_ret_iff.mp hrest).2
    | false =>
      obtain ⟨_, rest', rfl, hrest'⟩ := Prog.returns_call_iff.mp hrest
      rw [usizeMax_eq] at hrest'
      obtain ⟨-, hne⟩ := segment_of_pos (2 ^ 64 - 2) hrest'
      exact .inr hne
  · obtain ⟨rfl, rfl⟩ := Prog.returns_ret_iff.mp hrest
    exact .inl ⟨rfl, rfl⟩

/-- **The underflow**: with a limit of 0, a failed reconnect is a panic or leads to another one. -/
lemma underflow_of_returns {e : Error}
    (h : Prog.Returns (reconnectLoop overflowChecks 0) seg out) (he : .error e ∈ reconnects seg) :
    out = .panicked ∨ 2 ≤ (reconnects seg).length := by
  obtain ⟨rfl, -⟩ | ⟨e', rest, rfl, hout⟩ := cases_of_returns_zero h
  · cases List.mem_singleton.mp he
  · exact hout.imp_right fun hne => Nat.succ_le_succ (List.length_pos_iff.mpr hne)

end Reconnect

/-! ## The rounds of a run -/

section Rounds

variable {overflowChecks : Bool} {cfg : PdRetryConfig}

/-- **A run of the loop, round by round**, with the calls that are left and the last error. -/
inductive Rounds (overflowChecks : Bool) (cfg : PdRetryConfig) :
    ℕ → Option Error → List (Event (pdSig α)) → Ended α → Prop where
  | done (lastErr : Option Error) :
      Rounds overflowChecks cfg 0 lastErr [] (.returned (.error (exhausted cfg lastErr)))
  | success (n : ℕ) (lastErr : Option Error) (a : α) :
      Rounds overflowChecks cfg (n + 1) lastErr [.answered .request (.ok a)] (.returned (.ok a))
  | panicked {n : ℕ} {lastErr : Option Error} {e : Error} {seg : List (Event (pdSig α))}
      (hseg : Prog.Returns (reconnectLoop overflowChecks cfg.maxReconnectAttempts) seg .panicked) :
      Rounds overflowChecks cfg (n + 1) lastErr (.answered .request (.error e) :: seg) .panicked
  | gaveUp {n : ℕ} {lastErr : Option Error} {e e' : Error} {seg : List (Event (pdSig α))}
      (hseg : Prog.Returns (reconnectLoop overflowChecks cfg.maxReconnectAttempts) seg
        (.returned (.error e'))) :
      Rounds overflowChecks cfg (n + 1) lastErr (.answered .request (.error e) :: seg)
        (.returned (.error e'))
  | again {n : ℕ} {lastErr : Option Error} {e : Error} {seg rest : List (Event (pdSig α))}
      {r : Ended α}
      (hseg : Prog.Returns (reconnectLoop overflowChecks cfg.maxReconnectAttempts) seg
        (.returned (.ok ())))
      (hrest : Rounds overflowChecks cfg n (some e) rest r) :
      Rounds overflowChecks cfg (n + 1) lastErr
        (.answered .request (.error e) :: (seg ++ rest)) r

lemma rounds_of_returns (n : ℕ) :
    ∀ {lastErr : Option Error} {tr : List (Event (pdSig α))} {r : Ended α},
      Prog.Returns (retryLoop overflowChecks cfg n lastErr) tr r →
      Rounds overflowChecks cfg n lastErr tr r := by
  induction n with
  | zero =>
    intro lastErr tr r h
    obtain ⟨rfl, rfl⟩ := Prog.returns_ret_iff.mp h
    exact .done lastErr
  | succ n ih =>
    intro lastErr tr r h
    rw [retryLoop, Prog.returns_call_iff] at h
    obtain ⟨outcome, rest, rfl, hrest⟩ := h
    rcases outcome with e | a
    · obtain ⟨seg, rest', out, rfl, hseg, hout⟩ := Prog.returns_bind_iff.mp hrest
      rcases out with (e' | u) | -
      · obtain ⟨rfl, rfl⟩ := Prog.returns_ret_iff.mp hout
        rw [List.append_nil]
        exact .gaveUp hseg
      · exact .again hseg (ih hout)
      · obtain ⟨rfl, rfl⟩ := Prog.returns_ret_iff.mp hout
        rw [List.append_nil]
        exact .panicked hseg
    · obtain ⟨rfl, rfl⟩ := Prog.returns_ret_iff.mp hrest
      exact .success n lastErr a

/-- What the loop keeps, with the calls that are left and the last error so far. -/
structure Bounded (cfg : PdRetryConfig) (n : ℕ) (lastErr : Option Error)
    (tr : List (Event (pdSig α))) (r : Ended α) : Prop where
  noPanic : r ≠ .panicked
  calls_le : (calls tr).length ≤ n
  starts : (reconnectCounts tr).1 = 0
  reconnects_le : ∀ k ∈ (reconnectCounts tr).2, k ≤ max 1 cfg.maxReconnectAttempts
  success : ∀ a, .ok a ∈ calls tr → r = .returned (.ok a)
  failure : (∀ a, .ok a ∉ calls tr) → ∃ e, r = .returned (.error e) ∧
    ((callErrors tr).getLast?.or lastErr = some e ∨ (reconnects tr).getLast? = some (.error e) ∨
      (cfg.leaderChangeRetry = 0 ∧ e = invalidConfig))

lemma getLast?_callErrors_cons (e : Error) (tr : List (Event (pdSig α))) (lastErr : Option Error) :
    (callErrors (.answered .request (.error e) :: tr)).getLast?.or lastErr =
      (callErrors tr).getLast?.or (some e) := by
  change (e :: callErrors tr).getLast?.or lastErr = _
  rcases List.eq_nil_or_concat (callErrors tr) with h | ⟨es, e', h⟩
  · rw [h]
    rfl
  · rw [h, List.concat_eq_append, ← List.cons_append, List.getLast?_concat,
      List.getLast?_concat]
    rfl

variable {n : ℕ} {lastErr : Option Error} {e : Error} {r : Ended α} {tr : List (Event (pdSig α))}
  {seg : List (Event (pdSig α))}

lemma Bounded.round {rest : List (Event (pdSig α))}
    (hseg : Segment (max 1 cfg.maxReconnectAttempts) seg (.returned (.ok ())))
    (hrest : Bounded cfg n (some e) rest r) :
    Bounded cfg (n + 1) lastErr (.answered .request (.error e) :: (seg ++ rest)) r := by
  have hcalls : calls (.answered .request (.error e) :: (seg ++ rest)) =
      .error e :: calls rest := by
    change _ :: calls (seg ++ rest) = _
    rw [calls_append, hseg.noCalls, List.nil_append]
  have hcounts : (reconnectCounts (.answered .request (.error e) :: (seg ++ rest))).2 =
      (reconnects seg).length :: (reconnectCounts rest).2 := by
    change (reconnectCounts (seg ++ rest)).1 :: (reconnectCounts (seg ++ rest)).2 = _
    rw [reconnectCounts_append hseg.noCalls, hrest.starts, Nat.add_zero]
  have herrors : callErrors seg = [] := by rw [callErrors, hseg.noCalls, List.filterMap_nil]
  refine ⟨hrest.noPanic, ?_, rfl, ?_, ?_, ?_⟩
  · rw [hcalls]
    exact Nat.succ_le_succ hrest.calls_le
  · rw [hcounts]
    exact List.forall_mem_cons.mpr ⟨hseg.length_le, hrest.reconnects_le⟩
  · intro a ha
    rw [hcalls] at ha
    exact hrest.success a ((List.mem_cons.mp ha).resolve_left nofun)
  · intro hnone
    rw [hcalls] at hnone
    obtain ⟨e', hr, he'⟩ := hrest.failure fun a ha => hnone a (List.mem_cons_of_mem _ ha)
    refine ⟨e', hr, ?_⟩
    rw [getLast?_callErrors_cons, callErrors_append, herrors, List.nil_append]
    refine he'.imp_right (Or.imp_left fun hlast => ?_)
    change (reconnects (seg ++ rest)).getLast? = _
    rw [reconnects_append, List.getLast?_append, hlast]
    rfl

lemma Bounded.gaveUp {e' : Error}
    (hseg : Segment (max 1 cfg.maxReconnectAttempts) seg (.returned (.error e'))) :
    Bounded cfg (n + 1) lastErr (.answered .request (.error e) :: seg)
      (.returned (.error e') : Ended α) := by
  have hcalls : calls (.answered .request (.error e) :: seg) = [.error e] := by
    change _ :: calls seg = _
    rw [hseg.noCalls]
  have hcounts : (reconnectCounts (.answered .request (.error e) :: seg)).2 =
      [(reconnects seg).length] := by
    change (reconnectCounts seg).1 :: (reconnectCounts seg).2 = _
    have h := reconnectCounts_append hseg.noCalls []
    rw [List.append_nil] at h
    rw [h]
    rfl
  refine ⟨nofun, ?_, rfl, ?_, ?_, fun _ => ⟨e', rfl, .inr (.inl ?_)⟩⟩
  · rw [hcalls]
    exact Nat.succ_le_succ n.zero_le
  · rw [hcounts]
    exact List.forall_mem_singleton.mpr hseg.length_le
  · intro a ha
    rw [hcalls] at ha
    cases List.mem_singleton.mp ha
  · obtain hout | ⟨e'', hout, hlast⟩ := hseg.ends
    · cases hout
    · cases hout
      exact hlast

/-- **The loop keeps its promise as long as the count does not underflow.** -/
theorem bounded_of_rounds (h : Rounds overflowChecks cfg n lastErr tr r)
    (hgood : cfg.maxReconnectAttempts = 0 → ∀ e, .error e ∉ reconnects tr)
    (hlast : n = 0 → cfg.leaderChangeRetry ≠ 0 → lastErr ≠ none) :
    Bounded cfg n lastErr tr r := by
  induction h with
  | done lastErr =>
    refine ⟨nofun, le_refl 0, rfl, nofun, nofun, fun _ => ⟨_, rfl, ?_⟩⟩
    by_cases hcfg : cfg.leaderChangeRetry = 0
    · exact .inr (.inr ⟨hcfg, if_pos hcfg⟩)
    · obtain ⟨e, rfl⟩ := Option.ne_none_iff_exists'.mp (hlast rfl hcfg)
      exact .inl (by rw [exhausted, if_neg hcfg]; rfl)
  | success n lastErr a =>
    refine ⟨nofun, Nat.succ_le_succ n.zero_le, rfl, ?_, ?_, ?_⟩
    · exact List.forall_mem_singleton.mpr (Nat.zero_le _)
    · intro b hb
      cases List.mem_singleton.mp hb
      rfl
    · intro hnone
      exact absurd List.mem_cons_self (hnone a)
  | panicked hseg =>
    obtain h | ⟨e, h, -⟩ := (segment_of_returns hseg hgood).ends <;> cases h
  | gaveUp hseg => exact .gaveUp (segment_of_returns hseg hgood)
  | @again n lastErr e seg rest r hseg hrest ih =>
    have hevents : reconnects (.answered .request (.error e) :: (seg ++ rest)) =
        reconnects seg ++ reconnects rest := reconnects_append seg rest
    rw [hevents] at hgood
    refine .round (segment_of_returns hseg fun h0 e he => ?_) (ih (fun h0 e he => ?_) nofun)
    · exact hgood h0 e (List.mem_append_left _ he)
    · exact hgood h0 e (List.mem_append_right _ he)

/-- **After an underflow the promise is broken**: by a panic, or by reconnects that go on. -/
theorem broken_of_rounds (h : Rounds overflowChecks cfg n lastErr tr r)
    (hlimit : cfg.maxReconnectAttempts = 0) (he : .error e ∈ reconnects tr) :
    r = .panicked ∨ ∃ k ∈ (reconnectCounts tr).2, 2 ≤ k := by
  induction h with
  | done lastErr => cases he
  | success n lastErr a => cases he
  | panicked hseg => exact .inl rfl
  | @gaveUp n lastErr e₀ e' seg hseg =>
    have hcounts := reconnectCounts_append (noCalls_of_returns hseg) []
    rw [List.append_nil] at hcounts
    rw [hlimit] at hseg
    have htwo := (underflow_of_returns hseg he).resolve_left nofun
    refine .inr ⟨(reconnectCounts seg).1, List.mem_cons_self, ?_⟩
    rw [hcounts]
    exact htwo
  | @again n lastErr e₀ seg rest r hseg hrest ih =>
    have hcounts := reconnectCounts_append (noCalls_of_returns hseg) rest
    have hevents : reconnects (.answered .request (.error e₀) :: (seg ++ rest)) =
        reconnects seg ++ reconnects rest := reconnects_append seg rest
    rw [hevents] at he
    rw [hlimit] at hseg
    rcases List.mem_append.mp he with he | he
    · have htwo := (underflow_of_returns hseg he).resolve_left nofun
      refine .inr ⟨(reconnectCounts (seg ++ rest)).1, List.mem_cons_self, ?_⟩
      rw [hcounts]
      exact htwo.trans (Nat.le_add_right _ _)
    · refine (ih he).imp_right fun ⟨k, hk, htwo⟩ => ⟨k, List.mem_cons_of_mem _ ?_, htwo⟩
      rw [hcounts]
      exact hk

/-- **The runs in which the promise is kept** are those without an underflow. -/
theorem faithful_iff_of_returns (h : Prog.Returns (retryCore overflowChecks cfg) tr r) :
    Faithful cfg tr r ↔ (cfg.maxReconnectAttempts = 0 → ∀ e, .error e ∉ reconnects tr) := by
  have hrounds := rounds_of_returns cfg.leaderChangeRetry h
  constructor
  · intro hkept hlimit e he
    obtain rfl | ⟨k, hk, htwo⟩ := broken_of_rounds hrounds hlimit he
    · exact hkept.noPanic rfl
    · have hle := hkept.reconnects_le k hk
      rw [hlimit] at hle
      exact absurd (htwo.trans hle) (by decide)
  · intro hgood
    have hb := bounded_of_rounds hrounds hgood fun h0 hne => absurd h0 hne
    refine ⟨hb.noPanic, hb.calls_le, hb.reconnects_le, hb.success, fun hnone => ?_⟩
    simpa only [Option.or_none] using hb.failure hnone

end Rounds

/-! ## Every sequence of outcomes -/

/-- The outcomes of the calls and of the reconnects, one after the other. -/
structure Outcomes (α : Type) where
  call : ℕ → Except Error α
  reconnect : ℕ → Except Error Unit

namespace Outcomes

variable {overflowChecks : Bool} {cfg : PdRetryConfig} {o : Outcomes α}

/-- The outside that gives these outcomes; its state counts the calls and the reconnects. -/
def oracle (o : Outcomes α) : Oracle (pdSig α) (ℕ × ℕ) where
  answer
    | (i, k), .request => some (o.call i, (i + 1, k))
    | (i, k), .reconnect => some (o.reconnect k, (i, k + 1))
    | w, .sleep => some ((), w)
  pick _ _ := none
  drop w _ := w

/-- A run gets these outcomes, from the `i`-th call and the `k`-th reconnect on. -/
def Gives (o : Outcomes α) : ℕ → ℕ → List (Event (pdSig α)) → Prop
  | _, _, [] => True
  | i, k, .answered .request r :: tr => r = o.call i ∧ Gives o (i + 1) k tr
  | i, k, .answered .reconnect r :: tr => r = o.reconnect k ∧ Gives o i (k + 1) tr
  | i, k, _ :: tr => Gives o i k tr

variable {tr : List (Event (pdSig α))}

lemma gives_of_simulate {β : Type} {p : Prog (pdSig α) β} {w w' : ℕ × ℕ} {b : β}
    (h : p.simulate o.oracle w = some (tr, b, w')) :
    o.Gives w.1 w.2 tr := by
  induction p generalizing w tr with
  | ret a =>
    cases h
    trivial
  | call c k ih =>
    rw [Prog.simulate] at h
    split at h
    · cases h
    next ans w₁ hans =>
      split at h
      · cases h
      next tr' a' w'' hsim =>
        cases h
        have hrest := ih _ hsim
        cases c with
        | request | reconnect =>
          cases hans
          exact ⟨rfl, hrest⟩
        | sleep =>
          cases hans
          exact hrest
  | pick n k _ => cases h
  | drop cs k ih =>
    rw [Prog.simulate] at h
    split at h
    · cases h
    next tr' a' w'' hsim =>
      cases h
      have hrest := ih hsim
      exact hrest

/-- **The underflow is not reached**: with a limit of 0, the reconnect after a failed call succeeds,
as long as calls are made. -/
def Survives (cfg : PdRetryConfig) (o : Outcomes α) : Prop :=
  cfg.maxReconnectAttempts = 0 → ∀ i < cfg.leaderChangeRetry,
    (∀ j ≤ i, ∃ e, o.call j = .error e) → o.reconnect i = .ok ()

/-- With a limit of 0, a run without a failed reconnect has asked for the outcomes in step: the
reconnect after the `i`-th call is the `i`-th. -/
lemma noFailure_iff_of_rounds (hlimit : cfg.maxReconnectAttempts = 0) {n : ℕ}
    {lastErr : Option Error} {r : Ended α} (h : Rounds overflowChecks cfg n lastErr tr r) :
    ∀ i, o.Gives i i tr →
      ((∀ e, .error e ∉ reconnects tr) ↔
        ∀ j < n, (∀ m ≤ j, ∃ e, o.call (i + m) = .error e) → o.reconnect (i + j) = .ok ()) := by
  -- A round whose first reconnect fails breaks both sides.
  have hfailed : ∀ {n i : ℕ} {e e' : Error} {rest : List (Event (pdSig α))},
      o.Gives i i (.answered .request (.error e) :: .answered .reconnect (.error e') :: rest) →
      ((∀ e₁, .error e₁ ∉
          reconnects (.answered .request (.error e) :: .answered .reconnect (.error e') :: rest)) ↔
        ∀ j < n + 1, (∀ m ≤ j, ∃ e, o.call (i + m) = .error e) → o.reconnect (i + j) = .ok ()) := by
    intro n i e e' rest hgives
    refine iff_of_false (fun h => h e' List.mem_cons_self) fun h => ?_
    have hok := h 0 (Nat.succ_pos n) fun m hm => by
      rw [Nat.le_zero.mp hm]
      exact ⟨e, hgives.1.symm⟩
    have herr : .error e' = o.reconnect i := hgives.2.1
    rw [Nat.add_zero, ← herr] at hok
    cases hok
  induction h with
  | done lastErr => exact fun i _ => iff_of_true nofun nofun
  | success n lastErr a =>
    intro i hgives
    refine iff_of_true nofun fun j _ herrors => ?_
    obtain ⟨e, he⟩ := herrors 0 j.zero_le
    cases hgives.1.trans he
  | panicked hseg | gaveUp hseg =>
    intro i hgives
    rw [hlimit] at hseg
    obtain ⟨-, h⟩ | ⟨e', rest, rfl, -⟩ := cases_of_returns_zero hseg
    · cases h
    · exact hfailed hgives
  | @again n lastErr e seg rest r hseg hrest ih =>
    intro i hgives
    rw [hlimit] at hseg
    obtain ⟨rfl, -⟩ | ⟨e', rest', rfl, -⟩ := cases_of_returns_zero hseg
    · obtain ⟨hcall, hreconnect, hgives'⟩ := hgives
      have hshift : ∀ m, i + 1 + m = i + (m + 1) := fun m => by omega
      have hevents : ∀ e₁, .error e₁ ∉ reconnects (.answered .request (.error e) ::
          ([.answered .reconnect (.ok ())] ++ rest)) ↔ .error e₁ ∉ reconnects rest := by
        intro e₁
        change .error e₁ ∉ .ok () :: reconnects rest ↔ _
        simp
      rw [forall_congr' hevents, ih (i + 1) hgives']
      simp only [hshift]
      constructor
      · intro h j hj herrors
        cases j with
        | zero => exact hreconnect.symm
        | succ j =>
          exact h j (Nat.lt_of_succ_lt_succ hj) fun m hm => herrors (m + 1) (Nat.succ_le_succ hm)
      · intro h j hj herrors
        refine h (j + 1) (Nat.succ_lt_succ hj) fun m hm => ?_
        cases m with
        | zero => exact ⟨e, hcall.symm⟩
        | succ m => exact herrors m (Nat.le_of_succ_le_succ hm)
    · exact hfailed hgives

lemma straight_reconnectLoop (overflowChecks : Bool) (limit : ℕ) :
    (reconnectLoop overflowChecks limit : Prog (pdSig α) _).Straight := by
  have hpos : ∀ n, (reconnectLoop overflowChecks (n + 1) : Prog (pdSig α) _).Straight := by
    intro n
    induction n with
    | zero =>
      rw [reconnectLoop_succ]
      rintro (e | u) <;> trivial
    | succ n ih =>
      rw [reconnectLoop_succ]
      rintro (e | u)
      · exact fun _ => ih
      · trivial
  cases limit with
  | succ n => exact hpos n
  | zero =>
    rw [reconnectLoop_zero]
    rintro (e | u)
    · cases overflowChecks with
      | true => trivial
      | false =>
        rw [usizeMax_eq]
        exact fun _ => hpos (2 ^ 64 - 2)
    · trivial

lemma straight_retryLoop (overflowChecks : Bool) (cfg : PdRetryConfig) (n : ℕ) :
    ∀ lastErr, (retryLoop overflowChecks cfg n lastErr : Prog (pdSig α) _).Straight := by
  induction n with
  | zero => exact fun _ => trivial
  | succ n ih =>
    rintro lastErr (e | a)
    · refine (straight_reconnectLoop overflowChecks cfg.maxReconnectAttempts).bind ?_
      rintro ((e' | u) | -)
      · trivial
      · exact ih (some e)
      · trivial
    · trivial

/-- **The loop ends whatever the outcomes are.** -/
lemma exists_simulate (overflowChecks : Bool) (cfg : PdRetryConfig) (o : Outcomes α) :
    ∃ tr r w, (retryCore overflowChecks cfg).simulate o.oracle (0, 0) = some (tr, r, w) := by
  refine (straight_retryLoop overflowChecks cfg cfg.leaderChangeRetry none).exists_simulate ?_
    (0, 0)
  rintro ⟨i, k⟩ (_ | _ | _) <;> exact ⟨_, _, rfl⟩

/-- **The retry loop is bounded and faithful unless its countdown underflows.**  For every
configuration and all outcomes of the calls and of the reconnects the loop ends, and it keeps its
promise exactly if the limit of reconnects is positive or no reconnect that it makes fails. -/
theorem retryCore_faithful_iff (overflowChecks : Bool) (cfg : PdRetryConfig) (o : Outcomes α) :
    ∃ tr r w, (retryCore overflowChecks cfg).simulate o.oracle (0, 0) = some (tr, r, w) ∧
      (Faithful cfg tr r ↔ o.Survives cfg) := by
  obtain ⟨tr, r, w, hsim⟩ := exists_simulate overflowChecks cfg o
  refine ⟨tr, r, w, hsim, ?_⟩
  have hret := Prog.returns_of_simulate hsim
  rw [faithful_iff_of_returns hret]
  refine forall_congr' fun hlimit => ?_
  have h := noFailure_iff_of_rounds hlimit (rounds_of_returns _ hret) 0 (gives_of_simulate hsim)
  simpa only [Nat.zero_add] using h

/-- A PD that refuses everything. -/
def refusing : Outcomes Unit := ⟨fun _ => .error .grpc, fun _ => .error .grpc⟩

/-- No reconnects are allowed, and one call. -/
def zeroLimit : PdRetryConfig := ⟨0, 1⟩

/-- With a limit of 0 the first failed reconnect is a panic, or is not the last one. -/
theorem zero_limit_underflows :
    (∃ tr w, (retryCore true zeroLimit).simulate refusing.oracle (0, 0) =
        some (tr, .panicked, w)) ∧
      ∃ tr r w, (retryCore false zeroLimit).simulate refusing.oracle (0, 0) = some (tr, r, w) ∧
        ¬ Faithful zeroLimit tr r := by
  constructor
  · simp only [retryCore, zeroLimit, retryLoop, reconnectLoop_zero]
    exact ⟨_, _, rfl⟩
  · obtain ⟨tr, r, w, hsim⟩ := exists_simulate false zeroLimit refusing
    refine ⟨tr, r, w, hsim, ?_⟩
    have hret := Prog.returns_of_simulate hsim
    have h := noFailure_iff_of_rounds rfl (rounds_of_returns _ hret) 0 (gives_of_simulate hsim)
    rw [faithful_iff_of_returns hret]
    intro hall
    cases h.mp (hall rfl) 0 Nat.one_pos fun m _ => ⟨.grpc, rfl⟩

end Outcomes

end PdRetry

end TikvClient
