import Mathlib.Algebra.Group.Int.Defs
import Mathlib.Algebra.GroupWithZero.Nat
import Mathlib.Tactic.Common

/-!
# Programs as trees of the calls they make

A small library for asynchronous client code.  A `Prog S α` is a program that makes calls of
a signature `S`, is told an answer to each, and finally returns an `α`; the type is inductive,
so a loop of the source is a program built with fuel.  Two further nodes describe scheduling:
`pick n` is a choice among `n` continuations made outside the program, and `drop cs` marks the
moment at which the program gives up waiting for the calls `cs` (a dropped future).

**What a program can do** is the relation `Steps p tr q`: `p` may produce the events `tr` and
become `q`; `Returns p tr a` is a complete run.  Answers are *not* constrained by the tree, so
every statement over `Steps` holds against every environment.

**What one proves of a program** is mostly `Sat C A Q p`: as long as the answers satisfy `A`,
every call satisfies `C` and every result satisfies `Q`.  It composes along `bind`
(`Sat.bind`), and `Sat.of_steps` transfers it to runs.
-/

/-- What a program may ask of its environment, and the type of each answer. -/
structure Signature where
  Call : Type
  Ans : Call → Type

/-- **A program**: it returns, makes a call, leaves a choice to the scheduler, or drops the
calls it was waiting for. -/
inductive Prog (S : Signature) (α : Type) : Type where
  | ret (a : α) : Prog S α
  | call (c : S.Call) (k : S.Ans c → Prog S α) : Prog S α
  | pick (n : ℕ) (k : Fin n → Prog S α) : Prog S α
  | drop (cs : List S.Call) (k : Prog S α) : Prog S α

/-- What is seen of a program from outside. -/
inductive Event (S : Signature) : Type where
  | answered (c : S.Call) (ans : S.Ans c) : Event S
  | dropped (cs : List S.Call) : Event S

/-- An event whose answer satisfies `A`. -/
def Event.Allowed {S : Signature} (A : (c : S.Call) → S.Ans c → Prop) : Event S → Prop
  | .answered c ans => A c ans
  | .dropped _ => True

/-- An event whose calls satisfy `C`. -/
def Event.Made {S : Signature} (C : S.Call → Prop) : Event S → Prop
  | .answered c _ => C c
  | .dropped cs => ∀ c ∈ cs, C c

namespace Prog

variable {S : Signature} {α β γ : Type}

/-! ## Sequencing -/

/-- Run `p`, then continue with its result. -/
def bind : Prog S α → (α → Prog S β) → Prog S β
  | ret a, f => f a
  | call c k, f => call c fun ans => (k ans).bind f
  | pick n k, f => pick n fun i => (k i).bind f
  | drop cs k, f => drop cs (k.bind f)

instance : Monad (Prog S) where
  pure := ret
  bind := bind

@[simp] lemma ret_bind (a : α) (f : α → Prog S β) : (ret a : Prog S α).bind f = f a := rfl

@[simp] lemma call_bind (c : S.Call) (k : S.Ans c → Prog S α) (f : α → Prog S β) :
    (call c k).bind f = call c fun ans => (k ans).bind f := rfl

@[simp] lemma pick_bind (n : ℕ) (k : Fin n → Prog S α) (f : α → Prog S β) :
    (pick n k).bind f = pick n fun i => (k i).bind f := rfl

@[simp] lemma drop_bind (cs : List S.Call) (k : Prog S α) (f : α → Prog S β) :
    (drop cs k).bind f = drop cs (k.bind f) := rfl

lemma bind_ret (p : Prog S α) : p.bind ret = p := by
  induction p with
  | ret a => rfl
  | call c k ih => simp [ih]
  | pick n k ih => simp [ih]
  | drop cs k ih => simp [ih]

lemma bind_assoc (p : Prog S α) (f : α → Prog S β) (g : β → Prog S γ) :
    (p.bind f).bind g = p.bind fun a => (f a).bind g := by
  induction p with
  | ret a => rfl
  | call c k ih => simp [ih]
  | pick n k ih => simp [ih]
  | drop cs k ih => simp [ih]

instance : LawfulMonad (Prog S) :=
  LawfulMonad.mk' (Prog S) (fun p => bind_ret p) (fun _ _ => rfl) fun p f g => bind_assoc p f g

/-- Make one call and return its answer. -/
def ask (c : S.Call) : Prog S (S.Ans c) :=
  call c ret

/-- The program that never returns: a choice among no continuations. -/
def stuck : Prog S α :=
  pick 0 fun i => i.elim0

/-! ## Runs -/

/-- **`p` may produce the events `tr` and become `q`.**  The answers are arbitrary. -/
inductive Steps : Prog S α → List (Event S) → Prog S α → Prop where
  | refl (p : Prog S α) : Steps p [] p
  | call {c : S.Call} {k : S.Ans c → Prog S α} {tr : List (Event S)} {q : Prog S α}
      (ans : S.Ans c) (h : Steps (k ans) tr q) : Steps (.call c k) (.answered c ans :: tr) q
  | pick {n : ℕ} {k : Fin n → Prog S α} {tr : List (Event S)} {q : Prog S α}
      (i : Fin n) (h : Steps (k i) tr q) : Steps (.pick n k) tr q
  | drop {cs : List S.Call} {k : Prog S α} {tr : List (Event S)} {q : Prog S α}
      (h : Steps k tr q) : Steps (.drop cs k) (.dropped cs :: tr) q

/-- A complete run of `p` with events `tr` and result `a`. -/
abbrev Returns (p : Prog S α) (tr : List (Event S)) (a : α) : Prop :=
  Steps p tr (.ret a)

variable {a : α} {tr : List (Event S)} {q p : Prog S α} {c : S.Call} {f : α → Prog S β}

lemma Steps.ret_inv (h : Steps (.ret a) tr q) :
    tr = [] ∧ q = .ret a := by
  cases h with
  | refl => exact ⟨rfl, rfl⟩

@[simp] lemma returns_ret_iff {b : α} :
    Returns (.ret a : Prog S α) tr b ↔ tr = [] ∧ b = a := by
  constructor
  · intro h
    obtain ⟨htr, hq⟩ := h.ret_inv
    exact ⟨htr, Prog.ret.inj hq⟩
  · rintro ⟨rfl, rfl⟩
    exact Steps.refl _

lemma returns_call_iff {k : S.Ans c → Prog S α} :
    Returns (.call c k) tr a ↔
      ∃ ans tr', tr = .answered c ans :: tr' ∧ Returns (k ans) tr' a := by
  constructor
  · intro h
    cases h with
    | call ans h => exact ⟨ans, _, rfl, h⟩
  · rintro ⟨ans, tr', rfl, h⟩
    exact Steps.call ans h

lemma returns_ask_iff {ans : S.Ans c} :
    Returns (ask c) tr ans ↔ tr = [.answered c ans] := by
  rw [ask, returns_call_iff]
  constructor
  · rintro ⟨ans', tr', rfl, hret⟩
    obtain ⟨rfl, rfl⟩ := returns_ret_iff.mp hret
    rfl
  · rintro rfl
    exact ⟨ans, [], rfl, Steps.refl _⟩

lemma returns_pick_iff {n : ℕ} {k : Fin n → Prog S α} :
    Returns (.pick n k) tr a ↔ ∃ i, Returns (k i) tr a := by
  constructor
  · intro h
    cases h with
    | pick i h => exact ⟨i, h⟩
  · rintro ⟨i, h⟩
    exact Steps.pick i h

lemma returns_drop_iff {cs : List S.Call} {k : Prog S α} :
    Returns (.drop cs k) tr a ↔ ∃ tr', tr = .dropped cs :: tr' ∧ Returns k tr' a := by
  constructor
  · intro h
    cases h with
    | drop h => exact ⟨_, rfl, h⟩
  · rintro ⟨tr', rfl, h⟩
    exact Steps.drop h

lemma not_returns_stuck : ¬ Returns (stuck : Prog S α) tr a := by
  intro h
  cases h with
  | pick i _ => exact i.elim0

lemma Steps.append {r : Prog S α} {tr' : List (Event S)} (h : Steps p tr q)
    (h' : Steps q tr' r) : Steps p (tr ++ tr') r := by
  induction h with
  | refl p => exact h'
  | call ans _ ih => exact Steps.call ans (ih h')
  | pick i _ ih => exact Steps.pick i (ih h')
  | drop _ ih => exact Steps.drop (ih h')

lemma Steps.bind_left (h : Steps p tr q) (f : α → Prog S β) : Steps (p.bind f) tr (q.bind f) := by
  induction h with
  | refl p => exact Steps.refl _
  | call ans _ ih => exact Steps.call ans ih
  | pick i _ ih => exact Steps.pick i ih
  | drop _ ih => exact Steps.drop ih

lemma Returns.bind {tr' : List (Event S)} {b : β}
    (h : Returns p tr a) (h' : Returns (f a) tr' b) : Returns (p.bind f) (tr ++ tr') b :=
  (h.bind_left f).append h'

/-- **A run of `p.bind f` that ends is a run of `p` that ends, followed by one of `f`.** -/
lemma returns_bind_iff {b : β} :
    Returns (p.bind f) tr b ↔
      ∃ tr₁ tr₂ a, tr = tr₁ ++ tr₂ ∧ Returns p tr₁ a ∧ Returns (f a) tr₂ b := by
  constructor
  · intro h
    induction p generalizing tr with
    | ret a => exact ⟨[], tr, a, rfl, Steps.refl _, h⟩
    | call c k ih =>
      cases h with
      | call ans h =>
        obtain ⟨tr₁, tr₂, a, rfl, h₁, h₂⟩ := ih ans h
        exact ⟨_ :: tr₁, tr₂, a, rfl, Steps.call ans h₁, h₂⟩
    | pick n k ih =>
      cases h with
      | pick i h =>
        obtain ⟨tr₁, tr₂, a, rfl, h₁, h₂⟩ := ih i h
        exact ⟨tr₁, tr₂, a, rfl, Steps.pick i h₁, h₂⟩
    | drop cs k ih =>
      cases h with
      | drop h =>
        obtain ⟨tr₁, tr₂, a, rfl, h₁, h₂⟩ := ih h
        exact ⟨_ :: tr₁, tr₂, a, rfl, Steps.drop h₁, h₂⟩
  · rintro ⟨tr₁, tr₂, a, rfl, h₁, h₂⟩
    exact h₁.bind h₂

/-! ## Calls and results, for all answers of a kind -/

/-- **As long as the answers satisfy `A`, every call satisfies `C` and every result `Q`.**
A call that is dropped counts as made. -/
def Sat (C : S.Call → Prop) (A : (c : S.Call) → S.Ans c → Prop) (Q : α → Prop) :
    Prog S α → Prop
  | ret a => Q a
  | call c k => C c ∧ ∀ ans, A c ans → (k ans).Sat C A Q
  | pick _ k => ∀ i, (k i).Sat C A Q
  | drop cs k => (∀ c ∈ cs, C c) ∧ k.Sat C A Q

variable {C C' : S.Call → Prop} {A A' : (c : S.Call) → S.Ans c → Prop} {Q Q' : α → Prop}

lemma Sat.mono (h : p.Sat C A Q) (hC : ∀ c, C c → C' c)
    (hA : ∀ c ans, A' c ans → A c ans) (hQ : ∀ a, Q a → Q' a) : p.Sat C' A' Q' := by
  induction p with
  | ret a => exact hQ a h
  | call c k ih => exact ⟨hC c h.1, fun ans hans => ih ans (h.2 ans (hA c ans hans))⟩
  | pick n k ih => exact fun i => ih i (h i)
  | drop cs k ih => exact ⟨fun c hc => hC c (h.1 c hc), ih h.2⟩

/-- The result part alone, weakened. -/
lemma Sat.post (h : p.Sat C A Q) (hQ : ∀ a, Q a → Q' a) : p.Sat C A Q' :=
  h.mono (fun _ hc => hc) (fun _ _ ha => ha) hQ

lemma Sat.and (h : p.Sat C A Q) (h' : p.Sat C A Q') :
    p.Sat C A fun a => Q a ∧ Q' a := by
  induction p with
  | ret a => exact ⟨h, h'⟩
  | call c k ih => exact ⟨h.1, fun ans hans => ih ans (h.2 ans hans) (h'.2 ans hans)⟩
  | pick n k ih => exact fun i => ih i (h i) (h' i)
  | drop cs k ih => exact ⟨h.1, ih h.2 h'.2⟩

lemma Sat.bind {R : β → Prop} (h : p.Sat C A Q)
    (hf : ∀ a, Q a → (f a).Sat C A R) : (p.bind f).Sat C A R := by
  induction p with
  | ret a => exact hf a h
  | call c k ih => exact ⟨h.1, fun ans hans => ih ans (h.2 ans hans)⟩
  | pick n k ih => exact fun i => ih i (h i)
  | drop cs k ih => exact ⟨h.1, ih h.2⟩

lemma sat_ask (h : C c) : (ask c).Sat C A (A c) :=
  ⟨h, fun _ hans => hans⟩

lemma sat_stuck : (stuck : Prog S α).Sat C A Q :=
  fun i => i.elim0

/-- Every program makes some calls and has some results. -/
lemma sat_true (p : Prog S α) : p.Sat (fun _ => True) A fun _ => True := by
  induction p with
  | ret a => trivial
  | call c k ih => exact ⟨trivial, fun ans _ => ih ans⟩
  | pick n k ih => exact fun i => ih i
  | drop cs k ih => exact ⟨fun _ _ => trivial, ih⟩

/-- **`Sat` describes every run**: while the answers are allowed, the calls made satisfy `C`
and what is left of the program is still `Sat`. -/
theorem Sat.of_steps (h : p.Sat C A Q) (hs : Steps p tr q) (hA : ∀ e ∈ tr, Event.Allowed A e) :
    (∀ e ∈ tr, Event.Made C e) ∧ q.Sat C A Q := by
  induction hs with
  | refl p => exact ⟨fun e he => absurd he (List.not_mem_nil), h⟩
  | call ans _ ih =>
    have hans := hA _ List.mem_cons_self
    obtain ⟨hmade, hq⟩ := ih (h.2 ans hans) fun e he => hA e (List.mem_cons_of_mem _ he)
    exact ⟨List.forall_mem_cons.mpr ⟨h.1, hmade⟩, hq⟩
  | pick i _ ih => exact ih (h i) hA
  | drop _ ih =>
    obtain ⟨hmade, hq⟩ := ih h.2 fun e he => hA e (List.mem_cons_of_mem _ he)
    exact ⟨List.forall_mem_cons.mpr ⟨h.1, hmade⟩, hq⟩

/-- The result of a complete run whose answers are allowed. -/
lemma Sat.of_returns (h : p.Sat C A Q)
    (hr : Returns p tr a) (hA : ∀ e ∈ tr, Event.Allowed A e) : Q a :=
  (h.of_steps hr hA).2

/-- Conversely, what holds at the end of every such run is a postcondition. -/
lemma sat_of_returns (h : ∀ tr a, Returns p tr a →
    (∀ e ∈ tr, Event.Allowed A e) → Q a) : p.Sat (fun _ => True) A Q := by
  induction p with
  | ret a => exact h [] a (.refl _) fun e he => absurd he List.not_mem_nil
  | call c k ih =>
    refine ⟨trivial, fun ans hans => ih ans fun tr a hr hA => ?_⟩
    exact h _ a (Steps.call ans hr) (List.forall_mem_cons.mpr ⟨hans, hA⟩)
  | pick n k ih => exact fun i => ih i fun tr a hr hA => h tr a (Steps.pick i hr) hA
  | drop cs k ih =>
    refine ⟨fun _ _ => trivial, ih fun tr a hr hA => ?_⟩
    exact h _ a (Steps.drop hr) (List.forall_mem_cons.mpr ⟨trivial, hA⟩)

/-- The answers a run was given. -/
def InTrace (tr : List (Event S)) (c : S.Call) (ans : S.Ans c) : Prop :=
  Event.answered c ans ∈ tr

lemma allowed_inTrace (tr : List (Event S)) : ∀ e ∈ tr, Event.Allowed (InTrace tr) e := by
  intro e he
  cases e with
  | answered c ans => exact he
  | dropped cs => trivial

/-- A result can be traced back to the answers of the run that led to it. -/
lemma Sat.of_returns_inTrace (h : p.Sat C (InTrace tr) Q) (hr : Returns p tr a) : Q a :=
  h.of_returns hr (allowed_inTrace tr)

/-! ## Programs that may fail -/

section Fallible

variable {ε : Type}

/-- Run `p` and continue with its value; an error ends the program. -/
def andThen (p : Prog S (Except ε α)) (f : α → Prog S (Except ε β)) : Prog S (Except ε β) :=
  p.bind fun
    | .ok a => f a
    | .error e => ret (.error e)

lemma Sat.andThen {p : Prog S (Except ε α)} {f : α → Prog S (Except ε β)}
    {Q : Except ε α → Prop} {R : Except ε β → Prop} (h : p.Sat C A Q)
    (hok : ∀ a, Q (.ok a) → (f a).Sat C A R) (herr : ∀ e, Q (.error e) → R (.error e)) :
    (p.andThen f).Sat C A R := by
  refine h.bind fun r hr => ?_
  cases r with
  | ok a => exact hok a hr
  | error e => exact herr e hr

lemma returns_andThen_iff {p : Prog S (Except ε α)} {f : α → Prog S (Except ε β)}
    {tr : List (Event S)} {r : Except ε β} :
    Returns (p.andThen f) tr r ↔
      (∃ tr₁ tr₂ a, tr = tr₁ ++ tr₂ ∧ Returns p tr₁ (.ok a) ∧ Returns (f a) tr₂ r) ∨
        ∃ e, r = .error e ∧ Returns p tr (.error e) := by
  rw [Prog.andThen, returns_bind_iff]
  constructor
  · rintro ⟨tr₁, tr₂, x, rfl, h₁, h₂⟩
    cases x with
    | ok a => exact .inl ⟨tr₁, tr₂, a, rfl, h₁, h₂⟩
    | error e =>
      obtain ⟨rfl, rfl⟩ := returns_ret_iff.mp h₂
      exact .inr ⟨e, rfl, by simpa using h₁⟩
  · rintro (⟨tr₁, tr₂, a, rfl, h₁, h₂⟩ | ⟨e, rfl, h⟩)
    · exact ⟨tr₁, tr₂, .ok a, rfl, h₁, h₂⟩
    · exact ⟨tr, [], .error e, by simp, h, Steps.refl _⟩

end Fallible

end Prog
