import TikvClient.Core.Prog

/-!
# Programs with a state

`StateProg S σ ε α` is a program over a state `σ` that may fail with an `ε`, built from the
standard transformers: a method `async fn op(&mut self) -> Result<T, E>`.  The state survives a
failure.

**Triples.**  `Triple C A P m Q`: from a state that satisfies `P`, and as long as the answers
satisfy `A`, the program `m` makes only calls in `C`, and its result and final state satisfy
`Q`.  There is one rule per way to build a program.
-/

/-- **A program over a state that may fail.** -/
abbrev StateProg (S : Signature) (σ ε α : Type) := ExceptT ε (StateT σ (Prog S)) α

namespace StateProg

variable {S : Signature} {σ ε α β : Type}

/-- Run `m` from the state `s`. -/
def exec (m : StateProg S σ ε α) (s : σ) : Prog S (Except ε α × σ) :=
  m.run.run s

/-- A program without a state. -/
def ofProg (p : Prog S (Except ε α)) : StateProg S σ ε α :=
  ExceptT.mk fun s => p.bind fun r => .ret (r, s)

/-- A program without a state that cannot fail. -/
def ofCall (p : Prog S α) : StateProg S σ ε α :=
  ExceptT.mk fun s => p.bind fun a => .ret (.ok a, s)

@[simp] lemma exec_get (s : σ) : (get : StateProg S σ ε σ).exec s = .ret (.ok s, s) := rfl

@[simp] lemma exec_modify (f : σ → σ) (s : σ) :
    (modify f : StateProg S σ ε PUnit).exec s = .ret (.ok ⟨⟩, f s) := rfl

@[simp] lemma exec_ofProg (p : Prog S (Except ε α)) (s : σ) :
    (ofProg p : StateProg S σ ε α).exec s = p.bind fun r => .ret (r, s) := rfl

@[simp] lemma exec_ofCall (p : Prog S α) (s : σ) :
    (ofCall p : StateProg S σ ε α).exec s = p.bind fun a => .ret (.ok a, s) := rfl

/-- What a sequence does: the second part runs only if the first succeeds. -/
lemma exec_get_bind (f : σ → StateProg S σ ε α) (s : σ) : (get >>= f).exec s = (f s).exec s := rfl

lemma exec_bind (m : StateProg S σ ε α) (f : α → StateProg S σ ε β) (s : σ) :
    (m >>= f).exec s = (m.exec s).bind fun r =>
      match r.1 with
      | .ok a => (f a).exec r.2
      | .error e => .ret (.error e, r.2) := by
  have hcont : ∀ r : Except ε α × σ, (ExceptT.bindCont f r.1 : StateT σ (Prog S) _) r.2 =
      match r.1 with
      | .ok a => (f a).exec r.2
      | .error e => .ret (.error e, r.2) := by
    rintro ⟨r, s⟩
    cases r <;> rfl
  exact congrArg (Prog.bind (m.exec s)) (funext hcont)

variable {s s' : σ} {tr : List (Event S)} {r : Except ε β}

/-- **A run of a sequence** is a run of its first part and, if that succeeds, one of the second. -/
lemma returns_exec_bind_iff {m : StateProg S σ ε α} {f : α → StateProg S σ ε β} :
    Prog.Returns ((m >>= f).exec s) tr (r, s') ↔
      (∃ tr₁ tr₂ a s₁, tr = tr₁ ++ tr₂ ∧ Prog.Returns (m.exec s) tr₁ (.ok a, s₁) ∧
          Prog.Returns ((f a).exec s₁) tr₂ (r, s')) ∨
        ∃ e, r = .error e ∧ Prog.Returns (m.exec s) tr (.error e, s') := by
  rw [exec_bind, Prog.returns_bind_iff]
  constructor
  · rintro ⟨tr₁, tr₂, ⟨x, s₁⟩, rfl, h₁, h₂⟩
    cases x with
    | ok a => exact .inl ⟨tr₁, tr₂, a, s₁, rfl, h₁, h₂⟩
    | error e =>
      obtain ⟨rfl, heq⟩ := Prog.returns_ret_iff.mp h₂
      cases heq
      exact .inr ⟨e, rfl, by simpa using h₁⟩
  · rintro (⟨tr₁, tr₂, a, s₁, rfl, h₁, h₂⟩ | ⟨e, rfl, h⟩)
    · exact ⟨tr₁, tr₂, (.ok a, s₁), rfl, h₁, h₂⟩
    · exact ⟨tr, [], (.error e, s'), by simp, h, .refl _⟩

lemma returns_get_bind_iff {f : σ → StateProg S σ ε β} :
    Prog.Returns ((get >>= f).exec s) tr (r, s') ↔ Prog.Returns ((f s).exec s) tr (r, s') := by
  rw [exec_bind]
  exact Iff.rfl

lemma returns_modify_bind_iff {g : σ → σ} {f : PUnit → StateProg S σ ε β} :
    Prog.Returns ((modify g >>= f).exec s) tr (r, s') ↔
      Prog.Returns ((f ⟨⟩).exec (g s)) tr (r, s') := by
  rw [exec_bind]
  exact Iff.rfl

lemma returns_ofProg_iff {p : Prog S (Except ε α)} {r : Except ε α} :
    Prog.Returns ((ofProg p : StateProg S σ ε α).exec s) tr (r, s') ↔
      s' = s ∧ Prog.Returns p tr r := by
  rw [exec_ofProg, Prog.returns_bind_iff]
  constructor
  · rintro ⟨tr₁, tr₂, x, rfl, h₁, h₂⟩
    obtain ⟨rfl, heq⟩ := Prog.returns_ret_iff.mp h₂
    cases heq
    exact ⟨rfl, by simpa using h₁⟩
  · rintro ⟨rfl, h⟩
    exact ⟨tr, [], r, by simp, h, .refl _⟩

lemma returns_ofCall_iff {p : Prog S α} {r : Except ε α} :
    Prog.Returns ((ofCall p : StateProg S σ ε α).exec s) tr (r, s') ↔
      s' = s ∧ ∃ a, r = .ok a ∧ Prog.Returns p tr a := by
  rw [exec_ofCall, Prog.returns_bind_iff]
  constructor
  · rintro ⟨tr₁, tr₂, x, rfl, h₁, h₂⟩
    obtain ⟨rfl, heq⟩ := Prog.returns_ret_iff.mp h₂
    cases heq
    exact ⟨rfl, x, rfl, by simpa using h₁⟩
  · rintro ⟨rfl, a, rfl, h⟩
    exact ⟨tr, [], a, by simp, h, .refl _⟩

/-! ## Triples -/

section Triple

variable {C : S.Call → Prop} {A : (c : S.Call) → S.Ans c → Prop}

/-- **Calls and results from a precondition.** -/
def Triple (C : S.Call → Prop) (A : (c : S.Call) → S.Ans c → Prop) (P : σ → Prop)
    (m : StateProg S σ ε α) (Q : Except ε α → σ → Prop) : Prop :=
  ∀ s, P s → (m.exec s).Sat C A fun r => Q r.1 r.2

variable {P P' : σ → Prop} {Q Q' : Except ε α → σ → Prop} {R : Except ε β → σ → Prop}
  {m : StateProg S σ ε α}

lemma Triple.conseq (h : Triple C A P m Q) (hP : ∀ s, P' s → P s)
    (hQ : ∀ r s, Q r s → Q' r s) : Triple C A P' m Q' :=
  fun s hs => (h s (hP s hs)).post fun r => hQ r.1 r.2

lemma Triple.pure {a : α} (h : ∀ s, P s → Q (.ok a) s) :
    Triple C A P (Pure.pure a : StateProg S σ ε α) Q :=
  fun s hs => h s hs

lemma Triple.throw {e : ε} (h : ∀ s, P s → Q (.error e) s) :
    Triple C A P (MonadExcept.throw e : StateProg S σ ε α) Q :=
  fun s hs => h s hs

lemma Triple.bind {f : α → StateProg S σ ε β} (h : Triple C A P m Q)
    (hf : ∀ a, Triple C A (Q (.ok a)) (f a) R) (herr : ∀ e s, Q (.error e) s → R (.error e) s) :
    Triple C A P (m >>= f) R := by
  intro s hs
  rw [exec_bind]
  refine (h s hs).bind fun r hr => ?_
  obtain ⟨r, s'⟩ := r
  cases r with
  | ok a => exact hf a s' hr
  | error e => exact herr e s' hr

lemma Triple.discard {Q : σ → Prop} (h : Triple C A P m fun _ => Q) :
    Triple C A P (do let _ ← m) fun _ => Q :=
  Triple.bind h (fun _ => Triple.pure fun _ hs => hs) fun _ _ hs => hs

lemma Triple.get_bind {f : σ → StateProg S σ ε β}
    (h : ∀ s, P s → Triple C A (· = s) (f s) R) : Triple C A P (get >>= f) R := by
  intro s hs
  rw [exec_bind]
  exact h s hs s rfl

lemma Triple.modify {f : σ → σ} {Q : Except ε PUnit → σ → Prop}
    (h : ∀ s, P s → Q (.ok ⟨⟩) (f s)) :
    Triple C A P (modify f : StateProg S σ ε PUnit) Q :=
  fun s hs => h s hs

lemma Triple.ofProg {p : Prog S (Except ε α)} {Q' : Except ε α → Prop} (h : p.Sat C A Q')
    (hQ : ∀ r s, P s → Q' r → Q r s) : Triple C A P (ofProg p) Q :=
  fun s hs => Prog.Sat.bind h fun r hr => hQ r s hs hr

lemma Triple.ofCall {p : Prog S α} {Q' : α → Prop} (h : p.Sat C A Q')
    (hQ : ∀ a s, P s → Q' a → Q (.ok a) s) : Triple C A P (ofCall p) Q :=
  fun s hs => Prog.Sat.bind h fun a ha => hQ a s hs ha

lemma Triple.of_returns (h : Triple C A P m Q) {s s' : σ}
    {tr : List (Event S)} {r : Except ε α} (hs : P s)
    (hr : Prog.Returns (m.exec s) tr (r, s')) (hA : ∀ e ∈ tr, Event.Allowed A e) :
    (∀ e ∈ tr, Event.Made C e) ∧ Q r s' :=
  (h s hs).of_steps hr hA

end Triple

end StateProg
