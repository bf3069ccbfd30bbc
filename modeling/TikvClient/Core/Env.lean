import TikvClient.Core.Prog

/-!
# Environments

A program says which calls it makes; an environment says how they may be answered.  `Env S W`
is a relational environment over a state `W`: how a call may be answered, what may happen when
calls are dropped, and which moves the environment makes on its own (`rely`).  `Env.Run w tr
w'` runs the events of a program through it, with such moves in between.

**Invariants.**  `Env.Preserves.run` reduces a property of the states of a run to the single
moves, given which calls the program makes.

**Executing.**  An `Oracle` answers calls by a function of the state.  `Prog.simulate` runs a
program against it, and what it computes is a run (`returns_of_simulate`, `run_of_simulate`):
that is how concrete runs are exhibited.
-/

variable {S : Signature} {W α : Type}

/-- **An environment** over a state `W`. -/
structure Env (S : Signature) (W : Type) where
  reply : W → (c : S.Call) → S.Ans c → W → Prop
  dropped : W → List S.Call → W → Prop
  rely : W → W → Prop

namespace Env

variable {E : Env S W}

/-- The environment goes from `w` to `w'` while the program produces the events `tr`. -/
inductive Run (E : Env S W) : W → List (Event S) → W → Prop where
  | refl (w : W) : Run E w [] w
  | rely {w w' w'' : W} {tr : List (Event S)} (h : E.rely w w') (hr : Run E w' tr w'') :
      Run E w tr w''
  | answered {w w' w'' : W} {c : S.Call} {ans : S.Ans c} {tr : List (Event S)}
      (h : E.reply w c ans w') (hr : Run E w' tr w'') : Run E w (.answered c ans :: tr) w''
  | dropped {w w' w'' : W} {cs : List S.Call} {tr : List (Event S)}
      (h : E.dropped w cs w') (hr : Run E w' tr w'') : Run E w (.dropped cs :: tr) w''

variable {w w' : W} {tr : List (Event S)}
  {w'' : W}

lemma Run.append {tr' : List (Event S)} (h : E.Run w tr w')
    (h' : E.Run w' tr' w'') : E.Run w (tr ++ tr') w'' := by
  induction h with
  | refl w => exact h'
  | rely hm _ ih => exact .rely hm (ih h')
  | answered hm _ ih => exact .answered hm (ih h')
  | dropped hm _ ih => exact .dropped hm (ih h')

/-- A run over `tr₁ ++ tr₂` passes through a state between the two. -/
lemma Run.split {tr₁ tr₂ : List (Event S)} (h : E.Run w (tr₁ ++ tr₂) w'') :
    ∃ w', E.Run w tr₁ w' ∧ E.Run w' tr₂ w'' := by
  generalize htr : tr₁ ++ tr₂ = tr at h
  induction h generalizing tr₁ with
  | refl w =>
    rw [List.append_eq_nil_iff] at htr
    obtain ⟨rfl, rfl⟩ := htr
    exact ⟨w, .refl w, .refl w⟩
  | rely hm _ ih =>
    obtain ⟨w', h₁, h₂⟩ := ih htr
    exact ⟨w', .rely hm h₁, h₂⟩
  | @answered w _ _ c ans tr hm hr ih =>
    cases tr₁ with
    | nil =>
      rw [List.nil_append] at htr
      subst htr
      exact ⟨w, .refl w, .answered hm hr⟩
    | cons e tr₁ =>
      obtain ⟨rfl, htl⟩ := List.cons.inj htr
      obtain ⟨w', h₁, h₂⟩ := ih htl
      exact ⟨w', .answered hm h₁, h₂⟩
  | @dropped w _ _ cs tr hm hr ih =>
    cases tr₁ with
    | nil =>
      rw [List.nil_append] at htr
      subst htr
      exact ⟨w, .refl w, .dropped hm hr⟩
    | cons e tr₁ =>
      obtain ⟨rfl, htl⟩ := List.cons.inj htr
      obtain ⟨w', h₁, h₂⟩ := ih htl
      exact ⟨w', .dropped hm h₁, h₂⟩

/-- An answer in a run was given in some state, from which the run went on. -/
lemma Run.exists_reply {c : S.Call} {ans : S.Ans c}
    (h : E.Run w tr w') (hmem : .answered c ans ∈ tr) :
    ∃ w₁ w₂ tr₂, E.reply w₁ c ans w₂ ∧ E.Run w₂ tr₂ w' := by
  induction h with
  | refl w => cases hmem
  | rely _ _ ih => exact ih hmem
  | answered hm hr ih =>
    rcases List.mem_cons.mp hmem with heq | hmem
    · cases heq
      exact ⟨_, _, _, hm, hr⟩
    · exact ih hmem
  | dropped _ _ ih =>
    rcases List.mem_cons.mp hmem with heq | hmem
    · cases heq
    · exact ih hmem

/-! ### Invariants -/

/-- **The environment keeps `J`**, whatever it does on its own and with calls in `C`. -/
structure Preserves (E : Env S W) (C : S.Call → Prop) (J : W → Prop) : Prop where
  reply : ∀ {w c ans w'}, C c → E.reply w c ans w' → J w → J w'
  dropped : ∀ {w cs w'}, (∀ c ∈ cs, C c) → E.dropped w cs w' → J w → J w'
  rely : ∀ {w w'}, E.rely w w' → J w → J w'

/-- **Invariants of a run**: what the environment keeps holds at the end if it holds at the
start. -/
theorem Preserves.run {C : S.Call → Prop} {J : W → Prop} (hJ : E.Preserves C J) (h : E.Run w tr w')
    (hmade : ∀ e ∈ tr, Event.Made C e) (hw : J w) :
    J w' := by
  induction h with
  | refl w => exact hw
  | rely hm _ ih => exact ih hmade (hJ.rely hm hw)
  | answered hm _ ih =>
    obtain ⟨hc, hrest⟩ := List.forall_mem_cons.mp hmade
    exact ih hrest (hJ.reply hc hm hw)
  | dropped hm _ ih =>
    obtain ⟨hc, hrest⟩ := List.forall_mem_cons.mp hmade
    exact ih hrest (hJ.dropped hc hm hw)

/-! ### States seen through a function -/

/-- The environment over another type of states, each of which stands for one in `W`. -/
def comap {V : Type} (f : V → W) (E : Env S W) : Env S V where
  reply v c ans v' := E.reply (f v) c ans (f v')
  dropped v cs v' := E.dropped (f v) cs (f v')
  rely v v' := E.rely (f v) (f v')

lemma Run.of_comap {V : Type} {f : V → W} {v v' : V}
    (h : (E.comap f).Run v tr v') : E.Run (f v) tr (f v') := by
  induction h with
  | refl v => exact .refl (f v)
  | rely hm _ ih => exact .rely hm ih
  | answered hm _ ih => exact .answered hm ih
  | dropped hm _ ih => exact .dropped hm ih

/-! ### Reaching a point of a program -/

/-- The program can go from `p` in `w` to `q` in `w'`. -/
def Reaches (E : Env S W) (p : Prog S α) (w : W) (q : Prog S α) (w' : W) : Prop :=
  ∃ tr, Prog.Steps p tr q ∧ E.Run w tr w'

section Reaches

variable {β : Type} {w w₁ w' : W} {p q r : Prog S α}

lemma Reaches.refl (E : Env S W) (p : Prog S α) (w : W) : E.Reaches p w p w :=
  ⟨[], .refl p, .refl w⟩

lemma Reaches.trans (h : E.Reaches p w q w₁) (h' : E.Reaches q w₁ r w') : E.Reaches p w r w' := by
  obtain ⟨tr, hsteps, hrun⟩ := h
  obtain ⟨tr', hsteps', hrun'⟩ := h'
  exact ⟨tr ++ tr', hsteps.append hsteps', hrun.append hrun'⟩

lemma Reaches.call {c : S.Call} {k : S.Ans c → Prog S α} (ans : S.Ans c)
    (h : E.reply w c ans w₁) (h' : E.Reaches (k ans) w₁ q w') : E.Reaches (.call c k) w q w' := by
  obtain ⟨tr, hsteps, hrun⟩ := h'
  exact ⟨_, .call ans hsteps, .answered h hrun⟩

lemma Reaches.pick {n : ℕ} {k : Fin n → Prog S α} (i : Fin n) (h : E.Reaches (k i) w q w') :
    E.Reaches (.pick n k) w q w' := by
  obtain ⟨tr, hsteps, hrun⟩ := h
  exact ⟨tr, .pick i hsteps, hrun⟩

lemma Reaches.bind_left (h : E.Reaches p w q w') (f : α → Prog S β) :
    E.Reaches (p.bind f) w (q.bind f) w' := by
  obtain ⟨tr, hsteps, hrun⟩ := h
  exact ⟨tr, hsteps.bind_left f, hrun⟩

/-- Run `p` to its result, and go on from there. -/
lemma Reaches.bind {a : α} {f : α → Prog S β} {r : Prog S β} (h : E.Reaches p w (.ret a) w₁)
    (h' : E.Reaches (f a) w₁ r w') : E.Reaches (p.bind f) w r w' :=
  (h.bind_left f).trans h'

end Reaches

end Env

/-! ## Oracles -/

/-- An environment that computes: how it answers a call, which branch it schedules, and what
it does with dropped calls. -/
structure Oracle (S : Signature) (W : Type) where
  answer : W → (c : S.Call) → Option (S.Ans c × W)
  pick : W → (n : ℕ) → Option (Fin n)
  drop : W → List S.Call → W

/-- The first of the branches. -/
def Oracle.first : (n : ℕ) → Option (Fin n)
  | 0 => none
  | n + 1 => some ⟨0, n.succ_pos⟩

/-- Every answer of the oracle is one the environment may give. -/
structure Oracle.Refines (o : Oracle S W) (E : Env S W) : Prop where
  answer : ∀ {w c ans w'}, o.answer w c = some (ans, w') → E.reply w c ans w'
  drop : ∀ w cs, E.dropped w cs (o.drop w cs)

namespace Prog

/-- Run a program against an oracle. -/
def simulate (o : Oracle S W) : Prog S α → W → Option (List (Event S) × α × W)
  | ret a, w => some ([], a, w)
  | call c k, w =>
    match o.answer w c with
    | none => none
    | some (ans, w') =>
      match (k ans).simulate o w' with
      | none => none
      | some (tr, a, w'') => some (.answered c ans :: tr, a, w'')
  | pick n k, w =>
    match o.pick w n with
    | none => none
    | some i => (k i).simulate o w
  | drop cs k, w =>
    match k.simulate o (o.drop w cs) with
    | none => none
    | some (tr, a, w'') => some (.dropped cs :: tr, a, w'')

variable {o : Oracle S W}
  {p : Prog S α} {w : W}
  {w' : W} {tr : List (Event S)} {a : α}

/-- A simulated run is a run of the program, in every environment the oracle answers for. -/
theorem returns_and_run_of_simulate (h : p.simulate o w = some (tr, a, w')) :
    Returns p tr a ∧ ∀ {E : Env S W}, o.Refines E → E.Run w tr w' := by
  induction p generalizing w tr with
  | ret b =>
    cases h
    exact ⟨Steps.refl _, fun _ => Env.Run.refl _⟩
  | call c k ih =>
    rw [simulate] at h
    split at h
    · cases h
    next ans w₁ hans =>
      split at h
      · cases h
      next tr' a' w'' hsim =>
        cases h
        exact ⟨Steps.call _ (ih _ hsim).1, fun ho => .answered (ho.answer hans) ((ih _ hsim).2 ho)⟩
  | pick n k ih =>
    rw [simulate] at h
    split at h
    · cases h
    · exact ⟨Steps.pick _ (ih _ h).1, (ih _ h).2⟩
  | drop cs k ih =>
    rw [simulate] at h
    split at h
    · cases h
    next tr' a' w'' hsim =>
      cases h
      exact ⟨Steps.drop (ih hsim).1, fun ho => .dropped (ho.drop _ _) ((ih hsim).2 ho)⟩

theorem returns_of_simulate (h : p.simulate o w = some (tr, a, w')) : Returns p tr a :=
  (returns_and_run_of_simulate h).1

theorem run_of_simulate {E : Env S W} (ho : o.Refines E)
    (h : p.simulate o w = some (tr, a, w')) : E.Run w tr w' :=
  (returns_and_run_of_simulate h).2 ho

/-- A check that a simulated run passes is passed by some run. -/
theorem exists_returns_of_simulate
    {check : List (Event S) × α × W → Bool} (h : (p.simulate o w).any check = true) :
    ∃ tr a w', p.simulate o w = some (tr, a, w') ∧ check (tr, a, w') = true := by
  cases hsim : p.simulate o w with
  | none =>
    rw [hsim] at h
    cases h
  | some r =>
    rw [hsim] at h
    exact ⟨r.1, r.2.1, r.2.2, rfl, h⟩

/-! ## Programs without choices -/

/-- A program without choices: how it goes on depends on the answers alone. -/
def Straight : Prog S α → Prop
  | ret _ => True
  | call _ k => ∀ ans, (k ans).Straight
  | pick _ _ => False
  | drop _ k => k.Straight

lemma Straight.bind {f : α → Prog S β} (hp : p.Straight)
    (hf : ∀ a, (f a).Straight) : (p.bind f).Straight := by
  induction p with
  | ret a => exact hf a
  | call c k ih => exact fun ans => ih ans (hp ans)
  | pick n k _ => exact hp.elim
  | drop cs k ih => exact ih hp

/-- A program without choices runs to its end against an oracle that answers every call. -/
theorem Straight.exists_simulate (hp : p.Straight)
    (ho : ∀ w c, ∃ ans w', o.answer w c = some (ans, w')) (w : W) :
    ∃ tr a w', p.simulate o w = some (tr, a, w') := by
  induction p generalizing w with
  | ret a => exact ⟨[], a, w, rfl⟩
  | call c k ih =>
    obtain ⟨ans, w₁, hans⟩ := ho w c
    obtain ⟨tr, a, w', hsim⟩ := ih ans (hp ans) w₁
    exact ⟨.answered c ans :: tr, a, w', by rw [simulate, hans]; simp only [hsim]⟩
  | pick n k _ => exact hp.elim
  | drop cs k ih =>
    obtain ⟨tr, a, w', hsim⟩ := ih hp (o.drop w cs)
    exact ⟨.dropped cs :: tr, a, w', by rw [simulate, hsim]⟩

end Prog
