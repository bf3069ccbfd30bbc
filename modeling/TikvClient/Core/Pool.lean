import TikvClient.Core.Env

/-!
# Programs in the background

A program may start others that go on without it.  `Pool S W τ β` is a state together with the
programs started, each with a label that says what it is; a program that has returned stays, as
its result.  `Env.concurrent` lets them advance at any moment, one node at a time.

**Invariants.**  `Pool.Keeps.preserves` is the rule: what the moves of the environment keep, and the
answers to the calls that anybody makes keep, holds throughout — given that the programs in the
background only make such calls too.
-/

variable {S : Signature} {W τ β : Type}

/-- **A state and the programs in the background.** -/
structure Pool (S : Signature) (W τ β : Type) where
  state : W
  running : List (τ × Prog S β)

namespace Pool

/-- Replace what is left of the `i`-th program. -/
def advance (s : Pool S W τ β) (i : ℕ) (p : Prog S β) : Pool S W τ β :=
  { s with running := s.running.modify i fun x => (x.1, p) }

lemma getElem?_advance (s : Pool S W τ β) (i j : ℕ) (p : Prog S β) :
    (s.advance i p).running[j]? =
      if i = j then s.running[j]?.map fun x => (x.1, p) else s.running[j]? := by
  rw [advance, List.getElem?_modify]
  split_ifs <;> simp

/-- One of the programs advances by a node. -/
inductive Moves (E : Env S (Pool S W τ β)) : Pool S W τ β → Pool S W τ β → Prop where
  | call {s s' : Pool S W τ β} {i : ℕ} {l : τ} {c : S.Call} {k : S.Ans c → Prog S β}
      {ans : S.Ans c} (h : s.running[i]? = some (l, .call c k)) (hr : E.reply s c ans s') :
      Moves E s (s'.advance i (k ans))
  | pick {s : Pool S W τ β} {i : ℕ} {l : τ} {n : ℕ} {k : Fin n → Prog S β}
      (h : s.running[i]? = some (l, .pick n k)) (j : Fin n) : Moves E s (s.advance i (k j))
  | drop {s s' : Pool S W τ β} {i : ℕ} {l : τ} {cs : List S.Call} {k : Prog S β}
      (h : s.running[i]? = some (l, .drop cs k)) (hd : E.dropped s cs s') :
      Moves E s (s'.advance i k)

/-- All the programs in the background only make calls in `C`. -/
def AllSat (C : S.Call → Prop) (s : Pool S W τ β) : Prop :=
  ∀ x ∈ s.running, x.2.Sat C (fun _ _ => True) fun _ => True

lemma AllSat.get {C : S.Call → Prop} {s : Pool S W τ β} (h : s.AllSat C) {i : ℕ}
    {x : τ × Prog S β} (hi : s.running[i]? = some x) :
    x.2.Sat C (fun _ _ => True) fun _ => True :=
  h x (List.mem_of_getElem? hi)

lemma AllSat.advance {C : S.Call → Prop} {s : Pool S W τ β} (h : s.AllSat C) (i : ℕ)
    {p : Prog S β} (hp : p.Sat C (fun _ _ => True) fun _ => True) : (s.advance i p).AllSat C := by
  intro x hx
  obtain ⟨j, hj⟩ := List.getElem?_of_mem hx
  rw [getElem?_advance] at hj
  split_ifs at hj with hij
  · obtain ⟨y, -, rfl⟩ := Option.map_eq_some_iff.mp hj
    exact hp
  · exact h x (List.mem_of_getElem? hj)

end Pool

/-- The environment in which the programs in the background advance. -/
def Env.concurrent (E : Env S (Pool S W τ β)) : Env S (Pool S W τ β) :=
  { E with rely := fun s s' => E.rely s s' ∨ Pool.Moves E s s' }

namespace Pool

/-- **The moves of a pool keep `J`**, when the programs in the background make calls in `C`, and
the program in front calls in `D`: the replies to these calls, the drops, the environment and
the advance of a program that has not returned. -/
structure Keeps (E : Env S (Pool S W τ β)) (C D : S.Call → Prop) (J : Pool S W τ β → Prop) :
    Prop where
  subset : ∀ c, C c → D c
  reply : ∀ {s c ans s'}, D c → E.reply s c ans s' → J s → s.AllSat C → J s' ∧ s'.AllSat C
  dropped : ∀ {s cs s'}, (∀ c ∈ cs, D c) → E.dropped s cs s' → J s → s.AllSat C →
    J s' ∧ s'.AllSat C
  rely : ∀ {s s'}, E.rely s s' → J s → s.AllSat C → J s' ∧ s'.AllSat C
  advance : ∀ {s s' i l c} {k : S.Ans c → Prog S β} {ans},
    s.running[i]? = some (l, .call c k) → C c → E.reply s c ans s' → J s' → J (s'.advance i (k ans))
  pick : ∀ {s i l n} {k : Fin n → Prog S β} {j}, s.running[i]? = some (l, .pick n k) → J s →
    J (s.advance i (k j))
  drop : ∀ {s s' i l cs} {k : Prog S β}, s.running[i]? = some (l, .drop cs k) →
    (∀ c ∈ cs, C c) → E.dropped s cs s' → J s' → J (s'.advance i k)

variable {E : Env S (Pool S W τ β)} {C D : S.Call → Prop} {J : Pool S W τ β → Prop}

lemma Keeps.moves (hk : Keeps E C D J) {s s' : Pool S W τ β} (h : Moves E s s') (hJ : J s)
    (hs : s.AllSat C) : J s' ∧ s'.AllSat C := by
  cases h with
  | call hi hr =>
    have hsat := hs.get hi
    obtain ⟨hJ', hs'⟩ := hk.reply (hk.subset _ hsat.1) hr hJ hs
    exact ⟨hk.advance hi hsat.1 hr hJ', hs'.advance _ (hsat.2 _ trivial)⟩
  | pick hi j => exact ⟨hk.pick hi hJ, hs.advance _ (hs.get hi j)⟩
  | drop hi hd =>
    have hsat := hs.get hi
    obtain ⟨hJ', hs'⟩ := hk.dropped (fun c hc => hk.subset c (hsat.1 c hc)) hd hJ hs
    exact ⟨hk.drop hi hsat.1 hd hJ', hs'.advance _ hsat.2⟩

/-- **Invariants of a pool.** -/
theorem Keeps.preserves (hk : Keeps E C D J) :
    E.concurrent.Preserves D fun s => J s ∧ s.AllSat C where
  reply hc hr hi := hk.reply hc hr hi.1 hi.2
  dropped hc hd hi := hk.dropped hc hd hi.1 hi.2
  rely := by
    rintro s s' (hr | hm) hi
    · exact hk.rely hr hi.1 hi.2
    · exact hk.moves hm hi.1 hi.2

end Pool
