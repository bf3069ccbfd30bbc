import TikvClient.Core.Matched
import TikvClient.Request.Plan

/-!
# The messages of a run

What a run sends, read off its events: the requests of one kind, in the order in which they were
answered or given up.

**Sending a request once.**  A plan may send the same item again and again, whenever a shard has to
be retried.  If all its messages are answered without errors it does not: `SendsOnce.of_returns`
says that they have the items of the request, each once — for every sharding, retry and schedule.
-/

namespace TikvClient

open Prog

variable {R Shard Resp I : Type}

/-! ## Calls and messages -/

/-- The calls of an event. -/
def eventCalls : Event sig → List Call
  | .answered c _ => [c]
  | .dropped cs => cs

/-- The calls of a run, answered or not. -/
def callsOf (tr : Trace) : List Call := tr.flatMap eventCalls

lemma callsOf_append (tr tr' : Trace) :
    callsOf (tr ++ tr') = callsOf tr ++ callsOf tr' := by
  simp [callsOf]

variable {C : Call → Prop} {tr : Trace}

lemma made_iff {e : Event sig} : Event.Made C e ↔ ∀ c ∈ eventCalls e, C c := by
  cases e with
  | answered c ans => simp [Event.Made, eventCalls]
  | dropped cs => rfl

lemma forall_callsOf_of_made (h : ∀ e ∈ tr, Event.Made C e) : ∀ c ∈ callsOf tr, C c := by
  intro c hc
  obtain ⟨e, he, hce⟩ := List.mem_flatMap.mp hc
  exact made_iff.mp (h e he) c hce

lemma forall_callsOf {α : Type} {Q : α → Prop} {p : Async α} {a : α}
    (h : p.Sat C (fun _ _ => True) Q) (hrun : Returns p tr a) :
    ∀ c ∈ callsOf tr, C c :=
  forall_callsOf_of_made (h.of_steps hrun fun e _ => by cases e <;> trivial).1

/-- **The messages of one kind.** -/
def messages (ofCall : Call → Option R) (tr : Trace) : List R :=
  (callsOf tr).filterMap ofCall

section Messages

variable {ofCall : Call → Option R}

@[simp] lemma messages_append (ofCall : Call → Option R) (tr tr' : Trace) :
    messages ofCall (tr ++ tr') = messages ofCall tr ++ messages ofCall tr' := by
  simp [messages, callsOf]

lemma messages_flatMap {ι : Type} (l : List ι) (f : ι → Trace) :
    messages ofCall (l.flatMap f) = l.flatMap fun i => messages ofCall (f i) := by
  induction l with
  | nil => rfl
  | cons i l ih => simp [ih]

variable {tr : Trace}

lemma messages_perm {tr' : Trace} (h : tr.Perm tr') :
    (messages ofCall tr).Perm (messages ofCall tr') :=
  (h.flatMap_right _).filterMap _

lemma messages_eq_nil (h : ∀ c ∈ callsOf tr, ofCall c = none) :
    messages ofCall tr = [] :=
  List.filterMap_eq_nil_iff.mpr h

end Messages

/-! ## Sending a request once -/

namespace ShardedPlan

/-- **What a plan sends if nothing fails.**  The shards of a request share out its items, and
executing one sends a single message, which is answered without errors. -/
structure SendsOnce (plan : ShardedPlan R Shard Resp) (ofCall : Call → Option R)
    (Fine : Event sig → Prop) (items : R → List I) (Inv : R → Prop) : Prop where
  shards : ∀ r tr ss, Inv r → Returns (plan.shards r) tr (.ok ss) → (∀ e ∈ tr, Fine e) →
    messages ofCall tr = [] ∧ (∀ s ∈ ss, Inv (plan.applyShard r s.1)) ∧
      (ss.flatMap fun s => items (plan.applyShard r s.1)).Perm (items r)
  applyStore : ∀ attempt r, Inv r →
    Inv (plan.applyStore attempt r) ∧ items (plan.applyStore attempt r) = items r
  execute : ∀ region r tr res, Returns (plan.execute region r) tr res → (∀ e ∈ tr, Fine e) →
    messages ofCall tr = [r] ∧
      ∃ resp, res = .ok resp ∧ plan.keyErrors resp = none ∧ plan.regionError resp = none
  mapRegionToStore : ∀ region, ofCall (.mapRegionToStore region) = none

/-- The messages have the items of the request, each once. -/
structure Sent (ofCall : Call → Option R) (items : R → List I) (Inv : R → Prop) (r : R)
    (tr : Trace) : Prop where
  inv : ∀ m ∈ messages ofCall tr, Inv m
  perm : ((messages ofCall tr).flatMap items).Perm (items r)

section Rule

variable {plan : ShardedPlan R Shard Resp} {ofCall : Call → Option R} {Fine : Event sig → Prop}
  {items : R → List I} {Inv : R → Prop} {retry : Retry R Resp} {r : R} {tr : Trace}
  {backoff : Backoff} {attempt : ℕ} {results : ShardResults R Resp}

lemma Sent.append_left {tr₀ : Trace} (h : Sent ofCall items Inv r tr)
    (hnone : messages ofCall tr₀ = []) : Sent ofCall items Inv r (tr₀ ++ tr) := by
  refine ⟨?_, ?_⟩
  · rw [messages_append, hnone]
    exact h.inv
  · rw [messages_append, hnone]
    exact h.perm

/-- A retry after an error. -/
lemma sent_handleOtherError {e : Error}
    (hretry : ∀ b a tr results, Returns (retry r b a) tr (.ok results) → (∀ e ∈ tr, Fine e) →
      Sent ofCall items Inv r tr)
    (hrun : Returns (handleOtherError retry r backoff attempt e) tr (.ok results))
    (hfine : ∀ e ∈ tr, Fine e) : Sent ofCall items Inv r tr := by
  unfold handleOtherError at hrun
  split at hrun
  · exact hretry _ _ _ _ hrun hfine
  · cases (returns_ret_iff.mp hrun).2

/-- **A shard** sends its request once, when it comes to that. -/
lemma SendsOnce.sent_singleShardHandler (h : plan.SendsOnce ofCall Fine items Inv)
    (hretry : ∀ r b a tr results, Inv r → Returns (retry r b a) tr (.ok results) →
      (∀ e ∈ tr, Fine e) → Sent ofCall items Inv r tr)
    (hr : Inv r) (region : Region)
    (hrun : Returns (plan.singleShardHandler retry r region backoff attempt) tr (.ok results))
    (hfine : ∀ e ∈ tr, Fine e) : Sent ofCall items Inv r tr := by
  unfold singleShardHandler at hrun
  split at hrun
  · exact sent_handleOtherError (fun b a tr results => hretry r b a tr results hr) hrun hfine
  · obtain ⟨tr₁, tr₂, mapped, rfl, hmap, hrest⟩ := returns_bind_iff.mp hrun
    obtain rfl := returns_ask_iff.mp hmap
    have hnone : messages ofCall [.answered (.mapRegionToStore region) mapped] = [] :=
      messages_eq_nil fun c hc => by
        obtain rfl := List.mem_singleton.mp hc
        exact h.mapRegionToStore region
    have hfine₂ : ∀ e ∈ tr₂, Fine e := fun e he => hfine e (List.mem_append_right _ he)
    refine Sent.append_left ?_ hnone
    split at hrest
    · exact sent_handleOtherError (fun b a tr results => hretry r b a tr results hr) hrest hfine₂
    · cases (returns_ret_iff.mp hrest).2
    · obtain ⟨tr₃, tr₄, res, rfl, hexec, hresp⟩ := returns_bind_iff.mp hrest
      obtain ⟨hsent, resp, rfl, hkey, hregion⟩ := h.execute region _ tr₃ res hexec fun e he =>
        hfine₂ e (List.mem_append_left _ he)
      -- there is nothing left to handle
      dsimp only at hresp
      rw [handleResponse, hkey, hregion] at hresp
      obtain ⟨rfl, -⟩ := returns_ret_iff.mp hresp
      obtain ⟨hinv, hitems⟩ := h.applyStore attempt r hr
      rw [List.append_nil]
      refine ⟨?_, ?_⟩
      · rw [hsent]
        exact List.forall_mem_singleton.mpr hinv
      · rw [hsent, List.flatMap_singleton, hitems]

/-- Runs of the shards, in any order, send what the request is made of. -/
lemma sent_of_interleaves {ss : List (Shard × Region)}
    {progs : Shard × Region → AsyncResult (ShardResults R Resp)}
    (hruns : Interleaves (Absorbed (onShardError false : Error → Option (ShardResults R Resp)))
      (ss.map progs) tr)
    (hshards : ∀ s ∈ ss, ∀ tr results, Returns (progs s) tr (.ok results) → (∀ e ∈ tr, Fine e) →
      Sent ofCall items Inv (plan.applyShard r s.1) tr)
    (hperm : (ss.flatMap fun s => items (plan.applyShard r s.1)).Perm (items r))
    (hfine : ∀ e ∈ tr, Fine e) : Sent ofCall items Inv r tr := by
  obtain ⟨runs, hprogs, hruns, htr⟩ := hruns
  -- the runs in the order of the shards
  obtain ⟨runs', hruns', hmap⟩ := Matched.exists_perm_map_eq hprogs
  have hmatched : List.Forall₂ (fun s run => run.1 = progs s) ss runs' := by
    have heq : List.Forall₂ (· = ·) (runs'.map Prod.fst) (ss.map progs) := by
      rw [hmap]
      exact List.forall₂_refl _
    rw [List.forall₂_map_left_iff, List.forall₂_map_right_iff] at heq
    exact heq.flip
  have hsent : List.Forall₂ (fun s run => Sent ofCall items Inv (plan.applyShard r s.1) run.2)
      ss runs' := by
    refine Matched.imp_of_mem hmatched fun s run hs hrun hprog => ?_
    have hmem := hruns'.mem_iff.mp hrun
    obtain ⟨x, hx, habsorbed⟩ := hruns run hmem
    cases x with
    | error e => exact absurd rfl habsorbed
    | ok results =>
      refine hshards s hs run.2 results (hprog ▸ hx) fun e he => hfine e ?_
      exact htr.mem_iff.mpr (List.mem_flatMap.mpr ⟨run, hmem, he⟩)
  have hmessages :
      (messages ofCall tr).Perm (runs'.map fun run => messages ofCall run.2).flatten := by
    refine (messages_perm (htr.trans (hruns'.symm.flatMap_right _))).trans ?_
    rw [messages_flatMap, List.flatMap]
  refine ⟨fun m hm => ?_, ?_⟩
  · obtain ⟨_, hL, hm⟩ := List.mem_flatten.mp (hmessages.mem_iff.mp hm)
    obtain ⟨run, hrun, rfl⟩ := List.mem_map.mp hL
    obtain ⟨s, -, hs⟩ := Matched.exists_left hsent hrun
    exact hs.inv m hm
  · refine ((hmessages.flatMap_right items).trans ?_).trans hperm
    refine (PartOf.flatMap (List.forall₂_map_right_iff.mpr ?_)).perm trivial
    exact hsent.imp fun s run hs => .of_perm hs.perm

/-- **If nothing fails, the items of the request are sent once.** -/
theorem SendsOnce.of_returns (h : plan.SendsOnce ofCall Fine items Inv) (fuel : ℕ) :
    ∀ r backoff attempt tr results, Inv r →
      Returns (plan.singlePlanHandler false fuel r backoff attempt) tr (.ok results) →
      (∀ e ∈ tr, Fine e) → Sent ofCall items Inv r tr := by
  -- Induction on the fuel: a retry is a plan with one unit less.
  induction fuel with
  | zero => exact fun _ _ _ _ _ _ hrun => absurd hrun not_returns_stuck
  | succ fuel ih =>
    intro r backoff attempt tr results hr hrun hfine
    obtain ⟨tr₁, tr₂, ss, rfl, hshards, hjoin⟩ | ⟨e, he, -⟩ := returns_andThen_iff.mp hrun
    · obtain ⟨hnone, hinv, hperm⟩ := h.shards r tr₁ ss hr hshards fun e he =>
        hfine e (List.mem_append_left _ he)
      refine Sent.append_left ?_ hnone
      refine sent_of_interleaves (interleaves_of_returns_join fuel hjoin trivial)
        (fun s hs tr results hrun hfine => ?_) hperm fun e he =>
          hfine e (List.mem_append_right _ he)
      exact h.sent_singleShardHandler (fun r b a tr results => ih r b a tr results) (hinv s hs)
        s.2 hrun hfine
    · cases he

end Rule

end ShardedPlan

end TikvClient
