import TikvClient.Transaction.BufferLemmas
import TikvClient.Transaction.RequestLemmas
import TikvClient.Transaction.Transaction

/-!
# One-phase commit: when it cannot split a transaction

With `try_one_pc` a prewrite request asks TiKV to commit its mutations at once.  That is only
sound for a request that carries the whole transaction, so `apply_shard` switches the request
back to two phases when the shard looks incomplete.

**The test** compares the number of mutations of the shard with the number of *secondaries*
plus one — and the secondaries are the commit keys without the primary.  Mutations that are
prewritten but not committed (existence checks, prewrite-only keys) are not counted, so a
shard that leaves them out can look complete.  `onePc_whole_iff` says exactly when that can
happen.

**Lost mutations.**  Those from the first failed lookup on are not prewritten at all.
-/

namespace TikvClient

open Proto Prog

namespace Committer

/-! ## What is asked of a prewrite -/

/-- The mutations contain the key. -/
def HasKey (pk : Key) (mutations : List Proto.Mutation) : Prop := ∃ m ∈ mutations, m.key = pk

instance (pk : Key) (mutations : List Proto.Mutation) : Decidable (HasKey pk mutations) :=
  inferInstanceAs (Decidable (∃ m ∈ mutations, m.key = pk))

/-- A request that keeps `try_one_pc` carries all the mutations, and with async commit the
secondaries are with the primary and nowhere else. -/
def LeafSafe (c : Committer) (pk : Key) : Call → Prop
  | .rpc _ (.prewrite r) =>
    (r.tryOnePc = true → r.mutations.Perm c.prewriteMutations) ∧
      (c.options.asyncCommit = true →
        r.secondaries = if HasKey pk r.mutations then c.secondaries pk else [])
  | _ => True

/-- TiKV commits by 1PC only what asks for it. -/
def OnePcHonest (tr : Trace) : Prop :=
  ∀ region r, ∀ resp : PrewriteResponse,
    Event.answered (S := sig) (.rpc region (.prewrite r)) (.ok resp) ∈ tr →
      resp.onePcCommitTs ≠ 0 → r.tryOnePc = true

/-- **The prewrite of a transaction never splits it**, in any run of its plan.  The leaves of
a plan are the requests that are sent; those of a plan that succeeds come with a response. -/
structure OnePcWhole (Whole : Trace → Prop) (c : Committer) (pk : Key) : Prop where
  /-- The leaves share out the mutations, in runs that are `Whole`. -/
  partition : ∀ fuel ms tr leaves,
    Returns (c.prewriteAll fuel (c.prewriteRequest pk ms)) tr (.ok leaves) → Whole tr →
      (leaves.flatMap fun leaf => leaf.1.mutations).Perm c.prewriteMutations
  /-- Every request sent, answered or dropped, is safe. -/
  leaf : ∀ fuel ms tr p, Steps (c.prewriteAll fuel (c.prewriteRequest pk ms)) tr p →
    ∀ e ∈ tr, Event.Made (S := sig) (c.LeafSafe pk) e
  /-- The assertion on the responses holds. -/
  noPanic : ∀ fuel ms tr leaves,
    Returns (c.prewriteAll fuel (c.prewriteRequest pk ms)) tr (.ok leaves) → OnePcHonest tr →
      c.prewriteFinish (leaves.map Prod.snd) ≠
        .error (.panicked "assertion failed: r.one_pc_commit_ts == 0")
  /-- Whatever is committed by 1PC is the whole transaction. -/
  noSubset : ∀ fuel ms tr p, Steps (c.prewriteAll fuel (c.prewriteRequest pk ms)) tr p →
    OnePcHonest tr → ∀ region r, ∀ resp : PrewriteResponse,
      Event.answered (S := sig) (.rpc region (.prewrite r)) (.ok resp) ∈ tr →
        resp.onePcCommitTs ≠ 0 → r.mutations.Perm c.prewriteMutations

/-- **A part that looks complete**: a proper run of consecutive mutations that contains the
primary, can be a batch, and has as many mutations as there are commit keys. -/
def HasOnePcCut (c : Committer) (pk : Key) : Prop :=
  ∃ part, part <:+: c.prewriteMutations ∧ part ≠ c.prewriteMutations ∧ HasKey pk part ∧
    part.length = (c.secondaries pk).length + 1 ∧
    FitsBatch mutationSize txnCommitBatchSize part

/-! ## The invariant of the requests -/

section Invariant

variable {c : Committer} {pk : Key}

/-- What sharding hands down: the addressee, the options, and the secondaries with the primary. -/
structure OnePcShape (c : Committer) (pk : Key) (r : PrewriteRequest) : Prop where
  primaryLock : r.primaryLock = pk
  useAsyncCommit : r.useAsyncCommit = c.options.asyncCommit
  isInfix : r.mutations <:+: c.prewriteMutations
  secondaries : HasKey pk r.mutations → r.secondaries = c.secondaries pk

/-- **A leaf**: a request that went through `apply_shard`. -/
structure OnePcLeaf (c : Committer) (pk : Key) (r : PrewriteRequest) : Prop
    extends OnePcShape c pk r where
  nonempty : r.mutations ≠ []
  others : c.options.asyncCommit = true → ¬ HasKey pk r.mutations → r.secondaries = []
  onePc : r.tryOnePc = true → HasKey pk r.mutations ∧
    r.mutations.length = (c.secondaries pk).length + 1 ∧
    FitsBatch mutationSize txnCommitBatchSize r.mutations

lemma onePcShape_prewriteRequest (ms : ℕ) : OnePcShape c pk (c.prewriteRequest pk ms) := by
  unfold prewriteRequest
  cases c.options.kind <;> exact ⟨rfl, rfl, List.infix_rfl, fun _ => rfl⟩

variable {r : PrewriteRequest} (h : OnePcShape c pk r)
  (hsorted : c.prewriteMutations.Pairwise fun m m' => m.key < m'.key)

include h hsorted

/-- Sorted mutations stay as they are, so a shard is a run of consecutive mutations. -/
lemma OnePcShape.isInfix_of_shard {part : List Proto.Mutation} (hpart : IsPrewriteShard r part) :
    part <:+: r.mutations := by
  have hr : r.mutations.Pairwise fun m m' => m.key ≤ m'.key :=
    (hsorted.sublist h.isInfix.sublist).imp fun hlt => hlt.le
  rw [← hr.insertionSort_eq]
  exact hpart.isInfix

lemma OnePcShape.applyShard {s : PrewriteShard} (hs : IsPrewriteShard r s.mutations) :
    OnePcLeaf c pk (PrewriteRequest.applyShard r s) := by
  have hpart := h.isInfix_of_shard hsorted hs
  have hany : (s.mutations.any fun m => m.key = r.primaryLock) = true ↔ HasKey pk s.mutations := by
    simp [HasKey, h.primaryLock]
  -- The primary's shard keeps the secondaries it inherits.
  have hsec : HasKey pk s.mutations → r.secondaries = c.secondaries pk := fun ⟨m, hm, hkey⟩ =>
    h.secondaries ⟨m, hpart.subset hm, hkey⟩
  by_cases hprimary : HasKey pk s.mutations
  · have hkeep : (PrewriteRequest.applyShard r s).secondaries = c.secondaries pk := by
      simp [PrewriteRequest.applyShard, hany.mpr hprimary, hsec hprimary]
    refine ⟨⟨h.primaryLock, h.useAsyncCommit, hpart.trans h.isInfix, fun _ => hkeep⟩, hs.nonempty,
      fun _ hno => absurd hprimary hno, fun hpc => ⟨hprimary, ?_, hs.fits⟩⟩
    by_contra hlen
    simp [PrewriteRequest.applyShard, hany.mpr hprimary, hsec hprimary] at hpc hlen
    rcases hpc with ⟨hoff | heq, hon⟩
    · rw [hoff] at hon
      cases hon
    · exact hlen heq
  · have hnot : (s.mutations.any fun m => m.key = r.primaryLock) = false := by
      rwa [← Bool.not_eq_true, hany]
    refine ⟨⟨h.primaryLock, h.useAsyncCommit, hpart.trans h.isInfix,
      fun hp => absurd hp hprimary⟩, hs.nonempty, fun hasync _ => ?_, fun hpc => ?_⟩
    · simp [PrewriteRequest.applyShard, hnot, h.useAsyncCommit, hasync]
    · simp [PrewriteRequest.applyShard, hnot] at hpc

end Invariant

/-! ## No cut, no split -/

section Whole

variable {c : Committer} {pk : Key}

lemma prewriteRequest_mutations (c : Committer) (pk : Key) (ms : ℕ) :
    (c.prewriteRequest pk ms).mutations = c.prewriteMutations := by
  unfold prewriteRequest
  cases c.options.kind <;> rfl

lemma OnePcLeaf.safe (hcut : ¬ c.HasOnePcCut pk) {r : PrewriteRequest} (h : OnePcLeaf c pk r)
    (region : Region) : c.LeafSafe pk (.rpc region (.prewrite r)) := by
  constructor
  · intro hpc
    obtain ⟨hkey, hlen, hfits⟩ := h.onePc hpc
    by_contra hperm
    refine hcut ⟨r.mutations, h.isInfix, fun heq => hperm ?_, hkey, hlen, hfits⟩
    rw [heq]
  · intro hasync
    split_ifs with hkey
    · exact h.secondaries hkey
    · exact h.others hasync hkey

/-- **Every request of the prewrite is safe, and the leaves cover the mutations.** -/
theorem sat_prewriteAll {A : Answers}
    (hsorted : c.prewriteMutations.Pairwise fun m m' => m.key < m'.key)
    (hcut : ¬ c.HasOnePcCut pk) (fuel ms : ℕ) :
    (c.prewriteAll fuel (c.prewriteRequest pk ms)).Sat (c.LeafSafe pk) A fun res =>
      ∀ leaves, res = .ok leaves →
        Covered (·.mutations) (OnePcLeaf c pk)
          (Dispatch.prewrite.Done fun r resp => ∃ region, A (.rpc region (.prewrite r)) (.ok resp))
          (Finds A) (c.prewriteRequest pk ms) leaves := by
  have hrouting : Routing (c.LeafSafe pk) :=
    ⟨fun _ => trivial, fun _ => trivial, fun _ _ => trivial⟩
  have hsends : Dispatch.prewrite.Sends (c.LeafSafe pk) A (·.mutations) (OnePcLeaf c pk) _
      (Finds A) := sends_prewrite hrouting (fun _ _ hr hs => hr.toOnePcShape.applyShard hsorted hs)
      (fun _ _ hr => ⟨⟨hr.primaryLock, hr.useAsyncCommit, hr.isInfix, hr.secondaries⟩,
        hr.nonempty, hr.others, hr.onePc⟩) fun region _ hr => hr.safe hcut region
  have hroot : Dispatch.prewrite.plan.ShardsInto (c.LeafSafe pk) A (·.mutations) (OnePcLeaf c pk)
      (Finds A) (c.prewriteRequest pk ms) :=
    shardsInto_prewrite hrouting fun _ hs => (onePcShape_prewriteRequest ms).applyShard hsorted hs
  refine Sat.andThen (hsends.sat_executeShards hrouting trivial
    (fun _ _ _ _ _ _ => ⟨fun _ _ => trivial, fun _ _ => trivial⟩) fuel _ hroot)
    (fun results hresults leaves hleaves => ?_) fun _ _ _ h => by cases h
  obtain ⟨hok, rfl⟩ := collectError_eq_ok_iff.mp hleaves
  exact ⟨(hresults results rfl).done, (hresults results rfl).part.imp (⟨hok, ·⟩)⟩

/-- Parts that are not empty and together no longer than one of them are that one. -/
lemma eq_singleton_of_length {R I : Type} {leaves : List R} {items : R → List I} {x : R}
    (hne : ∀ y ∈ leaves, items y ≠ []) (hx : x ∈ leaves)
    (hlen : (leaves.flatMap items).length ≤ (items x).length) : leaves = [x] := by
  obtain ⟨before, after, rfl⟩ := List.append_of_mem hx
  rw [List.flatMap_append, List.flatMap_cons, List.length_append, List.length_append] at hlen
  have hnil : ∀ part : List R, (part.flatMap items).length = 0 → (∀ y ∈ part, items y ≠ []) →
      part = [] := by
    intro part hzero hpart
    rw [List.length_eq_zero_iff, List.flatMap_eq_nil_iff] at hzero
    rw [List.eq_nil_iff_forall_not_mem]
    exact fun y hy => hpart y hy (hzero y hy)
  have hbefore := hnil before (by omega) fun y hy => hne y (List.mem_append_left _ hy)
  have hafter := hnil after (by omega) fun y hy =>
    hne y (List.mem_append_right _ (List.mem_cons_of_mem _ hy))
  rw [hbefore, hafter, List.nil_append]

theorem onePcWhole_of_not_hasOnePcCut (hpc : c.options.tryOnePc = true)
    (hsorted : c.prewriteMutations.Pairwise fun m m' => m.key < m'.key)
    (hcut : ¬ c.HasOnePcCut pk) : OnePcWhole LookupsSucceed c pk where
  partition fuel ms tr leaves h hfound := by
    have hcov := (sat_prewriteAll hsorted hcut fuel ms).of_returns_inTrace h leaves rfl
    simpa [prewriteRequest_mutations] using hcov.part.perm hfound.finds
  leaf fuel ms tr p h :=
    ((sat_prewriteAll (A := InTrace (S := sig) tr) hsorted hcut fuel ms).of_steps h
      (allowed_inTrace tr)).1
  noPanic fuel ms tr leaves h hhonest hpanic := by
    have hcov := (sat_prewriteAll hsorted hcut fuel ms).of_returns_inTrace h leaves rfl
    have hmade := ((sat_prewriteAll (A := InTrace (S := sig) tr) hsorted hcut fuel ms).of_steps h
      (allowed_inTrace tr)).1
    -- It is enough that a response committed by 1PC is the only one.
    suffices hsingle : ∀ leaf ∈ leaves, leaf.2.onePcCommitTs ≠ 0 → leaves = [leaf] by
      unfold prewriteFinish at hpanic
      rw [hpc] at hpanic
      split at hpanic
      next response hresp =>
        split_ifs at hpanic with hone hmin
        · cases hpanic
        · simp only [ne_eq, not_not] at hone
          unfold aggregateResponses at hpanic
          rw [if_pos (by simp [hone])] at hpanic
          cases hpanic
      next hnot =>
        unfold aggregateResponses at hpanic
        split_ifs at hpanic with hall
        simp only [List.all_eq_true, not_forall, List.mem_map, decide_eq_true_eq] at hall
        obtain ⟨_, ⟨leaf, hleaf, rfl⟩, hone⟩ := hall
        exact hnot leaf.2 rfl (by rw [hsingle leaf hleaf hone]; rfl)
    intro leaf hleaf hone
    obtain ⟨hinv, ⟨region, hmem⟩, -⟩ := hcov.done leaf hleaf
    have hperm := (hmade _ hmem).1 (hhonest region leaf.1 leaf.2 hmem hone)
    refine eq_singleton_of_length (fun y hy => (hcov.done y hy).1.nonempty) hleaf ?_
    rw [hperm.length_eq, ← prewriteRequest_mutations c pk ms]
    exact hcov.part.subperm.length_le
  noSubset fuel ms tr p h hhonest region r resp hmem hone :=
    (((sat_prewriteAll (A := InTrace (S := sig) tr) hsorted hcut fuel ms).of_steps h
      (allowed_inTrace tr)).1 _ hmem).1 (hhonest region r resp hmem hone)

end Whole

/-! ## A cut is enough to split -/

section Split

variable {c : Committer} {pk : Key}

/-- The regions may lie such that a given run of mutations is a shard. -/
lemma exists_returns_prewriteShards {r : PrewriteRequest} {part : List Proto.Mutation}
    (hsorted : r.mutations.Pairwise fun m m' => m.key < m'.key) (hne : part ≠ [])
    (hpart : part <:+: r.mutations) (hfits : FitsBatch mutationSize txnCommitBatchSize part) :
    ∃ tr ss startKey endKey, Returns (PrewriteRequest.shards r) tr (.ok ss) ∧
      (⟨part, part.length⟩, servedRegion startKey endKey) ∈ ss := by
  obtain ⟨runs, startKey, endKey, hlayout, hitems, hmem⟩ :=
    exists_layout_of_isInfix (·.key) hsorted hne hpart
  obtain ⟨tr, htr⟩ := exists_returns_groupKeysAux_none _ hlayout
  have hsort : sortByKey (·.key) r.mutations = r.mutations :=
    (hsorted.imp fun hlt => hlt.le).insertionSort_eq
  refine ⟨tr ++ [], _, startKey, endKey, Returns.bind (a := (runs, none)) ?_ (.refl _), ?_⟩
  · rw [hsort, ← hitems]
    exact htr
  · rw [List.mem_flatMap]
    exact ⟨_, hmem, by simp [batches_of_fits hne hfits]⟩

/-- A shard with a leader makes two calls: it connects to the store and sends the request. -/
lemma singleShardHandler_prewrite (resolve : Resolver) (fuel : ℕ) (lockBackoff : Backoff)
    (retry : ShardedPlan.Retry PrewriteRequest PrewriteResponse) (r : PrewriteRequest)
    (startKey endKey : Key) (backoff : Backoff) :
    ∃ k k', (Dispatch.prewrite.resolveLock resolve fuel lockBackoff).singleShardHandler retry r
        (servedRegion startKey endKey) backoff 0 =
          .call (S := sig) (.mapRegionToStore (servedRegion startKey endKey)) k ∧
      k (.ok ()) = .call (S := sig) (.rpc (servedRegion startKey endKey) (.prewrite r)) k' :=
  ⟨_, _, rfl, rfl⟩

/-- Any run of mutations that can be a batch may be sent on its own. -/
lemma exists_steps_prewriteAll {part : List Proto.Mutation} {r : PrewriteRequest}
    (hsorted : r.mutations.Pairwise fun m m' => m.key < m'.key) (hne : part ≠ [])
    (hpart : part <:+: r.mutations) (hfits : FitsBatch mutationSize txnCommitBatchSize part) :
    ∃ fuel tr p region ans, Steps (c.prewriteAll fuel r) tr p ∧
      Event.answered (S := sig) (.rpc region (.prewrite
        (PrewriteRequest.applyShard r ⟨part, part.length⟩))) ans ∈ tr := by
  obtain ⟨tr, ss, startKey, endKey, hshards, hmem⟩ :=
    exists_returns_prewriteShards hsorted hne hpart hfits
  let plan := Dispatch.prewrite.resolveLock (resolveLocks 3) 3 c.options.retryOptions.lockBackoff
  obtain ⟨k, k', hhandler, hk⟩ := singleShardHandler_prewrite (resolveLocks 3) 3
    c.options.retryOptions.lockBackoff (plan.singlePlanHandler false 2)
    (PrewriteRequest.applyShard r ⟨part, part.length⟩) startKey endKey
    c.options.retryOptions.regionBackoff
  have hjob : Prog.call (S := sig) (.mapRegionToStore (servedRegion startKey endKey)) k ∈
      ss.map fun s => plan.singleShardHandler (plan.singlePlanHandler false 2)
        (plan.applyShard r s.1) s.2 c.options.retryOptions.regionBackoff 0 :=
    List.mem_map.mpr ⟨_, hmem, hhandler⟩
  -- The scheduler runs this shard: it connects, then sends.
  obtain ⟨rest, hconnect⟩ := steps_join_call (ShardedPlan.onShardError false) 1 [] hjob (.ok ())
  have hsend : k (.ok ()) ∈ k (.ok ()) :: rest := List.mem_cons_self
  rw [hk] at hsend hconnect
  obtain ⟨rest', hsent⟩ :=
    steps_join_call (ShardedPlan.onShardError false) 0 [] hsend (.error .grpc)
  have hplan : Steps (executeShards Dispatch.prewrite 3 c.options.retryOptions r) _ _ :=
    Steps.append (hshards.bind_left _) (hconnect.append hsent)
  exact ⟨3, _, _, servedRegion startKey endKey, .error .grpc, hplan.bind_left _, by simp⟩

theorem not_onePcWhole_of_hasOnePcCut {Whole : Trace → Prop}
    (hpc : c.options.tryOnePc = true)
    (hsorted : c.prewriteMutations.Pairwise fun m m' => m.key < m'.key)
    (hcut : c.HasOnePcCut pk) : ¬ OnePcWhole Whole c pk := by
  intro hwhole
  obtain ⟨part, hpart, hproper, hkey, hlen, hfits⟩ := hcut
  have hne : part ≠ [] := by
    rintro rfl
    obtain ⟨m, hm, -⟩ := hkey
    cases hm
  rw [← prewriteRequest_mutations c pk 0] at hpart hsorted
  obtain ⟨fuel, tr, p, region, ans, hsteps, hmem⟩ :=
    exists_steps_prewriteAll (c := c) hsorted hne hpart hfits
  have hshape : OnePcShape c pk (c.prewriteRequest pk 0) := onePcShape_prewriteRequest 0
  have hroot : (c.prewriteRequest pk 0).tryOnePc = true := by
    unfold prewriteRequest
    cases c.options.kind <;> exact hpc
  -- The part keeps `try_one_pc`, since it has as many mutations as there are commit keys.
  have hkeeps : (PrewriteRequest.applyShard (c.prewriteRequest pk 0) ⟨part, part.length⟩).tryOnePc =
      true := by
    have hany : (part.any fun m => m.key = pk) = true := by simpa [HasKey] using hkey
    have hsec := hshape.secondaries (hkey.imp fun m hm => ⟨hpart.subset hm.1, hm.2⟩)
    simp [PrewriteRequest.applyShard, hshape.primaryLock, hany, hroot, hsec, hlen]
  have hperm := (hwhole.leaf fuel 0 tr p hsteps _ hmem).1 hkeeps
  rw [prewriteRequest_mutations] at hpart
  exact hproper (hpart.eq_of_length hperm.length_eq)

/-- **A failed lookup is not noticed**: if it is the first, nothing is prewritten. -/
lemma exists_returns_prewriteAll_nil {r : PrewriteRequest} (hne : r.mutations ≠ []) :
    ∃ tr, Returns (c.prewriteAll 1 r) tr (.ok []) := by
  have hsort : sortByKey (·.key) r.mutations ≠ [] := by
    rwa [← List.length_pos_iff, (perm_sortByKey _ _).length_eq, List.length_pos_iff]
  obtain ⟨m, ms, hcons⟩ := List.exists_cons_of_ne_nil hsort
  have hshards : Returns (PrewriteRequest.shards r)
      [.answered (S := sig) (.regionForKey m.key) (.error .grpc)] (.ok []) := by
    rw [PrewriteRequest.shards, batchedShards, hcons]
    exact Steps.call (S := sig) (c := .regionForKey m.key) (.error .grpc) (.refl _)
  have hplan : Returns (executeShards Dispatch.prewrite 1 c.options.retryOptions r) _ (.ok []) :=
    returns_andThen_iff.mpr (.inl ⟨_, [], [], rfl, hshards, .refl _⟩)
  exact ⟨_, returns_andThen_iff.mpr (.inl ⟨_, [], [], rfl, hplan, .refl _⟩)⟩

lemma not_onePcWhole_of_failed_lookup (hne : c.prewriteMutations ≠ []) :
    ¬ OnePcWhole (fun _ => True) c pk := by
  intro hwhole
  obtain ⟨tr, hrun⟩ := exists_returns_prewriteAll_nil (c := c) (r := c.prewriteRequest pk 0)
    (by rwa [prewriteRequest_mutations])
  exact hne (hwhole.partition 1 0 tr [] hrun trivial).symm.eq_nil

end Split

/-- **When 1PC cannot split a transaction**: exactly if no proper run of consecutive mutations
with the primary looks complete and fits a batch, and no lookup fails.  In particular it cannot if
every mutation is committed, for then only all of them are as many as the commit keys. -/
theorem onePc_whole_iff (t : Transaction) (pk : Key) (hpc : t.options.tryOnePc = true) :
    (OnePcWhole LookupsSucceed (t.committer (some pk)) pk ↔
        ¬ (t.committer (some pk)).HasOnePcCut pk) ∧
      (t.prewriteMutations ≠ [] → ¬ OnePcWhole (fun _ => True) (t.committer (some pk)) pk) :=
  ⟨⟨fun hwhole hcut => not_onePcWhole_of_hasOnePcCut hpc (t.buffer.pairwise_toProtoMutations _)
    hcut hwhole, onePcWhole_of_not_hasOnePcCut hpc (t.buffer.pairwise_toProtoMutations _)⟩,
    fun hne => not_onePcWhole_of_failed_lookup (c := t.committer (some pk)) hne⟩

/-- If all mutations are committed, nothing but all of them looks complete. -/
lemma not_hasOnePcCut_of_length {c : Committer} {pk : Key}
    (h : (c.secondaries pk).length + 1 = c.prewriteMutations.length) : ¬ c.HasOnePcCut pk := by
  rintro ⟨part, hpart, hproper, -, hlen, -⟩
  exact hproper (hpart.eq_of_length (hlen.trans h))

/-- A 1PC transaction over the given buffer. -/
def onePcTransaction (buffer : Buffer) : Transaction :=
  { Transaction.new 10 { TransactionOptions.newOptimistic with tryOnePc := true } false with
    buffer := buffer }

/-- Puts one key; another is inserted and deleted again, which leaves an existence check. -/
def checkedBuffer : Buffer :=
  (((Buffer.new false).put ⟨[1]⟩ [7]).insert ⟨[2]⟩ [8]).delete ⟨[2]⟩

/-- The put alone looks complete, so it may be committed without the check. -/
theorem checked_key_splits :
    (onePcTransaction checkedBuffer).options.tryOnePc = true ∧
      (onePcTransaction checkedBuffer).commitPrimaryKey = some ⟨[1]⟩ ∧
      ¬ OnePcWhole LookupsSucceed ((onePcTransaction checkedBuffer).committer (some ⟨[1]⟩))
        ⟨[1]⟩ := by
  refine ⟨rfl, by decide, ?_⟩
  have hmutations : (onePcTransaction checkedBuffer).prewriteMutations =
      [⟨.put, ⟨[1]⟩, [7], .none⟩, ⟨.checkNotExists, ⟨[2]⟩, [], .none⟩] := by decide
  refine not_onePcWhole_of_hasOnePcCut rfl (Buffer.pairwise_toProtoMutations _ _)
    ⟨[⟨.put, ⟨[1]⟩, [7], .none⟩], ⟨[], [⟨.checkNotExists, ⟨[2]⟩, [], .none⟩], ?_⟩, ?_, ?_, ?_, ?_⟩
  · exact hmutations.symm
  · intro heq
    cases heq.trans hmutations
  · exact ⟨_, List.mem_singleton_self _, rfl⟩
  · decide
  · exact .inl le_rfl

/-- Two puts are committed as one. -/
theorem two_puts_whole :
    OnePcWhole LookupsSucceed ((onePcTransaction (((Buffer.new false).put ⟨[1]⟩ [7]).put ⟨[2]⟩
      [8])).committer (some ⟨[1]⟩)) ⟨[1]⟩ :=
  (onePc_whole_iff _ ⟨[1]⟩ rfl).1.mpr (not_hasOnePcCut_of_length (by decide))

end Committer

end TikvClient
