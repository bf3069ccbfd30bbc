import TikvClient.Request.Messages
import TikvClient.Request.RangeShard
import TikvClient.Transaction.PipelinedProgress

/-!
# The flushed range

A pipelined transaction remembers one range for all its flushes, and when it ends the locks of the
flushed keys are resolved region by region over that range.

**The range** is widened before a flush is started, so it contains every key flushed so far
(`covers_of_reached`), whatever came of the flushes.

**The walk** over the regions begins at the lower end and goes from the end of one region to the
next.  Over a partition of the key space it ends (`ends_resolveFlushedLocks`), and it visits the
regions that intersect the range, each once (`Visited`); whatever the regions answer, and in
whichever order, each is sent one request (`sends_resolveFlushedLocks`).
-/

namespace TikvClient

open Proto Prog StateProg

/-- The regions whose stores are looked up. -/
def visits (tr : Trace) : List Region :=
  messages (fun
    | .mapRegionToStore region => some region
    | _ => none) tr

def sends (tr : Trace) : List (Region × Request) :=
  messages (fun
    | .rpc region r => some (region, r)
    | _ => none) tr

@[simp] lemma visits_append (tr tr' : Trace) :
    visits (tr ++ tr') = visits tr ++ visits tr' :=
  messages_append _ tr tr'

@[simp] lemma sends_append (tr tr' : Trace) :
    sends (tr ++ tr') = sends tr ++ sends tr' :=
  messages_append _ tr tr'

namespace PipelinedTxnState

/-! ## The range -/

/-- The keys of the flushes that a run starts. -/
def flushedKeys (tr : Trace) : List Key :=
  (callsOf tr).flatMap fun
    | .spawn (.flush request _) => request.mutations.map (·.key)
    | _ => []

@[simp] lemma flushedKeys_append (tr tr' : Trace) :
    flushedKeys (tr ++ tr') = flushedKeys tr ++ flushedKeys tr' := by
  simp [flushedKeys, callsOf]

/-- A method that waits for a flush, or starts some. -/
inductive Method where
  | flushWait
  | maybeFlush (ctx : FlushContext)
  | flushAll (ctx : FlushContext) (fuel : ℕ)

def Method.run : Method → M Unit
  | .flushWait => PipelinedTxnState.flushWait
  | .maybeFlush ctx => PipelinedTxnState.maybeFlush ctx
  | .flushAll ctx fuel => PipelinedTxnState.flushAll ctx fuel

/-- **The states that changes of the buffer and flushes lead to**, with the keys flushed until
then. -/
inductive Reached : PipelinedTxnState → List Key → Prop where
  | new (minFlushKeys : ℕ) : Reached (.new minFlushKeys) []
  | record {p : PipelinedTxnState} {keys : List Key} (h : Reached p keys) (b : Buffer) (key : Key)
      (level : AssertionLevel) : Reached (p.recordMutation key (b.mutationForKey key level)) keys
  | call {p p' : PipelinedTxnState} {keys : List Key} {tr : Trace}
      {r : Except Error Unit} (h : Reached p keys) (method : Method)
      (hrun : Returns (method.run.exec p) tr (r, p')) : Reached p' (keys ++ flushedKeys tr)

/-- **The flushed range contains the keys**, and what is flushed next is under its key. -/
structure Covers (p : PipelinedTxnState) (keys : List Key) : Prop where
  entries : ∀ (k : Key) (m : Proto.Mutation), p.mutable[k]? = some m → m.key = k
  ordered : ∀ range, p.flushedRange = some range → range.1 < range.2
  inRange : ∀ k ∈ keys, ∃ range, p.flushedRange = some range ∧ range.1 ≤ k ∧ k < range.2

section Range

variable {p p' : PipelinedTxnState} {keys : List Key} {ctx : FlushContext}

lemma flushedRange_updateFlushedRange (p : PipelinedTxnState) (minKey maxKey : Key) :
    ∃ range, (p.updateFlushedRange minKey maxKey).flushedRange = some range ∧ range.1 ≤ minKey ∧
      maxKey < range.2 ∧ ∀ old, p.flushedRange = some old → range.1 ≤ old.1 ∧ old.2 ≤ range.2 := by
  have hstart : ∃ s, (p.updateFlushedRange minKey maxKey).flushedStart = some s ∧ s ≤ minKey ∧
      ∀ old, p.flushedStart = some old → s ≤ old := by
    unfold updateFlushedRange
    cases p.flushedStart with
    | none => exact ⟨minKey, rfl, le_rfl, by simp⟩
    | some old =>
      dsimp only
      split_ifs with h
      · exact ⟨old, rfl, h, by simp⟩
      · exact ⟨minKey, rfl, le_rfl, by simpa using (not_le.mp h).le⟩
  have hend : ∃ e, (p.updateFlushedRange minKey maxKey).flushedEndExclusive = some e ∧ maxKey < e ∧
      ∀ old, p.flushedEndExclusive = some old → old ≤ e := by
    unfold updateFlushedRange
    cases p.flushedEndExclusive with
    | none => exact ⟨maxKey.nextKey, rfl, maxKey.lt_nextKey, by simp⟩
    | some old =>
      dsimp only
      split_ifs with h
      · exact ⟨old, rfl, (Key.nextKey_le_iff _ _).mp h, by simp⟩
      · exact ⟨maxKey.nextKey, rfl, maxKey.lt_nextKey, by simpa using (not_le.mp h).le⟩
  obtain ⟨s, hs, hmin, hold⟩ := hstart
  obtain ⟨e, he, hmax, hold'⟩ := hend
  refine ⟨(s, e), by rw [flushedRange, hs, he], hmin, hmax, fun old h => ?_⟩
  unfold flushedRange at h
  split at h
  next hs₀ he₀ =>
    cases h
    exact ⟨hold _ hs₀, hold' _ he₀⟩
  next => cases h

lemma covers_new (minFlushKeys : ℕ) : Covers (.new minFlushKeys) [] where
  entries k m h := by simp [PipelinedTxnState.new] at h
  ordered range h := by cases h
  inRange k h := by cases h

lemma Covers.recordMutation (h : Covers p keys) (b : Buffer) (key : Key) (level : AssertionLevel) :
    Covers (p.recordMutation key (b.mutationForKey key level)) keys := by
  cases hm : b.mutationForKey key level with
  | none =>
    refine ⟨fun k m hk => h.entries k m ?_, h.ordered, h.inRange⟩
    rw [PipelinedTxnState.recordMutation, Std.ExtTreeMap.getElem?_erase] at hk
    split_ifs at hk
    exact hk
  | some m =>
    have hkey : m.key = key := by
      obtain ⟨entry, -, hlower⟩ := Option.bind_eq_some_iff.mp hm
      exact Buffer.lowerEntry_key hlower
    refine ⟨fun k m' hk => ?_, h.ordered, h.inRange⟩
    rw [PipelinedTxnState.recordMutation, Std.ExtTreeMap.getElem?_insert] at hk
    split_ifs at hk with heq
    · cases hk
      rw [hkey, compare_eq_iff_eq.mp heq]
    · exact h.entries k m' hk

/-- What is flushed is in the widened range. -/
lemma Covers.takeMutable (h : Covers p keys) {minKey maxKey : Key}
    (hmin : p.mutable.minKey? = some minKey) (hmax : p.mutable.maxKey? = some maxKey)
    (flushing : Option ℕ) :
    Covers { p.takeMutable minKey maxKey with flushing := flushing }
      (keys ++ p.mutable.values.map (·.key)) := by
  obtain ⟨range, hrange, hlower, hupper, hwider⟩ := flushedRange_updateFlushedRange p minKey maxKey
  have hle : ∀ (k : Key) (m : Proto.Mutation), p.mutable[k]? = some m → range.1 ≤ k ∧ k < range.2 :=
    fun k m hk => ⟨hlower.trans (SortedMap.le_of_minKey? hmin hk),
      (SortedMap.le_of_maxKey? hmax hk).trans_lt hupper⟩
  refine ⟨fun k m hk => by simp [PipelinedTxnState.takeMutable] at hk, fun range' h' => ?_,
    fun k hk => ⟨range, hrange, ?_⟩⟩
  · obtain rfl : range = range' := Option.some.inj (hrange.symm.trans h')
    have hmem : minKey ∈ p.mutable := (Std.ExtTreeMap.minKey?_eq_some_iff_mem_and_forall.mp hmin).1
    obtain ⟨m, hm⟩ := Option.isSome_iff_exists.mp (Std.ExtTreeMap.mem_iff_isSome_getElem?.mp hmem)
    exact (hle minKey m hm).1.trans_lt (hle minKey m hm).2
  · rcases List.mem_append.mp hk with hk | hk
    · obtain ⟨old, hold, hk₁, hk₂⟩ := h.inRange k hk
      obtain ⟨h₁, h₂⟩ := hwider old hold
      exact ⟨h₁.trans hk₁, hk₂.trans_le h₂⟩
    · obtain ⟨m, hm, rfl⟩ := List.mem_map.mp hk
      obtain ⟨k, hk⟩ := SortedMap.exists_getElem?_of_mem_values hm
      rw [h.entries k m hk]
      exact hle k m hk

/-- The method keeps what it flushes within the range. -/
def Flushes (m : M Unit) : Prop :=
  ∀ ⦃p keys tr r p'⦄, Covers p keys → Returns (m.exec p) tr (r, p') →
    Covers p' (keys ++ flushedKeys tr)

lemma flushes_pure : Flushes (pure ()) := by
  intro p keys tr r p' h hrun
  obtain ⟨rfl, heq⟩ := returns_ret_iff.mp hrun
  cases heq
  simpa [flushedKeys, callsOf] using h

lemma Flushes.bind {m m' : M Unit} (hm : Flushes m) (hm' : Flushes m') :
    Flushes (m >>= fun _ => m') := by
  intro p keys tr r p' h hrun
  rcases returns_exec_bind_iff.mp hrun with ⟨tr₁, tr₂, _, q, rfl, h₁, h₂⟩ | ⟨e, rfl, h₁⟩
  · rw [flushedKeys_append, ← List.append_assoc]
    exact hm' (hm h h₁) h₂
  · exact hm h h₁

lemma flushes_flushWait : Flushes flushWait := by
  intro p keys tr r p' h hrun
  have hrun := returns_get_bind_iff.mp hrun
  split at hrun
  · exact flushes_pure h hrun
  · have hrun := returns_modify_bind_iff.mp hrun
    obtain ⟨rfl, hawait⟩ := returns_ofProg_iff.mp hrun
    obtain ⟨ans, tr', rfl, hret⟩ := returns_call_iff.mp hawait
    obtain ⟨rfl, -⟩ := returns_ret_iff.mp hret
    rw [show flushedKeys _ = [] from rfl, List.append_nil]
    exact ⟨h.entries, h.ordered, h.inRange⟩

lemma flushes_startFlush (ctx : FlushContext) : Flushes (startFlush ctx) := by
  refine flushes_flushWait.bind fun p keys tr r p' h hrun => ?_
  have hrun := returns_get_bind_iff.mp hrun
  split at hrun
  next minKey maxKey hmin hmax =>
    have hrun := returns_modify_bind_iff.mp hrun
    rcases returns_exec_bind_iff.mp hrun with ⟨tr₁, tr₂, handle, q, rfl, h₁, h₂⟩ | ⟨e, rfl, h₁⟩
    · obtain ⟨rfl, a, ha, hspawn⟩ := returns_ofCall_iff.mp h₁
      cases ha
      obtain ⟨ans, tr', rfl, hret⟩ := returns_call_iff.mp hspawn
      obtain ⟨rfl, rfl⟩ := returns_ret_iff.mp hret
      rw [exec_modify] at h₂
      obtain ⟨rfl, heq⟩ := returns_ret_iff.mp h₂
      cases heq
      have hkeys : flushedKeys ([.answered
          (.spawn (.flush (p.flushRequest ctx) ctx.retryOptions)) handle] ++ []) =
          p.mutable.values.map (·.key) := by
        simp [flushedKeys, callsOf, eventCalls, flushRequest, newFlushRequest]
      rw [hkeys]
      exact h.takeMutable hmin hmax _
    · obtain ⟨-, a, ha, -⟩ := returns_ofCall_iff.mp h₁
      cases ha
  next => exact flushes_pure h hrun

lemma flushes_maybeFlush (ctx : FlushContext) : Flushes (maybeFlush ctx) := by
  intro p keys tr r p' h hrun
  have hrun := returns_get_bind_iff.mp hrun
  split_ifs at hrun
  · exact flushes_pure h hrun
  · exact flushes_startFlush ctx h hrun

lemma flushes_flushAll (ctx : FlushContext) : ∀ fuel, Flushes (flushAll ctx fuel)
  | 0 => fun p keys tr r p' _ hrun => absurd (returns_ofProg_iff.mp hrun).2 not_returns_stuck
  | fuel + 1 => by
    refine flushes_flushWait.bind fun p keys tr r p' h hrun => ?_
    have hrun := returns_get_bind_iff.mp hrun
    split_ifs at hrun
    · exact flushes_pure h hrun
    · exact (flushes_startFlush ctx).bind (flushes_flushAll ctx fuel) h hrun

/-- **The range contains every key that was flushed.** -/
theorem covers_of_reached (h : Reached p keys) : Covers p keys := by
  induction h with
  | new minFlushKeys => exact covers_new minFlushKeys
  | record _ b key level ih => exact ih.recordMutation b key level
  | call _ method hrun ih =>
    cases method with
    | flushWait => exact flushes_flushWait ih hrun
    | maybeFlush ctx => exact flushes_maybeFlush ctx ih hrun
    | flushAll ctx fuel => exact flushes_flushAll ctx fuel ih hrun

end Range

/-! ## The walk -/

/-- Lookups are answered from the regions, which have their stores. -/
def PartitionAnswers (regions : List Region) : Answers
  | .regionForKey k, ans => ∃ region ∈ regions, region.contains k = true ∧ ans = .ok region
  | .mapRegionToStore _, ans => ans = .ok ()
  | _, _ => True

/-- **The regions of a range**, each once and no others. -/
structure Visited (regions : List Region) (range : Key × Key) (l : List Region) : Prop where
  nodup : l.Nodup
  mem_iff : ∀ region, region ∈ l ↔
    region ∈ regions ∧ ∃ k, region.contains k = true ∧ range.1 ≤ k ∧ k < range.2

section Walk

variable {regions l : List Region} {range : Key × Key} {endKey k : Key} {tr : Trace}
  {startTs commitTs : ℕ}

lemma rangeEnd_le_iff (region : Region) (endKey : Key) :
    (region.endKey.isEmpty || (!endKey.isEmpty && decide (region.endKey ≥ endKey))) = true ↔
      rangeEnd endKey ≤ region.interval.upper := by
  rw [Region.interval_eq]
  unfold rangeInterval rangeEnd
  by_cases h : region.endKey.isEmpty = true
  · simp [h]
  · by_cases hx : endKey.isEmpty = true <;> simp [h, hx]

/-- **The walk ends**, with regions from the key to the end. -/
lemma ends_storesOfRange (hregions : IsPartition regions) (endKey : Key) (fuel : ℕ) :
    ∀ k, k < endKey ∨ endKey.isEmpty = true → later regions k ≤ fuel →
      Ends (PartitionAnswers regions) (fun r => ∃ l, r = .ok l ∧ (∀ region ∈ l, region ∈ regions) ∧
          l.length ≤ later regions k ∧
          HalfOpenInterval.Walk Region.interval (rangeEnd endKey) k l)
        (2 * fuel) (storesOfRange endKey fuel k) := by
  have hfound : ∀ k, Ends (PartitionAnswers regions) (fun r => ∃ region ∈ regions,
      region.contains k = true ∧ r = .ok region) 1 (Async.regionForKey k) :=
    fun k => ends_ask (S := sig) (A := PartitionAnswers regions) (.regionForKey k)
  induction fuel with
  | zero =>
    intro k _ hfuel
    obtain ⟨region, hmem, hcontains⟩ := hregions.covers k
    exact absurd (later_pos hmem hcontains) (by omega)
  | succ fuel ih =>
    intro k hk hfuel
    have hgo : ¬ (!endKey.isEmpty && decide (k ≥ endKey)) = true := by
      rcases hk with hk | hk
      · simp [hk]
      · simp [hk]
    rw [storesOfRange, if_neg hgo]
    refine ((hfound k).andThen (e := 1 + 2 * fuel) (fun region hregion => ?_)
      fun x hx => ?_).mono (by omega) fun _ h => h
    · obtain ⟨_, hmem, hcontains, heq⟩ := hregion
      cases heq
      have hin := Region.interval_contains_iff.mpr hcontains
      refine (ends_ask (S := sig) (.mapRegionToStore region)).andThen (fun _ _ => ?_)
        fun x hx => ?_
      · split_ifs with hstop
        · exact ends_ret ⟨[region], rfl, by simpa using hmem, later_pos hmem hcontains,
            .last hin ((rangeEnd_le_iff region endKey).mp hstop)⟩
        · rw [rangeEnd_le_iff, not_le] at hstop
          have hend : region.endKey.isEmpty = false := by
            rw [← Bool.not_eq_true]
            intro hempty
            rw [Region.interval_eq, rangeInterval, rangeEnd, if_pos hempty] at hstop
            exact not_top_lt hstop
          have hupper : region.interval.upper = region.endKey := by
            rw [Region.interval_eq, rangeInterval, rangeEnd, if_neg (by simp [hend])]
          rw [hupper] at hstop
          have hlt := later_lt hmem hcontains hend
          refine ((ih region.endKey (coe_lt_rangeEnd_iff.mp hstop) (by omega)).andThen (e := 0)
            (fun l hl => ?_) fun x hx => ?_).mono (by omega) fun _ h => h
          · obtain ⟨_, heq, hmems, hlength, hwalk⟩ := hl
            cases heq
            exact ends_ret ⟨region :: l, rfl, List.forall_mem_cons.mpr ⟨hmem, hmems⟩,
              Nat.lt_of_le_of_lt hlength hlt, .step hin hupper hstop hwalk⟩
          · obtain ⟨_, heq, -⟩ := hx
            cases heq
      · cases hx
    · obtain ⟨_, -, -, heq⟩ := hx
      cases heq

lemma visits_storesOfRange (endKey : Key) (fuel : ℕ) :
    ∀ k tr l, Returns (storesOfRange endKey fuel k) tr (.ok l) → visits tr = l ∧ sends tr = [] := by
  induction fuel with
  | zero => exact fun k tr l hrun => absurd hrun not_returns_stuck
  | succ fuel ih =>
    intro k tr l hrun
    rw [storesOfRange] at hrun
    split_ifs at hrun
    · obtain ⟨rfl, heq⟩ := returns_ret_iff.mp hrun
      cases heq
      exact ⟨rfl, rfl⟩
    · obtain ⟨tr₁, tr₂, region, rfl, hlookup, hfound⟩ | ⟨e, he, -⟩ := returns_andThen_iff.mp hrun
      · obtain ⟨tr₃, tr₄, u, rfl, hstore, htail⟩ | ⟨e, he, -⟩ := returns_andThen_iff.mp hfound
        · obtain rfl := returns_ask_iff.mp hlookup
          obtain rfl := returns_ask_iff.mp hstore
          split_ifs at htail
          · obtain ⟨rfl, heq⟩ := returns_ret_iff.mp htail
            cases heq
            exact ⟨rfl, rfl⟩
          · obtain ⟨tr₅, tr₆, rest, rfl, hrest, hret⟩ | ⟨e, he, -⟩ := returns_andThen_iff.mp htail
            · obtain ⟨rfl, heq⟩ := returns_ret_iff.mp hret
              cases heq
              obtain ⟨hvisits, hsends⟩ := ih region.endKey tr₅ rest hrest
              rw [List.append_nil, visits_append, visits_append, sends_append, sends_append,
                hvisits, hsends]
              exact ⟨rfl, rfl⟩
            · cases he
        · cases he
      · cases he

lemma visited_of_walk (hregions : IsPartition regions) (hrange : range.1 < range.2)
    (hmem : ∀ region ∈ l, region ∈ regions)
    (hwalk : HalfOpenInterval.Walk Region.interval (rangeEnd range.2) range.1 l) :
    Visited regions range l := by
  have hbound : ∀ k : Key, (k : WithTop Key) < rangeEnd range.2 ↔ k < range.2 := by
    intro k
    rw [coe_lt_rangeEnd_iff, Key.isEmpty_eq_false_of_lt hrange]
    simp
  have hbetween : ∀ region ∈ l, ∃ k, range.1 ≤ k ∧ k < range.2 ∧ region.contains k = true := by
    intro region hregion
    obtain ⟨k, hlower, hupper, hin⟩ := hwalk.exists_between ((hbound _).mpr hrange) hregion
    exact ⟨k, hlower, (hbound k).mp hupper, Region.interval_contains_iff.mp hin⟩
  refine ⟨?_, fun region => ⟨fun hregion => ?_, ?_⟩⟩
  · have hpairwise := hwalk.pairwise fun r hr s hs => by
      simpa only [Region.interval_overlaps_iff] using
        hregions.eq_or_not_overlaps (hmem r hr) (hmem s hs)
    refine hpairwise.imp_of_mem fun {r s} hr hs hrs heq => ?_
    -- a region does not end before it begins
    subst heq
    obtain ⟨k, -, -, hk⟩ := hbetween r hr
    have hin := Region.interval_contains_iff.mpr hk
    exact absurd (hin.2.trans_le (hrs.trans (WithTop.coe_le_coe.mpr hin.1))) (lt_irrefl _)
  · obtain ⟨k, hlower, hupper, hk⟩ := hbetween region hregion
    exact ⟨hmem region hregion, k, hk, hlower, hupper⟩
  · rintro ⟨hregion, k, hk, hlower, hupper⟩
    obtain ⟨r, hr, hin⟩ := hwalk.exists_contains hlower ((hbound k).mpr hupper)
    rw [hregions.eq_of_contains hregion (hmem r hr) hk (Region.interval_contains_iff.mp hin)]
    exact hr

/-! ## The requests -/

/-- The request that a region is sent. -/
def resolveRequest (startTs commitTs : ℕ) (region : Region) : Region × Request :=
  (region, .resolveLock (newResolveLockRequest startTs commitTs))

variable {r : Except Error (List (Except Error Unit))} {fuel : ℕ}

lemma sends_resolveFlushedRegion {region : Region}
    (hrun : Returns (resolveFlushedRegion startTs commitTs region) tr r) :
    sends tr = [resolveRequest startTs commitTs region] ∧ visits tr = [] := by
  obtain ⟨tr₁, tr₂, resp, rfl, hrpc, hrest⟩ | ⟨e, -, hrpc⟩ := returns_andThen_iff.mp hrun
  · obtain rfl := returns_ask_iff.mp hrpc
    obtain rfl : tr₂ = [] := by
      split at hrest <;> exact (returns_ret_iff.mp hrest).1
    exact ⟨rfl, rfl⟩
  · obtain rfl := returns_ask_iff.mp hrpc
    exact ⟨rfl, rfl⟩

lemma ends_resolveFlushedRegion (startTs commitTs : ℕ) (region : Region)
    (A : Answers) :
    Ends A (fun _ => True) 1 (resolveFlushedRegion startTs commitTs region) := by
  refine (ends_ask (S := sig) _).andThen (e := 0) (fun resp _ => ?_) fun _ _ => trivial
  split <;> exact ends_ret trivial

/-- **Every region that was visited is sent one request**, in whichever order. -/
lemma sends_join (hrun : Returns (Prog.join (fun e => some [.error e]) fuel
      (l.map (resolveFlushedRegion startTs commitTs)) []) tr r) :
    (sends tr).Perm (l.map (resolveRequest startTs commitTs)) ∧ visits tr = [] := by
  -- the error of a region is a result like any other
  have habsorbed : Absorbed (fun e => some [.error e]) r := by
    cases r with
    | ok results => trivial
    | error e => exact Option.some_ne_none _
  obtain ⟨runs, hprogs, hruns, htr⟩ := interleaves_of_returns_join fuel hrun habsorbed
  -- a run of a program makes the call the program waits for
  have hrequest : ∀ region, rpcsOf (resolveFlushedRegion startTs commitTs region).pendingCalls =
      [resolveRequest startTs commitTs region] := fun _ => rfl
  have hone : ∀ run ∈ runs, sends run.2 = rpcsOf run.1.pendingCalls ∧ visits run.2 = [] := by
    intro run hmem
    obtain ⟨region, -, hregion⟩ := List.mem_map.mp (hprogs.mem_iff.mp (List.mem_map_of_mem hmem))
    obtain ⟨x, hx, -⟩ := hruns run hmem
    rw [← hregion] at hx ⊢
    exact sends_resolveFlushedRegion hx
  have hsends : (sends tr).Perm (runs.flatMap fun run => sends run.2) :=
    (messages_perm htr).trans (.of_eq (messages_flatMap _ _))
  have hvisits : (visits tr).Perm (runs.flatMap fun run => visits run.2) :=
    (messages_perm htr).trans (.of_eq (messages_flatMap _ _))
  rw [List.flatMap_congr fun run hmem => (hone run hmem).1] at hsends
  rw [List.flatMap_eq_nil_iff.mpr fun run hmem => (hone run hmem).2] at hvisits
  have hperm := hprogs.flatMap_right fun p => rpcsOf p.pendingCalls
  rw [List.flatMap_map, List.flatMap_map, List.flatMap_congr fun region _ => hrequest region,
    ← List.map_eq_flatMap] at hperm
  exact ⟨hsends.trans hperm, hvisits.eq_nil⟩

/-! ## Resolving the locks -/

/-- **Resolving the flushed locks ends**, whatever the regions answer. -/
lemma ends_resolveFlushedLocks (hregions : IsPartition regions) (hrange : range.1 < range.2)
    (hfuel : 2 * regions.length ≤ fuel) (startTs commitTs : ℕ) :
    Ends (PartitionAnswers regions) (fun _ => True) (4 * fuel)
      (resolveFlushedLocks fuel startTs commitTs range) := by
  have hlater := later_le regions range.1
  refine ((ends_storesOfRange hregions range.2 fuel range.1 (.inl hrange) (by omega)).andThen
    (e := 2 * fuel) (fun l hl => ?_) fun _ _ => trivial).mono (by omega) fun _ h => h
  obtain ⟨_, heq, -, hlength, -⟩ := hl
  cases heq
  have htasks : ∀ p ∈ l.map (resolveFlushedRegion startTs commitTs),
      Ends (PartitionAnswers regions) (fun _ => True) 1 p :=
    List.forall_mem_map.mpr fun region _ => ends_resolveFlushedRegion startTs commitTs region _
  have hjoin : Ends (PartitionAnswers regions) (fun _ => True) _
      (Prog.join (fun e => some [.error e]) fuel
        (l.map (resolveFlushedRegion startTs commitTs)) []) :=
    Ends.join [] htasks (by rw [List.length_map]; omega)
  refine (hjoin.andThen (e := 0) (fun results _ => ?_) fun _ _ => trivial).mono
    (by rw [List.length_map]; omega) fun _ h => h
  split <;> exact ends_ret trivial

/-- A run of it visits the regions of the range, and sends each of them one request. -/
lemma sends_resolveFlushedLocks (hregions : IsPartition regions) (hrange : range.1 < range.2)
    (hfuel : 2 * regions.length ≤ fuel) {r : Except Error Unit}
    (hrun : Returns (resolveFlushedLocks fuel startTs commitTs range) tr r)
    (hanswers : ∀ e ∈ tr, Event.Allowed (PartitionAnswers regions) e) :
    Visited regions range (visits tr) ∧
      (sends tr).Perm ((visits tr).map (resolveRequest startTs commitTs)) := by
  have hlater := later_le regions range.1
  have hwalk := ends_storesOfRange hregions range.2 fuel range.1 (.inl hrange) (by omega)
  obtain ⟨tr₁, tr₂, l, rfl, hstores, hrest⟩ | ⟨e, rfl, hstores⟩ := returns_andThen_iff.mp hrun
  · obtain ⟨_, heq, hmem, -, hl⟩ := hwalk.of_returns hstores fun e he =>
      hanswers e (List.mem_append_left _ he)
    cases heq
    obtain ⟨hvisits, hsends⟩ := visits_storesOfRange range.2 fuel range.1 tr₁ l hstores
    have htasks : (sends tr₂).Perm (l.map (resolveRequest startTs commitTs)) ∧ visits tr₂ = [] := by
      obtain ⟨tr₃, tr₄, results, rfl, hjoin, hret⟩ | ⟨e, -, hjoin⟩ := returns_andThen_iff.mp hrest
      · obtain rfl : tr₄ = [] := by
          split at hret <;> exact (returns_ret_iff.mp hret).1
        rw [List.append_nil]
        exact sends_join hjoin
      · exact sends_join hjoin
    rw [visits_append, sends_append, hvisits, hsends, htasks.2, List.append_nil, List.nil_append]
    exact ⟨visited_of_walk hregions hrange hmem hl, htasks.1⟩
  · obtain ⟨_, heq, -⟩ := hwalk.of_returns hstores hanswers
    cases heq

end Walk

/-- **The locks of all flushed keys are resolved.**  The flushed range contains every key that was
flushed, and over any partition of the key space resolving its locks comes to an end; it visits each
region that intersects the range once and no other region, and sends each of them one request, with
the start and the commit version. -/
theorem flushed_locks_resolved {p : PipelinedTxnState} {flushed : List Key}
    (h : Reached p flushed) :
    (∀ k ∈ flushed, ∃ range, p.flushedRange = some range ∧ range.1 ≤ k ∧ k < range.2) ∧
      ∀ range, p.flushedRange = some range → ∀ (regions : List Region) (startTs commitTs fuel : ℕ),
        IsPartition regions → 2 * regions.length ≤ fuel →
        Ends (PartitionAnswers regions) (fun _ => True) (4 * fuel)
            (resolveFlushedLocks fuel startTs commitTs range) ∧
          ∀ tr r, Returns (resolveFlushedLocks fuel startTs commitTs range) tr r →
            (∀ e ∈ tr, Event.Allowed (PartitionAnswers regions) e) →
            Visited regions range (visits tr) ∧
              (sends tr).Perm ((visits tr).map (resolveRequest startTs commitTs)) := by
  have hcovers := covers_of_reached h
  refine ⟨hcovers.inRange, fun range hrange regions startTs commitTs fuel hregions hfuel => ?_⟩
  have hproper := hcovers.ordered range hrange
  exact ⟨ends_resolveFlushedLocks hregions hproper hfuel startTs commitTs,
    fun tr r hrun hanswers => sends_resolveFlushedLocks hregions hproper hfuel hrun hanswers⟩

lemma exists_reached_first_write : ∃ p, Reached p [⟨[1]⟩] := by
  have hmutation : ((Buffer.new false).put ⟨[1]⟩ [1]).mutationForKey ⟨[1]⟩ .off =
      some ⟨.put, ⟨[1]⟩, [1], .none⟩ := by
    decide
  have hwritten : Reached Transaction.afterFirstWrite [] := by
    have hrecord := Reached.record (.new 1) ((Buffer.new false).put ⟨[1]⟩ [1]) ⟨[1]⟩ .off
    rwa [hmutation] at hrecord
  obtain ⟨minKey, maxKey, hexec⟩ := Transaction.exec_maybeFlush_start
    (p := Transaction.afterFirstWrite) rfl (by decide) (by decide) default
  set task : Task := .flush (Transaction.afterFirstWrite.flushRequest default)
    (default : FlushContext).retryOptions with htask
  have hrun : Returns ((Method.maybeFlush default).run.exec Transaction.afterFirstWrite)
      [.answered (.spawn task) (0 : ℕ)] (.ok (),
        { Transaction.afterFirstWrite.takeMutable minKey maxKey with flushing := some 0 }) := by
    rw [Method.run, hexec]
    exact Steps.call (S := sig) (c := .spawn task) (0 : ℕ) (Steps.refl _)
  have hkeys : flushedKeys [.answered (.spawn task) (0 : ℕ)] = [⟨[1]⟩] := by
    decide
  have hflush := Reached.call hwritten (.maybeFlush default) hrun
  rw [hkeys] at hflush
  exact ⟨_, hflush⟩

/-- The key is in the range, and resolving the range over two regions ends. -/
theorem first_write_resolved :
    ∃ p range, Reached p [⟨[1]⟩] ∧ p.flushedRange = some range ∧ range.1 ≤ ⟨[1]⟩ ∧
      ⟨[1]⟩ < range.2 ∧ Ends (PartitionAnswers twoRegions) (fun _ => True) 16
        (resolveFlushedLocks 4 7 9 range) := by
  obtain ⟨p, hreached⟩ := exists_reached_first_write
  obtain ⟨hkeys, hresolve⟩ := flushed_locks_resolved hreached
  obtain ⟨range, hrange, hlower, hupper⟩ := hkeys _ List.mem_cons_self
  exact ⟨p, range, hreached, hrange, hlower, hupper,
    (hresolve range hrange twoRegions 7 9 4 isPartition_twoRegions le_rfl).1⟩

end PipelinedTxnState

end TikvClient
