import TikvClient.Kv.Codec
import TikvClient.Pd.RegionLoad

/-!
# Routing a key to its region

The transactional client asks for the region of a raw key: PD and the region cache know encoded
keys, so the key is encoded for the lookup, and the bounds of the region that is found are decoded.

**Assumed of PD** are the regions it knows over time (`Served`), that their bounds are encodings
when keys are encoded (`EncodedBounds`), and that it answers with a region that contains the key it
was asked for (`PdAnswers`).
-/

namespace TikvClient

open Codec

/-- The bounds of the region are each empty or the encoding of a key. -/
def Region.EncodedBounds (r : Region) : Prop :=
  (r.startKey = .empty ∨ ∃ k : Key, r.startKey = k.toEncoded) ∧
    (r.endKey = .empty ∨ ∃ k : Key, r.endKey = k.toEncoded)

def decodeRegion (region : Region) (enableCodec : Bool) : Except Error Region := do
  if enableCodec then
    let startKey ← decodeBytesInPlace region.startKey.bytes false
    let endKey ← decodeBytesInPlace region.endKey.bytes false
    return { region with startKey := ⟨startKey⟩, endKey := ⟨endKey⟩ }
  else
    return region

/-- The key that `region_for_key` looks up. -/
def lookupKey (key : Key) (enableCodec : Bool) : Key :=
  if enableCodec then key.toEncoded else key

/-- What `region_for_key` makes of the result of the lookup. -/
def regionForKey (enableCodec : Bool) (found : Except Error Region) : Except Error Region := do
  let region ← found
  decodeRegion region enableCodec

/-! ## Decoded regions -/

section Decode

variable {r : Region} {k : Key}

/-- A bound decodes to the key it encodes; the empty bound stands for itself. -/
lemma exists_decode_bound {bound : Key} (h : bound = .empty ∨ ∃ k : Key, bound = k.toEncoded) :
    ∃ raw : Key, decodeBytesInPlace bound.bytes false = .ok raw.bytes ∧
      ((bound = .empty ∧ raw = .empty) ∨ bound = raw.toEncoded) := by
  rcases h with rfl | ⟨k, rfl⟩
  · exact ⟨.empty, rfl, .inl ⟨rfl, rfl⟩⟩
  · exact ⟨k, decodeBytesInPlace_encodeBytes k.bytes false, .inr rfl⟩

lemma isEmpty_toEncoded (k : Key) : k.toEncoded.isEmpty = false := by
  simpa [Key.toEncoded, Key.isEmpty] using encodeBytes_ne_nil k.bytes false

/-- **A region that contains the encoded key decodes to one that contains the key.** -/
lemma exists_decodeRegion (hbounds : r.EncodedBounds) (hk : r.contains k.toEncoded = true) :
    ∃ r', decodeRegion r true = .ok r' ∧ r'.contains k = true := by
  obtain ⟨startKey, hstart, hstart'⟩ := exists_decode_bound hbounds.1
  obtain ⟨endKey, hend, hend'⟩ := exists_decode_bound hbounds.2
  refine ⟨{ r with startKey, endKey }, by simp [decodeRegion, hstart, hend, bind, Except.bind, pure,
    Except.pure], ?_⟩
  simp only [Region.contains, Bool.and_eq_true, Bool.or_eq_true, decide_eq_true_eq] at hk ⊢
  obtain ⟨hlower, hupper⟩ := hk
  constructor
  · rcases hstart' with ⟨-, rfl⟩ | heq
    · exact Key.empty_le k
    · rw [heq] at hlower
      exact (Key.toEncoded_le_iff _ _).mp hlower
  · rcases hend' with ⟨-, rfl⟩ | heq
    · exact .inr rfl
    · -- The encoding of the empty key is not empty, and nothing is before it.
      rw [heq, isEmpty_toEncoded] at hupper
      exact .inl (by simpa [Key.toEncoded_lt_iff] using hupper)

end Decode

/-! ## Regions that lookups return -/

namespace LoadState

variable {n : ℕ} {t : RegionCacheTtl} {targets : Fin n → Target} {s s' : LoadState n}
  {U : Region → Prop}

/-- PD answers with regions it knows, which contain the key it was asked for. -/
def PdAnswers (U : Region → Prop) (targets : Fin n → Target) (_ : LoadState n) :
    LoadAction n → Prop
  | .answer i result => ∃ region, result = .ok region ∧ U region ∧
      ∀ key, targets i = .key key → region.contains key = true
  | .cacheOp op => op.Adds U
  | _ => True

end LoadState

/-- What a call will return, as soon as it knows. -/
def Phase.outcome : Phase → Option (Except Error Region)
  | .add _ region => some (.ok region)
  | .clear _ result _ => some result
  | .notify _ result _ => some result
  | .done result => some result
  | _ => none

namespace LoadState

variable {n : ℕ} {t : RegionCacheTtl} {targets : Fin n → Target} {s s' : LoadState n}
  {U : Region → Prop}

/-- The cache is the result of a history, and every outcome is a region PD knows that contains the
key. -/
structure Routed (t : RegionCacheTtl) (U : Region → Prop) (targets : Fin n → Target)
    (s : LoadState n) : Prop where
  cache : ∃ ops : List CacheOp, (∀ op ∈ ops, op.Adds U) ∧ s.cache = .run t .new ops
  adds : ∀ i h region, s.phase i = .add h region → U region
  outcome : ∀ i result, (s.phase i).outcome = some result →
    ∃ region, result = .ok region ∧ (∃ r, U r ∧ region.SameRange r) ∧
      ∀ key, targets i = .key key → region.contains key = true

variable {c c' cache : RegionCacheMap} {target : Target} {now jitter : ℤ} {a : LoadAction n}
  {i : Fin n}

lemma exists_op_of_lookup {found : Option Region} (h : lookup t c target now jitter = (c', found)) :
    ∃ op : CacheOp, op.Adds U ∧ c' = c.step t op := by
  cases target with
  | key key => exact ⟨.lookupByKey key now jitter, trivial, (congrArg Prod.fst h).symm⟩
  | id id => exact ⟨.lookupById id now jitter, trivial, (congrArg Prod.fst h).symm⟩

lemma cached_of_lookup {region : Region} (h : lookup t c target now jitter = (c', some region)) :
    (∃ (v : RegionVerId) (x : CachedRegion), c.verIdToRegion[v]? = some x ∧ x.region = region) ∧
      ∀ key, target = .key key → region.contains key = true := by
  have htouch : ∀ v, (c.touch t v now jitter).2 = some region →
      ∃ (v : RegionVerId) (x : CachedRegion), c.verIdToRegion[v]? = some x ∧ x.region = region := by
    intro v hv
    obtain ⟨x, hx, hregion, -⟩ := RegionCacheMap.touch_snd.mp hv
    exact ⟨v, x, hx, hregion⟩
  have hfound := congrArg Prod.snd h
  cases target with
  | key key =>
    simp only [lookup, RegionCacheMap.lookupByKey] at hfound
    split at hfound
    · cases hfound
    next v _ =>
      obtain ⟨hv, hkey⟩ := Option.filter_eq_some_iff.mp hfound
      exact ⟨htouch v hv, fun k hk => by cases hk; exact hkey⟩
  | id id =>
    simp only [lookup, RegionCacheMap.lookupById] at hfound
    split at hfound
    · cases hfound
    next v _ => exact ⟨htouch v hfound, fun k hk => by cases hk⟩

lemma routed_init : Routed t U targets (init n .new) where
  cache := ⟨[], by simp, rfl⟩
  adds := by simp [init]
  outcome := by simp [init, Phase.outcome]

lemma Routed.cache_step (hs : Routed t U targets s) {op : CacheOp} (hop : op.Adds U) :
    ∃ ops : List CacheOp, (∀ op ∈ ops, op.Adds U) ∧ s.cache.step t op = .run t .new ops := by
  obtain ⟨ops, hops, hcache⟩ := hs.cache
  refine ⟨ops ++ [op], ?_, ?_⟩
  · simpa [or_imp, forall_and] using ⟨hops, hop⟩
  · rw [hcache, RegionCacheMap.run, RegionCacheMap.run, List.foldl_append]
    rfl

/-- What a call that advances will return, and what it leaves of the cache. -/
lemma Routed.advance (hU : Served U) (hs : Routed t U targets s) {p : Phase}
    (ha : PdAnswers U targets s a)
    (hadv : Advance t targets s a i cache p) :
    (∃ ops : List CacheOp, (∀ op ∈ ops, op.Adds U) ∧ cache = .run t .new ops) ∧
      (∀ h region, p = .add h region → U region) ∧
      ∀ result, p.outcome = some result →
        ∃ region, result = .ok region ∧ (∃ r, U r ∧ region.SameRange r) ∧
          ∀ key, targets i = .key key → region.contains key = true := by
  have hcaches : s.cache.CachesOnly U := by
    obtain ⟨ops, hops, hcache⟩ := hs.cache
    rw [hcache]
    exact (RegionCacheMap.run_indexed hU ops hops).2
  have hlookup : ∀ {now jitter : ℤ} {cache : RegionCacheMap} {found : Option Region},
      lookup t s.cache (targets i) now jitter = (cache, found) →
      ∃ ops : List CacheOp, (∀ op ∈ ops, op.Adds U) ∧ cache = .run t .new ops := by
    intro now jitter cache found h
    obtain ⟨op, hop, rfl⟩ := exists_op_of_lookup (U := U) h
    exact hs.cache_step hop
  have hhit : ∀ {now jitter : ℤ} {cache : RegionCacheMap} {region : Region},
      lookup t s.cache (targets i) now jitter = (cache, some region) →
      (∃ r, U r ∧ region.SameRange r) ∧
        ∀ key, targets i = .key key → region.contains key = true := by
    intro now jitter cache region h
    obtain ⟨⟨v, x, hx, rfl⟩, hkey⟩ := cached_of_lookup h
    exact ⟨hcaches v x hx, hkey⟩
  cases hadv with
  | hit _ h | recheckHit _ h =>
    refine ⟨hlookup h, by simp, fun result hr => ?_⟩
    cases hr
    exact ⟨_, rfl, hhit h⟩
  | miss _ h | recheckMiss _ h => exact ⟨hlookup h, by simp, by simp [Phase.outcome]⟩
  | follow | register | drop => exact ⟨hs.cache, by simp, by simp [Phase.outcome]⟩
  | answerOk =>
    obtain ⟨_, heq, hregion, hkey⟩ := ha
    cases heq
    refine ⟨hs.cache, fun h region hp => ?_, fun result hr => ?_⟩
    · cases hp
      exact hregion
    · cases hr
      exact ⟨_, rfl, ⟨_, hregion, rfl, rfl, rfl⟩, hkey⟩
  | answerError =>
    obtain ⟨_, heq, -⟩ := ha
    cases heq
  | @added _ _ region now jitter hphase _ =>
    have hop : (CacheOp.addRegion region now jitter).Adds U := hs.adds i _ region hphase
    refine ⟨hs.cache_step hop, by simp, fun result hr => hs.outcome i result ?_⟩
    rw [hphase]
    exact hr

lemma Routed.step (hU : Served U) (hs : Routed t U targets s)
    (ha : PdAnswers U targets s a) (hstep : step t targets s a = some s') :
    Routed t U targets s' := by
  -- One call changes its phase; the others keep theirs, or go back to the start.
  have hset : ∀ {s' : LoadState n} {i : Fin n} {p : Phase},
      (∃ ops : List CacheOp, (∀ op ∈ ops, op.Adds U) ∧ s'.cache = .run t .new ops) →
      (∀ j, s'.phase j = s.phase j ∨ s'.phase j = .check) →
      (∀ h region, p = .add h region → U region) →
      (∀ result, p.outcome = some result → ∃ region, result = .ok region ∧
        (∃ r, U r ∧ region.SameRange r) ∧
          ∀ key, targets i = .key key → region.contains key = true) →
      Routed t U targets (s'.setPhase i p) := by
    intro s' i p hcache hphase hadds houtcome
    refine ⟨hcache, fun j h region hj => ?_, fun j result hj => ?_⟩
    · rw [phase_setPhase] at hj
      split_ifs at hj with hji
      · exact hadds h region hj
      · rcases hphase j with hp | hp
        · exact hs.adds j h region (hp.symm.trans hj)
        · rw [hp] at hj
          cases hj
    · rw [phase_setPhase] at hj
      split_ifs at hj with hji
      · rw [hji]
        exact houtcome result hj
      · rcases hphase j with hp | hp
        · exact hs.outcome j result (by rw [← hp, hj])
        · rw [hp] at hj
          cases hj
  rcases step_cases hstep with ⟨i, cache, p, hadv, rfl⟩ | ⟨i, rfl, hphase, hnone, rfl⟩ |
    ⟨i, h, result, guard, -, hphase, rfl⟩ | ⟨i, h, result, guard, rfl, hphase, rfl⟩ |
    ⟨op, rfl, -, rfl⟩
  · obtain ⟨hcache, hadds, houtcome⟩ := hs.advance hU ha hadv
    exact hset hcache (fun j => .inl rfl) hadds houtcome
  · refine hset ?_ (fun j => .inl (by simp)) (by simp) (by simp [Phase.outcome])
    cases targets i <;> exact hs.cache
  · refine hset ?_ (fun j => .inl (by simp)) (by simp) fun r hr => hs.outcome i r ?_
    · cases targets i <;> exact hs.cache
    · rw [hphase]
      exact hr
  · refine hset hs.cache (fun j => ?_) (by simp) fun r hr => hs.outcome i r ?_
    · rcases phase_notifyWaiters s h j with ⟨-, hp'⟩ | ⟨-, hp'⟩
      · exact .inr hp'
      · exact .inl hp'
    · rw [hphase]
      exact hr
  · exact ⟨hs.cache_step ha, hs.adds, hs.outcome⟩

/-- Whatever a lookup of a key returns, PD knows it and it contains the key. -/
lemma routed_of_reach (hU : Served U)
    (h : Machine.Reach (LoadState.step t targets) (PdAnswers U targets) (init n .new) s) :
    Routed t U targets s :=
  h.invariant routed_init fun _ _ _ hs ha hstep => hs.step hU ha hstep

/-- **`region_for_key` returns a region that contains the key.** -/
lemma regionForKey_of_reach (hU : Served U) {enableCodec : Bool}
    (hcodec : enableCodec = true → ∀ r, U r → r.EncodedBounds) {k : Key}
    (hi : targets i = .key (lookupKey k enableCodec))
    (h : Machine.Reach (LoadState.step t targets) (PdAnswers U targets) (init n .new) s)
    {result : Except Error Region} (hdone : s.phase i = .done result) :
    ∃ r, regionForKey enableCodec result = .ok r ∧ r.contains k = true := by
  obtain ⟨region, rfl, ⟨r, hr, hsame⟩, hkey⟩ :=
    (routed_of_reach hU h).outcome i result (by rw [hdone]; rfl)
  have hcontains := hkey _ hi
  cases enableCodec with
  | false => exact ⟨region, rfl, hcontains⟩
  | true =>
    have hbounds : region.EncodedBounds := by
      rw [Region.EncodedBounds, hsame.2.1, hsame.2.2]
      exact hcodec rfl r hr
    exact exists_decodeRegion hbounds hcontains

lemma lone_lookup_returns {targets : Fin 1 → Target}
    {e : Machine.Execution (LoadState.step t targets) (init 1 cache)}
    (hfair : e.Fair (·.isLookup = true)) (hdrop : ∀ m i, e.action m ≠ some (.drop i)) :
    ∃ m result, (e.state m).phase 0 = .done result := by
  have hheard : e.Obeys NotifiesAll := by
    rintro m a - i h result guard - hphase j hj
    rw [Subsingleton.elim j i, hphase] at hj
    cases hj
  obtain ⟨m, hdone⟩ := eventually_done hfair hdrop hheard
  exact ⟨m, hdone 0⟩

/-- **Keys are routed to regions that contain them.**  The lookup of a key hits exactly if a cached,
unexpired region contains it; a region with encoded bounds that contains the encoded key decodes to
one that contains the key; and so `region_for_key` returns a region that contains the key, whatever
other lookups do, and returns when there are none. -/
theorem key_routed_to_region (t : RegionCacheTtl) (U : Region → Prop) (hU : Served U)
    (enableCodec : Bool) (hcodec : enableCodec = true → ∀ r, U r → r.EncodedBounds) :
    (∀ ops : List CacheOp, (∀ op ∈ ops, op.Adds U) → ∀ (key : Key) (now jitter : ℤ) (r : Region),
      (RegionCacheMap.lookupByKey t (.run t .new ops) key now jitter).2 = some r ↔
        ∃ (v : RegionVerId) (x : CachedRegion),
          (RegionCacheMap.run t .new ops).verIdToRegion[v]? = some x ∧ x.region = r ∧
            t.Unexpired x.ttlEpochSec now ∧ r.contains key = true) ∧
    (∀ (k : Key) (r : Region), r.EncodedBounds → r.contains k.toEncoded = true →
      ∃ r', decodeRegion r true = .ok r' ∧ r'.contains k = true) ∧
    (∀ (n : ℕ) (targets : Fin n → Target) (s : LoadState n) (i : Fin n) (k : Key)
      (result : Except Error Region), targets i = .key (lookupKey k enableCodec) →
      Machine.Reach (LoadState.step t targets) (PdAnswers U targets) (init n .new) s →
      s.phase i = .done result →
      ∃ r, regionForKey enableCodec result = .ok r ∧ r.contains k = true) ∧
    ∀ (k : Key) (e : Machine.Execution
        (LoadState.step t fun _ : Fin 1 => .key (lookupKey k enableCodec)) (init 1 .new)),
      e.Fair (·.isLookup = true) → (∀ m i, e.action m ≠ some (.drop i)) →
      e.Obeys (PdAnswers U fun _ => .key (lookupKey k enableCodec)) →
      ∃ m result r, (e.state m).phase 0 = .done result ∧
        regionForKey enableCodec result = .ok r ∧ r.contains k = true := by
  refine ⟨fun ops hops key now jitter r => ?_, fun k r hbounds hk => exists_decodeRegion hbounds hk,
    fun n targets s i k result hi h hdone => regionForKey_of_reach hU hcodec hi h hdone,
    fun k e hfair hdrop hobeys => ?_⟩
  · exact (RegionCacheMap.run_indexed hU ops hops).1.lookupByKey_eq_some_iff
  · obtain ⟨m, result, hdone⟩ := lone_lookup_returns hfair hdrop
    obtain ⟨r, hr, hk⟩ := regionForKey_of_reach hU hcodec rfl (hobeys.reach m) hdone
    exact ⟨m, result, r, hdone, hr, hk⟩

/-- A lookup of the key `[1, 5]` is answered with the region of the keys from `[1]` to `[2]`. -/
theorem key_routed_to_region_encoded :
    let region : Region := ⟨⟨1, 1, 1⟩, Key.toEncoded ⟨[1]⟩, Key.toEncoded ⟨[2]⟩, some 1⟩
    let targets : Fin 1 → Target := fun _ => .key (lookupKey ⟨[1, 5]⟩ true)
    ∃ s, Machine.Reach (LoadState.step (.new 600 60) targets) (PdAnswers (· = region) targets)
        (init 1 .new) s ∧ s.phase 0 = .done (.ok region) ∧
      ∃ r, regionForKey true (.ok region) = .ok r ∧ r.contains ⟨[1, 5]⟩ = true := by
  intro region targets
  have hU : Served (· = region) := by
    refine ⟨?_, ?_⟩
    · rintro r rfl
      exact .inl (by decide)
    · rintro r s rfl rfl _
      exact ⟨rfl, rfl, rfl⟩
  have hcodec : true = true → ∀ r, r = region → r.EncodedBounds := by
    rintro - r rfl
    exact ⟨.inr ⟨⟨[1]⟩, rfl⟩, .inr ⟨⟨[2]⟩, rfl⟩⟩
  have hanswer : ∀ key, targets 0 = .key key → region.contains key = true := by
    rintro key hkey
    cases hkey
    decide
  have hreach : Machine.Reach (LoadState.step (.new 600 60) targets)
      (PdAnswers (· = region) targets) (init 1 .new) _ :=
    (((((((Machine.Reach.refl.act (.lookup 0 0 0) trivial rfl).act (.join 0) trivial rfl).act
      (.recheck 0 0 0) trivial rfl).act (.answer 0 (.ok region)) ⟨region, rfl, rfl, hanswer⟩
      rfl).act (.add 0 0 0) trivial rfl).act (.clear 0) trivial rfl).act (.notify 0) trivial rfl)
  exact ⟨_, hreach, rfl,
    (key_routed_to_region _ _ hU true hcodec).2.2.1 1 targets _ 0 _ _ rfl hreach rfl⟩

end LoadState

end TikvClient
