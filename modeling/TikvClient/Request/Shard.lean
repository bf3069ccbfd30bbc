import TikvClient.Kv.BoundRange
import TikvClient.Request.Client
import Mathlib.Data.List.Sort

/-!
# Cutting a request into shards

A request that touches many keys is sent as one request per *shard*.  The items (keys or
mutations) are sorted, cut into runs that lie in one region (`group_keys_by_region`), and for
some requests each run is cut again into batches of bounded size (`Batchable::batches`).

**What is needed later**: both cuts are cuts — concatenating the pieces gives the items back,
and no piece is empty.
-/

namespace TikvClient

variable {ι : Type}

/-! ## Runs of keys in one region -/

/-- The stream of `group_keys_by_region`, with the run being collected as an argument: the first key
of a run decides the region, and the run goes on while the region contains the keys.  The stream
ends with the first lookup that fails: the runs before it, and the error. -/
def groupKeysAux (keyOf : ι → Key) :
    Option (List ι × Region) → List ι → Async (List (List ι × Region) × Option Error)
  | none, [] => .ret ([], none)
  | some run, [] => .ret ([run], none)
  | none, x :: xs =>
    (Async.regionForKey (keyOf x)).bind fun
      | .ok region => groupKeysAux keyOf (some ([x], region)) xs
      | .error e => .ret ([], some e)
  | some (items, region), x :: xs =>
    if region.contains (keyOf x) then
      groupKeysAux keyOf (some (items ++ [x], region)) xs
    else
      (Async.regionForKey (keyOf x)).bind fun
        | .ok next =>
          (groupKeysAux keyOf (some ([x], next)) xs).bind fun stream =>
          .ret ((items, region) :: stream.1, stream.2)
        | .error e => .ret ([(items, region)], some e)

/-- `region_stream_for_keys`, collected by `single_plan_handler`: runs of consecutive items and the
region each belongs to, or the error the stream ends with. -/
def regionStreamForKeys (keyOf : ι → Key) (items : List ι) :
    AsyncResult (List (List ι × Region)) :=
  (groupKeysAux keyOf none items).bind fun stream =>
  .ret (stream.2.elim (.ok stream.1) .error)

/-! ## Ranges -/

/-- The stream of `regions_for_range`, from the key where it is: it ends with the region that
reaches the end key, or that has no end. -/
def regionsFrom (endKey : Option Key) : ℕ → Key → AsyncResult (List Region)
  | 0, _ => .stuck
  | fuel + 1, startKey =>
    (Async.regionForKey startKey).andThen fun region =>
    if (endKey.map fun x => decide (x ≤ region.endKey) && !x.isEmpty).getD false ||
        region.endKey.isEmpty then
      .ret (.ok [region])
    else
      (regionsFrom endKey fuel region.endKey).andThen fun regions =>
      .ret (.ok (region :: regions))

def regionsForRange (fuel : ℕ) (range : BoundRange) : AsyncResult (List Region) :=
  regionsFrom range.intoKeys.2 fuel range.intoKeys.1

def rangeIntersection (region : Region) (range : Key × Key) : Key × Key :=
  let upper :=
    if region.endKey.isEmpty then range.2
    else if range.2.isEmpty then region.endKey
    else min region.endKey range.2
  (max region.startKey range.1, upper)

/-- `region_stream_for_range`: the parts of the range that lie in one region. -/
def regionStreamForRange (fuel : ℕ) (range : Key × Key) :
    AsyncResult (List ((Key × Key) × Region)) :=
  let bndRange := if range.2.isEmpty then .rangeFrom range.1 else .ofKeys range
  (regionsForRange fuel bndRange).andThen fun regions =>
  .ret (.ok (regions.map fun region => (rangeIntersection region range, region)))

/-! ## Batches of bounded size -/

/-- `Batchable::batches`, with the batch being collected and its size as arguments. -/
def batchesAux (itemSize : ι → ℕ) (batchSize : ℕ) : List ι → ℕ → List ι → List (List ι)
  | batch, _, [] => if batch.isEmpty then [] else [batch]
  | batch, size, x :: xs =>
    if size + itemSize x ≥ batchSize && !batch.isEmpty then
      batch :: batchesAux itemSize batchSize [x] (itemSize x) xs
    else
      batchesAux itemSize batchSize (batch ++ [x]) (size + itemSize x) xs

/-- Greedy batches: a new batch starts when the next item would make it reach `batchSize`. -/
def batches (itemSize : ι → ℕ) (items : List ι) (batchSize : ℕ) : List (List ι) :=
  batchesAux itemSize batchSize [] 0 items

def txnCommitBatchSize : ℕ := 16 * 1024

/-! ## Shards -/

/-- `sort_by` on the keys, which is stable. -/
def sortByKey (keyOf : ι → Key) (items : List ι) : List ι :=
  items.insertionSort fun a b => keyOf a ≤ keyOf b

/-- One shard per run of sorted items in a region (`shardable_keys!`). -/
def shardsByRegion (keyOf : ι → Key) (items : List ι) : AsyncResult (List (List ι × Region)) :=
  regionStreamForKeys keyOf (sortByKey keyOf items)

/-- One shard per batch of such a run, made of the run and the batch.  A lookup that fails becomes
`stream::iter(Err(e))`, which is an empty stream: the shards of the runs before it are all there
are, and there is no error. -/
def batchedShards {S : Type} (keyOf : ι → Key) (itemSize : ι → ℕ) (toShard : List ι → List ι → S)
    (batchSize : ℕ) (items : List ι) : AsyncResult (List (S × Region)) :=
  (groupKeysAux keyOf none (sortByKey keyOf items)).bind fun stream =>
  .ret (.ok (stream.1.flatMap fun run =>
    (batches itemSize run.1 batchSize).map fun batch => (toShard run.1 batch, run.2)))

/-! ## The cuts are cuts -/

/-- The pieces concatenate to the items, and none of them is empty. -/
structure IsCut (pieces : List (List ι)) (items : List ι) : Prop where
  flatten_eq : pieces.flatten = items
  nonempty : ∀ piece ∈ pieces, piece ≠ []

lemma isCut_batchesAux (itemSize : ι → ℕ) (batchSize : ℕ) (items : List ι) :
    ∀ (batch : List ι) (size : ℕ),
      IsCut (batchesAux itemSize batchSize batch size items) (batch ++ items) := by
  induction items with
  | nil =>
    intro batch size
    unfold batchesAux
    split_ifs with h
    · rw [List.isEmpty_iff] at h
      subst h
      exact ⟨rfl, by simp⟩
    · refine ⟨by simp, ?_⟩
      simpa using h
  | cons x xs ih =>
    intro batch size
    unfold batchesAux
    split_ifs with h
    · have hcut := ih [x] (itemSize x)
      refine ⟨by rw [List.flatten_cons, hcut.flatten_eq]; rfl, ?_⟩
      rw [List.forall_mem_cons]
      refine ⟨?_, hcut.nonempty⟩
      simp only [Bool.and_eq_true, Bool.not_eq_true', List.isEmpty_eq_false_iff] at h
      exact h.2
    · have hcut := ih (batch ++ [x]) (size + itemSize x)
      exact ⟨by rw [hcut.flatten_eq]; simp, hcut.nonempty⟩

lemma isCut_batches (itemSize : ι → ℕ) (items : List ι) (batchSize : ℕ) :
    IsCut (batches itemSize items batchSize) items :=
  isCut_batchesAux itemSize batchSize items [] 0

variable {items : List ι} {itemSize : ι → ℕ} {batchSize : ℕ}
  {pieces : List (List ι)} {startKey k : Key} {part : List ι}

lemma IsCut.isInfix {piece : List ι} (h : IsCut pieces items)
    (hpiece : piece ∈ pieces) : piece <:+: items := by
  obtain ⟨before, after, rfl⟩ := List.append_of_mem hpiece
  refine ⟨before.flatten, after.flatten, ?_⟩
  rw [← h.flatten_eq, List.flatten_append, List.flatten_cons, List.append_assoc]

/-- The items can be a batch: a single one of any size, or several that stay below the size. -/
def FitsBatch (itemSize : ι → ℕ) (batchSize : ℕ) (batch : List ι) : Prop :=
  batch.length ≤ 1 ∨ (batch.map itemSize).sum < batchSize

lemma fitsBatch_batchesAux (itemSize : ι → ℕ) (batchSize : ℕ) (items : List ι) :
    ∀ batch : List ι, FitsBatch itemSize batchSize batch →
      ∀ b ∈ batchesAux itemSize batchSize batch (batch.map itemSize).sum items,
        FitsBatch itemSize batchSize b := by
  induction items with
  | nil =>
    intro batch hbatch b hb
    unfold batchesAux at hb
    split_ifs at hb
    · cases hb
    · rwa [List.mem_singleton.mp hb]
  | cons x xs ih =>
    intro batch hbatch b hb
    unfold batchesAux at hb
    have hsum : (batch.map itemSize).sum + itemSize x = ((batch ++ [x]).map itemSize).sum := by
      simp
    split_ifs at hb with h
    · rcases List.mem_cons.mp hb with rfl | hb
      · exact hbatch
      · exact ih [x] (.inl (by simp)) b (by simpa using hb)
    · rw [hsum] at hb h
      refine ih (batch ++ [x]) ?_ b hb
      rcases List.eq_nil_or_concat batch with rfl | ⟨ys, y, rfl⟩
      · exact .inl (by simp)
      · refine .inr ?_
        simpa using h

lemma fitsBatch_batches {b : List ι}
    (h : b ∈ batches itemSize items batchSize) : FitsBatch itemSize batchSize b :=
  fitsBatch_batchesAux itemSize batchSize items [] (.inl (by simp)) b h

lemma batchesAux_of_fits (items : List ι) :
    ∀ batch : List ι, batch ++ items ≠ [] → FitsBatch itemSize batchSize (batch ++ items) →
      batchesAux itemSize batchSize batch (batch.map itemSize).sum items = [batch ++ items] := by
  induction items with
  | nil =>
    intro batch hne _
    rw [List.append_nil] at hne ⊢
    rw [batchesAux, if_neg (by simpa using hne)]
  | cons x xs ih =>
    intro batch hne hfits
    rw [batchesAux, if_neg]
    · have h := ih (batch ++ [x]) (by simp) (by simpa using hfits)
      simpa using h
    · rw [Bool.and_eq_true, decide_eq_true_eq, not_and_or]
      rcases hfits with hlen | hsum
      · rw [List.length_append, List.length_cons] at hlen
        right
        simp [List.eq_nil_of_length_eq_zero (show batch.length = 0 by omega)]
      · left
        rw [List.map_append, List.sum_append, List.map_cons, List.sum_cons] at hsum
        omega

lemma batches_of_fits (hne : items ≠ [])
    (h : FitsBatch itemSize batchSize items) : batches itemSize items batchSize = [items] :=
  batchesAux_of_fits items [] (by simpa using hne) (by simpa using h)

/-! ## Runs in their regions -/

section Runs

variable {C : Call → Prop} {A : Answers} {keyOf : ι → Key} {runs : List (List ι × Region)}
  {run : List ι} {region : Region}

/-- **The runs are a cut of the items**; if lookups answer regions with the keys they are asked for,
every run lies in its region, and sorted items with equal keys are in one run. -/
structure PlacedRuns (A : Answers) (keyOf : ι → Key) (runs : List (List ι × Region))
    (items : List ι) : Prop where
  cut : IsCut (runs.map Prod.fst) items
  inRegion : Hits A → ∀ run ∈ runs, ∀ x ∈ run.1, run.2.contains (keyOf x) = true
  apart : Hits A → (items.Pairwise fun x y => keyOf x ≤ keyOf y) →
    runs.Pairwise fun s t => ∀ x ∈ s.1, ∀ y ∈ t.1, keyOf x < keyOf y

/-- **What a stream has found of the items**: the runs of those before the first failed lookup. -/
structure FoundRuns (A : Answers) (keyOf : ι → Key) (items : List ι)
    (stream : List (List ι × Region) × Option Error) : Prop where
  placed : ∃ front, front <+: items ∧ PlacedRuns A keyOf stream.1 front ∧
    (stream.2 = none → front = items)
  error : ∀ e ∈ stream.2, ∃ k, A (.regionForKey k) (.error e)

lemma placedRuns_nil : PlacedRuns A keyOf [] [] := ⟨⟨rfl, by simp⟩, by simp, by simp⟩

lemma placedRuns_singleton (hne : run ≠ [])
    (hin : Hits A → ∀ y ∈ run, region.contains (keyOf y) = true) :
    PlacedRuns A keyOf [(run, region)] run :=
  ⟨⟨by simp, by simpa using hne⟩, by simpa using hin, by simp⟩

/-- A run that ends because the next key is in another region. -/
lemma PlacedRuns.cons (h : PlacedRuns A keyOf runs items) (hne : run ≠ [])
    (hin : Hits A → ∀ y ∈ run, region.contains (keyOf y) = true)
    (hout : ∀ x ∈ items.head?, region.contains (keyOf x) = false) :
    PlacedRuns A keyOf ((run, region) :: runs) (run ++ items) where
  cut := by
    refine ⟨by simp [← h.cut.flatten_eq], ?_⟩
    rw [List.map_cons, List.forall_mem_cons]
    exact ⟨hne, h.cut.nonempty⟩
  inRegion hits := List.forall_mem_cons.mpr ⟨hin hits, h.inRegion hits⟩
  apart hits hsorted := by
    obtain ⟨-, hrest, hcross⟩ := List.pairwise_append.mp hsorted
    refine List.pairwise_cons.mpr ⟨fun t ht y hy z hz => ?_, h.apart hits hrest⟩
    have hmem : z ∈ items := by
      rw [← h.cut.flatten_eq]
      exact List.mem_flatten.mpr ⟨t.1, List.mem_map_of_mem ht, hz⟩
    obtain ⟨x, xs, rfl⟩ := List.exists_cons_of_ne_nil (List.ne_nil_of_mem hmem)
    have hyx : keyOf y < keyOf x := by
      refine lt_of_le_of_ne (hcross y hy x List.mem_cons_self) fun heq => ?_
      have hx := hout x rfl
      rw [← heq, hin hits y hy] at hx
      cases hx
    rcases List.mem_cons.mp hmem with rfl | hz
    · exact hyx
    · exact hyx.trans_le ((List.pairwise_cons.mp hrest).1 z hz)

lemma FoundRuns.cons {x : ι} {xs : List ι} {stream : List (List ι × Region) × Option Error}
    (h : FoundRuns A keyOf (x :: xs) stream) (hne : run ≠ [])
    (hin : Hits A → ∀ y ∈ run, region.contains (keyOf y) = true)
    (hout : region.contains (keyOf x) = false) :
    FoundRuns A keyOf (run ++ x :: xs) ((run, region) :: stream.1, stream.2) := by
  obtain ⟨front, hfront, hplaced, hall⟩ := h.placed
  refine ⟨⟨run ++ front, List.prefix_append_right_inj run |>.mpr hfront, hplaced.cons hne hin ?_,
    fun hnone => by rw [hall hnone]⟩, h.error⟩
  intro y hy
  obtain ⟨rest, rfl⟩ := List.head?_eq_some_iff.mp hy
  obtain ⟨rfl, -⟩ := List.cons_prefix_cons.mp hfront
  exact hout

/-- **Runs in front of the first failed lookup**, over any regions. -/
theorem sat_groupKeysAux (hC : ∀ k, C (.regionForKey k)) (items : List ι) :
    ∀ run : Option (List ι × Region),
      (∀ r ∈ run, r.1 ≠ [] ∧ (Hits A → ∀ x ∈ r.1, r.2.contains (keyOf x) = true)) →
      (groupKeysAux keyOf run items).Sat C A
        (FoundRuns A keyOf ((run.map Prod.fst).getD [] ++ items)) := by
  induction items with
  | nil =>
    intro run hrun
    cases run with
    | none => exact ⟨⟨[], List.prefix_rfl, placedRuns_nil, fun _ => rfl⟩, by simp⟩
    | some r =>
      obtain ⟨hne, hin⟩ := hrun r rfl
      exact ⟨⟨r.1, by simp, placedRuns_singleton hne hin, by simp⟩, by simp⟩
  | cons x xs ih =>
    intro run hrun
    -- A run that starts at `x`, in the region the lookup answers.
    have hstart : ∀ region : Region, A (.regionForKey (keyOf x)) (.ok region) →
        (groupKeysAux keyOf (some ([x], region)) xs).Sat C A (FoundRuns A keyOf (x :: xs)) :=
      fun region hregion => ih (some ([x], region)) (by simpa using fun hits => hits _ _ hregion)
    cases run with
    | none =>
      refine (Async.sat_regionForKey (hC _)).bind fun ans hans => ?_
      cases ans with
      | ok region => exact hstart region hans
      | error e =>
        exact ⟨⟨[], List.nil_prefix, placedRuns_nil, fun h => by cases h⟩, by simpa using ⟨_, hans⟩⟩
    | some r =>
      obtain ⟨run, region⟩ := r
      obtain ⟨hne, hin⟩ := hrun (run, region) rfl
      unfold groupKeysAux
      split_ifs with hx
      · have h := ih (some (run ++ [x], region)) (by
          rintro _ ⟨⟩
          refine ⟨by simp, fun hits y hy => ?_⟩
          rcases List.mem_append.mp hy with hy | hy
          · exact hin hits y hy
          · rwa [List.mem_singleton.mp hy])
        exact h.post fun stream hstream => by simpa using hstream
      · refine (Async.sat_regionForKey (hC _)).bind fun ans hans => ?_
        cases ans with
        | ok next =>
          exact (hstart next hans).bind fun stream hstream =>
            hstream.cons hne hin (by simpa using hx)
        | error e =>
          exact ⟨⟨run, List.prefix_append _ _, placedRuns_singleton hne hin, fun h => by cases h⟩,
            by simpa using ⟨_, hans⟩⟩

lemma sat_groupKeysAux_none (hC : ∀ k, C (.regionForKey k)) (items : List ι) :
    (groupKeysAux keyOf none items).Sat C A (FoundRuns A keyOf items) :=
  sat_groupKeysAux hC items none (by simp)

/-- **Collected runs are runs of all the items**; the only errors are those of lookups. -/
theorem sat_regionStreamForKeys (hC : ∀ k, C (.regionForKey k)) (keyOf : ι → Key)
    (items : List ι) :
    (regionStreamForKeys keyOf items).Sat C A fun res =>
      (∀ runs, res = .ok runs → PlacedRuns A keyOf runs items) ∧
        ∀ e, res = .error e → ∃ k, A (.regionForKey k) (.error e) := by
  refine (sat_groupKeysAux_none hC items).bind fun stream hstream => ?_
  obtain ⟨runs, e⟩ := stream
  obtain ⟨⟨front, -, hplaced, hall⟩, herror⟩ := hstream
  cases e with
  | none =>
    refine ⟨fun _ h => ?_, fun _ h => by cases h⟩
    cases h
    exact hall rfl ▸ hplaced
  | some e =>
    refine ⟨fun _ h => (by cases h), fun _ h => ?_⟩
    cases h
    exact herror e rfl

end Runs

/-! ## Layouts

Which cuts can happen: regions may lie such that the items fall into any given runs. -/

/-- The regions contain the items of their run, and not the first item of the next one. -/
def IsLayout (keyOf : ι → Key) : List (List ι × Region) → Prop
  | [] => True
  | run :: rest =>
    run.1 ≠ [] ∧ (∀ x ∈ run.1, run.2.contains (keyOf x) = true) ∧
      (∀ next ∈ rest.head?, ∀ y ∈ next.1.head?, run.2.contains (keyOf y) = false) ∧
      IsLayout keyOf rest

lemma groupKeysAux_append (keyOf : ι → Key) (region : Region) (xs ys : List ι) :
    ∀ run, (∀ x ∈ xs, region.contains (keyOf x) = true) →
      groupKeysAux keyOf (some (run, region)) (xs ++ ys) =
        groupKeysAux keyOf (some (run ++ xs, region)) ys := by
  induction xs with
  | nil => simp
  | cons x xs ih =>
    intro run hin
    rw [List.forall_mem_cons] at hin
    rw [List.cons_append, groupKeysAux, if_pos hin.1, ih (run ++ [x]) hin.2, List.append_assoc,
      List.singleton_append]

lemma returns_regionForKey {α : Type} {key : Key} {f : Except Error Region → Async α}
    (region : Region) {tr : Trace} {r : α} (h : Prog.Returns (f (.ok region)) tr r) :
    Prog.Returns ((Async.regionForKey key).bind f)
      (.answered (S := sig) (.regionForKey key) (.ok region) :: tr) r :=
  Prog.Steps.call (S := sig) (c := .regionForKey key) (.ok region) h

/-- **A layout is what the lookups may answer.** -/
theorem exists_returns_groupKeysAux (keyOf : ι → Key) (rest : List (List ι × Region)) :
    ∀ run : List ι × Region, IsLayout keyOf (run :: rest) →
      ∃ tr, Prog.Returns (groupKeysAux keyOf (some run) (rest.flatMap Prod.fst)) tr
        (run :: rest, none) := by
  induction rest with
  | nil => exact fun run _ => ⟨[], .refl _⟩
  | cons next rest ih =>
    rintro ⟨items, region⟩ ⟨-, -, hnext, hrest⟩
    obtain ⟨tr, htr⟩ := ih next hrest
    obtain ⟨xs, region'⟩ := next
    obtain ⟨hne, hin, -⟩ := hrest
    obtain ⟨x, xs, rfl⟩ := List.exists_cons_of_ne_nil hne
    have hout : region.contains (keyOf x) = false := hnext _ rfl x rfl
    rw [List.forall_mem_cons] at hin
    have htail : Prog.Returns (groupKeysAux keyOf (some ([x], region'))
        (xs ++ rest.flatMap Prod.fst)) tr ((x :: xs, region') :: rest, none) := by
      rw [groupKeysAux_append keyOf region' xs _ [x] hin.2]
      exact htr
    rw [List.flatMap_cons, List.cons_append, groupKeysAux, if_neg (by simp [hout])]
    exact ⟨_, returns_regionForKey region' (htail.bind (Prog.returns_ret_iff.mpr ⟨rfl, rfl⟩))⟩

lemma exists_returns_groupKeysAux_none (keyOf : ι → Key) {runs : List (List ι × Region)}
    (h : IsLayout keyOf runs) :
    ∃ tr, Prog.Returns (groupKeysAux keyOf none (runs.flatMap Prod.fst)) tr (runs, none) := by
  cases runs with
  | nil => exact ⟨[], .refl _⟩
  | cons run rest =>
    obtain ⟨tr, htr⟩ := exists_returns_groupKeysAux keyOf rest run h
    obtain ⟨xs, region⟩ := run
    obtain ⟨hne, hin, -⟩ := h
    obtain ⟨x, xs, rfl⟩ := List.exists_cons_of_ne_nil hne
    rw [List.forall_mem_cons] at hin
    have htail : Prog.Returns (groupKeysAux keyOf (some ([x], region))
        (xs ++ rest.flatMap Prod.fst)) tr ((x :: xs, region) :: rest, none) := by
      rw [groupKeysAux_append keyOf region xs _ [x] hin.2]
      exact htr
    exact ⟨_, returns_regionForKey region htail⟩

/-- A region with a leader that serves `[startKey, endKey)`. -/
def servedRegion (startKey endKey : Key) : Region := ⟨⟨0, 0, 0⟩, startKey, endKey, some 0⟩

/-- The region of every key. -/
def wholeRegion : Region := servedRegion .empty .empty

lemma servedRegion_contains {endKey : Key} (hstart : startKey ≤ k)
    (hend : k < endKey ∨ endKey.isEmpty = true) :
    (servedRegion startKey endKey).contains k = true := by
  rw [Region.contains, Bool.and_eq_true, Bool.or_eq_true]
  exact ⟨decide_eq_true hstart, hend.imp decide_eq_true id⟩

lemma wholeRegion_contains (k : Key) : wholeRegion.contains k = true :=
  servedRegion_contains (Key.empty_le k) (.inr rfl)

lemma servedRegion_not_contains_end {endKey : Key} (h : k < endKey) :
    (servedRegion startKey endKey).contains endKey = false := by
  simp [servedRegion, Region.contains, Key.isEmpty_eq_false_of_lt h]

/-- The items that follow a run, up to the end of the key space. -/
lemma exists_layout_tail {keyOf : ι → Key} {post : List ι} {x : ι} {xs : List ι}
    (hpart : part = x :: xs) (hsorted : (part ++ post).Pairwise fun a b => keyOf a < keyOf b) :
    ∃ endKey rest, IsLayout keyOf ((part, servedRegion (keyOf x) endKey) :: rest) ∧
      rest.flatMap Prod.fst = post := by
  have hstart : ∀ a ∈ part, keyOf x ≤ keyOf a := by
    rw [hpart, List.cons_append, List.pairwise_cons] at hsorted
    rw [hpart, List.forall_mem_cons]
    exact ⟨le_rfl, fun a ha => (hsorted.1 a (List.mem_append_left _ ha)).le⟩
  have hne : part ≠ [] := by simp [hpart]
  cases post with
  | nil =>
    refine ⟨.empty, [], ⟨hne, fun a ha => ?_, by simp, trivial⟩, rfl⟩
    exact servedRegion_contains (hstart a ha) (.inr rfl)
  | cons y ys =>
    obtain ⟨-, hys, hlt⟩ := List.pairwise_append.mp hsorted
    rw [List.pairwise_cons] at hys
    refine ⟨keyOf y, [(y :: ys, servedRegion (keyOf y) .empty)],
      ⟨hne, fun a ha => ?_, ?_, by simp, fun a ha => ?_, by simp, trivial⟩, by simp⟩
    · exact servedRegion_contains (hstart a ha) (.inl (hlt a ha y List.mem_cons_self))
    · rintro _ ⟨⟩ _ ⟨⟩
      exact servedRegion_not_contains_end
        (hlt x (by simp [hpart]) y List.mem_cons_self)
    · refine servedRegion_contains ?_ (.inr rfl)
      rcases List.mem_cons.mp ha with rfl | ha
      · exact le_rfl
      · exact (hys.1 a ha).le

/-- **Regions may lie such that any run of consecutive items is a region's.** -/
theorem exists_layout_of_isInfix (keyOf : ι → Key)
    (hsorted : items.Pairwise fun a b => keyOf a < keyOf b) (hne : part ≠ [])
    (h : part <:+: items) :
    ∃ runs startKey endKey, IsLayout keyOf runs ∧ runs.flatMap Prod.fst = items ∧
      (part, servedRegion startKey endKey) ∈ runs := by
  obtain ⟨pre, post, rfl⟩ := h
  obtain ⟨x, xs, hpart⟩ := List.exists_cons_of_ne_nil hne
  rw [List.append_assoc] at hsorted ⊢
  obtain ⟨-, htail, hlt⟩ := List.pairwise_append.mp hsorted
  obtain ⟨endKey, rest, hlayout, hrest⟩ := exists_layout_tail hpart htail
  have hx : x ∈ part ++ post := by simp [hpart]
  by_cases hpre : pre = []
  · subst hpre
    exact ⟨_, keyOf x, endKey, hlayout, by simp [hrest], List.mem_cons_self⟩
  · refine ⟨(pre, servedRegion .empty (keyOf x)) :: (part, servedRegion (keyOf x) endKey) :: rest,
      keyOf x, endKey, ⟨hpre, fun a ha => ?_, ?_, hlayout⟩, by simp [hrest], by simp⟩
    · exact servedRegion_contains (Key.empty_le _) (.inl (hlt a ha x hx))
    · rintro _ ⟨⟩ y hy
      rw [hpart] at hy
      cases hy
      obtain ⟨a, ha⟩ := List.exists_mem_of_ne_nil pre hpre
      exact servedRegion_not_contains_end (hlt a ha x hx)

end TikvClient
