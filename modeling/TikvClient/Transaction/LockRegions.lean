import TikvClient.Pd.Partition
import TikvClient.Transaction.RequestLemmas

/-!
# Which locks `resolve_locks` resolves

`resolve_locks` promises that the locks it does not return are resolved.  The loop over the expired
locks skips a lock if the region of the *primary* was cleaned for its transaction, while what is
cleaned is the region of the lock's own key.

**The loop** (`LoopInvariant`): an invariant of the transactions whose commit versions are known and
of the regions that were cleaned, kept by skipping a lock and by resolving it.

**The result**: the promise is kept in every run if, and only if, the TTLs fit into an `i64`, the
locks of one transaction name the same primary, and a lock that comes after one in the region of the
primary is in a region that was met before.
-/

namespace TikvClient

open Proto Prog

namespace ResolveLocks

variable {C : Call → Prop} {A : Answers} {tr : Trace}

/-! ## One lock -/

/-- **The commit version reported** by a cleanup of the primary, 0 for a rollback. -/
def Reported (A : Answers) (primary : Key) (version commitVersion : ℕ) : Prop :=
  ∃ region resp, A (.rpc region (.cleanup ⟨primary, version⟩)) (.ok resp) ∧ resp.error = none ∧
    resp.regionError = none ∧ resp.commitVersion = commitVersion

/-- **A region has accepted** to resolve the locks of a transaction. -/
def Accepted (A : Answers) (region : Region) (version commitVersion : ℕ) : Prop :=
  A (.rpc region (.resolveLock ⟨version, commitVersion⟩)) (.ok ⟨none, none⟩)

/-- A cleanup that returns has reported the commit version. -/
lemma sat_cleanup_reported (hC : Routing C) (fuel : ℕ) {primary : Key} {version : ℕ}
    (hcall : ∀ region, C (.rpc region (.cleanup ⟨primary, version⟩))) :
    (cleanup fuel primary version).Sat C A fun res => ∀ commitVersion, res = .ok commitVersion →
      Reported A primary version commitVersion := by
  have hsends : Dispatch.cleanup.Sends C A (fun r => [r.key]) (fun r => r = ⟨primary, version⟩)
      (fun r resp => ∃ region, A (.rpc region (.cleanup r)) (.ok resp)) True :=
    Dispatch.sends_of_key hC (fun _ => rfl) (fun _ => rfl) (fun _ _ => rfl) fun region r hr => by
      cases hr
      exact sat_rpc_answered hcall region
  refine Prog.Sat.andThen ((hsends.covering hC).sat_retryMultiRegion false fuel
    .defaultRegionBackoff (hsends.shards _ rfl)) (fun results hresults => ?_)
    fun _ _ _ h => by cases h
  have hleaves := hresults results rfl
  split
  next r resp hsingle =>
    rintro commitVersion h
    cases h
    have hmem : (r, resp) ∈ okLeaves results := by
      unfold collectSingle at hsingle
      split at hsingle
      · cases hsingle
        exact List.mem_singleton_self _
      · cases hsingle
    obtain ⟨hr, ⟨region, hans⟩, herror, hregion⟩ := hleaves.done _ hmem
    cases hr
    exact ⟨region, resp, hans, Option.toList_eq_nil_iff.mp herror, hregion, rfl⟩
  next => exact fun _ h => by cases h

/-- A lock is resolved in the region that was found for its key. -/
lemma sat_resolveLockAttempts_accepted (hC : Routing C) {key : Key} {version commitVersion : ℕ}
    (hcall : ∀ region, A (.regionForKey key) (.ok region) →
      C (.rpc region (.resolveLock ⟨version, commitVersion⟩))) (attempts : ℕ) :
    ∀ last, (resolveLockAttempts key version commitVersion attempts last).Sat C A
      fun res => ∀ id, res = .ok id → ∃ region : Region, region.verId = id ∧
        A (.regionForKey key) (.ok region) ∧ Accepted A region version commitVersion := by
  induction attempts with
  | zero =>
    intro last
    cases last <;> exact fun _ h => by cases h
  | succ attempts ih =>
    intro last
    unfold resolveLockAttempts
    refine Prog.Sat.andThen (Async.sat_regionForKey (hC.regionForKey key))
      (fun region hregion => ?_) fun _ _ _ h => by cases h
    refine Prog.Sat.andThen (Async.sat_mapRegionToStore (hC.mapRegionToStore region))
      (fun _ _ => ?_) fun _ _ _ h => by cases h
    refine Prog.Sat.andThen (Async.sat_rpc (hcall region hregion)) (fun resp hresp => ?_)
      fun _ _ _ h => by cases h
    split
    next => exact fun _ h => by cases h
    next => exact fun _ h => by cases h
    next =>
      exact Prog.Sat.andThen (ShardedPlan.sat_handleRegionError hC.updateLeader _ _)
        (fun _ _ => ih _) fun _ _ _ h => by cases h
    next herror hregionError =>
      rintro id h
      cases h
      obtain ⟨regionError, error⟩ := resp
      cases herror
      cases hregionError
      exact ⟨region, rfl, hregion, hresp⟩

/-! ## The loop -/

section Loop

variable {β : Type}

lemma getElem?_insert_nat (m : Std.ExtTreeMap ℕ β) (v w : ℕ) (x : β) :
    (m.insert v x)[w]? = if v = w then some x else m[w]? := by
  simp [Std.ExtTreeMap.getElem?_insert]

lemma getD_insert_nat (m : Std.ExtTreeMap ℕ β) (v w : ℕ) (x fallback : β) :
    (m.insert v x).getD w fallback = if v = w then x else m.getD w fallback := by
  simp [Std.ExtTreeMap.getD_insert]

/-- The commit version of the transaction of a lock, and the regions cleaned for it. -/
abbrev Known := Std.ExtTreeMap ℕ ℕ
abbrev Cleaned := Std.ExtTreeMap ℕ (List RegionVerId)

/-- The next lock of the loop, with the region that was found for its primary. -/
structure Turn (A : Answers) (expired : List LockInfo)
    (I : List LockInfo → Known → Cleaned → Prop) (done : List LockInfo) (lock : LockInfo)
    (known : Known) (cleaned : Cleaned) (region : Region) : Prop where
  split : ∃ rest, expired = done ++ lock :: rest
  inv : I done known cleaned
  found : A (.regionForKey lock.primaryLock) (.ok region)

/-- **An invariant of the loop** of `resolve_locks` over the expired locks, and what it says of the
requests that are sent. -/
structure LoopInvariant (C : Call → Prop) (A : Answers)
    (expired : List LockInfo) (I : List LockInfo → Known → Cleaned → Prop) : Prop where
  skip : ∀ {done lock known cleaned region}, Turn A expired I done lock known cleaned region →
    region.verId ∈ cleaned.getD lock.lockVersion [] → I (done ++ [lock]) known cleaned
  cleanup : ∀ {done lock known cleaned region}, Turn A expired I done lock known cleaned region →
    known[lock.lockVersion]? = none →
      ∀ r, C (.rpc r (.cleanup ⟨lock.primaryLock, lock.lockVersion⟩))
  resolve : ∀ {done lock known cleaned region}, Turn A expired I done lock known cleaned region →
    region.verId ∉ cleaned.getD lock.lockVersion [] → ∀ commitVersion r,
      A (.regionForKey lock.key) (.ok r) →
        C (.rpc r (.resolveLock ⟨lock.lockVersion, commitVersion⟩))
  resolved : ∀ {done lock known cleaned region}, Turn A expired I done lock known cleaned region →
    ∀ commitVersion r, (known[lock.lockVersion]? = some commitVersion ∨
        known[lock.lockVersion]? = none ∧
          Reported A lock.primaryLock lock.lockVersion commitVersion) →
      A (.regionForKey lock.key) (.ok r) → Accepted A r lock.lockVersion commitVersion →
        I (done ++ [lock]) (known.insert lock.lockVersion commitVersion)
          (cleaned.insert lock.lockVersion (r.verId :: cleaned.getD lock.lockVersion []))

variable {expired : List LockInfo} {I : List LockInfo → Known → Cleaned → Prop}

/-- The commit version of a transaction is known, or reported now. -/
lemma sat_commitVersionOf (hC : Routing C) (fuel : ℕ) (known : Known) (lock : LockInfo)
    (hcall : known[lock.lockVersion]? = none →
      ∀ r, C (.rpc r (.cleanup ⟨lock.primaryLock, lock.lockVersion⟩))) :
    (commitVersionOf fuel known lock).Sat C A fun res => ∀ commitVersion, res = .ok commitVersion →
      known[lock.lockVersion]? = some commitVersion ∨ known[lock.lockVersion]? = none ∧
        Reported A lock.primaryLock lock.lockVersion commitVersion := by
  unfold commitVersionOf
  split
  next commitVersion hknown =>
    rintro c h
    cases h
    exact .inl hknown
  next hnone =>
    exact (sat_cleanup_reported hC fuel (hcall hnone)).post fun res hres commitVersion h =>
      .inr ⟨hnone, hres commitVersion h⟩

/-- **The rule for the loop.** -/
theorem LoopInvariant.sat_resolveExpired (hI : LoopInvariant C A expired I) (hC : Routing C)
    (fuel : ℕ) (rest : List LockInfo) :
    ∀ done known cleaned, expired = done ++ rest → I done known cleaned →
      (resolveExpired fuel rest known cleaned).Sat C A fun res => res = .ok () →
        ∃ known cleaned, I expired known cleaned := by
  induction rest with
  | nil =>
    intro done known cleaned hsplit hinv _
    rw [List.append_nil] at hsplit
    exact ⟨known, cleaned, hsplit ▸ hinv⟩
  | cons lock rest ih =>
    intro done known cleaned hsplit hinv
    have hnext : expired = done ++ [lock] ++ rest := by simpa using hsplit
    unfold resolveExpired
    refine Prog.Sat.andThen (Async.sat_regionForKey (hC.regionForKey _)) (fun region hfound => ?_)
      fun _ _ h => by cases h
    have hturn : Turn A expired I done lock known cleaned region := ⟨⟨rest, hsplit⟩, hinv, hfound⟩
    split_ifs with hclean
    · exact ih _ _ _ hnext (hI.skip hturn hclean)
    · refine Prog.Sat.andThen (sat_commitVersionOf hC fuel known lock (hI.cleanup hturn))
        (fun commitVersion hversion => ?_) fun _ _ h => by cases h
      refine Prog.Sat.andThen (sat_resolveLockAttempts_accepted hC
        (hI.resolve hturn hclean commitVersion) _ _) (fun id hid => ?_) fun _ _ h => by cases h
      obtain ⟨r, rfl, hr, haccepted⟩ := hid id rfl
      exact ih _ _ _ hnext (hI.resolved hturn commitVersion r (hversion commitVersion rfl) hr
        haccepted)

end Loop

/-! ## The promise -/

/-- The TTL of the lock has elapsed at the timestamp, as an unsigned number. -/
def hasElapsed (ts : ℕ) (lock : LockInfo) : Bool :=
  decide ((lock.lockTtl : ℤ) ≤ (physical ts : ℤ) - physical lock.lockVersion)

/-- **The promise**: the live locks are returned, and for each other lock the region of its key has
accepted the commit version that was reported for its primary. -/
structure KeepsPromise (regionOf : Key → RegionVerId) (ts : ℕ) (locks live : List LockInfo)
    (tr : Trace) : Prop where
  live : live = locks.filter fun l => !hasElapsed ts l
  resolved : ∀ l ∈ locks, hasElapsed ts l = true → ∃ commitVersion,
    Reported (InTrace tr) l.primaryLock l.lockVersion commitVersion ∧
      ∃ region, region.verId = regionOf l.key ∧
        Accepted (InTrace tr) region l.lockVersion commitVersion

/-- **The layout of the regions** during a run, and its timestamp.  What is found for a key may be
outdated; a region that accepts requests is the one the key is in. -/
structure LaidOut (regionOf : Key → RegionVerId) (ts : ℕ) (tr : Trace) : Prop where
  timestamp : ∀ t, InTrace tr .getTimestamp (.ok t) → t = ts
  region : ∀ key (region r : Region) version commitVersion,
    InTrace tr (.regionForKey key) (.ok region) → r.verId = region.verId →
      Accepted (InTrace tr) r version commitVersion → region.verId = regionOf key

/-! ## When it is kept -/

/-- The TTL, read as an `i64`, says the same about the lock. -/
def TtlFits (ts : ℕ) (lock : LockInfo) : Prop :=
  lock.lockTtl < 2 ^ 63 ∨
    (physical ts : ℤ) - physical lock.lockVersion < lock.lockTtl - 2 ^ 64 ∨
    (lock.lockTtl : ℤ) ≤ (physical ts : ℤ) - physical lock.lockVersion

/-- The locks of one transaction name the same primary. -/
def OnePrimary (expired : List LockInfo) : Prop :=
  ∀ l ∈ expired, ∀ l' ∈ expired, l.lockVersion = l'.lockVersion → l.primaryLock = l'.primaryLock

/-- There is a lock of the transaction in the region. -/
def Met (regionOf : Key → RegionVerId) (locks : List LockInfo) (version : ℕ) (id : RegionVerId) :
    Prop :=
  ∃ l ∈ locks, l.lockVersion = version ∧ regionOf l.key = id

/-- **Skipped locks are clean**: after a lock in the region of the primary, there are only locks in
regions that were met before. -/
def SkipsClean (regionOf : Key → RegionVerId) (expired : List LockInfo) : Prop :=
  ∀ before l after, expired = before ++ l :: after →
    Met regionOf before l.lockVersion (regionOf l.primaryLock) →
      Met regionOf before l.lockVersion (regionOf l.key)

/-- The condition on the locks, the layout and the timestamp. -/
structure Orderly (regionOf : Key → RegionVerId) (ts : ℕ) (locks : List LockInfo) : Prop where
  ttl : ∀ l ∈ locks, TtlFits ts l
  primary : OnePrimary (locks.filter fun l => hasElapsed ts l)
  region : SkipsClean regionOf (locks.filter fun l => hasElapsed ts l)

variable {regionOf : Key → RegionVerId} {ts fuel : ℕ} {locks live expired : List LockInfo}

lemma asI64_of_lt {x : ℕ} (h : x < 2 ^ 64) :
    asI64 x = if x < 2 ^ 63 then (x : ℤ) else (x : ℤ) - 2 ^ 64 := by
  unfold asI64 Int.bmod
  dsimp only
  split_ifs <;> omega

/-- The comparison of the source agrees with the unsigned one exactly if the TTL fits. -/
lemma isExpired_eq_iff {lock : LockInfo} (h : lock.lockTtl < 2 ^ 64) :
    isExpired ts lock = hasElapsed ts lock ↔ TtlFits ts lock := by
  unfold isExpired hasElapsed TtlFits
  rw [asI64_of_lt h, decide_eq_decide]
  split_ifs <;> omega

lemma filter_isExpired (hu64 : ∀ l ∈ locks, l.lockTtl < 2 ^ 64) (h : ∀ l ∈ locks, TtlFits ts l) :
    (locks.filter fun l => isExpired ts l) = locks.filter fun l => hasElapsed ts l :=
  List.filter_congr fun l hl => (isExpired_eq_iff (hu64 l hl)).mpr (h l hl)

/-- The locks that are returned are those of the unsigned comparison exactly if all TTLs fit. -/
lemma filter_live_eq_iff (hu64 : ∀ l ∈ locks, l.lockTtl < 2 ^ 64) :
    ((locks.filter fun l => !isExpired ts l) = locks.filter fun l => !hasElapsed ts l) ↔
      ∀ l ∈ locks, TtlFits ts l := by
  refine ⟨fun heq l hl => (isExpired_eq_iff (hu64 l hl)).mp ?_, fun h => ?_⟩
  · have hmem : l ∈ (locks.filter fun l => !isExpired ts l) ↔
        l ∈ locks.filter fun l => !hasElapsed ts l := by rw [heq]
    simp only [List.mem_filter, hl, true_and, Bool.not_eq_true'] at hmem
    exact Bool.eq_iff_iff.mpr (by simpa using not_congr hmem)
  · exact List.filter_congr fun l hl => by rw [(isExpired_eq_iff (hu64 l hl)).mpr (h l hl)]

/-! ## Keeping it -/

/-- **What the loop has done**: the known commit versions were reported for all locks of their
transactions, and the regions of the locks so far have accepted them. -/
structure Kept (regionOf : Key → RegionVerId) (tr : Trace) (expired done : List LockInfo)
    (known : Known) (cleaned : Cleaned) : Prop where
  reported : ∀ v commitVersion, known[v]? = some commitVersion → ∀ l ∈ expired, l.lockVersion = v →
    Reported (InTrace tr) l.primaryLock v commitVersion
  accepted : ∀ v, ∀ id ∈ cleaned.getD v [], ∃ commitVersion, known[v]? = some commitVersion ∧
    ∃ region, region.verId = id ∧ Accepted (InTrace tr) region v commitVersion
  met : ∀ v, ∀ id ∈ cleaned.getD v [], Met regionOf done v id
  clean : ∀ l ∈ done, regionOf l.key ∈ cleaned.getD l.lockVersion []

variable {done : List LockInfo} {cleaned : Cleaned}

lemma Met.append {rest : List LockInfo} {v : ℕ} {id : RegionVerId}
    (h : Met regionOf done v id) : Met regionOf (done ++ rest) v id := by
  obtain ⟨l, hl, hv, hid⟩ := h
  exact ⟨l, List.mem_append_left _ hl, hv, hid⟩

lemma Kept.skip {known : Known} {lock : LockInfo} (h : Kept regionOf tr expired done known cleaned)
    (hclean : regionOf lock.key ∈ cleaned.getD lock.lockVersion []) :
    Kept regionOf tr expired (done ++ [lock]) known cleaned where
  reported := h.reported
  accepted := h.accepted
  met v id hid := (h.met v id hid).append
  clean l hl := by
    rcases List.mem_append.mp hl with hl | hl
    · exact h.clean l hl
    · rw [List.mem_singleton.mp hl]
      exact hclean

/-- A region that is cleaned now. -/
lemma Kept.resolved {known : Known} {lock : LockInfo}
    {commitVersion : ℕ} {r : Region} (h : Kept regionOf tr expired done known cleaned)
    (hprimary : OnePrimary expired) (hlock : lock ∈ expired)
    (hversion : known[lock.lockVersion]? = some commitVersion ∨
      known[lock.lockVersion]? = none ∧
        Reported (InTrace tr) lock.primaryLock lock.lockVersion commitVersion)
    (hr : r.verId = regionOf lock.key)
    (haccepted : Accepted (InTrace tr) r lock.lockVersion commitVersion) :
    Kept regionOf tr expired (done ++ [lock]) (known.insert lock.lockVersion commitVersion)
      (cleaned.insert lock.lockVersion (r.verId :: cleaned.getD lock.lockVersion [])) where
  reported v cv hknown l hl hv := by
    rw [getElem?_insert_nat] at hknown
    split_ifs at hknown with heq
    · cases hknown
      subst heq
      rcases hversion with hknown | ⟨-, hreported⟩
      · exact h.reported _ _ hknown l hl hv
      · rwa [hprimary l hl lock hlock hv]
    · exact h.reported v cv hknown l hl hv
  accepted v id hid := by
    rw [getD_insert_nat] at hid
    rw [getElem?_insert_nat]
    split_ifs at hid ⊢ with heq
    · subst heq
      refine ⟨commitVersion, rfl, ?_⟩
      rcases List.mem_cons.mp hid with rfl | hid
      · exact ⟨r, rfl, haccepted⟩
      · obtain ⟨cv, hcv, hregion⟩ := h.accepted _ id hid
        rcases hversion with hknown | ⟨hnone, -⟩
        · cases hknown.symm.trans hcv
          exact hregion
        · cases hnone.symm.trans hcv
    · exact h.accepted v id hid
  met v id hid := by
    rw [getD_insert_nat] at hid
    split_ifs at hid with heq
    · subst heq
      rcases List.mem_cons.mp hid with rfl | hid
      · exact ⟨lock, by simp, rfl, hr.symm⟩
      · exact (h.met _ id hid).append
    · exact (h.met v id hid).append
  clean l hl := by
    rw [getD_insert_nat]
    rcases List.mem_append.mp hl with hl | hl
    · split_ifs with heq
      · exact List.mem_cons_of_mem _ (heq ▸ h.clean l hl)
      · exact h.clean l hl
    · rw [List.mem_singleton.mp hl, if_pos rfl, hr]
      exact List.mem_cons_self

lemma loopInvariant_kept (hlaid : LaidOut regionOf ts tr) (hprimary : OnePrimary expired)
    (hskips : SkipsClean regionOf expired) :
    LoopInvariant (fun _ => True) (InTrace tr) expired (Kept regionOf tr expired) where
  skip hturn hclean := by
    obtain ⟨⟨rest, hsplit⟩, hinv, hfound⟩ := hturn
    -- The region has accepted a request, so it is the one of the primary.
    obtain ⟨cv, -, r, hr, haccepted⟩ := hinv.accepted _ _ hclean
    rw [hlaid.region _ _ r _ cv hfound hr haccepted] at hclean
    obtain ⟨l, hl, hv, hkey⟩ := hskips _ _ rest hsplit (hinv.met _ _ hclean)
    refine hinv.skip ?_
    rw [← hkey, ← hv]
    exact hinv.clean l hl
  cleanup _ _ _ := trivial
  resolve _ _ _ _ _ := trivial
  resolved hturn cv r hversion hfound haccepted := by
    obtain ⟨⟨rest, hsplit⟩, hinv, -⟩ := hturn
    exact hinv.resolved hprimary (by simp [hsplit]) hversion
      (hlaid.region _ r r _ cv hfound rfl haccepted) haccepted

/-- A run of `resolve_locks`: the timestamp, the loop, and the locks it returns. -/
lemma sat_resolveLocks_live (fuel : ℕ) (locks : List LockInfo)
    {I : List LockInfo → Known → Cleaned → Prop} (hC : Routing C) (hts : C .getTimestamp)
    (htimestamp : ∀ t, A .getTimestamp (.ok t) → t = ts)
    (hI : LoopInvariant C A (locks.filter fun l => isExpired ts l) I) (hinit : I [] ∅ ∅) :
    (resolveLocks fuel locks).Sat C A fun res => ∀ live, res = .ok live →
      (live = locks.filter fun l => !isExpired ts l) ∧
        ∃ known cleaned, I (locks.filter fun l => isExpired ts l) known cleaned := by
  refine Prog.Sat.andThen (Async.sat_getTimestamp hts) (fun t hA => ?_) fun _ _ _ h => by cases h
  obtain rfl := htimestamp t hA
  refine Prog.Sat.andThen (hI.sat_resolveExpired hC fuel _ [] ∅ ∅ rfl hinit) (fun _ hdone => ?_)
    fun _ _ _ h => by cases h
  rintro live h
  cases h
  exact ⟨rfl, hdone rfl⟩

theorem keepsPromise_of_orderly (hu64 : ∀ l ∈ locks, l.lockTtl < 2 ^ 64)
    (horderly : Orderly regionOf ts locks) (hlaid : LaidOut regionOf ts tr)
    (hrun : Returns (resolveLocks fuel locks) tr (.ok live)) :
    KeepsPromise regionOf ts locks live tr := by
  have hexpired := filter_isExpired hu64 horderly.ttl
  have hI := loopInvariant_kept hlaid horderly.primary horderly.region
  rw [← hexpired] at hI
  have hsat := sat_resolveLocks_live fuel locks routing_true trivial hlaid.timestamp hI
    ⟨by simp, by simp, by simp, by simp⟩
  obtain ⟨hlive, known, cleaned, hkept⟩ := hsat.of_returns_inTrace hrun live rfl
  refine ⟨hlive.trans ((filter_live_eq_iff hu64).mpr horderly.ttl), fun l hl helapsed => ?_⟩
  have hmem : l ∈ locks.filter fun l => isExpired ts l := by
    rw [hexpired]
    exact List.mem_filter.mpr ⟨hl, helapsed⟩
  obtain ⟨cv, hknown, hregion⟩ := hkept.accepted _ _ (hkept.clean l hmem)
  exact ⟨cv, hkept.reported _ cv hknown l hmem rfl, hregion⟩

/-! ## Breaking it -/

/-- **The requests that are sent**: for each transaction, a cleanup of the primary of its first
lock, and requests to the regions of the locks up to the first one in the region of its primary. -/
def Sent (regionOf : Key → RegionVerId) (expired : List LockInfo) : Call → Prop
  | .rpc _ (.cleanup r) =>
    (expired.find? fun l => l.lockVersion = r.startVersion).map LockInfo.primaryLock = some r.key
  | .rpc region (.resolveLock r) => ∃ before l after, expired = before ++ l :: after ∧
      l.lockVersion = r.startVersion ∧ regionOf l.key = region.verId ∧
      ∀ l' ∈ before, l'.lockVersion = l.lockVersion → l'.primaryLock = l.primaryLock →
        regionOf l'.key ≠ regionOf l.primaryLock
  | _ => True

lemma routing_sent : Routing (Sent regionOf expired) :=
  ⟨fun _ => trivial, fun _ => trivial, fun _ _ => trivial⟩

/-- What the loop knows: the transactions of the locks so far, and the regions of those that are
where their primary is. -/
structure Noted (regionOf : Key → RegionVerId) (done : List LockInfo) (known : Known)
    (cleaned : Cleaned) : Prop where
  seen : ∀ l ∈ done, known[l.lockVersion]? ≠ none
  nonempty : ∀ v, cleaned.getD v [] ≠ [] → known[v]? ≠ none
  primary : ∀ l ∈ done, regionOf l.key = regionOf l.primaryLock →
    regionOf l.key ∈ cleaned.getD l.lockVersion []

lemma loopInvariant_noted
    (hexact : ∀ key region, A (.regionForKey key) (.ok region) → region.verId = regionOf key) :
    LoopInvariant (Sent regionOf expired) A expired (Noted regionOf) where
  skip hturn hclean := by
    obtain ⟨-, hinv, hfound⟩ := hturn
    rw [hexact _ _ hfound] at hclean
    refine ⟨fun l hl => ?_, hinv.nonempty, fun l hl hregion => ?_⟩
    · rcases List.mem_append.mp hl with hl | hl
      · exact hinv.seen l hl
      · rw [List.mem_singleton.mp hl]
        exact hinv.nonempty _ (List.ne_nil_of_mem hclean)
    · rcases List.mem_append.mp hl with hl | hl
      · exact hinv.primary l hl hregion
      · obtain rfl := List.mem_singleton.mp hl
        rwa [hregion]
  cleanup hturn hnone region := by
    obtain ⟨⟨rest, hsplit⟩, hinv, -⟩ := hturn
    rename_i done lock known cleaned found
    have hfirst : done.find? (fun l => l.lockVersion = lock.lockVersion) = none := by
      rw [List.find?_eq_none]
      intro l hl hv
      exact hinv.seen l hl (of_decide_eq_true hv ▸ hnone)
    show Option.map _ (expired.find? fun l => l.lockVersion = lock.lockVersion) = _
    rw [hsplit, List.find?_append, hfirst]
    simp
  resolve hturn hclean cv r hfound := by
    obtain ⟨⟨rest, hsplit⟩, hinv, hprimary⟩ := hturn
    rename_i done lock known cleaned region
    refine ⟨done, lock, rest, hsplit, rfl, (hexact _ _ hfound).symm, ?_⟩
    intro l hl hv hp hregion
    have hmem := hinv.primary l hl (hp ▸ hregion)
    rw [hregion, hv, ← hexact _ _ hprimary] at hmem
    exact hclean hmem
  resolved hturn cv r _ hfound _ := by
    obtain ⟨-, hinv, -⟩ := hturn
    refine ⟨fun l hl => ?_, fun v hv => ?_, fun l hl hregion => ?_⟩
    · rw [getElem?_insert_nat]
      split_ifs with heq
      · exact Option.some_ne_none _
      · rcases List.mem_append.mp hl with hl | hl
        · exact hinv.seen l hl
        · exact absurd (congrArg LockInfo.lockVersion (List.mem_singleton.mp hl)).symm heq
    · rw [getD_insert_nat] at hv
      rw [getElem?_insert_nat]
      split_ifs at hv ⊢
      · exact Option.some_ne_none _
      · exact hinv.nonempty v hv
    · rw [getD_insert_nat]
      rcases List.mem_append.mp hl with hl | hl
      · have hmem := hinv.primary l hl hregion
        split_ifs with heq
        · exact List.mem_cons_of_mem _ (heq ▸ hmem)
        · exact hmem
      · rw [List.mem_singleton.mp hl, if_pos rfl, hexact _ _ hfound]
        exact List.mem_cons_self

section Exact

variable (hrun : Returns (resolveLocks fuel locks) tr (.ok live))
  (htimestamp : ∀ t, InTrace tr .getTimestamp (.ok t) → t = ts)
  (hexact : ∀ key region, InTrace tr (.regionForKey key) (.ok region) → region.verId = regionOf key)

include hrun htimestamp hexact

/-- The requests and the result of a run in which the lookups are up to date. -/
lemma sent_and_live :
    (∀ (c : Call) (ans : c.Ans), InTrace (S := sig) tr c ans →
      Sent regionOf (locks.filter fun l => isExpired ts l) c) ∧
        live = locks.filter fun l => !isExpired ts l := by
  have hsat := sat_resolveLocks_live fuel locks routing_sent trivial htimestamp
    (loopInvariant_noted hexact) ⟨by simp, by simp, by simp⟩
  exact ⟨fun c ans hans => (hsat.of_steps hrun (allowed_inTrace tr)).1 _ hans,
    (hsat.of_returns_inTrace hrun live rfl).1⟩

/-- **A run that keeps the promise shows that the locks are orderly.** -/
theorem orderly_of_keepsPromise (hu64 : ∀ l ∈ locks, l.lockTtl < 2 ^ 64)
    (hpromise : KeepsPromise regionOf ts locks live tr) : Orderly regionOf ts locks := by
  obtain ⟨hsent, hlive⟩ := sent_and_live hrun htimestamp hexact
  have httl := (filter_live_eq_iff hu64).mp (hlive.symm.trans hpromise.live)
  rw [filter_isExpired hu64 httl] at hsent
  have hprimary : OnePrimary (locks.filter fun l => hasElapsed ts l) := by
    intro l hl l' hl' hv
    obtain ⟨cv, ⟨region, resp, hans, -⟩, -⟩ := hpromise.resolved l (List.mem_filter.mp hl).1
      (List.mem_filter.mp hl).2
    obtain ⟨cv', ⟨region', resp', hans', -⟩, -⟩ := hpromise.resolved l' (List.mem_filter.mp hl').1
      (List.mem_filter.mp hl').2
    -- Both primaries are that of the first lock of the transaction.
    have hfirst := hsent _ _ hans
    have hfirst' := hsent _ _ hans'
    simp only [Sent, hv] at hfirst hfirst'
    exact Option.some.inj (hfirst.symm.trans hfirst')
  refine ⟨httl, hprimary, fun before l after hsplit hmet => ?_⟩
  have hl : l ∈ locks.filter fun l => hasElapsed ts l := by simp [hsplit]
  obtain ⟨cv, -, region, hregion, haccepted⟩ := hpromise.resolved l (List.mem_filter.mp hl).1
    (List.mem_filter.mp hl).2
  obtain ⟨before', l', after', hsplit', hv, hkey, hfree⟩ := hsent _ _ haccepted
  have hl' : l' ∈ locks.filter fun l => hasElapsed ts l := by simp [hsplit']
  have hp := hprimary l' hl' l hl hv
  -- The lock that was resolved in this region cannot come after the one in the primary's.
  have hnot : ¬ ∀ x ∈ before, x ∈ before' := by
    intro hsub
    obtain ⟨x, hx, hxv, hxregion⟩ := hmet
    have hxmem : x ∈ locks.filter fun l => hasElapsed ts l := by simp [hsplit, hx]
    exact hfree x (hsub x hx) (hxv.trans hv.symm) ((hprimary x hxmem l hl hxv).trans hp.symm)
      (hxregion.trans (congrArg regionOf hp.symm))
  rcases List.append_eq_append_iff.mp (hsplit.symm.trans hsplit') with
    ⟨mid, rfl, -⟩ | ⟨mid, rfl, hmid⟩
  · exact absurd (fun x hx => List.mem_append_left _ hx) hnot
  · cases mid with
    | nil => exact absurd (by simp) hnot
    | cons x mid =>
      obtain ⟨rfl, -⟩ := List.cons.inj hmid
      exact ⟨l', by simp, hv, hkey.trans hregion⟩

end Exact

/-! ## A run -/

/-- **PD and TiKV answer without failures**, from this layout. -/
def Serves (regionOf : Key → RegionVerId) (ts : ℕ) : Answers
  | .regionForKey key, ans => ans = .ok ⟨regionOf key, .empty, .empty, some 1⟩
  | .mapRegionToStore _, ans => ans = .ok ()
  | .getTimestamp, ans => ans = .ok ts
  | .rpc _ (.cleanup _), ans => ans = .ok ⟨none, none, 0⟩
  | .rpc _ (.resolveLock _), ans => ans = .ok ⟨none, none⟩
  | _, _ => True

lemma exists_served (regionOf : Key → RegionVerId) (ts : ℕ) (c : Call) :
    ∃ ans, Serves regionOf ts c ans := by
  have hother : Nonempty c.Ans := ⟨fixedCluster [] (fun _ _ => .error .grpc) c⟩
  cases c with
  | regionForKey key => exact ⟨_, rfl⟩
  | mapRegionToStore region => exact ⟨_, rfl⟩
  | getTimestamp => exact ⟨_, rfl⟩
  | rpc region request =>
    cases request with
    | cleanup r => exact ⟨_, rfl⟩
    | resolveLock r => exact ⟨_, rfl⟩
    | _ => exact ⟨hother.some, trivial⟩
  | _ => exact ⟨hother.some, trivial⟩

lemma ends_cleanup (primary : Key) (version : ℕ) :
    Ends (Serves regionOf ts) (fun res => res = .ok 0) 7 (cleanup 4 primary version) := by
  have hshards : Ends (Serves regionOf ts) (fun res => ∃ region : Region,
      res = .ok [([primary], region)] ∧ region.leader ≠ none) 1
      (Dispatch.cleanup.plan.shards (newCleanupRequest primary version)) :=
    ends_regionStreamForKeys_one id primary fun _ hans => ⟨_, hans, by simp⟩
  have hexecute : ∀ region, Ends (Serves regionOf ts) (fun res => ∃ resp, res = .ok resp ∧
      Dispatch.cleanup.plan.regionError resp = none ∧ resp = ⟨none, none, 0⟩) 1
      (Dispatch.cleanup.plan.execute region ⟨primary, version⟩) := fun region =>
    (ends_ask (S := sig) (Call.rpc region (.cleanup ⟨primary, version⟩))).mono (Nat.le_refl 1)
      fun res hres => ⟨⟨none, none, 0⟩, hres, rfl, rfl⟩
  have hplan := ShardedPlan.ends_retryMultiRegion_one hshards (fun _ _ hans => hans) hexecute
    (show 1 + 2 < 4 by decide) false .defaultRegionBackoff
  refine Ends.andThen (e := 0) hplan (fun results hresults => ?_) fun x hx => ?_
  · obtain ⟨resp, rfl, heq⟩ := hresults
    cases heq
    exact ends_ret rfl
  · obtain ⟨resp, -, heq⟩ := hx
    cases heq

lemma ends_resolveLockWithRetry (key : Key) (version commitVersion : ℕ) :
    Ends (Serves regionOf ts) (fun res => res = .ok (regionOf key)) 3
      (resolveLockWithRetry key version commitVersion) := by
  refine Ends.andThen (e := 2) (ends_ask (S := sig) (Call.regionForKey key))
    (fun region hregion => ?_) fun x hx => by cases hx
  cases hregion
  refine Ends.andThen (e := 1) (ends_ask (S := sig) (Call.mapRegionToStore _))
    (fun _ _ => ?_) fun x hx => by cases hx
  refine Ends.andThen (e := 0) (ends_ask (S := sig) (Call.rpc _ (.resolveLock
    (newResolveLockRequest version commitVersion)))) (fun resp hresp => ?_) fun x hx => by cases hx
  cases hresp
  exact ends_ret rfl

lemma ends_commitVersionOf (known : Known) (lock : LockInfo) :
    Ends (Serves regionOf ts) (fun res => ∃ commitVersion, res = .ok commitVersion) 7
      (commitVersionOf 4 known lock) := by
  unfold commitVersionOf
  split
  · exact (ends_ret ⟨_, rfl⟩).mono (Nat.zero_le 7) fun _ h => h
  · exact (ends_cleanup _ _).mono (Nat.le_refl 7) fun _ h => ⟨0, h⟩

lemma ends_resolveExpired (expired : List LockInfo) :
    ∀ known cleaned, Ends (Serves regionOf ts) (fun res => res = .ok ()) (11 * expired.length)
      (resolveExpired 4 expired known cleaned) := by
  induction expired with
  | nil => exact fun _ _ => ends_ret rfl
  | cons lock rest ih =>
    intro known cleaned
    unfold resolveExpired
    have hlock : 1 + (10 + 11 * rest.length) = 11 * (lock :: rest).length := by
      rw [List.length_cons]
      omega
    rw [← hlock]
    refine Ends.andThen (ends_ask (S := sig) (Call.regionForKey _)) (fun region _ => ?_)
      fun x hx => by cases hx
    split_ifs
    · exact (ih known cleaned).mono (by omega) fun _ h => h
    · rw [show 10 + 11 * rest.length = 7 + (3 + 11 * rest.length) by omega]
      refine Ends.andThen (ends_commitVersionOf known lock) (fun commitVersion _ => ?_) ?_
      · exact Ends.andThen (ends_resolveLockWithRetry _ _ _) (fun _ _ => ih _ _)
          fun x hx => by cases hx
      · rintro x ⟨commitVersion, h⟩
        cases h

/-- `resolve_locks` has a run with this layout and timestamp, whose lookups are up to date. -/
lemma exists_run (regionOf : Key → RegionVerId) (ts : ℕ) (locks : List LockInfo) :
    ∃ tr live, Returns (resolveLocks 4 locks) tr (.ok live) ∧
      (∀ t, InTrace tr .getTimestamp (.ok t) → t = ts) ∧
      ∀ key region, InTrace tr (.regionForKey key) (.ok region) → region.verId = regionOf key := by
  have hends : Ends (Serves regionOf ts) (fun res => ∃ live, res = .ok live)
      (1 + (11 * (locks.filter fun l => isExpired ts l).length + 0)) (resolveLocks 4 locks) := by
    refine Ends.andThen (ends_ask (S := sig) Call.getTimestamp) (fun t ht => ?_)
      fun x hx => by cases hx
    cases ht
    exact Ends.andThen (ends_resolveExpired _ ∅ ∅) (fun _ _ => ends_ret ⟨_, rfl⟩)
      fun x hx => by cases hx
  obtain ⟨tr, res, hrun, hallowed, live, rfl⟩ := hends.exists_returns (exists_served regionOf ts)
  refine ⟨tr, live, hrun, fun t ht => ?_, fun key region hregion => ?_⟩
  · exact Except.ok.inj (hallowed _ ht)
  · rw [Except.ok.inj (hallowed _ hregion)]

lemma laidOut_of_exact (htimestamp : ∀ t, InTrace tr .getTimestamp (.ok t) → t = ts)
    (hexact : ∀ key region, InTrace tr (.regionForKey key) (.ok region) →
      region.verId = regionOf key) : LaidOut regionOf ts tr :=
  ⟨htimestamp, fun key region _ _ _ hfound _ _ => hexact key region hfound⟩

/-- The regions below and above the key `[5]`. -/
def twoRegionIds (key : Key) : RegionVerId := if key < ⟨[5]⟩ then ⟨1, 1, 1⟩ else ⟨2, 1, 1⟩

/-- A lock of the transaction that started at 0, whose primary is `[1]`. -/
def lockOn (key : Key) (ttl : ℕ) : LockInfo := ⟨key, ⟨[1]⟩, 0, ttl, .put, false, 0, []⟩

end ResolveLocks

end TikvClient
