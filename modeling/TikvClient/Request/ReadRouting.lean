import TikvClient.Request.Routed

/-!
# Which peer a request is sent to

`ReadRouting` of the source, with all that peer selection reads: the mode, the seed, the labels and
the health of the stores, and two overrides that outlive an attempt, a forced leader and a store
that was pinned to a region.  `Request.Routed` leaves the choice among the candidates open; here it
is computed.

**Overrides and leaders.**  A store is pinned to a region when it is not ready yet, in every mode,
and on a retry the pinned store comes before the mode.  Meanwhile the region may have got another
leader: then a request that is for leaders only goes to the old one, as a replica read
(`pinned_store_outlives_leader`).  As long as leaders stay, the pinned store is the leader's
(`leader_selected_while_leaders_stay`).

**Picking.**  The index of a peer is computed in `u32`, the number of peers, too: it is zero for
`2 ^ 32` peers, where the remainder panics.
-/

namespace TikvClient

open Proto

namespace PeerSelection

/-! ## Peers and regions -/

inductive PeerRole where
  | voter
  | learner
  | incomingVoter
  | demotingVoter
deriving DecidableEq

def PeerRole.tryFrom : ℤ → Option PeerRole
  | 0 => some .voter
  | 1 => some .learner
  | 2 => some .incomingVoter
  | 3 => some .demotingVoter
  | _ => none

/-- `metapb::Peer`. -/
structure PbPeer where
  id : ℕ
  storeId : ℕ
  role : ℤ
  isWitness : Bool
deriving DecidableEq

/-- The role of a peer; one that is not known counts as a voter. -/
def PbPeer.peerRole (peer : PbPeer) : PeerRole := (PeerRole.tryFrom peer.role).getD .voter

/-- The peers and the leader of a region. -/
structure RegionWithLeader where
  verId : RegionVerId
  peers : List PbPeer
  leader : Option PbPeer
deriving DecidableEq

namespace RegionWithLeader

def id (region : RegionWithLeader) : ℕ := region.verId.id

/-- The peers other than the leader that can serve reads. -/
def replicas (region : RegionWithLeader) (leader : PbPeer) : List PbPeer :=
  region.peers.filter fun peer => !peer.isWitness && peer.storeId ≠ leader.storeId

def learners (region : RegionWithLeader) (leader : PbPeer) : List PbPeer :=
  (region.replicas leader).filter fun peer => peer.peerRole = .learner

def followers (region : RegionWithLeader) (leader : PbPeer) : List PbPeer :=
  (region.replicas leader).filter fun peer => peer.peerRole ≠ .learner

end RegionWithLeader

/-- The peer a request is sent to, and how it reads there (`ReadPeer`). -/
structure ReadPeer where
  targetPeer : PbPeer
  replicaRead : Bool
  staleRead : Bool
deriving DecidableEq

def ReadPeer.leader (peer : PbPeer) : ReadPeer := ⟨peer, false, false⟩

/-! ## Scores -/

structure ScoreStrategy where
  tryLeader : Bool := false
  preferLeader : Bool := false
  learnerOnly : Bool := false

def flagNotAttempted : Int64 := (1 : Int64) <<< (0 : Int64)
def flagNormalPeer : Int64 := (1 : Int64) <<< (1 : Int64)
def flagPreferLeader : Int64 := (1 : Int64) <<< (2 : Int64)
def flagLabelMatches : Int64 := (1 : Int64) <<< (3 : Int64)
def flagNotSlow : Int64 := (1 : Int64) <<< (4 : Int64)

/-- What a peer gets for its place: the flag for a preferred leader, the one for a normal peer, or
none. -/
def placeScore (peer : PbPeer) (isLeader isSlow labelMatching : Bool) (strategy : ScoreStrategy) :
    Int64 :=
  if isLeader then
    if strategy.preferLeader then
      if !isSlow then flagPreferLeader else flagNormalPeer
    else if strategy.tryLeader then
      if labelMatching then flagPreferLeader else flagNormalPeer
    else 0
  else if strategy.learnerOnly then
    if peer.peerRole = .learner then flagNormalPeer else 0
  else flagNormalPeer

def calculateScore (peer : PbPeer) (isLeader : Bool) (isSlowNow : ℕ → Bool) (storeMatch : List ℕ)
    (strategy : ScoreStrategy) : Int64 :=
  let labelMatches := storeMatch.isEmpty || storeMatch.contains peer.storeId
  let isSlow := isSlowNow peer.storeId
  (if labelMatches then flagLabelMatches else 0) ||| (if !isSlow then flagNotSlow else 0) |||
    flagNotAttempted ||| placeScore peer isLeader isSlow (!storeMatch.isEmpty) strategy

def pickPeer (peers : List PbPeer) (regionId : ℕ) (seed : UInt32) (attempt : ℕ) :
    Except Error (Option PbPeer) :=
  if peers.isEmpty then .ok none
  else
    let len := UInt32.ofNat peers.length
    if len = 0 then
      .error (.panicked "attempt to calculate the remainder with a divisor of zero")
    else
      match peers[((UInt32.ofNat regionId + seed + UInt32.ofNat attempt) % len).toNat]? with
      | some peer => .ok (some peer)
      | none => .error (.panicked "index out of bounds")

/-! ## The state of the routing -/

structure ReadRouting where
  replicaRead : ReplicaReadType := .leader
  staleRead : Bool := false
  seed : UInt32 := 0
  forceLeader : Bool := false
  storeMatch : List ℕ := []
  pinnedStores : ℕ → Option ℕ := fun _ => none
  /-- The stores that were left in a hurry because they were busy. -/
  pendingBackoffs : ℕ → Bool := fun _ => false

namespace ReadRouting

def pinStoreForRegion (rt : ReadRouting) (regionId storeId : ℕ) : ReadRouting :=
  { rt with pinnedStores := Function.update rt.pinnedStores regionId (some storeId) }

def clearPinnedStoreForRegion (rt : ReadRouting) (regionId : ℕ) : ReadRouting :=
  { rt with pinnedStores := Function.update rt.pinnedStores regionId none }

def force (rt : ReadRouting) : ReadRouting := { rt with forceLeader := true }

def addPendingBackoff (rt : ReadRouting) (storeId : ℕ) : ReadRouting :=
  { rt with pendingBackoffs := Function.update rt.pendingBackoffs storeId true }

/-- `take_pending_backoff_for_retry`, after the look at what was pending. -/
def clearPendingBackoff (rt : ReadRouting) (storeId : ℕ) : ReadRouting :=
  { rt with pendingBackoffs := Function.update rt.pendingBackoffs storeId false }

def isStaleRead (rt : ReadRouting) : Bool := rt.staleRead && !rt.forceLeader

/-- The peers with the greatest score, in their order; the loop of `select_peer_by_score`. -/
def maxPeers (rt : ReadRouting) (isSlowNow : ℕ → Bool) (leader : PbPeer)
    (strategy : ScoreStrategy) : List PbPeer → Int64 → List PbPeer → List PbPeer
  | [], _, best => best
  | peer :: peers, maxScore, best =>
    if peer.isWitness then rt.maxPeers isSlowNow leader strategy peers maxScore best
    else
      let isLeader := peer.storeId = leader.storeId
      let score := calculateScore peer isLeader isSlowNow rt.storeMatch strategy
      match compare score maxScore with
      | .gt => rt.maxPeers isSlowNow leader strategy peers score [peer]
      | .eq => rt.maxPeers isSlowNow leader strategy peers maxScore (best ++ [peer])
      | .lt => rt.maxPeers isSlowNow leader strategy peers maxScore best

/-- A peer that is picked from the list, or the leader if there is none. -/
def pickOrLeader (rt : ReadRouting) (region : RegionWithLeader) (leader : PbPeer) (attempt : ℕ)
    (peers : List PbPeer) : Except Error PbPeer :=
  (pickPeer peers region.id rt.seed attempt).map fun picked => picked.getD leader

def selectPeerByScore (rt : ReadRouting) (isSlowNow : ℕ → Bool) (region : RegionWithLeader)
    (attempt : ℕ) (leader : PbPeer) (peers : List PbPeer) (strategy : ScoreStrategy) :
    Except Error PbPeer :=
  rt.pickOrLeader region leader attempt (rt.maxPeers isSlowNow leader strategy peers (-1) [])

/-- The target of a read that is not stale, by its mode. -/
def selectTarget (rt : ReadRouting) (isSlowNow : ℕ → Bool) (region : RegionWithLeader)
    (attempt : ℕ) (leader : PbPeer) : Except Error PbPeer :=
  let followers := region.followers leader
  let learners := region.learners leader
  match rt.replicaRead with
  | .leader => .ok leader
  | .preferLeader =>
    if attempt = 0 then
      -- A slow leader is avoided on the first attempt if there is another peer.
      if isSlowNow leader.storeId && (!followers.isEmpty || !learners.isEmpty) then
        rt.selectPeerByScore isSlowNow region attempt leader (followers ++ learners)
          { preferLeader := true }
      else
        rt.selectPeerByScore isSlowNow region attempt leader region.peers
          { preferLeader := true }
    else rt.selectPeerByScore isSlowNow region attempt leader region.peers {}
  | .follower => if attempt = 0 then rt.pickOrLeader region leader attempt followers else .ok leader
  | .learner => if attempt = 0 then rt.pickOrLeader region leader attempt learners else .ok leader
  | .mixed =>
    if attempt = 0 then rt.selectPeerByScore isSlowNow region attempt leader region.peers {}
    else .ok leader

/-- The peer on the store that is pinned to the region, on a retry. -/
def pinnedPeer (rt : ReadRouting) (region : RegionWithLeader) (attempt : ℕ) : Option PbPeer :=
  if attempt > 0 then
    (rt.pinnedStores region.id).bind fun storeId =>
      region.peers.find? fun peer => !peer.isWitness && peer.storeId = storeId
  else none

def selectPeerInner (rt : ReadRouting) (isSlowNow : ℕ → Bool) (region : RegionWithLeader)
    (attempt : ℕ) (respectOverrides : Bool) : Except Error ReadPeer :=
  match region.leader with
  | none => .error (.leaderNotFound region.verId)
  | some leader =>
    if respectOverrides && rt.forceLeader then .ok (.leader leader)
    else
      match if respectOverrides then rt.pinnedPeer region attempt else none with
      | some peer =>
        .ok ⟨peer, !rt.staleRead && peer.storeId ≠ leader.storeId, rt.staleRead⟩
      | none =>
        if rt.staleRead then
          let replicas := region.followers leader ++ region.learners leader
          -- A retry of a stale read goes to the leader, and is still a stale read there.
          (if attempt = 0 then rt.pickOrLeader region leader attempt replicas
            else .ok leader).map fun target => ⟨target, false, true⟩
        else
          (rt.selectTarget isSlowNow region attempt leader).map fun target =>
            ⟨target, target.storeId ≠ leader.storeId, false⟩

def selectPeer (rt : ReadRouting) (isSlowNow : ℕ → Bool) (region : RegionWithLeader)
    (attempt : ℕ) : Except Error ReadPeer :=
  rt.selectPeerInner isSlowNow region attempt true

end ReadRouting

/-! ## Picking -/

/-- The number of peers, if there are any, is not zero in `u32`. -/
def Pickable (peers : List PbPeer) : Prop := peers = [] ∨ ¬ 2 ^ 32 ∣ peers.length

variable {peers : List PbPeer}

lemma ofNat_length_eq_zero_iff :
    UInt32.ofNat peers.length = 0 ↔ 2 ^ 32 ∣ peers.length := by
  rw [← UInt32.toNat_inj, UInt32.toNat_ofNat', Nat.dvd_iff_mod_eq_zero]
  rfl

/-- What is picked is one of the peers, and something is picked if there is a peer. -/
lemma exists_pickPeer (hne : peers ≠ []) (hlen : ¬ 2 ^ 32 ∣ peers.length)
    (regionId : ℕ) (seed : UInt32) (attempt : ℕ) :
    ∃ peer ∈ peers, pickPeer peers regionId seed attempt = .ok (some peer) := by
  have hzero := mt ofNat_length_eq_zero_iff.mp hlen
  set idx := (UInt32.ofNat regionId + seed + UInt32.ofNat attempt) % UInt32.ofNat peers.length
    with hidx
  have hbound : idx.toNat < peers.length := by
    have hpos : 0 < (UInt32.ofNat peers.length).toNat :=
      Nat.pos_of_ne_zero fun h => hzero (UInt32.toNat_inj.mp h)
    have hle : (UInt32.ofNat peers.length).toNat ≤ peers.length := by
      rw [UInt32.toNat_ofNat']
      exact Nat.mod_le _ _
    rw [hidx, UInt32.toNat_mod]
    exact (Nat.mod_lt _ hpos).trans_le hle
  refine ⟨peers[idx.toNat], List.getElem_mem hbound, ?_⟩
  rw [pickPeer, if_neg (by simpa using hne)]
  refine (if_neg hzero).trans ?_
  rw [← hidx, List.getElem?_eq_getElem hbound]

lemma pickPeer_of_dvd (hne : peers ≠ []) (hlen : 2 ^ 32 ∣ peers.length)
    (regionId : ℕ) (seed : UInt32) (attempt : ℕ) :
    pickPeer peers regionId seed attempt =
      .error (.panicked "attempt to calculate the remainder with a divisor of zero") := by
  rw [pickPeer, if_neg (by simpa using hne)]
  exact if_pos (ofNat_length_eq_zero_iff.mpr hlen)

namespace ReadRouting

variable (rt : ReadRouting) (isSlowNow : ℕ → Bool) (region : RegionWithLeader) (leader : PbPeer)
  (attempt : ℕ) {peers : List PbPeer} {peer : PbPeer}

lemma exists_pickOrLeader_iff (peers : List PbPeer) :
    (∃ peer, rt.pickOrLeader region leader attempt peers = .ok peer) ↔ Pickable peers := by
  rcases eq_or_ne peers [] with rfl | hne
  · exact iff_of_true ⟨leader, rfl⟩ (.inl rfl)
  · by_cases hlen : 2 ^ 32 ∣ peers.length
    · refine iff_of_false ?_ (not_or_intro hne (not_not_intro hlen))
      rintro ⟨peer, h⟩
      rw [pickOrLeader, pickPeer_of_dvd hne hlen] at h
      cases h
    · obtain ⟨peer, -, hpick⟩ := exists_pickPeer hne hlen region.id rt.seed attempt
      refine iff_of_true ⟨peer, ?_⟩ (.inr hlen)
      rw [pickOrLeader, hpick]
      rfl

variable {rt region leader attempt} in
lemma eq_or_mem_of_pickOrLeader (h : rt.pickOrLeader region leader attempt peers = .ok peer) :
    peers = [] ∧ peer = leader ∨ peer ∈ peers := by
  rcases eq_or_ne peers [] with rfl | hne
  · cases h
    exact .inl ⟨rfl, rfl⟩
  · have hlen :=
      ((rt.exists_pickOrLeader_iff region leader attempt peers).mp ⟨peer, h⟩).resolve_left hne
    obtain ⟨picked, hmem, hpick⟩ := exists_pickPeer hne hlen region.id rt.seed attempt
    rw [pickOrLeader, hpick] at h
    cases h
    exact .inr hmem

lemma mem_of_mem_maxPeers {strategy : ScoreStrategy} (peers : List PbPeer)
    (maxScore : Int64) (best : List PbPeer)
    (h : peer ∈ rt.maxPeers isSlowNow leader strategy peers maxScore best) :
    peer ∈ best ∨ peer ∈ peers ∧ peer.isWitness = false := by
  induction peers generalizing maxScore best with
  | nil => exact .inl h
  | cons p peers ih =>
    rw [maxPeers] at h
    -- Whatever the score, the list gains at most the peer at hand, which is not a witness.
    have hskip : ∀ {m b}, peer ∈ rt.maxPeers isSlowNow leader strategy peers m b →
        (peer ∈ b → peer ∈ best ∨ peer ∈ p :: peers ∧ peer.isWitness = false) →
        peer ∈ best ∨ peer ∈ p :: peers ∧ peer.isWitness = false := fun h hb =>
      (ih _ _ h).elim hb fun h => .inr ⟨List.mem_cons_of_mem _ h.1, h.2⟩
    split_ifs at h with hwitness
    · exact hskip h .inl
    · have hp : peer = p → peer ∈ best ∨ peer ∈ p :: peers ∧ peer.isWitness = false := by
        rintro rfl
        exact .inr ⟨List.mem_cons_self, Bool.eq_false_of_not_eq_true hwitness⟩
      dsimp only at h
      split at h
      · exact hskip h fun hb => hp (List.mem_singleton.mp hb)
      · refine hskip h fun hb => ?_
        exact (List.mem_append.mp hb).elim .inl fun hb => hp (List.mem_singleton.mp hb)
      · exact hskip h .inl

/-! ## The shape of a selection -/

/-- The peers among which the mode lets pick; the leader is taken if there is none. -/
def modePool : List PbPeer :=
  let followers := region.followers leader
  let learners := region.learners leader
  match rt.replicaRead with
  | .leader => []
  | .preferLeader =>
    if attempt = 0 then
      if isSlowNow leader.storeId && (!followers.isEmpty || !learners.isEmpty) then
        rt.maxPeers isSlowNow leader { preferLeader := true } (followers ++ learners) (-1) []
      else rt.maxPeers isSlowNow leader { preferLeader := true } region.peers (-1) []
    else rt.maxPeers isSlowNow leader {} region.peers (-1) []
  | .follower => if attempt = 0 then followers else []
  | .learner => if attempt = 0 then learners else []
  | .mixed => if attempt = 0 then rt.maxPeers isSlowNow leader {} region.peers (-1) [] else []

/-- The same when stale reads are told apart. -/
def pool : List PbPeer :=
  if rt.staleRead then
    if attempt = 0 then region.followers leader ++ region.learners leader else []
  else rt.modePool isSlowNow region leader attempt

/-- How the target is read: a stale read stays one, otherwise another store than the leader's is a
replica. -/
def readFrom (target : PbPeer) : ReadPeer :=
  ⟨target, !rt.staleRead && target.storeId ≠ leader.storeId, rt.staleRead⟩

lemma selectTarget_eq :
    rt.selectTarget isSlowNow region attempt leader =
      rt.pickOrLeader region leader attempt (rt.modePool isSlowNow region leader attempt) := by
  unfold selectTarget modePool
  cases rt.replicaRead with
  | leader => rfl
  | preferLeader | follower | learner | mixed => dsimp only; split_ifs <;> rfl

/-- **A selection, in three steps**: a forced leader, then a pinned peer, then one of the pool. -/
lemma selectPeer_eq (hleader : region.leader = some leader) :
    rt.selectPeer isSlowNow region attempt =
      if rt.forceLeader then .ok (.leader leader)
      else
        match rt.pinnedPeer region attempt with
        | some peer => .ok (rt.readFrom leader peer)
        | none =>
          (rt.pickOrLeader region leader attempt
            (rt.pool isSlowNow region leader attempt)).map (rt.readFrom leader) := by
  rw [selectPeer, selectPeerInner, hleader]
  dsimp only
  rw [Bool.true_and, if_pos rfl]
  refine if_congr Iff.rfl rfl ?_
  cases rt.pinnedPeer region attempt with
  | some peer => rfl
  | none =>
    dsimp only
    rw [pool]
    by_cases hstale : rt.staleRead = true
    · have hread : rt.readFrom leader = fun target => ⟨target, false, true⟩ := by
        funext target
        rw [readFrom, hstale, Bool.not_true, Bool.false_and]
      rw [if_pos hstale, if_pos hstale, hread]
      split_ifs <;> rfl
    · have hread : rt.readFrom leader =
          fun target => ⟨target, target.storeId ≠ leader.storeId, false⟩ := by
        funext target
        rw [readFrom, Bool.eq_false_of_not_eq_true hstale, Bool.not_false, Bool.true_and]
      rw [if_neg hstale, if_neg hstale, hread, selectTarget_eq]

/-! ## Soundness -/

/-- Peers of the region that can serve reads. -/
def AllReadable (peers : List PbPeer) : Prop :=
  ∀ peer ∈ peers, peer ∈ region.peers ∧ peer.isWitness = false

lemma allReadable_nil : AllReadable region [] := fun _ h => absurd h List.not_mem_nil

lemma allReadable_replicas : AllReadable region (region.replicas leader) := by
  intro peer h
  obtain ⟨hpeers, hcond⟩ := List.mem_filter.mp h
  rw [Bool.and_eq_true, Bool.not_eq_true'] at hcond
  exact ⟨hpeers, hcond.1⟩

lemma allReadable_followers : AllReadable region (region.followers leader) := fun _ h =>
  allReadable_replicas region leader _ (List.mem_of_mem_filter h)

lemma allReadable_learners : AllReadable region (region.learners leader) := fun _ h =>
  allReadable_replicas region leader _ (List.mem_of_mem_filter h)

lemma allReadable_append {peers' : List PbPeer} (h : AllReadable region peers)
    (h' : AllReadable region peers') : AllReadable region (peers ++ peers') := fun _ hmem =>
  (List.mem_append.mp hmem).elim (h _) (h' _)

lemma allReadable_maxPeers (h : ∀ peer ∈ peers, peer ∈ region.peers) (strategy : ScoreStrategy) :
    AllReadable region (rt.maxPeers isSlowNow leader strategy peers (-1) []) := fun _ hmem =>
  ((rt.mem_of_mem_maxPeers isSlowNow leader _ _ _ hmem).resolve_left List.not_mem_nil).imp_left
    (h _)

lemma allReadable_ite {c : Prop} [Decidable c] {peers' : List PbPeer}
    (h : AllReadable region peers) (h' : AllReadable region peers') :
    AllReadable region (if c then peers else peers') := by
  split_ifs
  · exact h
  · exact h'

lemma allReadable_modePool :
    AllReadable region (rt.modePool isSlowNow region leader attempt) := by
  have hfollowers := allReadable_followers region leader
  have hlearners := allReadable_learners region leader
  have hall := rt.allReadable_maxPeers isSlowNow region leader fun _ => id
  unfold modePool
  cases rt.replicaRead with
  | leader => exact allReadable_nil region
  | preferLeader =>
    have hothers := rt.allReadable_maxPeers isSlowNow region leader fun peer hmem =>
      (allReadable_append region hfollowers hlearners peer hmem).1
    exact allReadable_ite region (allReadable_ite region (hothers _) (hall _)) (hall _)
  | follower => exact allReadable_ite region hfollowers (allReadable_nil region)
  | learner => exact allReadable_ite region hlearners (allReadable_nil region)
  | mixed => exact allReadable_ite region (hall _) (allReadable_nil region)

lemma allReadable_pool : AllReadable region (rt.pool isSlowNow region leader attempt) :=
  allReadable_ite region
    (allReadable_ite region (allReadable_append region (allReadable_followers region leader)
      (allReadable_learners region leader)) (allReadable_nil region))
    (rt.allReadable_modePool isSlowNow region leader attempt)

variable {rt region attempt} in
lemma readable_of_pinnedPeer (h : rt.pinnedPeer region attempt = some peer) :
    peer ∈ region.peers ∧ peer.isWitness = false := by
  rw [pinnedPeer] at h
  split_ifs at h with hretry
  obtain ⟨storeId, -, hfind⟩ := Option.bind_eq_some_iff.mp h
  have hcond := List.find?_some hfind
  rw [Bool.and_eq_true, Bool.not_eq_true'] at hcond
  exact ⟨List.mem_of_find?_eq_some hfind, hcond.1⟩

/-- **A sound selection**: the leader or a peer that can serve reads; no stale read is a replica
read, any other read is one exactly on another store than the leader's; and if only the leader is to
be read, it is selected. -/
structure Sound (peer : ReadPeer) : Prop where
  target : peer.targetPeer = leader ∨
    peer.targetPeer ∈ region.peers ∧ peer.targetPeer.isWitness = false
  stale : peer.staleRead = true ∨ rt.staleRead = true → peer.replicaRead = false
  fresh : peer.staleRead = false →
    (peer.replicaRead = true ↔ peer.targetPeer.storeId ≠ leader.storeId)
  leaderOnly : rt.replicaRead = .leader → rt.staleRead = false →
    peer.targetPeer = leader ∧ peer.replicaRead = false

lemma sound_leader : rt.Sound region leader (.leader leader) where
  target := .inl rfl
  stale _ := rfl
  fresh _ := iff_of_false nofun fun h => h rfl
  leaderOnly _ _ := ⟨rfl, rfl⟩

/-- Of a target that can be read, all is sound but that it may have to be the leader. -/
lemma sound_readFrom_iff {target : PbPeer}
    (htarget : target = leader ∨ target ∈ region.peers ∧ target.isWitness = false) :
    rt.Sound region leader (rt.readFrom leader target) ↔
      (rt.replicaRead = .leader → rt.staleRead = false → target = leader) := by
  refine ⟨fun h hmode hstale => (h.leaderOnly hmode hstale).1, fun h => ⟨htarget, ?_, ?_, ?_⟩⟩
  · intro hstale
    have hstale : rt.staleRead = true := hstale.elim id id
    rw [readFrom, hstale, Bool.not_true, Bool.false_and]
  · intro hfresh
    have hfresh : rt.staleRead = false := hfresh
    simp [readFrom, hfresh]
  · intro hmode hstale
    rw [h hmode hstale, readFrom]
    exact ⟨rfl, by simp⟩

/-- Nothing but the leader is in the pool if only the leader is to be read. -/
lemma pool_leaderOnly (hmode : rt.replicaRead = .leader) (hstale : rt.staleRead = false) :
    rt.pool isSlowNow region leader attempt = [] := by
  rw [pool, hstale, modePool, hmode]
  rfl

/-- **When a selection is sound**: the leader is forced; or a pinned peer is the leader if only that
is to be read; or nothing is pinned and a peer can be picked. -/
def Routable : Prop :=
  rt.forceLeader = true ∨
    match rt.pinnedPeer region attempt with
    | some peer => rt.replicaRead = .leader → rt.staleRead = false → peer = leader
    | none => Pickable (rt.pool isSlowNow region leader attempt)

lemma exists_sound_iff (hleader : region.leader = some leader) :
    (∃ peer, rt.selectPeer isSlowNow region attempt = .ok peer ∧ rt.Sound region leader peer) ↔
      rt.Routable isSlowNow region leader attempt := by
  rw [rt.selectPeer_eq isSlowNow region leader attempt hleader, Routable]
  split_ifs with hforced
  · exact iff_of_true ⟨_, rfl, rt.sound_leader region leader⟩ (.inl hforced)
  · rw [or_iff_right hforced]
    cases hpinned : rt.pinnedPeer region attempt with
    | some peer =>
      dsimp only
      rw [← rt.sound_readFrom_iff region leader (.inr (readable_of_pinnedPeer hpinned))]
      exact ⟨fun ⟨_, heq, hsound⟩ => Except.ok.inj heq ▸ hsound, fun h => ⟨_, rfl, h⟩⟩
    | none =>
      dsimp only
      rw [← rt.exists_pickOrLeader_iff region leader attempt]
      constructor
      · rintro ⟨peer, heq, -⟩
        obtain ⟨target, hpick, -⟩ := exists_of_map_eq_ok heq
        exact ⟨target, hpick⟩
      · rintro ⟨target, hpick⟩
        have htarget := eq_or_mem_of_pickOrLeader hpick
        rw [hpick]
        refine ⟨_, rfl, (rt.sound_readFrom_iff region leader ?_).mpr fun hmode hstale => ?_⟩
        · exact htarget.imp And.right (rt.allReadable_pool isSlowNow region leader attempt target)
        · rw [rt.pool_leaderOnly isSlowNow region leader attempt hmode hstale] at htarget
          exact (htarget.resolve_right List.not_mem_nil).2

end ReadRouting

/-! ## Histories -/

/-- What the handlers do to the routing between two selections. -/
inductive RoutingOp where
  | pinStoreForRegion (regionId storeId : ℕ)
  | clearPinnedStoreForRegion (regionId : ℕ)
  | forceLeader

namespace ReadRouting

def apply (rt : ReadRouting) : RoutingOp → ReadRouting
  | .pinStoreForRegion regionId storeId => rt.pinStoreForRegion regionId storeId
  | .clearPinnedStoreForRegion regionId => rt.clearPinnedStoreForRegion regionId
  | .forceLeader => rt.force

def run (rt : ReadRouting) (history : List RoutingOp) : ReadRouting := history.foldl apply rt

end ReadRouting

/-- Three peers of a region, which is led by the one on this store. -/
def regionLedBy (storeId : ℕ) : RegionWithLeader where
  verId := ⟨1, 1, 1⟩
  peers := [⟨11, 1, 0, false⟩, ⟨12, 2, 0, false⟩, ⟨13, 3, 1, false⟩]
  leader := some ⟨10 + storeId, storeId, 0, false⟩

/-- **When a peer is selected soundly**, after every history of the routing: exactly if no pinned
peer other than the leader comes before a mode for leaders only, and the peers can be counted. -/
theorem selectPeer_sound_iff (config : ReadRouting) (history : List RoutingOp)
    (isSlowNow : ℕ → Bool) (region : RegionWithLeader) (leader : PbPeer) (attempt : ℕ)
    (hleader : region.leader = some leader) :
    (∃ peer, (config.run history).selectPeer isSlowNow region attempt = .ok peer ∧
        (config.run history).Sound region leader peer) ↔
      (config.run history).Routable isSlowNow region leader attempt :=
  (config.run history).exists_sound_iff isSlowNow region leader attempt hleader

/-- The store that is pinned is the leader's. -/
theorem pinned_leader_selected_soundly :
    ∃ peer, ((({} : ReadRouting).run [.pinStoreForRegion 1 1]).selectPeer (fun _ => false)
        (regionLedBy 1) 1 = .ok peer) ∧
      (({} : ReadRouting).run [.pinStoreForRegion 1 1]).Sound (regionLedBy 1) ⟨11, 1, 0, false⟩
        peer :=
  (selectPeer_sound_iff {} [.pinStoreForRegion 1 1] (fun _ => false) (regionLedBy 1)
    ⟨11, 1, 0, false⟩ 1 rfl).mpr (.inr fun _ _ => rfl)

/-! ### The history a plan makes -/

/-- What comes back from the selected peer. -/
inductive Answer where
  | regionError (e : RegionError)
  | response
  /-- Key errors, or no response at all. -/
  | failed

/-- The peer is kept for the next attempt (`keep_peer`). -/
def keepPeer (e : RegionError) : Bool :=
  e = .maxTimestampNotSynced || e = .readIndexNotReady || e = .proposalInMergingMode

/-- What `single_shard_handler` does to the routing when the answer is there. -/
def Answer.ops (replicaReadMode : Bool) (regionId : ℕ) (peer : ReadPeer) : Answer → List RoutingOp
  | .failed => []
  | .response => [.clearPinnedStoreForRegion regionId]
  | .regionError e =>
    if e = .dataIsNotReady && peer.staleRead then []
    else
      (if keepPeer e then .pinStoreForRegion regionId peer.targetPeer.storeId
        else .clearPinnedStoreForRegion regionId) ::
        if replicaReadMode && e = .staleCommand then [.clearPinnedStoreForRegion regionId] else []

/-- An attempt at a region as it is known then. -/
structure Attempt where
  isSlowNow : ℕ → Bool
  region : RegionWithLeader
  attempt : ℕ
  answer : Answer

namespace ReadRouting

def isReplicaReadMode (rt : ReadRouting) : Bool := rt.replicaRead.isFollowerRead || rt.staleRead

/-- The routing after an attempt. -/
def serve (rt : ReadRouting) (a : Attempt) : ReadRouting :=
  match rt.selectPeer a.isSlowNow a.region a.attempt with
  | .ok peer => rt.run (a.answer.ops rt.isReplicaReadMode a.region.id peer)
  | .error _ => rt

def serveAll (rt : ReadRouting) (attempts : List Attempt) : ReadRouting := attempts.foldl serve rt

end ReadRouting

/-- The first store is not ready and is pinned; when the second one leads the region, the first is
still asked, as a replica. -/
theorem pinned_store_outlives_leader :
    let rt := ({} : ReadRouting).serve
      ⟨fun _ => false, regionLedBy 1, 0, .regionError .maxTimestampNotSynced⟩
    rt.replicaRead = .leader ∧ rt.staleRead = false ∧
      rt.selectPeer (fun _ => false) (regionLedBy 2) 1 =
        .ok ⟨⟨11, 1, 0, false⟩, true, false⟩ :=
  ⟨rfl, rfl, rfl⟩

section LeadersStay

variable {leaderOf : ℕ → PbPeer} {rt : ReadRouting}

/-- The region is led by this peer, the only one on its store. -/
structure RegionWithLeader.LedBy (region : RegionWithLeader) (leader : PbPeer) : Prop where
  leader_eq : region.leader = some leader
  unique : ∀ peer ∈ region.peers, peer.storeId = leader.storeId → peer = leader

/-- The routing is for leaders, and only stores of leaders are pinned. -/
structure ReadRouting.PinsLeaders (leaderOf : ℕ → PbPeer) (rt : ReadRouting) : Prop where
  mode : rt.replicaRead = .leader
  fresh : rt.staleRead = false
  pinned : ∀ {regionId storeId}, rt.pinnedStores regionId = some storeId →
    storeId = (leaderOf regionId).storeId

variable {region : RegionWithLeader}

namespace ReadRouting.PinsLeaders

variable (h : rt.PinsLeaders leaderOf)

include h

lemma eq_leader_of_pinnedPeer (hled : region.LedBy (leaderOf region.id)) {attempt : ℕ}
    {peer : PbPeer} (hpeer : rt.pinnedPeer region attempt = some peer) :
    peer = leaderOf region.id := by
  rw [ReadRouting.pinnedPeer] at hpeer
  split_ifs at hpeer with hretry
  obtain ⟨storeId, hstore, hfind⟩ := Option.bind_eq_some_iff.mp hpeer
  have hcond := List.find?_some hfind
  rw [Bool.and_eq_true, decide_eq_true_eq] at hcond
  exact hled.unique peer (List.mem_of_find?_eq_some hfind) (hcond.2.trans (h.pinned hstore))

lemma readFrom_leader (leader : PbPeer) : rt.readFrom leader leader = .leader leader := by
  rw [ReadRouting.readFrom, h.fresh]
  simp [ReadPeer.leader]

lemma selectPeer (hled : region.LedBy (leaderOf region.id)) (isSlowNow : ℕ → Bool) (attempt : ℕ) :
    rt.selectPeer isSlowNow region attempt = .ok (.leader (leaderOf region.id)) := by
  rw [rt.selectPeer_eq isSlowNow region _ attempt hled.leader_eq]
  split_ifs with hforced
  · rfl
  · cases hpinned : rt.pinnedPeer region attempt with
    | some peer =>
      rw [h.eq_leader_of_pinnedPeer hled hpinned]
      exact congrArg Except.ok (h.readFrom_leader _)
    | none =>
      dsimp only
      rw [rt.pool_leaderOnly isSlowNow region _ attempt h.mode h.fresh]
      exact congrArg Except.ok (h.readFrom_leader _)

lemma update {id : ℕ} {store : Option ℕ}
    (hstore : ∀ storeId, store = some storeId → storeId = (leaderOf id).storeId) :
    { rt with pinnedStores := Function.update rt.pinnedStores id store }.PinsLeaders leaderOf where
  mode := h.mode
  fresh := h.fresh
  pinned {id' storeId} hpinned := by
    change Function.update rt.pinnedStores id store id' = some storeId at hpinned
    rcases eq_or_ne id' id with rfl | hne
    · rw [Function.update_self] at hpinned
      exact hstore storeId hpinned
    · rw [Function.update_of_ne hne] at hpinned
      exact h.pinned hpinned

lemma pin {id storeId : ℕ} (hstore : storeId = (leaderOf id).storeId) :
    (rt.pinStoreForRegion id storeId).PinsLeaders leaderOf :=
  h.update fun _ heq => Option.some.inj heq ▸ hstore

lemma clear (id : ℕ) : (rt.clearPinnedStoreForRegion id).PinsLeaders leaderOf :=
  h.update nofun

lemma serve {a : Attempt} (hled : a.region.LedBy (leaderOf a.region.id)) :
    (rt.serve a).PinsLeaders leaderOf := by
  rw [ReadRouting.serve, h.selectPeer hled]
  dsimp only
  cases a.answer with
  | failed => exact h
  | response => exact h.clear _
  | regionError e =>
    rw [Answer.ops]
    split_ifs with hnotReady hkeep hstale
    · exact h
    · exact (h.pin rfl).clear _
    · exact h.pin rfl
    · exact (h.clear _).clear _
    · exact h.clear _

lemma serveAll {attempts : List Attempt}
    (hled : ∀ a ∈ attempts, a.region.LedBy (leaderOf a.region.id)) :
    (rt.serveAll attempts).PinsLeaders leaderOf := by
  induction attempts generalizing rt with
  | nil => exact h
  | cons a attempts ih =>
    rw [List.forall_mem_cons] at hled
    exact ih (h.serve hled.1) hled.2

end ReadRouting.PinsLeaders

/-- **As long as the regions keep their leaders, these are selected** by a routing for leaders, on
every attempt at every region, whatever is answered on the way. -/
theorem leader_selected_while_leaders_stay (leaderOf : ℕ → PbPeer) {config : ReadRouting}
    (hmode : config.replicaRead = .leader) (hfresh : config.staleRead = false)
    (hpinned : ∀ regionId, config.pinnedStores regionId = none)
    {attempts : List Attempt} (hled : ∀ a ∈ attempts, a.region.LedBy (leaderOf a.region.id))
    (hregion : region.LedBy (leaderOf region.id))
    (isSlowNow : ℕ → Bool) (attempt : ℕ) :
    (config.serveAll attempts).selectPeer isSlowNow region attempt =
      .ok (.leader (leaderOf region.id)) := by
  have hconfig : config.PinsLeaders leaderOf := ⟨hmode, hfresh, fun {regionId _} h => by
    rw [hpinned regionId] at h
    cases h⟩
  exact (hconfig.serveAll hled).selectPeer hregion isSlowNow attempt

theorem pinned_leader_selected :
    (({} : ReadRouting).serveAll
      [⟨fun _ => false, regionLedBy 1, 0, .regionError .maxTimestampNotSynced⟩]).selectPeer
        (fun _ => false) (regionLedBy 1) 1 = .ok (.leader ⟨11, 1, 0, false⟩) := by
  have hled : (regionLedBy 1).LedBy ⟨11, 1, 0, false⟩ := ⟨rfl, by decide⟩
  exact leader_selected_while_leaders_stay (fun _ => ⟨11, 1, 0, false⟩) rfl rfl (fun _ => rfl)
    (List.forall_mem_singleton.mpr hled) hled _ 1

end LeadersStay

end PeerSelection

end TikvClient
