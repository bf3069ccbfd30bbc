import Mathlib.Order.MinMax
import TikvClient.Transaction.LatchExclusion

/-!
# Latches: which locks are stale

A lock is marked stale when it finds that the newest commit of a key is newer than its start, either
when it tries to acquire the key or when the background task gives the key to it.  Nodes are
recycled, so a newer commit may be forgotten before the lock looks.

**The main result** (`staleness_exact`) is about the history of a run: a lock that is stale was
overtaken, that is one of its keys was released with a newer commit before the lock had it.  The
converse needs that the timestamps `recycle` was called with are not far ahead of the lock's start,
which is what keeps the commits that matter.
-/

namespace TikvClient

variable {n size : ℕ}

/-- **The lock was overtaken**: one of its keys was released with a newer commit, before the lock
was granted the key and before its `lock()` returned. -/
def Overtaken (c : LatchConfig n size) (i : Fin n) (history : List (LatchEvent n)) : Prop :=
  ∃ before l k ts after, history = before ++ .released l k ts :: after ∧ k ∈ c.lockKeys i ∧
    c.startTs i < ts ∧ .granted i k ∉ before ∧ .returned i ∉ before

/-- Whenever `recycle` was called before the lock had all its keys, it was with a timestamp less
than two minutes ahead of the lock's start. -/
def RecycledInTime (c : LatchConfig n size) (i : Fin n) (history : List (LatchEvent n)) : Prop :=
  ∀ before ts after, history = before ++ .recycled ts :: after →
    (∃ k ∈ c.lockKeys i, .granted i k ∉ before) → .returned i ∉ before →
    extractPhysicalMs ts < extractPhysicalMs (c.startTs i) + expireDuration

variable {c : LatchConfig n size} {i : Fin n} {history : List (LatchEvent n)}

lemma Overtaken.append (h : Overtaken c i history) (events : List (LatchEvent n)) :
    Overtaken c i (history ++ events) := by
  obtain ⟨before, l, k, ts, after, rfl, hrest⟩ := h
  exact ⟨before, l, k, ts, after ++ events, by simp, hrest⟩

lemma RecycledInTime.of_append {event : LatchEvent n}
    (h : RecycledInTime c i (history ++ [event])) : RecycledInTime c i history := by
  rintro before ts after rfl
  exact h before ts (after ++ [event]) (by simp)

namespace LatchView

variable {c : LatchConfig n size} {v v' : LatchView n size} {a : LatchAction n} {i l : Fin n}
  {key : Key} {event : LatchEvent n}

/-! ## What the history says about the state -/

structure Recorded (c : LatchConfig n size) (v : LatchView n size) : Prop where
  granted : ∀ i k, k ∈ (c.keys i).take (v.acquired i) → .granted i k ∈ v.history
  held : ∀ i k, v.phase i ≠ .dropped → .granted i k ∈ v.history →
    k ∈ (c.keys i).take (v.acquired i)
  returned : ∀ i, .returned i ∈ v.history ↔ v.phase i = .holding ∨ v.phase i = .dropped
  committed : ∀ k, v.maxCommitTs k ≠ 0 → ∃ l, .released l k (v.maxCommitTs k) ∈ v.history

lemma Recorded.congr (h : Recorded c v) (hhistory : v'.history = v.history)
    (hacquired : v'.acquired = v.acquired) (hmax : v'.maxCommitTs = v.maxCommitTs)
    (hdropped : ∀ i, v'.phase i ≠ .dropped → v.phase i ≠ .dropped)
    (hreturned : ∀ i, v'.phase i = .holding ∨ v'.phase i = .dropped ↔
      v.phase i = .holding ∨ v.phase i = .dropped) : Recorded c v' := by
  constructor
  · rw [hhistory, hacquired]
    exact h.granted
  · intro i k hi
    rw [hhistory, hacquired]
    exact h.held i k (hdropped i hi)
  · intro i
    rw [hhistory, hreturned]
    exact h.returned i
  · rw [hhistory, hmax]
    exact h.committed

lemma Recorded.setPhase {p : LatchPhase} (h : Recorded c v) (hphase : v.phase i ≠ .dropped)
    (hp : (p = .holding ∨ p = .dropped) ↔ v.phase i = .holding) : Recorded c (v.setPhase i p) := by
  refine h.congr rfl rfl rfl (fun j hj => ?_) fun j => ?_
  · by_cases hji : j = i
    · exact hji ▸ hphase
    · simpa [LatchView.setPhase, hji] using hj
  · by_cases hji : j = i
    · subst hji
      simp [LatchView.setPhase, hp, hphase]
    · simp [LatchView.setPhase, hji]

/-- `lock()` returns. -/
lemma Recorded.returns (h : Recorded c v) (hphase : v.phase i ≠ .dropped) :
    Recorded c ((v.setPhase i .holding).record (.returned i)) := by
  constructor
  · intro j k hk
    exact List.mem_append_left _ (h.granted j k hk)
  · intro j k hj hgranted
    have hgranted' : .granted j k ∈ v.history := by
      simpa [record, LatchView.setPhase] using hgranted
    refine h.held j k ?_ hgranted'
    by_cases hji : j = i
    · exact hji ▸ hphase
    · simpa [LatchView.setPhase, record, hji] using hj
  · intro j
    have hbefore := h.returned j
    by_cases hji : j = i
    · simp [LatchView.setPhase, record, hji]
    · simpa [LatchView.setPhase, record, hji] using hbefore
  · intro k hk
    obtain ⟨l, hl⟩ := h.committed k hk
    exact ⟨l, List.mem_append_left _ hl⟩

lemma Recorded.grant (h : Recorded c v) (hnext : v.nextKey c i = some key) :
    Recorded c (v.grant i key) := by
  have htake : ∀ j k, k ∈ (c.keys j).take ((v.grant i key).acquired j) ↔
      k ∈ (c.keys j).take (v.acquired j) ∨ j = i ∧ k = key := by
    intro j k
    by_cases hji : j = i
    · subst hji
      have hacquired : (v.grant j key).acquired j = v.acquired j + 1 := Function.update_self _ _ _
      rw [hacquired, List.take_add_one, show (c.keys j)[v.acquired j]? = some key from hnext]
      simp
    · simp [LatchView.grant, hji]
  constructor
  · intro j k hk
    obtain hk | ⟨rfl, rfl⟩ := (htake j k).mp hk
    · exact List.mem_append_left _ (h.granted j k hk)
    · exact List.mem_append_right _ (List.mem_singleton_self _)
  · intro j k hj hgranted
    refine (htake j k).mpr ?_
    obtain hbefore | hnew := List.mem_append.mp hgranted
    · exact .inl (h.held j k hj hbefore)
    · cases List.mem_singleton.mp hnew
      exact .inr ⟨rfl, rfl⟩
  · intro j
    simpa [LatchView.grant] using h.returned j
  · intro k hk
    obtain ⟨l, hl⟩ := h.committed k hk
    exact ⟨l, List.mem_append_left _ hl⟩

variable {idx : ℕ}

lemma Recorded.release (h : Recorded c v) (hphase : v.phase l = .dropped)
    (hcount : v.acquired l = idx + 1) : Recorded c (v.release l idx key) := by
  have hle : ∀ j, (v.release l idx key).acquired j ≤ v.acquired j := by
    intro j
    by_cases hjl : j = l
    · simp [LatchView.release, hjl, hcount]
    · simp [LatchView.release, hjl]
  constructor
  · intro j k hk
    exact List.mem_append_left _ (h.granted j k (List.take_subset_take_left _ (hle j) hk))
  · intro j k hj hgranted
    have hgranted' : .granted j k ∈ v.history := by simpa [LatchView.release] using hgranted
    have hjl : j ≠ l := fun heq => hj (heq ▸ hphase)
    simpa [LatchView.release, hjl] using h.held j k hj hgranted'
  · intro j
    simpa [LatchView.release] using h.returned j
  · intro k hk
    by_cases hkey : k = key
    · subst hkey
      have hmax : (v.release l idx k).maxCommitTs k = max (v.maxCommitTs k) (v.commitTs l) :=
        Function.update_self _ _ _
      rw [hmax] at hk ⊢
      obtain heq | heq := max_choice (v.maxCommitTs k) (v.commitTs l)
      · rw [heq] at hk ⊢
        obtain ⟨l', hl'⟩ := h.committed k hk
        exact ⟨l', List.mem_append_left _ hl'⟩
      · rw [heq]
        exact ⟨l, List.mem_append_right _ (List.mem_singleton_self _)⟩
    · have hmax : (v.release l idx key).maxCommitTs k = v.maxCommitTs k :=
        Function.update_of_ne hkey _ _
      rw [hmax] at hk ⊢
      obtain ⟨l', hl'⟩ := h.committed k hk
      exact ⟨l', List.mem_append_left _ hl'⟩

lemma Recorded.recycles (h : Recorded c v) (hv : Recycles v v') : Recorded c v' := by
  obtain rfl | ⟨ts, m, hm, rfl⟩ := hv
  · exact h
  · constructor
    · intro j k hk
      exact List.mem_append_left _ (h.granted j k hk)
    · intro j k hj hgranted
      exact h.held j k hj (by simpa using hgranted)
    · intro j
      simpa using h.returned j
    · intro k hk
      obtain heq | ⟨heq, -⟩ := hm k
      · obtain ⟨l, hl⟩ := h.committed k (heq ▸ hk)
        refine ⟨l, List.mem_append_left _ ?_⟩
        show LatchEvent.released l k (m k) ∈ v.history
        rw [heq]
        exact hl
      · exact absurd heq hk

variable {r : AcquireResult} {next : Option (Fin n)} {j : Fin n}

lemma Recorded.attempt (h : Recorded c v) (hwanted : v.wantedKey c i = some key)
    (hattempt : Attempt c i key v v' r) : Recorded c v' := by
  cases hattempt with
  | stale | locked => exact h.congr rfl rfl rfl (fun _ => id) fun _ => Iff.rfl
  | success => exact h.grant (nextKey_of_wantedKey hwanted).2

lemma Recorded.takes (h : Recorded c v) (htakes : Takes c key v v' next) :
    Recorded c v' := by
  cases htakes with
  | nobody => exact h
  | waiter => exact h.congr rfl rfl rfl (fun _ => id) fun _ => Iff.rfl
  | stale _ hnext => exact (h.grant hnext).congr rfl rfl rfl (fun _ => id) fun _ => Iff.rfl

lemma Recorded.move (h : Recorded c v) (hs : Sent c v) (hmove : Move c v a v') : Recorded c v' := by
  cases hmove with
  | call hphase | cancel hphase => exact h.setPhase (by simp [hphase]) (by simp [hphase])
  | acquired hphase | resume hphase => exact h.returns (by simp [hphase])
  | acquire _ hwanted hattempt | wakeup _ hwanted hattempt => exact h.attempt hwanted hattempt
  | sleep hphase hwanted hattempt =>
    have hattempted := h.attempt hwanted hattempt
    exact hattempted.setPhase (by simp [hattempt.phase_eq, hphase])
      (by simp [hattempt.phase_eq, hphase])
  | @drop i hphase =>
    have hset : Recorded c (v.setPhase i .dropped) :=
      h.setPhase (by simp [hphase]) (by simp [hphase])
    exact hset.congr rfl rfl rfl (fun _ => id) fun _ => Iff.rfl
  | @release l ws idx key v₁ next htask hcount _ htakes =>
    have hl : v.phase l = .dropped := (hs.current l (by rw [htask]; rfl)).1
    have htaken := (h.release hl hcount).takes htakes
    exact htaken.congr rfl rfl rfl (fun _ => id) fun _ => Iff.rfl
  | requeue _ hwanted hattempt =>
    exact (h.attempt hwanted hattempt).congr rfl rfl rfl (fun _ => id) fun _ => Iff.rfl
  | _ => exact h.congr rfl rfl rfl (fun _ => id) fun _ => Iff.rfl

/-! ## A stale lock was overtaken -/

/-- A lock that finds a newer commit at the key it wants was overtaken. -/
lemma Recorded.overtaken (h : Recorded c v) (hphase : v.phase i ≠ .holding ∧ v.phase i ≠ .dropped)
    (hnext : v.nextKey c i = some key) (hmax : c.startTs i < v.maxCommitTs key) :
    Overtaken c i v.history := by
  obtain ⟨l, hl⟩ := h.committed key (Nat.ne_zero_of_lt hmax)
  obtain ⟨before, after, hsplit⟩ := List.append_of_mem hl
  refine ⟨before, l, key, _, after, hsplit, ?_, hmax, fun hin => ?_, fun hin => ?_⟩
  · exact (c.mem_keys i).mp (List.mem_of_getElem? hnext)
  · have hgranted : .granted i key ∈ v.history := hsplit ▸ List.mem_append_left _ hin
    exact nextKey_notMem hnext (h.held i key hphase.2 hgranted)
  · have hreturned : .returned i ∈ v.history := hsplit ▸ List.mem_append_left _ hin
    exact ((h.returned i).mp hreturned).elim hphase.1 hphase.2

/-- The locks that are stale were overtaken. -/
def Marked (c : LatchConfig n size) (v : LatchView n size) : Prop :=
  ∀ i, v.stale i = true → Overtaken c i v.history

lemma Marked.congr (h : Marked c v) (hstale : v'.stale = v.stale)
    (hhistory : ∃ events, v'.history = v.history ++ events) : Marked c v' := by
  obtain ⟨events, hhistory⟩ := hhistory
  intro i hi
  rw [hhistory]
  exact (h i (hstale ▸ hi)).append events

lemma Marked.markStale (h : Marked c v) (hover : Overtaken c i v.history) :
    Marked c (v.markStale i) := by
  intro j hj
  by_cases hji : j = i
  · exact hji ▸ hover
  · exact h j (by simpa [LatchView.markStale, hji] using hj)

lemma Marked.recycles (h : Marked c v) (hv : Recycles v v') : Marked c v' := by
  obtain rfl | ⟨ts, m, -, rfl⟩ := hv
  · exact h
  · exact h.congr rfl ⟨_, rfl⟩

lemma Marked.attempt (h : Marked c v) (hrecorded : Recorded c v)
    (hphase : v.phase i ≠ .holding ∧ v.phase i ≠ .dropped) (hwanted : v.wantedKey c i = some key)
    (hattempt : Attempt c i key v v' r) : Marked c v' := by
  cases hattempt with
  | stale hmax =>
    exact h.markStale (hrecorded.overtaken hphase (nextKey_of_wantedKey hwanted).2 hmax)
  | success => exact h.congr rfl ⟨_, rfl⟩
  | locked => exact h.congr rfl ⟨[], (List.append_nil _).symm⟩

lemma Marked.takes (h : Marked c v) (hrecorded : Recorded c v)
    (hs : Asleep c v) (htakes : Takes c key v v' next) : Marked c v' := by
  cases htakes with
  | nobody => exact h
  | waiter => exact h.congr rfl ⟨[], (List.append_nil _).symm⟩
  | @stale w hmem hnext hmax =>
    have hawait := (hs.queued _ w hmem).1
    have hphase : v.phase w ≠ .holding ∧ v.phase w ≠ .dropped := by
      constructor <;> intro hphase <;> simp [hphase, LatchPhase.awaiting] at hawait
    have hover := (hrecorded.overtaken hphase hnext hmax).append [.granted w key]
    refine Marked.markStale ?_ hover
    exact h.congr rfl ⟨_, rfl⟩

lemma Marked.move (h : Marked c v) (hrecorded : Recorded c v) (hcons : Consistent c v)
    (hmove : Move c v a v') : Marked c v' := by
  have hsame : v.history = v.history ++ [] := (List.append_nil _).symm
  cases hmove with
  | acquired | resume => exact h.congr rfl ⟨_, rfl⟩
  | acquire hphase hwanted hattempt => exact h.attempt hrecorded (by simp [hphase]) hwanted hattempt
  | sleep hphase hwanted hattempt =>
    have hattempted := h.attempt hrecorded (by simp [hphase]) hwanted hattempt
    exact hattempted.congr rfl ⟨[], (List.append_nil _).symm⟩
  | @release l ws idx key v₁ next htask hcount _ htakes =>
    have hl : v.phase l = .dropped := (hcons.sent.current l (by rw [htask]; rfl)).1
    have hreleased : Marked c (v.release l idx key) := h.congr rfl ⟨_, rfl⟩
    have htaken := hreleased.takes (hrecorded.release hl hcount)
      (hcons.asleep.release hl idx key) htakes
    exact htaken.congr rfl ⟨[], (List.append_nil _).symm⟩
  | wakeup htask hwanted hattempt =>
    exact h.attempt hrecorded (hcons.asleep.head_phase htask).2 hwanted hattempt
  | requeue htask hwanted hattempt =>
    have hattempted := h.attempt hrecorded (hcons.asleep.head_phase htask).2 hwanted hattempt
    exact hattempted.congr rfl ⟨[], (List.append_nil _).symm⟩
  | _ => exact h.congr rfl ⟨[], hsame⟩

/-! ## An overtaken lock finds out -/

lemma append_singleton_eq_append_cons {α : Type} {l before after : List α} {x y : α}
    (h : l ++ [y] = before ++ x :: after) :
    before = l ∧ x = y ∨ ∃ after', l = before ++ x :: after' := by
  obtain rfl | ⟨after', z, rfl⟩ := List.eq_nil_or_concat after
  · obtain ⟨rfl, heq⟩ := List.append_inj' h rfl
    exact .inl ⟨rfl, (List.singleton_inj.mp heq).symm⟩
  · right
    rw [List.concat_eq_append, ← List.cons_append, ← List.append_assoc] at h
    exact ⟨after', (List.append_inj' h rfl).1⟩

/-- The lock will find out that it was overtaken at a key: it is not granted the key, and its newest
commit is known. -/
def Detects (c : LatchConfig n size) (v : LatchView n size) (i : Fin n) (k : Key) : Prop :=
  .granted i k ∉ v.history ∧ .returned i ∉ v.history ∧ c.startTs i < v.maxCommitTs k

/-- A lock that was overtaken is stale, or will find out. -/
def Detected (c : LatchConfig n size) (i : Fin n) (v : LatchView n size) : Prop :=
  RecycledInTime c i v.history → ∀ before l k ts after,
    v.history = before ++ .released l k ts :: after → k ∈ c.lockKeys i → c.startTs i < ts →
    .granted i k ∉ before → .returned i ∉ before → v.stale i = true ∨ Detects c v i k

lemma Detected.congr (h : Detected c i v) (hhistory : v'.history = v.history)
    (hmax : v'.maxCommitTs = v.maxCommitTs) (hstale : v.stale i = true → v'.stale i = true) :
    Detected c i v' := by
  intro hin before l k ts after hsplit hk hts hgranted hreturned
  rw [hhistory] at hin hsplit
  refine (h hin before l k ts after hsplit hk hts hgranted hreturned).imp hstale fun hdetects => ?_
  unfold Detects
  rw [hhistory, hmax]
  exact hdetects

/-- An event is recorded: it is enough to look at the event and at what the lock will find. -/
lemma Detected.record (h : Detected c i v) (hhistory : v'.history = v.history ++ [event])
    (hstale : v.stale i = true → v'.stale i = true)
    (hkeep : RecycledInTime c i v'.history → ∀ k ∈ c.lockKeys i, Detects c v i k →
      v'.stale i = true ∨ Detects c v' i k)
    (hnew : ∀ l k ts, event = .released l k ts → k ∈ c.lockKeys i → c.startTs i < ts →
      .granted i k ∉ v.history → .returned i ∉ v.history → Detects c v' i k) :
    Detected c i v' := by
  intro hin before l k ts after hsplit hk hts hgranted hreturned
  rw [hhistory] at hsplit
  obtain ⟨rfl, heq⟩ | ⟨after', hbefore⟩ := append_singleton_eq_append_cons hsplit
  · exact .inr (hnew l k ts heq.symm hk hts hgranted hreturned)
  · have hin' : RecycledInTime c i v.history := by
      rw [hhistory] at hin
      exact hin.of_append
    obtain hdone | hdetects := h hin' before l k ts after' hbefore hk hts hgranted hreturned
    · exact .inl (hstale hdone)
    · exact hkeep hin k hk hdetects

/-- Physical time does not run backwards. -/
lemma extractPhysicalMs_le {ts ts' : ℕ} (h : ts ≤ ts') :
    extractPhysicalMs ts ≤ extractPhysicalMs ts' := by
  simp only [extractPhysicalMs, Nat.shiftRight_eq_div_pow]
  exact Nat.div_le_div_right h

lemma Detected.recycles (h : Detected c i v) (hv : Recycles v v') : Detected c i v' := by
  obtain rfl | ⟨ts, m, hm, rfl⟩ := hv
  · exact h
  · refine h.record rfl id (fun hin k hk hdetects => .inr ?_) fun l k ts' heq => by cases heq
    obtain ⟨hgranted, hreturned, hmax⟩ := hdetects
    refine ⟨by simpa using hgranted, by simpa using hreturned, ?_⟩
    show c.startTs i < m k
    obtain heq | ⟨-, -, hexpired⟩ := hm k
    · rw [heq]
      exact hmax
    · have hrecent := hin v.history ts [] rfl ⟨k, hk, hgranted⟩ hreturned
      have hle := extractPhysicalMs_le hmax.le
      have hpos : 0 < expireDuration := by decide
      unfold tsoSub at hexpired
      omega

lemma Detected.returns (h : Detected c i v) (hrecorded : Recorded c v)
    (hwanted : v.wantedKey c j = none) :
    Detected c i ((v.setPhase j .holding).record (.returned j)) := by
  refine h.record rfl id (fun _ k hk hdetects => ?_) fun l k ts heq => by cases heq
  obtain ⟨hgranted, hreturned, hmax⟩ := hdetects
  by_cases hji : j = i
  · subst hji
    left
    by_contra hstale
    replace hstale : ¬ v.stale j = true := hstale
    have hlen : (c.keys j).length ≤ v.acquired j := by
      rw [wantedKey, if_neg hstale] at hwanted
      exact List.getElem?_eq_none_iff.mp hwanted
    refine hgranted (hrecorded.granted j k ?_)
    rw [List.take_of_length_le hlen]
    exact (c.mem_keys j).mpr hk
  · refine .inr ⟨?_, ?_, hmax⟩
    · simpa [LatchView.record, LatchView.setPhase] using hgranted
    · simpa [LatchView.record, LatchView.setPhase, Ne.symm hji] using hreturned

/-- A lock that is granted a key does not overlook a newer commit there. -/
lemma Detected.grant (h : Detected c i v) (hv' : v'.history = v.history ++ [.granted j key])
    (hmax' : v'.maxCommitTs = v.maxCommitTs) (hstale : v.stale i = true → v'.stale i = true)
    (hj : v.maxCommitTs key ≤ c.startTs j ∨ v'.stale j = true) : Detected c i v' := by
  refine h.record hv' hstale (fun _ k hk hdetects => ?_) fun l k ts heq => by cases heq
  obtain ⟨hgranted, hreturned, hmax⟩ := hdetects
  by_cases hjk : j = i ∧ key = k
  · obtain ⟨rfl, rfl⟩ := hjk
    exact hj.elim (fun hle => absurd hmax (not_lt.mpr hle)) .inl
  · refine .inr ⟨?_, ?_, hmax' ▸ hmax⟩
    · rw [hv']
      simp only [List.mem_append, List.mem_singleton, LatchEvent.granted.injEq, not_or]
      exact ⟨hgranted, fun heq => hjk ⟨heq.1.symm, heq.2.symm⟩⟩
    · rw [hv']
      simpa using hreturned

lemma Detected.release (h : Detected c i v) : Detected c i (v.release l idx key) := by
  have hmax : ∀ k, v.maxCommitTs k ≤ (v.release l idx key).maxCommitTs k := by
    intro k
    by_cases hk : k = key
    · simp [LatchView.release, hk]
    · simp [LatchView.release, hk]
  refine h.record rfl id (fun _ k _ hdetects => .inr ?_)
    fun l' k ts heq hk hts hgranted hreturned => ?_
  · obtain ⟨hgranted, hreturned, hlt⟩ := hdetects
    exact ⟨by simpa [LatchView.release] using hgranted,
      by simpa [LatchView.release] using hreturned, hlt.trans_le (hmax k)⟩
  · cases heq
    refine ⟨by simpa [LatchView.release] using hgranted,
      by simpa [LatchView.release] using hreturned, hts.trans_le ?_⟩
    simp [LatchView.release]

lemma Detected.attempt (h : Detected c i v)
    (hattempt : Attempt c j key v v' r) : Detected c i v' := by
  cases hattempt with
  | stale =>
    refine h.congr rfl rfl fun hstale => ?_
    by_cases hij : i = j <;> simp [markStale, hij, hstale]
  | success hmax => exact h.grant rfl rfl id (.inl hmax)
  | locked => exact h.congr rfl rfl id

lemma Detected.takes (h : Detected c i v) (htakes : Takes c key v v' next) : Detected c i v' := by
  cases htakes with
  | nobody => exact h
  | waiter => exact h.congr rfl rfl id
  | @stale w =>
    refine h.grant rfl rfl (fun hstale => ?_) (.inr (Function.update_self _ _ _))
    by_cases hiw : i = w
    · simp [markStale, hiw]
    · simpa [markStale, LatchView.grant, setWaiting, hiw] using hstale

lemma Detected.move (h : Detected c i v) (hrecorded : Recorded c v) (hcons : Consistent c v)
    (hmove : Move c v a v') : Detected c i v' := by
  cases hmove with
  | acquired _ hwanted => exact h.returns hrecorded hwanted
  | acquire _ _ hattempt | wakeup _ _ hattempt => exact h.attempt hattempt
  | sleep _ _ hattempt | requeue _ _ hattempt => exact (h.attempt hattempt).congr rfl rfl id
  | resume hphase hwoken =>
    exact h.returns hrecorded (hcons.asleep.ready _ (by rw [hphase]; rfl) hwoken)
  | release _ _ _ htakes => exact (h.release.takes htakes).congr rfl rfl id
  | _ => exact h.congr rfl rfl id

end LatchView

/-! ## Reachable states -/

namespace LatchState

open LatchView

variable {c : LatchConfig n size} {s s' : LatchState n size}

lemma recorded_init (c : LatchConfig n size) : Recorded c ((init n size).view c) := by
  constructor <;> simp [init, view, SlotInner.entry]

lemma traced_of_reach {allowed : LatchState n size → LatchAction n → Prop}
    (h : Machine.Reach (step c) allowed (init n size) s) : Recorded c (s.view c) ∧
      Marked c (s.view c) ∧ ∀ i, Detected c i (s.view c) := by
  have hall : Consistent c (s.view c) ∧ Recorded c (s.view c) ∧ Marked c (s.view c) ∧
      ∀ i, Detected c i (s.view c) := by
    refine h.invariant (I := fun s => Consistent c (s.view c) ∧ Recorded c (s.view c) ∧
      Marked c (s.view c) ∧ ∀ i, Detected c i (s.view c))
      ⟨consistent_init c, recorded_init c, ?_, ?_⟩ ?_
    · intro i hi
      simp [init, view] at hi
    · intro i _ before l k ts after hsplit
      simp [init, view] at hsplit
    · rintro s a s' ⟨hcons, hrecorded, hmarked, hdetected⟩ - hstep
      obtain ⟨v, hv, hmove⟩ := step_view hcons.owned hstep
      have hcons' := hcons.recycles hv
      have hrecorded' := hrecorded.recycles hv
      refine ⟨hcons'.move hmove, hrecorded'.move hcons'.sent hmove,
        (hmarked.recycles hv).move hrecorded' hcons' hmove, fun i => ?_⟩
      exact ((hdetected i).recycles hv).move hrecorded' hcons' hmove
  exact hall.2

/-- **Staleness is exact.**  When `lock()` returned, a lock that is stale was overtaken.  The
converse holds if `recycle` was not called with a timestamp two minutes ahead of the lock's start
before the lock had its keys. -/
theorem staleness_exact (c : LatchConfig n size) (s : LatchState n size)
    (h : Machine.Reach (step c) (fun _ _ => True) (init n size) s) (i : Fin n)
    (hreturned : .returned i ∈ s.history) :
    ((s.locks i).stale = true → Overtaken c i s.history) ∧
      (RecycledInTime c i s.history → Overtaken c i s.history → (s.locks i).stale = true) := by
  obtain ⟨-, hmarked, hdetected⟩ := traced_of_reach h
  refine ⟨hmarked i, fun hin hover => ?_⟩
  obtain ⟨before, l, k, ts, after, hsplit, hk, hts, hgranted, hbefore⟩ := hover
  obtain hstale | ⟨-, hnot, -⟩ :=
    hdetected i hin before l k ts after hsplit hk hts hgranted hbefore
  · exact hstale
  · exact absurd hreturned hnot

/-- The first caller commits at 30, while the second one, which started at 20, waits for its key. -/
theorem staleness_exact_contended :
    ∃ s, Machine.run (step contended) [.call 0, .acquire 0, .acquire 0, .acquire 0, .call 1,
        .acquire 1, .setCommitTs 0 30, .drop 0, .recv, .release, .release, .release, .wakeup,
        .finish, .resume 1] (init 2 1) = some s ∧
      .returned 1 ∈ s.history ∧ RecycledInTime contended 1 s.history ∧
      (s.locks 1).stale = true ∧
      ((s.locks 1).stale = true ↔ Overtaken contended 1 s.history) := by
  obtain ⟨s, hrun, hhistory, hstale⟩ : ∃ s, Machine.run (step contended) [.call 0, .acquire 0,
        .acquire 0, .acquire 0, .call 1, .acquire 1, .setCommitTs 0 30, .drop 0, .recv, .release,
        .release, .release, .wakeup, .finish, .resume 1] (init 2 1) = some s ∧
      s.history = [.granted 0 ⟨[1]⟩, .granted 0 ⟨[2]⟩, .returned 0, .released 0 ⟨[2]⟩ 30,
        .granted 1 ⟨[2]⟩, .released 0 ⟨[1]⟩ 30, .returned 1] ∧ (s.locks 1).stale = true :=
    ⟨_, rfl, rfl, rfl⟩
  have hreturned : .returned 1 ∈ s.history := by simp [hhistory]
  have hin : RecycledInTime contended 1 s.history := by
    intro before ts after hsplit
    have hmem : .recycled ts ∈ s.history := by simp [hsplit]
    simp [hhistory] at hmem
  obtain ⟨hover, hmarked⟩ :=
    staleness_exact contended s (Machine.reach_of_run hrun) 1 hreturned
  exact ⟨s, hrun, hreturned, hin, hstale, hover, hmarked hin⟩

end LatchState

end TikvClient
