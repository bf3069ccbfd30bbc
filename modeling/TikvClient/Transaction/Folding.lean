import TikvClient.Transaction.BufferEntries

/-!
# Folding the operations on a key into one mutation

A transaction sends one mutation for a key, whatever was done to it.  This file compares that
mutation with executing the operations one after another on the committed value.

**Sequential execution** is `KeyOp.execute`: an insertion fails when the key exists.  A failure is
final, and so is written as `none`.

**The simulation** is `Simulates`, one clause for each kind of entry.  An insertion that is not
known to fail yet is the entry `insert`, whose mutation is checked against the committed value when
it is prewritten; once it is deleted again only the check is left.
-/

namespace TikvClient

open Proto

/-! ## Two ways to execute -/

/-- What became of the value of a key: `none` is a failure. -/
abbrev Outcome := Option (Option Value)

/-- Execute one operation on the value of a key. -/
def KeyOp.execute : Outcome → KeyOp → Outcome
  | none, _ => none
  | some _, .put v => some (some v)
  | some none, .insert v => some (some v)
  | some (some _), .insert _ => none
  | some _, .delete => some none
  | some c, .lock => some c
  | some c, .other => some c

/-- Execute operations on a key, one after another. -/
def executeAll (k : Key) (c : Option Value) (ops : List BufferOp) : Outcome :=
  ops.foldl (fun outcome op => (op.atKey k).execute outcome) (some c)

/-- Apply a mutation to the committed value of its key. -/
def Proto.Mutation.applyTo (m : Proto.Mutation) (c : Option Value) : Outcome :=
  match m.op with
  | .put => some (some m.value)
  | .del => some none
  | .lock => some c
  | .insert => if c.isSome then none else some (some m.value)
  | .checkNotExists => if c.isSome then none else some c
  | .pessimisticLock => some c

namespace Buffer

/-- Apply what a buffer sends for a key to the committed value. -/
def commitOutcome (b : Buffer) (level : AssertionLevel) (k : Key) (c : Option Value) : Outcome :=
  ((b.toProtoMutations level).filter fun m => m.key = k).foldl
    (fun outcome m => outcome.bind m.applyTo) (some c)

/-- The operation is refused: an insertion at a key whose value the buffer knows. -/
def refuses (b : Buffer) : BufferOp → Bool
  | .insert key _ => (b.get key).isSome
  | _ => false

/-- The operations that are not refused, on the way from `b`. -/
def accepted (b : Buffer) : List BufferOp → List BufferOp
  | [] => []
  | op :: ops => if b.refuses op then b.accepted ops else op :: (b.step op).accepted ops

/-! ## The mutation of a key -/

variable {b : Buffer} {level : AssertionLevel} {m : Proto.Mutation}

lemma mem_toProtoMutations :
    m ∈ b.toProtoMutations level ↔ b.mutationForKey m.key level = some m := by
  constructor
  · intro hm
    obtain ⟨⟨key, entry⟩, he, hlower⟩ := List.mem_filterMap.mp hm
    rw [mutationForKey, lowerEntry_key hlower,
      Std.ExtTreeMap.mem_toList_iff_getElem?_eq_some.mp he]
    exact hlower
  · intro hm
    obtain ⟨entry, he, hlower⟩ := Option.bind_eq_some_iff.mp hm
    exact List.mem_filterMap.mpr
      ⟨(m.key, entry), Std.ExtTreeMap.mem_toList_iff_getElem?_eq_some.mpr he, hlower⟩

lemma mutationForKey_key {k : Key} (h : b.mutationForKey k level = some m) : m.key = k := by
  obtain ⟨entry, -, hlower⟩ := Option.bind_eq_some_iff.mp h
  exact lowerEntry_key hlower

/-- **A buffer sends at most one mutation for a key.** -/
lemma filter_toProtoMutations (b : Buffer) (level : AssertionLevel) (k : Key) :
    (b.toProtoMutations level).filter (fun m => m.key = k) = (b.mutationForKey k level).toList := by
  have hmem : ∀ m, m ∈ (b.toProtoMutations level).filter (fun m => m.key = k) ↔
      b.mutationForKey k level = some m := by
    intro m
    rw [List.mem_filter, mem_toProtoMutations, decide_eq_true_eq]
    constructor
    · rintro ⟨hm, rfl⟩
      exact hm
    · intro hm
      have hkey := mutationForKey_key hm
      exact ⟨by rwa [hkey], hkey⟩
  have hsorted := (b.pairwise_toProtoMutations level).filter fun m => m.key = k
  generalize (b.toProtoMutations level).filter (fun m => m.key = k) = l at hmem hsorted
  cases l with
  | nil =>
    cases hk : b.mutationForKey k level with
    | none => rfl
    | some m => exact absurd ((hmem m).mpr hk) List.not_mem_nil
  | cons m rest =>
    have hm := (hmem m).mp List.mem_cons_self
    cases rest with
    | nil => rw [hm, Option.toList_some]
    | cons m' rest =>
      -- Two mutations of one key would be one and the same, and not in order.
      have hm' := (hmem m').mp (by simp)
      have hlt := (List.pairwise_cons.mp hsorted).1 m' List.mem_cons_self
      rw [hm] at hm'
      cases hm'
      exact absurd hlt (lt_irrefl _)

lemma commitOutcome_eq (b : Buffer) (level : AssertionLevel) (k : Key) (c : Option Value) :
    b.commitOutcome level k c = (b.mutationForKey k level).elim (some c) fun m => m.applyTo c := by
  rw [commitOutcome, filter_toProtoMutations]
  cases b.mutationForKey k level <;> rfl

end Buffer

/-! ## The simulation -/

/-- **The entry of a key stands for an outcome**, given the committed value `c`. -/
def Simulates (c : Option Value) : Option BufferEntry → Outcome → Prop
  | none, outcome => outcome = some c
  | some (.cached v), outcome => v = c ∧ outcome = some c
  | some (.locked none), outcome => outcome = some c
  | some (.locked (some v)), outcome => v = c ∧ outcome = some c
  | some (.put v), outcome => outcome = some (some v)
  | some .del, outcome => outcome = some none
  | some (.insert v), outcome => outcome = if c.isSome then none else some (some v)
  | some .checkNotExist, outcome => outcome = if c.isSome then none else some none

namespace Simulates

variable {c : Option Value} {e : Option BufferEntry} {outcome : Outcome}

/-- The value of the key as far as the buffer knows it. -/
def knownValue (e : Option BufferEntry) : MutationValue :=
  e.elim .undetermined BufferEntry.getValue

/-- Every entry but an insertion and a check stands for an outcome that has not failed. -/
lemma entryAfter (h : Simulates c e outcome) {op : KeyOp}
    (hop : ∀ v, op = .insert v → ∀ w, knownValue e ≠ .determined (some w)) :
    Simulates c (entryAfter false e op) (op.execute outcome) := by
  -- An insertion is accepted only where the value is absent or unknown.
  have hinsert : ∀ v, op = .insert v → knownValue e = .determined none ∨
      knownValue e = .undetermined := by
    intro v hv
    cases hk : knownValue e with
    | undetermined => exact .inr rfl
    | determined w =>
      cases w with
      | none => exact .inl rfl
      | some w => exact absurd hk (hop v hv w)
  rcases e with - | e
  · obtain rfl : outcome = some c := h
    cases op <;> cases c <;> rfl
  · cases e with
    | cached v =>
      obtain ⟨rfl, rfl⟩ : v = c ∧ outcome = some c := h
      cases op with
      | insert w =>
        rcases hinsert w rfl with hk | hk <;> cases hk
        rfl
      | lock | other => exact ⟨rfl, rfl⟩
      | _ => rfl
    | locked v =>
      cases v with
      | none =>
        obtain rfl : outcome = some c := h
        cases op <;> cases c <;> rfl
      | some v =>
        obtain ⟨rfl, rfl⟩ : v = c ∧ outcome = some c := h
        cases op with
        | insert w =>
          rcases hinsert w rfl with hk | hk <;> cases hk
          rfl
        | lock | other => exact ⟨rfl, rfl⟩
        | _ => rfl
    | put v =>
      obtain rfl : outcome = some (some v) := h
      cases op with
      | insert w => rcases hinsert w rfl with hk | hk <;> cases hk
      | _ => rfl
    | del =>
      obtain rfl : outcome = some none := h
      cases op <;> rfl
    | insert v =>
      obtain rfl : outcome = if c.isSome then none else some (some v) := h
      cases op with
      | insert w => rcases hinsert w rfl with hk | hk <;> cases hk
      | _ => cases c <;> rfl
    | checkNotExist =>
      obtain rfl : outcome = if c.isSome then none else some none := h
      cases op <;> cases c <;> rfl

lemma afterRead (h : Simulates c e outcome) : Simulates c (afterRead e c) outcome := by
  rcases e with - | e
  · exact ⟨rfl, h⟩
  · cases e with
    | locked v =>
      cases v with
      | none => exact ⟨rfl, h⟩
      | some v => exact h
    | _ => exact h

end Simulates

namespace Buffer

variable {b : Buffer} {S : Snapshot} {k : Key} {outcome : Outcome}

/-- The mutation of an entry does to the committed value what the entry stands for; its assertion
plays no part. -/
lemma commitOutcome_of_simulates (hb : (b.keyFlags k).hasPresumeKeyNotExists = false)
    (h : Simulates S[k]? b.entryMap[k]? outcome) (level : AssertionLevel) :
    b.commitOutcome level k S[k]? = outcome := by
  have hlower : ∀ entry c, (b.lowerEntry level k entry).elim (some c) (fun m => m.applyTo c) =
      (entry.toProtoWithKey k).elim (some c) fun m => m.applyTo c := by
    intro entry c
    simp only [lowerEntry, hb, Bool.and_false, Bool.false_eq_true, if_false]
    cases entry.toProtoWithKey k with
    | none => rfl
    | some m => by_cases hl : level = .off <;> simp [hl, Proto.Mutation.applyTo]
  rw [commitOutcome_eq, mutationForKey]
  rcases he : b.entryMap[k]? with - | entry
  · rw [he] at h
    exact h.symm
  · rw [he] at h
    rw [Option.bind_some, hlower]
    cases entry with
    | cached v => exact h.2.symm
    | locked v =>
      cases v with
      | none => exact h.symm
      | some v => exact h.2.symm
    | checkNotExist =>
      obtain rfl : outcome = if S[k]?.isSome then none else some none := h
      cases hc : S[k]? <;> simp [BufferEntry.toProtoWithKey, Proto.Mutation.applyTo]
    | _ => exact h.symm

/-- A read returns what the entry stands for. -/
lemma view_of_simulates {c : Option Value} (h : Simulates S[k]? b.entryMap[k]? (some c)) :
    b.view S k = c := by
  rw [view, getFromMutations]
  rcases he : b.entryMap[k]? with - | entry
  · rw [he] at h
    exact (Option.some.inj h).symm
  · rw [he] at h
    cases entry with
    | cached v => exact h.1.trans (Option.some.inj h.2).symm
    | locked v =>
      cases v with
      | none => exact (Option.some.inj h).symm
      | some v => exact h.1.trans (Option.some.inj h.2).symm
    | put | del => exact (Option.some.inj h).symm
    | insert v | checkNotExist =>
      have h : some c = if S[k]?.isSome then none else _ := h
      split_ifs at h
      exact (Option.some.inj h).symm

/-! ## Whole histories -/

lemma Plain.simulates_step (hb : Plain false b) {op : BufferOp} (hop : op.ReadsFrom S)
    (haccept : b.refuses op = false) (h : Simulates S[k]? b.entryMap[k]? outcome) :
    Simulates S[k]? (b.step op).entryMap[k]? ((op.atKey k).execute outcome) := by
  have hinsert : ∀ v, op.atKey k = .insert v →
      ∀ w, Simulates.knownValue b.entryMap[k]? ≠ .determined (some w) := by
    intro v hv w hknown
    cases op with
    | insert key value =>
      simp only [BufferOp.atKey] at hv
      split_ifs at hv with hk
      subst hk
      have hget : b.getFromMutations k = Simulates.knownValue b.entryMap[k]? := by
        rw [getFromMutations]
        cases b.entryMap[k]? <;> rfl
      simp [refuses, Buffer.get, hget, hknown] at haccept
    | mutate m =>
      cases m <;> simp only [BufferOp.atKey] at hv <;> split_ifs at hv
    | put | delete | lock =>
      simp only [BufferOp.atKey] at hv
      split_ifs at hv
    | _ => cases hv
  rcases hb.entry_step hop k with heq | ⟨hother, heq⟩
  · rw [heq]
    exact h.entryAfter hinsert
  · rw [heq, hother]
    have hsame : KeyOp.other.execute outcome = outcome := by cases outcome <;> rfl
    rw [hsame]
    exact h.afterRead

/-- **Along a history**, the entry of a key stands for what executing the accepted operations makes
of it. -/
theorem Plain.simulates_run (ops : List BufferOp) (hops : ∀ op ∈ ops, op.ReadsFrom S) :
    ∀ {b : Buffer} {outcome : Outcome}, Plain false b →
      Simulates S[k]? b.entryMap[k]? outcome →
      Plain false (b.run (b.accepted ops)) ∧
        Simulates S[k]? (b.run (b.accepted ops)).entryMap[k]?
          ((b.accepted ops).foldl (fun outcome op => (op.atKey k).execute outcome) outcome) := by
  induction ops with
  | nil => exact fun hb h => ⟨hb, h⟩
  | cons op rest ih =>
    intro b outcome hb h
    obtain ⟨hop, hrest⟩ := List.forall_mem_cons.mp hops
    rw [accepted]
    split_ifs with hrefuse
    · exact ih hrest hb h
    · rw [Bool.not_eq_true] at hrefuse
      exact ih hrest (hb.step hop) (hb.simulates_step hop hrefuse h)

/-- **Folding is faithful**: the mutation a buffer sends for a key does to the committed value what
executing the accepted operations one after another does, and fails when that fails; and until it
fails, a read returns its value. -/
theorem fold_faithful (S : Snapshot) (ops : List BufferOp) (hops : ∀ op ∈ ops, op.ReadsFrom S)
    (level : AssertionLevel) (k : Key) :
    ((new false).run ((new false).accepted ops)).commitOutcome level k S[k]? =
        executeAll k S[k]? ((new false).accepted ops) ∧
      ∀ done, done <+: ops → ∀ c, executeAll k S[k]? ((new false).accepted done) = some c →
        (((new false).run ((new false).accepted done)).getOrElse (m := Id) k
          fun key => .ok S[key]?).2 = .ok c := by
  have hnew : Simulates S[k]? (new false).entryMap[k]? (some S[k]?) := by
    simp [new, Simulates]
  constructor
  · obtain ⟨hb, h⟩ := Plain.simulates_run (k := k) ops hops (plain_new false) hnew
    exact commitOutcome_of_simulates (hb.noPresume k) h level
  · intro done hdone c hc
    obtain ⟨-, h⟩ := Plain.simulates_run (k := k) done (fun op hop => hops op (hdone.subset hop))
      (plain_new false) hnew
    rw [← executeAll, hc] at h
    rw [getOrElse_eq_view, view_of_simulates h]

/-- An insertion, a deletion and a put of an absent key are sent as one insertion. -/
theorem fold_faithful_insert_delete_put :
    let ops := [BufferOp.insert ⟨[107]⟩ [1], .insert ⟨[107]⟩ [3], .delete ⟨[107]⟩,
      .put ⟨[107]⟩ [2]]
    executeAll ⟨[107]⟩ none ((new false).accepted ops) = some (some [2]) ∧
      ((new false).run ((new false).accepted ops)).commitOutcome .off ⟨[107]⟩ none =
        executeAll ⟨[107]⟩ none ((new false).accepted ops) :=
  ⟨by decide, (fold_faithful ∅ _ (by simp [BufferOp.ReadsFrom]) .off ⟨[107]⟩).1⟩

end Buffer

end TikvClient
