import TikvClient.Core.Env

/-!
# Assumptions that a run establishes

What a program assumes of the answers may depend on its own calls — what it has written is what it
reads — and on what becomes of the state later.

**Assumptions and promises.**  `Grants.sat`: a program is proved under the assumption `A`, and the
environment grants `A` to whoever keeps `C`.
-/

namespace Env

variable {S : Signature} {W α : Type} {E : Env S W} {C : S.Call → Prop} {J : W → Prop}

/-- The environment moves on its own. -/
abbrev Idle (E : Env S W) (w w' : W) : Prop := E.Run w [] w'

variable {p : Prog S α} {w w' : W} {tr : List (Event S)}

lemma Run.answered_inv {c : S.Call} {ans : S.Ans c} (h : E.Run w (.answered c ans :: tr) w') :
    ∃ w₁ w₂, E.Idle w w₁ ∧ E.reply w₁ c ans w₂ ∧ E.Run w₂ tr w' := by
  generalize htr : Event.answered c ans :: tr = tr' at h
  induction h with
  | refl w => cases htr
  | rely hm _ ih =>
    obtain ⟨w₁, w₂, hi, hr, hrest⟩ := ih htr
    exact ⟨w₁, w₂, .rely hm hi, hr, hrest⟩
  | answered hm hr _ =>
    cases htr
    exact ⟨_, _, .refl _, hm, hr⟩
  | dropped hm _ _ => cases htr

lemma Run.dropped_inv {cs : List S.Call} (h : E.Run w (.dropped cs :: tr) w') :
    ∃ w₁ w₂, E.Idle w w₁ ∧ E.dropped w₁ cs w₂ ∧ E.Run w₂ tr w' := by
  generalize htr : Event.dropped cs :: tr = tr' at h
  induction h with
  | refl w => cases htr
  | rely hm _ ih =>
    obtain ⟨w₁, w₂, hi, hr, hrest⟩ := ih htr
    exact ⟨w₁, w₂, .rely hm hi, hr, hrest⟩
  | answered hm _ _ => cases htr
  | dropped hm hr _ =>
    cases htr
    exact ⟨_, _, .refl _, hm, hr⟩

/-- **In runs that end in `final`, the answers satisfy `A`**, if the calls satisfy `C`; `J` is what
the state says about the calls made so far. -/
structure Grants (E : Env S W) (C : S.Call → Prop) (A : (c : S.Call) → S.Ans c → Prop)
    (J : W → Prop) (final : W) : Prop where
  reply : ∀ {w c ans w' tr}, J w → C c → E.reply w c ans w' → E.Run w' tr final → A c ans ∧ J w'
  dropped : ∀ {w cs w'}, J w → (∀ c ∈ cs, C c) → E.dropped w cs w' → J w'
  rely : ∀ {w w'}, J w → E.rely w w' → J w'

variable {A : (c : S.Call) → S.Ans c → Prop} {final : W}

lemma Grants.idle (h : E.Grants C A J final) (hidle : E.Idle w w') (hw : J w) : J w' := by
  have hrun : E.Run w [] w' := hidle
  generalize htr : ([] : List (Event S)) = tr at hrun
  clear hidle
  induction hrun with
  | refl w => exact hw
  | rely hm _ ih => exact ih (h.rely hw hm) htr
  | answered _ _ _ => cases htr
  | dropped _ _ _ => cases htr

/-- **A program keeps its promises in an environment that keeps its own.** -/
theorem Grants.sat {P : α → Prop} {q : Prog S α}
    (h : E.Grants C A J final) (hsteps : Prog.Steps p tr q)
    (hrun : E.Run w tr final) (hw : J w) (hsat : p.Sat C A P) : q.Sat C A P := by
  induction hsteps generalizing w with
  | refl p => exact hsat
  | call ans _ ih =>
    obtain ⟨w₁, w₂, hidle, hreply, hrest⟩ := hrun.answered_inv
    obtain ⟨hans, hw₂⟩ := h.reply (h.idle hidle hw) hsat.1 hreply hrest
    exact ih hrest hw₂ (hsat.2 ans hans)
  | pick i _ ih => exact ih hrun hw (hsat i)
  | drop _ ih =>
    obtain ⟨w₁, w₂, hidle, hdropped, hrest⟩ := hrun.dropped_inv
    exact ih hrest (h.dropped (h.idle hidle hw) hsat.1 hdropped) hsat.2

end Env
