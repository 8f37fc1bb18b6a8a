import Mathlib.Data.List.Count
import Mathlib.Data.List.Nodup
import Mathlib.Logic.Relation

/-!
# A loop that tries again without whoever spoiled the last try

`within` is what a bounded number of passes of a loop come to, and a loop whose passes lower a
measure ends in one more than that (`within_of_measure`). The loops that this is for go through a
list of candidates and take the first `t`; a try that fails finds a bad one among these, who is
left out from then on (`Excludes`). So the good ones are never left out, every failed try costs a
bad one, and in the end it is known how many good ones there are.
-/

set_option autoImplicit false

namespace Himsha
namespace Lib
namespace Retry

/-! ## Passes -/

section
variable {S R : Type} (pass : S → R ⊕ S)

/-- What at most `n` passes come to, `none` where the loop goes on. -/
def within : Nat → S → Option R
  | 0, _ => none
  | n + 1, s =>
    match pass s with
    | .inl r => some r
    | .inr s' => within n s'

/-- The loop comes to a state. -/
def Reaches : S → S → Prop := Relation.ReflTransGen fun s s' => pass s = .inr s'

variable {pass}

/-- What every pass that goes on keeps. -/
theorem Reaches.keeps {I : S → Prop} (hpass : ∀ s s', I s → pass s = .inr s' → I s') {s s' : S}
    (h : Reaches pass s s') (hs : I s) : I s' := by
  induction h with
  | refl => exact hs
  | tail _ hlast ih => exact hpass _ _ ih hlast

/-- A loop whose passes lower a measure ends, with what one of them ends with. -/
theorem within_of_measure {I : S → Prop} {m : S → Nat}
    (hpass : ∀ s s', I s → pass s = .inr s' → I s' ∧ m s' < m s) {n : Nat} {s : S} (hs : I s)
    (hm : m s < n) : ∃ r s', within pass n s = some r ∧ Reaches pass s s' ∧ pass s' = .inl r := by
  induction n generalizing s with
  | zero => exact absurd hm (Nat.not_lt_zero _)
  | succ n ih =>
    rw [within]
    cases hp : pass s with
    | inl r => exact ⟨r, s, rfl, .refl, hp⟩
    | inr t =>
      obtain ⟨ht, hlt⟩ := hpass s t hs hp
      obtain ⟨r, u, hwithin, hreaches, hlast⟩ := ih ht (by omega)
      exact ⟨r, u, hwithin, .head hp hreaches, hlast⟩

end

/-! ## Candidates -/

section
variable {α : Type} {bad : α → Prop} {t : Nat} {cands cands' : List α}

section
variable [DecidableEq α]

/-- One of the first `t` candidates is bad, and all the others remain. -/
def Excludes (bad : α → Prop) (t : Nat) (cands cands' : List α) : Prop :=
  ∃ culprit ∈ cands.take t, bad culprit ∧ cands' = cands.filter (· ≠ culprit)

theorem Excludes.sublist (h : Excludes bad t cands cands') : cands'.Sublist cands := by
  obtain ⟨culprit, -, -, rfl⟩ := h
  exact List.filter_sublist

variable [DecidablePred bad]

/-- The good ones remain, all of them. -/
theorem Excludes.filter_good (h : Excludes bad t cands cands') :
    cands'.filter (¬ bad ·) = cands.filter (¬ bad ·) := by
  obtain ⟨culprit, -, hbad, rfl⟩ := h
  rw [List.filter_filter]
  apply List.filter_congr
  intro c _
  by_cases hc : bad c
  · simp [hc]
  · have hne : c ≠ culprit := fun heq => hc (heq ▸ hbad)
    simp [hc, hne]

/-- There is one bad candidate less, or more. -/
theorem Excludes.countP_lt (h : Excludes bad t cands cands') :
    cands'.countP bad < cands.countP bad := by
  obtain ⟨culprit, hmem, hbad, rfl⟩ := h
  have hcands : culprit ∈ cands.filter bad := by
    rw [List.mem_filter]
    exact ⟨List.mem_of_mem_take hmem, by simpa using hbad⟩
  rw [List.countP_eq_length_filter, List.countP_eq_length_filter, List.filter_filter,
    ← List.countP_eq_length_filter]
  calc cands.countP (fun c => decide (bad c) && decide (c ≠ culprit))
      = (cands.filter bad).countP (· ≠ culprit) := by
        rw [List.countP_filter]
        simp only [Bool.and_comm]
    _ < (cands.filter bad).length := by
        rw [List.countP_lt_length_iff]
        exact ⟨culprit, hcands, by simp⟩

end

variable [DecidablePred bad]

/-- Where too few candidates remain, too few are good. -/
theorem good_lt (h : cands.length < t) : cands.countP (¬ bad ·) < t :=
  Nat.lt_of_le_of_lt List.countP_le_length h

/-- A try with none but good ones shows that they are enough. -/
theorem le_good (hlength : t ≤ cands.length) (hgood : ∀ c ∈ cands.take t, ¬ bad c) :
    t ≤ cands.countP (¬ bad ·) := by
  have htake : (cands.take t).countP (¬ bad ·) = (cands.take t).length :=
    List.countP_eq_length.mpr fun c hc => by simpa using hgood c hc
  calc t = (cands.take t).length := (List.length_take_of_le hlength).symm
    _ = (cands.take t).countP (¬ bad ·) := htake.symm
    _ ≤ cands.countP (¬ bad ·) := (List.take_sublist t cands).countP_le

end

end Retry
end Lib
end Himsha
