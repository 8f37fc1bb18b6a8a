import Mathlib.Data.List.Basic
import Mathlib.Tactic.Common

/-!
# Ranks in a sorted list

The entry of rank `i` of a list has `i` other entries that are at most as large, and all later
ones are at least as large. So if the list is one entry more than `others`, whatever that entry is,
any rank but the first and the last lies between two of `others`. And if fewer than half of the
entries are set aside, the lower middle one lies between two of the rest.
-/

set_option autoImplicit false

namespace Himsha
namespace Lib

variable {α : Type} {le : α → α → Bool}

/-- At least `i + 1` entries are at most the one of rank `i`. -/
theorem rank_le {l : List α} (hrefl : ∀ a, le a a = true)
    (hsorted : l.Pairwise fun a b => le a b = true) {i : Nat} {v : α} (hv : l[i]? = some v) :
    i + 1 ≤ l.countP (le · v) := by
  obtain ⟨hi, rfl⟩ := List.getElem?_eq_some_iff.mp hv
  have hall : ∀ a ∈ l.take (i + 1), le a l[i] = true := by
    intro a ha
    obtain ⟨j, hj, rfl⟩ := List.getElem_of_mem ha
    rw [List.length_take] at hj
    rw [List.getElem_take]
    rcases Nat.lt_or_ge j i with hlt | hge
    · exact List.pairwise_iff_getElem.mp hsorted j i (by omega) hi hlt
    · obtain rfl : j = i := by omega
      exact hrefl _
  calc i + 1 = (l.take (i + 1)).length := by rw [List.length_take]; omega
    _ = (l.take (i + 1)).countP (le · l[i]) := (List.countP_eq_length.mpr hall).symm
    _ ≤ l.countP (le · l[i]) := (List.take_sublist _ _).countP_le

/-- All but `i` entries are at least the one of rank `i`. -/
theorem rank_ge {l : List α} (hrefl : ∀ a, le a a = true)
    (hsorted : l.Pairwise fun a b => le a b = true) {i : Nat} {v : α} (hv : l[i]? = some v) :
    l.length ≤ i + l.countP (le v ·) := by
  obtain ⟨hi, rfl⟩ := List.getElem?_eq_some_iff.mp hv
  have hall : ∀ a ∈ l.drop i, le l[i] a = true := by
    intro a ha
    obtain ⟨j, hj, rfl⟩ := List.getElem_of_mem ha
    rw [List.length_drop] at hj
    rw [List.getElem_drop]
    rcases Nat.eq_zero_or_pos j with rfl | hpos
    · exact hrefl _
    · exact List.pairwise_iff_getElem.mp hsorted i (i + j) hi (by omega) (by omega)
  have hcount : (l.drop i).countP (le l[i] ·) ≤ l.countP (le l[i] ·) :=
    (List.drop_sublist _ _).countP_le
  rw [List.countP_eq_length.mpr hall, List.length_drop] at hcount
  omega

/-- A second entry that satisfies a predicate is not the extra one. -/
theorem exists_other {p : α → Bool} {l others : List α} {x : α} (hperm : l.Perm (x :: others))
    (h : 2 ≤ l.countP p) : ∃ a ∈ others, p a = true := by
  rw [hperm.countP_eq, List.countP_cons] at h
  have hpos : 0 < others.countP p := by
    split at h <;> omega
  exact List.countP_pos_iff.mp hpos

/-- **An entry of a middle rank lies between two of the others.** -/
theorem between_others (htrans : ∀ a b c, le a b = true → le b c = true → le a c = true)
    (htotal : ∀ a b, (le a b || le b a) = true) {l others : List α} {x v : α} {i : Nat}
    (hperm : l.Perm (x :: others)) (hv : (l.mergeSort le)[i]? = some v) (hlow : 1 ≤ i)
    (hhigh : i + 2 ≤ l.length) :
    (∃ a ∈ others, le a v = true) ∧ ∃ a ∈ others, le v a = true := by
  have hrefl : ∀ a, le a a = true := fun a => by simpa using htotal a a
  have hsorted := List.pairwise_mergeSort htrans htotal l
  have hsort : (l.mergeSort le).Perm (x :: others) := (List.mergeSort_perm l le).trans hperm
  have hlength : (l.mergeSort le).length = l.length := List.length_mergeSort l
  constructor
  · have hcount := rank_le hrefl hsorted hv
    exact exists_other hsort (by omega)
  · have hcount := rank_ge hrefl hsorted hv
    exact exists_other (p := fun a => le v a) hsort (by omega)

/-- Where more satisfy a predicate than are excluded, one that is not excluded does. -/
theorem exists_included {β : Type} {p bad : β → Bool} {items : List β}
    (h : items.countP bad < items.countP p) : ∃ b ∈ items, bad b = false ∧ p b = true := by
  by_contra hnone
  refine absurd h (Nat.not_lt.mpr (List.countP_mono_left fun b hb hp => ?_))
  rcases hbad : bad b with _ | _
  · exact absurd ⟨b, hb, hbad, hp⟩ hnone
  · rfl

/-- **The lower middle resists a minority.** Whatever fewer than half of the entries are, it lies
    between two of the rest. -/
theorem median_resists {β : Type} (htrans : ∀ a b c, le a b = true → le b c = true → le a c = true)
    (htotal : ∀ a b, (le a b || le b a) = true) {items : List β} {val : β → α} {bad : β → Bool}
    {v : α} (hminority : 2 * items.countP bad < items.length)
    (hv : ((items.map val).mergeSort le)[(items.length - 1) / 2]? = some v) :
    (∃ b ∈ items, bad b = false ∧ le (val b) v = true) ∧
      ∃ b ∈ items, bad b = false ∧ le v (val b) = true := by
  have hrefl : ∀ a, le a a = true := fun a => by simpa using htotal a a
  have hsorted := List.pairwise_mergeSort htrans htotal (items.map val)
  have hperm := List.mergeSort_perm (items.map val) le
  constructor
  · have hcount := rank_le hrefl hsorted hv
    rw [hperm.countP_eq, List.countP_map] at hcount
    exact exists_included (p := fun b => le (val b) v) (Nat.lt_of_lt_of_le (by omega) hcount)
  · have hcount := rank_ge hrefl hsorted hv
    rw [hperm.countP_eq, hperm.length_eq, List.length_map, List.countP_map] at hcount
    exact exists_included (p := fun b => le v (val b)) (by
      change _ < items.countP ((le v ·) ∘ val)
      omega)

end Lib
end Himsha
