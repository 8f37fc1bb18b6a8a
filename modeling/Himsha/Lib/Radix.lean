import Mathlib.Data.Nat.Digits.Lemmas

/-!
# Spelling a number anew in another base, leading zeros apart

A string of digits, most significant first, is not the number it stands for: the zeros before it
are lost. `recode` keeps their count beside the number, so that each of two bases gives back what
the other was given (`recode_recode`). The number itself is Mathlib's `Nat.ofDigits`, which reads
the least significant digit first.
-/

set_option autoImplicit false

namespace Himsha
namespace Lib
namespace Radix

/-- How many zeros a string of digits begins with. -/
def zeros : List Nat → Nat
  | [] => 0
  | d :: ds => if d = 0 then zeros ds + 1 else 0

/-- The zeros in front, and the digits of the number in base `c`. -/
def recode (b c : Nat) (ds : List Nat) : List Nat :=
  List.replicate (zeros ds) 0 ++ (Nat.digits c (Nat.ofDigits b ds.reverse)).reverse

/-- A loop that multiplies what it has by the base and adds the next digit. -/
theorem foldl_eq_ofDigits (b : Nat) (ds : List Nat) (n : Nat) :
    ds.foldl (fun n d => n * b + d) n = n * b ^ ds.length + Nat.ofDigits b ds.reverse := by
  induction ds generalizing n with
  | nil => simp
  | cons d ds ih =>
    rw [List.foldl_cons, ih, Nat.ofDigits_reverse_cons, List.length_cons, pow_succ]
    ring

/-- Zeros in front of digits that do not begin with one. -/
theorem zeros_replicate_append (k : Nat) {ds : List Nat} (hds : ds.head? ≠ some 0) :
    zeros (List.replicate k 0 ++ ds) = k := by
  induction k with
  | zero =>
    cases ds with
    | nil => rfl
    | cons d ds =>
      have hd : d ≠ 0 := fun h => hds (by rw [h]; rfl)
      simp [zeros, hd]
  | succ k ih =>
    rw [List.replicate_succ, List.cons_append, zeros, if_pos rfl, ih]

/-- A string of digits is its zeros and then digits that do not begin with one. -/
theorem exists_replicate_append (ds : List Nat) :
    ∃ rest, ds = List.replicate (zeros ds) 0 ++ rest ∧ rest.head? ≠ some 0 := by
  induction ds with
  | nil => exact ⟨[], rfl, by simp⟩
  | cons d ds ih =>
    by_cases hd : d = 0
    · obtain ⟨rest, heq, hhead⟩ := ih
      refine ⟨rest, ?_, hhead⟩
      rw [zeros, if_pos hd, List.replicate_succ, List.cons_append, ← heq, hd]
    · refine ⟨d :: ds, ?_, by simp [hd]⟩
      rw [zeros, if_neg hd]
      rfl

/-- The zeros in front do not count. -/
theorem ofDigits_replicate_append (b k : Nat) (ds : List Nat) :
    Nat.ofDigits b (List.replicate k 0 ++ ds).reverse = Nat.ofDigits b ds.reverse := by
  rw [List.reverse_append, List.reverse_replicate, Nat.ofDigits_append_replicate_zero]

/-- No number is written with a zero in front. -/
theorem head?_digits (b n : Nat) : (Nat.digits b n).reverse.head? ≠ some 0 := by
  rw [List.head?_reverse]
  intro h
  have hn : n ≠ 0 := by
    rintro rfl
    simp at h
  have hne : Nat.digits b n ≠ [] := Nat.digits_ne_nil_iff_ne_zero.mpr hn
  rw [List.getLast?_eq_some_getLast hne, Option.some.injEq] at h
  exact Nat.getLast_digit_ne_zero b hn h

/-- Digits that do not begin with a zero are those of their number. -/
theorem digits_ofDigits_reverse {b : Nat} (hb : 1 < b) {ds : List Nat} (hds : ∀ d ∈ ds, d < b)
    (hhead : ds.head? ≠ some 0) : (Nat.digits b (Nat.ofDigits b ds.reverse)).reverse = ds := by
  have hlt : ∀ d ∈ ds.reverse, d < b := fun d hd => hds d (List.mem_reverse.mp hd)
  have hlast : ∀ h : ds.reverse ≠ [], ds.reverse.getLast h ≠ 0 := by
    intro h hzero
    apply hhead
    rw [← List.getLast?_reverse, List.getLast?_eq_some_getLast h, hzero]
  rw [Nat.digits_ofDigits b hb ds.reverse hlt hlast, List.reverse_reverse]

section
variable {b c : Nat} {ds : List Nat}

theorem zeros_recode : zeros (recode b c ds) = zeros ds :=
  zeros_replicate_append _ (head?_digits c _)

/-- The number stays the same. -/
theorem ofDigits_recode : Nat.ofDigits c (recode b c ds).reverse = Nat.ofDigits b ds.reverse := by
  rw [recode, ofDigits_replicate_append, List.reverse_reverse, Nat.ofDigits_digits]

theorem recode_lt (hc : 1 < c) : ∀ d ∈ recode b c ds, d < c := by
  intro d hd
  rcases List.mem_append.mp hd with hzero | hdigit
  · rw [List.eq_of_mem_replicate hzero]
    exact Nat.lt_of_lt_of_le Nat.zero_lt_one hc.le
  · exact Nat.digits_lt_base hc (List.mem_reverse.mp hdigit)

/-- Back in its own base, a string of digits is what it was. -/
theorem recode_recode (hb : 1 < b) (hds : ∀ d ∈ ds, d < b) : recode c b (recode b c ds) = ds := by
  obtain ⟨rest, heq, hhead⟩ := exists_replicate_append ds
  have hnumber : Nat.ofDigits b ds.reverse = Nat.ofDigits b rest.reverse := by
    rw [heq, ofDigits_replicate_append]
  have hrest : ∀ d ∈ rest, d < b := by
    intro d hd
    apply hds
    rw [heq]
    exact List.mem_append_right _ hd
  calc recode c b (recode b c ds)
      = List.replicate (zeros ds) 0 ++ (Nat.digits b (Nat.ofDigits b ds.reverse)).reverse := by
        rw [recode, zeros_recode, ofDigits_recode]
    _ = List.replicate (zeros ds) 0 ++ rest := by
        rw [hnumber, digits_ofDigits_reverse hb hrest hhead]
    _ = ds := heq.symm

theorem recode_ne_nil (hb : 1 < b) (hds : ∀ d ∈ ds, d < b) (hne : ds ≠ []) :
    recode b c ds ≠ [] := by
  intro h
  apply hne
  rw [← recode_recode (c := c) hb hds, h]
  simp [recode, zeros]

end

end Radix
end Lib
end Himsha
