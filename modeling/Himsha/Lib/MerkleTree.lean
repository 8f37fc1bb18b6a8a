import Mathlib.Data.Nat.Bitwise
import Mathlib.Logic.Function.Basic

/-!
# Binary hash trees

The root of a list of leaves, folded level by level with the last node of an odd level paired with
itself. `Below d r` says that `r` was hashed from `d`, through any nodes and on any side, so it is
what an inclusion proof shows. Where the hash confuses nothing (`Ideal`), the leaves below a root
are the leaves it was computed from (`below_root_iff`): a proof of any length, at any index and
with any siblings, reaches no other. The other way round, the siblings that are read off the levels
lead to the root from every leaf, whatever the hash (`siblings_climb`).
-/

set_option autoImplicit false

namespace Himsha
namespace Lib
namespace MerkleTree

section
variable {D : Type} (node : D → D → D)

/-- Fold one level into the next, duplicating the last node when odd. -/
def parentLevel : List D → List D
  | [] => []
  | [l] => [node l l]
  | l :: r :: rest => node l r :: parentLevel rest

theorem length_parentLevel (level : List D) :
    (parentLevel node level).length = (level.length + 1) / 2 := by
  fun_induction parentLevel node level with
  | case1 => simp
  | case2 l => simp
  | case3 l r rest ih =>
    simp only [List.length_cons, ih]
    omega

def root (empty : D) : List D → D
  | [] => empty
  | [d] => d
  | l :: r :: rest => root empty (parentLevel node (l :: r :: rest))
termination_by level => level.length
decreasing_by
  rw [length_parentLevel]
  simp only [List.length_cons]
  omega

/-- `d` is hashed into `r`, or it is `r`. -/
inductive Below (d : D) : D → Prop
  | refl : Below d d
  | left {l : D} (r : D) (h : Below d l) : Below d (node l r)
  | right (l : D) {r : D} (h : Below d r) : Below d (node l r)

theorem below_trans {d e r : D} (h : Below node d e) (h' : Below node e r) : Below node d r := by
  induction h' with
  | refl => exact h
  | left r _ ih => exact .left r ih
  | right l _ ih => exact .right l ih

/-! ## Proofs of inclusion -/

/-- The place of the node that the one at `i` is paired with: at the tail of an odd level, its
    own. -/
def partner (n i : Nat) : Nat := if i ^^^ 1 < n then i ^^^ 1 else i

/-- The siblings on the way up from `i`. -/
def siblings : List D → Nat → Option (List D)
  | [], _ => some []
  | [_], _ => some []
  | l :: r :: rest, i => do
      let sib ← (l :: r :: rest)[partner (l :: r :: rest).length i]?
      return sib :: (← siblings (parentLevel node (l :: r :: rest)) (i / 2))
termination_by level => level.length
decreasing_by
  rw [length_parentLevel]
  simp only [List.length_cons]
  omega

/-- Pair with a sibling, on the side that the parity of `i` says. -/
def combine (i : Nat) (h sib : D) : D := if i % 2 = 0 then node h sib else node sib h

def climb (h : D) (i : Nat) : List D → D
  | [] => h
  | sib :: siblings => climb (combine node i h sib) (i / 2) siblings

theorem xor_one (i : Nat) : i ^^^ 1 = if i % 2 = 0 then i + 1 else i - 1 := by
  split
  · rename_i h
    exact Nat.xor_one_of_even (Nat.even_iff.mpr h)
  · rename_i h
    exact Nat.xor_one_of_odd (Nat.odd_iff.mpr (Nat.mod_two_ne_zero.mp h))

theorem partner_lt {n i : Nat} (h : i < n) : partner n i < n := by
  unfold partner
  split
  · assumption
  · exact h

theorem partner_add_two (n i : Nat) : partner (n + 2) (i + 2) = partner n i + 2 := by
  unfold partner
  rw [xor_one, xor_one]
  grind

/-- The parent of a node is the node and its partner, hashed. -/
theorem getElem?_parentLevel {level : List D} {i : Nat} {h sib : D} (hh : level[i]? = some h)
    (hsib : level[partner level.length i]? = some sib) :
    (parentLevel node level)[i / 2]? = some (combine node i h sib) := by
  fun_induction parentLevel node level generalizing i with
  | case1 => cases hh
  | case2 l =>
    obtain ⟨hi, rfl⟩ := List.getElem?_eq_some_iff.mp hh
    obtain rfl : i = 0 := Nat.lt_one_iff.mp hi
    obtain rfl : l = sib := Option.some.inj hsib
    rfl
  | case3 l r rest ih =>
    match i with
    | 0 =>
      obtain rfl : l = h := Option.some.inj hh
      obtain rfl : r = sib := Option.some.inj hsib
      rfl
    | 1 =>
      obtain rfl : r = h := Option.some.inj hh
      obtain rfl : l = sib := Option.some.inj hsib
      rfl
    | i + 2 =>
      rw [List.length_cons, List.length_cons, partner_add_two] at hsib
      have hrest := ih hh hsib
      rw [Nat.add_div_right i Nat.two_pos, List.getElem?_cons_succ, hrest, combine, combine,
        Nat.add_mod_right]

/-- **A node has siblings to climb to the root by.** -/
theorem siblings_climb (empty : D) {level : List D} {i : Nat} {h : D}
    (hh : level[i]? = some h) :
    ∃ path, siblings node level i = some path ∧ climb node h i path = root node empty level := by
  fun_induction root node empty level generalizing i h with
  | case1 => cases hh
  | case2 l =>
    obtain ⟨hi, rfl⟩ := List.getElem?_eq_some_iff.mp hh
    obtain rfl : i = 0 := Nat.lt_one_iff.mp hi
    exact ⟨[], by rw [siblings], rfl⟩
  | case3 l r rest ih =>
    have hlt := partner_lt (List.getElem?_eq_some_iff.mp hh).1
    have hsib := List.getElem?_eq_getElem hlt
    obtain ⟨path, hpath, hroot⟩ := ih (getElem?_parentLevel node hh hsib)
    refine ⟨_ :: path, ?_, hroot⟩
    rw [siblings, hsib, hpath]
    rfl

end

section
variable {D : Type} {node : D → D → D} {empty : D} {Leaf : D → Prop}

/-- No two inputs of the hash are confused: neither two nodes, nor a node and a leaf, and the root
    of the empty list is neither. -/
structure Ideal (node : D → D → D) (empty : D) (Leaf : D → Prop) : Prop where
  injective : Function.Injective2 node
  leaf_ne_node {d : D} (h : Leaf d) (l r : D) : d ≠ node l r
  not_leaf_empty : ¬ Leaf empty
  node_ne_empty (l r : D) : node l r ≠ empty

namespace Ideal

/-- Nothing but itself is hashed into a leaf. -/
theorem below_leaf (H : Ideal node empty Leaf) {d leaf : D} (hleaf : Leaf leaf)
    (h : Below node d leaf) : d = leaf := by
  cases h with
  | refl => rfl
  | left r _ => exact absurd rfl (H.leaf_ne_node hleaf _ r)
  | right l _ => exact absurd rfl (H.leaf_ne_node hleaf l _)

theorem below_node (H : Ideal node empty Leaf) {d l r : D} (hd : Leaf d) :
    Below node d (node l r) ↔ Below node d l ∨ Below node d r := by
  constructor
  · intro h
    generalize hx : node l r = x at h
    cases h with
    | refl => exact absurd hx.symm (H.leaf_ne_node hd l r)
    | left r' h' => exact .inl ((H.injective hx).1 ▸ h')
    | right l' h' => exact .inr ((H.injective hx).2 ▸ h')
  · rintro (h | h)
    · exact .left r h
    · exact .right l h

theorem below_empty (H : Ideal node empty Leaf) {d : D} (hd : Leaf d) :
    ¬ Below node d empty := by
  intro h
  generalize hx : empty = x at h
  cases h with
  | refl => exact H.not_leaf_empty (hx ▸ hd)
  | left r _ => exact H.node_ne_empty _ r hx.symm
  | right l _ => exact H.node_ne_empty l _ hx.symm

/-- A level has the same leaves below it as the next. -/
theorem below_parentLevel (H : Ideal node empty Leaf) {d : D} (hd : Leaf d) (level : List D) :
    (∃ x ∈ parentLevel node level, Below node d x) ↔ ∃ x ∈ level, Below node d x := by
  fun_induction parentLevel node level with
  | case1 => rfl
  | case2 l => simp only [List.mem_singleton, exists_eq_left, H.below_node hd, or_self]
  | case3 l r rest ih =>
    simp only [List.mem_cons, exists_eq_or_imp, H.below_node hd, ih, or_assoc]

/-- The leaves below the root are those below the level it is computed from. -/
theorem below_root (H : Ideal node empty Leaf) {d : D} (hd : Leaf d) (level : List D) :
    Below node d (root node empty level) ↔ ∃ x ∈ level, Below node d x := by
  fun_induction root node empty level with
  | case1 => simpa using H.below_empty hd
  | case2 x => simp
  | case3 l r rest ih => rw [ih, H.below_parentLevel hd]

/-- **The leaves below the root of a list of leaves are the members of the list.** -/
theorem below_root_iff (H : Ideal node empty Leaf) {d : D} (hd : Leaf d) {leaves : List D}
    (hleaves : ∀ x ∈ leaves, Leaf x) : Below node d (root node empty leaves) ↔ d ∈ leaves := by
  rw [H.below_root hd]
  constructor
  · rintro ⟨x, hx, h⟩
    exact H.below_leaf (hleaves x hx) h ▸ hx
  · intro h
    exact ⟨d, h, .refl⟩

end Ideal
end

end MerkleTree
end Lib
end Himsha
