import Himsha.Lib.MerkleTree
import Himsha.Runtime.Account

/-!
# `merkle.rs`

The binary tree over account state. Leaves and inner nodes are hashed under different tags; the
last node of an odd level is paired with itself. Inclusion proofs are stated over a `Hashing`,
which for the node is `Hashing.sha`.
-/

set_option autoImplicit false

namespace Himsha
namespace Runtime
namespace Merkle

open Lib

/-- Hash of an empty state. -/
def emptyRoot : Blob 32 := .zero 32

def leafHash (key : Blob 32) (accountBytes : List UInt8) : Blob 32 :=
  sha256 (0x00 :: key.bytes ++ accountBytes)

def nodeHash (left right : Blob 32) : Blob 32 := sha256 (0x01 :: left.bytes ++ right.bytes)

/-- Fold one level into the next, duplicating the last node when odd. -/
def parentLevel : List (Blob 32) → List (Blob 32)
  | [] => []
  | [l] => [nodeHash l l]
  | l :: r :: rest => nodeHash l r :: parentLevel rest

theorem length_parentLevel (level : List (Blob 32)) :
    (parentLevel level).length = (level.length + 1) / 2 := by
  fun_induction parentLevel level with
  | case1 => rfl
  | case2 l => simp
  | case3 l r rest ih =>
    simp only [List.length_cons, ih]
    omega

def merkleRoot : List (Blob 32) → Blob 32
  | [] => emptyRoot
  | [root] => root
  | l :: r :: rest => merkleRoot (parentLevel (l :: r :: rest))
termination_by level => level.length
decreasing_by
  rw [length_parentLevel]
  simp only [List.length_cons]
  omega

/-- The root is that of the hash tree. -/
theorem merkleRoot_eq (level : List (Blob 32)) :
    merkleRoot level = MerkleTree.root nodeHash emptyRoot level := by
  have hlevel : ∀ level, parentLevel level = MerkleTree.parentLevel nodeHash level := by
    intro level
    fun_induction parentLevel level with
    | case1 => rfl
    | case2 l => rfl
    | case3 l r rest ih => rw [MerkleTree.parentLevel, ih]
  fun_induction merkleRoot level with
  | case1 => rw [MerkleTree.root]
  | case2 root => rw [MerkleTree.root]
  | case3 l r rest ih => rw [MerkleTree.root, ih, hlevel]

/-- The two hashes and the root of the empty tree, over any kind of digest. -/
structure Hashing (D : Type) where
  emptyRoot : D
  leafHash : Blob 32 → List UInt8 → D
  nodeHash : D → D → D

namespace Hashing

/-- SHA-256 under the two tags. -/
def sha : Hashing (Blob 32) := ⟨Merkle.emptyRoot, Merkle.leafHash, Merkle.nodeHash⟩

variable {D : Type}

def merkleRoot (H : Hashing D) : List D → D := MerkleTree.root H.nodeHash H.emptyRoot

theorem merkleRoot_sha : sha.merkleRoot = Merkle.merkleRoot :=
  funext fun level => (merkleRoot_eq level).symm

/-- The digest of some account. -/
def Leaf (H : Hashing D) (d : D) : Prop := ∃ key bytes, d = H.leafHash key bytes

/-- The hashes are injective, their ranges are disjoint and the empty root is in neither. -/
structure Ideal (H : Hashing D) : Prop where
  leaf_injective : Function.Injective2 H.leafHash
  node_injective : Function.Injective2 H.nodeHash
  leaf_ne_node (key : Blob 32) (bytes : List UInt8) (l r : D) :
    H.leafHash key bytes ≠ H.nodeHash l r
  leaf_ne_empty (key : Blob 32) (bytes : List UInt8) : H.leafHash key bytes ≠ H.emptyRoot
  node_ne_empty (l r : D) : H.nodeHash l r ≠ H.emptyRoot

theorem Ideal.tree {H : Hashing D} (h : H.Ideal) :
    MerkleTree.Ideal H.nodeHash H.emptyRoot H.Leaf where
  injective := h.node_injective
  leaf_ne_node := by
    rintro d ⟨key, bytes, rfl⟩ l r
    exact h.leaf_ne_node key bytes l r
  not_leaf_empty := by
    rintro ⟨key, bytes, heq⟩
    exact h.leaf_ne_empty key bytes heq.symm
  node_ne_empty := h.node_ne_empty

end Hashing

/-- An inclusion proof: `leaf` at `index` among the ordered leaves, with the `siblings` needed to
    recompute the root. -/
structure MerkleProof (D : Type) where
  leaf : D
  index : UInt64
  siblings : List D

namespace MerkleProof

variable {D : Type} (H : Hashing D)

/-- One sibling on the way to the root; the parity of the index says on which side it is. -/
def step (state : D × UInt64) (sib : D) : D × UInt64 :=
  let (h, idx) := state
  (if idx &&& 1 = 0 then H.nodeHash h sib else H.nodeHash sib h, idx >>> 1)

/-- The root this proof attests to. -/
def recompute (p : MerkleProof D) : D := (p.siblings.foldl (step H) (p.leaf, p.index)).1

def verify [DecidableEq D] (p : MerkleProof D) (root : D) : Bool := p.recompute H = root

theorem below_step (state : D × UInt64) (sib : D) :
    MerkleTree.Below H.nodeHash state.1 (step H state sib).1 := by
  unfold step
  dsimp only
  split
  · exact .left sib .refl
  · exact .right sib .refl

/-- Whatever the index and the siblings, what a proof recomputes is above its leaf. -/
theorem below_recompute (p : MerkleProof D) :
    MerkleTree.Below H.nodeHash p.leaf (p.recompute H) := by
  have hclimb : ∀ (siblings : List D) (state : D × UInt64),
      MerkleTree.Below H.nodeHash state.1 (siblings.foldl (step H) state).1 := by
    intro siblings
    induction siblings with
    | nil => exact fun _ => .refl
    | cons sib siblings ih =>
      intro state
      exact MerkleTree.below_trans _ (below_step H state sib) (ih _)
  exact hclimb p.siblings (p.leaf, p.index)

theorem shiftRight_one (idx : UInt64) : (idx >>> 1).toNat = idx.toNat / 2 := by
  rw [UInt64.toNat_shiftRight]
  exact Nat.shiftRight_one _

/-- Climbing by a proof is climbing in the hash tree. -/
theorem foldl_step (h : D) (idx : UInt64) (siblings : List D) :
    (siblings.foldl (step H) (h, idx)).1 = MerkleTree.climb H.nodeHash h idx.toNat siblings := by
  induction siblings generalizing h idx with
  | nil => rfl
  | cons sib siblings ih =>
    have hcombine : (step H (h, idx) sib).1 =
        MerkleTree.combine H.nodeHash idx.toNat h sib := by
      unfold step MerkleTree.combine
      simp only [← UInt64.toNat_inj, UInt64.toNat_and, UInt64.toNat_one, Nat.and_one_is_mod,
        UInt64.toNat_zero]
    rw [List.foldl_cons, MerkleTree.climb, ← hcombine, ← shiftRight_one, ← ih]
    rfl

end MerkleProof

section
variable {D : Type} (H : Hashing D)

/-- The paired node; at the tail of an odd level the node is paired with itself. -/
def siblingAt (level : List D) (idx : UInt64) : Outcome D :=
  if (idx ^^^ 1).toNat < level.length then orPanic level[(idx ^^^ 1).toNat]?
  else orPanic level[idx.toNat]?

/-- The siblings on the way to the root. -/
def siblingsOf : List D → UInt64 → Outcome (List D)
  | [], _ => return []
  | [_], _ => return []
  | l :: r :: rest, idx => do
      let sib ← siblingAt (l :: r :: rest) idx
      return sib :: (← siblingsOf (MerkleTree.parentLevel H.nodeHash (l :: r :: rest)) (idx >>> 1))
termination_by level => level.length
decreasing_by
  rw [MerkleTree.length_parentLevel]
  simp only [List.length_cons]
  omega

/-- `build_proof`; an index is a `usize`. -/
def buildProof (leaves : List D) (index : UInt64) : Outcome (Option (MerkleProof D)) := do
  if leaves.length ≤ index.toNat then return none
  let siblings ← siblingsOf H leaves index
  let leaf ← orPanic leaves[index.toNat]?
  return some ⟨leaf, index, siblings⟩

theorem siblingAt_eq (level : List D) (idx : UInt64) :
    siblingAt level idx = orPanic level[MerkleTree.partner level.length idx.toNat]? := by
  unfold siblingAt MerkleTree.partner
  rw [UInt64.toNat_xor, UInt64.toNat_one]
  split <;> rfl

theorem siblingsOf_eq (level : List D) (idx : UInt64) :
    siblingsOf H level idx = orPanic (MerkleTree.siblings H.nodeHash level idx.toNat) := by
  -- The levels halve as they do on the way to the root.
  fun_induction MerkleTree.root H.nodeHash H.emptyRoot level generalizing idx with
  | case1 =>
    rw [siblingsOf, MerkleTree.siblings]
    rfl
  | case2 leaf =>
    rw [siblingsOf, MerkleTree.siblings]
    rfl
  | case3 l r rest ih =>
    rw [siblingsOf, MerkleTree.siblings, siblingAt_eq, ih,
      MerkleProof.shiftRight_one]
    cases (l :: r :: rest)[MerkleTree.partner (l :: r :: rest).length idx.toNat]? with
    | none => rfl
    | some sib =>
      cases MerkleTree.siblings H.nodeHash (MerkleTree.parentLevel H.nodeHash (l :: r :: rest))
          (idx.toNat / 2) with
      | none => rfl
      | some path => rfl

/-- **A leaf has a proof, and it recomputes the root.** -/
theorem buildProof_leaf {leaves : List D} {index : UInt64} {leaf : D}
    (hleaf : leaves[index.toNat]? = some leaf) :
    ∃ siblings, buildProof H leaves index = .ok (some ⟨leaf, index, siblings⟩) ∧
      (⟨leaf, index, siblings⟩ : MerkleProof D).recompute H = H.merkleRoot leaves := by
  obtain ⟨siblings, hsiblings, hroot⟩ :=
    MerkleTree.siblings_climb H.nodeHash H.emptyRoot hleaf
  refine ⟨siblings, ?_, ?_⟩
  · unfold buildProof
    rw [if_neg (Nat.not_le.mpr (List.getElem?_eq_some_iff.mp hleaf).1), siblingsOf_eq, hsiblings,
      hleaf]
    rfl
  · rw [MerkleProof.recompute, MerkleProof.foldl_step]
    exact hroot

/-- There is no proof for an index that no leaf has. -/
theorem buildProof_none {leaves : List D} {index : UInt64} (h : leaves.length ≤ index.toNat) :
    buildProof H leaves index = .ok none := by
  unfold buildProof
  rw [if_pos h]
  rfl

end

end Merkle
end Runtime
end Himsha
