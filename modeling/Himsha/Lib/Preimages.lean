import Himsha.Lib.MerkleTree

/-!
# Proofs of inclusion, and what they hash

No hash with digests of a fixed length is `Ideal`. Here the hash is any function, of which nothing
is assumed, and the inputs that are hashed are looked at instead of the digests: those for a root
(`inputs`), and those on the way up from some first input (`Climb`), each of which has the digest of
the one before in it. Where the way up ends at the root, either the first input is one of the leaves
the root was computed from, or there is a collision in what was hashed: one of its two inputs is on
the way up and the other is one for the root (`Climb.mem_or_collision`). So who can show what is not
there can find collisions.
-/

set_option autoImplicit false

namespace Himsha
namespace Lib
namespace MerkleTree

section
variable {I D : Type} (hash : I → D) (pair : D → D → I)

/-- Two different inputs with one digest, one in each of the lists. -/
def Collision (xs ys : List I) : Prop := ∃ x ∈ xs, ∃ y ∈ ys, x ≠ y ∧ hash x = hash y

/-- What is hashed for the next level. -/
def pairs : List D → List I
  | [] => []
  | [l] => [pair l l]
  | l :: r :: rest => pair l r :: pairs rest

theorem parentLevel_eq (level : List D) :
    parentLevel (fun l r => hash (pair l r)) level = (pairs pair level).map hash := by
  fun_induction pairs pair level with
  | case1 => rfl
  | case2 l => rfl
  | case3 l r rest ih => simp [parentLevel, ih]

/-- What is hashed for the root. -/
def inputs : List D → List I
  | [] => []
  | [_] => []
  | l :: r :: rest => pairs pair (l :: r :: rest) ++ inputs ((pairs pair (l :: r :: rest)).map hash)
termination_by level => level.length
decreasing_by
  rw [← parentLevel_eq, length_parentLevel]
  simp only [List.length_cons]
  omega

theorem mem_pairs {x : I} {level : List D} (h : x ∈ pairs pair level) :
    ∃ l ∈ level, ∃ r ∈ level, x = pair l r := by
  fun_induction pairs pair level with
  | case1 => simp at h
  | case2 l => simpa using h
  | case3 l r rest ih =>
    rcases List.mem_cons.mp h with rfl | h
    · exact ⟨l, by simp, r, by simp, rfl⟩
    · obtain ⟨l', hl, r', hr, rfl⟩ := ih h
      exact ⟨l', by simp [hl], r', by simp [hr], rfl⟩

/-- From `first` the inputs `xs` are hashed one after the other, the last of them in front. -/
inductive Climb (Child : D → I → Prop) (first : I) : I → List I → Prop
  | start : Climb Child first first [first]
  | up {x y : I} {xs : List I} (h : Climb Child first x xs) (hchild : Child (hash x) y) :
      Climb Child first y (y :: xs)

end

section
variable {I D : Type} {hash : I → D} {pair : D → D → I} {Child : D → I → Prop} {first x : I}
  {xs xs' ys ys' : List I}

theorem Collision.mono (h : Collision hash xs ys) (hxs : xs ⊆ xs') (hys : ys ⊆ ys') :
    Collision hash xs' ys' := by
  obtain ⟨x, hx, y, hy, hxy⟩ := h
  exact ⟨x, hxs hx, y, hys hy, hxy⟩

namespace Climb

theorem last_mem (h : Climb hash Child first x xs) : x ∈ xs := by
  cases h <;> simp

/-- Where nothing is confused, one digest is of one input. -/
theorem eq_of_hash (h : Climb hash Child first x xs) (hnone : ¬ Collision hash xs ys) {y : I}
    (hy : y ∈ ys) (heq : hash x = hash y) : x = y := by
  by_contra hne
  exact hnone ⟨x, h.last_mem, y, hy, hne, heq⟩

/-- One level down: the way up to a pair came through one of the two. -/
theorem descend {l r : D} (hchild : ∀ {d}, Child d (pair l r) → d = l ∨ d = r)
    (hfirst : first ≠ pair l r) (h : Climb hash Child first (pair l r) xs) :
    ∃ y ys, Climb hash Child first y ys ∧ ys ⊆ xs ∧ (hash y = l ∨ hash y = r) := by
  generalize hp : pair l r = p at h
  cases h with
  | start => exact absurd hp.symm hfirst
  | up h hc =>
    subst hp
    exact ⟨_, _, h, List.subset_cons_self _ _, hchild hc⟩

/-- The way up to a root came through the level that the root was computed from. -/
theorem through (hchild : ∀ {d l r}, Child d (pair l r) → d = l ∨ d = r)
    (hfirst : ∀ l r, first ≠ pair l r) {empty : D} {level : List D}
    (h : Climb hash Child first x xs)
    (hroot : hash x = root (fun l r => hash (pair l r)) empty level)
    (hempty : ∀ y ∈ xs, hash y ≠ empty) (hnone : ¬ Collision hash xs (inputs hash pair level)) :
    ∃ y ys, Climb hash Child first y ys ∧ ys ⊆ xs ∧ hash y ∈ level := by
  fun_induction root (fun l r => hash (pair l r)) empty level with
  | case1 => exact absurd hroot (hempty x h.last_mem)
  | case2 d => exact ⟨x, xs, h, fun _ hy => hy, by simp [hroot]⟩
  | case3 l r rest ih =>
    rw [inputs, ← parentLevel_eq] at hnone
    have habove : ¬ Collision hash xs
        (inputs hash pair (parentLevel (fun l r => hash (pair l r)) (l :: r :: rest))) :=
      fun h => hnone (h.mono (List.Subset.refl _) (List.subset_append_right _ _))
    obtain ⟨y, ys, hy, hsub, hlevel⟩ := ih hroot habove
    have hhere : ¬ Collision hash ys (pairs pair (l :: r :: rest)) :=
      fun h => hnone (h.mono hsub (List.subset_append_left _ _))
    -- In the level above it is a pair of this one that was hashed.
    rw [parentLevel_eq] at hlevel
    obtain ⟨p, hp, heq⟩ := List.mem_map.mp hlevel
    obtain rfl : y = p := hy.eq_of_hash hhere hp heq.symm
    obtain ⟨d, hd, e, he, rfl⟩ := mem_pairs pair hp
    obtain ⟨z, zs, hz, hzs, hmem⟩ := hy.descend hchild (hfirst d e)
    refine ⟨z, zs, hz, fun _ ha => hsub (hzs ha), ?_⟩
    rcases hmem with hmem | hmem
    · exact hmem ▸ hd
    · exact hmem ▸ he

/-- **The first input is a leaf, or something was confused.** No digest is in a leaf, and the first
    input is no pair. -/
theorem mem_or_collision (hchild : ∀ {d l r}, Child d (pair l r) → d = l ∨ d = r)
    (hfirst : ∀ l r, first ≠ pair l r) {empty : D} {leaves : List I}
    (hleaves : ∀ leaf ∈ leaves, ∀ d, ¬ Child d leaf) (h : Climb hash Child first x xs)
    (hroot : hash x = root (fun l r => hash (pair l r)) empty (leaves.map hash)) :
    first ∈ leaves ∨ (∃ y ∈ xs, hash y = empty) ∨
      Collision hash xs (leaves ++ inputs hash pair (leaves.map hash)) := by
  by_contra hnot
  simp only [not_or, not_exists, not_and] at hnot
  obtain ⟨hmem, hempty, hnone⟩ := hnot
  obtain ⟨y, ys, hy, hsub, hlevel⟩ := h.through hchild hfirst hroot hempty
    fun h => hnone (h.mono (List.Subset.refl _) (List.subset_append_right _ _))
  have hhere : ¬ Collision hash ys leaves :=
    fun h => hnone (h.mono hsub (List.subset_append_left _ _))
  obtain ⟨leaf, hleaf, heq⟩ := List.mem_map.mp hlevel
  obtain rfl : y = leaf := hy.eq_of_hash hhere hleaf heq.symm
  cases hy with
  | start => exact hmem hleaf
  | up _ hc => exact hleaves y hleaf _ hc

end Climb
end

end MerkleTree
end Lib
end Himsha
