import Himsha.Lib.Borsh

/-!
# Which values can be encoded

A format is partial: a sequence of `2 ^ 32` entries has no encoding. `Encodes` says that a value has
one, and the lemmas say what that comes to for pairs, sequences and maps. What was decoded can be
encoded again, even where the format is not canonical and the bytes are others.
-/

set_option autoImplicit false

namespace Himsha
namespace Lib

variable {α β : Type}

/-- The value has an encoding. -/
def Encodes [Borsh α] (a : α) : Prop := (Borsh.ser a).isSome = true

/-- Decoded values can be encoded. -/
class Reencodes (α : Type) [Borsh α] : Prop where
  encodes : ∀ {bs rest} {a : α}, Borsh.de bs = some (a, rest) → Encodes a

/-- An entry of a map that was filled from a list is one of the list. -/
theorem mem_of_insertMany {l : List (String × β)} : ∀ {m : StringMap β} {k : String} {v : β},
    (m.insertMany l)[k]? = some v → m[k]? = some v ∨ (k, v) ∈ l := by
  induction l with
  | nil =>
    intro m k v h
    rw [Std.ExtTreeMap.insertMany_nil] at h
    exact .inl h
  | cons e l ih =>
    intro m k v h
    obtain ⟨k₀, v₀⟩ := e
    rw [Std.ExtTreeMap.insertMany_cons] at h
    rcases ih h with hhead | htail
    · rw [Std.ExtTreeMap.getElem?_insert] at hhead
      split at hhead
      · rename_i heq
        rw [Std.LawfulEqCmp.compare_eq_iff_eq] at heq
        rw [Option.some.injEq] at hhead
        subst heq hhead
        exact .inr List.mem_cons_self
      · exact .inl hhead
    · exact .inr (List.mem_cons_of_mem _ htail)

/-- A type that is another one under different names. -/
theorem Reencodes.iso [Borsh β] [Reencodes β] {f : α → β} {g : β → α} (hgf : ∀ a, g (f a) = a)
    (hfg : ∀ b, f (g b) = b) : @Reencodes α (Borsh.iso f g hgf) := by
  refine @Reencodes.mk α (Borsh.iso f g hgf) ?_
  intro bs rest a h
  obtain ⟨⟨b, r⟩, hb, heq⟩ := Option.map_eq_some_iff.mp h
  simp only [Prod.mk.injEq] at heq
  obtain ⟨rfl, -⟩ := heq
  have hser : Encodes (f (g b)) := by
    rw [hfg]
    exact Reencodes.encodes hb
  exact hser

section
variable [Borsh α] [Borsh β]

theorem Encodes.toVec {a : α} (h : Encodes a) : ∃ bs, toVec a = some bs :=
  Option.isSome_iff_exists.mp h

theorem Encodes.of_toVec {a : α} {bs : List UInt8} (h : Lib.toVec a = some bs) : Encodes a :=
  Option.isSome_iff_exists.mpr ⟨bs, h⟩

instance [Canonical α] : Reencodes α where
  encodes h := by
    obtain ⟨pre, hser, -⟩ := Canonical.ser_de h
    exact Encodes.of_toVec hser

theorem encodes_of_tryFromSlice [Reencodes α] {a : α} {bs : List UInt8}
    (h : tryFromSlice bs = some a) : Encodes a := by
  unfold tryFromSlice at h
  split at h
  · rename_i a' hde
    rw [Option.some.injEq] at h
    subst h
    exact Reencodes.encodes hde
  · simp at h

/-! ## Pairs, sequences, maps -/

theorem encodes_pair {a : α} {b : β} : Encodes (a, b) ↔ Encodes a ∧ Encodes b := by
  unfold Encodes
  cases ha : Borsh.ser a <;> cases hb : Borsh.ser b <;> simp [Borsh.ser, ha, hb]

theorem Encodes.option {o : Option α} (h : ∀ a : α, Encodes a) : Encodes o := by
  cases o with
  | none => rfl
  | some a =>
    change ((Borsh.ser a).map fun bs => 1 :: bs).isSome = true
    rw [Option.isSome_map]
    exact h a

theorem serAll_isSome {as : List α} : (serAll as).isSome = true ↔ ∀ a ∈ as, Encodes a := by
  induction as with
  | nil => simp [serAll]
  | cons a as ih =>
    unfold Encodes at ih ⊢
    rw [List.forall_mem_cons, ← ih, serAll]
    cases Borsh.ser a <;> cases serAll as <;> simp

theorem encodes_list {as : List α} :
    Encodes as ↔ as.length < 2 ^ 32 ∧ ∀ a ∈ as, Encodes a := by
  rw [← serAll_isSome]
  unfold Encodes
  by_cases hlt : as.length < 2 ^ 32
  · simp only [Borsh.ser]
    rw [if_pos hlt, Option.isSome_map]
    exact ⟨fun h => ⟨hlt, h⟩, fun h => h.2⟩
  · simp only [Borsh.ser]
    rw [if_neg hlt]
    exact ⟨fun h => by simp at h, fun h => absurd h.1 hlt⟩

theorem encodes_map {m : StringMap β} :
    Encodes m ↔ m.size < 2 ^ 32 ∧
      ∀ (k : String) (v : β), m[k]? = some v → Encodes k ∧ Encodes v := by
  have hlist : Encodes m ↔ Encodes m.toList := Iff.rfl
  rw [hlist, encodes_list, Std.ExtTreeMap.length_toList]
  refine and_congr_right fun _ => ⟨fun h k v hkv => ?_, fun h e he => ?_⟩
  · exact encodes_pair.mp (h (k, v) (Std.ExtTreeMap.mem_toList_iff_getElem?_eq_some.mpr hkv))
  · exact encodes_pair.mpr (h e.1 e.2 (Std.ExtTreeMap.mem_toList_iff_getElem?_eq_some.mp he))

theorem Encodes.erase {m : StringMap β} (h : Encodes m) (k : String) : Encodes (m.erase k) := by
  obtain ⟨hfew, heach⟩ := encodes_map.mp h
  refine encodes_map.mpr ⟨Nat.lt_of_le_of_lt Std.ExtTreeMap.size_erase_le hfew, ?_⟩
  intro k' v hkv
  rw [Std.ExtTreeMap.getElem?_erase] at hkv
  split at hkv
  · simp at hkv
  · exact heach k' v hkv

/-- A new entry is one more. -/
theorem Encodes.insert_iff {m : StringMap β} {k : String} {v : β} (h : Encodes m)
    (hk : Encodes k) (hv : Encodes v) (hfree : m.contains k = false) :
    Encodes (m.insert k v) ↔ m.size + 1 < 2 ^ 32 := by
  have hsize : (m.insert k v).size = m.size + 1 := by
    rw [Std.ExtTreeMap.size_insert, hfree]
    rfl
  rw [encodes_map, hsize]
  refine and_iff_left fun k' v' hkv => ?_
  rw [Std.ExtTreeMap.getElem?_insert] at hkv
  split at hkv
  · rename_i heq
    rw [Std.LawfulEqCmp.compare_eq_iff_eq] at heq
    rw [Option.some.injEq] at hkv
    subst heq hkv
    exact ⟨hk, hv⟩
  · exact (encodes_map.mp h).2 k' v' hkv

instance [Reencodes α] [Reencodes β] : Reencodes (α × β) where
  encodes := by
    intro bs rest p h
    obtain ⟨⟨a, r₁⟩, ha, hrest⟩ := Option.bind_eq_some_iff.mp h
    obtain ⟨⟨b, r₂⟩, hb, heq⟩ := Option.map_eq_some_iff.mp hrest
    simp only [Prod.mk.injEq] at heq
    obtain ⟨rfl, rfl⟩ := heq
    exact encodes_pair.mpr ⟨Reencodes.encodes ha, Reencodes.encodes hb⟩

instance [Canonical β] : Reencodes (StringMap β) where
  encodes := by
    intro bs rest m h
    obtain ⟨⟨l, r⟩, hl, heq⟩ := Option.map_eq_some_iff.mp h
    simp only [Prod.mk.injEq] at heq
    obtain ⟨rfl, -⟩ := heq
    have hlist : Encodes l := Reencodes.encodes hl
    obtain ⟨hlength, hall⟩ := encodes_list.mp hlist
    refine encodes_map.mpr ⟨Nat.lt_of_le_of_lt Std.ExtTreeMap.size_ofList_le hlength, ?_⟩
    intro k v hkv
    rw [Std.ExtTreeMap.ofList_eq_insertMany_empty] at hkv
    rcases mem_of_insertMany hkv with hempty | hmem
    · simp at hempty
    · exact encodes_pair.mp (hall _ hmem)

/-! ## What an encoding consists of -/

/-- All of the input is used. -/
theorem tryFromSlice_eq_some {a : α} {bs : List UInt8} :
    tryFromSlice bs = some a ↔ Borsh.de bs = some (a, []) := by
  unfold tryFromSlice
  constructor
  · intro h
    split at h
    · rename_i a' hde
      rw [Option.some.injEq] at h
      subst h
      exact hde
    · simp at h
  · intro h
    rw [h]

/-- The encoding of a pair is that of the two. -/
theorem ser_pair {a : α} {b : β} {bs : List UInt8} (h : Borsh.ser (a, b) = some bs) :
    ∃ xs ys, Borsh.ser a = some xs ∧ Borsh.ser b = some ys ∧ bs = xs ++ ys := by
  obtain ⟨xs, hx, hrest⟩ := Option.bind_eq_some_iff.mp h
  obtain ⟨ys, hy, rfl⟩ := Option.map_eq_some_iff.mp hrest
  exact ⟨xs, ys, hx, hy, rfl⟩

theorem ser_pair_of {a : α} {b : β} {xs ys : List UInt8} (ha : Borsh.ser a = some xs)
    (hb : Borsh.ser b = some ys) : Borsh.ser (a, b) = some (xs ++ ys) := by
  simp only [Borsh.ser, ha, hb, Option.bind_some, Option.map_some]

theorem ser_u8 (b : UInt8) : Borsh.ser b = some [b] := by
  change some (leBytes 1 b.toNat) = some [b]
  rw [leBytes, leBytes, UInt8.ofNat_toNat]

theorem serAll_bytes (bs : List UInt8) : serAll bs = some bs := by
  induction bs with
  | nil => rfl
  | cons b bs ih =>
    rw [serAll, ih, ser_u8]
    rfl

/-- A string is its length in bytes, and the bytes. -/
theorem ser_string {s : String} (h : s.toByteArray.data.toList.length < 2 ^ 32) :
    Borsh.ser s = some (leBytes 4 s.toByteArray.data.toList.length ++
      s.toByteArray.data.toList) := by
  have hbytes : Borsh.ser s = Borsh.ser s.toByteArray.data.toList := rfl
  rw [hbytes]
  simp only [Borsh.ser]
  rw [if_pos h, serAll_bytes]
  rfl

theorem encodes_string {s : String} :
    Encodes s ↔ s.toByteArray.data.toList.length < 2 ^ 32 := by
  have hbytes : Encodes s ↔ Encodes s.toByteArray.data.toList := Iff.rfl
  rw [hbytes, encodes_list]
  exact and_iff_left fun _ _ => rfl

/-! ## Variants -/

theorem encodes_tag {t : UInt8} {x : α} : (tag t x).isSome = true ↔ Encodes x := by
  rw [tag, Option.isSome_map]
  rfl

omit [Borsh β] in
theorem encodes_untag [Reencodes α] {f : α → β} {bs rest : List UInt8} {y : β}
    (h : untag f bs = some (y, rest)) : ∃ x, y = f x ∧ Encodes x := by
  obtain ⟨⟨x, r⟩, hde, heq⟩ := Option.map_eq_some_iff.mp h
  simp only [Prod.mk.injEq] at heq
  exact ⟨x, heq.1.symm, Reencodes.encodes hde⟩

omit [Borsh β] in
/-- What a variant was decoded from is its encoding. -/
theorem ser_untag [Canonical α] {f : α → β} {bs : List UInt8} {y : β}
    (h : untag f bs = some (y, [])) : ∃ x, y = f x ∧ Borsh.ser x = some bs := by
  obtain ⟨⟨x, r⟩, hde, heq⟩ := Option.map_eq_some_iff.mp h
  simp only [Prod.mk.injEq] at heq
  obtain ⟨rfl, rfl⟩ := heq
  obtain ⟨pre, hser, rfl⟩ := Canonical.ser_de hde
  exact ⟨x, rfl, by rw [List.append_nil]; exact hser⟩

end

end Lib
end Himsha
