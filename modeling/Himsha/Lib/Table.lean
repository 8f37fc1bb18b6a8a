import Mathlib.Data.Finmap
import Mathlib.Algebra.GroupWithZero.Nat
import Mathlib.Algebra.BigOperators.Group.Multiset.Defs
import Mathlib.Algebra.BigOperators.Group.List.Basic
import Mathlib.Algebra.BigOperators.Group.Finset.Basic
import Mathlib.Algebra.Order.BigOperators.Group.Finset

/-!
# Finite tables and bulk writes

A table is a finite map. `write` stores a list of entries in order, so where a key occurs more
than once the last entry is the one that stays; `survivors` are those entries, each key once.
`total f` is the sum of `f` over the values of a table, and `total_write` is the accounting
equation of a bulk write: only survivors enter it.
-/

set_option autoImplicit false

namespace Himsha
namespace Lib

variable {K V : Type} [DecidableEq K]

/-- A finite map from keys to values. -/
abbrev Table (K V : Type) := Finmap fun _ : K => V

namespace Table

/-- Store the entries one after the other. -/
def write (m : Table K V) (entries : List (K × V)) : Table K V :=
  entries.foldl (fun m e => m.insert e.1 e.2) m

/-- The entries whose key does not occur again later. -/
def survivors : List (K × V) → List (K × V)
  | [] => []
  | e :: rest => if e.1 ∈ rest.map Prod.fst then survivors rest else e :: survivors rest

/-- The sum of `f` over all values. -/
def total (f : V → Nat) (m : Table K V) : Nat := (m.entries.map fun e => f e.2).sum

/-- `f` of the value at `k`, 0 where there is none. -/
def weight (f : V → Nat) (m : Table K V) (k : K) : Nat := ((m.lookup k).map f).getD 0

section
variable {m : Table K V} {entries : List (K × V)} {k : K} {v : V} {f : V → Nat}

@[simp] theorem write_nil : write m [] = m := rfl

@[simp] theorem write_cons {e : K × V} :
    write m (e :: entries) = write (m.insert e.1 e.2) entries := rfl

theorem write_append {entries' : List (K × V)} :
    write m (entries ++ entries') = write (write m entries) entries' :=
  List.foldl_append ..

theorem survivors_cons {e : K × V} : survivors (e :: entries) =
    if e.1 ∈ entries.map Prod.fst then survivors entries else e :: survivors entries := rfl

theorem lookup_write_of_notMem (h : k ∉ entries.map Prod.fst) :
    (write m entries).lookup k = m.lookup k := by
  induction entries generalizing m with
  | nil => rfl
  | cons e rest ih =>
    simp only [List.map_cons, List.mem_cons, not_or] at h
    rw [write_cons, ih h.2, Finmap.lookup_insert_of_ne _ h.1]

/-- The last entry for a key is what a lookup finds. -/
theorem lookup_write_append {rest : List (K × V)} (h : k ∉ rest.map Prod.fst) :
    (write m (entries ++ (k, v) :: rest)).lookup k = some v := by
  have hsplit : write m (entries ++ (k, v) :: rest) =
      write ((write m entries).insert k v) rest := by
    simp [write, List.foldl_append]
  rw [hsplit, lookup_write_of_notMem h, Finmap.lookup_insert]

/-- The same, by position. -/
theorem lookup_write_of_last {i : Nat} (hi : entries[i]? = some (k, v))
    (hlast : ∀ j, i < j → (entries[j]?).map Prod.fst ≠ some k) :
    (write m entries).lookup k = some v := by
  obtain ⟨hlt, hget⟩ := List.getElem?_eq_some_iff.mp hi
  have hsplit : entries = entries.take i ++ (k, v) :: entries.drop (i + 1) := by
    rw [← hget, List.cons_getElem_drop_succ, List.take_append_drop]
  rw [hsplit]
  apply lookup_write_append
  intro hmem
  obtain ⟨n, hn⟩ := List.mem_iff_getElem?.mp hmem
  rw [List.getElem?_map, List.getElem?_drop] at hn
  exact hlast (i + 1 + n) (by omega) hn

/-- Two writes to the same keys leave at each of them the values of one pair of entries. -/
theorem lookup_write_forall₂ {R : K → V → V → Prop} {m' : Table K V} {entries' : List (K × V)}
    (h : List.Forall₂ (fun e e' => e.1 = e'.1 ∧ R e.1 e.2 e'.2) entries entries')
    (hk : k ∈ entries.map Prod.fst) : ∃ v v', (write m entries).lookup k = some v ∧
      (write m' entries').lookup k = some v' ∧ R k v v' := by
  induction h generalizing m m' with
  | nil => exact absurd hk List.not_mem_nil
  | @cons e e' rest rest' hhead htail ih =>
    obtain ⟨hkey, hR⟩ := hhead
    rw [write_cons, write_cons]
    by_cases hmem : k ∈ rest.map Prod.fst
    · exact ih hmem
    · have hsame : rest'.map Prod.fst = rest.map Prod.fst := by
        have hmap : List.Forall₂ (fun e e' : K × V => e.1 = e'.1) rest rest' :=
          htail.imp fun _ _ h => h.1
        rw [← List.forall₂_eq_eq_eq]
        exact List.forall₂_map_left_iff.mpr (List.forall₂_map_right_iff.mpr
          (hmap.flip.imp fun _ _ h => h.symm))
      obtain rfl : k = e.1 := by simpa [hmem] using hk
      refine ⟨e.2, e'.2, ?_, ?_, hR⟩
      · rw [lookup_write_of_notMem hmem, Finmap.lookup_insert]
      · rw [lookup_write_of_notMem (hsame ▸ hmem), ← hkey, Finmap.lookup_insert]

/-- What a write leaves at a key depends only on what was there at that key. -/
theorem lookup_write_congr {m' : Table K V} (h : m.lookup k = m'.lookup k) :
    (write m entries).lookup k = (write m' entries).lookup k := by
  induction entries generalizing m m' with
  | nil => exact h
  | cons e rest ih =>
    apply ih
    by_cases hk : k = e.1
    · subst hk
      rw [Finmap.lookup_insert, Finmap.lookup_insert]
    · rw [Finmap.lookup_insert_of_ne _ hk, Finmap.lookup_insert_of_ne _ hk, h]

theorem mem_survivors_keys : k ∈ (survivors entries).map Prod.fst ↔ k ∈ entries.map Prod.fst := by
  induction entries with
  | nil => rfl
  | cons e rest ih =>
    unfold survivors
    split
    · rename_i hmem
      rw [ih, List.map_cons, List.mem_cons]
      constructor
      · exact Or.inr
      · rintro (rfl | h)
        · exact hmem
        · exact h
    · simp only [List.map_cons, List.mem_cons, ih]

theorem survivors_nodup (entries : List (K × V)) :
    ((survivors entries).map Prod.fst).Nodup := by
  induction entries with
  | nil => exact List.nodup_nil
  | cons e rest ih =>
    unfold survivors
    split
    · exact ih
    · rename_i hmem
      rw [List.map_cons, List.nodup_cons]
      exact ⟨fun h => hmem (mem_survivors_keys.mp h), ih⟩

theorem write_survivors : write m (survivors entries) = write m entries := by
  induction entries generalizing m with
  | nil => rfl
  | cons e rest ih =>
    unfold survivors
    split
    · rename_i hmem
      rw [ih, write_cons]
      apply Finmap.ext_lookup
      intro k
      by_cases hk : k ∈ rest.map Prod.fst
      · -- What was there before the last entry for `k` makes no difference.
        rw [← ih, ← ih (m := m.insert e.1 e.2)]
        obtain ⟨e', he', rfl⟩ := List.mem_map.mp (mem_survivors_keys.mpr hk)
        obtain ⟨pre, post, hsplit⟩ := List.append_of_mem he'
        have hnodup := survivors_nodup rest
        rw [hsplit, List.map_append, List.map_cons] at hnodup
        have hpost : e'.1 ∉ post.map Prod.fst :=
          (List.nodup_cons.mp (List.nodup_append.mp hnodup).2.1).1
        rw [hsplit, show e' = (e'.1, e'.2) from rfl, lookup_write_append hpost,
          lookup_write_append hpost]
      · apply lookup_write_congr
        have hne : k ≠ e.1 := by
          rintro rfl
          exact hk hmem
        rw [Finmap.lookup_insert_of_ne _ hne]
    · rw [write_cons, write_cons, ih]

/-- What a lookup finds after a write was written and survived, or was there before. -/
theorem lookup_write_mem (h : (write m entries).lookup k = some v) :
    (k, v) ∈ survivors entries ∨ m.lookup k = some v := by
  rw [← write_survivors] at h
  generalize survivors entries = es at h
  induction es generalizing m with
  | nil => exact .inr h
  | cons e rest ih =>
    rcases ih h with hmem | hbefore
    · exact .inl (List.mem_cons_of_mem _ hmem)
    · by_cases hk : k = e.1
      · subst hk
        rw [Finmap.lookup_insert, Option.some.injEq] at hbefore
        subst hbefore
        exact .inl List.mem_cons_self
      · rw [Finmap.lookup_insert_of_ne _ hk] at hbefore
        exact .inr hbefore

theorem write_eq_self_of_forall (h : ∀ e ∈ entries, m.lookup e.1 = some e.2) :
    write m entries = m := by
  induction entries with
  | nil => rfl
  | cons e rest ih =>
    have hsame : m.insert e.1 e.2 = m := by
      apply Finmap.ext_lookup
      intro k
      by_cases hk : k = e.1
      · subst hk
        rw [Finmap.lookup_insert, h e List.mem_cons_self]
      · rw [Finmap.lookup_insert_of_ne _ hk]
    rw [write_cons, hsame]
    exact ih fun e' he' => h e' (List.mem_cons_of_mem _ he')

/-- A write changes nothing if and only if every entry that survives is what is stored. -/
theorem write_eq_self_iff :
    write m entries = m ↔ ∀ e ∈ survivors entries, m.lookup e.1 = some e.2 := by
  constructor
  · intro h e he
    obtain ⟨pre, post, hsplit⟩ := List.append_of_mem he
    have hnodup := survivors_nodup entries
    rw [hsplit, List.map_append, List.map_cons] at hnodup
    have hpost : e.1 ∉ post.map Prod.fst :=
      (List.nodup_cons.mp (List.nodup_append.mp hnodup).2.1).1
    have hlookup : (write m (pre ++ (e.1, e.2) :: post)).lookup e.1 = some e.2 :=
      lookup_write_append hpost
    rwa [show (e.1, e.2) = e from rfl, ← hsplit, write_survivors, h] at hlookup
  · intro h
    rw [← write_survivors]
    exact write_eq_self_of_forall h

/-! ## Layers

A hash map laid over a table: what it holds comes first. `AList` is a hash map together with the
order in which it is visited. -/

/-- The table seen through an overlay. -/
def layered (overlay : AList fun _ : K => V) (m : Table K V) : Table K V := overlay.toFinmap ∪ m

theorem lookup_layered {overlay : AList fun _ : K => V} :
    (layered overlay m).lookup k = (overlay.lookup k).or (m.lookup k) := by
  unfold layered
  cases h : overlay.lookup k with
  | none =>
    have hk : k ∉ overlay.toFinmap := by
      rw [← Finmap.lookup_eq_none, Finmap.lookup_toFinmap]
      exact h
    rw [Finmap.lookup_union_right hk]
    rfl
  | some v =>
    have hk : k ∈ overlay.toFinmap := Finmap.mem_iff.mpr ⟨v, by rw [Finmap.lookup_toFinmap, h]⟩
    rw [Finmap.lookup_union_left hk, Finmap.lookup_toFinmap, h]
    rfl

theorem layered_insert {overlay : AList fun _ : K => V} :
    layered (overlay.insert k v) m = (layered overlay m).insert k v := by
  unfold layered
  rw [← Finmap.insert_toFinmap, Finmap.insert_union]

@[simp] theorem layered_empty : layered ∅ m = m := Finmap.empty_union

theorem lookup_write_entries (l : List (Sigma fun _ : K => V)) (h : l.NodupKeys) :
    (write m (l.map fun e => (e.1, e.2))).lookup k = (l.dlookup k).or (m.lookup k) := by
  induction l generalizing m with
  | nil => rfl
  | cons e rest ih =>
    rw [List.map_cons, write_cons, ih (List.nodupKeys_cons.mp h).2]
    by_cases hk : k = e.1
    · subst hk
      rw [List.dlookup_cons_eq, Finmap.lookup_insert,
        List.dlookup_eq_none.mpr (List.nodupKeys_cons.mp h).1]
      rfl
    · rw [List.dlookup_cons_ne _ e hk, Finmap.lookup_insert_of_ne _ hk]

/-- Writing out an overlay leaves the table that was seen through it. -/
theorem write_overlay (overlay : AList fun _ : K => V) :
    write m (overlay.entries.map fun e => (e.1, e.2)) = layered overlay m := by
  apply Finmap.ext_lookup
  intro k
  rw [lookup_write_entries _ overlay.nodupKeys, lookup_layered]
  rfl

/-! ## Accounting -/

theorem sum_kerase (l : List (Sigma fun _ : K => V)) :
    ((l.kerase k).map fun e => f e.2).sum + ((l.dlookup k).map f).getD 0 =
      (l.map fun e => f e.2).sum := by
  induction l with
  | nil => rfl
  | cons e rest ih =>
    by_cases hk : k = e.1
    · subst hk
      rw [List.kerase_cons_eq rfl, List.dlookup_cons_eq]
      simp only [Option.map_some, Option.getD_some, List.map_cons, List.sum_cons]
      omega
    · rw [List.kerase_cons_ne hk, List.dlookup_cons_ne _ e hk]
      simp only [List.map_cons, List.sum_cons]
      omega

theorem total_insert : total f (m.insert k v) + weight f m k = total f m + f v := by
  induction m using Finmap.induction_on with
  | H s =>
    have hsum := sum_kerase (k := k) (f := f) s.entries
    rw [Finmap.insert_toFinmap]
    simp only [total, weight, AList.toFinmap_entries, AList.entries_insert, Finmap.lookup_toFinmap,
      Multiset.map_coe, Multiset.sum_coe, List.map_cons, List.sum_cons, AList.lookup]
    omega

theorem total_eq_zero (h : ∀ k v, m.lookup k = some v → f v = 0) : total f m = 0 := by
  induction m using Finmap.induction_on with
  | H s =>
    simp only [total, AList.toFinmap_entries, Multiset.map_coe, Multiset.sum_coe]
    apply List.sum_eq_zero
    intro n hn
    obtain ⟨e, he, rfl⟩ := List.mem_map.mp hn
    apply h e.1
    rw [Finmap.lookup_toFinmap]
    exact AList.mem_lookup_iff.mpr he

/-- **The accounting equation of a bulk write.** -/
theorem total_write (f : V → Nat) (m : Table K V) (entries : List (K × V)) :
    total f (write m entries) + ((survivors entries).map fun e => weight f m e.1).sum =
      total f m + ((survivors entries).map fun e => f e.2).sum := by
  rw [← write_survivors]
  have hnodup := survivors_nodup entries
  generalize survivors entries = es at hnodup
  induction es generalizing m with
  | nil => simp
  | cons e rest ih =>
    rw [List.map_cons, List.nodup_cons] at hnodup
    obtain ⟨hnew, hrest⟩ := hnodup
    have hsame : (rest.map fun e' => weight f (m.insert e.1 e.2) e'.1) =
        rest.map fun e' => weight f m e'.1 := by
      apply List.map_congr_left
      intro e' he'
      have hne : e'.1 ≠ e.1 := by
        intro heq
        exact hnew (heq ▸ List.mem_map.mpr ⟨e', he', rfl⟩)
      rw [weight, Finmap.lookup_insert_of_ne _ hne, weight]
    have hhead := total_insert (m := m) (k := e.1) (v := e.2) (f := f)
    have htail := ih (m := m.insert e.1 e.2) hrest
    rw [hsame] at htail
    simp only [write_cons, List.map_cons, List.sum_cons]
    omega

/-! ## Accounting by weights

The two equations above with the entries reduced to what they weigh, which is all that an
argument about totals sees. -/

/-- The entries of a write with the weights of their values. -/
def weights (f : V → Nat) (entries : List (K × V)) : List (K × Nat) :=
  entries.map fun e => (e.1, f e.2)

theorem survivors_weights : survivors (weights f entries) = weights f (survivors entries) := by
  induction entries with
  | nil => rfl
  | cons e rest ih =>
    have hkeys : (weights f rest).map Prod.fst = rest.map Prod.fst := by
      simp [weights, List.map_map, Function.comp_def]
    rw [survivors_cons, show weights f (e :: rest) = (e.1, f e.2) :: weights f rest from rfl,
      survivors_cons, hkeys, ih]
    split <;> rfl

theorem total_write_weights (f : V → Nat) (m : Table K V) (entries : List (K × V)) :
    total f (write m entries) +
        ((survivors (weights f entries)).map fun e => weight f m e.1).sum =
      total f m + ((survivors (weights f entries)).map Prod.snd).sum := by
  rw [survivors_weights]
  simpa [weights, List.map_map, Function.comp_def] using
    total_write f m entries

theorem weight_write : weight f (write m entries) k =
    (weights f entries).foldl (fun w e => if e.1 = k then e.2 else w) (weight f m k) := by
  induction entries generalizing m with
  | nil => rfl
  | cons e rest ih =>
    rw [write_cons, ih]
    simp only [weights, List.map_cons, List.foldl_cons]
    congr 1
    by_cases hk : e.1 = k
    · subst hk
      rw [if_pos rfl, weight, Finmap.lookup_insert]
      rfl
    · rw [if_neg hk, weight, Finmap.lookup_insert_of_ne _ fun h => hk h.symm]
      rfl

theorem mem_of_mem_survivors {e : K × V} (h : e ∈ survivors entries) : e ∈ entries := by
  induction entries with
  | nil => exact h
  | cons e' rest ih =>
    unfold survivors at h
    split at h
    · exact List.mem_cons_of_mem _ (ih h)
    · rcases List.mem_cons.mp h with rfl | h
      · exact List.mem_cons_self
      · exact List.mem_cons_of_mem _ (ih h)

/-! ## Writes that change one or two entries

A write most of whose entries weigh what is stored already: only the others show, and of these
only the ones that survive. -/

/-- Entries that weigh what is stored. -/
def standing (f : V → Nat) (m : Table K V) (keys : List K) : List (K × Nat) :=
  keys.map fun k => (k, weight f m k)

@[simp] theorem standing_keys {keys : List K} : (standing f m keys).map Prod.fst = keys := by
  simp [standing, List.map_map, Function.comp_def]

theorem foldl_standing {keys : List K} (w : Nat) :
    (standing f m keys).foldl (fun w e => if e.1 = k then e.2 else w) w =
      if k ∈ keys then weight f m k else w := by
  unfold standing
  induction keys generalizing w with
  | nil => rfl
  | cons k' rest ih =>
    rw [List.map_cons, List.foldl_cons, ih]
    by_cases hmem : k ∈ rest
    · rw [if_pos hmem, if_pos (List.mem_cons_of_mem _ hmem)]
    · by_cases hk : k' = k
      · subst hk
        simp [hmem]
      · have hk' : ¬ k = k' := fun h => hk h.symm
        simp [hmem, hk, hk']

theorem sum_standing (f : V → Nat) (m : Table K V) (keys : List K) :
    ((survivors (standing f m keys)).map fun e => weight f m e.1).sum =
      ((survivors (standing f m keys)).map Prod.snd).sum := by
  congr 1
  refine List.map_congr_left fun e he => ?_
  obtain ⟨k, -, rfl⟩ := List.mem_map.mp (mem_of_mem_survivors he)
  rfl

section
variable {k₀ k₁ : K} {keys : List K} {a b : Nat}

theorem weight_write_standing (h : weights f entries = standing f m keys) :
    weight f (write m entries) k = weight f m k := by
  rw [weight_write, h, foldl_standing]
  split <;> rfl

theorem total_write_standing (h : weights f entries = standing f m keys) :
    total f (write m entries) = total f m := by
  have htotal := total_write_weights f m entries
  have hsum := sum_standing f m keys
  rw [h] at htotal
  omega

theorem weight_write_first (h : weights f entries = (k₀, a) :: standing f m keys) :
    weight f (write m entries) k =
      if k ∈ keys then weight f m k else if k = k₀ then a else weight f m k := by
  rw [weight_write, h, List.foldl_cons, foldl_standing]
  simp only [eq_comm (a := k₀)]

theorem total_write_first (h : weights f entries = (k₀, a) :: standing f m keys) :
    total f (write m entries) + (if k₀ ∈ keys then 0 else weight f m k₀) =
      total f m + if k₀ ∈ keys then 0 else a := by
  have htotal := total_write_weights f m entries
  have hsum := sum_standing f m keys
  rw [h, survivors_cons, standing_keys] at htotal
  by_cases h₀ : k₀ ∈ keys
  all_goals simp only [h₀, if_true, if_false, List.map_cons, List.sum_cons] at htotal ⊢
  all_goals omega

theorem weight_write_pair (h : weights f entries = (k₀, a) :: (k₁, b) :: standing f m keys) :
    weight f (write m entries) k =
      if k ∈ keys then weight f m k
      else if k = k₁ then b else if k = k₀ then a else weight f m k := by
  rw [weight_write, h, List.foldl_cons, List.foldl_cons, foldl_standing]
  simp only [eq_comm (a := k₀), eq_comm (a := k₁)]

theorem total_write_pair (h : weights f entries = (k₀, a) :: (k₁, b) :: standing f m keys) :
    total f (write m entries) + (if k₀ ∈ k₁ :: keys then 0 else weight f m k₀) +
        (if k₁ ∈ keys then 0 else weight f m k₁) =
      total f m + (if k₀ ∈ k₁ :: keys then 0 else a) + if k₁ ∈ keys then 0 else b := by
  have htotal := total_write_weights f m entries
  have hsum := sum_standing f m keys
  rw [h, survivors_cons, survivors_cons, List.map_cons, standing_keys] at htotal
  by_cases h₀ : k₀ ∈ k₁ :: keys <;> by_cases h₁ : k₁ ∈ keys
  all_goals simp only [h₀, h₁, if_true, if_false, List.map_cons, List.sum_cons] at htotal ⊢
  all_goals omega

end

end

/-! ## Totals by keys

A total is the sum of the weights of all keys, so two tables can be compared key by key, whatever
was written in between. -/

section
variable {m m' : Table K V} {entries : List (K × V)} {k : K} {f : V → Nat}

/-- The total is the sum of the weights, over any keys that include all there are. -/
theorem total_eq_sum {S : Finset K} (h : m.keys ⊆ S) : total f m = ∑ k ∈ S, weight f m k := by
  have hkeys : total f m = ∑ k ∈ m.keys, weight f m k := by
    have hval : m.keys.val = m.entries.map Sigma.fst := rfl
    rw [Finset.sum, hval, Multiset.map_map, total]
    refine congrArg Multiset.sum (Multiset.map_congr rfl fun e he => ?_)
    have hlook : m.lookup e.1 = some e.2 := Finmap.mem_lookup_iff.mpr he
    simp [weight, hlook]
  rw [hkeys]
  refine Finset.sum_subset h fun k _ hk => ?_
  have hnone : m.lookup k = none :=
    Finmap.lookup_eq_none.mpr fun hmem => hk (Finmap.mem_keys.mpr hmem)
  simp [weight, hnone]

/-- One weight is at most the total. -/
theorem weight_le_total : weight f m k ≤ total f m := by
  rw [total_eq_sum (Finset.subset_insert k m.keys),
    ← Finset.add_sum_erase _ _ (Finset.mem_insert_self k m.keys)]
  exact Nat.le_add_right _ _

/-- Totals compare where the weights do. -/
theorem total_mono (h : ∀ k, weight f m' k ≤ weight f m k) : total f m' ≤ total f m := by
  rw [total_eq_sum (Finset.subset_union_right : m'.keys ⊆ m.keys ∪ m'.keys),
    total_eq_sum (Finset.subset_union_left : m.keys ⊆ m.keys ∪ m'.keys)]
  exact Finset.sum_le_sum fun k _ => h k

omit [DecidableEq K] in
/-- What is bounded in proportion is bounded so in total. -/
theorem total_mul_le {g : V → Nat} {a b : Nat} (h : ∀ e ∈ m.entries, f e.2 * a ≤ g e.2 * b) :
    total f m * a ≤ total g m * b := by
  unfold total
  generalize m.entries = es at h ⊢
  induction es using Multiset.induction_on with
  | empty => simp
  | cons e es ih =>
    rw [Multiset.map_cons, Multiset.sum_cons, Multiset.map_cons, Multiset.sum_cons, Nat.add_mul,
      Nat.add_mul]
    exact Nat.add_le_add (h e (Multiset.mem_cons_self e es))
      (ih fun e' he' => h e' (Multiset.mem_cons_of_mem he'))

/-- **Totals by difference.** Where two tables weigh the same off some keys, their totals differ by
    what they weigh at these. -/
theorem total_change {ks : List K} (hks : ks.Nodup)
    (h : ∀ k, k ∉ ks → weight f m' k = weight f m k) :
    total f m' + (ks.map (weight f m)).sum = total f m + (ks.map (weight f m')).sum := by
  have hsum : ∀ n : Table K V, n.keys ⊆ m.keys ∪ m'.keys ∪ ks.toFinset →
      total f n = ∑ k ∈ (m.keys ∪ m'.keys ∪ ks.toFinset) \ ks.toFinset, weight f n k +
        (ks.map (weight f n)).sum := by
    intro n hn
    rw [total_eq_sum hn, ← List.sum_toFinset _ hks]
    exact (Finset.sum_sdiff Finset.subset_union_right).symm
  have hoff : ∑ k ∈ (m.keys ∪ m'.keys ∪ ks.toFinset) \ ks.toFinset, weight f m' k =
      ∑ k ∈ (m.keys ∪ m'.keys ∪ ks.toFinset) \ ks.toFinset, weight f m k := by
    refine Finset.sum_congr rfl fun k hk => h k fun hmem => ?_
    exact (Finset.mem_sdiff.mp hk).2 (List.mem_toFinset.mpr hmem)
  have h₀ := hsum m (Finset.subset_union_left.trans Finset.subset_union_left)
  have h₁ := hsum m' (Finset.subset_union_right.trans Finset.subset_union_left)
  omega

/-- What a write leaves at a key that it names is one of its entries. -/
theorem lookup_write_of_mem (h : k ∈ entries.map Prod.fst) :
    ∃ v, (k, v) ∈ entries ∧ (write m entries).lookup k = some v := by
  rw [← write_survivors]
  obtain ⟨e, he, rfl⟩ := List.mem_map.mp (mem_survivors_keys.mpr h)
  refine ⟨e.2, mem_of_mem_survivors he, ?_⟩
  obtain ⟨pre, post, hsplit⟩ := List.append_of_mem he
  have hnodup := survivors_nodup entries
  rw [hsplit, List.map_append, List.map_cons] at hnodup
  rw [hsplit]
  exact lookup_write_append (List.nodup_cons.mp (List.nodup_append.mp hnodup).2.1).1

end

/-! ## What holds of every entry -/

def Every (P : K → V → Prop) (m : Table K V) : Prop := ∀ k v, m.lookup k = some v → P k v

section
variable {P : K → V → Prop} {m : Table K V} {k : K} {v : V}

theorem every_empty : Every P (∅ : Table K V) := by
  intro k v h
  rw [Finmap.lookup_empty] at h
  cases h

theorem Every.insert (h : Every P m) (hv : P k v) : Every P (m.insert k v) := by
  intro k' v' hv'
  by_cases hk : k' = k
  · subst hk
    rw [Finmap.lookup_insert, Option.some.injEq] at hv'
    exact hv' ▸ hv
  · rw [Finmap.lookup_insert_of_ne _ hk] at hv'
    exact h k' v' hv'

theorem Every.erase (h : Every P m) : Every P (Finmap.erase k m) := by
  intro k' v' hv'
  by_cases hk : k' = k
  · rw [hk, Finmap.lookup_erase] at hv'
    cases hv'
  · rw [Finmap.lookup_erase_ne hk] at hv'
    exact h k' v' hv'

theorem keys_insert (m : Table K V) (k : K) (v : V) : (m.insert k v).keys = insert k m.keys := by
  ext k'
  rw [Finmap.mem_keys, Finmap.mem_insert, Finset.mem_insert, Finmap.mem_keys]

end

end Table

end Lib
end Himsha
