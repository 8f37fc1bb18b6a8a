import Himsha.Proof.TokenSlots

/-!
# What is read from the account table

Of an account a program sees the owner and the data, and it takes the account for what these decode
to. A `Reading` is whatever depends on the two alone. Storing the result of an instruction changes
a reading only at the keys of slots that the program left reading differently (`ReadsAs.cases`),
and where such a key is listed once, it changes to what the slot holds (`readAt_written`) and its
total by the difference (`total_first`, `total_pair`).
-/

set_option autoImplicit false

namespace Himsha
namespace Proof

open Himsha.Lib Himsha.Runtime Himsha.Programs Himsha.Vm Himsha.Node

/-- It looks at the owner and the data, and finds `z` where there are no data. -/
structure Reading {α : Type} (z : α) (f : StoredAccount → α) : Prop where
  congr : ∀ {s s' : StoredAccount}, s.owner = s'.owner → s.data = s'.data → f s = f s'
  nil : ∀ {s : StoredAccount}, s.data = [] → f s = z

/-- What is found at a key. -/
def readAt {α : Type} (z : α) (f : StoredAccount → α) (t : Accounts) (k : Pubkey) : α :=
  ((t.lookup k).map f).getD z

/-- The value in a record that `programId` owns. -/
def decoded (α : Type) [Borsh α] (programId : Pubkey) (s : StoredAccount) : Option α :=
  if s.owner = programId then tryFromSlice s.data else none

/-- The account in slot `i` is in no other slot. -/
def ListedOnce (accounts : List AccountInfo) (i : Nat) : Prop :=
  ∀ a ∈ accounts[i]?, (accounts.map (·.key)).count a.key = 1

instance (accounts : List AccountInfo) (i : Nat) : Decidable (ListedOnce accounts i) :=
  inferInstanceAs (Decidable (∀ a ∈ accounts[i]?, (accounts.map (·.key)).count a.key = 1))

/-- The account `key` signed. -/
def SignedBy (accounts : List AccountInfo) (key : Pubkey) : Prop :=
  ∃ s ∈ accounts, s.isSigner = true ∧ s.key = key

instance (accounts : List AccountInfo) (key : Pubkey) : Decidable (SignedBy accounts key) :=
  inferInstanceAs (Decidable (∃ s ∈ accounts, s.isSigner = true ∧ s.key = key))

/-- Off the slots `ws` a result reads like what was given. -/
structure ReadsAs {α : Type} (f : StoredAccount → α) (ws : List Nat)
    (accounts out : List AccountInfo) : Prop where
  keys : out.map (·.key) = accounts.map (·.key)
  off : ∀ i a o, i ∉ ws → accounts[i]? = some a → out[i]? = some o →
    f o.toStored = f a.toStored

section
variable {α : Type} {z : α} {f : StoredAccount → α} {programId : Pubkey}

theorem decoded_reading [Borsh α] (hnil : tryFromSlice (α := α) [] = none) :
    Reading none (decoded α programId) where
  congr := by
    intro s s' howner hdata
    unfold decoded
    rw [howner, hdata]
  nil := by
    intro s hdata
    unfold decoded
    rw [hdata, hnil]
    split <;> rfl

/-- What is made of a reading. -/
theorem Reading.map {β : Type} {g : α → β} (hf : Reading z f) :
    Reading (g z) fun s => g (f s) where
  congr howner hdata := congrArg g (hf.congr howner hdata)
  nil hdata := congrArg g (hf.nil hdata)

theorem decoded_eq_some [Borsh α] {s : StoredAccount} {v : α} :
    decoded α programId s = some v ↔ s.owner = programId ∧ tryFromSlice s.data = some v := by
  unfold decoded
  split
  · rename_i howner
    exact ⟨fun h => ⟨howner, h⟩, fun h => h.2⟩
  · rename_i howner
    exact ⟨fun h => absurd h (by simp), fun h => absurd h.1 howner⟩

end

/-! ## Slots -/

section
variable {accounts out : List AccountInfo} {i j : Nat} {a b : AccountInfo}

theorem ListedOnce.unique (h : ListedOnce accounts i) (ha : accounts[i]? = some a)
    (hb : accounts[j]? = some b) (hkey : b.key = a.key) : j = i := by
  have hcount := h a ha
  have hslot : ∀ (n : Nat) (c : AccountInfo), accounts[n]? = some c → c.key = a.key →
      ∃ m : Fin (accounts.map (·.key)).length, m.val = n ∧ a.key = (accounts.map (·.key)).get m := by
    intro n c hc hk
    obtain ⟨hlt, hget⟩ := List.getElem?_eq_some_iff.mp hc
    refine ⟨⟨n, by simpa using hlt⟩, rfl, ?_⟩
    simp [hget, hk]
  obtain ⟨m, hm, hget⟩ := hslot i a ha rfl
  obtain ⟨n, hn, hget'⟩ := hslot j b hb hkey
  by_contra hne
  have hdup : List.Duplicate a.key (accounts.map (·.key)) := by
    rw [List.duplicate_iff_exists_distinct_get]
    rcases Nat.lt_or_gt_of_ne hne with hlt | hlt
    · exact ⟨n, m, by rw [Fin.lt_def]; omega, hget', hget⟩
    · exact ⟨m, n, by rw [Fin.lt_def]; omega, hget, hget'⟩
  have htwo := List.duplicate_iff_two_le_count.mp hdup
  omega

/-- Two writable slots are two accounts. -/
theorem keys_ne {a b : AccountInfo} {rest : List AccountInfo}
    (hdup : rejectDuplicateWritable (a :: b :: rest) = .ok ())
    (hwritable : a.isWritable = true ∧ b.isWritable = true) : a.key ≠ b.key :=
  (List.pairwise_cons.mp (rejectDuplicateWritable_eq_ok.mp hdup)).1 b List.mem_cons_self
    hwritable.1 hwritable.2

theorem writable_keys_ne (hdup : rejectDuplicateWritable accounts = .ok ()) (hij : i ≠ j)
    (ha : accounts[i]? = some a) (hb : accounts[j]? = some b)
    (hwritable : a.isWritable = true ∧ b.isWritable = true) : a.key ≠ b.key := by
  obtain ⟨hi, rfl⟩ := List.getElem?_eq_some_iff.mp ha
  obtain ⟨hj, rfl⟩ := List.getElem?_eq_some_iff.mp hb
  have hpairs := List.pairwise_iff_getElem.mp (rejectDuplicateWritable_eq_ok.mp hdup)
  rcases Nat.lt_or_gt_of_ne hij with hlt | hlt
  · exact hpairs i j hi hj hlt hwritable.1 hwritable.2
  · exact (hpairs j i hj hi hlt hwritable.2 hwritable.1).symm

/-- A result has the accounts it was given in the same slots. -/
theorem slot_of_keys (h : out.map (·.key) = accounts.map (·.key)) {o : AccountInfo}
    (ho : out[i]? = some o) : ∃ a, accounts[i]? = some a ∧ a.key = o.key := by
  have hi := congrArg (·[i]?) h
  simp only [List.getElem?_map, ho, Option.map_some] at hi
  exact Option.map_eq_some_iff.mp hi.symm

end

section
variable {α : Type} {z : α} {f : StoredAccount → α} {t : Accounts} {instr : Instruction}
  {ws : List Nat} {out : List AccountInfo} {i : Nat} {a b o o' : AccountInfo}
  {rest rest' : List AccountInfo}

/-- A slot reads like the table. -/
theorem Reading.slot (hf : Reading z f) (ha : (accountsOf t instr)[i]? = some a) :
    f a.toStored = readAt z f t a.key := by
  unfold accountsOf at ha
  rw [List.getElem?_map] at ha
  obtain ⟨am, -, rfl⟩ := Option.map_eq_some_iff.mp ha
  rw [accountAt_key]
  unfold accountAt readAt
  cases t.lookup am.pubkey with
  | some stored => exact hf.congr rfl rfl
  | none => exact hf.nil rfl

/-- **Where a reading changes.** -/
theorem ReadsAs.cases (hf : Reading z f) (h : ReadsAs f ws (accountsOf t instr) out)
    (k : Pubkey) : readAt z f (t.write (entries out)) k = readAt z f t k ∨
      ∃ i ∈ ws, ∃ o, out[i]? = some o ∧ o.key = k ∧
        readAt z f (t.write (entries out)) k = f o.toStored := by
  by_cases hk : k ∈ (entries out).map Prod.fst
  · obtain ⟨v, hv, hlook⟩ := Table.lookup_write_of_mem (m := t) hk
    obtain ⟨o, ho, heq⟩ := List.mem_map.mp hv
    obtain ⟨rfl, rfl⟩ := Prod.mk.inj heq
    obtain ⟨i, hi⟩ := List.mem_iff_getElem?.mp ho
    have hnow : readAt z f (t.write (entries out)) o.key = f o.toStored := by
      simp only [readAt, hlook, Option.map_some, Option.getD_some]
    by_cases hmem : i ∈ ws
    · exact .inr ⟨i, hmem, o, hi, rfl, hnow⟩
    · -- The slot was left alone, so it still reads like the table.
      obtain ⟨a, ha, hkey⟩ := slot_of_keys h.keys hi
      left
      rw [hnow, h.off i a o hmem ha hi, hf.slot ha, hkey]
  · left
    unfold readAt
    rw [Table.lookup_write_of_notMem hk]

theorem ReadsAs.other (hf : Reading z f) (h : ReadsAs f ws (accountsOf t instr) out)
    {k : Pubkey} (hk : ∀ i ∈ ws, ∀ a, (accountsOf t instr)[i]? = some a → a.key ≠ k) :
    readAt z f (t.write (entries out)) k = readAt z f t k := by
  rcases h.cases hf k with hsame | ⟨i, hi, o, ho, hkey, -⟩
  · exact hsame
  · obtain ⟨a, ha, hak⟩ := slot_of_keys h.keys ho
    exact absurd (hak.trans hkey) (hk i hi a ha)

/-- What every slot does to a reading, every key of the table does. -/
theorem readAt_relates (hf : Reading z f) {R : Pubkey → α → α → Prop} (hrefl : ∀ k x, R k x x)
    (hkeys : out.map (·.key) = (accountsOf t instr).map (·.key))
    (hslots : ∀ (i : Nat) (a o : AccountInfo), (accountsOf t instr)[i]? = some a →
      out[i]? = some o →
      R a.key (f a.toStored) (f o.toStored)) (k : Pubkey) :
    R k (readAt z f t k) (readAt z f (t.write (entries out)) k) := by
  by_cases hk : k ∈ (entries out).map Prod.fst
  · obtain ⟨v, hv, hlook⟩ := Table.lookup_write_of_mem (m := t) hk
    obtain ⟨o, ho, heq⟩ := List.mem_map.mp hv
    obtain ⟨rfl, rfl⟩ := Prod.mk.inj heq
    obtain ⟨i, hi⟩ := List.mem_iff_getElem?.mp ho
    obtain ⟨a, ha, hkey⟩ := slot_of_keys hkeys hi
    have hnow : readAt z f (t.write (entries out)) o.key = f o.toStored := by
      simp only [readAt, hlook, Option.map_some, Option.getD_some]
    rw [hnow, ← hkey, ← hf.slot ha]
    exact hslots i a o ha hi
  · have hsame : readAt z f (t.write (entries out)) k = readAt z f t k := by
      unfold readAt
      rw [Table.lookup_write_of_notMem hk]
    rw [hsame]
    exact hrefl k _

/-- What is found at a key that is listed once. -/
theorem readAt_written (hkeys : out.map (·.key) = (accountsOf t instr).map (·.key))
    (honce : ListedOnce (accountsOf t instr) i) (ho : out[i]? = some o) :
    readAt z f (t.write (entries out)) o.key = f o.toStored := by
  obtain ⟨a, ha, hkey⟩ := slot_of_keys hkeys ho
  have hlook : (t.write (entries out)).lookup o.key = some o.toStored := by
    refine Table.lookup_write_of_last (i := i) (by simp [entries, ho]) fun j hj hname => ?_
    simp only [entries, List.getElem?_map, Option.map_map] at hname
    obtain ⟨o', ho', hkey'⟩ := Option.map_eq_some_iff.mp hname
    obtain ⟨b, hb, hbkey⟩ := slot_of_keys hkeys ho'
    have heq := honce.unique ha hb (hbkey.trans ((show o'.key = o.key from hkey').trans hkey.symm))
    omega
  simp only [readAt, hlook, Option.map_some, Option.getD_some]

end

/-! ## Slots that the gate let through -/

section
variable {α : Type} {programId : Pubkey} {known : Prop} {a o : AccountInfo}

/-- A slot whose data the program left alone reads as it did. -/
theorem Reading.left {z : α} {f : StoredAccount → α} (hf : Reading z f) {post : AccountInfo}
    (h : Passed programId known a post o) (hdata : post.data = a.data) :
    f o.toStored = f a.toStored := by
  have hsame : o.data = a.data := h.data.trans hdata
  rcases h.owner with howner | ⟨hnil, -⟩
  · exact hf.congr howner hsame
  · rw [hf.nil (s := o.toStored) (hsame.trans hnil), hf.nil (s := a.toStored) hnil]

/-- A slot that was rewritten with what it held was left alone. -/
theorem data_eq_of_same [Borsh α] [Canonical α] {v : α} {data data' : List UInt8}
    (h : tryFromSlice data = some v) (h' : toVec v = some data') : data' = data := by
  have hvec := toVec_tryFromSlice h
  rw [h'] at hvec
  exact Option.some.inj hvec

/-- What was written is what comes through. -/
theorem Passed.written [Borsh α] {v : α} {data : List UInt8}
    (h : Passed programId known a { a with data } o) (hv : toVec v = some data) :
    tryFromSlice o.data = some v := by
  rw [h.data]
  exact tryFromSlice_toVec hv

/-- A slot that did not hold `v'` before and does now is the program's. -/
theorem Passed.filled [Borsh α] {v' : α} {data : List UInt8}
    (h : Passed programId known a { a with data } o) (hknown : ¬ known)
    (hv' : toVec v' = some data) (hne : tryFromSlice a.data ≠ some v') :
    (a.owner = programId ∨ a.data = []) ∧ o.owner = programId ∧
      tryFromSlice o.data = some v' := by
  have hdec : tryFromSlice o.data = some v' := h.written hv'
  rcases h.allowed with hdata | howner | ⟨heq, ho⟩ | hk
  · have hdata' : data = a.data := hdata
    exact absurd (hdata' ▸ tryFromSlice_toVec hv') hne
  · rcases h.owner with ho | ⟨-, ho⟩
    · exact ⟨.inl howner, ho.trans howner, hdec⟩
    · exact ⟨.inl howner, ho, hdec⟩
  · exact ⟨.inr heq, ho, hdec⟩
  · exact absurd hk hknown

/-- A slot that held something and was rewritten with something else was the program's already. -/
theorem Passed.changed [Borsh α] {v v' : α} {data : List UInt8}
    (hnil : tryFromSlice (α := α) [] = none)
    (h : Passed programId known a { a with data } o) (hknown : ¬ known)
    (hv : tryFromSlice a.data = some v) (hv' : toVec v' = some data) (hne : v' ≠ v) :
    a.owner = programId ∧ o.owner = programId ∧
      tryFromSlice o.data = some v' := by
  have hother : tryFromSlice a.data ≠ some v' := by
    rw [hv]
    exact fun heq => hne (Option.some.inj heq).symm
  obtain ⟨howner | hempty, hrest⟩ := h.filled hknown hv' hother
  · exact ⟨howner, hrest⟩
  · rw [hempty, hnil] at hv
    simp at hv

end

section
variable {α : Type} {z : α} {f : StoredAccount → α} {a b o o' : AccountInfo}
  {rest : List AccountInfo}

/-- A program that writes its first two slots. -/
theorem ReadsAs.pair (hkey : o.key = a.key) (hkey' : o'.key = b.key) :
    ReadsAs f [0, 1] (a :: b :: rest) (o :: o' :: rest) := by
  refine ⟨by simp [hkey, hkey'], fun i x y hi hx hy => ?_⟩
  match i with
  | 0 => simp at hi
  | 1 => simp at hi
  | i + 2 =>
    rw [List.getElem?_cons_succ, List.getElem?_cons_succ] at hx hy
    rw [hx, Option.some.injEq] at hy
    rw [hy]

/-- The second of them reads as it did. -/
theorem ReadsAs.first (hkey : o.key = a.key) (hkey' : o'.key = b.key)
    (hsame : f o'.toStored = f b.toStored) :
    ReadsAs f [0] (a :: b :: rest) (o :: o' :: rest) := by
  refine ⟨by simp [hkey, hkey'], fun i x y hi hx hy => ?_⟩
  match i with
  | 0 => simp at hi
  | 1 =>
    cases hx
    cases hy
    exact hsame
  | i + 2 =>
    rw [List.getElem?_cons_succ, List.getElem?_cons_succ] at hx hy
    rw [hx, Option.some.injEq] at hy
    rw [hy]

end

/-! ## Totals -/

section
variable {f : StoredAccount → Nat} {t : Accounts} {instr : Instruction} {a b o o' : AccountInfo}
  {rest rest' : List AccountInfo}

theorem total_first (hf : Reading 0 f) (hacc : accountsOf t instr = a :: rest)
    (h : ReadsAs f [0] (a :: rest) (o :: rest')) (honce : ListedOnce (a :: rest) 0) :
    Table.total f (t.write (entries (o :: rest'))) + f a.toStored =
      Table.total f t + f o.toStored := by
  have hkey : o.key = a.key := (List.cons.inj h.keys).1
  have hbefore : readAt 0 f t a.key = f a.toStored := (hf.slot (i := 0) (by rw [hacc]; rfl)).symm
  rw [← hacc] at h honce
  have hafter : readAt 0 f (t.write (entries (o :: rest'))) a.key = f o.toStored := by
    rw [← hkey]
    exact readAt_written h.keys honce rfl
  have hchange : Table.total f (t.write (entries (o :: rest'))) +
        ([a.key].map (Table.weight f t)).sum =
      Table.total f t + ([a.key].map (Table.weight f (t.write (entries (o :: rest'))))).sum :=
    Table.total_change (List.nodup_singleton a.key) fun k hk => h.other hf fun i hi c hc => ?_
  · simp only [List.map_cons, List.map_nil, List.sum_cons, List.sum_nil, Nat.add_zero] at hchange
    rw [← hbefore, ← hafter]
    exact hchange
  · obtain rfl := List.mem_singleton.mp hi
    rw [hacc] at hc
    cases hc
    exact fun heq => hk (List.mem_singleton.mpr heq.symm)

theorem total_pair (hf : Reading 0 f) (hacc : accountsOf t instr = a :: b :: rest)
    (h : ReadsAs f [0, 1] (a :: b :: rest) (o :: o' :: rest'))
    (honce : ListedOnce (a :: b :: rest) 0) (honce' : ListedOnce (a :: b :: rest) 1) :
    Table.total f (t.write (entries (o :: o' :: rest'))) + f a.toStored + f b.toStored =
      Table.total f t + f o.toStored + f o'.toStored := by
  have hkeys := List.cons.inj h.keys
  have hkey : o.key = a.key := hkeys.1
  have hkey' : o'.key = b.key := (List.cons.inj hkeys.2).1
  have hne : a.key ≠ b.key := by
    intro heq
    have hzero : 0 = 1 := honce'.unique (a := b) (b := a) rfl rfl heq
    omega
  have hbefore : readAt 0 f t a.key = f a.toStored := (hf.slot (i := 0) (by rw [hacc]; rfl)).symm
  have hbefore' : readAt 0 f t b.key = f b.toStored :=
    (hf.slot (i := 1) (by rw [hacc]; rfl)).symm
  rw [← hacc] at h honce honce'
  have hafter : readAt 0 f (t.write (entries (o :: o' :: rest'))) a.key = f o.toStored := by
    rw [← hkey]
    exact readAt_written h.keys honce rfl
  have hafter' : readAt 0 f (t.write (entries (o :: o' :: rest'))) b.key = f o'.toStored := by
    rw [← hkey']
    exact readAt_written h.keys honce' rfl
  have hchange : Table.total f (t.write (entries (o :: o' :: rest'))) +
        ([a.key, b.key].map (Table.weight f t)).sum =
      Table.total f t +
        ([a.key, b.key].map (Table.weight f (t.write (entries (o :: o' :: rest'))))).sum :=
    Table.total_change (by simp [hne]) fun k hk => h.other hf fun i hi c hc => ?_
  · simp only [List.map_cons, List.map_nil, List.sum_cons, List.sum_nil, Nat.add_zero] at hchange
    rw [← hbefore, ← hbefore', ← hafter, ← hafter']
    simp only [readAt, Table.weight] at hchange ⊢
    omega
  · rw [hacc] at hc
    simp only [List.mem_cons, List.not_mem_nil, or_false, not_or] at hi hk
    rcases hi with rfl | rfl
    · cases hc
      exact fun heq => hk.1 heq.symm
    · cases hc
      exact fun heq => hk.2 heq.symm

end

/-! ## Programs that write two slots -/

/-- The first two slots, as they were given, as the program left them and as they came through the
    gate. -/
structure Slots (programId : Pubkey) (t : Accounts) (instr : Instruction)
    (a a' o b b' o' : AccountInfo) (rest : List AccountInfo) : Prop where
  listed : accountsOf t instr = a :: b :: rest
  key : a'.key = a.key
  key' : b'.key = b.key
  first : Passed programId False a a' o
  second : Passed programId (b'.key = a'.key) b b' o'

theorem total_same {f : StoredAccount → Nat} {t t' : Accounts}
    (h : ∀ k, readAt 0 f t' k = readAt 0 f t k) : Table.total f t' = Table.total f t := by
  have hchange : Table.total f t' + (([] : List Pubkey).map (Table.weight f t)).sum =
      Table.total f t + (([] : List Pubkey).map (Table.weight f t')).sum :=
    Table.total_change List.nodup_nil fun k _ => h k
  simpa using hchange

section
variable {α : Type} {z : α} {f : StoredAccount → α} {programId : Pubkey} {t : Accounts}
  {instr : Instruction} {a b o o' a' b' : AccountInfo} {rest : List AccountInfo}

theorem Slots.reads (h : Slots programId t instr a a' o b b' o' rest) :
    ReadsAs f [0, 1] (accountsOf t instr) (o :: o' :: rest) := by
  rw [h.listed]
  exact .pair (h.first.key.trans h.key) (h.second.key.trans h.key')

theorem Slots.ne (h : Slots programId t instr a a' o b b' o' rest)
    (honce : ListedOnce (accountsOf t instr) 0) : ¬ b'.key = a'.key := by
  rw [h.listed] at honce
  rw [h.key, h.key']
  intro heq
  have hone : 1 = 0 := honce.unique (a := a) (b := b) rfl rfl heq
  omega

theorem Slots.slot (h : Slots programId t instr a a' o b b' o' rest) (hf : Reading z f) :
    f a.toStored = readAt z f t a.key ∧ f b.toStored = readAt z f t b.key :=
  ⟨hf.slot (i := 0) (by rw [h.listed]; rfl), hf.slot (i := 1) (by rw [h.listed]; rfl)⟩

/-- What is found at a key is what it was, or what was written to one of the slots. -/
theorem Slots.readAt_cases (h : Slots programId t instr a a' o b b' o' rest) (hf : Reading z f)
    (k : Pubkey) :
    readAt z f (t.write (entries (o :: o' :: rest))) k = readAt z f t k ∨
      (k = a.key ∧ readAt z f (t.write (entries (o :: o' :: rest))) k = f o.toStored) ∨
      (k = b.key ∧ readAt z f (t.write (entries (o :: o' :: rest))) k = f o'.toStored) := by
  rcases h.reads.cases hf k with hsame | ⟨i, hi, c, hc, hkey, hnow⟩
  · exact .inl hsame
  · simp only [List.mem_cons, List.not_mem_nil, or_false] at hi
    rcases hi with rfl | rfl
    · cases hc
      exact .inr (.inl ⟨hkey.symm.trans (h.first.key.trans h.key), hnow⟩)
    · cases hc
      exact .inr (.inr ⟨hkey.symm.trans (h.second.key.trans h.key'), hnow⟩)

/-- Where the slots read as they did, so does the table. -/
theorem Slots.readAt_same (h : Slots programId t instr a a' o b b' o' rest) (hf : Reading z f)
    (hfirst : f o.toStored = f a.toStored) (hsecond : f o'.toStored = f b.toStored)
    (k : Pubkey) :
    readAt z f (t.write (entries (o :: o' :: rest))) k = readAt z f t k := by
  obtain ⟨ha, hb⟩ := h.slot hf
  rcases h.readAt_cases hf k with hsame | ⟨rfl, hnow⟩ | ⟨rfl, hnow⟩
  · exact hsame
  · rw [hnow, hfirst, ha]
  · rw [hnow, hsecond, hb]

theorem Slots.readAt_first (h : Slots programId t instr a a' o b b' o' rest)
    (honce : ListedOnce (accountsOf t instr) 0) :
    readAt z f (t.write (entries (o :: o' :: rest))) a.key = f o.toStored := by
  have hwritten := readAt_written (z := z) (f := f) (h.reads (f := f)).keys honce
    (o := o) rfl
  rw [h.first.key, h.key] at hwritten
  exact hwritten

theorem Slots.total {f : StoredAccount → Nat} (hf : Reading 0 f)
    (h : Slots programId t instr a a' o b b' o' rest)
    (honce : ListedOnce (accountsOf t instr) 0) (honce' : ListedOnce (accountsOf t instr) 1) :
    Table.total f (t.write (entries (o :: o' :: rest))) + f a.toStored + f b.toStored =
      Table.total f t + f o.toStored + f o'.toStored := by
  have hreads := h.reads (f := f)
  rw [h.listed] at honce honce' hreads
  exact total_pair hf h.listed hreads honce honce'

/-- The same for a program that left the second slot alone. -/
theorem Slots.total_alone {f : StoredAccount → Nat} (hf : Reading 0 f)
    (h : Slots programId t instr a a' o b b' o' rest)
    (honce : ListedOnce (accountsOf t instr) 0) (hsame : f o'.toStored = f b.toStored) :
    Table.total f (t.write (entries (o :: o' :: rest))) + f a.toStored =
      Table.total f t + f o.toStored := by
  have hreads : ReadsAs f [0] (a :: b :: rest) (o :: o' :: rest) :=
    ReadsAs.first (h.first.key.trans h.key) (h.second.key.trans h.key') hsame
  rw [h.listed] at honce
  exact total_first hf h.listed hreads honce

end

end Proof
end Himsha
