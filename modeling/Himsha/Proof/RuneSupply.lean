import Himsha.Proof.RuneSlots

/-!
# What is held of a rune

For an etched rune, what was minted and not burned is what the balances of the rune hold. Each
instruction that succeeds moves the two by the same amount, provided that its slots are what it
takes them for. `RuneCare` says, instruction by instruction, what that means: no handler compares a
balance that it writes with the rune, an etching does not look at what it overwrites, and a slot
that is listed again is written back as it was.
-/

set_option autoImplicit false

namespace Himsha
namespace Proof

open Himsha.Lib Himsha.Runtime Himsha.Programs Himsha.Vm Himsha.Node Runes

/-! ## Readings -/

/-- What a record holds of the rune `r`. -/
def heldOf (r : Pubkey) (s : StoredAccount) : Nat :=
  ((decoded RuneBalance ProgramIds.runesProgram s).map fun y =>
    if y.isInitialized = true ∧ y.rune = r then y.amount.toNat else 0).getD 0

/-- The record of a rune that was etched. -/
def etchedIn (s : StoredAccount) : Option RuneEtching :=
  (decoded RuneEtching ProgramIds.runesProgram s).filter (·.isEtched)

/-- A balance that is not initialised has nothing in it. -/
def IdleBalance (s : StoredAccount) : Prop :=
  ∀ y ∈ decoded RuneBalance ProgramIds.runesProgram s, y.isInitialized = false →
    y.amount = 0 ∧ ¬ Ambiguous y.rune

/-- The cap on what is minted. -/
def Capped (x : RuneEtching) : Prop :=
  ∀ terms ∈ x.terms, terms.cap ≠ 0 →
    x.minted.toNat ≤ x.premine.toNat + terms.cap.toNat * terms.amount.toNat

/-- What was minted was counted, and the count stops at the cap. A rune can be etched with a count
    beyond it, and then nothing is minted. -/
def Counted (x : RuneEtching) : Prop :=
  ∀ terms ∈ x.terms, terms.cap ≠ 0 → x.minted = x.premine ∨ terms.mints ≤ terms.cap ∧
    x.minted.toNat ≤ x.premine.toNat + terms.mints.toNat * terms.amount.toNat

/-- **The supply of runes**: for every etched rune, what was minted and not burned is what is held
    of it, within the cap. -/
def RunesBacked (t : Accounts) : Prop :=
  ∀ (r : Pubkey) s (x : RuneEtching), t.lookup r = some s → s.owner = ProgramIds.runesProgram →
    tryFromSlice s.data = some x → x.isEtched = true →
    x.minted.toNat = x.burned.toNat + Table.total (heldOf r) t ∧ Capped x

section
variable {s : StoredAccount} {x : RuneEtching} {y : RuneBalance} {r : Pubkey}

theorem balance_nil : tryFromSlice (α := RuneBalance) [] = none := rfl

theorem etching_nil : tryFromSlice (α := RuneEtching) [] = none := rfl

theorem heldOf_reading (r : Pubkey) : Reading 0 (heldOf r) :=
  (decoded_reading balance_nil).map (g := fun o => (o.map fun y =>
    if y.isInitialized = true ∧ y.rune = r then y.amount.toNat else 0).getD 0)

theorem etchedIn_reading : Reading none etchedIn :=
  (decoded_reading etching_nil).map (g := fun o => o.filter (·.isEtched))

theorem idle_reading : Reading True IdleBalance where
  congr := by
    intro s s' howner hdata
    unfold IdleBalance
    rw [(decoded_reading balance_nil).congr howner hdata]
  nil := by
    intro s hdata
    refine eq_true fun y hy => ?_
    rw [(decoded_reading balance_nil).nil hdata] at hy
    simp at hy

theorem Counted.capped (h : Counted x) : Capped x := by
  intro terms hterms hcap
  rcases h terms hterms hcap with hnone | ⟨hmints, hminted⟩
  · rw [hnone]
    exact Nat.le_add_right _ _
  · have hle := Nat.mul_le_mul_right terms.amount.toNat (UInt64.le_iff_toNat_le.mp hmints)
    omega

theorem etchedIn_eq_some : etchedIn s = some x ↔ s.owner = ProgramIds.runesProgram ∧
    tryFromSlice s.data = some x ∧ x.isEtched = true := by
  unfold etchedIn
  rw [Option.filter_eq_some_iff, decoded_eq_some, and_assoc]

theorem heldOf_balance (howner : s.owner = ProgramIds.runesProgram)
    (h : tryFromSlice s.data = some y) :
    heldOf r s = if y.isInitialized = true ∧ y.rune = r then y.amount.toNat else 0 := by
  unfold heldOf
  rw [decoded_eq_some.mpr ⟨howner, h⟩]
  rfl

theorem heldOf_eq_zero (h : ∀ y : RuneBalance, s.owner = ProgramIds.runesProgram →
    tryFromSlice s.data = some y → y.isInitialized = true → y.rune = r → y.amount = 0) :
    heldOf r s = 0 := by
  unfold heldOf
  cases hdec : decoded RuneBalance ProgramIds.runesProgram s with
  | none => rfl
  | some y =>
    obtain ⟨howner, hy⟩ := decoded_eq_some.mp hdec
    simp only [Option.map_some, Option.getD_some]
    split
    · rename_i hboth
      rw [h y howner hy hboth.1 hboth.2]
      rfl
    · rfl

/-- The record of a rune holds nothing of a rune that cannot be mistaken. -/
theorem heldOf_etching (h : tryFromSlice s.data = some x) (hr : ¬ Ambiguous r) :
    heldOf r s = 0 :=
  heldOf_eq_zero fun _ _ hy _ hrune => absurd (hrune ▸ rune_ambiguous h hy) hr

theorem etchedIn_balance (h : tryFromSlice s.data = some y) (hy : ¬ Ambiguous y.rune) :
    etchedIn s = none := by
  cases hx : etchedIn s with
  | none => rfl
  | some x => exact absurd (rune_ambiguous (etchedIn_eq_some.mp hx).2.1 h) hy

theorem idle_balance (h : tryFromSlice s.data = some y) (hinit : y.isInitialized = true) :
    IdleBalance s := by
  intro y' hy' hfresh
  have hdec := (decoded_eq_some.mp hy').2
  rw [h, Option.some.injEq] at hdec
  rw [← hdec, hinit] at hfresh
  simp at hfresh

/-- A record of both kinds is in use as the one where it is as the other. -/
theorem idle_etching (h : tryFromSlice s.data = some x) (hetched : x.isEtched = true) :
    IdleBalance s := by
  intro y hy hfresh
  obtain ⟨-, hy'⟩ := decoded_eq_some.mp hy
  have hx := toVec_tryFromSlice h
  obtain ⟨hname, hterms⟩ := name_six hx (toVec_tryFromSlice hy')
  obtain ⟨z, hz, -, -, hinit⟩ := etching_reads hx hname hterms
  rw [hy', Option.some.injEq] at hz
  rw [hz, hinit, hetched] at hfresh
  simp at hfresh

end

/-! ## What the slots hold -/

section
variable {known : Prop} {a o : AccountInfo} {y y' : RuneBalance} {d : List UInt8} {n : UInt64}
  {r : Pubkey}

/-- What was put into a balance is held of its rune, unless the balance was of another. -/
theorem heldOf_credit (h : Passed ProgramIds.runesProgram known a { a with data := d } o)
    (hknown : ¬ known) (hidle : IdleBalance a.toStored) (hd : toVec y' = some d)
    (hinit : y'.isInitialized = true)
    (hamount : y'.amount.toNat = (balanceIn a).amount.toNat + n.toNat)
    (hrune : ∀ y : RuneBalance, tryFromSlice a.data = some y → y.isInitialized = true →
      y.amount = 0 ∨ y.rune = y'.rune) :
    heldOf r o.toStored = heldOf r a.toStored + if y'.rune = r then n.toNat else 0 := by
  by_cases hsame : tryFromSlice a.data = some y'
  · -- Nothing came in, and the slot is as it was.
    have hzero : n.toNat = 0 := by
      rw [balanceIn, hsame, Option.getD_some] at hamount
      omega
    have hdata : d = a.data := data_eq_of_same hsame hd
    rw [(heldOf_reading r).left h hdata, hzero]
    simp
  · obtain ⟨hown, hown', hdec⟩ := h.filled hknown hd hsame
    rw [heldOf_balance (s := o.toStored) hown' hdec, hamount]
    have hbefore : heldOf r a.toStored =
        if y'.rune = r then (balanceIn a).amount.toNat else 0 := by
      cases hy : (tryFromSlice a.data : Option RuneBalance) with
      | none =>
        rw [heldOf_eq_zero (s := a.toStored) fun y _ hy' => absurd (hy.symm.trans hy') (by simp),
          balanceIn, hy]
        simp
      | some y =>
        have howner : a.owner = ProgramIds.runesProgram := hown.resolve_right fun hnil => by
          rw [hnil, balance_nil] at hy
          simp at hy
        rw [heldOf_balance (s := a.toStored) howner hy, balanceIn, hy, Option.getD_some]
        cases hready : y.isInitialized with
        | false =>
          have hempty := (hidle y (decoded_eq_some.mpr ⟨howner, hy⟩) hready).1
          simp [hempty]
        | true =>
          rcases hrune y hy hready with hempty | hsame'
          · simp [hempty]
          · simp [hsame']
    rw [hbefore]
    by_cases hr : y'.rune = r
    · simp [hr, hinit]
    · simp [hr]

/-- What was taken out of one is no longer held. -/
theorem heldOf_debit {left : UInt64}
    (h : Passed ProgramIds.runesProgram known a { a with data := d } o) (hknown : ¬ known)
    (hy : tryFromSlice a.data = some y) (hinit : y.isInitialized = true)
    (hd : toVec ({ y with amount := left } : RuneBalance) = some d)
    (hleft : left.toNat + n.toNat = y.amount.toNat) :
    heldOf r o.toStored + (if y.rune = r then n.toNat else 0) = heldOf r a.toStored := by
  by_cases hsame : left = y.amount
  · have hzero : n.toNat = 0 := by
      rw [hsame] at hleft
      omega
    have hdata : d = a.data := data_eq_of_same hy (by rw [hsame] at hd; exact hd)
    rw [(heldOf_reading r).left h hdata, hzero]
    simp
  · have hne : ({ y with amount := left } : RuneBalance) ≠ y := fun heq =>
      hsame (congrArg RuneBalance.amount heq)
    obtain ⟨hown, hown', hdec⟩ := h.changed balance_nil hknown hy hd hne
    rw [heldOf_balance (s := o.toStored) hown' hdec, heldOf_balance (s := a.toStored) hown hy]
    by_cases hr : y.rune = r
    · simp [hr, hinit, hleft]
    · simp [hr]

end

/-! ## The invariant -/

/-- The supply of every etched rune is held, and nothing is mistaken for something else. -/
structure RunesSound (t : Accounts) : Prop where
  idle : ∀ k, readAt True IdleBalance t k
  etched : ∀ r x, readAt none etchedIn t r = some x →
    ¬ Ambiguous r ∧ Counted x ∧ x.minted.toNat = x.burned.toNat + Table.total (heldOf r) t

theorem RunesSound.backed {t : Accounts} (h : RunesSound t) : RunesBacked t := by
  intro r s x hlook howner hx hetched
  have hread : readAt none etchedIn t r = some x := by
    simp only [readAt, hlook, Option.map_some, Option.getD_some]
    exact etchedIn_eq_some.mpr ⟨howner, hx, hetched⟩
  obtain ⟨-, hcounted, hminted⟩ := h.etched r x hread
  exact ⟨hminted, hcounted.capped⟩

section
variable {t : Accounts} {instr : Instruction} {a b o o' a' b' : AccountInfo}
  {rest : List AccountInfo} {r k : Pubkey} {x : RuneEtching}

theorem RunesSound.idle_written (hs : RunesSound t)
    (h : Slots ProgramIds.runesProgram t instr a a' o b b' o' rest) (hfirst : IdleBalance o.toStored)
    (hsecond : IdleBalance o'.toStored) (k : Pubkey) :
    readAt True IdleBalance (t.write (entries (o :: o' :: rest))) k := by
  rcases h.readAt_cases idle_reading k with hsame | ⟨-, hnow⟩ | ⟨-, hnow⟩
  · exact hsame ▸ hs.idle k
  · exact hnow ▸ hfirst
  · exact hnow ▸ hsecond

/-- An instruction that leaves both slots as they are. -/
theorem RunesSound.nothing (hs : RunesSound t)
    (h : Slots ProgramIds.runesProgram t instr a a' o b b' o' rest) (hd : a'.data = a.data)
    (he : b'.data = b.data) : RunesSound (t.write (entries (o :: o' :: rest))) := by
  have hsame : ∀ {α : Type} {z : α} {f : StoredAccount → α}, Reading z f → ∀ k,
      readAt z f (t.write (entries (o :: o' :: rest))) k = readAt z f t k :=
    fun hf => h.readAt_same hf (hf.left h.first hd) (hf.left h.second he)
  constructor
  · intro k
    rw [hsame idle_reading]
    exact hs.idle k
  · intro r x hx
    rw [hsame etchedIn_reading] at hx
    rw [total_same (hsame (heldOf_reading r))]
    exact hs.etched r x hx

/-- Which runes are etched after a balance was written to the second slot. -/
theorem etched_written (h : Slots ProgramIds.runesProgram t instr a a' o b b' o' rest)
    (honce : ListedOnce (accountsOf t instr) 0) (hsecond : etchedIn o'.toStored = none)
    (hx : readAt none etchedIn (t.write (entries (o :: o' :: rest))) r = some x) :
    (r ≠ a.key ∧ readAt none etchedIn t r = some x) ∨
      (r = a.key ∧ etchedIn o.toStored = some x) := by
  by_cases hr : r = a.key
  · rw [hr, h.readAt_first honce] at hx
    exact .inr ⟨hr, hx⟩
  · rcases h.readAt_cases etchedIn_reading r with hsame | ⟨heq, -⟩ | ⟨-, hnow⟩
    · exact .inl ⟨hr, hsame ▸ hx⟩
    · exact absurd heq hr
    · rw [hnow, hsecond] at hx
      simp at hx

end

/-! ## What the instructions have to be given -/

/-- Whatever balance is in the slot, it is empty or one of the rune `r`. -/
def HoldsOnly (r : Option Pubkey) (a : AccountInfo) : Prop :=
  ∀ y ∈ (tryFromSlice a.data : Option RuneBalance), y.isInitialized = true →
    y.amount = 0 ∨ some y.rune = r

instance (r : Option Pubkey) (a : AccountInfo) : Decidable (HoldsOnly r a) :=
  inferInstanceAs (Decidable (∀ y ∈ (tryFromSlice a.data : Option RuneBalance),
    y.isInitialized = true → y.amount = 0 ∨ some y.rune = r))

/-- The rune of a balance in the slot cannot be mistaken. -/
def PlainRune (good : Pubkey → Prop) (a : AccountInfo) : Prop :=
  ∀ y ∈ (tryFromSlice a.data : Option RuneBalance), good y.rune ∧ ¬ Ambiguous y.rune

instance (good : Pubkey → Prop) [DecidablePred good] (a : AccountInfo) :
    Decidable (PlainRune good a) :=
  inferInstanceAs (Decidable (∀ y ∈ (tryFromSlice a.data : Option RuneBalance),
    good y.rune ∧ ¬ Ambiguous y.rune))

/-- Slots that keep the supply of every rune. -/
def RuneCare (t : Accounts) (accounts : List AccountInfo) : RuneInstruction → Prop
  | .etch _ _ _ premine _ =>
      -- A rune of which nothing is held yet, and no balance under what is written.
      ListedOnce accounts 0 ∧ (premine = 0 ∨ ListedOnce accounts 1) ∧
      (∀ a ∈ accounts[0]?, ¬ Ambiguous a.key ∧ Table.total (heldOf a.key) t = 0 ∧
        HoldsOnly none a) ∧ (premine = 0 ∨ ∀ b ∈ accounts[1]?, HoldsOnly none b)
  | .mint => ListedOnce accounts 0 ∧ ListedOnce accounts 1 ∧
      ∀ a ∈ accounts[0]?, ∀ b ∈ accounts[1]?, HoldsOnly (some a.key) b
  | .transfer _ => ListedOnce accounts 0 ∧ ListedOnce accounts 1 ∧
      ∀ a ∈ accounts[0]?, PlainRune (fun _ => True) a
  | .burn n => n = 0 ∨ ListedOnce accounts 0 ∧ ListedOnce accounts 1 ∧
      ∀ a ∈ accounts[0]?, ∀ b ∈ accounts[1]?, PlainRune (· = a.key) b
  | .initBalance => True

instance (t : Accounts) (accounts : List AccountInfo) (ix : RuneInstruction) :
    Decidable (RuneCare t accounts ix) := by
  cases ix with
  | etch name symbol divisibility premine terms =>
    exact inferInstanceAs (Decidable (ListedOnce accounts 0 ∧
      (premine = 0 ∨ ListedOnce accounts 1) ∧
      (∀ a ∈ accounts[0]?, ¬ Ambiguous a.key ∧ Table.total (heldOf a.key) t = 0 ∧
        HoldsOnly none a) ∧ (premine = 0 ∨ ∀ b ∈ accounts[1]?, HoldsOnly none b)))
  | mint =>
    exact inferInstanceAs (Decidable (ListedOnce accounts 0 ∧ ListedOnce accounts 1 ∧
      ∀ a ∈ accounts[0]?, ∀ b ∈ accounts[1]?, HoldsOnly (some a.key) b))
  | transfer n =>
    exact inferInstanceAs (Decidable (ListedOnce accounts 0 ∧ ListedOnce accounts 1 ∧
      ∀ a ∈ accounts[0]?, PlainRune (fun _ => True) a))
  | burn n =>
    exact inferInstanceAs (Decidable (n = 0 ∨ ListedOnce accounts 0 ∧ ListedOnce accounts 1 ∧
      ∀ a ∈ accounts[0]?, ∀ b ∈ accounts[1]?, PlainRune (· = a.key) b))
  | initBalance => exact isTrue trivial

/-- The instructions that keep the supply of every rune. -/
def RuneOk (t : Accounts) (instr : Instruction) : Prop :=
  ∀ ix ∈ (tryFromSlice instr.data : Option RuneInstruction), RuneCare t (accountsOf t instr) ix

instance (t : Accounts) (instr : Instruction) : Decidable (RuneOk t instr) :=
  inferInstanceAs (Decidable (∀ ix ∈ (tryFromSlice instr.data : Option RuneInstruction),
    RuneCare t (accountsOf t instr) ix))

/-! ## The five instructions -/

section
variable {t : Accounts} {instr : Instruction} {a b o o' : AccountInfo} {rest : List AccountInfo}
  {d e : List UInt8} {x x' : RuneEtching} {y' : RuneBalance}

theorem HoldsOnly.held (h : HoldsOnly none a) (r : Pubkey) : heldOf r a.toStored = 0 :=
  heldOf_eq_zero fun y _ hy hinit _ => (h y hy hinit).resolve_right (by simp)

theorem etchedIn_written (h : tryFromSlice o.data = some x')
    (hx : etchedIn o.toStored = some x) : x = x' := by
  have hdec := (etchedIn_eq_some.mp hx).2.1
  exact Option.some.inj (hdec.symm.trans h)

/-- The rune in the first slot and a balance of it in the second. -/
theorem RunesSound.issued (hs : RunesSound t)
    (h : Slots ProgramIds.runesProgram t instr a { a with data := d } o b { b with data := e } o'
      rest)
    (honce : ListedOnce (accountsOf t instr) 0) (honce' : ListedOnce (accountsOf t instr) 1)
    (hclear : ¬ Ambiguous a.key) (hd : toVec x' = some d) (hetched : x'.isEtched = true)
    (he : toVec y' = some e) (hinit : y'.isInitialized = true) (hrune : y'.rune = a.key)
    {n : UInt64} (hamount : y'.amount.toNat = (balanceIn b).amount.toNat + n.toNat)
    (hfirst : ∀ r, ¬ Ambiguous r → heldOf r a.toStored = 0)
    (hsecond : HoldsOnly (some a.key) b) (hcounted : Counted x')
    (hminted : x'.minted.toNat =
      x'.burned.toNat + Table.total (heldOf a.key) t + n.toNat) :
    RunesSound (t.write (entries (o :: o' :: rest))) := by
  have hx' : tryFromSlice o.data = some x' := h.first.written hd
  have hy' : tryFromSlice o'.data = some y' := h.second.written he
  have hnone : etchedIn o'.toStored = none := etchedIn_balance hy' (hrune ▸ hclear)
  have hidle : IdleBalance b.toStored := by
    rw [(h.slot idle_reading).2]
    exact hs.idle b.key
  have htotal : ∀ r, ¬ Ambiguous r →
      Table.total (heldOf r) (t.write (entries (o :: o' :: rest))) =
        Table.total (heldOf r) t + if a.key = r then n.toNat else 0 := by
    intro r hr
    have hsum := h.total (heldOf_reading r) honce honce'
    have hcredit := heldOf_credit (r := r) h.second (h.ne honce) hidle he hinit hamount
      fun y hy hready => (hsecond y hy hready).imp_right fun hsame =>
        (Option.some.inj hsame).trans hrune.symm
    rw [hrune] at hcredit
    rw [hfirst r hr, heldOf_etching (s := o.toStored) hx' hr, hcredit] at hsum
    omega
  constructor
  · exact hs.idle_written h (idle_etching hx' hetched) (idle_balance hy' hinit)
  · intro r x hx
    rcases etched_written h honce hnone hx with ⟨hr, hbefore⟩ | ⟨rfl, hnow⟩
    · obtain ⟨hplain, hcap, heq⟩ := hs.etched r x hbefore
      rw [htotal r hplain, if_neg fun hkey => hr hkey.symm]
      exact ⟨hplain, hcap, heq⟩
    · obtain rfl := etchedIn_written hx' hnow
      rw [htotal _ hclear, if_pos rfl]
      exact ⟨hclear, hcounted, by omega⟩

theorem RunesSound.etch (hs : RunesSound t)
    (h : Slots ProgramIds.runesProgram t instr a { a with data := d } o b { b with data := e } o'
      rest) {c : AccountInfo} {name : String} {symbol : UInt32} {divisibility : UInt8}
    {premine : UInt64} {terms : Option MintTerms}
    (hd : toVec ({ name, symbol, divisibility, etcher := c.key, premine, terms, minted := premine
                   burned := 0, isEtched := true } : RuneEtching) = some d)
    (hpremine : premine = 0 ∧ e = b.data ∨ premine ≠ 0 ∧ ∃ amount,
      amount.toNat = (balanceIn b).amount.toNat + premine.toNat ∧
      toVec ({ rune := a.key, owner := c.key, amount, isInitialized := true } : RuneBalance) =
        some e)
    (hcare : RuneCare t (accountsOf t instr) (.etch name symbol divisibility premine terms)) :
    RunesSound (t.write (entries (o :: o' :: rest))) := by
  obtain ⟨honce, honce', hslot, hslot'⟩ := hcare
  obtain ⟨hclear, hzero, hfirst⟩ := hslot a (by rw [h.listed]; rfl)
  have hcounted : ∀ x : RuneEtching, x.minted = x.premine → Counted x :=
    fun x heq _ _ _ => .inl heq
  rcases hpremine with ⟨rfl, rfl⟩ | ⟨hne, amount, hamount, he⟩
  · -- Only the rune is written, and nothing is held of it.
    have hx' := h.first.written hd
    have hleft : ∀ {α : Type} {z : α} {f : StoredAccount → α}, Reading z f →
        f o'.toStored = f b.toStored := fun hf => hf.left h.second rfl
    have htotal : ∀ r, ¬ Ambiguous r →
        Table.total (heldOf r) (t.write (entries (o :: o' :: rest))) =
          Table.total (heldOf r) t := by
      intro r hr
      have hsum := h.total_alone (heldOf_reading r) honce (hleft (heldOf_reading r))
      rw [hfirst.held r, heldOf_etching (s := o.toStored) hx' hr] at hsum
      omega
    constructor
    · refine hs.idle_written h (idle_etching hx' rfl) ?_
      rw [hleft idle_reading, (h.slot idle_reading).2]
      exact hs.idle b.key
    · intro r x hx
      by_cases hr : r = a.key
      · rw [hr, h.readAt_first honce] at hx
        obtain rfl := etchedIn_written hx' hx
        rw [hr, htotal _ hclear, hzero]
        exact ⟨hclear, hcounted _ rfl, rfl⟩
      · rcases h.readAt_cases etchedIn_reading r with hsame | ⟨heq, -⟩ | ⟨rfl, hnow⟩
        · obtain ⟨hplain, hcap, heq⟩ := hs.etched r x (hsame ▸ hx)
          exact ⟨hplain, hcap, by rw [htotal r hplain, heq]⟩
        · exact absurd heq hr
        · rw [hnow, hleft etchedIn_reading, (h.slot etchedIn_reading).2] at hx
          obtain ⟨hplain, hcap, heq⟩ := hs.etched _ x hx
          exact ⟨hplain, hcap, by rw [htotal _ hplain, heq]⟩
  · have hsecond : HoldsOnly (some a.key) b := fun y hy hinit =>
      .inl ((hslot'.resolve_left hne b (by rw [h.listed]; rfl) y hy hinit).resolve_right (by simp))
    refine hs.issued h honce (honce'.resolve_left hne) hclear hd rfl he rfl rfl hamount
      (fun r _ => hfirst.held r) hsecond (hcounted _ rfl) ?_
    rw [hzero]
    simp

theorem RunesSound.mint (hs : RunesSound t)
    (h : Slots ProgramIds.runesProgram t instr a { a with data := d } o b { b with data := e } o'
      rest) {c : AccountInfo} {rune : RuneEtching} {terms : MintTerms}
    {mints minted amount : UInt64}
    (hrune : tryFromSlice a.data = some rune) (hetched : rune.isEtched = true)
    (hterms : rune.terms = some terms) (hunder : terms.cap = 0 ∨ terms.mints < terms.cap)
    (hmints : mints.toNat = terms.mints.toNat + 1)
    (hminted : minted.toNat = rune.minted.toNat + terms.amount.toNat)
    (hd : toVec { rune with terms := some { terms with mints }, minted } = some d)
    (hamount : amount.toNat = (balanceIn b).amount.toNat + terms.amount.toNat)
    (he : toVec ({ rune := a.key
                   owner := if (balanceIn b).owner == default then c.key else (balanceIn b).owner
                   amount, isInitialized := true } : RuneBalance) = some e)
    (hcare : RuneCare t (accountsOf t instr) .mint) :
    RunesSound (t.write (entries (o :: o' :: rest))) := by
  obtain ⟨honce, honce', hslot⟩ := hcare
  have hcount : mints ≠ terms.mints := by
    intro heq
    rw [heq] at hmints
    omega
  have hne : { rune with terms := some { terms with mints }, minted } ≠ rune := by
    intro heq
    have hsame := congrArg RuneEtching.terms heq
    rw [hterms, Option.some.injEq] at hsame
    exact hcount (congrArg MintTerms.mints hsame)
  -- The count went up, so the record is the program's.
  have howner := (h.first.changed etching_nil not_false hrune hd hne).1
  have hbefore : readAt none etchedIn t a.key = some rune := by
    rw [← (h.slot etchedIn_reading).1]
    exact etchedIn_eq_some.mpr ⟨howner, hrune, hetched⟩
  obtain ⟨hclear, hcounted, heq⟩ := hs.etched _ _ hbefore
  refine hs.issued h honce honce' hclear hd hetched he rfl rfl hamount
    (fun r hr => heldOf_etching (s := a.toStored) hrune hr)
    (hslot a (by rw [h.listed]; rfl) b (by rw [h.listed]; rfl)) ?_ ?_
  · intro terms' hterms' hcap
    obtain rfl : { terms with mints } = terms' := Option.some.inj hterms'
    have hless : terms.mints.toNat < terms.cap.toNat :=
      UInt64.lt_iff_toNat_lt.mp (hunder.resolve_left hcap)
    right
    have hmul : mints.toNat * terms.amount.toNat =
        terms.mints.toNat * terms.amount.toNat + terms.amount.toNat := by
      rw [hmints, Nat.add_mul, Nat.one_mul]
    refine ⟨UInt64.le_iff_toNat_le.mpr (by show mints.toNat ≤ terms.cap.toNat; omega), ?_⟩
    show minted.toNat ≤ rune.premine.toNat + mints.toNat * terms.amount.toNat
    rcases hcounted terms hterms hcap with hnone | ⟨-, hle⟩
    · rw [hminted, hmul, hnone]
      omega
    · rw [hminted, hmul]
      omega
  · show minted.toNat = rune.burned.toNat + _ + _
    omega

theorem RunesSound.transfer (hs : RunesSound t)
    (h : Slots ProgramIds.runesProgram t instr a { a with data := d } o b { b with data := e } o'
      rest) {src : RuneBalance} {n left amount : UInt64}
    (hsrc : tryFromSlice a.data = some src) (hready : src.isInitialized = true)
    (hsame : (balanceIn b).isInitialized = true → (balanceIn b).rune = src.rune)
    (hleft : left.toNat + n.toNat = src.amount.toNat)
    (hd : toVec ({ src with amount := left } : RuneBalance) = some d)
    (hamount : amount.toNat = (balanceIn b).amount.toNat + n.toNat)
    (he : toVec ({ rune := src.rune
                   owner := if (balanceIn b).owner == default then b.key else (balanceIn b).owner
                   amount, isInitialized := true } : RuneBalance) = some e)
    (hcare : RuneCare t (accountsOf t instr) (.transfer n)) :
    RunesSound (t.write (entries (o :: o' :: rest))) := by
  obtain ⟨honce, honce', hslot⟩ := hcare
  have hplain := (hslot a (by rw [h.listed]; rfl) src hsrc).2
  have hx := h.first.written hd
  have hy := h.second.written he
  have hidle : IdleBalance b.toStored := by
    rw [(h.slot idle_reading).2]
    exact hs.idle b.key
  have htotal : ∀ r, Table.total (heldOf r) (t.write (entries (o :: o' :: rest))) =
      Table.total (heldOf r) t := by
    intro r
    have hsum := h.total (heldOf_reading r) honce honce'
    have hdebit := heldOf_debit (r := r) h.first not_false hsrc hready hd hleft
    have hcredit := heldOf_credit (r := r) h.second (h.ne honce) hidle he rfl hamount
      fun y hdec hinit => by
        rw [balanceIn, hdec, Option.getD_some] at hsame
        exact .inr (hsame hinit)
    rw [hcredit] at hsum
    simp only at hsum
    omega
  constructor
  · exact hs.idle_written h (idle_balance hx hready) (idle_balance hy rfl)
  · intro r x hnow
    rcases etched_written h honce (etchedIn_balance hy hplain) hnow with ⟨-, hbefore⟩ | ⟨-, hnone⟩
    · rw [htotal r]
      exact hs.etched r x hbefore
    · rw [etchedIn_balance (s := o.toStored) hx hplain] at hnone
      simp at hnone

/-- A record of both kinds that is not a rune in use is an idle balance, and there is none. -/
theorem idle_rewritten (hidle : IdleBalance a.toStored) (howner : a.owner = ProgramIds.runesProgram)
    (hx : tryFromSlice a.data = some x) (hx' : tryFromSlice o.data = some x')
    (hname : x'.name = x.name) (hterms : x'.terms = x.terms) (hetched : x'.isEtched = x.isEtched) :
    IdleBalance o.toStored := by
  cases hready : x.isEtched with
  | true => exact idle_etching (s := o.toStored) hx' (hetched.trans hready)
  | false =>
    intro y hy
    have hdec := (decoded_eq_some.mp hy).2
    obtain ⟨hsix, hnone⟩ := name_six (toVec_tryFromSlice hx') (toVec_tryFromSlice hdec)
    obtain ⟨z, hz, -, -, hinit⟩ := etching_reads (toVec_tryFromSlice hx) (hname ▸ hsix)
      (hterms ▸ hnone)
    have hplain := (hidle z (decoded_eq_some.mpr ⟨howner, hz⟩) (hinit.trans hready)).2
    exact absurd (rune_ambiguous hx hz) hplain

theorem RunesSound.burn (hs : RunesSound t)
    (h : Slots ProgramIds.runesProgram t instr a { a with data := d } o b { b with data := e } o'
      rest) {rune : RuneEtching} {src : RuneBalance} {n left burned : UInt64}
    (hrune : tryFromSlice a.data = some rune) (hsrc : tryFromSlice b.data = some src)
    (hready : src.isInitialized = true) (hburned : burned.toNat = rune.burned.toNat + n.toNat)
    (hd : toVec ({ rune with burned } : RuneEtching) = some d)
    (hleft : left.toNat + n.toNat = src.amount.toNat)
    (he : toVec ({ src with amount := left } : RuneBalance) = some e)
    (hcare : RuneCare t (accountsOf t instr) (.burn n)) :
    RunesSound (t.write (entries (o :: o' :: rest))) := by
  by_cases hzero : n = 0
  · -- Both records are written back as they were.
    subst hzero
    rw [UInt64.toNat_zero, Nat.add_zero] at hburned hleft
    rw [UInt64.toNat_inj.mp hburned] at hd
    rw [UInt64.toNat_inj.mp hleft] at he
    exact hs.nothing h (data_eq_of_same hrune hd) (data_eq_of_same hsrc he)
  · obtain ⟨honce, honce', hslot⟩ := hcare.resolve_left hzero
    obtain ⟨hown, hplain⟩ := hslot a (by rw [h.listed]; rfl) b (by rw [h.listed]; rfl) src hsrc
    have hclear : ¬ Ambiguous a.key := hown ▸ hplain
    have hpositive : n.toNat ≠ 0 := fun hnone => hzero (UInt64.toNat_inj.mp hnone)
    have hne : ({ rune with burned } : RuneEtching) ≠ rune := by
      intro heq
      have hsame : burned = rune.burned := congrArg RuneEtching.burned heq
      rw [hsame] at hburned
      omega
    obtain ⟨howner, -, hx⟩ := h.first.changed etching_nil not_false hrune hd hne
    have hy := h.second.written he
    have htotal : ∀ r, ¬ Ambiguous r →
        Table.total (heldOf r) (t.write (entries (o :: o' :: rest))) +
          (if a.key = r then n.toNat else 0) = Table.total (heldOf r) t := by
      intro r hr
      have hsum := h.total (heldOf_reading r) honce honce'
      have hdebit := heldOf_debit (r := r) h.second (h.ne honce) hsrc hready he hleft
      rw [heldOf_etching (s := a.toStored) hrune hr, heldOf_etching (s := o.toStored) hx hr] at hsum
      rw [hown] at hdebit
      omega
    constructor
    · refine hs.idle_written h ?_ (idle_balance hy hready)
      refine idle_rewritten ?_ howner hrune hx rfl rfl rfl
      rw [(h.slot idle_reading).1]
      exact hs.idle a.key
    · intro r x hnow
      rcases etched_written h honce (etchedIn_balance hy hplain) hnow with ⟨hr, hbefore⟩ |
        ⟨rfl, hrecord⟩
      · obtain ⟨hplain', hcounted, heq⟩ := hs.etched r x hbefore
        have hsum := htotal r hplain'
        rw [if_neg fun hkey => hr hkey.symm] at hsum
        exact ⟨hplain', hcounted, by omega⟩
      · obtain rfl := etchedIn_written hx hrecord
        have hbefore : readAt none etchedIn t a.key = some rune := by
          rw [← (h.slot etchedIn_reading).1]
          exact etchedIn_eq_some.mpr ⟨howner, hrune, (etchedIn_eq_some.mp hrecord).2.2⟩
        obtain ⟨-, hcounted, heq⟩ := hs.etched _ _ hbefore
        have hsum := htotal a.key hclear
        rw [if_pos rfl] at hsum
        refine ⟨hclear, hcounted, ?_⟩
        show rune.minted.toNat = burned.toNat + _
        omega

theorem RunesSound.initBalance (hs : RunesSound t)
    (h : Slots ProgramIds.runesProgram t instr a { a with data := d } o b
      { b with data := b.data } o' rest)
    (hfresh : (balanceIn a).isInitialized = false)
    (hd : toVec { balanceIn a with owner := b.key, isInitialized := true } = some d) :
    RunesSound (t.write (entries (o :: o' :: rest))) := by
  have hidle : IdleBalance a.toStored := by
    rw [(h.slot idle_reading).1]
    exact hs.idle a.key
  have hfirst : tryFromSlice a.data ≠
      some { balanceIn a with owner := b.key, isInitialized := true } := by
    intro heq
    have hinit := congrArg RuneBalance.isInitialized
      (show balanceIn a = _ by rw [balanceIn, heq, Option.getD_some])
    rw [hfresh] at hinit
    simp at hinit
  obtain ⟨hown, hown', hy⟩ := h.first.filled not_false hd hfirst
  -- Nothing is in it, whether it decodes or not.
  have hempty : (balanceIn a).amount = 0 ∧ ¬ Ambiguous (balanceIn a).rune := by
    cases hdec : (tryFromSlice a.data : Option RuneBalance) with
    | none =>
      rw [balanceIn, hdec]
      exact ⟨rfl, by decide⟩
    | some y =>
      rw [balanceIn, hdec, Option.getD_some] at hfresh ⊢
      rcases hown with howner | hnil
      · exact hidle y (decoded_eq_some.mpr ⟨howner, hdec⟩) hfresh
      · rw [hnil, balance_nil] at hdec
        simp at hdec
  have hleft : ∀ {α : Type} {z : α} {f : StoredAccount → α}, Reading z f →
      f o'.toStored = f b.toStored := fun hf => hf.left h.second rfl
  have htotal : ∀ r, Table.total (heldOf r) (t.write (entries (o :: o' :: rest))) =
      Table.total (heldOf r) t := by
    intro r
    refine total_same (h.readAt_same (heldOf_reading r) ?_ (hleft (heldOf_reading r)))
    rw [heldOf_balance (s := o.toStored) hown' hy, heldOf_eq_zero (s := a.toStored)]
    · simp [hempty.1]
    · intro y _ hdec hinit
      rw [balanceIn, show tryFromSlice a.data = some y from hdec, Option.getD_some, hinit] at hfresh
      simp at hfresh
  constructor
  · refine hs.idle_written h (idle_balance hy rfl) ?_
    rw [hleft idle_reading, (h.slot idle_reading).2]
    exact hs.idle b.key
  · intro r x hx
    rw [htotal r]
    refine hs.etched r x ?_
    rcases h.readAt_cases etchedIn_reading r with hsame | ⟨-, hnow⟩ | ⟨rfl, hnow⟩
    · exact hsame ▸ hx
    · rw [hnow, etchedIn_balance (s := o.toStored) hy hempty.2] at hx
      simp at hx
    · rwa [hnow, hleft etchedIn_reading, (h.slot etchedIn_reading).2] at hx

end

/-! ## Runs -/

section
variable {ex : Executor} {tx : RuntimeTransaction}

theorem Rewrites.slots {t : Accounts} {instr : Instruction} {a b : AccountInfo}
    {accounts mid rest out : List AccountInfo} {d e : List UInt8} {th th' : Thread}
    (hw : Rewrites accounts mid a b rest d e) (hacc : accountsOf t instr = accounts)
    (happ : th.approved = ∅)
    (hgate : Comp.Returns (validateWrites ProgramIds.runesProgram accounts mid) th out th') :
    ∃ o o', out = o :: o' :: rest ∧ Slots ProgramIds.runesProgram t instr a { a with data := d } o
      b { b with data := e } o' rest := by
  obtain ⟨rfl, rfl⟩ := hw
  obtain ⟨o, o', hout, hpassed, hpassed'⟩ := gate_pair happ hgate rfl rfl
  exact ⟨o, o', hout, ⟨hacc, rfl, rfl, hpassed, hpassed'⟩⟩

/-- **One instruction keeps the invariant.** -/
theorem runes_sound {t t' : Accounts} {instr : Instruction} (hs : RunesSound t)
    (hprog : instr.programId = ProgramIds.runesProgram) (hok : RuneOk t instr)
    (h : tableStep ex .commit tx t instr = some t') : RunesSound t' := by
  obtain ⟨-, out, hout, rfl⟩ := tableStep_output h
  obtain ⟨th', hret⟩ := output_dispatch (by rw [hprog]; decide) (by rw [hprog]; decide) hout
  rw [hprog] at hret
  obtain ⟨ix, mid, th, hix, hpost, happ, hgate⟩ := runes_dispatch hret
  have hcare := hok ix hix
  cases ix with
  | etch name symbol divisibility premine terms =>
    obtain ⟨a, b, c, rest, d, e, hw, -, -, hd, hpremine⟩ := hpost
    obtain ⟨o, o', rfl, hslots⟩ := hw.slots rfl happ hgate
    exact hs.etch hslots hd hpremine hcare
  | mint =>
    obtain ⟨a, b, c, rest, d, e, rune, terms, mints, minted, amount, hw, hrune, hetched, hterms,
      hunder, hmints, hminted, hd, hamount, he⟩ := hpost
    obtain ⟨o, o', rfl, hslots⟩ := hw.slots rfl happ hgate
    exact hs.mint hslots hrune hetched hterms hunder hmints hminted hd hamount he hcare
  | transfer n =>
    obtain ⟨a, b, rest, d, e, src, left, amount, hw, hsrc, hready, hsame, hleft, hd, hamount,
      he⟩ := hpost
    obtain ⟨o, o', rfl, hslots⟩ := hw.slots rfl happ hgate
    exact hs.transfer hslots hsrc hready hsame hleft hd hamount he hcare
  | burn n =>
    obtain ⟨a, b, rest, d, e, rune, src, left, burned, hw, hrune, hsrc, hready, hburned, hd, hleft,
      he⟩ := hpost
    obtain ⟨o, o', rfl, hslots⟩ := hw.slots rfl happ hgate
    exact hs.burn hslots hrune hsrc hready hburned hd hleft he hcare
  | initBalance =>
    obtain ⟨a, b, rest, d, hw, hfresh, hd⟩ := hpost
    obtain ⟨o, o', rfl, hslots⟩ := hw.slots rfl happ hgate
    exact hs.initBalance hslots hfresh hd

/-- A table without runes: no record is one of an etched rune, and a balance that is not
    initialised has nothing in it. -/
structure WithoutRunes (t : Accounts) : Prop where
  unetched : ∀ k s, t.lookup k = some s → etchedIn s = none
  idle : ∀ k s, t.lookup k = some s → IdleBalance s

theorem WithoutRunes.sound {t : Accounts} (h : WithoutRunes t) : RunesSound t := by
  constructor
  · intro k
    unfold readAt
    cases hlook : t.lookup k with
    | none => exact trivial
    | some s => exact h.idle k s hlook
  · intro r x hx
    unfold readAt at hx
    cases hlook : t.lookup r with
    | none => simp [hlook] at hx
    | some s => simp [hlook, h.unetched r s hlook] at hx

end

/-- **Runes are backed.** In every run of runes transactions from a table without etched runes,
    whatever they contain and whether or not they succeed, what was minted of every etched rune
    and not burned is what its balances hold, and is within the cap, as long as the instructions
    that commit are given slots as `RuneCare` says. -/
theorem runes_backed (ex : Executor) (w w' : World) (txs : List RuntimeTransaction)
    (hstart : WithoutRunes w.state.accounts)
    (hmeets : Meets (programStep ProgramIds.runesProgram ex)
      (CommitsMeet (fun _ => RuneOk) ex) w txs)
    (hrun : Lib.run (programStep ProgramIds.runesProgram ex) w txs = some w') :
    RunesBacked w'.state.accounts := by
  have hsound := programRun_invariant (I := RunesSound)
    (fun _ _ _ _ hprog hok hs hstep => runes_sound hs hprog hok hstep) hmeets hstart.sound hrun
  exact hsound.backed

/-- Two runes `1` and `2` of the etcher `9` with 10 each, in the balances `3` and `4`; 5 more of
    the first are minted, and then something happens. -/
def etchAndMint (last : Instruction) : RuntimeTransaction :=
  signedBy [.repeated 9]
    [etch (.repeated 1) (.repeated 3) (.repeated 9) "one" 0 0 10 (some ⟨5, 2, 0, 0, 0⟩),
      etch (.repeated 2) (.repeated 4) (.repeated 9) "two" 0 0 10 none,
      mint (.repeated 1) (.repeated 3) (.repeated 9), last]

/-- What that leaves of an empty table. -/
def mintedTable (last : Instruction) : Option Accounts :=
  Lib.run (tableStep (.bare .dev) .commit (etchAndMint last)) (World.funded []).state.accounts
    (etchAndMint last).message.instructions

theorem withoutRunes_empty : WithoutRunes (World.funded []).state.accounts := by
  have hnone : ∀ k, (World.funded []).state.accounts.lookup k = none := fun _ => rfl
  constructor
  · intro k s hlook
    simp [hnone] at hlook
  · intro k s hlook
    simp [hnone] at hlook

/-- Burning 4 of the first rune out of its own balance. -/
def burnOwn : Instruction := burn (.repeated 1) (.repeated 3) (.repeated 9) 4

theorem runes_backed_burn : ∃ w',
    Lib.run (programStep ProgramIds.runesProgram (.bare .dev)) (.funded [])
        [etchAndMint burnOwn] = some w' ∧
      Table.total (heldOf (.repeated 1)) w'.state.accounts = 11 ∧
      RunesBacked w'.state.accounts := by
  have hcheck : (mintedTable burnOwn).any (fun t =>
      Table.total (heldOf (.repeated 1)) t = 11 ∧
      ∀ e ∈ t.entries, e.2.data.length < 2 ^ 32) = true := by decide +kernel
  obtain ⟨t, ht, hthen⟩ := (Option.any_eq_true _ _).mp hcheck
  obtain ⟨htotal, henc⟩ := of_decide_eq_true hthen
  obtain ⟨w', hrun, rfl⟩ := programRun_single ProgramIds.runesProgram
    (w := .funded []) (by decide) rfl ht henc
  have hok : CommitsMeet (fun _ => RuneOk) (.bare .dev) (.funded []) (etchAndMint burnOwn) :=
    fun _ => by decide +kernel
  have hmeets : Meets (programStep ProgramIds.runesProgram (.bare .dev))
      (CommitsMeet (fun _ => RuneOk) (.bare .dev)) (.funded []) [etchAndMint burnOwn] :=
    ⟨hok, fun _ _ => trivial⟩
  exact ⟨w', hrun, htotal, runes_backed (.bare .dev) _ _ _ withoutRunes_empty hmeets hrun⟩

/-- Burning 4 of the first rune out of a balance of the second. -/
def burnOther : Instruction := burn (.repeated 1) (.repeated 4) (.repeated 9) 4

/-- **Burning another rune** commits. -/
theorem burn_of_another_rune : ¬ ∀ (ex : Executor) (w w' : World) (txs : List RuntimeTransaction),
    WithoutRunes w.state.accounts →
    Lib.run (programStep ProgramIds.runesProgram ex) w txs = some w' →
    RunesBacked w'.state.accounts := by
  intro hclaim
  have hcheck : (mintedTable burnOther).any (fun t =>
      (((readAt none etchedIn t (.repeated 1)).any fun x => x.minted = 15 ∧ x.burned = 4) ∧
        Table.total (heldOf (.repeated 1)) t = 15) ∧
      ∀ e ∈ t.entries, e.2.data.length < 2 ^ 32) = true := by decide +kernel
  obtain ⟨t, ht, hthen⟩ := (Option.any_eq_true _ _).mp hcheck
  obtain ⟨⟨hetched, htotal⟩, henc⟩ := of_decide_eq_true hthen
  obtain ⟨w', hrun, rfl⟩ := programRun_single ProgramIds.runesProgram
    (w := .funded []) (by decide) rfl ht henc
  obtain ⟨x, hx, hboth⟩ := (Option.any_eq_true _ _).mp hetched
  obtain ⟨hminted, hburned⟩ := of_decide_eq_true hboth
  have hback := hclaim _ _ _ _ withoutRunes_empty hrun
  unfold readAt at hx
  cases hlook : w'.state.accounts.lookup (.repeated 1) with
  | none => simp [hlook] at hx
  | some s =>
    rw [hlook, Option.map_some, Option.getD_some] at hx
    obtain ⟨howner, hdec, hinit⟩ := etchedIn_eq_some.mp hx
    have hsum := (hback _ s x hlook howner hdec hinit).1
    rw [htotal, hminted, hburned] at hsum
    exact absurd hsum (by decide)

end Proof
end Himsha
