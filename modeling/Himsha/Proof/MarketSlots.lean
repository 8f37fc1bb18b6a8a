import Himsha.Proof.MarketCalls
import Himsha.Proof.ProgramRuns

/-!
# The slots of a money-market instruction

The owner gate sees what an instruction made of all its slots. Of the first two it lets a change
through only where the market program owns the account: what was approved on the way are token
accounts in other slots, and no two writable slots are one account. So whatever is read from the
table and is not a token account changes at those two keys at most (`Dealt.reads`).
-/

set_option autoImplicit false

namespace Himsha
namespace Proof

open Himsha.Lib Himsha.Runtime Himsha.Programs Himsha.Vm Himsha.Node Token MoneyMarket

/-! ## The gate, slot by slot -/

theorem Passed.mono {programId : Pubkey} {known known' : Prop} {a b o : AccountInfo}
    (himp : known → known') (h : Passed programId known a b o) :
    Passed programId known' a b o :=
  ⟨h.key, h.data, h.owner, h.allowed.imp_right fun h => h.imp_right fun h => h.imp_right himp⟩

/-- A state that was known is no reason where it is the one that was there. -/
theorem Passed.settle {programId : Pubkey} {known : Prop} {a b o : AccountInfo}
    (h : Passed programId known a b o) (hsame : known → b.data = a.data) :
    Passed programId False a b o := by
  refine ⟨h.key, h.data, h.owner, ?_⟩
  rcases h.allowed with hdata | howner | hempty | hknown
  · exact .inl hdata
  · exact .inr (.inl howner)
  · exact .inr (.inr (.inl hempty))
  · exact .inl (hsame hknown)

/-- What the gate makes of one slot of a table whose owners were left alone. A state may have been
    approved before, or in an earlier slot. -/
theorem gate_passed {programId : Pubkey} {before : List AccountInfo} :
    ∀ {after out : List AccountInfo} {th th' : Thread} {i : Nat} {a b o : AccountInfo},
      (∀ (n : Nat) (x y : AccountInfo), before[n]? = some x → after[n]? = some y →
        y.owner = x.owner) →
      Comp.Returns (gate programId before after) th out th' → before[i]? = some a →
      after[i]? = some b → out[i]? = some o →
      Passed programId (b.key ∈ th.approved ∨
        ∃ (n : Nat) (c : AccountInfo), n < i ∧ after[n]? = some c ∧ c.key = b.key) a b o := by
  induction before with
  | nil =>
    intro after out th th' i a b o _ _ ha
    simp at ha
  | cons x before ih =>
    intro after out th th' i a b o howner h ha hb ho
    cases after with
    | nil => simp at hb
    | cons y after =>
      obtain ⟨o₁, th₁, os, hhead, htail, rfl⟩ := gate_cons.mp h
      obtain ⟨hpassed, happroved⟩ := validateWrite_passed (howner 0 x y rfl rfl) hhead
      cases i with
      | zero =>
        rw [List.getElem?_cons_zero, Option.some.injEq] at ha hb ho
        subst ha
        subst hb
        subst ho
        exact hpassed.mono .inl
      | succ i =>
        rw [List.getElem?_cons_succ] at ha hb ho
        refine (ih (fun n => howner (n + 1)) htail ha hb ho).mono ?_
        rintro (hknown | ⟨n, c, hn, hc, hkey⟩)
        · rcases happroved _ hknown with hfirst | hknown
          · exact .inr ⟨0, y, Nat.succ_pos i, rfl, hfirst.symm⟩
          · exact .inl hknown
        · exact .inr ⟨n + 1, c, Nat.succ_lt_succ hn, hc, hkey⟩

/-! ## A table whose first two slots were rewritten -/

/-- Tokens were moved from slot 2 on, and of the first two slots the data rewritten, where the
    slots are writable. -/
structure Dealing (th th' : Thread) (accounts mid : List AccountInfo)
    (a a' b b' : AccountInfo) : Prop where
  slots : accounts[0]? = some a ∧ accounts[1]? = some b
  moved : ∃ moved, Shifted th th' accounts moved ∧ mid = (moved.set 0 a').set 1 b'
  first : ∃ d, a' = { a with data := d } ∧ (d = a.data ∨ a.isWritable = true)
  second : ∃ e, b' = { b with data := e } ∧
    (e = b.data ∨ a.isWritable = true ∧ b.isWritable = true)

/-- The same table past the gate. -/
structure Dealt (programId : Pubkey) (accounts out : List AccountInfo)
    (a a' o b b' o' : AccountInfo) : Prop where
  slots : accounts[0]? = some a ∧ accounts[1]? = some b
  outs : out[0]? = some o ∧ out[1]? = some o'
  keys : out.map (·.key) = accounts.map (·.key)
  key : a'.key = a.key
  key' : b'.key = b.key
  first : Passed programId False a a' o
  second : Passed programId False b b' o'
  rest : ∀ (n : Nat) (x y : AccountInfo), 2 ≤ n → accounts[n]? = some x → out[n]? = some y →
    (y.owner = x.owner ∨ x.data = []) ∧ (y.data = x.data ∨
      ∃ token token' : TokenAccountState,
        tryFromSlice x.data = some token ∧ tryFromSlice y.data = some token')

namespace Dealing

variable {th th' th'' : Thread} {accounts mid out : List AccountInfo}
  {a a' b b' : AccountInfo} {programId : Pubkey}

/-- What became of a slot. -/
theorem slot (h : Dealing th th' accounts mid a a' b b') {n : Nat} {x : AccountInfo}
    (hx : accounts[n]? = some x) :
    ∃ y, mid[n]? = some y ∧ y.key = x.key ∧ y.owner = x.owner ∧ (n = 0 → x = a ∧ y = a') ∧
      (n = 1 → x = b ∧ y = b') ∧ (2 ≤ n → y.data = x.data ∨
        ∃ token token' : TokenAccountState,
          tryFromSlice x.data = some token ∧ tryFromSlice y.data = some token') := by
  obtain ⟨moved, hshifted, rfl⟩ := h.moved
  obtain ⟨d, hd, -⟩ := h.first
  obtain ⟨e, he, -⟩ := h.second
  have hlt := (List.getElem?_eq_some_iff.mp hx).1
  have hlen := hshifted.length
  match n with
  | 0 =>
    obtain rfl : a = x := Option.some.inj (h.slots.1.symm.trans hx)
    refine ⟨a', ?_, by rw [hd], by rw [hd], fun _ => ⟨rfl, rfl⟩, nofun, fun hn => ?_⟩
    · rw [List.getElem?_set_ne (by decide), List.getElem?_set_self (by omega)]
    · omega
  | 1 =>
    obtain rfl : b = x := Option.some.inj (h.slots.2.symm.trans hx)
    refine ⟨b', ?_, by rw [he], by rw [he], nofun, fun _ => ⟨rfl, rfl⟩, fun hn => ?_⟩
    · rw [List.getElem?_set_self (by rw [List.length_set]; omega)]
    · omega
  | n + 2 =>
    obtain ⟨f, hf, hkept⟩ := hshifted.slot (n + 2) x hx
    refine ⟨{ x with data := f }, ?_, rfl, rfl, nofun, nofun, fun _ => ?_⟩
    · rw [List.getElem?_set_ne (by omega), List.getElem?_set_ne (by omega), hf]
    · exact hkept.imp_right And.right

/-- **Through the gate.** -/
theorem dealt (hdup : rejectDuplicateWritable accounts = .ok ()) (happ : th.approved = ∅)
    (h : Dealing th th' accounts mid a a' b b')
    (hgate : Comp.Returns (validateWrites programId accounts mid) th' out th'') :
    ∃ o o', Dealt programId accounts out a a' o b b' o' := by
  obtain ⟨hlen, hgate'⟩ := validateWrites_returns.mp hgate
  have hkeys : out.map (·.key) = accounts.map (·.key) := by
    have hmid : mid.map (·.key) = accounts.map (·.key) := by
      refine List.ext_getElem? fun n => ?_
      rw [List.getElem?_map, List.getElem?_map]
      rcases Nat.lt_or_ge n accounts.length with hlt | hge
      · obtain ⟨y, hy, hkey, -⟩ := h.slot (List.getElem?_eq_getElem hlt)
        rw [hy, List.getElem?_eq_getElem hlt, Option.map_some, Option.map_some, hkey]
      · rw [List.getElem?_eq_none hge, List.getElem?_eq_none (by omega)]
    have hout : keyFrame.Same mid out :=
      Frame.validateWrites_same programId accounts mid _ _ _ hgate
    exact Eq.trans hout hmid
  have howner : ∀ (n : Nat) (x y : AccountInfo), accounts[n]? = some x → mid[n]? = some y →
      y.owner = x.owner := by
    intro n x y hx hy
    obtain ⟨y', hy', -, howner, -⟩ := h.slot hx
    rw [hy, Option.some.injEq] at hy'
    rw [hy', howner]
  have hout : ∀ (n : Nat) (x : AccountInfo), accounts[n]? = some x → ∃ y, out[n]? = some y := by
    intro n x hx
    have hlt := (List.getElem?_eq_some_iff.mp hx).1
    have hlen' : out.length = accounts.length := by
      have := congrArg List.length hkeys
      rwa [List.length_map, List.length_map] at this
    exact ⟨_, List.getElem?_eq_getElem (by omega)⟩
  -- What was approved before the gate is in other slots.
  have hfresh : ∀ (i : Nat) (x : AccountInfo), i < 2 → accounts[i]? = some x →
      x.isWritable = true → x.key ∉ th'.approved := by
    intro i x hi hx hwritable hknown
    obtain ⟨moved, hshifted, -⟩ := h.moved
    rcases hshifted.approves _ hknown with hknown | ⟨n, c, hn, hc, hcw, hkey⟩
    · rw [happ] at hknown
      exact Finmap.notMem_empty hknown
    · exact writable_keys_ne hdup (by omega) hc hx ⟨hcw, hwritable⟩ hkey
  obtain ⟨o, ho⟩ := hout 0 a h.slots.1
  obtain ⟨o', ho'⟩ := hout 1 b h.slots.2
  obtain ⟨y, hy, -, -, hzero, -⟩ := h.slot h.slots.1
  obtain ⟨y', hy', -, -, -, hone, -⟩ := h.slot h.slots.2
  obtain rfl := (hzero rfl).2
  obtain rfl := (hone rfl).2
  have hpassed := gate_passed howner hgate' h.slots.1 hy ho
  have hpassed' := gate_passed howner hgate' h.slots.2 hy' ho'
  obtain ⟨d, hd, hwrite⟩ := h.first
  obtain ⟨e, he, hwrite'⟩ := h.second
  refine ⟨o, o', h.slots, ⟨ho, ho'⟩, hkeys, by rw [hd], by rw [he],
    hpassed.settle fun hknown => ?_, hpassed'.settle fun hknown => ?_, ?_⟩
  · rcases hwrite with hsame | hwritable
    · rw [hd]
      exact hsame
    · rcases hknown with hknown | ⟨n, c, hn, -, -⟩
      · rw [hd] at hknown
        exact absurd hknown (hfresh 0 a (by decide) h.slots.1 hwritable)
      · omega
  · rcases hwrite' with hsame | hwritable
    · rw [he]
      exact hsame
    · rcases hknown with hknown | ⟨n, c, hn, hc, hkey⟩
      · rw [he] at hknown
        exact absurd hknown (hfresh 1 b (by decide) h.slots.2 hwritable.2)
      · obtain rfl : n = 0 := by omega
        rw [hy, Option.some.injEq] at hc
        rw [← hc, hd, he] at hkey
        have hne := writable_keys_ne hdup (by decide) h.slots.1 h.slots.2 hwritable
        exact absurd hkey hne
  · intro n x y hn hx hy
    obtain ⟨z, hz, -, -, -, -, hkept⟩ := h.slot hx
    have hpassed := gate_passed howner hgate' hx hz hy
    refine ⟨hpassed.owner.imp_right And.left, ?_⟩
    rw [hpassed.data]
    exact hkept hn

end Dealing

/-! ## What is read from the table -/

namespace Dealt

variable {α : Type} {z : α} {f : StoredAccount → α} {programId : Pubkey} {t : Accounts}
  {instr : Instruction} {out : List AccountInfo} {a a' o b b' o' : AccountInfo}

/-- What does not look at token accounts is left alone from slot 2 on. -/
theorem reads (hf : Reading z f)
    (hblind : ∀ s, (∃ token : TokenAccountState, tryFromSlice s.data = some token) → f s = z)
    (h : Dealt programId (accountsOf t instr) out a a' o b b' o') :
    ReadsAs f [0, 1] (accountsOf t instr) out := by
  refine ⟨h.keys, fun n x y hn hx hy => ?_⟩
  simp only [List.mem_cons, List.not_mem_nil, or_false, not_or] at hn
  obtain ⟨howner, hdata⟩ := h.rest n x y (by omega) hx hy
  rcases hdata with hsame | ⟨token, token', hx', hy'⟩
  · rcases howner with howner | hempty
    · exact hf.congr howner hsame
    · rw [hf.nil (s := y.toStored) (hsame.trans hempty), hf.nil (s := x.toStored) hempty]
  · rw [hblind y.toStored ⟨token', hy'⟩, hblind x.toStored ⟨token, hx'⟩]

theorem slot (h : Dealt programId (accountsOf t instr) out a a' o b b' o') (hf : Reading z f) :
    f a.toStored = readAt z f t a.key ∧ f b.toStored = readAt z f t b.key :=
  ⟨hf.slot h.slots.1, hf.slot h.slots.2⟩

/-- What is found at a key is what it was, or what was written to one of the two slots. -/
theorem readAt_cases (hf : Reading z f)
    (hblind : ∀ s, (∃ token : TokenAccountState, tryFromSlice s.data = some token) → f s = z)
    (h : Dealt programId (accountsOf t instr) out a a' o b b' o') (k : Pubkey) :
    readAt z f (t.write (entries out)) k = readAt z f t k ∨
      (k = a.key ∧ readAt z f (t.write (entries out)) k = f o.toStored) ∨
      (k = b.key ∧ readAt z f (t.write (entries out)) k = f o'.toStored) := by
  rcases (h.reads hf hblind).cases hf k with hsame | ⟨i, hi, c, hc, hkey, hnow⟩
  · exact .inl hsame
  · simp only [List.mem_cons, List.not_mem_nil, or_false] at hi
    rcases hi with rfl | rfl
    · rw [h.outs.1, Option.some.injEq] at hc
      subst hc
      exact .inr (.inl ⟨hkey.symm.trans (h.first.key.trans h.key), hnow⟩)
    · rw [h.outs.2, Option.some.injEq] at hc
      subst hc
      exact .inr (.inr ⟨hkey.symm.trans (h.second.key.trans h.key'), hnow⟩)

/-- Where the two slots read as they did, so does the table. -/
theorem readAt_same (hf : Reading z f)
    (hblind : ∀ s, (∃ token : TokenAccountState, tryFromSlice s.data = some token) → f s = z)
    (h : Dealt programId (accountsOf t instr) out a a' o b b' o')
    (hfirst : f o.toStored = f a.toStored) (hsecond : f o'.toStored = f b.toStored)
    (k : Pubkey) : readAt z f (t.write (entries out)) k = readAt z f t k := by
  obtain ⟨ha, hb⟩ := h.slot hf
  rcases h.readAt_cases hf hblind k with hsame | ⟨rfl, hnow⟩ | ⟨rfl, hnow⟩
  · exact hsame
  · rw [hnow, hfirst, ha]
  · rw [hnow, hsecond, hb]

theorem readAt_first (h : Dealt programId (accountsOf t instr) out a a' o b b' o')
    (honce : ListedOnce (accountsOf t instr) 0) :
    readAt z f (t.write (entries out)) a.key = f o.toStored := by
  have hwritten := readAt_written (z := z) (f := f) h.keys honce h.outs.1
  rwa [h.first.key, h.key] at hwritten

/-- Where neither slot is worth more than it was, nor is the table. -/
theorem total_le {f : StoredAccount → Nat} (hf : Reading 0 f)
    (hblind : ∀ s, (∃ token : TokenAccountState, tryFromSlice s.data = some token) → f s = 0)
    (h : Dealt programId (accountsOf t instr) out a a' o b b' o')
    (hfirst : f o.toStored ≤ f a.toStored) (hsecond : f o'.toStored ≤ f b.toStored) :
    Table.total f (t.write (entries out)) ≤ Table.total f t := by
  obtain ⟨ha, hb⟩ := h.slot hf
  refine Table.total_mono fun k => ?_
  change readAt 0 f (t.write (entries out)) k ≤ readAt 0 f t k
  rcases h.readAt_cases hf hblind k with hsame | ⟨rfl, hnow⟩ | ⟨rfl, hnow⟩
  · exact Nat.le_of_eq hsame
  · rw [hnow, ← ha]
    exact hfirst
  · rw [hnow, ← hb]
    exact hsecond

theorem total {f : StoredAccount → Nat} (hf : Reading 0 f)
    (hblind : ∀ s, (∃ token : TokenAccountState, tryFromSlice s.data = some token) → f s = 0)
    (h : Dealt programId (accountsOf t instr) out a a' o b b' o')
    (honce : ListedOnce (accountsOf t instr) 0) (honce' : ListedOnce (accountsOf t instr) 1) :
    Table.total f (t.write (entries out)) + f a.toStored + f b.toStored =
      Table.total f t + f o.toStored + f o'.toStored := by
  have hreads := h.reads hf hblind
  obtain ⟨rest, hacc⟩ := eq_cons_cons h.slots.1 h.slots.2
  obtain ⟨rest', rfl⟩ := eq_cons_cons h.outs.1 h.outs.2
  rw [hacc] at hreads honce honce'
  exact total_pair hf hacc hreads honce honce'

/-- The same where the second slot reads as it did. -/
theorem total_alone {f : StoredAccount → Nat} (hf : Reading 0 f)
    (hblind : ∀ s, (∃ token : TokenAccountState, tryFromSlice s.data = some token) → f s = 0)
    (h : Dealt programId (accountsOf t instr) out a a' o b b' o')
    (honce : ListedOnce (accountsOf t instr) 0) (hsame : f o'.toStored = f b.toStored) :
    Table.total f (t.write (entries out)) + f a.toStored = Table.total f t + f o.toStored := by
  have hreads := h.reads hf hblind
  obtain ⟨rest, hacc⟩ := eq_cons_cons h.slots.1 h.slots.2
  obtain ⟨rest', rfl⟩ := eq_cons_cons h.outs.1 h.outs.2
  rw [hacc] at hreads honce
  refine total_first hf hacc ⟨hreads.keys, fun n x y hn hx hy => ?_⟩ honce
  match n with
  | 0 => simp at hn
  | 1 =>
    cases hx
    cases hy
    exact hsame
  | n + 2 => exact hreads.off (n + 2) x y (by simp) hx hy

end Dealt

/-! ## The instructions -/

section
variable {accounts moved mid : List AccountInfo} {a b : AccountInfo} {th th' : Thread}
  {m' : MarketState}

/-- Tokens were moved, then the market and a record written back. -/
theorem storeBoth_dealing {β : Type} [Borsh β] {p' : β} (ha : accounts[0]? = some a)
    (hb : accounts[1]? = some b) (hmoved : Shifted th th' accounts moved)
    (h : storeBoth moved m' p' = .ok mid) : ∃ d e, toVec m' = some d ∧ toVec p' = some e ∧
      Dealing th th' accounts mid a { a with data := d } b { b with data := e } := by
  obtain ⟨first, hfirst, hsecond⟩ := bind_eq_ok.mp h
  obtain ⟨x, d, hx, hxw, hd, rfl⟩ := store_eq_ok hfirst
  obtain ⟨y, e, hy, hyw, he, rfl⟩ := store_eq_ok hsecond
  rw [hmoved.low 0 (by decide), ha, Option.some.injEq] at hx
  rw [List.getElem?_set_ne (by decide), hmoved.low 1 (by decide), hb, Option.some.injEq] at hy
  subst hx
  subst hy
  exact ⟨d, e, hd, he, ⟨ha, hb⟩, ⟨moved, hmoved, rfl⟩, ⟨d, rfl, .inr hxw⟩,
    ⟨e, rfl, .inr ⟨hxw, hyw⟩⟩⟩

/-- Only the market was written. -/
theorem store_dealing (ha : accounts[0]? = some a) (hb : accounts[1]? = some b)
    (h : store accounts 0 m' = .ok mid) : ∃ d, toVec m' = some d ∧
      Dealing th th accounts mid a { a with data := d } b b := by
  obtain ⟨x, d, hx, hxw, hd, rfl⟩ := store_eq_ok h
  obtain rfl : a = x := Option.some.inj (ha.symm.trans hx)
  refine ⟨d, hd, ⟨ha, hb⟩, ⟨accounts, .refl, ?_⟩, ⟨d, rfl, .inr hxw⟩, ⟨b.data, rfl, .inl rfl⟩⟩
  refine List.ext_getElem? fun n => ?_
  by_cases hn : 1 = n
  · subst hn
    obtain ⟨hlt, hget⟩ := List.getElem?_eq_some_iff.mp hb
    rw [List.getElem?_set_self (by rw [List.length_set]; exact hlt),
      List.getElem?_set_ne (by decide), hb]
  · rw [List.getElem?_set_ne hn]

/-- Both through the gate. -/
theorem storeBoth_dealt {β : Type} [Borsh β] {p' : β} {programId : Pubkey}
    {out : List AccountInfo} {th'' : Thread} (hdup : rejectDuplicateWritable accounts = .ok ())
    (happ : th.approved = ∅) (ha : accounts[0]? = some a) (hb : accounts[1]? = some b)
    (hmoved : Shifted th th' accounts moved) (h : storeBoth moved m' p' = .ok mid)
    (hgate : Comp.Returns (validateWrites programId accounts mid) th' out th'') :
    ∃ d e o o', toVec m' = some d ∧ toVec p' = some e ∧
      Dealt programId accounts out a { a with data := d } o b { b with data := e } o' := by
  obtain ⟨d, e, hd, he, hdealing⟩ := storeBoth_dealing ha hb hmoved h
  obtain ⟨o, o', hdealt⟩ := hdealing.dealt hdup happ hgate
  exact ⟨d, e, o, o', hd, he, hdealt⟩

theorem store_dealt {programId : Pubkey} {out : List AccountInfo} {th'' : Thread}
    (hdup : rejectDuplicateWritable accounts = .ok ()) (happ : th.approved = ∅)
    (ha : accounts[0]? = some a) (hb : accounts[1]? = some b)
    (h : store accounts 0 m' = .ok mid)
    (hgate : Comp.Returns (validateWrites programId accounts mid) th out th'') :
    ∃ d o o', toVec m' = some d ∧
      Dealt programId accounts out a { a with data := d } o b b o' := by
  obtain ⟨d, hd, hdealing⟩ : ∃ d, toVec m' = some d ∧
      Dealing th th accounts mid a { a with data := d } b b := store_dealing ha hb h
  obtain ⟨o, o', hdealt⟩ := hdealing.dealt hdup happ hgate
  exact ⟨d, o, o', hd, hdealt⟩

end

/-- **One instruction of the money market.** -/
theorem market_tableStep {ex : Executor} {mode : Mode} {tx : RuntimeTransaction}
    {t t' : Accounts} {instr : Instruction}
    (hprog : instr.programId = ProgramIds.moneyMarketProgram)
    (h : tableStep ex mode tx t instr = some t') :
    ∃ ix mid out th th₁ th₂, tryFromSlice instr.data = some ix ∧
      rejectDuplicateWritable (accountsOf t instr) = .ok () ∧ th.approved = ∅ ∧
      MarketPost ex.machine.profile tx.message.timestamp th th₁ (accountsOf t instr) mid ix ∧
      Comp.Returns (validateWrites ProgramIds.moneyMarketProgram (accountsOf t instr) mid) th₁ out
        th₂ ∧ t' = t.write (entries out) := by
  obtain ⟨hdup, out, hout, rfl⟩ := tableStep_output h
  obtain ⟨th₃, hdispatch⟩ := output_dispatch (by rw [hprog]; rfl) (by rw [hprog]; decide) hout
  obtain ⟨mid, th, th₁, happ, hrun, hgate⟩ := dispatch_returns hdispatch
  rw [hprog] at hrun hgate
  rw [runBuiltin_moneyMarket] at hrun
  obtain ⟨ix, hix, hrun'⟩ := returns_lift hrun
  exact ⟨ix, mid, out, th, th₁, th₃, okOr_eq_ok.mp hix, hdup, happ, market_run_post hrun', hgate,
    rfl⟩

end Proof
end Himsha
