import Himsha.Proof.ProgramRuns

/-!
# What a runes instruction does to its slots

Every runes instruction writes its first slot, or its first two, and decodes whatever is there. The
two layouts of the program have a length in common: the record of a rune with a name of six bytes
and no open mint is as long as a balance, and is one of an `Ambiguous` rune (`rune_ambiguous`). All
other records are of one kind only.
-/

set_option autoImplicit false

namespace Himsha
namespace Proof

open Himsha.Lib Himsha.Runtime Himsha.Programs Himsha.Vm Runes

/-! ## The two layouts -/

theorem serAll_bytes {bs out : List UInt8} (h : serAll bs = some out) : out = bs := by
  induction bs generalizing out with
  | nil => exact (Option.some.inj h).symm
  | cons b bs ih =>
    obtain ⟨xs, hx, hrest⟩ := Option.bind_eq_some_iff.mp h
    obtain ⟨ys, hy, rfl⟩ := Option.map_eq_some_iff.mp hrest
    rw [ih hy, ← Option.some.inj hx]
    simp [leBytes]

/-- The bytes of a name, without their number. -/
def nameBytes (name : String) : List UInt8 := name.toByteArray.data.toList

def termsBytes : Option MintTerms → List UInt8
  | none => [0]
  | some t => 1 :: (leBytes 8 t.amount.toNat ++ (leBytes 8 t.cap.toNat ++
      (leBytes 8 t.mints.toNat ++ (leBytes 8 t.start.toNat ++ leBytes 8 t.stop.toNat))))

theorem balance_bytes {y : RuneBalance} {d : List UInt8} (h : toVec y = some d) :
    d = y.rune.bytes.bytes ++ (y.owner.bytes.bytes ++ (leBytes 8 y.amount.toNat ++
      [if y.isInitialized then 1 else 0])) :=
  (Option.some.inj h).symm

theorem etching_bytes {x : RuneEtching} {d : List UInt8} (h : toVec x = some d) :
    d = leBytes 4 (nameBytes x.name).length ++ (nameBytes x.name ++
      (leBytes 4 x.symbol.toNat ++ (leBytes 1 x.divisibility.toNat ++ (x.etcher.bytes.bytes ++
      (leBytes 8 x.premine.toNat ++ (termsBytes x.terms ++ (leBytes 8 x.minted.toNat ++
      (leBytes 8 x.burned.toNat ++ [if x.isEtched then 1 else 0])))))))) := by
  obtain ⟨name, hname, hrest⟩ := Option.bind_eq_some_iff.mp h
  obtain ⟨rest, hser, rfl⟩ := Option.map_eq_some_iff.mp hrest
  have hname' : name = leBytes 4 (nameBytes x.name).length ++ nameBytes x.name := by
    have hlength : (if (nameBytes x.name).length < 2 ^ 32 then
        (serAll (nameBytes x.name)).map fun bs => leBytes 4 (nameBytes x.name).length ++ bs
          else none) = some name := hname
    split at hlength
    · obtain ⟨out, hout, rfl⟩ := Option.map_eq_some_iff.mp hlength
      rw [serAll_bytes hout]
    · simp at hlength
  have hrest' : rest = leBytes 4 x.symbol.toNat ++ (leBytes 1 x.divisibility.toNat ++
      (x.etcher.bytes.bytes ++ (leBytes 8 x.premine.toNat ++ (termsBytes x.terms ++
        (leBytes 8 x.minted.toNat ++ (leBytes 8 x.burned.toNat ++
          [if x.isEtched then 1 else 0])))))) := by
    obtain ⟨name', symbol, divisibility, etcher, premine, terms, minted, burned, isEtched⟩ := x
    cases terms with
    | none => exact (Option.some.inj hser).symm
    | some t => exact (Option.some.inj hser).symm
  rw [hname', hrest', List.append_assoc]

/-- A balance of this rune may be the record of another rune as well: it begins like one with a
    name of six bytes. -/
def Ambiguous (rune : Pubkey) : Prop := rune.bytes.bytes.take 4 = [6, 0, 0, 0]

instance (rune : Pubkey) : Decidable (Ambiguous rune) :=
  inferInstanceAs (Decidable (_ = _))

section
variable {x : RuneEtching} {y : RuneBalance} {d : List UInt8}

theorem name_six (hx : toVec x = some d) (hy : toVec y = some d) :
    (nameBytes x.name).length = 6 ∧ x.terms = none := by
  have hlen := congrArg List.length ((etching_bytes hx).symm.trans (balance_bytes hy))
  simp only [List.length_append, length_leBytes, Blob.length_eq, List.length_singleton] at hlen
  cases hterms : x.terms with
  | none =>
    rw [hterms] at hlen
    simp only [termsBytes, List.length_singleton] at hlen
    exact ⟨by omega, rfl⟩
  | some t =>
    rw [hterms] at hlen
    simp only [termsBytes, List.length_cons, List.length_append, length_leBytes] at hlen
    omega

/-- **A record of both kinds.** -/
theorem rune_ambiguous (hx : tryFromSlice d = some x) (hy : tryFromSlice d = some y) :
    Ambiguous y.rune := by
  have hx' := toVec_tryFromSlice hx
  have hy' := toVec_tryFromSlice hy
  have hfour := congrArg (List.take 4) ((balance_bytes hy').symm.trans (etching_bytes hx'))
  rw [(name_six hx' hy').1, List.take_append_of_le_length (by rw [Blob.length_eq]; omega),
    List.take_append_of_le_length (by rw [length_leBytes])] at hfour
  exact hfour.trans (by decide)

/-- What stands in the record of such a rune where a balance has its owner. -/
def ownerRead (etcher : Pubkey) (premine minted : UInt64) : List UInt8 :=
  etcher.bytes.bytes.drop 17 ++ (leBytes 8 premine.toNat ++ 0 :: leBytes 8 minted.toNat)

theorem etching_reads (hx : toVec x = some d) (hname : (nameBytes x.name).length = 6)
    (hterms : x.terms = none) : ∃ y : RuneBalance, tryFromSlice d = some y ∧
      y.owner.bytes.bytes = ownerRead x.etcher x.premine x.minted ∧ y.amount = x.burned ∧
      y.isInitialized = x.isEtched := by
  have hrune : (leBytes 4 6 ++ (nameBytes x.name ++ (leBytes 4 x.symbol.toNat ++
      (leBytes 1 x.divisibility.toNat ++ x.etcher.bytes.bytes.take 17)))).length = 32 := by
    simp only [List.length_append, length_leBytes, List.length_take, Blob.length_eq, hname]
    omega
  have howner : (ownerRead x.etcher x.premine x.minted).length = 32 := by
    simp only [ownerRead, List.length_append, List.length_cons, length_leBytes, List.length_drop,
      Blob.length_eq]
  let y : RuneBalance := ⟨⟨⟨_, hrune⟩⟩, ⟨⟨_, howner⟩⟩, x.burned, x.isEtched⟩
  refine ⟨y, tryFromSlice_toVec (a := y) ?_, rfl, rfl, rfl⟩
  have hvec : toVec y = some (y.rune.bytes.bytes ++ (y.owner.bytes.bytes ++
      (leBytes 8 y.amount.toNat ++ [if y.isInitialized then 1 else 0]))) := rfl
  rw [hvec, etching_bytes hx, hname, hterms, Option.some.injEq]
  -- The key of the etcher is divided between the two.
  have hsplit : x.etcher.bytes.bytes =
      x.etcher.bytes.bytes.take 17 ++ x.etcher.bytes.bytes.drop 17 :=
    (List.take_append_drop 17 _).symm
  conv_rhs => rw [hsplit]
  simp only [y, ownerRead, termsBytes, List.append_assoc, List.cons_append, List.nil_append]

end

/-! ## The instructions -/

/-- The balance in an account, the default one where there is none. -/
def balanceIn (a : AccountInfo) : RuneBalance := (tryFromSlice a.data).getD {}

/-- The first two slots, rewritten. -/
structure Rewrites (accounts mid : List AccountInfo) (a b : AccountInfo)
    (rest : List AccountInfo) (d e : List UInt8) : Prop where
  given : accounts = a :: b :: rest
  left : mid = { a with data := d } :: { b with data := e } :: rest

/-- What an instruction that succeeds finds in its slots and leaves there. -/
def RunesPost (accounts mid : List AccountInfo) : RuneInstruction → Prop
  | .etch name symbol divisibility premine terms => ∃ a b c rest d e,
      Rewrites accounts mid a b (c :: rest) d e ∧ c.isSigner = true ∧
      ((tryFromSlice a.data).getD ({} : RuneEtching)).isEtched = false ∧
      toVec ({ name, symbol, divisibility, etcher := c.key, premine, terms, minted := premine
               burned := 0, isEtched := true } : RuneEtching) = some d ∧
      (premine = 0 ∧ e = b.data ∨ premine ≠ 0 ∧ ∃ amount,
        amount.toNat = (balanceIn b).amount.toNat + premine.toNat ∧
        toVec ({ rune := a.key, owner := c.key, amount, isInitialized := true } : RuneBalance) =
          some e)
  | .mint => ∃ a b c rest d e, ∃ (rune : RuneEtching) (terms : MintTerms)
      (mints minted amount : UInt64), Rewrites accounts mid a b (c :: rest) d e ∧
      tryFromSlice a.data = some rune ∧ rune.isEtched = true ∧ rune.terms = some terms ∧
      (terms.cap = 0 ∨ terms.mints < terms.cap) ∧ mints.toNat = terms.mints.toNat + 1 ∧
      minted.toNat = rune.minted.toNat + terms.amount.toNat ∧
      toVec { rune with terms := some { terms with mints }, minted } = some d ∧
      amount.toNat = (balanceIn b).amount.toNat + terms.amount.toNat ∧
      toVec ({ rune := a.key
               owner := if (balanceIn b).owner == default then c.key else (balanceIn b).owner
               amount, isInitialized := true } : RuneBalance) = some e
  | .transfer n => ∃ a b rest d e, ∃ (src : RuneBalance) (left amount : UInt64),
      Rewrites accounts mid a b rest d e ∧ tryFromSlice a.data = some src ∧
      src.isInitialized = true ∧
      ((balanceIn b).isInitialized = true → (balanceIn b).rune = src.rune) ∧
      left.toNat + n.toNat = src.amount.toNat ∧
      toVec ({ src with amount := left } : RuneBalance) = some d ∧
      amount.toNat = (balanceIn b).amount.toNat + n.toNat ∧
      toVec ({ rune := src.rune
               owner := if (balanceIn b).owner == default then b.key else (balanceIn b).owner
               amount, isInitialized := true } : RuneBalance) = some e
  | .burn n => ∃ a b rest d e, ∃ (rune : RuneEtching) (src : RuneBalance) (left burned : UInt64),
      Rewrites accounts mid a b rest d e ∧ tryFromSlice a.data = some rune ∧
      tryFromSlice b.data = some src ∧ src.isInitialized = true ∧
      burned.toNat = rune.burned.toNat + n.toNat ∧
      toVec ({ rune with burned } : RuneEtching) = some d ∧
      left.toNat + n.toNat = src.amount.toNat ∧
      toVec ({ src with amount := left } : RuneBalance) = some e
  | .initBalance => ∃ a b rest d, Rewrites accounts mid a b rest d b.data ∧
      (balanceIn a).isInitialized = false ∧
      toVec { balanceIn a with owner := b.key, isInitialized := true } = some d

section
variable {accounts mid : List AccountInfo} {timestamp : UInt64}

/-- Two stores, one after the other. -/
theorem store_two {α β : Type} [Borsh α] [Borsh β] {v : α} {w : β} {a b : AccountInfo}
    {rest mid' : List AccountInfo} (hfirst : store (a :: b :: rest) 0 v = .ok mid')
    (hsecond : store mid' 1 w = .ok mid) : ∃ d e, toVec v = some d ∧ toVec w = some e ∧
      Rewrites (a :: b :: rest) mid a b rest d e := by
  obtain ⟨a', d, ha, -, hd, rfl⟩ := store_eq_ok hfirst
  obtain ⟨b', e, hb, -, he, rfl⟩ := store_eq_ok hsecond
  cases ha
  cases hb
  exact ⟨d, e, hd, he, rfl, rfl⟩

/-- A table of three accounts at least. -/
theorem requireAuthority_eq_ok {u : Unit} (h : requireAuthority accounts = .ok u) :
    ∃ a b c rest, accounts = a :: b :: c :: rest ∧ c.isSigner = true := by
  obtain ⟨_, hlen, h₁⟩ := bind_eq_ok.mp h
  obtain ⟨c, hc, hsigned⟩ := bind_eq_ok.mp h₁
  match accounts with
  | a :: b :: c' :: rest =>
    cases slot_eq_ok hc
    exact ⟨a, b, c, rest, rfl, require_eq_ok.mp hsigned⟩
  | [] | [_] | [_, _] => simp at hlen

theorem loadOr_balance {i : Nat} {bal : RuneBalance} {a : AccountInfo}
    (h : loadOr accounts i ({} : RuneBalance) = .ok bal) (ha : accounts[i]? = some a) :
    bal = balanceIn a := by
  obtain ⟨a', ha', rfl⟩ := loadOr_eq_ok h
  rw [ha, Option.some.injEq] at ha'
  rw [ha', balanceIn]

/-- **Inversion of a runes instruction that succeeded.** -/
theorem runes_run_post {ix : RuneInstruction} (h : Runes.run accounts timestamp ix = .ok mid) :
    RunesPost accounts mid ix := by
  cases ix with
  | etch name symbol divisibility premine terms =>
    obtain ⟨_, hauth, h₁⟩ := bind_eq_ok.mp h
    obtain ⟨a, b, c, rest, rfl, hsigned⟩ := requireAuthority_eq_ok hauth
    obtain ⟨_, -, h₂⟩ := bind_eq_ok.mp h₁
    obtain ⟨_, -, h₃⟩ := bind_eq_ok.mp h₂
    obtain ⟨_, ha, h₄⟩ := bind_eq_ok.mp h₃
    obtain ⟨_, hc, h₅⟩ := bind_eq_ok.mp h₄
    obtain ⟨rune, hrune, h₆⟩ := bind_eq_ok.mp h₅
    obtain ⟨_, hfresh, h₇⟩ := bind_eq_ok.mp h₆
    obtain ⟨mid', hstore, h₈⟩ := bind_eq_ok.mp h₇
    cases slot_eq_ok ha
    cases slot_eq_ok hc
    obtain ⟨_, ha', hold⟩ := loadOr_eq_ok hrune
    cases ha'
    subst hold
    obtain ⟨_, d, ha', -, hd, hmid⟩ := store_eq_ok hstore
    cases ha'
    have hunetched : ((tryFromSlice a.data).getD ({} : RuneEtching)).isEtched = false := by
      simpa using hfresh
    by_cases hpremine : premine > 0
    · rw [if_pos hpremine] at h₈
      obtain ⟨bal, hbal, h₉⟩ := bind_eq_ok.mp h₈
      obtain ⟨amount, hamount, h₁₀⟩ := bind_eq_ok.mp h₉
      obtain rfl := loadOr_balance hbal (a := b) (by rw [hmid]; rfl)
      obtain ⟨d', e, hd', he, hrewrites⟩ := store_two hstore h₁₀
      rw [hd, Option.some.injEq] at hd'
      subst hd'
      refine ⟨a, b, c, rest, d, e, hrewrites, hsigned, hunetched, hd, .inr ⟨?_, amount, ?_, he⟩⟩
      · rintro rfl
        exact absurd hpremine (by decide)
      · exact checkedAdd_eq_some (okOr_eq_ok.mp hamount)
    · rw [if_neg hpremine] at h₈
      cases h₈
      have hzero : premine = 0 := by
        have hle : premine ≤ 0 := UInt64.not_lt.mp hpremine
        exact UInt64.le_antisymm hle (UInt64.zero_le)
      exact ⟨a, b, c, rest, d, b.data, ⟨rfl, hmid⟩, hsigned, hunetched, hd, .inl ⟨hzero, rfl⟩⟩
  | mint =>
    obtain ⟨_, hauth, h₁⟩ := bind_eq_ok.mp h
    obtain ⟨a, b, c, rest, rfl, -⟩ := requireAuthority_eq_ok hauth
    obtain ⟨_, ha, h₂⟩ := bind_eq_ok.mp h₁
    obtain ⟨rune, hrune, h₃⟩ := bind_eq_ok.mp h₂
    obtain ⟨_, hetched, h₄⟩ := bind_eq_ok.mp h₃
    obtain ⟨terms, hterms, h₅⟩ := bind_eq_ok.mp h₄
    obtain ⟨_, hcap, h₆⟩ := bind_eq_ok.mp h₅
    obtain ⟨_, -, h₇⟩ := bind_eq_ok.mp h₆
    obtain ⟨_, -, h₈⟩ := bind_eq_ok.mp h₇
    obtain ⟨mints, hmints, h₉⟩ := bind_eq_ok.mp h₈
    obtain ⟨minted, hminted, h₁₀⟩ := bind_eq_ok.mp h₉
    obtain ⟨mid', hstore, h₁₁⟩ := bind_eq_ok.mp h₁₀
    obtain ⟨bal, hbal, h₁₂⟩ := bind_eq_ok.mp h₁₁
    obtain ⟨_, hc, h₁₃⟩ := bind_eq_ok.mp h₁₂
    obtain ⟨amount, hamount, h₁₄⟩ := bind_eq_ok.mp h₁₃
    cases slot_eq_ok ha
    obtain ⟨_, ha', hdata⟩ := load_eq_ok hrune
    cases ha'
    obtain ⟨_, d, ha', -, hd, hmid⟩ := store_eq_ok hstore
    cases ha'
    obtain rfl := loadOr_balance hbal (a := b) (by rw [hmid]; rfl)
    have hthird := slot_eq_ok hc
    rw [hmid] at hthird
    cases hthird
    obtain ⟨d', e, hd', he, hrewrites⟩ := store_two hstore h₁₄
    have hunder : terms.cap = 0 ∨ terms.mints < terms.cap := by simpa using hcap
    exact ⟨a, b, c, rest, d', e, rune, terms, mints, minted, amount, hrewrites, hdata,
      require_eq_ok.mp hetched, okOr_eq_ok.mp hterms, hunder,
      by simpa using checkedAdd_eq_some (okOr_eq_ok.mp hmints),
      checkedAdd_eq_some (okOr_eq_ok.mp hminted), hd',
      checkedAdd_eq_some (okOr_eq_ok.mp hamount), he⟩
  | transfer n =>
    obtain ⟨_, hauth, h₁⟩ := bind_eq_ok.mp h
    obtain ⟨a, b, c, rest, rfl, -⟩ := requireAuthority_eq_ok hauth
    obtain ⟨src, hsrc, h₂⟩ := bind_eq_ok.mp h₁
    obtain ⟨_, hinit, h₃⟩ := bind_eq_ok.mp h₂
    obtain ⟨dst, hdst, h₄⟩ := bind_eq_ok.mp h₃
    obtain ⟨_, hrune, h₅⟩ := bind_eq_ok.mp h₄
    obtain ⟨left, hleft, h₆⟩ := bind_eq_ok.mp h₅
    obtain ⟨_, hb, h₇⟩ := bind_eq_ok.mp h₆
    obtain ⟨amount, hamount, h₈⟩ := bind_eq_ok.mp h₇
    obtain ⟨mid', hstore, h₉⟩ := bind_eq_ok.mp h₈
    cases slot_eq_ok hb
    obtain ⟨_, ha', hdata⟩ := load_eq_ok hsrc
    cases ha'
    obtain rfl := loadOr_balance hdst (a := b) rfl
    obtain ⟨d, e, hd, he, hrewrites⟩ := store_two hstore h₉
    refine ⟨a, b, c :: rest, d, e, src, left, amount, hrewrites, hdata, require_eq_ok.mp hinit,
      fun hready => ?_, checkedSub_eq_some (okOr_eq_ok.mp hleft), hd,
      checkedAdd_eq_some (okOr_eq_ok.mp hamount), he⟩
    simpa [hready] using hrune
  | burn n =>
    obtain ⟨_, hauth, h₁⟩ := bind_eq_ok.mp h
    obtain ⟨a, b, c, rest, rfl, -⟩ := requireAuthority_eq_ok hauth
    obtain ⟨rune, hrune, h₂⟩ := bind_eq_ok.mp h₁
    obtain ⟨src, hsrc, h₃⟩ := bind_eq_ok.mp h₂
    obtain ⟨_, hinit, h₄⟩ := bind_eq_ok.mp h₃
    obtain ⟨left, hleft, h₅⟩ := bind_eq_ok.mp h₄
    obtain ⟨burned, hburned, h₆⟩ := bind_eq_ok.mp h₅
    obtain ⟨mid', hstore, h₇⟩ := bind_eq_ok.mp h₆
    obtain ⟨_, ha', hdata⟩ := load_eq_ok hrune
    cases ha'
    obtain ⟨_, hb', hdata'⟩ := load_eq_ok hsrc
    cases hb'
    obtain ⟨d, e, hd, he, hrewrites⟩ := store_two hstore h₇
    exact ⟨a, b, c :: rest, d, e, rune, src, left, burned, hrewrites, hdata, hdata',
      require_eq_ok.mp hinit, checkedAdd_eq_some (okOr_eq_ok.mp hburned), hd,
      checkedSub_eq_some (okOr_eq_ok.mp hleft), he⟩
  | initBalance =>
    obtain ⟨_, hlen, h₁⟩ := bind_eq_ok.mp h
    obtain ⟨b, hb, h₂⟩ := bind_eq_ok.mp h₁
    obtain ⟨bal, hbal, h₃⟩ := bind_eq_ok.mp h₂
    obtain ⟨_, hfresh, h₄⟩ := bind_eq_ok.mp h₃
    obtain ⟨a, d, ha, -, hd, rfl⟩ := store_eq_ok h₄
    obtain ⟨rest, rfl⟩ := eq_cons_cons ha (slot_eq_ok hb)
    obtain rfl := loadOr_balance hbal (a := a) rfl
    exact ⟨a, b, rest, d, ⟨rfl, rfl⟩, by simpa using hfresh, hd⟩

end

/-- A runes instruction, from its decoding to the gate. -/
theorem runes_dispatch {π : Profile} {hasher : Lending.Hasher} {accounts out : List AccountInfo}
    {data : List UInt8} {timestamp : UInt64} {th th' : Thread}
    (h : Comp.Returns (dispatch π hasher ProgramIds.runesProgram accounts data timestamp) th out
      th') : ∃ ix mid th₁, tryFromSlice data = some ix ∧ RunesPost accounts mid ix ∧
      th₁.approved = ∅ ∧
      Comp.Returns (validateWrites ProgramIds.runesProgram accounts mid) th₁ out th' := by
  obtain ⟨mid, th₁, hmid, happ, hgate⟩ := dispatch_ofExcept (runBuiltin_runes _ _ _ _ _) h
  obtain ⟨ix, hix, hrun'⟩ := bind_eq_ok.mp hmid
  exact ⟨ix, mid, th₁, okOr_eq_ok.mp hix, runes_run_post hrun', happ, hgate⟩

end Proof
end Himsha
