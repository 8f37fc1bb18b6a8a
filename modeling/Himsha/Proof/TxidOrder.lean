import Himsha.Node.Indexer
import Himsha.Proof.LoanDue

/-!
# Which output a settlement spends

The indexer reports an output under the internal bytes of its transaction id, and these are what a
loan keeps of it. A settlement writes them as they stand, but the text of an id is read in reverse:
the call names the reported output only where the bytes read the same from both ends
(`settled_outpoint_iff`). A call comes to a payment where `Outside.sends` says so (`perform_sends`).
-/

set_option autoImplicit false

namespace Himsha
namespace Proof

open Himsha.Lib Himsha.Runtime Himsha.Programs Himsha.Node

/-! ## What is reported -/

section
variable {Txid : Type} {ix : BitcoinIndexer Txid}

theorem called_eq_ok {α : Type} {answer : Option α} {a : α} :
    BitcoinIndexer.called answer = .ok a ↔ answer = some a := by
  cases answer <;> simp [BitcoinIndexer.called]

section
variable {α β : Type} {a : α} {f : α → Except IndexerError β} {e : IndexerError}

theorem called_some : (BitcoinIndexer.called (some a) >>= f) = f a := rfl

theorem called_none : (BitcoinIndexer.called (none : Option α) >>= f) = .error .outside := rfl

theorem orElse_some : (BitcoinIndexer.orElse e (some a) >>= f) = f a := rfl

theorem orElse_none : (BitcoinIndexer.orElse e (none : Option α) >>= f) = .error e := rfl

end

/-- The indexer reports output `vout` of `t` under this reference, for its text or in a list. -/
inductive Reports (ix : BitcoinIndexer Txid) (t : Txid) (vout : UInt32) (utxo : UtxoMeta) : Prop
  | asked (text : String) (info : UtxoInfo) (htext : ix.api.fromStr text = some t)
      (hinfo : ix.getUtxo text vout = .ok (some info)) (hutxo : info.utxoMeta = utxo)
  | listed (address addr : String) (unspent : List (Unspent Txid)) (infos : List UtxoInfo)
      (i : Nat) (u : Unspent Txid) (info : UtxoInfo) (haddr : ix.address address = some addr)
      (hunspent : ix.rpc.listUnspent addr = some unspent) (hu : unspent[i]? = some u)
      (ht : u.txid = t) (hvout : u.vout = vout)
      (hinfos : ix.listAddressUtxos address = .ok infos) (hinfo : infos[i]? = some info)
      (hutxo : info.utxoMeta = utxo)

theorem reports_eq {t : Txid} {vout : UInt32} {utxo : UtxoMeta} (h : Reports ix t vout utxo) :
    utxo = ⟨ix.api.asRef t, vout⟩ := by
  cases h with
  | asked text info htext hinfo hutxo =>
    obtain ⟨parsed, hparsed, h₁⟩ := bind_eq_ok.mp hinfo
    obtain ⟨txOut, -, h₂⟩ := bind_eq_ok.mp h₁
    obtain ⟨out, -, rfl⟩ := Option.map_eq_some_iff.mp (Except.ok.inj h₂)
    have hsame := called_eq_ok.mp hparsed
    rw [htext, Option.some.injEq] at hsame
    rw [← hutxo, hsame]
    rfl
  | listed address addr unspent infos i u info haddr hunspent hu ht hvout hinfos hinfo hutxo =>
    obtain ⟨addr', haddr', h₁⟩ := bind_eq_ok.mp hinfos
    obtain ⟨unspent', hunspent', h₂⟩ := bind_eq_ok.mp h₁
    have hsame := called_eq_ok.mp haddr'
    rw [haddr, Option.some.injEq] at hsame
    rw [← hsame, called_eq_ok, hunspent, Option.some.injEq] at hunspent'
    subst hunspent'
    obtain rfl := Except.ok.inj h₂
    rw [List.getElem?_map, hu, Option.map_some, Option.some.injEq] at hinfo
    rw [← hutxo, ← hinfo, ht, hvout]
    rfl

/-! ## What a call spends -/

/-- The output that the text of a call names. -/
def outpoint (api : TxidApi Txid) : Effect → Option (Txid × UInt32)
  | .transferUtxo text vout _ => (api.fromStr text).map (·, vout)
  | .transferUtxoCommittee text vout _ => (api.fromStr text).map (·, vout)
  | _ => none

/-- The answer of the one call that pays. -/
inductive Broadcast (ix : BitcoinIndexer Txid) : Except IndexerError String → Prop
  | toAddress (addr : String) (sats : UInt64) : Broadcast ix (do
      let txid ← BitcoinIndexer.called (ix.rpc.sendToAddress addr sats)
      return ix.api.display txid)
  | raw (bytes : List UInt8) : Broadcast ix (do
      let txid ← BitcoinIndexer.called (ix.rpc.sendRawTransaction bytes)
      return ix.api.display txid)

/-- What is configured outside is this indexer, with the committee that signs for it. -/
structure Speaks (o : Outside) (past : List Effect) (ix : BitcoinIndexer Txid)
    (sign : Txid × UInt32 → UInt64 → String × UInt64 → Option String) : Prop where
  txid : ∀ text, (ix.api.fromStr text).isSome = (parseTxid text).isSome
  address : ∀ text, (ix.address text).isSome = o.address text
  txOut : ∀ text t vout, ix.api.fromStr text = some t →
    ((ix.rpc.getTxOut t vout).join).map (·.value) = o.txOut past text vout
  wallet : ∀ text t vout recipient addr out send, ix.api.fromStr text = some t →
    ix.address recipient = some addr → ix.rpc.getTxOut t vout = some (some out) →
    checkedSub out.value feeSats = some send →
    ((ix.rpc.createRawTransaction [(t, vout)] [(addr, send)]).bind
      ix.rpc.signRawTransactionWithWallet).any (·.1) =
      o.signs past (.transferUtxo text vout recipient)
  committee : ∀ text t vout recipient addr out send, ix.api.fromStr text = some t →
    ix.address recipient = some addr → ix.rpc.getTxOut t vout = some (some out) →
    checkedSub out.value feeSats = some send →
    ((sign (t, vout) out.value (addr, send)).bind fun text => hexDecode text.toList).isSome =
      o.signs past (.transferUtxoCommittee text vout recipient)

section
variable {o : Outside} {past : List Effect}
  {sign : Txid × UInt32 → UInt64 → String × UInt64 → Option String}

theorem sendPayment_sends (h : Speaks o past ix sign) (recipient : String) (sats : UInt64) :
    if o.sends past (.sendPayment recipient sats) then
      Broadcast ix (ix.sendPayment recipient sats)
    else ∃ e, ix.sendPayment recipient sats = .error e := by
  have hsends : o.sends past (.sendPayment recipient sats) = (ix.address recipient).isSome :=
    (h.address recipient).symm
  rw [hsends]
  unfold BitcoinIndexer.sendPayment
  cases ix.address recipient with
  | none => exact ⟨_, rfl⟩
  | some addr => exact .toAddress addr sats

theorem transferUtxo_sends (h : Speaks o past ix sign) (text : String) (vout : UInt32)
    (recipient : String) :
    if o.sends past (.transferUtxo text vout recipient) then
      Broadcast ix (ix.transferUtxo text vout recipient)
    else ∃ e, ix.transferUtxo text vout recipient = .error e := by
  have hsends : o.sends past (.transferUtxo text vout recipient) =
      ((ix.api.fromStr text).isSome && (ix.address recipient).isSome &&
        ((o.txOut past text vout).bind (checkedSub · feeSats)).isSome &&
        o.signs past (.transferUtxo text vout recipient)) := by
    rw [h.txid, h.address]
    rfl
  rw [hsends]
  unfold BitcoinIndexer.transferUtxo
  cases ht : ix.api.fromStr text with
  | none => exact ⟨_, rfl⟩
  | some t =>
    rw [called_some, ← h.txOut text t vout ht]
    cases haddr : ix.address recipient with
    | none => exact ⟨_, rfl⟩
    | some addr =>
      rw [called_some]
      cases hfound : ix.rpc.getTxOut t vout with
      | none => exact ⟨_, rfl⟩
      | some found =>
        rw [called_some]
        cases found with
        | none => exact ⟨_, rfl⟩
        | some out =>
          rw [orElse_some]
          cases hsend : checkedSub out.value feeSats with
          | none =>
            rw [orElse_none, if_neg (by simp [hsend])]
            exact ⟨_, rfl⟩
          | some send =>
            rw [orElse_some, ← h.wallet text t vout recipient addr out send ht haddr hfound hsend]
            cases hraw : ix.rpc.createRawTransaction [(t, vout)] [(addr, send)] with
            | none =>
              rw [called_none, if_neg (by simp)]
              exact ⟨_, rfl⟩
            | some raw =>
              rw [called_some]
              cases hsigned : ix.rpc.signRawTransactionWithWallet raw with
              | none =>
                rw [called_none, if_neg (by simp [hsigned])]
                exact ⟨_, rfl⟩
              | some answer =>
                obtain ⟨complete, signed⟩ := answer
                rw [called_some]
                cases complete with
                | false =>
                  rw [if_neg (by simp [hsigned])]
                  exact ⟨_, rfl⟩
                | true =>
                  rw [if_pos (by simp [hsend, hsigned])]
                  exact .raw signed

/-- The committee's transfer asks for the output before it reads the address. -/
theorem transferUtxoCommittee_sends (h : Speaks o past ix sign) (text : String) (vout : UInt32)
    (recipient : String) :
    if o.sends past (.transferUtxoCommittee text vout recipient) then
      Broadcast ix (ix.transferUtxoCommittee sign text vout recipient)
    else ∃ e, ix.transferUtxoCommittee sign text vout recipient = .error e := by
  have hsends : o.sends past (.transferUtxoCommittee text vout recipient) =
      ((ix.api.fromStr text).isSome && (ix.address recipient).isSome &&
        ((o.txOut past text vout).bind (checkedSub · feeSats)).isSome &&
        o.signs past (.transferUtxoCommittee text vout recipient)) := by
    rw [h.txid, h.address]
    rfl
  rw [hsends]
  unfold BitcoinIndexer.transferUtxoCommittee BitcoinIndexer.getUtxo
  cases ht : ix.api.fromStr text with
  | none => exact ⟨_, rfl⟩
  | some t =>
    rw [called_some, ← h.txOut text t vout ht]
    cases hfound : ix.rpc.getTxOut t vout with
    | none =>
      rw [if_neg (by simp)]
      exact ⟨_, rfl⟩
    | some found =>
      rw [called_some]
      cases found with
      | none =>
        rw [if_neg (by simp)]
        exact ⟨_, rfl⟩
      | some out =>
        change if _ then Broadcast ix (ix.settleWithCommittee sign text vout out.value recipient
            feeSats >>= ix.broadcast) else
          ∃ e, (ix.settleWithCommittee sign text vout out.value recipient feeSats >>=
            ix.broadcast) = Except.error e
        unfold BitcoinIndexer.settleWithCommittee
        rw [ht, called_some]
        cases hsend : checkedSub out.value feeSats with
        | none =>
          rw [if_neg (by simp [hsend])]
          exact ⟨_, rfl⟩
        | some send =>
          rw [orElse_some]
          cases haddr : ix.address recipient with
          | none =>
            rw [if_neg (by simp)]
            exact ⟨_, rfl⟩
          | some addr =>
            rw [called_some, ← h.committee text t vout recipient addr out send ht haddr hfound
              hsend]
            cases hsigned : sign (t, vout) out.value (addr, send) with
            | none =>
              rw [if_neg (by simp)]
              exact ⟨_, rfl⟩
            | some signedHex =>
              rw [called_some]
              unfold BitcoinIndexer.broadcast
              cases hraw : hexDecode signedHex.toList with
              | none =>
                rw [if_neg (by simp [hraw])]
                exact ⟨_, rfl⟩
              | some raw =>
                rw [if_pos (by simp [hsend, hraw]), called_some]
                exact .raw raw

/-- **A call pays where the executor takes it to.** An on-chain call of the indexer comes to the one
    call that pays exactly where `Outside.sends` says so, and before that it fails. -/
theorem perform_sends (h : Speaks o past ix sign) {call : Effect}
    (honchain : ∀ recipient, call ≠ .payInvoice recipient) :
    if o.sends past call then Broadcast ix (ix.perform sign call)
    else ∃ e, ix.perform sign call = .error e := by
  cases call with
  | payInvoice recipient => exact absurd rfl (honchain recipient)
  | sendPayment recipient sats => exact sendPayment_sends h recipient sats
  | transferUtxo text vout recipient => exact transferUtxo_sends h text vout recipient
  | transferUtxoCommittee text vout recipient =>
    exact transferUtxoCommittee_sends h text vout recipient

end

/-- The hex digits of the internal bytes are the text of the id only where these bytes read the
    same from both ends. -/
theorem fromStr_hexEncode {api : TxidApi Txid} (hapi : api.ReversedHex) (t : Txid) :
    api.fromStr (Lending.hexEncode (api.asRef t).bytes) = some t ↔
      (api.asRef t).bytes.reverse = (api.asRef t).bytes := by
  rw [hapi.fromStr, hexDecode_hexEncode, Option.some.injEq]
  exact eq_comm

theorem outpoint_settlementCall {api : TxidApi Txid} {s : Lending.Settlement} (custody : Bool)
    (hkind : s.kind ≠ .repayment) : outpoint api (settlementCall custody s) =
      (api.fromStr (Lending.hexEncode s.utxo.txid.bytes)).map (·, s.utxo.vout) := by
  unfold settlementCall
  cases hk : s.kind with
  | repayment => exact absurd hk hkind
  | returnInscription => cases custody <;> rfl
  | seizeInscription => cases custody <;> rfl

end

/-! ## What is settled -/

section
variable {π : Profile} {stored : List UInt8} {e : LendingEvent} {id : String}

/-- An inscription that moves is that of the loan. -/
theorem moved_utxo {s : Lending.Settlement} (hs : s ∈ queuedBy π stored e)
    (hkind : s.kind ≠ .repayment) :
    ∃ loan, loanAt stored s.inscriptionId = some loan ∧ s.utxo = loan.inscriptionUtxo := by
  cases hdone : completed π stored e with
  | none =>
    rw [queuedBy_none hdone] at hs
    simp at hs
  | some ix =>
    obtain ⟨hasher, c, signer, coll', rfl, -, -, -, hmove, hnext⟩ := completed_some hdone
    cases ix with
    | initCollection name =>
      obtain ⟨-, rfl⟩ := hmove
      simp [queuedBy, queuedIn, hnext] at hs
    | placeBid utxo value period rate ordinals payments =>
      obtain ⟨before, hbefore, -, rfl⟩ := hmove
      rw [queuedBy_eq hbefore hnext (List.append_nil _).symm] at hs
      simp at hs
    | cancelBid utxo =>
      obtain ⟨before, hbefore, -, rfl⟩ := hmove
      rw [queuedBy_eq hbefore hnext (List.append_nil _).symm] at hs
      simp at hs
    | acceptBid id' utxo ordinals payments =>
      obtain ⟨before, best, hbefore, -, -, rfl⟩ := hmove
      rw [queuedBy_eq hbefore hnext (List.append_nil _).symm] at hs
      simp at hs
    | repayLoan id' utxo amount =>
      obtain ⟨before, loan, due, hbefore, hat, -, rfl⟩ := hmove
      split at hnext
      · rw [queuedBy_eq hbefore hnext rfl, List.mem_pair] at hs
        rcases hs with rfl | rfl
        · exact absurd rfl hkind
        · exact ⟨loan, (loanAt_eq hbefore id').trans hat, rfl⟩
      · rw [queuedBy_eq hbefore hnext rfl, List.mem_singleton] at hs
        subst hs
        exact absurd rfl hkind
    | claimDefault id' =>
      obtain ⟨before, loan, hbefore, hat, -, rfl⟩ := hmove
      rw [queuedBy_eq hbefore hnext rfl, List.mem_singleton] at hs
      subst hs
      exact ⟨loan, (loanAt_eq hbefore id').trans hat, rfl⟩

/-- Whatever moves the inscription of a loan later, in any run until the id is pledged again,
    spends the output that the loan was opened with. -/
theorem queued_utxo {utxo : UtxoMeta} {timestamp : UInt64} {s : Lending.Settlement}
    (hkind : s.kind ≠ .repayment) (es : List LendingEvent) : ∀ {stored : List UInt8},
    (∀ loan, loanAt stored id = some loan → loan.inscriptionUtxo = utxo) →
      (timestamp, s) ∈ queuedFor π id stored es → s.utxo = utxo := by
  induction es with
  | nil =>
    intro stored _ hs
    simp [queuedFor] at hs
  | cons e es ih =>
    intro stored hloans hs
    by_cases hopens : opens π stored e = some id
    · rw [queuedFor, if_pos hopens] at hs
      simp at hs
    · rw [queuedFor_cons hopens, List.mem_append] at hs
      rcases hs with hnow | hlater
      · obtain ⟨s', hs', heq⟩ := List.mem_map.mp hnow
        obtain rfl : s' = s := congrArg Prod.snd heq
        obtain ⟨hmem, hid⟩ := List.mem_filter.mp hs'
        obtain ⟨loan, hloan, hmoved⟩ := moved_utxo hmem hkind
        rw [of_decide_eq_true hid] at hloan
        rw [hmoved]
        exact hloans loan hloan
      · refine ih (fun loan hloan => ?_) hlater
        obtain ⟨old, hold, hterms⟩ := (loan_origin hloan).resolve_left hopens
        rw [hterms]
        exact hloans old hold

end

/-- **When a settlement spends what the indexer reported.** Let the indexer report an output of `t`,
    and a loan be open with that reference. Every move of its inscription that is queued later, in
    any run, is a call when the queue is drained, of the wallet or of the committee; and the output
    that the call names is the reported one if and only if the internal bytes of `t` read the same
    from both ends. -/
theorem settled_outpoint_iff {Txid : Type} (ix : BitcoinIndexer Txid) (hapi : ix.api.ReversedHex)
    (t : Txid) (vout : UInt32) (utxo : UtxoMeta) (hreported : Reports ix t vout utxo)
    (π : Profile) (stored : List UInt8) (id : String) (loan : Lending.Loan)
    (hloan : loanAt stored id = some loan) (hutxo : loan.inscriptionUtxo = utxo)
    (es : List LendingEvent) (timestamp : UInt64) (s : Lending.Settlement)
    (hs : (timestamp, s) ∈ queuedFor π id stored es) (hkind : s.kind ≠ .repayment)
    (o : Outside) (hbitcoin : o.bitcoin = true) :
    (∀ (himshaTxid : Blob 32) (w : World) (accounts : List AccountInfo) (a : AccountInfo),
      a ∈ accounts → s ∈ queuedIn a.data →
        settlementCall o.custody s ∈ (settleLending o himshaTxid w accounts).1.effects) ∧
    (outpoint ix.api (settlementCall o.custody s) = some (t, vout) ↔
      (ix.api.asRef t).bytes.reverse = (ix.api.asRef t).bytes) := by
  constructor
  · intro himshaTxid w accounts a ha hqueued
    rw [settleLending_effects, List.mem_append]
    refine .inr (List.mem_flatMap.mpr ⟨a, ha, List.mem_filterMap.mpr ⟨s, hqueued, ?_⟩⟩)
    rw [callFor, if_neg fun h => hkind h.1, if_pos hbitcoin]
  · have hmoved : s.utxo = ⟨ix.api.asRef t, vout⟩ := by
      rw [← reports_eq hreported]
      refine queued_utxo hkind es (fun l hl => ?_) hs
      rw [hloan, Option.some.injEq] at hl
      rw [← hl, hutxo]
    rw [outpoint_settlementCall o.custody hkind, hmoved, ← fromStr_hexEncode hapi]
    simp

/-! ## Two settlements -/

/-- Ids of the crate, as their internal bytes. -/
def internalIds : TxidApi (Blob 32) where
  asRef := id
  fromStr text := (hexDecode text.toList).bind fun raw =>
    if h : raw.length = 32 then some ⟨raw.reverse, by simpa using h⟩ else none
  display t := Lending.hexEncode t.bytes.reverse

theorem internalIds_reversed : internalIds.ReversedHex := by
  refine ⟨fun _ => rfl, fun text t => ?_⟩
  unfold internalIds
  dsimp only
  rw [Option.bind_eq_some_iff]
  constructor
  · rintro ⟨raw, hraw, h⟩
    split at h
    · rw [Option.some.injEq] at h
      rw [hraw, ← h]
      simp
    · simp at h
  · intro h
    refine ⟨_, h, ?_⟩
    rw [dif_pos (by simpa using t.length_eq)]
    simp

/-- An indexer that knows output 9 of one transaction. -/
def knows (t : Blob 32) : BitcoinIndexer (Blob 32) where
  api := internalIds
  rpc :=
    { getTxOut t' vout := some (if t' = t ∧ vout = 9 then some ⟨10000, [], 1⟩ else none)
      listUnspent _ := none
      sendToAddress _ _ := none
      createRawTransaction _ _ := none
      signRawTransactionWithWallet _ := none
      sendRawTransaction _ := none }
  address := some

theorem knows_reports (t : Blob 32) : Reports (knows t) t 9 ⟨t, 9⟩ := by
  have hread : (knows t).api.fromStr (internalIds.display t) = some t :=
    (internalIds_reversed.fromStr _ t).mpr (hexDecode_hexEncode _)
  refine .asked (internalIds.display t) ⟨⟨t, 9⟩, 10000, "", 1⟩ hread ?_ rfl
  unfold BitcoinIndexer.getUtxo
  rw [hread]
  simp [BitcoinIndexer.called, knows, bind, Except.bind, pure, Except.pure,
    BitcoinIndexer.txidToBytes, internalIds, Lending.hexEncode]

/-- A loan on output 9 of a transaction is open. -/
def pledgedOutput (t : Blob 32) : List UInt8 :=
  storedEnd .dev (lendingNext .dev [] opensBook)
    [bidsWith 0, calls (.repeated 4) (.acceptBid "i0" ⟨t, 9⟩ "o" "b")]

/-- The return of the inscription in output 9 of a transaction. -/
def returnsOutput (t : Blob 32) : Lending.Settlement :=
  { kind := .returnInscription, inscriptionId := "i0", utxo := ⟨t, 9⟩, recipient := "o", amount := 0 }

/-- The transaction id with internal bytes 1, 0, …, 0. -/
def unevenId : Blob 32 := ⟨1 :: List.replicate 31 0, rfl⟩

/-- A Bitcoin wallet is configured, and no committee. -/
def walletOnly : Outside where
  lightning := false
  bitcoin := true
  custody := false
  address := fun text => text == regtestAddress
  txOut := fun _ _ _ => some 10000
  signs := fun _ _ => true
  reply := fun _ _ => none

theorem settled_outpoint_even : outpoint internalIds
    (settlementCall walletOnly.custody (returnsOutput (.zero 32))) = some (.zero 32, 9) := by
  have hloan : (loanAt (pledgedOutput (.zero 32)) "i0").any
      (fun loan => loan.inscriptionUtxo = ⟨.zero 32, 9⟩) = true := by
    decide +kernel
  have hqueued : (50, returnsOutput (.zero 32)) ∈
      queuedFor .dev "i0" (pledgedOutput (.zero 32)) [paysOn 900 50] := by
    decide +kernel
  obtain ⟨loan, hat, hutxo⟩ := (Option.any_eq_true _ _).mp hloan
  exact (settled_outpoint_iff (knows (.zero 32)) internalIds_reversed (.zero 32) 9 _
    (knows_reports _) .dev _ "i0" loan hat (of_decide_eq_true hutxo) [paysOn 900 50] 50 _ hqueued
    (by decide) walletOnly rfl).2.mpr rfl

/-- **A return that names another transaction.** The indexer reports output 9 of a transaction, a
    loan is opened on it and repaid; the call names output 9 of the transaction with the id read
    backwards. -/
theorem settles_backwards : Reports (knows unevenId) unevenId 9 ⟨unevenId, 9⟩ ∧
    (loanAt (pledgedOutput unevenId) "i0").map (·.inscriptionUtxo) = some ⟨unevenId, 9⟩ ∧
    (50, returnsOutput unevenId) ∈
      queuedFor .dev "i0" (pledgedOutput unevenId) [paysOn 900 50] ∧
    ∃ t : Blob 32, t ≠ unevenId ∧ outpoint internalIds
      (settlementCall walletOnly.custody (returnsOutput unevenId)) = some (t, 9) := by
  refine ⟨knows_reports unevenId, by decide +kernel, by decide +kernel,
    ⟨List.replicate 31 0 ++ [1], rfl⟩, by decide, ?_⟩
  decide +kernel

end Proof
end Himsha
