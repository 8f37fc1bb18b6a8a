import Himsha.Proof.LendingMoves
import Himsha.Proof.RecordCalls

/-!
# Which bid an acceptance takes

An `AcceptBid` takes the bid of the highest value, in the iteration order of a hash map whose
seed is of the process. Where one bid is higher than all others the order does not matter. Where
two are equally high it decides, and two processes that execute the same instruction leave
different bytes.
-/

set_option autoImplicit false

namespace Himsha
namespace Proof

open Himsha.Lib Himsha.Runtime Himsha.Programs

open Lending

/-! ## The best bid of an order -/

/-- One step of the fold. -/
def better (best : Option (String × Bid)) (e : String × Bid) : Option (String × Bid) :=
  match best with
  | none => some e
  | some b => if b.2.loanValue ≤ e.2.loanValue then some e else some b

theorem bestBid_append_one (l : List (String × Bid)) (e : String × Bid) :
    bestBid (l ++ [e]) = better (bestBid l) e := by
  unfold bestBid
  rw [List.foldl_append]
  rfl

/-- The best bid is one of the bids, and none is higher. -/
theorem bestBid_spec {l : List (String × Bid)} : ∀ {e : String × Bid}, bestBid l = some e →
    e ∈ l ∧ ∀ other ∈ l, other.2.loanValue ≤ e.2.loanValue := by
  induction l using List.reverseRecOn with
  | nil =>
    intro e h
    simp [bestBid] at h
  | append_singleton l last ih =>
    intro e h
    rw [bestBid_append_one] at h
    cases hbest : bestBid l with
    | none =>
      rw [hbest] at h
      obtain rfl : last = e := Option.some.inj h
      refine ⟨by simp, fun other hother => ?_⟩
      rcases List.mem_append.mp hother with hl | hlast
      · -- There is a best bid wherever there is a bid.
        cases l using List.reverseRecOn with
        | nil => simp at hl
        | append_singleton l' e' =>
          rw [bestBid_append_one] at hbest
          unfold better at hbest
          split at hbest
          · simp at hbest
          · split at hbest <;> simp at hbest
      · rw [List.mem_singleton.mp hlast]
        exact UInt64.le_refl _
    | some b =>
      obtain ⟨hmem, hmax⟩ := ih hbest
      rw [hbest] at h
      unfold better at h
      dsimp only at h
      split at h
      · rename_i hle
        obtain rfl : last = e := Option.some.inj h
        refine ⟨by simp, fun other hother => ?_⟩
        rcases List.mem_append.mp hother with hl | hlast
        · exact UInt64.le_trans (hmax other hl) hle
        · rw [List.mem_singleton.mp hlast]
          exact UInt64.le_refl _
      · rename_i hnot
        obtain rfl : b = e := Option.some.inj h
        refine ⟨by simp [hmem], fun other hother => ?_⟩
        rcases List.mem_append.mp hother with hl | hlast
        · exact hmax other hl
        · rw [List.mem_singleton.mp hlast]
          exact UInt64.le_of_lt (UInt64.not_le.mp hnot)

/-- Where there is a bid there is a best one. -/
theorem exists_bestBid {l : List (String × Bid)} (h : l ≠ []) : ∃ e, bestBid l = some e := by
  cases l using List.reverseRecOn with
  | nil => exact absurd rfl h
  | append_singleton l last =>
    rw [bestBid_append_one]
    unfold better
    split
    · exact ⟨last, rfl⟩
    · split
      · exact ⟨last, rfl⟩
      · exact ⟨_, rfl⟩

/-- Of equally high bids the last one is taken. -/
theorem bestBid_last {l : List (String × Bid)} {e : String × Bid}
    (h : ∀ other ∈ l, other.2.loanValue ≤ e.2.loanValue) : bestBid (l ++ [e]) = some e := by
  rw [bestBid_append_one]
  cases hbest : bestBid l with
  | none => rfl
  | some b =>
    unfold better
    dsimp only
    rw [if_pos (h b (bestBid_spec hbest).1)]

/-- The order in which one bid comes last. -/
def lastly (e : String × Bid) : Hasher where
  order l := if e ∈ l then l.erase e ++ [e] else l
  perm l := by
    split
    · rename_i hmem
      exact (List.perm_append_comm.trans (List.perm_cons_erase hmem).symm)
    · exact .refl _

theorem bestBid_lastly {l : List (String × Bid)} {e : String × Bid} (hmem : e ∈ l)
    (hmax : ∀ other ∈ l, other.2.loanValue ≤ e.2.loanValue) :
    bestBid ((lastly e).order l) = some e := by
  change bestBid (if e ∈ l then l.erase e ++ [e] else l) = some e
  rw [if_pos hmem]
  exact bestBid_last fun other hother => hmax other (List.mem_of_mem_erase hother)

/-! ## What can be stored -/

instance : Reencodes CollectionAccount :=
  .iso (f := fun c : CollectionAccount => (c.name, c.bids, c.activeLoans, c.pendingSettlements))
    (g := fun (n, b, l, p) => ⟨n, b, l, p⟩) (fun _ => rfl) fun _ => rfl

theorem encodes_collection {c : CollectionAccount} : Encodes c ↔ Encodes c.name ∧
    Encodes c.bids ∧ Encodes c.activeLoans ∧ Encodes c.pendingSettlements := by
  have hiso : Encodes c ↔
      Encodes (c.name, c.bids, c.activeLoans, c.pendingSettlements) := Iff.rfl
  rw [hiso, encodes_pair, encodes_pair, encodes_pair]

theorem encodes_bid {b : Bid} (h : Encodes b) :
    Encodes b.lenderOrdinalsAddress ∧ Encodes b.lenderPaymentsAddress := by
  have hiso : Encodes (b.utxo, b.loanValue, b.loanPeriod, b.interestRateBps,
      b.lenderOrdinalsAddress, b.lenderPaymentsAddress) := h
  simp only [encodes_pair] at hiso
  exact ⟨hiso.2.2.2.2.1, hiso.2.2.2.2.2⟩

instance : Reencodes LendingInstruction where
  encodes := by
    intro bs rest ix h
    have hde : LendingInstruction.de bs = some (ix, rest) := h
    unfold LendingInstruction.de at hde
    split at hde
    · obtain ⟨x, rfl, hx⟩ := encodes_untag hde
      exact encodes_tag.mpr hx
    · obtain ⟨⟨u, v, p, r, o, a⟩, rfl, hx⟩ := encodes_untag hde
      exact encodes_tag.mpr hx
    · obtain ⟨x, rfl, hx⟩ := encodes_untag hde
      exact encodes_tag.mpr hx
    · obtain ⟨⟨i, u, o, a⟩, rfl, hx⟩ := encodes_untag hde
      exact encodes_tag.mpr hx
    · obtain ⟨⟨i, u, a⟩, rfl, hx⟩ := encodes_untag hde
      exact encodes_tag.mpr hx
    · obtain ⟨x, rfl, hx⟩ := encodes_untag hde
      exact encodes_tag.mpr hx
    · simp at hde

/-- The texts of an instruction that was decoded. -/
theorem encodes_acceptBid {data : List UInt8} {id ordinals payments : String} {utxo : UtxoMeta}
    (h : tryFromSlice data = some (LendingInstruction.acceptBid id utxo ordinals payments)) :
    Encodes id ∧ Encodes utxo ∧ Encodes ordinals ∧ Encodes payments := by
  have hix : Encodes (id, utxo, ordinals, payments) := encodes_tag.mp (encodes_of_tryFromSlice h)
  simpa only [encodes_pair] using hix

section
variable {π : Profile} {hasher : Hasher} {timestamp : UInt64} {coll : CollectionAccount}
  {id ordinals payments : String} {utxo : UtxoMeta} {best : String × Bid}

/-- **What keeps an acceptance from being stored**: the number of loans. -/
theorem encodes_accepted (hcoll : Encodes coll) (hid : Encodes id) (hutxo : Encodes utxo)
    (hordinals : Encodes ordinals) (hpayments : Encodes payments)
    (hfree : coll.activeLoans.contains id = false) (hbest : best ∈ coll.bids.toList) :
    Encodes (acceptedBy id utxo ordinals payments timestamp coll best) ↔
      coll.activeLoans.size + 1 < 2 ^ 32 := by
  obtain ⟨hname, hbids, hloans, hqueue⟩ := encodes_collection.mp hcoll
  have hbid : Encodes best.2 :=
    ((encodes_map.mp hbids).2 best.1 best.2
      (Std.ExtTreeMap.mem_toList_iff_getElem?_eq_some.mp hbest)).2
  obtain ⟨hlenderOrdinals, hlenderPayments⟩ := encodes_bid hbid
  have hloan : Encodes (openedBy id utxo ordinals payments timestamp best.2) := by
    have hiso : Encodes (id, utxo, best.2.loanValue, best.2.loanPeriod, best.2.interestRateBps,
        best.2.lenderOrdinalsAddress, best.2.lenderPaymentsAddress, ordinals, payments, timestamp,
        (0 : UInt64)) := by
      simp only [encodes_pair]
      exact ⟨hid, hutxo, rfl, rfl, rfl, hlenderOrdinals, hlenderPayments, hordinals, hpayments,
        rfl, rfl⟩
    exact hiso
  rw [encodes_collection, ← hloans.insert_iff hid hloan hfree]
  exact ⟨fun h => h.2.2.1, fun h => ⟨hname, hbids.erase best.1, h, hqueue⟩⟩

/-! ## Two processes -/

/-- What keeps an `acceptBid` from being carried out, whatever bid it would take. -/
def acceptBar (inscriptionId : String) (coll : CollectionAccount) : Prop :=
  coll.bids.isEmpty = true ∨ coll.activeLoans.contains inscriptionId = true ∨
    2 ^ 32 ≤ coll.activeLoans.size + 1

/-- One bid is higher than all others. -/
def OneHighest (coll : CollectionAccount) : Prop :=
  ∃ e ∈ coll.bids.toList, ∀ other ∈ coll.bids.toList, other ≠ e →
    other.2.loanValue < e.2.loanValue

/-- The highest bid is taken in every order. -/
theorem OneHighest.taken (h : OneHighest coll) : ∃ e, ∀ hasher : Hasher,
    bestBid (hasher.order coll.bids.toList) = some e := by
  obtain ⟨e, hmem, hmax⟩ := h
  refine ⟨e, fun hasher => ?_⟩
  have hperm := hasher.perm coll.bids.toList
  have hne : hasher.order coll.bids.toList ≠ [] :=
    List.ne_nil_of_mem (hperm.mem_iff.mpr hmem)
  obtain ⟨b, hb⟩ := exists_bestBid hne
  obtain ⟨hbmem, hbmax⟩ := bestBid_spec hb
  rw [hb, Option.some.injEq]
  by_contra hbe
  have hlt := hmax b (hperm.mem_iff.mp hbmem) hbe
  exact absurd (hbmax e (hperm.mem_iff.mpr hmem)) (UInt64.not_le.mpr hlt)

/-- Where no bid is higher than all others, two are equally high. -/
theorem tied (hbids : coll.bids.isEmpty = false) (h : ¬ OneHighest coll) :
    ∃ e ∈ coll.bids.toList, ∃ e' ∈ coll.bids.toList, e ≠ e' ∧
      (∀ other ∈ coll.bids.toList, other.2.loanValue ≤ e.2.loanValue) ∧
      ∀ other ∈ coll.bids.toList, other.2.loanValue ≤ e'.2.loanValue := by
  have hne : coll.bids.toList ≠ [] := by
    rw [← Std.ExtTreeMap.isEmpty_toList] at hbids
    exact List.isEmpty_eq_false_iff.mp hbids
  obtain ⟨e, he⟩ := exists_bestBid hne
  obtain ⟨hmem, hmax⟩ := bestBid_spec he
  by_contra hnone
  refine h ⟨e, hmem, fun other hother hdiff => ?_⟩
  rw [← UInt64.not_le]
  intro hle
  exact hnone ⟨e, hmem, other, hother, hdiff.symm, hmax,
    fun third hthird => UInt64.le_trans (hmax third hthird) hle⟩

/-- What an acceptance checks and stores, once the collection is loaded. -/
theorem accept_loaded {a : AccountInfo} {rest : List AccountInfo}
    (hcoll : tryFromSlice a.data = some coll) :
    Lending.run π hasher (a :: rest) timestamp (.acceptBid id utxo ordinals payments) =
      (do
        require (!coll.bids.isEmpty) .notInitialized
        require (!coll.activeLoans.contains id) .alreadyInitialized
        let best ← okOr .notInitialized (bestBid (hasher.order coll.bids.toList))
        store (a :: rest) 0 (acceptedBy id utxo ordinals payments timestamp coll best)) := by
  unfold Lending.run
  dsimp only
  rw [load_first hcoll]
  rfl

/-- It stores the collection with the loan, once nothing stands against it. -/
theorem accept_stores {a : AccountInfo} {rest : List AccountInfo}
    (hcoll : tryFromSlice a.data = some coll) (hbids : coll.bids.isEmpty = false)
    (hfree : coll.activeLoans.contains id = false)
    (hbest : bestBid (hasher.order coll.bids.toList) = some best) :
    Lending.run π hasher (a :: rest) timestamp (.acceptBid id utxo ordinals payments) =
      store (a :: rest) 0 (acceptedBy id utxo ordinals payments timestamp coll best) := by
  rw [accept_loaded hcoll, hbids, hfree, hbest]
  rfl

/-- The best bid of any order is one of the bids. -/
theorem best_mem (h : bestBid (hasher.order coll.bids.toList) = some best) :
    best ∈ coll.bids.toList :=
  (hasher.perm _).mem_iff.mp (bestBid_spec h).1

/-- **A refused acceptance, and one of the only highest bid, goes the same in every process.** -/
theorem accept_agrees {accounts : List AccountInfo} (hid : Encodes id) (hutxo : Encodes utxo)
    (hordinals : Encodes ordinals) (hpayments : Encodes payments)
    (h : ∀ a, accounts[0]? = some a → a.isWritable = false ∨
      ∀ coll : CollectionAccount, tryFromSlice a.data = some coll →
        OneHighest coll ∨ acceptBar id coll) (h₁ h₂ : Hasher) :
    Lending.run π h₁ accounts timestamp (.acceptBid id utxo ordinals payments) =
      Lending.run π h₂ accounts timestamp (.acceptBid id utxo ordinals payments) := by
  cases accounts with
  | nil => rfl
  | cons a rest =>
    cases hcoll : tryFromSlice (α := CollectionAccount) a.data with
    | none =>
      have hload : load (α := CollectionAccount) (a :: rest) 0 = fail .borshError := by
        change okOr .borshError (tryFromSlice a.data) = _
        rw [hcoll]
        rfl
      unfold Lending.run
      dsimp only
      rw [hload]
      rfl
    | some coll =>
      rw [accept_loaded hcoll, accept_loaded hcoll]
      cases hbids : coll.bids.isEmpty with
      | true => rfl
      | false =>
        cases hfree : coll.activeLoans.contains id with
        | true => rfl
        | false =>
          have hne : coll.bids.toList ≠ [] := by
            rw [← Std.ExtTreeMap.isEmpty_toList] at hbids
            exact List.isEmpty_eq_false_iff.mp hbids
          have hsome : ∀ hasher : Hasher, ∃ e,
              bestBid (hasher.order coll.bids.toList) = some e := by
            intro hasher
            refine exists_bestBid fun hnil => hne ?_
            exact List.Perm.eq_nil (hnil ▸ (hasher.perm coll.bids.toList).symm)
          obtain ⟨e₁, he₁⟩ := hsome h₁
          obtain ⟨e₂, he₂⟩ := hsome h₂
          rw [he₁, he₂]
          change store (a :: rest) 0 _ = store (a :: rest) 0 _
          rcases h a rfl with hreadonly | hloaded
          · rw [store_readonly hreadonly, store_readonly hreadonly]
          · rcases hloaded coll hcoll with hone | hempty | hactive | hmany
            · obtain ⟨e, he⟩ := hone.taken
              have h₁e : e₁ = e := Option.some.inj (he₁.symm.trans (he h₁))
              have h₂e : e₂ = e := Option.some.inj (he₂.symm.trans (he h₂))
              rw [h₁e, h₂e]
            · rw [hbids] at hempty
              simp at hempty
            · rw [hfree] at hactive
              simp at hactive
            · -- The loan cannot be added, whoever lends.
              have hcannot : ∀ e ∈ coll.bids.toList,
                  ¬ Encodes (acceptedBy id utxo ordinals payments timestamp coll e) := by
                intro e he hencodes
                have hfits := (encodes_accepted (encodes_of_tryFromSlice hcoll) hid hutxo
                  hordinals hpayments hfree he).mp hencodes
                omega
              cases hw : a.isWritable with
              | false => rw [store_readonly hw, store_readonly hw]
              | true =>
                rw [store_unencodable hw (hcannot e₁ (best_mem he₁)),
                  store_unencodable hw (hcannot e₂ (best_mem he₂))]

/-- **Two bids of the highest value make two processes disagree.** -/
theorem accept_differs {a : AccountInfo} {rest : List AccountInfo} {e e' : String × Bid}
    (hid : Encodes id) (hutxo : Encodes utxo) (hordinals : Encodes ordinals)
    (hpayments : Encodes payments) (hw : a.isWritable = true)
    (hcoll : tryFromSlice a.data = some coll) (hbids : coll.bids.isEmpty = false)
    (hfree : coll.activeLoans.contains id = false) (hfew : coll.activeLoans.size + 1 < 2 ^ 32)
    (he : e ∈ coll.bids.toList) (he' : e' ∈ coll.bids.toList) (hdiff : e ≠ e')
    (hmax : ∀ other ∈ coll.bids.toList, other.2.loanValue ≤ e.2.loanValue)
    (hmax' : ∀ other ∈ coll.bids.toList, other.2.loanValue ≤ e'.2.loanValue) :
    Lending.run π (lastly e) (a :: rest) timestamp (.acceptBid id utxo ordinals payments) ≠
      Lending.run π (lastly e') (a :: rest) timestamp
        (.acceptBid id utxo ordinals payments) := by
  have hencodes : Encodes coll := encodes_of_tryFromSlice hcoll
  have hstored : ∀ x ∈ coll.bids.toList,
      Encodes (acceptedBy id utxo ordinals payments timestamp coll x) := fun x hx =>
    (encodes_accepted hencodes hid hutxo hordinals hpayments hfree hx).mpr hfew
  obtain ⟨data, hdata⟩ := (hstored e he).toVec
  obtain ⟨data', hdata'⟩ := (hstored e' he').toVec
  rw [accept_stores hcoll hbids hfree (bestBid_lastly he hmax),
    accept_stores hcoll hbids hfree (bestBid_lastly he' hmax'), store_encodable hw hdata,
    store_encodable hw hdata']
  intro heq
  simp only [Except.ok.injEq, List.cons.injEq, and_true] at heq
  have hsame : data = data' := congrArg AccountInfo.data heq
  -- The same bytes are the same open bids, but each takes its own bid off the book.
  have hcollEq := tryFromSlice_toVec hdata
  rw [hsame, tryFromSlice_toVec hdata', Option.some.injEq] at hcollEq
  have herase : coll.bids.erase e'.1 = coll.bids.erase e.1 :=
    congrArg CollectionAccount.bids hcollEq
  have hat : coll.bids[e.1]? = some e.2 :=
    Std.ExtTreeMap.mem_toList_iff_getElem?_eq_some.mp he
  have hat' : coll.bids[e'.1]? = some e'.2 :=
    Std.ExtTreeMap.mem_toList_iff_getElem?_eq_some.mp he'
  have hkeys : e'.1 ≠ e.1 := by
    intro hkey
    rw [hkey, hat, Option.some.injEq] at hat'
    exact hdiff (Prod.ext hkey.symm hat')
  have hgone := congrArg (·[e.1]?) herase
  simp only [Std.ExtTreeMap.getElem?_erase_self, Std.ExtTreeMap.getElem?_erase, hat] at hgone
  rw [if_neg fun hcmp => hkeys (Std.LawfulEqCmp.compare_eq_iff_eq.mp hcmp)] at hgone
  simp at hgone

/-- **When replicas pick the same bid.** For every account list and every `AcceptBid`: what the
    instruction leaves is the same for all iteration orders of the bids if and only if it fails
    whatever bid it would take, or one bid of the collection is higher than all others. -/
theorem bid_choice_iff (π : Profile) (accounts : List AccountInfo) (data : List UInt8)
    (timestamp : UInt64) (inscriptionId : String) (inscriptionUtxo : UtxoMeta)
    (ordinals payments : String)
    (hix : tryFromSlice data =
      some (LendingInstruction.acceptBid inscriptionId inscriptionUtxo ordinals payments)) :
    (∀ h h' : Hasher, Lending.process π h accounts data timestamp =
      Lending.process π h' accounts data timestamp) ↔
    Barred accounts (acceptBar inscriptionId) ∨ ∀ a coll, accounts[0]? = some a →
      tryFromSlice a.data = some coll → OneHighest coll := by
  obtain ⟨hid, hutxo, hordinals, hpayments⟩ := encodes_acceptBid hix
  have hprocess : ∀ hasher : Hasher, Lending.process π hasher accounts data timestamp =
      (require ((accounts[1]?.map (·.isSigner)).getD false) .missingSigner >>= fun _ =>
        Lending.run π hasher accounts timestamp
          (.acceptBid inscriptionId inscriptionUtxo ordinals payments)) := by
    intro hasher
    unfold Lending.process
    rw [hix]
    rfl
  constructor
  · intro hagree
    by_contra hnot
    obtain ⟨hbarred, hone⟩ := not_or.mp hnot
    obtain ⟨hsigned, hstands⟩ := not_or.mp hbarred
    unfold acceptBar at hstands
    push Not at hone hstands
    obtain ⟨a, hfirst, hw, coll, hcoll, hbids, hfree, hfew⟩ := hstands
    obtain ⟨a', coll', hfirst', hcoll', htie⟩ := hone
    rw [hfirst, Option.some.injEq] at hfirst'
    subst hfirst'
    rw [hcoll, Option.some.injEq] at hcoll'
    subst hcoll'
    obtain ⟨e, he, e', he', hdiff, hmax, hmax'⟩ := tied (by simpa using hbids) htie
    cases accounts with
    | nil => simp at hfirst
    | cons a₀ rest =>
      obtain rfl : a₀ = a := Option.some.inj hfirst
      have heq := hagree (lastly e) (lastly e')
      rw [hprocess, hprocess, (Bool.not_eq_false _).mp hsigned] at heq
      have hsame : Lending.run π (lastly e) (a₀ :: rest) timestamp
            (.acceptBid inscriptionId inscriptionUtxo ordinals payments) =
          Lending.run π (lastly e') (a₀ :: rest) timestamp
            (.acceptBid inscriptionId inscriptionUtxo ordinals payments) := heq
      exact accept_differs hid hutxo hordinals hpayments (by simpa using hw) hcoll
        (by simpa using hbids) (Bool.eq_false_iff.mpr hfree) (by omega) he he' hdiff hmax hmax'
        hsame
  · intro h h₁ h₂
    rw [hprocess, hprocess]
    cases hsigned : (accounts[1]?.map (·.isSigner)).getD false with
    | false => rfl
    | true =>
      change Lending.run π h₁ accounts timestamp
          (.acceptBid inscriptionId inscriptionUtxo ordinals payments) =
        Lending.run π h₂ accounts timestamp
          (.acceptBid inscriptionId inscriptionUtxo ordinals payments)
      refine accept_agrees hid hutxo hordinals hpayments (fun a ha => ?_) h₁ h₂
      rcases h with hbarred | hone
      · rcases hbarred with hunsigned | hstands
        · rw [hsigned] at hunsigned
          simp at hunsigned
        · rcases hstands a ha with hreadonly | hloaded
          · exact .inl hreadonly
          · exact .inr fun coll hcoll => .inr (hloaded coll hcoll)
      · exact .inr fun coll hcoll => .inl (hone a coll ha hcoll)

end

/-! ## A book with two bids -/

/-- A bid of the output `vout` of a transaction. -/
def bidOf (vout : UInt32) (loanValue : UInt64) (lender : String) : Bid :=
  ⟨⟨.zero 32, vout⟩, loanValue, 100, 0, lender, lender⟩

/-- A collection with a bid of 900 sats and one of `second`. -/
def twoBids (second : UInt64) : CollectionAccount where
  name := "c"
  bids := ((∅ : StringMap Bid).insert (bidKey ⟨.zero 32, 0⟩) (bidOf 0 900 "bc1first")).insert
    (bidKey ⟨.zero 32, 1⟩) (bidOf 1 second "bc1second")

/-- The collection, and a borrower who signs. -/
def acceptAccounts (second : UInt64) : List AccountInfo :=
  [{ key := .repeated 3, lamports := 0, data := (toVec (twoBids second)).getD [],
     owner := ProgramIds.lendingProgram },
   { key := .repeated 2, lamports := 0, data := [], owner := ProgramIds.systemProgram,
     isSigner := true, isWritable := false }]

def acceptData : List UInt8 :=
  (toVec (LendingInstruction.acceptBid "i0" ⟨.zero 32, 9⟩ "bc1borrower" "bc1owes")).getD []

/-- The lenders of the loans that an acceptance leaves. -/
def lendersAfter (hasher : Hasher) (second : UInt64) : Option (List String) :=
  match Lending.process .dev hasher (acceptAccounts second) acceptData 7 with
  | .ok (a :: _) => (tryFromSlice (α := CollectionAccount) a.data).map fun coll =>
      coll.activeLoans.toList.map (·.2.lenderPaymentsAddress)
  | _ => none

/-- With 1000 sats the second bid is taken, whichever of the two the process comes to last. -/
theorem bid_choice_higher :
    Lending.process .dev .sorted (acceptAccounts 1000) acceptData 7 =
      Lending.process .dev (lastly (bidKey ⟨.zero 32, 0⟩, bidOf 0 900 "bc1first"))
        (acceptAccounts 1000) acceptData 7 := by
  have hdecodes : tryFromSlice acceptData =
      some (LendingInstruction.acceptBid "i0" ⟨.zero 32, 9⟩ "bc1borrower" "bc1owes") := by
    decide
  refine (bid_choice_iff .dev (acceptAccounts 1000) acceptData 7 _ _ _ _ hdecodes).mpr (.inr ?_)
    .sorted _
  intro a coll ha hcoll
  obtain rfl : _ = a := Option.some.inj ha
  have hread : (tryFromSlice (α := CollectionAccount)
      ((toVec (twoBids 1000)).getD [])).map (·.bids.toList) =
      some [(bidKey ⟨.zero 32, 0⟩, bidOf 0 900 "bc1first"),
        (bidKey ⟨.zero 32, 1⟩, bidOf 1 1000 "bc1second")] := by
    decide +kernel
  rw [hcoll, Option.map_some, Option.some.injEq] at hread
  unfold OneHighest
  rw [hread]
  decide

/-- **Two bids of 900 sats.** One process lends from the second lender, the other from the
    first. -/
theorem tie_splits_replicas :
    lendersAfter .sorted 900 = some ["bc1second"] ∧
    lendersAfter (lastly (bidKey ⟨.zero 32, 0⟩, bidOf 0 900 "bc1first")) 900 =
      some ["bc1first"] ∧
    ¬ ∀ h h' : Hasher, Lending.process .dev h (acceptAccounts 900) acceptData 7 =
      Lending.process .dev h' (acceptAccounts 900) acceptData 7 := by
  have hsecond : lendersAfter .sorted 900 = some ["bc1second"] := by decide +kernel
  have hfirst : lendersAfter (lastly (bidKey ⟨.zero 32, 0⟩, bidOf 0 900 "bc1first")) 900 =
      some ["bc1first"] := by
    decide +kernel
  refine ⟨hsecond, hfirst, fun hagree => ?_⟩
  have hsame : lendersAfter .sorted 900 =
      lendersAfter (lastly (bidKey ⟨.zero 32, 0⟩, bidOf 0 900 "bc1first")) 900 := by
    unfold lendersAfter
    rw [hagree .sorted (lastly (bidKey ⟨.zero 32, 0⟩, bidOf 0 900 "bc1first"))]
  rw [hsecond, hfirst] at hsame
  exact absurd hsame (by decide)

end Proof
end Himsha
