import Himsha.Lib.Encodes
import Himsha.Lib.Ratio
import Himsha.Proof.FeedSteering

/-!
# What a feed promises

The publishers of a reachable feed are registered once each, there are few of them, and the
authority comes first (`registered_reachable`). On this rest the three promises of the program: a
dishonest minority of the fresh publishers does not move the median out of the range of the others,
a lone publisher does not move the aggregate of several, and one update moves it by about the bound
of the feed. The last one is meant as a bound, but the quotient is rounded down before it is
compared (`le_mul_iff_dvd`).
-/

set_option autoImplicit false

namespace Himsha
namespace Proof

open Himsha.Lib Himsha.Runtime Himsha.Programs

open Oracle

/-! ## Who is registered -/

/-- The publishers of a feed are distinct and no more than the limit, and the authority is the first
    one. -/
structure Registered (f : PriceFeed) : Prop where
  distinct : (f.submissions.map (·.publisher)).Nodup
  few : f.submissions.length ≤ maxPublishers
  first : (f.submissions.map (·.publisher)).head? = some f.authority

/-- What a call does not change: who is registered, and the rules of the feed. -/
structure SameRules (f g : PriceFeed) : Prop where
  publishers : g.submissions.map (·.publisher) = f.submissions.map (·.publisher)
  authority : g.authority = f.authority
  initialized : g.isInitialized = f.isInitialized
  deviation : g.maxDeviationBps = f.maxDeviationBps
  age : g.maxSubmissionAge = f.maxSubmissionAge

theorem Registered.congr {f g : PriceFeed} (h : Registered f) (hsame : SameRules f g) :
    Registered g where
  distinct := hsame.publishers ▸ h.distinct
  few := by
    have hlength := congrArg List.length hsame.publishers
    rw [List.length_map, List.length_map] at hlength
    exact hlength ▸ h.few
  first := by rw [hsame.publishers, hsame.authority, h.first]

section
variable {π : Profile} {f g : PriceFeed} {now price : UInt64} {publisher : Pubkey}

theorem FeedSettled.sameRules (h : FeedSettled π f now g) : SameRules f g := by
  cases h with
  | held _ => exact ⟨rfl, rfl, rfl, rfl, rfl⟩
  | moved _ _ _ => exact ⟨rfl, rfl, rfl, rfl, rfl⟩

theorem FeedSettled.submissions (h : FeedSettled π f now g) : g.submissions = f.submissions := by
  cases h with
  | held _ => rfl
  | moved _ _ _ => rfl

/-- An update registers nobody. -/
theorem update_sameRules {submissions : List Submission}
    (hdistinct : (f.submissions.map (·.publisher)).Nodup)
    (hsubmit : submit f.submissions publisher price now = some submissions)
    (hsettled : FeedSettled π { f with submissions } now g) : SameRules f g := by
  obtain ⟨-, rfl⟩ := submit_eq hdistinct hsubmit
  have hsame := hsettled.sameRules
  exact { hsame with publishers := hsame.publishers.trans (resubmitted_publishers _) }

/-- **Every instruction keeps the publishers in order.** -/
theorem FeedMove.registered {accounts : List AccountInfo} {held : Option PriceFeed}
    {ix : OracleInstruction}
    (hheld : ∀ f, held = some f → f.isInitialized = true → Registered f)
    (h : FeedMove π accounts now held g ix) : Registered g := by
  cases ix with
  | initFeed deviation age =>
    obtain ⟨authority, -, -, -, rfl⟩ := h
    refine ⟨List.nodup_singleton _, ?_, rfl⟩
    rw [List.length_singleton]
    decide
  | updatePrice price =>
    obtain ⟨f, publisher, submissions, hf, hinit, -, -, -, hsubmit, hsettled⟩ := h
    have hregistered := hheld f hf hinit
    exact hregistered.congr (update_sameRules hregistered.distinct hsubmit hsettled)
  | addPublisher publisher =>
    obtain ⟨f, hf, hinit, -, hnew, hroom, rfl⟩ := h
    obtain ⟨hdistinct, -, hfirst⟩ := hheld f hf hinit
    refine ⟨?_, ?_, ?_⟩
    · rw [List.map_append, List.map_singleton]
      refine List.nodup_append.mpr ⟨hdistinct, List.nodup_singleton _, fun x hx y hy hxy => hnew ?_⟩
      have hpublisher : x = publisher := hxy.trans (List.mem_singleton.mp hy)
      exact hpublisher ▸ hx
    · rw [List.length_append, List.length_singleton]
      exact hroom
    · rw [List.map_append, List.head?_append, hfirst]
      rfl
  | removePublisher publisher =>
    obtain ⟨f, hf, hinit, -, hother, rfl⟩ := h
    obtain ⟨hdistinct, hfew, hfirst⟩ := hheld f hf hinit
    refine ⟨hdistinct.sublist (List.filter_sublist.map _),
      Nat.le_trans (List.length_filter_le _ _) hfew, ?_⟩
    -- The authority is not the one who is removed.
    cases hsubmissions : f.submissions with
    | nil => simp [hsubmissions] at hfirst
    | cons s rest =>
      rw [hsubmissions, List.map_cons, List.head?_cons, Option.some.injEq] at hfirst
      rw [List.filter_cons_of_pos (by simpa [hfirst] using Ne.symm hother), List.map_cons,
        List.head?_cons, hfirst]

end

section
variable {π : Profile} {stored : List UInt8} {c : RecordCall} {f g : PriceFeed}

/-- **Every reachable feed has its publishers in order.** -/
theorem registered_reachable (h : FeedReachable π stored) :
    ∀ f, heldFeed stored = some f → f.isInitialized = true → Registered f := by
  induction h with
  | start hstart => exact fun f hf hinit => absurd hinit (by rw [hstart f hf]; simp)
  | step c _ ih =>
    intro f hf _
    cases hdone : oracleCompleted π _ c with
    | none =>
      rw [oracleCompleted_none hdone] at hf
      exact ih f hf ‹_›
    | some ix =>
      obtain ⟨g, hmove, hg⟩ := oracleCompleted_some hdone
      obtain rfl : g = f := Option.some.inj (hg.symm.trans hf)
      exact hmove.registered ih

end

/-! ## A dishonest minority -/

/-- The submissions that are fresh. -/
def freshAt (f : PriceFeed) (now : UInt64) : List Submission :=
  f.submissions.filter (f.submissionFresh · now)

/-- A price lies between submissions that are fresh and not of the set. -/
def BetweenRest (f : PriceFeed) (now : UInt64) (dishonest : Finset Pubkey) (price : UInt64) :
    Prop :=
  (∃ s ∈ freshAt f now, s.publisher ∉ dishonest ∧ s.price ≤ price) ∧
    ∃ s ∈ freshAt f now, s.publisher ∉ dishonest ∧ price ≤ s.price

/-- Distinct publishers submit no more than there are of them. -/
theorem count_dishonest {l : List Submission} (hdistinct : (l.map (·.publisher)).Nodup)
    (dishonest : Finset Pubkey) :
    l.countP (fun s => decide (s.publisher ∈ dishonest)) ≤ dishonest.card := by
  rw [List.countP_eq_length_filter, ← List.length_map (f := (·.publisher)),
    ← List.toFinset_card_of_nodup (hdistinct.sublist (List.filter_sublist.map _))]
  refine Finset.card_le_card fun key hkey => ?_
  obtain ⟨s, hs, rfl⟩ := List.mem_map.mp (List.mem_toFinset.mp hkey)
  exact of_decide_eq_true (List.mem_filter.mp hs).2

section
variable {π : Profile} {stored : List UInt8} {c : RecordCall} {f g : PriceFeed} {now : UInt64}

/-- The median is a fresh price. -/
theorem median_posted {median : UInt64} (h : f.freshMedian now = some median) :
    ∃ s ∈ freshAt f now, s.price = median := by
  have hmem := List.mem_mergeSort.mp (List.mem_of_getElem? h)
  exact List.mem_map.mp hmem

/-- The median lies between the rest of any minority. -/
theorem median_between_rest {median : UInt64} {dishonest : Finset Pubkey}
    (hdistinct : (f.submissions.map (·.publisher)).Nodup)
    (hminority : 2 * dishonest.card < f.freshCount now)
    (h : f.freshMedian now = some median) : BetweenRest f now dishonest median := by
  have hcount := count_dishonest (l := freshAt f now)
    (hdistinct.sublist (List.filter_sublist.map _)) dishonest
  unfold PriceFeed.freshMedian at h
  dsimp only at h
  rw [List.length_map] at h
  have hfew : 2 * (freshAt f now).countP (fun s => decide (s.publisher ∈ dishonest)) <
      (freshAt f now).length := by
    have hlength : (freshAt f now).length = f.freshCount now := rfl
    omega
  obtain ⟨⟨s, hs, hhonest, hle⟩, t, ht, hhonest', hge⟩ :=
    median_resists price_le_trans price_le_total hfew h
  exact ⟨⟨s, hs, of_decide_eq_false hhonest, of_decide_eq_true hle⟩, t, ht,
    of_decide_eq_false hhonest', of_decide_eq_true hge⟩

/-- An update that changes the aggregate makes it the median of the feed that it leaves. -/
theorem FeedSettled.median (h : FeedSettled π f now g) (hchanges : g.price ≠ f.price) :
    g.freshMedian now = some g.price := by
  cases h with
  | held _ => exact absurd rfl hchanges
  | moved _ hmedian _ => exact hmedian

/-- **The median resists a dishonest minority.** In a reachable feed the publishers are distinct and
    at most the limit, and the authority is the first. Where an update changes the aggregate, it
    becomes the price of a fresh submission, and lies between fresh submissions of the others for
    any set of publishers that is less than half as large as there are fresh ones. -/
theorem feed_resists (π : Profile) (stored : List UInt8) (f : PriceFeed)
    (hreach : FeedReachable π stored) (hheld : heldFeed stored = some f)
    (hinit : f.isInitialized = true) :
    Registered f ∧ ∀ (c : RecordCall) (price : UInt64) (g : PriceFeed),
      tryFromSlice c.data = some (OracleInstruction.updatePrice price) →
      heldFeed (oracleNext π stored c) = some g → g.price ≠ f.price →
      (∃ s ∈ freshAt g c.timestamp, s.price = g.price) ∧
        ∀ dishonest : Finset Pubkey, 2 * dishonest.card < g.freshCount c.timestamp →
          BetweenRest g c.timestamp dishonest g.price := by
  have hregistered := registered_reachable hreach f hheld hinit
  refine ⟨hregistered, fun c price g hix hg hchanges => ?_⟩
  cases hdone : oracleCompleted π stored c with
  | none =>
    rw [oracleCompleted_none hdone, hheld, Option.some.injEq] at hg
    exact absurd (hg ▸ rfl) hchanges
  | some ix =>
    obtain ⟨g', hmove, hg'⟩ := oracleCompleted_some hdone
    obtain rfl : g' = g := Option.some.inj (hg'.symm.trans hg)
    obtain rfl : ix = .updatePrice price :=
      Option.some.inj ((oracleCompleted_data hdone).symm.trans hix)
    have hregistered' := hmove.registered fun f' hf' hinit' =>
      registered_reachable hreach f' hf' hinit'
    obtain ⟨f', publisher, submissions, hf', -, -, -, -, hsubmit, hsettled⟩ := hmove
    obtain rfl : f = f' := Option.some.inj (hheld.symm.trans hf')
    have hmedian := hsettled.median hchanges
    exact ⟨median_posted hmedian, fun dishonest hminority =>
      median_between_rest hregistered'.distinct hminority hmedian⟩

end

/-- The third of three publishers moves the aggregate, against a dishonest first one. -/
theorem feed_resists_third : BetweenRest (movedFeed 2) 2 {.repeated 1} 200 := by
  have hg : heldFeed (oracleNext .dev (feedBytes quotedFeed)
      (signedCall (.repeated 3) 2 (.updatePrice 300))) = some (movedFeed 2) := by
    rw [thirdCall_moved]
    decide +kernel
  exact ((feed_resists .dev _ quotedFeed quotedFeed_reachable (by decide +kernel) rfl).2
    (signedCall (.repeated 3) 2 (.updatePrice 300)) 300 (movedFeed 2) (by decide) hg
    (by decide)).2 {.repeated 1} (by decide)

/-! ## A lone publisher -/

/-- An update by a registered publisher when the submissions of all others have expired. -/
structure LoneUpdate (f : PriceFeed) (publisher : Pubkey) (c : RecordCall) (price : UInt64) :
    Prop where
  writable : c.account.isWritable = true
  signed : ∃ a, c.others[0]? = some a ∧ a.key = publisher ∧ a.isSigner = true
  updates : tryFromSlice c.data = some (OracleInstruction.updatePrice price)
  nonzero : price ≠ 0
  late : ∀ s ∈ f.submissions, s.publisher ≠ publisher →
    s.publishTs.toNat + f.maxSubmissionAge.toNat < c.timestamp.toNat

/-- The update succeeds: the submission is recorded, and the aggregate is held. -/
structure OnlyRecorded (π : Profile) (stored : List UInt8) (f : PriceFeed) (publisher : Pubkey)
    (c : RecordCall) (price : UInt64) : Prop where
  succeeds : oracleCompleted π stored c = some (.updatePrice price)
  leaves : heldFeed (oracleNext π stored c) = some
    { f with submissions := f.submissions.map (resubmitted publisher price c.timestamp) }
  recorded : (⟨publisher, price, c.timestamp⟩ : Submission) ∈
    f.submissions.map (resubmitted publisher price c.timestamp)

section
variable {π : Profile} {stored : List UInt8} {c : RecordCall} {f : PriceFeed} {publisher : Pubkey}
  {price now : UInt64}

/-- A feed within the limit is encoded. -/
theorem encodes_feed (hfew : f.submissions.length ≤ maxPublishers) : ∃ d, toVec f = some d := by
  have hfields : Encodes f ↔ Encodes (f.authority, f.price, f.publishTs, f.isInitialized,
      f.maxDeviationBps, f.maxSubmissionAge, f.submissions) := Iff.rfl
  have hentry : ∀ s : Submission, Encodes s := fun s => by
    have hparts : Encodes s ↔ Encodes (s.publisher, s.price, s.publishTs) := Iff.rfl
    rw [hparts]
    simp only [encodes_pair]
    exact ⟨rfl, rfl, rfl⟩
  refine Encodes.toVec (hfields.mpr ?_)
  simp only [encodes_pair]
  refine ⟨rfl, rfl, rfl, rfl, rfl, rfl, encodes_list.mpr ⟨?_, fun s _ => hentry s⟩⟩
  exact Nat.lt_of_le_of_lt hfew (by decide)

/-- A registered publisher can submit. -/
theorem exists_submit (hdistinct : (f.submissions.map (·.publisher)).Nodup)
    (hmem : publisher ∈ f.submissions.map (·.publisher)) :
    submit f.submissions publisher price now =
      some (f.submissions.map (resubmitted publisher price now)) := by
  obtain ⟨s, hs, hpublisher⟩ := List.mem_map.mp hmem
  cases hfind : f.submissions.findIdx? (·.publisher == publisher) with
  | none =>
    have hnone := List.findIdx?_eq_none_iff.mp hfind s hs
    simp [hpublisher] at hnone
  | some i =>
    have hsubmit : submit f.submissions publisher price now = some (f.submissions.modify i
        fun s => { s with price, publishTs := now }) := by
      unfold submit
      rw [hfind]
      rfl
    rw [hsubmit, (submit_eq hdistinct hsubmit).2]

/-- Only its own submission is fresh then. -/
theorem lone_held (hdistinct : (f.submissions.map (·.publisher)).Nodup)
    (hmem : publisher ∈ f.submissions.map (·.publisher)) (hmany : 2 ≤ f.submissions.length)
    (hage : f.maxSubmissionAge ≠ 0) (hprice : price ≠ 0)
    (hlate : ∀ s ∈ f.submissions, s.publisher ≠ publisher →
      s.publishTs.toNat + f.maxSubmissionAge.toNat < now.toNat) :
    ({ f with submissions := f.submissions.map (resubmitted publisher price now) } :
      PriceFeed).freshCount now <
    ({ f with submissions := f.submissions.map (resubmitted publisher price now) } :
      PriceFeed).freshQuorum := by
  have hnone : freshOthers f publisher now = [] := by
    refine List.filter_eq_nil_iff.mpr fun s hs => ?_
    obtain ⟨hmem', hother⟩ := List.mem_filter.mp hs
    have hstale : ¬ saturatingSub now s.publishTs ≤ f.maxSubmissionAge := by
      rw [UInt64.le_iff_toNat_le, saturatingSub_toNat]
      have hlater := hlate s hmem' (by simpa using hother)
      omega
    simp [PriceFeed.submissionFresh, hage, hstale]
  have hcount : ({ f with submissions := f.submissions.map (resubmitted publisher price now) } :
      PriceFeed).freshCount now =
        ((⟨publisher, price, now⟩ : Submission) :: freshOthers f publisher now).length :=
    (fresh_perm (g := { f with
      submissions := f.submissions.map (resubmitted publisher price now) })
      hdistinct hmem hprice rfl rfl).length_eq
  rw [hnone] at hcount
  have hquorum : ({ f with submissions := f.submissions.map (resubmitted publisher price now) } :
      PriceFeed).freshQuorum = 2 := by
    refine if_neg ?_
    rw [List.length_map]
    omega
  rw [hquorum]
  exact Nat.lt_of_le_of_lt (Nat.le_of_eq hcount) (by simp)

/-- One update of a lone publisher. -/
theorem lone_step (hregistered : Registered f) (hheld : heldFeed stored = some f)
    (hinit : f.isInitialized = true) (hmany : 2 ≤ f.submissions.length)
    (hage : f.maxSubmissionAge ≠ 0) (hmem : publisher ∈ f.submissions.map (·.publisher))
    (hc : LoneUpdate f publisher c price) : OnlyRecorded π stored f publisher c price := by
  obtain ⟨a, ha, rfl, hsigner⟩ := hc.signed
  have hlength : (f.submissions.map (resubmitted a.key price c.timestamp)).length ≤
      maxPublishers := by
    rw [List.length_map]
    exact hregistered.few
  obtain ⟨data, hdata⟩ := encodes_feed (f := { f with
    submissions := f.submissions.map (resubmitted a.key price c.timestamp) }) hlength
  have hrun := update_runs (π := π) hc.writable ha hsigner hc.updates hheld hinit hc.nonzero
    (exists_submit hregistered.distinct hmem)
    (.held (lone_held hregistered.distinct hmem hmany hage hc.nonzero hc.late)) hdata
  refine ⟨?_, ?_, ?_⟩
  · unfold oracleCompleted
    rw [hrun]
    exact hc.updates
  · unfold oracleNext
    rw [hrun]
    exact tryFromSlice_toVec hdata
  · obtain ⟨s, hs, hpublisher⟩ := List.mem_map.mp hmem
    refine List.mem_map.mpr ⟨s, hs, ?_⟩
    rw [resubmitted, if_pos hpublisher, ← hpublisher]

/-- What the updates of a publisher leave of a feed: its aggregate and its rules, and the
    submissions of the others. -/
structure SettledAs (publisher : Pubkey) (f g : PriceFeed) : Prop extends SameRules f g where
  price : g.price = f.price
  publishTs : g.publishTs = f.publishTs
  others : ∀ s ∈ g.submissions, s.publisher ≠ publisher → s ∈ f.submissions

theorem SettledAs.late {g : PriceFeed} (h : SettledAs publisher f g)
    (hc : LoneUpdate f publisher c price) : LoneUpdate g publisher c price where
  writable := hc.writable
  signed := hc.signed
  updates := hc.updates
  nonzero := hc.nonzero
  late s hs hother := by
    rw [h.age]
    exact hc.late s (h.others s hs hother) hother

theorem SettledAs.resubmit {g : PriceFeed} (h : SettledAs publisher f g) :
    SettledAs publisher f
      { g with submissions := g.submissions.map (resubmitted publisher price now) } where
  publishers := (resubmitted_publishers _).trans h.publishers
  authority := h.authority
  initialized := h.initialized
  deviation := h.deviation
  age := h.age
  price := h.price
  publishTs := h.publishTs
  others s hs hother := by
    obtain ⟨s', hs', rfl⟩ := List.mem_map.mp hs
    unfold resubmitted at hother ⊢
    split at hother
    · exact absurd ‹_› hother
    · rw [if_neg ‹_›]
      exact h.others s' hs' hother

/-- The next update of a lone publisher, after some. -/
theorem SettledAs.step {g : PriceFeed} (hsame : SettledAs publisher f g)
    (hregistered : Registered f) (hg : heldFeed stored = some g)
    (hinit : f.isInitialized = true) (hmany : 2 ≤ f.submissions.length)
    (hage : f.maxSubmissionAge ≠ 0) (hmem : publisher ∈ f.submissions.map (·.publisher))
    (hc : LoneUpdate f publisher c price) : OnlyRecorded π stored g publisher c price := by
  have hlength : g.submissions.length = f.submissions.length := by
    simpa using congrArg List.length hsame.publishers
  refine lone_step (hregistered.congr hsame.toSameRules) hg (hsame.initialized.trans hinit)
    (by omega) ?_ ?_ (hsame.late hc)
  · rw [hsame.age]
    exact hage
  · rw [hsame.publishers]
    exact hmem

/-- The aggregate after any number of such updates. -/
theorem lone_run (hregistered : Registered f) (hheld : heldFeed stored = some f)
    (hinit : f.isInitialized = true) (hmany : 2 ≤ f.submissions.length)
    (hage : f.maxSubmissionAge ≠ 0) (hmem : publisher ∈ f.submissions.map (·.publisher))
    (cs : List RecordCall) : (∀ c ∈ cs, ∃ price, LoneUpdate f publisher c price) →
      ∃ g, heldFeed (cs.foldl (oracleNext π) stored) = some g ∧ SettledAs publisher f g := by
  induction cs using List.reverseRecOn with
  | nil => exact fun _ => ⟨f, hheld, ⟨rfl, rfl, rfl, rfl, rfl⟩, rfl, rfl, fun s hs _ => hs⟩
  | append_singleton cs c ih =>
    intro hcs
    obtain ⟨g, hg, hsame⟩ := ih fun d hd => hcs d (List.mem_append_left _ hd)
    obtain ⟨price, hc⟩ := hcs c (by simp)
    have hstep := hsame.step (π := π) hregistered hg hinit hmany hage hmem hc
    rw [List.foldl_append]
    exact ⟨_, hstep.leaves, hsame.resubmit⟩

/-- **A lone publisher cannot move the feed of several.** Take a reachable feed with at least two
    publishers and an age limit, and any updates by one of them, all of them later than the
    submissions of the others by more than the limit. Each of them succeeds and is recorded, and
    leaves the aggregate and its time as they were at first. -/
theorem lone_publisher (π : Profile) (stored : List UInt8) (f : PriceFeed) (publisher : Pubkey)
    (hreach : FeedReachable π stored) (hheld : heldFeed stored = some f)
    (hinit : f.isInitialized = true) (hmany : 2 ≤ f.submissions.length)
    (hage : f.maxSubmissionAge ≠ 0) (hmem : publisher ∈ f.submissions.map (·.publisher))
    (cs : List RecordCall) (hcs : ∀ c ∈ cs, ∃ price, LoneUpdate f publisher c price) :
    ∀ (before : List RecordCall) (c : RecordCall) (after : List RecordCall),
      cs = before ++ c :: after → ∃ g price,
        heldFeed (before.foldl (oracleNext π) stored) = some g ∧
        g.price = f.price ∧ g.publishTs = f.publishTs ∧
        OnlyRecorded π (before.foldl (oracleNext π) stored) g publisher c price := by
  rintro before c after rfl
  have hregistered := registered_reachable hreach f hheld hinit
  obtain ⟨g, hg, hsame⟩ := lone_run (π := π) hregistered hheld hinit hmany hage hmem before
    fun d hd => hcs d (List.mem_append_left _ hd)
  obtain ⟨price, hc⟩ := hcs c (by simp)
  exact ⟨g, price, hg, hsame.price, hsame.publishTs,
    hsame.step hregistered hg hinit hmany hage hmem hc⟩

end

/-- The updates of the third publisher, long after the others. -/
def lateCalls : List RecordCall :=
  [signedCall (.repeated 3) 100 (.updatePrice 300), signedCall (.repeated 3) 200 (.updatePrice 400)]

theorem lone_publisher_late : ∃ g price,
    heldFeed ([signedCall (.repeated 3) 100 (.updatePrice 300)].foldl (oracleNext .dev)
      (feedBytes (movedFeed 2))) = some g ∧
    g.price = (movedFeed 2).price ∧ g.publishTs = (movedFeed 2).publishTs ∧
    OnlyRecorded .dev ([signedCall (.repeated 3) 100 (.updatePrice 300)].foldl (oracleNext .dev)
      (feedBytes (movedFeed 2))) g (.repeated 3)
      (signedCall (.repeated 3) 200 (.updatePrice 400)) price := by
  have hreach := quotedFeed_reachable.step (signedCall (.repeated 3) 2 (.updatePrice 300))
  rw [thirdCall_moved] at hreach
  have hlate : ∀ c ∈ lateCalls, ∃ price, LoneUpdate (movedFeed 2) (.repeated 3) c price := by
    intro c hc
    rcases List.mem_pair.mp hc with rfl | rfl
    · exact ⟨300, rfl, ⟨_, rfl, rfl, rfl⟩, by decide, by decide, by decide⟩
    · exact ⟨400, rfl, ⟨_, rfl, rfl, rfl⟩, by decide, by decide, by decide⟩
  exact lone_publisher .dev _ (movedFeed 2) (.repeated 3) hreach (by decide +kernel) rfl (by decide)
    (by decide) (by decide) lateCalls hlate
    [signedCall (.repeated 3) 100 (.updatePrice 300)] _ [] rfl

/-! ## How far an update moves the aggregate -/

/-- The distance of two prices. -/
def moveOf (old new : UInt64) : Nat := max old.toNat new.toNat - min old.toNat new.toNat

/-- The aggregate moved by no more than the bound of the feed, over the integers. -/
def Bounded (f g : PriceFeed) : Prop :=
  moveOf f.price g.price * bps ≤ f.maxDeviationBps.toNat * f.price.toNat

instance (f g : PriceFeed) : Decidable (Bounded f g) := inferInstanceAs (Decidable (_ ≤ _))

/-- Where the deviation of the new median comes to the bound of the feed, the division leaves no
    remainder. -/
def QuotientExact (f : PriceFeed) (publisher : Pubkey) (price now : UInt64) : Prop :=
  ∀ submissions median, submit f.submissions publisher price now = some submissions →
    ({ f with submissions } : PriceFeed).freshQuorum ≤
      ({ f with submissions } : PriceFeed).freshCount now →
    ({ f with submissions } : PriceFeed).freshMedian now = some median →
    moveOf f.price median * bps / f.price.toNat = f.maxDeviationBps.toNat →
      f.price.toNat ∣ moveOf f.price median * bps

section
variable {π : Profile} {stored : List UInt8} {c : RecordCall} {f g : PriceFeed} {price now : UInt64}

/-- No width is exceeded, so the deviation is the quotient. -/
theorem deviationBps_eq {old new : UInt64} (hold : old ≠ 0) :
    deviationBps π old new = some (moveOf old new * bps / old.toNat) := by
  have hpos : old.toNat ≠ 0 := fun h => hold (UInt64.toNat_inj.mp h)
  have hfits : moveOf old new * bps < 2 ^ 128 := by
    have hold' := old.toNat_lt
    have hnew := new.toNat_lt
    unfold moveOf bps
    omega
  change (mulU128 π (moveOf old new) bps).bind _ = _
  unfold mulU128 Profile.plain divU128
  rw [if_pos hfits, Option.bind_some, if_neg hpos]

/-- The guard lets an update through up to the next basis point. -/
theorem WithinBound.quotient {median : UInt64} (h : WithinBound π f median) (hprice : f.price ≠ 0)
    (hbound : f.maxDeviationBps ≠ 0) :
    moveOf f.price median * bps / f.price.toNat ≤ f.maxDeviationBps.toNat := by
  obtain ⟨deviation, hdeviation, hle⟩ := h hprice hbound
  rw [deviationBps_eq hprice, Option.some.injEq] at hdeviation
  exact hdeviation ▸ hle

/-- A quotient that is at most a bound comes from a number that is, unless there is a remainder. -/
theorem le_mul_iff_dvd {x p d : Nat} (hp : 0 < p) (h : x / p ≤ d) :
    x ≤ d * p ↔ (x / p = d → p ∣ x) := by
  constructor
  · intro hle heq
    refine ⟨x / p, Nat.le_antisymm ?_ (Nat.mul_div_le x p)⟩
    rw [heq, Nat.mul_comm]
    exact hle
  · intro hexact
    rcases Nat.lt_or_ge (x / p) d with hlt | hge
    · exact Nat.le_of_lt ((Nat.div_lt_iff_lt_mul hp).mp hlt)
    · have heq := Nat.le_antisymm h hge
      rw [← heq, Nat.div_mul_cancel (hexact heq)]

theorem bounded_self : moveOf f.price f.price * bps ≤ f.maxDeviationBps.toNat * f.price.toNat := by
  simp [moveOf]

/-- An aggregate that moves is not zero. -/
theorem FeedSettled.price_ne (h : FeedSettled π f now g) (hprice : f.price ≠ 0) : g.price ≠ 0 := by
  cases h with
  | held _ => exact hprice
  | moved _ hmedian _ =>
    obtain ⟨s, hs, hposted⟩ := median_posted hmedian
    have hfresh := (List.mem_filter.mp hs).2
    simp only [PriceFeed.submissionFresh, Bool.and_eq_true, bne_iff_ne] at hfresh
    exact hposted ▸ hfresh.1

/-- **When an update keeps to the bound.** -/
theorem settled_bounded_iff {publisher : Pubkey} {submissions : List Submission}
    (hsubmit : submit f.submissions publisher price now = some submissions)
    (h : FeedSettled π { f with submissions } now g) (hprice : f.price ≠ 0)
    (hbound : f.maxDeviationBps ≠ 0) : Bounded f g ↔ QuotientExact f publisher price now := by
  have hpos : 0 < f.price.toNat :=
    Nat.pos_of_ne_zero fun hzero => hprice (UInt64.toNat_inj.mp hzero)
  cases h with
  | held hquorum =>
    refine iff_of_true bounded_self fun submissions' median hsubmit' hquorum' => ?_
    obtain rfl : submissions = submissions' := Option.some.inj (hsubmit.symm.trans hsubmit')
    exact absurd hquorum (Nat.not_lt.mpr hquorum')
  | moved hquorum hmedian hwithin =>
    refine (le_mul_iff_dvd hpos (hwithin.quotient hprice hbound)).trans
      ⟨fun hexact => ?_, fun hexact => ?_⟩
    · intro submissions' median' hsubmit' _ hmedian'
      obtain rfl : submissions = submissions' := Option.some.inj (hsubmit.symm.trans hsubmit')
      rw [hmedian, Option.some.injEq] at hmedian'
      subst hmedian'
      exact hexact
    · exact hexact submissions _ hsubmit hquorum hmedian

/-- An update is bounded by the next basis point, whatever it is. -/
theorem settled_lt {submissions : List Submission}
    (h : FeedSettled π { f with submissions } now g) (hprice : f.price ≠ 0)
    (hbound : f.maxDeviationBps ≠ 0) :
    moveOf f.price g.price * bps < (f.maxDeviationBps.toNat + 1) * f.price.toNat := by
  have hpos : 0 < f.price.toNat :=
    Nat.pos_of_ne_zero fun hzero => hprice (UInt64.toNat_inj.mp hzero)
  cases h with
  | held _ =>
    refine Nat.lt_of_le_of_lt bounded_self ?_
    exact Nat.mul_lt_mul_of_pos_right (Nat.lt_succ_self _) hpos
  | moved _ _ hwithin =>
    exact (Nat.div_lt_iff_lt_mul hpos).mp (Nat.lt_succ_of_le (hwithin.quotient hprice hbound))

/-! ## Runs of updates -/

/-- How many updates succeed in a run. -/
def updatesIn (π : Profile) : List UInt8 → List RecordCall → Nat
  | _, [] => 0
  | stored, c :: cs =>
      (match oracleCompleted π stored c with
        | some (.updatePrice _) => 1
        | _ => 0) + updatesIn π (oracleNext π stored c) cs

/-- An update that succeeds comes to the bound only without a remainder. -/
def UpdateExact (π : Profile) (stored : List UInt8) (c : RecordCall) : Prop :=
  ∀ f a price, heldFeed stored = some f → c.others[0]? = some a →
    oracleCompleted π stored c = some (.updatePrice price) →
      QuotientExact f a.key price c.timestamp

/-- What is between the powers of a bound. -/
def Within (d k : Nat) (old new : UInt64) : Prop :=
  (old.toNat : ℚ) * (1 - d / 10000) ^ k ≤ new.toNat ∧
    (new.toNat : ℚ) ≤ old.toNat * (1 + d / 10000) ^ k

theorem within_zero {d : Nat} {old : UInt64} : Within d 0 old old := by
  simp [Within]

/-- A bounded move, to either side. -/
theorem bounded_sides {d : Nat} {old new : UInt64} (h : moveOf old new * bps ≤ d * old.toNat) :
    old.toNat * 10000 ≤ new.toNat * 10000 + d * old.toNat ∧
      new.toNat * 10000 ≤ old.toNat * 10000 + d * old.toNat := by
  change (max old.toNat new.toNat - min old.toNat new.toNat) * 10000 ≤ d * old.toNat at h
  generalize d * old.toNat = slack at h ⊢
  rcases Nat.le_total old.toNat new.toNat with hle | hle
  · rw [Nat.max_eq_right hle, Nat.min_eq_left hle, Nat.sub_mul] at h
    omega
  · rw [Nat.max_eq_left hle, Nat.min_eq_right hle, Nat.sub_mul] at h
    omega

/-- A step within the bound, and the powers go one up. -/
theorem Within.step {d k : Nat} {old mid new : UInt64} (h : Within d k mid new) (hd : d < 10000)
    (hstep : moveOf old mid * bps ≤ d * old.toNat) : Within d (k + 1) old new := by
  have hfactor : (0 : ℚ) ≤ 1 - d / 10000 := by
    have hle : (d : ℚ) ≤ 10000 := by exact_mod_cast Nat.le_of_lt hd
    linarith
  obtain ⟨hbelow, habove⟩ := bounded_sides hstep
  have hlow : (old.toNat : ℚ) * (1 - d / 10000) ≤ mid.toNat := by
    have hrat : (old.toNat : ℚ) * 10000 ≤ mid.toNat * 10000 + d * old.toNat := by
      exact_mod_cast hbelow
    linarith
  have hhigh : (mid.toNat : ℚ) ≤ old.toNat * (1 + d / 10000) := by
    have hrat : (mid.toNat : ℚ) * 10000 ≤ old.toNat * 10000 + d * old.toNat := by
      exact_mod_cast habove
    linarith
  constructor
  · calc (old.toNat : ℚ) * (1 - d / 10000) ^ (k + 1)
        = old.toNat * (1 - d / 10000) * (1 - d / 10000) ^ k := by ring
      _ ≤ mid.toNat * (1 - d / 10000) ^ k := by gcongr
      _ ≤ new.toNat := h.1
  · calc (new.toNat : ℚ) ≤ mid.toNat * (1 + d / 10000) ^ k := h.2
      _ ≤ old.toNat * (1 + d / 10000) * (1 + d / 10000) ^ k := by gcongr
      _ = old.toNat * (1 + d / 10000) ^ (k + 1) := by ring

/-- What a call leaves of a feed with a price and a bound. -/
theorem bounded_step (hheld : heldFeed stored = some f) (hinit : f.isInitialized = true)
    (hprice : f.price ≠ 0) (hbound : f.maxDeviationBps ≠ 0) (hexact : UpdateExact π stored c) :
    ∃ g, heldFeed (oracleNext π stored c) = some g ∧ g.isInitialized = true ∧ g.price ≠ 0 ∧
      g.maxDeviationBps = f.maxDeviationBps ∧
      ((∃ price, oracleCompleted π stored c = some (.updatePrice price)) → Bounded f g) ∧
      ((∀ price, oracleCompleted π stored c ≠ some (.updatePrice price)) → g.price = f.price) := by
  cases hdone : oracleCompleted π stored c with
  | none =>
    refine ⟨f, ?_, hinit, hprice, rfl, fun h => ?_, fun _ => rfl⟩
    · rw [oracleCompleted_none hdone, hheld]
    · simp at h
  | some ix =>
    obtain ⟨g, hmove, hg⟩ := oracleCompleted_some hdone
    refine ⟨g, hg, ?_⟩
    cases ix with
    | initFeed deviation age =>
      obtain ⟨authority, -, -, hfresh, -⟩ := hmove
      rw [hfresh f hheld] at hinit
      simp at hinit
    | updatePrice price =>
      obtain ⟨f', publisher, submissions, hf', -, hpublisher, -, -, hsubmit, hsettled⟩ := hmove
      obtain rfl : f = f' := Option.some.inj (hheld.symm.trans hf')
      have hsame := hsettled.sameRules
      refine ⟨hsame.initialized.trans hinit, hsettled.price_ne hprice, hsame.deviation,
        fun _ => ?_, fun h => absurd rfl (h price)⟩
      exact (settled_bounded_iff hsubmit hsettled hprice hbound).mpr
        (hexact f publisher price hheld hpublisher hdone)
    | addPublisher publisher =>
      obtain ⟨f', hf', -, -, -, -, rfl⟩ := hmove
      obtain rfl : f = f' := Option.some.inj (hheld.symm.trans hf')
      exact ⟨hinit, hprice, rfl, fun h => by simp at h, fun _ => rfl⟩
    | removePublisher publisher =>
      obtain ⟨f', hf', -, -, -, rfl⟩ := hmove
      obtain rfl : f = f' := Option.some.inj (hheld.symm.trans hf')
      exact ⟨hinit, hprice, rfl, fun h => by simp at h, fun _ => rfl⟩

/-- The price after a run, by the number of updates that succeeded in it. -/
theorem bounded_run (cs : List RecordCall) : ∀ {stored : List UInt8} {f : PriceFeed},
    heldFeed stored = some f → f.isInitialized = true → f.price ≠ 0 → f.maxDeviationBps ≠ 0 →
    f.maxDeviationBps.toNat < 10000 →
    Meets (fun stored c => some (oracleNext π stored c)) (UpdateExact π) stored cs →
    ∃ g, heldFeed (cs.foldl (oracleNext π) stored) = some g ∧
      Within f.maxDeviationBps.toNat (updatesIn π stored cs) f.price g.price := by
  induction cs with
  | nil => exact fun hheld _ _ _ _ _ => ⟨_, hheld, within_zero⟩
  | cons c cs ih =>
    intro stored f hheld hinit hprice hbound hd hmeets
    obtain ⟨m, hm, hinit', hprice', hrule, hmoved, hstays⟩ :=
      bounded_step hheld hinit hprice hbound hmeets.1
    obtain ⟨g, hg, hwithin⟩ := ih hm hinit' hprice' (by rw [hrule]; exact hbound)
      (by rw [hrule]; exact hd) (hmeets.2 _ rfl)
    rw [hrule] at hwithin
    refine ⟨g, hg, ?_⟩
    unfold updatesIn
    split
    · rename_i price hdone
      rw [Nat.add_comm]
      exact hwithin.step hd (hmoved ⟨price, hdone⟩)
    · rename_i hother
      rw [Nat.zero_add, ← hstays fun price hdone => hother price hdone]
      exact hwithin

/-- **How far updates move the aggregate of a feed with a bound.** In any feed with a price,
    reachable or not, an update that succeeds keeps the aggregate within the bound if and only if
    the deviation of the median, where it comes to the bound, is exact; past it, it stays below the
    next basis point. In any run whose updates are all exact, `k` of them move the price by at most
    the `k`-th powers of the bound. -/
theorem deviation_bound_iff (π : Profile) (stored : List UInt8) (f : PriceFeed)
    (hheld : heldFeed stored = some f) (hinit : f.isInitialized = true) (hprice : f.price ≠ 0)
    (hbound : f.maxDeviationBps ≠ 0) :
    (∀ (c : RecordCall) (a : AccountInfo) (price : UInt64), c.others[0]? = some a →
      oracleCompleted π stored c = some (.updatePrice price) →
      ∃ g, heldFeed (oracleNext π stored c) = some g ∧
        (Bounded f g ↔ QuotientExact f a.key price c.timestamp) ∧
        moveOf f.price g.price * bps < (f.maxDeviationBps.toNat + 1) * f.price.toNat) ∧
    ∀ cs : List RecordCall, f.maxDeviationBps.toNat < 10000 →
      Meets (fun stored c => some (oracleNext π stored c)) (UpdateExact π) stored cs →
      ∃ g, heldFeed (cs.foldl (oracleNext π) stored) = some g ∧
        Within f.maxDeviationBps.toNat (updatesIn π stored cs) f.price g.price := by
  constructor
  · intro c a price ha hdone
    obtain ⟨g, hmove, hg⟩ := oracleCompleted_some hdone
    obtain ⟨f', publisher, submissions, hf', -, hpublisher, -, -, hsubmit, hsettled⟩ := hmove
    obtain rfl : f = f' := Option.some.inj (hheld.symm.trans hf')
    obtain rfl : a = publisher := Option.some.inj (ha.symm.trans hpublisher)
    exact ⟨g, hg, settled_bounded_iff hsubmit hsettled hprice hbound,
      settled_lt hsettled hprice hbound⟩
  · intro cs hd hmeets
    exact bounded_run cs hheld hinit hprice hbound hd hmeets

end

/-- A feed of one publisher, with a bound of one basis point. -/
def singleFeed (price : UInt64) : PriceFeed :=
  ⟨.repeated 1, price, 1, true, 1, 0, [⟨.repeated 1, price, 1⟩]⟩

/-- The publisher posts a price. -/
def singleCall (price : UInt64) : RecordCall := signedCall (.repeated 1) 1 (.updatePrice price)

section
variable {stored : List UInt8} {f : PriceFeed} {new : UInt64}

theorem single_submit {old ts : UInt64} (hf : f.submissions = [⟨.repeated 1, old, ts⟩]) :
    submit f.submissions (.repeated 1) new 1 = some (singleFeed new).submissions := by
  rw [hf]
  rfl

theorem single_median (hage : f.maxSubmissionAge = 0) (hnew : new ≠ 0) :
    ({ f with submissions := (singleFeed new).submissions } : PriceFeed).freshMedian 1 =
      some new := by
  have hfresh : (singleFeed new).submissions.filter (PriceFeed.submissionFresh
      { f with submissions := (singleFeed new).submissions } · 1) =
        (singleFeed new).submissions := by
    simp [singleFeed, PriceFeed.submissionFresh, hage, hnew]
  unfold PriceFeed.freshMedian
  dsimp only
  rw [hfresh]
  simp [singleFeed]

/-- A feed of one publisher follows it within the bound. -/
theorem single_moves {old ts : UInt64} {data : List UInt8} (hheld : heldFeed stored = some f)
    (hinit : f.isInitialized = true) (hf : f.submissions = [⟨.repeated 1, old, ts⟩])
    (hage : f.maxSubmissionAge = 0) (hnew : new ≠ 0)
    (hix : tryFromSlice (singleCall new).data = some (OracleInstruction.updatePrice new))
    (hbound : WithinBound .dev { f with submissions := (singleFeed new).submissions } new)
    (hdata : toVec { f with
      submissions := (singleFeed new).submissions, price := new, publishTs := 1 } = some data) :
    oracleCompleted .dev stored (singleCall new) = some (.updatePrice new) ∧
      oracleNext .dev stored (singleCall new) = data := by
  have hquorum : ({ f with submissions := (singleFeed new).submissions } :
      PriceFeed).freshQuorum ≤
        ({ f with submissions := (singleFeed new).submissions } : PriceFeed).freshCount 1 := by
    simp [PriceFeed.freshQuorum, PriceFeed.freshCount, singleFeed, PriceFeed.submissionFresh, hage,
      hnew]
  have hrun := update_runs (π := .dev) (c := singleCall new) rfl rfl rfl hix hheld
    hinit hnew (single_submit hf) (.moved hquorum (single_median hage hnew) hbound) hdata
  unfold oracleCompleted oracleNext
  rw [hrun]
  exact ⟨hix, rfl⟩

end

theorem singleFeed_reachable : FeedReachable .dev (feedBytes (singleFeed 10001)) := by
  have hnone : heldFeed [] = none := by decide
  have hstart : FeedReachable .dev [] := .start fun f hf => absurd (hnone.symm.trans hf) (by simp)
  have hreach := (hstart.step (signedCall (.repeated 1) 0 (.initFeed 1 0))).step (singleCall 10001)
  have hopen : heldFeed (oracleNext .dev [] (signedCall (.repeated 1) 0 (.initFeed 1 0))) =
      some ⟨.repeated 1, 0, 0, true, 1, 0, [⟨.repeated 1, 0, 0⟩]⟩ := by
    decide +kernel
  rw [(single_moves hopen rfl rfl rfl (by decide) (by decide) (fun h => absurd rfl h) rfl).2]
    at hreach
  exact hreach

/-- The publisher moves its feed, which is allowed the deviation. -/
theorem single_next {new : UInt64} (hnew : new ≠ 0)
    (hix : tryFromSlice (singleCall new).data = some (OracleInstruction.updatePrice new))
    (hwithin : moveOf 10001 new * bps / 10001 ≤ 1) :
    oracleCompleted .dev (feedBytes (singleFeed 10001)) (singleCall new) =
        some (.updatePrice new) ∧
      heldFeed (oracleNext .dev (feedBytes (singleFeed 10001)) (singleCall new)) =
        some (singleFeed new) := by
  obtain ⟨data, hdata⟩ := encodes_feed (f := singleFeed new) (show 1 ≤ maxPublishers by decide)
  have hheld : heldFeed (feedBytes (singleFeed 10001)) = some (singleFeed 10001) := by
    decide +kernel
  have hbound : WithinBound .dev
      { singleFeed 10001 with submissions := (singleFeed new).submissions } new :=
    fun _ _ => ⟨_, deviationBps_eq (show (10001 : UInt64) ≠ 0 by decide), hwithin⟩
  obtain ⟨hdone, hnext⟩ := single_moves hheld rfl rfl rfl hnew hix hbound hdata
  refine ⟨hdone, ?_⟩
  rw [hnext]
  exact tryFromSlice_toVec hdata

theorem deviation_bound_small : ∃ g,
    heldFeed ([singleCall 10002].foldl (oracleNext .dev) (feedBytes (singleFeed 10001))) = some g ∧
      Within 1 (updatesIn .dev (feedBytes (singleFeed 10001)) [singleCall 10002]) 10001
        g.price := by
  have hheld : heldFeed (feedBytes (singleFeed 10001)) = some (singleFeed 10001) := by
    decide +kernel
  refine (deviation_bound_iff .dev _ (singleFeed 10001) hheld rfl (by decide) (by decide)).2
    [singleCall 10002] (by decide) ⟨?_, fun _ _ => trivial⟩
  intro f a price hf ha hdone submissions median hsubmit _ hmedian hquotient
  obtain rfl : singleFeed 10001 = f := Option.some.inj (hheld.symm.trans hf)
  obtain rfl := Option.some.inj ha
  obtain rfl : price = 10002 := by
    have hix : tryFromSlice (singleCall 10002).data =
        some (OracleInstruction.updatePrice 10002) := by decide
    rw [oracleCompleted_data hdone, Option.some.injEq, OracleInstruction.updatePrice.injEq] at hix
    exact hix
  obtain rfl : submissions = (singleFeed 10002).submissions :=
    Option.some.inj (hsubmit.symm.trans (single_submit rfl))
  obtain rfl : median = 10002 :=
    Option.some.inj (hmedian.symm.trans (single_median (f := singleFeed 10001) rfl (by decide)))
  -- The step is below one basis point.
  exact absurd hquotient (by decide)

/-- **An update past the bound.** From 10001, with a bound of one basis point, an update to 10003
    succeeds: it is almost two, and the quotient is one. -/
theorem past_the_bound : FeedReachable .dev (feedBytes (singleFeed 10001)) ∧
    heldFeed (feedBytes (singleFeed 10001)) = some (singleFeed 10001) ∧
    oracleCompleted .dev (feedBytes (singleFeed 10001)) (singleCall 10003) =
      some (.updatePrice 10003) ∧
    heldFeed (oracleNext .dev (feedBytes (singleFeed 10001)) (singleCall 10003)) =
      some (singleFeed 10003) ∧
    ¬ Bounded (singleFeed 10001) (singleFeed 10003) := by
  obtain ⟨hdone, hnext⟩ := single_next (show (10003 : UInt64) ≠ 0 by decide) (by decide) (by decide)
  exact ⟨singleFeed_reachable, by decide +kernel, hdone, hnext, by decide⟩


end Proof
end Himsha
