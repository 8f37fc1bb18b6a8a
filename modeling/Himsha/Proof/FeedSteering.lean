import Himsha.Lib.Rank
import Himsha.Proof.RecordCalls

/-!
# What one publisher can do to a feed

A publisher that is alone in updating a feed of three or more moves the aggregate only between
the fresh submissions of the others, as long as these are two or more: the lower-middle entry of
three or more prices has another one on each side. Where only one other submission is fresh the
quorum is met, and the lower-middle entry of the two is the smaller one, whosoever it is. Where
none is, the aggregate is held at what it was.
-/

set_option autoImplicit false

namespace Himsha
namespace Proof

open Himsha.Lib Himsha.Runtime Himsha.Programs

open Oracle

/-! ## Feeds -/

/-- What is held in the account. -/
def heldFeed (stored : List UInt8) : Option PriceFeed := tryFromSlice stored

/-- What is stored after a call. -/
def oracleNext (π : Profile) (stored : List UInt8) (c : RecordCall) : List UInt8 :=
  storedAfter stored (Oracle.process π (c.accounts stored) c.data c.timestamp)

/-- The fresh submissions of the others. -/
def freshOthers (f : PriceFeed) (publisher : Pubkey) (now : UInt64) : List Submission :=
  (f.submissions.filter (·.publisher != publisher)).filter (f.submissionFresh · now)

/-- A price lies between the fresh submissions of the others. -/
def BetweenOthers (f : PriceFeed) (publisher : Pubkey) (now price : UInt64) : Prop :=
  (∃ s ∈ freshOthers f publisher now, s.price ≤ price) ∧
    ∃ s ∈ freshOthers f publisher now, price ≤ s.price

/-- The publishers of an initialised feed are registered once each. -/
def FeedSound (f : PriceFeed) : Prop :=
  f.isInitialized = true → (f.submissions.map (·.publisher)).Nodup

/-! ## An update -/

section
variable {f : PriceFeed} {publisher : Pubkey} {price now : UInt64} {submissions : List Submission}

/-- The publisher's new submission. -/
def resubmitted (publisher : Pubkey) (price now : UInt64) (s : Submission) : Submission :=
  if s.publisher = publisher then { s with price, publishTs := now } else s

/-- With distinct publishers, submitting changes the one entry of the publisher. -/
theorem submit_eq {S : List Submission} (hdistinct : (S.map (·.publisher)).Nodup)
    (h : submit S publisher price now = some submissions) :
    publisher ∈ S.map (·.publisher) ∧ submissions = S.map (resubmitted publisher price now) := by
  unfold submit at h
  obtain ⟨i, hfind, rfl⟩ := Option.map_eq_some_iff.mp h
  obtain ⟨hi, hat, -⟩ := List.findIdx?_eq_some_iff_getElem.mp hfind
  have hpublisher : S[i].publisher = publisher := beq_iff_eq.mp hat
  refine ⟨List.mem_map.mpr ⟨S[i], List.getElem_mem hi, hpublisher⟩, ?_⟩
  refine List.ext_getElem (by simp) fun j hj hj' => ?_
  rw [List.length_modify] at hj
  rw [List.getElem_modify, List.getElem_map, resubmitted]
  by_cases hij : i = j
  · subst hij
    rw [if_pos rfl, if_pos hpublisher]
  · -- No other entry has the same publisher.
    have hother : S[j].publisher ≠ publisher := by
      intro hsame
      have hpair : (S.map (·.publisher))[i]? = (S.map (·.publisher))[j]? := by
        rw [List.getElem?_map, List.getElem?_map, List.getElem?_eq_getElem hi,
          List.getElem?_eq_getElem hj, Option.map_some, Option.map_some, hpublisher, hsame]
      exact hij ((List.getElem?_inj (by simpa using hi) hdistinct).mp hpair)
    rw [if_neg hij, if_neg hother]

/-- The submissions are then the new one and those of the others. -/
theorem resubmitted_perm {S : List Submission} (hdistinct : (S.map (·.publisher)).Nodup)
    (hmem : publisher ∈ S.map (·.publisher)) :
    (S.map (resubmitted publisher price now)).Perm
      (⟨publisher, price, now⟩ :: S.filter (·.publisher != publisher)) := by
  induction S with
  | nil => simp at hmem
  | cons s S ih =>
    rw [List.map_cons, List.nodup_cons] at hdistinct
    obtain ⟨hfresh, hrest⟩ := hdistinct
    rw [List.map_cons]
    by_cases hs : s.publisher = publisher
    · have hothers : ∀ t ∈ S, t.publisher ≠ publisher := by
        intro t ht hsame
        exact hfresh (List.mem_map.mpr ⟨t, ht, by rw [hsame, hs]⟩)
      have hkept : S.map (resubmitted publisher price now) = S := by
        refine (List.map_congr_left fun t ht => ?_).trans (List.map_id S)
        exact if_neg (hothers t ht)
      have hfilter : (s :: S).filter (·.publisher != publisher) = S := by
        rw [List.filter_cons_of_neg (by simp [hs])]
        exact List.filter_eq_self.mpr fun t ht => by simpa using hothers t ht
      rw [hkept, hfilter, resubmitted, if_pos hs]
      rw [hs]
    · rw [List.filter_cons_of_pos (by simpa using hs), resubmitted, if_neg hs]
      have hmem' : publisher ∈ S.map (·.publisher) := by
        rw [List.map_cons] at hmem
        exact (List.mem_cons.mp hmem).resolve_left fun h => hs h.symm
      exact ((ih hrest hmem').cons s).trans (.swap _ _ _)

/-- Freshness is of the age limit only. -/
theorem submissionFresh_congr {g : PriceFeed} (h : g.maxSubmissionAge = f.maxSubmissionAge)
    (s : Submission) : g.submissionFresh s now = f.submissionFresh s now := by
  unfold PriceFeed.submissionFresh
  rw [h]

/-- The fresh submissions after an update: the new one, and the fresh ones of the others. -/
theorem fresh_perm {g : PriceFeed} (hdistinct : (f.submissions.map (·.publisher)).Nodup)
    (hmem : publisher ∈ f.submissions.map (·.publisher)) (hprice : price ≠ 0)
    (hage : g.maxSubmissionAge = f.maxSubmissionAge)
    (hg : g.submissions = f.submissions.map (resubmitted publisher price now)) :
    (g.submissions.filter (g.submissionFresh · now)).Perm
      (⟨publisher, price, now⟩ :: freshOthers f publisher now) := by
  have hnew : f.submissionFresh ⟨publisher, price, now⟩ now = true := by
    unfold PriceFeed.submissionFresh saturatingSub
    simp [hprice]
  rw [show (g.submissionFresh · now) = (f.submissionFresh · now) from
    funext (submissionFresh_congr hage), hg]
  refine ((resubmitted_perm hdistinct hmem).filter _).trans ?_
  rw [List.filter_cons_of_pos (p := fun s => f.submissionFresh s now) hnew]
  exact .refl _

/-! Prices are sorted by a linear order. -/

theorem price_le_trans (a b c : UInt64) (hab : decide (a ≤ b) = true)
    (hbc : decide (b ≤ c) = true) : decide (a ≤ c) = true :=
  decide_eq_true (UInt64.le_trans (of_decide_eq_true hab) (of_decide_eq_true hbc))

theorem price_le_total (a b : UInt64) : (decide (a ≤ b) || decide (b ≤ a)) = true := by
  rw [Bool.or_eq_true, decide_eq_true_iff, decide_eq_true_iff]
  exact UInt64.le_total a b

/-- **The lower middle of three or more prices** lies between two of the others. -/
theorem median_between {g : PriceFeed} {median : UInt64}
    (hdistinct : (f.submissions.map (·.publisher)).Nodup)
    (hmem : publisher ∈ f.submissions.map (·.publisher)) (hprice : price ≠ 0)
    (hage : g.maxSubmissionAge = f.maxSubmissionAge)
    (hg : g.submissions = f.submissions.map (resubmitted publisher price now))
    (hothers : 2 ≤ (freshOthers f publisher now).length)
    (hmedian : g.freshMedian now = some median) : BetweenOthers f publisher now median := by
  have hperm := (fresh_perm hdistinct hmem hprice hage hg).map (·.price)
  rw [List.map_cons] at hperm
  have hlength := hperm.length_eq
  rw [List.length_cons] at hlength
  have hcount : ((freshOthers f publisher now).map (·.price)).length =
      (freshOthers f publisher now).length := List.length_map _
  unfold PriceFeed.freshMedian at hmedian
  dsimp only at hmedian
  generalize (g.submissions.filter (g.submissionFresh · now)).map (·.price) = prices
    at hperm hlength hmedian
  have hlow : 1 ≤ (prices.length - 1) / 2 := by omega
  have hhigh : (prices.length - 1) / 2 + 2 ≤ prices.length := by omega
  obtain ⟨⟨a, ha, hle⟩, b, hb, hge⟩ := between_others price_le_trans price_le_total
    hperm hmedian hlow hhigh
  obtain ⟨s, hs, rfl⟩ := List.mem_map.mp ha
  obtain ⟨t, ht, rfl⟩ := List.mem_map.mp hb
  exact ⟨⟨s, hs, of_decide_eq_true hle⟩, t, ht, of_decide_eq_true hge⟩

/-- Nothing changes in the submissions of the others. -/
theorem resubmitted_others (S : List Submission) :
    (S.map (resubmitted publisher price now)).filter (·.publisher != publisher) =
      S.filter (·.publisher != publisher) := by
  induction S with
  | nil => rfl
  | cons s S ih =>
    rw [List.map_cons, resubmitted]
    by_cases hs : s.publisher = publisher
    · rw [if_pos hs, List.filter_cons_of_neg (by simp [hs]), List.filter_cons_of_neg (by simp [hs])]
      exact ih
    · rw [if_neg hs, List.filter_cons_of_pos (by simpa using hs),
        List.filter_cons_of_pos (by simpa using hs), ih]

/-- What an update makes of a feed. Without a quorum the aggregate is held. -/
inductive FeedUpdated (f : PriceFeed) (publisher : Pubkey) (price now : UInt64) :
    PriceFeed → Prop
  | held {submissions : List Submission}
      (hsubmit : submit f.submissions publisher price now = some submissions) :
      ({ f with submissions } : PriceFeed).freshCount now <
        ({ f with submissions } : PriceFeed).freshQuorum →
      FeedUpdated f publisher price now { f with submissions }
  | moved {submissions : List Submission} {median : UInt64}
      (hsubmit : submit f.submissions publisher price now = some submissions) :
      ({ f with submissions } : PriceFeed).freshQuorum ≤
        ({ f with submissions } : PriceFeed).freshCount now →
      ({ f with submissions } : PriceFeed).freshMedian now = some median →
      FeedUpdated f publisher price now { f with submissions, price := median, publishTs := now }

/-- Two feeds with the same submissions of the others, and the same rules for them. -/
structure SameOthers (publisher : Pubkey) (f g : PriceFeed) : Prop where
  initialized : g.isInitialized = f.isInitialized
  publishers : g.submissions.map (·.publisher) = f.submissions.map (·.publisher)
  others : g.submissions.filter (·.publisher != publisher) =
    f.submissions.filter (·.publisher != publisher)
  age : g.maxSubmissionAge = f.maxSubmissionAge

theorem SameOthers.refl : SameOthers publisher f f := ⟨rfl, rfl, rfl, rfl⟩

theorem SameOthers.trans {g k : PriceFeed} (h : SameOthers publisher f g)
    (h' : SameOthers publisher g k) : SameOthers publisher f k where
  initialized := h'.initialized.trans h.initialized
  publishers := h'.publishers.trans h.publishers
  others := h'.others.trans h.others
  age := h'.age.trans h.age

theorem SameOthers.freshOthers {g : PriceFeed} (h : SameOthers publisher f g) (now : UInt64) :
    freshOthers g publisher now = freshOthers f publisher now := by
  unfold Proof.freshOthers
  rw [h.others]
  exact congrArg (List.filter · _) (funext (submissionFresh_congr h.age))

theorem SameOthers.sound {g : PriceFeed} (h : SameOthers publisher f g) (hsound : FeedSound f) :
    FeedSound g := by
  intro hinit
  rw [h.publishers]
  exact hsound (h.initialized ▸ hinit)

theorem resubmitted_publishers (S : List Submission) :
    (S.map (resubmitted publisher price now)).map (·.publisher) = S.map (·.publisher) := by
  rw [List.map_map]
  refine List.map_congr_left fun s _ => ?_
  dsimp only [Function.comp_apply, resubmitted]
  split <;> rfl

/-- An update leaves the others alone. -/
theorem FeedUpdated.sameOthers {g : PriceFeed} (h : FeedUpdated f publisher price now g)
    (hdistinct : (f.submissions.map (·.publisher)).Nodup) : SameOthers publisher f g := by
  cases h with
  | held hsubmit _ =>
    obtain ⟨-, rfl⟩ := submit_eq hdistinct hsubmit
    exact ⟨rfl, resubmitted_publishers _, resubmitted_others _, rfl⟩
  | moved hsubmit _ _ =>
    obtain ⟨-, rfl⟩ := submit_eq hdistinct hsubmit
    exact ⟨rfl, resubmitted_publishers _, resubmitted_others _, rfl⟩

/-- **An update holds the aggregate or moves it between the others**, unless just one of them is
    fresh. -/
theorem FeedUpdated.aggregate {g : PriceFeed} (h : FeedUpdated f publisher price now g)
    (hdistinct : (f.submissions.map (·.publisher)).Nodup) (hprice : price ≠ 0)
    (hmany : 2 ≤ f.submissions.length) (hone : (freshOthers f publisher now).length ≠ 1) :
    g.price = f.price ∨ BetweenOthers f publisher now g.price := by
  cases h with
  | held _ _ => exact .inl rfl
  | moved hsubmit hquorum hmedian =>
    rename_i submissions median
    obtain ⟨hmem, hsubmissions⟩ := submit_eq hdistinct hsubmit
    have hcount : ({ f with submissions } : PriceFeed).freshCount now =
        (freshOthers f publisher now).length + 1 :=
      (fresh_perm (g := { f with submissions }) hdistinct hmem hprice rfl hsubmissions).length_eq
    have htwo : ({ f with submissions } : PriceFeed).freshQuorum = 2 := by
      refine if_neg ?_
      rw [hsubmissions, List.length_map]
      omega
    rw [hcount, htwo] at hquorum
    exact .inr (median_between (g := { f with submissions }) hdistinct hmem hprice rfl hsubmissions
      (by omega) hmedian)

end

/-! ## What a call writes -/

/-- What an instruction writes over what is held, from the accounts it is given. -/
def FeedWrites (accounts : List AccountInfo) (now : UInt64) (held : Option PriceFeed)
    (g : PriceFeed) : OracleInstruction → Prop
  | .initFeed deviation age => ∃ authority, accounts[1]? = some authority ∧
      g = { held.getD {} with
        authority := authority.key
        maxDeviationBps := deviation
        maxSubmissionAge := age
        submissions := [⟨authority.key, 0, 0⟩]
        isInitialized := true }
  | .updatePrice price => ∃ f publisher, held = some f ∧ f.isInitialized = true ∧
      accounts[1]? = some publisher ∧ publisher.isSigner = true ∧ price ≠ 0 ∧
      FeedUpdated f publisher.key price now g
  | .addPublisher publisher => ∃ f, held = some f ∧
      publisher ∉ f.submissions.map (·.publisher) ∧
      g = { f with submissions := f.submissions ++ [⟨publisher, 0, 0⟩] }
  | .removePublisher publisher => ∃ f, held = some f ∧
      g = { f with submissions := f.submissions.filter (·.publisher != publisher) }

/-- A feed with a price and a bound lets the aggregate move to the median. -/
def WithinBound (π : Profile) (f : PriceFeed) (median : UInt64) : Prop :=
  f.price ≠ 0 → f.maxDeviationBps ≠ 0 →
    ∃ deviation, deviationBps π f.price median = some deviation ∧
      deviation ≤ f.maxDeviationBps.toNat

/-- What becomes of a feed once a submission is recorded in it. -/
inductive FeedSettled (π : Profile) (f : PriceFeed) (now : UInt64) : PriceFeed → Prop
  | held (hquorum : f.freshCount now < f.freshQuorum) : FeedSettled π f now f
  | moved {median : UInt64} (hquorum : f.freshQuorum ≤ f.freshCount now)
      (hmedian : f.freshMedian now = some median) (hbound : WithinBound π f median) :
      FeedSettled π f now { f with price := median, publishTs := now }

/-- The authority of a feed signs for an instruction. -/
def AuthoritySigns (accounts : List AccountInfo) (f : PriceFeed) : Prop :=
  ∃ authority, accounts[1]? = some authority ∧ authority.isSigner = true ∧
    authority.key = f.authority

/-- What an instruction that succeeds makes of a feed, and what it has checked. -/
def FeedMove (π : Profile) (accounts : List AccountInfo) (now : UInt64) (held : Option PriceFeed)
    (g : PriceFeed) : OracleInstruction → Prop
  | .initFeed deviation age => ∃ authority, accounts[1]? = some authority ∧
      authority.isSigner = true ∧ (∀ f, held = some f → f.isInitialized = false) ∧
      g = { held.getD {} with
        authority := authority.key
        maxDeviationBps := deviation
        maxSubmissionAge := age
        submissions := [⟨authority.key, 0, 0⟩]
        isInitialized := true }
  | .updatePrice price => ∃ f publisher submissions, held = some f ∧ f.isInitialized = true ∧
      accounts[1]? = some publisher ∧ publisher.isSigner = true ∧ price ≠ 0 ∧
      submit f.submissions publisher.key price now = some submissions ∧
      FeedSettled π { f with submissions } now g
  | .addPublisher publisher => ∃ f, held = some f ∧ f.isInitialized = true ∧
      AuthoritySigns accounts f ∧ publisher ∉ f.submissions.map (·.publisher) ∧
      f.submissions.length < maxPublishers ∧
      g = { f with submissions := f.submissions ++ [⟨publisher, 0, 0⟩] }
  | .removePublisher publisher => ∃ f, held = some f ∧ f.isInitialized = true ∧
      AuthoritySigns accounts f ∧ publisher ≠ f.authority ∧
      g = { f with submissions := f.submissions.filter (·.publisher != publisher) }

section
variable {π : Profile} {a : AccountInfo} {accounts rest mid : List AccountInfo} {now : UInt64}

theorem authority_signs {f : PriceFeed} {u : Unit} (h : requireAuthority f accounts = .ok u) :
    AuthoritySigns accounts f := by
  obtain ⟨authority, hauthority, h⟩ := bind_eq_ok.mp h
  obtain ⟨_, hsigner, hkey⟩ := bind_eq_ok.mp h
  exact ⟨authority, slot_eq_ok hauthority, require_eq_ok.mp hsigner,
    by simpa using require_eq_ok.mp hkey⟩

/-- **Inversion of an instruction that succeeded.** -/
theorem feed_move {ix : OracleInstruction} (h : Oracle.run π (a :: rest) now ix = .ok mid) :
    ∃ g, FeedMove π (a :: rest) now (tryFromSlice a.data) g ix ∧
      store (a :: rest) 0 g = .ok mid := by
  cases ix with
  | initFeed deviation age =>
    obtain ⟨authority, hauthority, h⟩ := bind_eq_ok.mp h
    obtain ⟨_, hsigner, h⟩ := bind_eq_ok.mp h
    obtain ⟨feed, hfeed, h⟩ := bind_eq_ok.mp h
    obtain ⟨_, hfresh, hstore⟩ := bind_eq_ok.mp h
    obtain ⟨first, hfirst, rfl⟩ := loadOr_eq_ok hfeed
    obtain rfl : a = first := Option.some.inj hfirst
    refine ⟨_, ⟨authority, slot_eq_ok hauthority, require_eq_ok.mp hsigner, fun f hf => ?_, rfl⟩,
      hstore⟩
    simpa [hf] using require_eq_ok.mp hfresh
  | updatePrice price =>
    obtain ⟨publisher, hpublisher, h⟩ := bind_eq_ok.mp h
    obtain ⟨_, hsigner, h⟩ := bind_eq_ok.mp h
    obtain ⟨f, hf, h⟩ := bind_eq_ok.mp h
    obtain ⟨_, hinit, h⟩ := bind_eq_ok.mp h
    obtain ⟨_, hprice, h⟩ := bind_eq_ok.mp h
    obtain ⟨submissions, hsubmit, h⟩ := bind_eq_ok.mp h
    have hmoves : ∀ g, FeedSettled π { f with submissions } now g →
        FeedMove π (a :: rest) now (tryFromSlice a.data) g (.updatePrice price) := by
      intro g hg
      exact ⟨f, publisher, submissions, load_first_iff.mp hf, require_eq_ok.mp hinit,
        slot_eq_ok hpublisher, require_eq_ok.mp hsigner, by simpa using require_eq_ok.mp hprice,
        okOr_eq_ok.mp hsubmit, hg⟩
    dsimp only at h
    split at h
    · rename_i hcount
      exact ⟨_, hmoves _ (.held hcount), h⟩
    · rename_i hcount
      obtain ⟨median, hmedian, h⟩ := bind_eq_ok.mp h
      -- Whether the deviation is bounded or not, the same is written.
      obtain ⟨hbound, hstore⟩ : WithinBound π { f with submissions } median ∧
          store (a :: rest) 0 { f with submissions, price := median, publishTs := now } =
            .ok mid := by
        split at h
        · obtain ⟨deviation, hdeviation, h⟩ := bind_eq_ok.mp h
          obtain ⟨_, hle, h⟩ := bind_eq_ok.mp h
          exact ⟨fun _ _ => ⟨deviation, orPanic_eq_ok.mp hdeviation,
            of_decide_eq_true (require_eq_ok.mp hle)⟩, h⟩
        · rename_i hunbounded
          refine ⟨fun hp hd => absurd ?_ hunbounded, h⟩
          simpa using ⟨hp, hd⟩
      exact ⟨_, hmoves _ (.moved (Nat.le_of_not_lt hcount) (okOr_eq_ok.mp hmedian) hbound), hstore⟩
  | addPublisher publisher =>
    obtain ⟨f, hf, h⟩ := bind_eq_ok.mp h
    obtain ⟨_, hinit, h⟩ := bind_eq_ok.mp h
    obtain ⟨_, hauthority, h⟩ := bind_eq_ok.mp h
    obtain ⟨_, hnew, h⟩ := bind_eq_ok.mp h
    obtain ⟨_, hroom, hstore⟩ := bind_eq_ok.mp h
    refine ⟨_, ⟨f, load_first_iff.mp hf, require_eq_ok.mp hinit, authority_signs hauthority, ?_,
      of_decide_eq_true (require_eq_ok.mp hroom), rfl⟩, hstore⟩
    simpa using require_eq_ok.mp hnew
  | removePublisher publisher =>
    obtain ⟨f, hf, h⟩ := bind_eq_ok.mp h
    obtain ⟨_, hinit, h⟩ := bind_eq_ok.mp h
    obtain ⟨_, hauthority, h⟩ := bind_eq_ok.mp h
    obtain ⟨_, hother, h⟩ := bind_eq_ok.mp h
    obtain ⟨-, -, hstore⟩ := bind_eq_ok.mp h
    refine ⟨_, ⟨f, load_first_iff.mp hf, require_eq_ok.mp hinit, authority_signs hauthority, ?_,
      rfl⟩, hstore⟩
    simpa using require_eq_ok.mp hother

/-- What is written, without what was checked. -/
theorem FeedMove.writes {held : Option PriceFeed} {g : PriceFeed} {ix : OracleInstruction}
    (h : FeedMove π accounts now held g ix) : FeedWrites accounts now held g ix := by
  cases ix with
  | initFeed deviation age =>
    obtain ⟨authority, hauthority, -, -, hg⟩ := h
    exact ⟨authority, hauthority, hg⟩
  | updatePrice price =>
    obtain ⟨f, publisher, submissions, hf, hinit, hpublisher, hsigner, hprice, hsubmit,
      hsettled⟩ := h
    refine ⟨f, publisher, hf, hinit, hpublisher, hsigner, hprice, ?_⟩
    cases hsettled with
    | held hquorum => exact .held hsubmit hquorum
    | moved hquorum hmedian _ => exact .moved hsubmit hquorum hmedian
  | addPublisher publisher =>
    obtain ⟨f, hf, -, -, hnew, -, hg⟩ := h
    exact ⟨f, hf, hnew, hg⟩
  | removePublisher publisher =>
    obtain ⟨f, hf, -, -, -, hg⟩ := h
    exact ⟨f, hf, hg⟩

/-- **Every instruction keeps a feed sound.** -/
theorem FeedWrites.sound {accounts : List AccountInfo} {held : Option PriceFeed} {g : PriceFeed}
    {ix : OracleInstruction} (hheld : ∀ f, held = some f → FeedSound f)
    (h : FeedWrites accounts now held g ix) : FeedSound g := by
  cases ix with
  | initFeed deviation age =>
    obtain ⟨authority, -, rfl⟩ := h
    exact fun _ => List.nodup_singleton _
  | updatePrice price =>
    obtain ⟨f, publisher, hf, hinit, -, -, -, hupdate⟩ := h
    exact (hupdate.sameOthers (hheld f hf hinit)).sound (hheld f hf)
  | addPublisher publisher =>
    obtain ⟨f, hf, hnew, rfl⟩ := h
    intro hinit
    dsimp only
    rw [List.map_append, List.map_singleton]
    refine List.nodup_append.mpr ⟨hheld f hf hinit, List.nodup_singleton _, fun x hx y hy hxy =>
      hnew ?_⟩
    have hpublisher : x = publisher := hxy.trans (List.mem_singleton.mp hy)
    exact hpublisher ▸ hx
  | removePublisher publisher =>
    obtain ⟨f, hf, rfl⟩ := h
    intro hinit
    exact (hheld f hf hinit).sublist (List.filter_sublist.map _)

end

/-! ## Runs -/

/-- An account in a run of calls that began with no initialised feed in it. -/
inductive FeedReachable (π : Profile) : List UInt8 → Prop
  | start {stored : List UInt8} : (∀ f, heldFeed stored = some f → f.isInitialized = false) →
      FeedReachable π stored
  | step {stored : List UInt8} (c : RecordCall) : FeedReachable π stored →
      FeedReachable π (oracleNext π stored c)

/-- The call updates the price, and nobody but the publisher signs it. -/
def SoleUpdate (publisher : Pubkey) (c : RecordCall) : Prop :=
  (∃ price, tryFromSlice c.data = some (OracleInstruction.updatePrice price)) ∧
    ∀ a ∈ c.account :: c.others, a.isSigner = true → a.key = publisher

section
variable {π : Profile} {stored : List UInt8} {c : RecordCall} {f : PriceFeed} {p : Pubkey}

/-- The instruction that a call completes. -/
def oracleCompleted (π : Profile) (stored : List UInt8) (c : RecordCall) :
    Option OracleInstruction :=
  match Oracle.process π (c.accounts stored) c.data c.timestamp with
  | .ok _ => tryFromSlice c.data
  | .error _ => none

theorem oracleCompleted_none (h : oracleCompleted π stored c = none) :
    oracleNext π stored c = stored := by
  unfold oracleCompleted at h
  unfold oracleNext
  cases hprocess : Oracle.process π (c.accounts stored) c.data c.timestamp with
  | error e => rfl
  | ok mid =>
    obtain ⟨ix, hix, -⟩ := bind_eq_ok.mp hprocess
    simp [hprocess, okOr_eq_ok.mp hix] at h

theorem oracleCompleted_data {ix : OracleInstruction} (h : oracleCompleted π stored c = some ix) :
    tryFromSlice c.data = some ix := by
  unfold oracleCompleted at h
  split at h
  · exact h
  · simp at h

theorem oracleCompleted_some {ix : OracleInstruction} (h : oracleCompleted π stored c = some ix) :
    ∃ g, FeedMove π (c.accounts stored) c.timestamp (heldFeed stored) g ix ∧
      heldFeed (oracleNext π stored c) = some g := by
  unfold oracleCompleted at h
  unfold oracleNext
  cases hprocess : Oracle.process π (c.accounts stored) c.data c.timestamp with
  | error e => simp [hprocess] at h
  | ok mid =>
    rw [hprocess] at h
    dsimp only at h
    obtain ⟨ix', hix, h'⟩ := bind_eq_ok.mp hprocess
    obtain ⟨-, -, hrun⟩ := bind_eq_ok.mp h'
    rw [okOr_eq_ok.mp hix, Option.some.injEq] at h
    subst h
    obtain ⟨g, hmove, hstore⟩ := feed_move hrun
    obtain ⟨-, data, hdata, rfl⟩ := store_first_iff.mp hstore
    exact ⟨g, hmove, tryFromSlice_toVec hdata⟩

/-- **A call leaves what is stored, or writes a feed.** -/
theorem oracle_step : oracleNext π stored c = stored ∨ ∃ ix g, tryFromSlice c.data = some ix ∧
    FeedWrites (c.accounts stored) c.timestamp (heldFeed stored) g ix ∧
    heldFeed (oracleNext π stored c) = some g := by
  cases hdone : oracleCompleted π stored c with
  | none => exact .inl (oracleCompleted_none hdone)
  | some ix =>
    obtain ⟨g, hmove, hg⟩ := oracleCompleted_some hdone
    exact .inr ⟨ix, g, oracleCompleted_data hdone, hmove.writes, hg⟩

/-- Every reachable feed has distinct publishers. -/
theorem feed_sound (h : FeedReachable π stored) : ∀ f, heldFeed stored = some f → FeedSound f := by
  induction h with
  | start hstart => exact fun f hf hinit => absurd hinit (by rw [hstart f hf]; simp)
  | step c _ ih =>
    rcases oracle_step (π := π) (c := c) with hsame | ⟨ix, g, -, hwrites, hg⟩
    · rw [hsame]
      exact ih
    · intro f hf
      obtain rfl : g = f := Option.some.inj (hg.symm.trans hf)
      exact hwrites.sound ih

/-- One call of the publisher. -/
theorem sole_step (hheld : heldFeed stored = some f) (hsound : FeedSound f)
    (hmany : 2 ≤ f.submissions.length) (hc : SoleUpdate p c)
    (hone : (freshOthers f p c.timestamp).length ≠ 1) :
    ∃ g, heldFeed (oracleNext π stored c) = some g ∧ SameOthers p f g ∧
      (g.price = f.price ∨ BetweenOthers f p c.timestamp g.price) := by
  have hstep : oracleNext π stored c = stored ∨ _ := oracle_step
  rcases hstep with hsame | ⟨ix, g, hix, hwrites, hg⟩
  · rw [hsame]
    exact ⟨f, hheld, .refl, .inl rfl⟩
  · obtain ⟨⟨price, hprice⟩, hsigned⟩ := hc
    obtain rfl : ix = .updatePrice price := Option.some.inj (hix.symm.trans hprice)
    obtain ⟨f', publisher, hf', hinit, hpublisher, hsigner, hnonzero, hupdate⟩ := hwrites
    obtain rfl : f = f' := Option.some.inj (hheld.symm.trans hf')
    have hslot : publisher ∈ c.account :: c.others :=
      List.mem_cons_of_mem _ (List.mem_of_getElem? hpublisher)
    obtain rfl := hsigned publisher hslot hsigner
    exact ⟨g, hg, hupdate.sameOthers (hsound hinit),
      hupdate.aggregate (hsound hinit) hnonzero hmany hone⟩

/-- The calls of the publisher, one after the other. -/
theorem sole_run {f₀ : PriceFeed} {cs : List RecordCall} (hheld : heldFeed stored = some f)
    (hothers : SameOthers p f₀ f) (hsound : FeedSound f) (hmany : 2 ≤ f.submissions.length)
    (hcs : ∀ c ∈ cs, SoleUpdate p c) (hone : ∀ c ∈ cs, (freshOthers f₀ p c.timestamp).length ≠ 1) :
    ∃ g, heldFeed (cs.foldl (oracleNext π) stored) = some g ∧ SameOthers p f₀ g ∧
      (g.price = f.price ∨ ∃ c ∈ cs, BetweenOthers f₀ p c.timestamp g.price) := by
  induction cs generalizing stored f with
  | nil => exact ⟨f, hheld, hothers, .inl rfl⟩
  | cons c cs ih =>
    have hfresh := hothers.freshOthers
    obtain ⟨g, hg, hsame, hprice⟩ := sole_step (π := π) hheld hsound hmany
      (hcs c List.mem_cons_self) (by rw [hfresh]; exact hone c List.mem_cons_self)
    have hlength : g.submissions.length = f.submissions.length := by
      simpa using congrArg List.length hsame.publishers
    obtain ⟨k, hk, hsame', hprice'⟩ := ih hg (hothers.trans hsame) (hsame.sound hsound)
      (by omega) (fun d hd => hcs d (List.mem_cons_of_mem _ hd))
      fun d hd => hone d (List.mem_cons_of_mem _ hd)
    refine ⟨k, hk, hsame', ?_⟩
    rcases hprice' with hheld' | ⟨d, hd, hbetween⟩
    · rw [hheld']
      rcases hprice with hprice | hbetween
      · exact .inl hprice
      · unfold BetweenOthers at hbetween
        rw [hfresh] at hbetween
        exact .inr ⟨c, List.mem_cons_self, hbetween⟩
    · exact .inr ⟨d, List.mem_cons_of_mem _ hd, hbetween⟩

/-- **A publisher alone cannot steer a feed.** However often it updates a feed of three or more,
    the aggregate is what it was before or lies between submissions of the others that were fresh
    at one of the updates, if none of these found just one of the others fresh. -/
theorem sole_publisher (hreach : FeedReachable π stored) (hheld : heldFeed stored = some f)
    (hthree : 3 ≤ f.submissions.length) {cs : List RecordCall} (hcs : ∀ c ∈ cs, SoleUpdate p c)
    (hone : ∀ c ∈ cs, (freshOthers f p c.timestamp).length ≠ 1) :
    ∃ g, heldFeed (cs.foldl (oracleNext π) stored) = some g ∧ SameOthers p f g ∧
      (g.price = f.price ∨ ∃ c ∈ cs, BetweenOthers f p c.timestamp g.price) :=
  sole_run hheld .refl (feed_sound hreach f hheld) (by omega) hcs hone

/-! ## A feed whose publishers fall silent -/

/-- The median of prices that come in order. -/
theorem freshMedian_sorted {now : UInt64} (h : ((f.submissions.filter
    (f.submissionFresh · now)).map (·.price)).Pairwise fun a b => decide (a ≤ b) = true) :
    f.freshMedian now = ((f.submissions.filter (f.submissionFresh · now)).map
      (·.price))[(f.freshCount now - 1) / 2]? := by
  unfold PriceFeed.freshMedian PriceFeed.freshCount
  dsimp only
  rw [List.mergeSort_of_pairwise h, List.length_map]

/-- An update that meets the checks of the program runs, and stores what becomes of the feed. -/
theorem update_runs {a : AccountInfo} {submissions : List Submission} {price : UInt64} {g : PriceFeed}
    {data : List UInt8} (hw : c.account.isWritable = true) (ha : c.others[0]? = some a)
    (hsigner : a.isSigner = true)
    (hix : tryFromSlice c.data = some (OracleInstruction.updatePrice price))
    (hheld : heldFeed stored = some f) (hinit : f.isInitialized = true) (hprice : price ≠ 0)
    (hsubmit : submit f.submissions a.key price c.timestamp = some submissions)
    (hsettled : FeedSettled π { f with submissions } c.timestamp g) (hg : toVec g = some data) :
    Oracle.process π (c.accounts stored) c.data c.timestamp =
      .ok ({ c.account with data } :: c.others) := by
  have hstore : store (c.accounts stored) 0 g = .ok ({ c.account with data } :: c.others) :=
    store_encodable (a := { c.account with data := stored }) hw hg
  have hrun : Oracle.run π (c.accounts stored) c.timestamp (.updatePrice price) =
      .ok ({ c.account with data } :: c.others) := by
    refine bind_eq_ok.mpr ⟨a, slot_iff.mpr ha, ?_⟩
    refine bind_eq_ok.mpr ⟨(), require_eq_ok.mpr hsigner, ?_⟩
    refine bind_eq_ok.mpr ⟨f, load_first hheld, ?_⟩
    refine bind_eq_ok.mpr ⟨(), require_eq_ok.mpr hinit, ?_⟩
    refine bind_eq_ok.mpr ⟨(), require_eq_ok.mpr (by simpa using hprice), ?_⟩
    refine bind_eq_ok.mpr ⟨submissions, okOr_eq_ok.mpr hsubmit, ?_⟩
    dsimp only
    cases hsettled with
    | held hquorum =>
      rw [if_pos hquorum]
      exact hstore
    | moved hquorum hmedian hbound =>
      rw [if_neg (Nat.not_lt.mpr hquorum)]
      refine bind_eq_ok.mpr ⟨_, okOr_eq_ok.mpr hmedian, ?_⟩
      split
      · rename_i hbounded
        simp only [Bool.and_eq_true, bne_iff_ne, ne_eq] at hbounded
        obtain ⟨deviation, hdeviation, hle⟩ := hbound hbounded.1 hbounded.2
        refine bind_eq_ok.mpr ⟨deviation, orPanic_eq_ok.mpr hdeviation, ?_⟩
        exact bind_eq_ok.mpr ⟨(), require_eq_ok.mpr (decide_eq_true hle), hstore⟩
      · exact hstore
  have hlength : 2 ≤ (c.accounts stored).length := by
    obtain ⟨hlt, -⟩ := List.getElem?_eq_some_iff.mp ha
    rw [RecordCall.accounts, List.length_cons]
    omega
  refine bind_eq_ok.mpr ⟨.updatePrice price, okOr_eq_ok.mpr hix, ?_⟩
  exact bind_eq_ok.mpr ⟨(), require_eq_ok.mpr (decide_eq_true hlength), hrun⟩

/-- A feed without a bound follows the median. -/
theorem oracleNext_moved {a : AccountInfo} {submissions : List Submission} {price median : UInt64}
    {data : List UInt8} (hw : c.account.isWritable = true) (ha : c.others[0]? = some a)
    (hsigner : a.isSigner = true)
    (hix : tryFromSlice c.data = some (OracleInstruction.updatePrice price))
    (hheld : heldFeed stored = some f) (hinit : f.isInitialized = true) (hprice : price ≠ 0)
    (hbound : f.maxDeviationBps = 0)
    (hsubmit : submit f.submissions a.key price c.timestamp = some submissions)
    (hquorum : ({ f with submissions } : PriceFeed).freshQuorum ≤
      ({ f with submissions } : PriceFeed).freshCount c.timestamp)
    (hmedian : ({ f with submissions } : PriceFeed).freshMedian c.timestamp = some median)
    (hg : toVec { f with submissions, price := median, publishTs := c.timestamp } = some data) :
    oracleNext π stored c = data := by
  unfold oracleNext
  rw [update_runs hw ha hsigner hix hheld hinit hprice hsubmit
    (.moved hquorum hmedian fun _ hd => absurd hbound hd) hg]
  rfl

end

/-- A call that one key signs. -/
def signedCall (key : Pubkey) (timestamp : UInt64) (ix : OracleInstruction) : RecordCall where
  account := { key := .repeated 9, lamports := 0, data := [], owner := ProgramIds.oracleProgram }
  others := [{ key, lamports := 0, data := [], owner := ProgramIds.systemProgram,
               isSigner := true, isWritable := false }]
  data := (toVec ix).getD []
  timestamp

/-- Three publishers, the first two of which have submitted. Submissions are fresh for ten
    seconds. -/
def quotedFeed : PriceFeed :=
  ⟨.repeated 1, 100, 1, true, 0, 10,
    [⟨.repeated 1, 100, 0⟩, ⟨.repeated 2, 200, 1⟩, ⟨.repeated 3, 0, 0⟩]⟩

/-- The same before the second one has submitted. -/
def unquotedFeed : PriceFeed :=
  ⟨.repeated 1, 0, 0, true, 0, 10,
    [⟨.repeated 1, 100, 0⟩, ⟨.repeated 2, 0, 0⟩, ⟨.repeated 3, 0, 0⟩]⟩

/-- The same with the third one's submission, and the aggregate that results. -/
def movedFeed (timestamp : UInt64) : PriceFeed :=
  ⟨.repeated 1, 200, 2, true, 0, 10,
    [⟨.repeated 1, 100, 0⟩, ⟨.repeated 2, 200, 1⟩, ⟨.repeated 3, 300, timestamp⟩]⟩

def feedBytes (f : PriceFeed) : List UInt8 := (toVec f).getD []

/-- The calls of the third publisher: one while the others are fresh, one long after. -/
def soleCalls : List RecordCall :=
  [signedCall (.repeated 3) 2 (.updatePrice 300), signedCall (.repeated 3) 100 (.updatePrice 300)]

theorem FeedReachable.run {π : Profile} {stored : List UInt8} (h : FeedReachable π stored)
    (cs : List RecordCall) : FeedReachable π (cs.foldl (oracleNext π) stored) := by
  induction cs generalizing stored with
  | nil => exact h
  | cons c cs ih => exact ih (h.step c)

/-- The first two publishers submit, once all three are registered. -/
def openingCalls : List RecordCall :=
  [signedCall (.repeated 1) 0 (.initFeed 0 10),
    signedCall (.repeated 1) 0 (.addPublisher (.repeated 2)),
    signedCall (.repeated 1) 0 (.addPublisher (.repeated 3)),
    signedCall (.repeated 1) 0 (.updatePrice 100)]

def secondCall : RecordCall := signedCall (.repeated 2) 1 (.updatePrice 200)

theorem quotedFeed_reachable : FeedReachable .dev (feedBytes quotedFeed) := by
  have hopen : openingCalls.foldl (oracleNext .dev) [] = feedBytes unquotedFeed := by decide +kernel
  have hix : tryFromSlice secondCall.data = some (OracleInstruction.updatePrice 200) := by
    decide
  have hsubmit : submit unquotedFeed.submissions (.repeated 2) 200 1 = some quotedFeed.submissions := by
    decide
  have hmedian : ({ unquotedFeed with submissions := quotedFeed.submissions } : PriceFeed).freshMedian
      1 = some 100 :=
    (freshMedian_sorted (by decide)).trans (by decide)
  have hquoted : oracleNext .dev (feedBytes unquotedFeed) secondCall = feedBytes quotedFeed :=
    oracleNext_moved (f := unquotedFeed) rfl rfl rfl hix (by decide +kernel) rfl (by decide) rfl
      hsubmit (by decide +kernel) hmedian (by decide +kernel)
  have hnone : heldFeed [] = none := by decide
  have hstart : FeedReachable .dev [] := .start fun f hf => absurd (hnone.symm.trans hf) (by simp)
  have hreach := (hstart.run openingCalls).step secondCall
  rw [hopen, hquoted] at hreach
  exact hreach

/-- The third publisher moves the aggregate while the others are fresh. -/
theorem thirdCall_moved : oracleNext .dev (feedBytes quotedFeed)
    (signedCall (.repeated 3) 2 (.updatePrice 300)) = feedBytes (movedFeed 2) := by
  have hix : tryFromSlice (signedCall (.repeated 3) 2 (.updatePrice 300)).data =
      some (OracleInstruction.updatePrice 300) := by
    decide
  have hsubmit : submit quotedFeed.submissions (.repeated 3) 300 2 =
      some (movedFeed 2).submissions := by
    decide
  have hmedian : ({ quotedFeed with submissions := (movedFeed 2).submissions } :
      PriceFeed).freshMedian 2 = some 200 :=
    (freshMedian_sorted (by decide)).trans (by decide)
  exact oracleNext_moved (f := quotedFeed) rfl rfl rfl hix (by decide +kernel) rfl (by decide) rfl
    hsubmit (by decide +kernel) hmedian (by decide +kernel)

/-- Where the calls of the third publisher lead. The second one finds no quorum. -/
theorem soleCalls_held : heldFeed (soleCalls.foldl (oracleNext .dev) (feedBytes quotedFeed)) =
    some (movedFeed 100) := by
  have hheld : oracleNext .dev (feedBytes (movedFeed 2))
      (signedCall (.repeated 3) 100 (.updatePrice 300)) = feedBytes (movedFeed 100) := by
    decide +kernel
  rw [soleCalls, List.foldl_cons, thirdCall_moved, List.foldl_cons, hheld, List.foldl_nil]
  decide +kernel

theorem soleCalls_sole : ∀ c ∈ soleCalls, SoleUpdate (.repeated 3) c := by
  intro c hc
  rcases List.mem_pair.mp hc with rfl | rfl
  · exact ⟨⟨300, by decide⟩, by decide⟩
  · exact ⟨⟨300, by decide⟩, by decide⟩

theorem sole_publisher_quoted : ∃ g,
    heldFeed (soleCalls.foldl (oracleNext .dev) (feedBytes quotedFeed)) = some g ∧
      SameOthers (.repeated 3) quotedFeed g ∧ (g.price = quotedFeed.price ∨
        ∃ c ∈ soleCalls, BetweenOthers quotedFeed (.repeated 3) c.timestamp g.price) :=
  sole_publisher quotedFeed_reachable (by decide +kernel) (by decide) soleCalls_sole
    (by decide)

/-- **An aggregate is held after the submissions it came from expired.** It is not what it was
    before the calls of the publisher, and no submission of the others is fresh at the last. -/
theorem held_past_expiry : FeedReachable .dev (feedBytes quotedFeed) ∧
    heldFeed (feedBytes quotedFeed) = some quotedFeed ∧ 3 ≤ quotedFeed.submissions.length ∧
    (∀ c ∈ soleCalls, SoleUpdate (.repeated 3) c) ∧
    (soleCalls.map (·.timestamp)).Pairwise (· ≤ ·) ∧
    heldFeed (soleCalls.foldl (oracleNext .dev) (feedBytes quotedFeed)) =
      some (movedFeed 100) ∧
    (movedFeed 100).price ≠ quotedFeed.price ∧
    ∀ c ∈ soleCalls.getLast?, ¬ BetweenOthers quotedFeed (.repeated 3) c.timestamp
      (movedFeed 100).price := by
  refine ⟨quotedFeed_reachable, by decide +kernel, by decide, soleCalls_sole, by decide,
    soleCalls_held, by decide, ?_⟩
  rintro c hc ⟨⟨s, hs, -⟩, -⟩
  obtain rfl := Option.some.inj hc
  have hnone : freshOthers quotedFeed (.repeated 3) 100 = [] := by decide
  exact absurd (hnone ▸ hs) List.not_mem_nil

end Proof
end Himsha
