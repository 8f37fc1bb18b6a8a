import Himsha.Runtime.Cpi

/-!
# The oracle program

A price feed aggregates the submissions of its registered publishers: the median of those that
are fresh, moved by at most the feed's deviation bound per update, and held while there is no
quorum of fresh submissions.
-/

set_option autoImplicit false

namespace Himsha
namespace Programs
namespace Oracle

open Himsha.Lib Himsha.Runtime

def maxPublishers : Nat := 16

def bps : Nat := 10000

/-- One publisher's latest submission. -/
structure Submission where
  publisher : Pubkey
  price : UInt64
  publishTs : UInt64
deriving DecidableEq

instance : Borsh Submission :=
  .iso (fun s => (s.publisher, s.price, s.publishTs)) (fun (p, r, t) => ⟨p, r, t⟩) fun _ => rfl

structure PriceFeed where
  authority : Pubkey := default
  /-- Latest aggregate. -/
  price : UInt64 := 0
  publishTs : UInt64 := 0
  isInitialized : Bool := false
  /-- Max one-step move of the aggregate, in bps; 0 means unbounded. -/
  maxDeviationBps : UInt64 := 0
  /-- Older submissions drop out of the median; 0 means never. -/
  maxSubmissionAge : UInt64 := 0
  submissions : List Submission := []
deriving DecidableEq

instance : Borsh PriceFeed :=
  .iso (fun f => (f.authority, f.price, f.publishTs, f.isInitialized, f.maxDeviationBps,
      f.maxSubmissionAge, f.submissions))
    (fun (a, p, t, i, d, m, s) => ⟨a, p, t, i, d, m, s⟩) fun _ => rfl

namespace PriceFeed

def submissionFresh (f : PriceFeed) (s : Submission) (now : UInt64) : Bool :=
  s.price != 0 &&
    (f.maxSubmissionAge == 0 || decide (saturatingSub now s.publishTs ≤ f.maxSubmissionAge))

def freshCount (f : PriceFeed) (now : UInt64) : Nat :=
  (f.submissions.filter (f.submissionFresh · now)).length

/-- Minimum number of fresh submissions before an update may move the aggregate. -/
def freshQuorum (f : PriceFeed) : Nat :=
  if f.submissions.length ≤ 1 then 1 else 2

/-- Median of the fresh submissions; even counts take the lower-middle element. -/
def freshMedian (f : PriceFeed) (now : UInt64) : Option UInt64 :=
  let prices := (f.submissions.filter (f.submissionFresh · now)).map (·.price)
  (prices.mergeSort fun a b => decide (a ≤ b))[(prices.length - 1) / 2]?

end PriceFeed

inductive OracleInstruction where
  /-- `[0]` = feed, `[1]` = authority. -/
  | initFeed (maxDeviationBps maxSubmissionAge : UInt64)
  /-- `[0]` = feed, `[1]` = publisher. -/
  | updatePrice (price : UInt64)
  /-- `[0]` = feed, `[1]` = authority. -/
  | addPublisher (publisher : Pubkey)
  | removePublisher (publisher : Pubkey)
deriving DecidableEq

namespace OracleInstruction

def ser : OracleInstruction → Option (List UInt8)
  | .initFeed deviation age => tag 0 (deviation, age)
  | .updatePrice price => tag 1 price
  | .addPublisher publisher => tag 2 publisher
  | .removePublisher publisher => tag 3 publisher

def de : List UInt8 → Option (OracleInstruction × List UInt8)
  | 0 :: bs => untag (fun (d, a) => .initFeed d a) bs
  | 1 :: bs => untag .updatePrice bs
  | 2 :: bs => untag .addPublisher bs
  | 3 :: bs => untag .removePublisher bs
  | _ => none

instance : Borsh OracleInstruction where
  ser := ser
  de := de
  de_ser := by
    intro ix bs h rest
    cases ix <;>
    · obtain ⟨pre, rfl, hde⟩ := untag_tag (β := OracleInstruction) h
      simp only [List.cons_append, de, hde]

end OracleInstruction

/-- `|new - old| / old` in bps. `none` is the division by a zero price. -/
def deviationBps (π : Profile) (old new : UInt64) : Option Nat :=
  let diff := max old.toNat new.toNat - min old.toNat new.toNat
  (mulU128 π diff bps).bind fun scaled => divU128 scaled old.toNat

def requireAuthority (feed : PriceFeed) (accounts : List AccountInfo) : Outcome Unit := do
  let authority ← slot accounts 1
  authority.requireSigner
  require (authority.key == feed.authority) .unauthorized

/-- Put a publisher's new submission in the slot it is registered in. -/
def submit (submissions : List Submission) (publisher : Pubkey) (price ts : UInt64) :
    Option (List Submission) :=
  (submissions.findIdx? (·.publisher == publisher)).map fun i =>
    submissions.modify i fun s => { s with price, publishTs := ts }

def run (π : Profile) (accounts : List AccountInfo) (timestamp : UInt64) :
    OracleInstruction → Outcome (List AccountInfo)
  | .initFeed maxDeviationBps maxSubmissionAge => do
      let authority ← slot accounts 1
      authority.requireSigner
      let feed : PriceFeed ← loadOr accounts 0 {}
      require (!feed.isInitialized) .alreadyInitialized
      store accounts 0 { feed with
        authority := authority.key
        maxDeviationBps
        maxSubmissionAge
        submissions := [⟨authority.key, 0, 0⟩]
        isInitialized := true }
  | .updatePrice price => do
      let publisher ← slot accounts 1
      publisher.requireSigner
      let feed : PriceFeed ← load accounts 0
      require feed.isInitialized .notInitialized
      require (price != 0) .invalidInstruction
      let submissions ← okOr .unauthorized
        (submit feed.submissions publisher.key price timestamp)
      let feed : PriceFeed := { feed with submissions }
      -- Without a quorum of fresh submissions the print is recorded and the aggregate held.
      if feed.freshCount timestamp < feed.freshQuorum then store accounts 0 feed
      else
        let median ← okOr .stalePrice (feed.freshMedian timestamp)
        if feed.price != 0 && feed.maxDeviationBps != 0 then
          let deviation ← orPanic (deviationBps π feed.price median)
          require (decide (deviation ≤ feed.maxDeviationBps.toNat)) .priceOutOfBounds
        store accounts 0 { feed with price := median, publishTs := timestamp }
  | .addPublisher publisher => do
      let feed : PriceFeed ← load accounts 0
      require feed.isInitialized .notInitialized
      requireAuthority feed accounts
      require (!feed.submissions.any (·.publisher == publisher)) .alreadyInitialized
      require (decide (feed.submissions.length < maxPublishers)) .invalidInstruction
      let submission : Submission := ⟨publisher, 0, 0⟩
      store accounts 0 { feed with submissions := feed.submissions ++ [submission] }
  | .removePublisher publisher => do
      let feed : PriceFeed ← load accounts 0
      require feed.isInitialized .notInitialized
      requireAuthority feed accounts
      require (publisher != feed.authority) .invalidInstruction
      let submissions := feed.submissions.filter (·.publisher != publisher)
      require (submissions.length != feed.submissions.length) .invalidAccountData
      store accounts 0 { feed with submissions }

def process (π : Profile) (accounts : List AccountInfo) (data : List UInt8) (timestamp : UInt64) :
    Outcome (List AccountInfo) := do
  let ix ← okOr .invalidInstruction (tryFromSlice data)
  require (decide (2 ≤ accounts.length)) .notEnoughAccounts
  run π accounts timestamp ix

end Oracle
end Programs
end Himsha
