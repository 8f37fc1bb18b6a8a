import Himsha.Proof.CpiGate

/-!
# How much can be invoked

Two counters bound the invocations of a top-level execution: the depth, which every invocation gives
back, and the meter, which nothing gives back. `Body.moments` is what happens to the two while a
body runs, in order, whatever the body makes of the errors of its callees. The depth stays within
its limit, the meter is at every moment the sum of the charges that were accepted so far, and since
every callee was charged for, there are not more of them than the budget pays for (`cpi_bounded`).
-/

set_option autoImplicit false

namespace Himsha
namespace Proof

open Himsha.Lib Himsha.Runtime Himsha.Vm

/-! ## What happens -/

inductive CpiEvent where
  /-- The guard let an invocation in. -/
  | entered
  /-- The meter accepted a charge. -/
  | charged (units : UInt64)
  /-- The body of a callee is run. -/
  | called
  /-- An invocation is over that was made at this depth, with a result, an error or a panic. -/
  | left (depth : Nat)
deriving DecidableEq

/-- An event, and the two counters after it. -/
structure Moment where
  event : CpiEvent
  depth : Nat
  spent : UInt64
deriving DecidableEq

def Moment.of (event : CpiEvent) (th : Thread) : Moment := ⟨event, th.depth, th.spent⟩

/-- What an invocation is charged. -/
def costOf (indices : List Nat) : UInt64 :=
  cpiBaseCost + perAccountCost * UInt64.ofNat indices.length

/-- What happens until an invocation is over. `callee` is what happens in the callee. -/
def attempt (accounts : List AccountInfo) (indices : List Nat)
    (callee : List AccountInfo → Thread → List Moment) (th : Thread) : List Moment :=
  match windowOf accounts indices with
  | .error _ => []
  | .ok window =>
      if th.depth + 1 > maxCpiDepth then []
      else
        .of .entered { th with depth := th.depth + 1 } ::
          match Comp.exec (charge (costOf indices)) { th with depth := th.depth + 1 } with
          | (.error _, _) => []
          | (.ok _, paid) =>
              .of (.charged (costOf indices)) paid ::
                match rejectDuplicateWritable window with
                | .error _ => []
                | .ok _ => .of .called paid :: callee window paid

/-- What happens while a body runs. -/
def Body.moments {α : Type} : Body α → Thread → List Moment
  | .done _, _ => []
  | .fail _, _ => []
  | .invoke accounts indices signers data callee process next, th =>
      attempt accounts indices (fun window paid =>
          (process (markSigners window signers) data).moments paid) th ++
        .of (.left th.depth) (Comp.exec (caught (invokeSignedIndexed accounts indices signers data
          callee fun window data => (process window data).run)) th).2 ::
        match Comp.exec (caught (invokeSignedIndexed accounts indices signers data callee
            fun window data => (process window data).run)) th with
        | (.error _, _) => []
        | (.ok r, th') => (next r).moments th'

/-- Every window is shorter than `2 ^ 57` accounts. A longer one does not fit into an allocation:
    the copy of the accounts panics before there is a callee. -/
def Body.Fits {α : Type} : Body α → Prop
  | .done _ => True
  | .fail _ => True
  | .invoke _ indices _ _ _ process next =>
      indices.length < 2 ^ 57 ∧ (∀ window data, (process window data).Fits) ∧ ∀ r, (next r).Fits

/-! ## Adding up -/

def CpiEvent.units : CpiEvent → Nat
  | .charged units => units.toNat
  | _ => 0

/-- The sum of the charges that were accepted. -/
def accepted (moments : List Moment) : Nat := (moments.map (·.event.units)).sum

/-- How many bodies of callees were run. -/
def bodies (moments : List Moment) : Nat := moments.countP (·.event = .called)

/-- From `start` on, the meter is what was accepted so far. -/
def Metered : Nat → List Moment → Prop
  | _, [] => True
  | start, m :: rest => m.spent.toNat = start + m.event.units ∧ Metered (start + m.event.units) rest

section
variable {m : Moment} {ms ms' : List Moment} {start : Nat}

@[simp] theorem accepted_nil : accepted [] = 0 := rfl

@[simp] theorem accepted_cons : accepted (m :: ms) = m.event.units + accepted ms := by
  simp [accepted]

@[simp] theorem accepted_append : accepted (ms ++ ms') = accepted ms + accepted ms' := by
  simp [accepted]

theorem metered_append :
    Metered start (ms ++ ms') ↔ Metered start ms ∧ Metered (start + accepted ms) ms' := by
  induction ms generalizing start with
  | nil => simp [Metered]
  | cons m ms ih =>
    rw [List.cons_append, Metered, Metered, ih, accepted_cons, and_assoc, Nat.add_assoc]

/-- At every moment. -/
theorem Metered.at_moment (h : Metered start ms) {before after : List Moment}
    (hms : ms = before ++ m :: after) : m.spent.toNat = start + accepted (before ++ [m]) := by
  rw [hms, metered_append] at h
  rw [h.2.1, accepted_append, accepted_cons, accepted_nil, Nat.add_zero, Nat.add_assoc]

end

/-! ## The machine -/

/-- A charge that is accepted is added as it is. -/
theorem accepted_toNat {spent units : UInt64} (h : ¬ saturatingAdd spent units > computeBudget) :
    (saturatingAdd spent units).toNat = spent.toNat + units.toNat := by
  have hle := UInt64.le_iff_toNat_le.mp (UInt64.not_lt.mp h)
  have hbudget : computeBudget.toNat = 1000000 := rfl
  have hsat := saturatingAdd_toNat spent units
  omega

/-- Where the window fits, nothing wraps. -/
theorem costOf_toNat {indices : List Nat} (h : indices.length < 2 ^ 57) :
    (costOf indices).toNat = 1000 + 100 * indices.length := by
  have hlength : (UInt64.ofNat indices.length).toNat = indices.length :=
    UInt64.toNat_ofNat_of_lt' (Nat.lt_trans h (by decide))
  have hbase : cpiBaseCost.toNat = 1000 := rfl
  have heach : perAccountCost.toNat = 100 := rfl
  unfold costOf
  rw [UInt64.toNat_add, UInt64.toNat_mul, hlength, hbase, heach]
  omega

section
variable {accounts window before after : List AccountInfo} {indices signers : List Nat}
  {data : List UInt8} {callee programId : Pubkey} {process : Process} {th : Thread}
  {I : Thread → Prop}

/-- The gate changes nothing but the trail. -/
theorem gate_keeps (hI : ∀ t trail, I t → I { t with approved := trail }) :
    Comp.Keeps I (gate programId before after) := by
  have hrecord : ∀ a : AccountInfo,
      Comp.Keeps I (record a >>= fun _ => pure a : Prog AccountInfo) := fun a =>
    .bind (.modify fun t ht => hI t _ ht) fun _ => .pure
  have hslot : ∀ pre post, Comp.Keeps I (validateWrite programId pre post) := by
    intro pre post
    unfold validateWrite
    split
    · exact .pure
    split
    · exact hrecord post
    split
    · exact hrecord post
    split
    · exact hrecord _
    · refine .bind .get fun t => ?_
      split
      · split
        · exact .pure
        · exact .throw
      · exact .throw
  unfold gate
  induction before.zip after with
  | nil => exact .pure
  | cons p rest ih =>
    rw [List.mapM_cons]
    exact .bind (hslot p.1 p.2) fun _ => .bind ih fun _ => .pure

theorem exec_entry : Comp.exec (entry window indices) th =
    if saturatingAdd th.spent (costOf indices) > computeBudget then
      (.error (.err .computeExhausted), th)
    else (rejectDuplicateWritable window,
      { th with spent := saturatingAdd th.spent (costOf indices) }) := by
  have hentry : entry window indices =
      charge (costOf indices) >>= fun _ => Comp.ofExcept (rejectDuplicateWritable window) := rfl
  rw [hentry, Comp.exec_bind, exec_charge]
  by_cases hunits : saturatingAdd th.spent (costOf indices) > computeBudget
  · simp only [hunits, if_true]
  · simp only [hunits, if_false]
    rfl

/-- The meter after an invocation, however far it gets. -/
theorem invoke_spent :
    (Comp.exec (invokeSignedIndexed accounts indices signers data callee process) th).2.spent =
      match windowOf accounts indices with
      | .error _ => th.spent
      | .ok window =>
          if th.depth + 1 > maxCpiDepth then th.spent
          else if saturatingAdd th.spent (costOf indices) > computeBudget then th.spent
          else
            match rejectDuplicateWritable window with
            | .error _ => saturatingAdd th.spent (costOf indices)
            | .ok _ => (Comp.exec (process (markSigners window signers) data) { th with
                depth := th.depth + 1
                spent := saturatingAdd th.spent (costOf indices) }).2.spent := by
  rw [invokeSignedIndexed_eq, Comp.exec_bind]
  cases windowOf accounts indices with
  | error fault => rfl
  | ok window =>
    change (Comp.exec (withCpiDepth _) th).2.spent = _
    rw [exec_withCpiDepth]
    by_cases hdepth : th.depth + 1 > maxCpiDepth
    · simp only [hdepth, if_true]
    · simp only [hdepth, if_false, Comp.exec_bind, exec_entry]
      by_cases hunits : saturatingAdd th.spent (costOf indices) > computeBudget
      · simp only [hunits, if_true]
      · simp only [hunits, if_false]
        cases rejectDuplicateWritable window with
        | error fault => rfl
        | ok u =>
          dsimp only
          rw [calleeRun, Comp.exec_bind]
          cases Comp.exec (process (markSigners window signers) data) _ with
          | mk r t =>
            cases r with
            | error fault => rfl
            | ok after =>
              have hgate : (Comp.exec (gate callee window after) t).2.spent = t.spent :=
                gate_keeps (I := fun t' => t'.spent = t.spent) (fun _ _ h => h) t rfl
              dsimp only
              rw [← hgate]
              cases Comp.exec (gate callee window after) t with
              | mk r' t' => cases r' <;> rfl

theorem caught_keeps {α : Type} {x : Prog α} (h : Comp.Keeps I x) : Comp.Keeps I (caught x) := by
  intro t ht
  rw [caught_state]
  exact h t ht

/-- An invocation gives back the depth, whatever its callee comes to. -/
theorem invoke_depth (hprocess : ∀ window data d, Comp.Keeps (·.depth = d) (process window data))
    (d : Nat) : Comp.Keeps (·.depth = d)
      (invokeSignedIndexed accounts indices signers data callee process) := by
  have hcharge : ∀ units d, Comp.Keeps (·.depth = d) (charge units) := by
    intro units d t ht
    rw [exec_charge]
    split
    · exact ht
    · exact ht
  rw [invokeSignedIndexed_eq]
  refine .bind .ofExcept fun window => ?_
  intro t ht
  rw [exec_withCpiDepth]
  split
  · exact ht
  · have hbody : Comp.Keeps (·.depth = t.depth + 1) (entry window indices >>= fun _ =>
        calleeRun window signers data callee process >>= fun gated =>
          pure (writeBack accounts gated indices)) :=
      .bind (.bind (hcharge _ _) fun _ => .ofExcept) fun _ =>
        .bind (.bind (hprocess _ _ _) fun _ => gate_keeps fun _ _ h => h) fun _ => .pure
    have hdeeper := hbody { t with depth := t.depth + 1 } rfl
    dsimp only at hdeeper ⊢
    rw [hdeeper, ← ht]
    rfl

end

/-- So does a body. -/
theorem run_depth {α : Type} (b : Body α) (d : Nat) : Comp.Keeps (·.depth = d) b.run := by
  induction b generalizing d with
  | done a => exact .pure
  | fail fault => exact .throw
  | invoke accounts indices signers data callee process next ihprocess ihnext =>
    rw [Body.run]
    exact .bind (caught_keeps (invoke_depth (fun window data => ihprocess window data) d))
      fun r => ihnext r d

/-! ## Whole runs -/

/-- The meter went from `spent` to `spent'` in these moments. Where all windows fit, every callee was
    paid for. -/
structure Accounted (fits : Prop) (spent spent' : UInt64) (moments : List Moment) : Prop where
  sum : spent'.toNat = spent.toNat + accepted moments
  within : spent' ≤ computeBudget
  metered : Metered spent.toNat moments
  counters : ∀ m ∈ moments, m.depth ≤ maxCpiDepth ∧ m.spent ≤ computeBudget
  restored : ∀ m ∈ moments, ∀ d, m.event = .left d → m.depth = d
  paid : fits → 1000 * bodies moments ≤ accepted moments

namespace Accounted

variable {fits fits' : Prop} {s s' s'' : UInt64} {ms ms' : List Moment}

theorem mono (h : Accounted fits s s' ms) (hfits : fits' → fits) : Accounted fits' s s' ms :=
  { h with paid := fun h' => h.paid (hfits h') }

theorem nil (h : s ≤ computeBudget) : Accounted fits s s [] where
  sum := rfl
  within := h
  metered := trivial
  counters _ hm := absurd hm List.not_mem_nil
  restored _ hm := absurd hm List.not_mem_nil
  paid _ := Nat.le_refl 0

theorem append (h : Accounted fits s s' ms) (h' : Accounted fits s' s'' ms') :
    Accounted fits s s'' (ms ++ ms') where
  sum := by rw [h'.sum, h.sum, accepted_append, Nat.add_assoc]
  within := h'.within
  metered := metered_append.mpr ⟨h.metered, h.sum ▸ h'.metered⟩
  counters m hm := (List.mem_append.mp hm).elim (h.counters m) (h'.counters m)
  restored m hm := (List.mem_append.mp hm).elim (h.restored m) (h'.restored m)
  paid := by
    intro hfits
    have hp := h.paid hfits
    have hp' := h'.paid hfits
    unfold bodies at hp hp' ⊢
    rw [accepted_append, List.countP_append]
    omega

/-- A moment that neither charges nor runs anything. -/
theorem free {event : CpiEvent} (th : Thread) (hunits : event.units = 0) (hcalled : event ≠ .called)
    (hleft : ∀ d, event = .left d → th.depth = d) (hdepth : th.depth ≤ maxCpiDepth)
    (hspent : th.spent ≤ computeBudget) : Accounted fits th.spent th.spent [.of event th] where
  sum := by simp [Moment.of, hunits]
  within := hspent
  metered := ⟨by simp [Moment.of, hunits], trivial⟩
  counters := List.forall_mem_singleton.mpr ⟨hdepth, hspent⟩
  restored := List.forall_mem_singleton.mpr hleft
  paid _ := by simp [bodies, Moment.of, hcalled]

/-- An accepted charge, and the callee that it is for. -/
theorem called {indices : List Nat} (th : Thread) (hlength : fits → indices.length < 2 ^ 57)
    (hdepth : th.depth ≤ maxCpiDepth) (hspent : th.spent = saturatingAdd s (costOf indices))
    (hunits : ¬ saturatingAdd s (costOf indices) > computeBudget) :
    Accounted fits s th.spent [.of (.charged (costOf indices)) th] ∧
      Accounted fits s th.spent [.of (.charged (costOf indices)) th, .of .called th] := by
  have hwithin : th.spent ≤ computeBudget := hspent ▸ UInt64.not_lt.mp hunits
  have hsum : th.spent.toNat = s.toNat + (costOf indices).toNat := hspent ▸ accepted_toNat hunits
  constructor
  · exact {
      sum := hsum
      within := hwithin
      metered := ⟨hsum, trivial⟩
      counters := List.forall_mem_singleton.mpr ⟨hdepth, hwithin⟩
      restored := List.forall_mem_singleton.mpr nofun
      paid := fun _ => Nat.zero_le _ }
  · exact {
      sum := hsum
      within := hwithin
      metered := ⟨hsum, hsum, trivial⟩
      counters := List.forall_mem_cons.mpr
        ⟨⟨hdepth, hwithin⟩, List.forall_mem_singleton.mpr ⟨hdepth, hwithin⟩⟩
      restored := List.forall_mem_cons.mpr ⟨nofun, List.forall_mem_singleton.mpr nofun⟩
      paid := by
        intro hfits
        change 1000 * 1 ≤ (costOf indices).toNat + 0
        rw [costOf_toNat (hlength hfits)]
        omega }

end Accounted

section
variable {accounts : List AccountInfo} {indices signers : List Nat} {data : List UInt8}
  {callee : Pubkey} {process : Process} {moments : List AccountInfo → Thread → List Moment}
  {th : Thread} {fits : Prop}

/-- Up to the end of an invocation, if the callee keeps its accounts. -/
theorem attempt_accounted (hlength : fits → indices.length < 2 ^ 57) (hspent : th.spent ≤ computeBudget)
    (hcallee : ∀ window th', th'.depth ≤ maxCpiDepth → th'.spent ≤ computeBudget →
      Accounted fits th'.spent
        (Comp.exec (process (markSigners window signers) data) th').2.spent (moments window th')) :
    Accounted fits th.spent
      (Comp.exec (invokeSignedIndexed accounts indices signers data callee process) th).2.spent
      (attempt accounts indices moments th) := by
  rw [invoke_spent]
  unfold attempt
  cases windowOf accounts indices with
  | error fault => exact .nil hspent
  | ok window =>
    by_cases hdeep : th.depth + 1 > maxCpiDepth
    · simp only [hdeep, if_true]
      exact .nil hspent
    have hentered : Accounted fits th.spent th.spent
        [.of .entered { th with depth := th.depth + 1 }] :=
      .free { th with depth := th.depth + 1 } rfl (by intro h; cases h) (by intro d h; cases h)
        (Nat.not_lt.mp hdeep) hspent
    simp only [hdeep, if_false, exec_charge]
    by_cases hunits : saturatingAdd th.spent (costOf indices) > computeBudget
    · simp only [hunits, if_true]
      exact hentered
    simp only [hunits, if_false]
    obtain ⟨hcharged, hcalled⟩ := Accounted.called { th with
      depth := th.depth + 1
      spent := saturatingAdd th.spent (costOf indices) } hlength (Nat.not_lt.mp hdeep) rfl hunits
    cases rejectDuplicateWritable window with
    | error fault => exact hentered.append hcharged
    | ok u =>
      exact hentered.append (hcalled.append
        (hcallee window _ (Nat.not_lt.mp hdeep) (UInt64.not_lt.mp hunits)))

end

/-- **The run lemma.** -/
theorem run_accounted {α : Type} (b : Body α) :
    ∀ th, th.depth ≤ maxCpiDepth → th.spent ≤ computeBudget →
      Accounted b.Fits th.spent (Comp.exec b.run th).2.spent (b.moments th) := by
  induction b with
  | done a => exact fun th _ hspent => .nil hspent
  | fail fault => exact fun th _ hspent => .nil hspent
  | invoke accounts indices signers data callee process next ihprocess ihnext =>
    intro th hdepth hspent
    let fits := (Body.invoke accounts indices signers data callee process next).Fits
    rw [Body.run, Body.moments, Comp.exec_bind]
    have hattempt : Accounted fits th.spent (Comp.exec (caught (invokeSignedIndexed accounts indices
        signers data callee fun window data => (process window data).run)) th).2.spent
        (attempt accounts indices (fun window paid =>
          (process (markSigners window signers) data).moments paid) th) := by
      rw [caught_state]
      exact attempt_accounted (fun h => h.1) hspent fun window th' hdepth' hspent' =>
        (ihprocess _ _ th' hdepth' hspent').mono fun h => h.2.1 _ _
    have hdepth' : (Comp.exec (caught (invokeSignedIndexed accounts indices signers data callee
        fun window data => (process window data).run)) th).2.depth = th.depth :=
      caught_keeps (invoke_depth (fun window data => run_depth (process window data)) th.depth)
        th rfl
    cases hexec : Comp.exec (caught (invokeSignedIndexed accounts indices signers data callee
        fun window data => (process window data).run)) th with
    | mk r th' =>
      rw [hexec] at hattempt hdepth'
      have hleft : Accounted fits th'.spent th'.spent [.of (.left th.depth) th'] :=
        .free th' rfl (by intro h; cases h) (fun d hd => hdepth'.trans (CpiEvent.left.inj hd))
          (hdepth'.trans_le hdepth) hattempt.within
      cases r with
      | error fault => exact hattempt.append hleft
      | ok r =>
        have hrest := ihnext r th' (hdepth'.trans_le hdepth) hattempt.within
        exact hattempt.append (hleft.append (hrest.mono fun h => h.2.2 r))

/-- What bounds the invocations of an execution that took the thread-locals from `th` to `th'`. -/
structure CpiBounded (fits : Prop) (th th' : Thread) (moments : List Moment) : Prop where
  depth : ∀ m ∈ moments, m.depth ≤ maxCpiDepth
  restored : ∀ m ∈ moments, ∀ d, m.event = .left d → m.depth = d
  unwound : th'.depth = th.depth
  meter : ∀ before m after, moments = before ++ m :: after →
    m.spent.toNat = accepted (before ++ [m])
  spent : th'.spent.toNat = accepted moments
  budget : (∀ m ∈ moments, m.spent ≤ computeBudget) ∧ th'.spent ≤ computeBudget
  bodies : fits → bodies moments ≤ computeBudget.toNat / cpiBaseCost.toNat

/-- **The work of a top-level execution is bounded**, whatever its program and their callees do with
    the errors of what they invoke. -/
theorem cpi_bounded {programId : Pubkey} {body : List AccountInfo → Body (List AccountInfo)}
    {accounts : List AccountInfo} {th : Thread} (hdepth : th.depth ≤ maxCpiDepth) :
    CpiBounded (body accounts).Fits th (Comp.exec (topLevel programId body accounts) th).2
      ((body accounts).moments (beginExecution th)) := by
  have hrun := run_accounted (body accounts) (beginExecution th) hdepth (by
    change (0 : UInt64) ≤ computeBudget
    decide)
  have hunwound := run_depth (body accounts) th.depth (beginExecution th) rfl
  -- The outermost gate changes neither counter.
  have hlast : ∀ I : Thread → Prop, (∀ t trail, I t → I { t with approved := trail }) →
      I (Comp.exec (body accounts).run (beginExecution th)).2 →
      I (Comp.exec (topLevel programId body accounts) th).2 := by
    intro I hI hbody
    have htop : Comp.exec (topLevel programId body accounts) th = Comp.exec
        ((body accounts).run >>= fun after => validateWrites programId accounts after)
        (beginExecution th) := rfl
    rw [htop, Comp.exec_bind]
    cases hexec : Comp.exec (body accounts).run (beginExecution th) with
    | mk r th₁ =>
      rw [hexec] at hbody
      cases r with
      | error fault => exact hbody
      | ok after => exact Comp.Keeps.bind .ensure (fun _ => gate_keeps hI) th₁ hbody
  have hspent := hlast (·.spent = (Comp.exec (body accounts).run (beginExecution th)).2.spent)
    (fun _ _ h => h) rfl
  have hzero : (beginExecution th).spent.toNat = 0 := rfl
  exact {
    depth := fun m hm => (hrun.counters m hm).1
    restored := hrun.restored
    unwound := hlast (·.depth = th.depth) (fun _ _ h => h) hunwound
    meter := by
      intro before m after hms
      rw [hrun.metered.at_moment hms, hzero, Nat.zero_add]
    spent := by
      rw [hspent, hrun.sum, hzero, Nat.zero_add]
    budget := ⟨fun m hm => (hrun.counters m hm).2, hspent ▸ hrun.within⟩
    bodies := by
      intro hfits
      have hle := UInt64.le_iff_toNat_le.mp hrun.within
      have hsum := hrun.sum
      have hpaid := hrun.paid hfits
      have hbudget : computeBudget.toNat = 1000000 := rfl
      have hbase : cpiBaseCost.toNat = 1000 := rfl
      rw [hbudget, hbase]
      omega }

/-- A program that invokes itself `n` times over, and does not mind if that fails. -/
def nested : Nat → List AccountInfo → Body (List AccountInfo)
  | 0, accounts => .done accounts
  | n + 1, accounts =>
      .invoke accounts [0] [] [] (.repeated 9) (fun window _ => nested n window) fun _ =>
        .done accounts

theorem nested_fits (n : Nat) (accounts : List AccountInfo) : (nested n accounts).Fits := by
  induction n generalizing accounts with
  | zero => trivial
  | succ n ih => exact ⟨show 1 < 2 ^ 57 by decide, fun window _ => ih window, fun _ => trivial⟩

/-- The fifth invocation is refused, and four callees were run. -/
theorem cpi_bounded_nested :
    CpiBounded True {} (Comp.exec (topLevel (.repeated 9) (nested 6) (tokenTrio 5 0)) {}).2
      ((nested 6 (tokenTrio 5 0)).moments {}) ∧
    bodies ((nested 6 (tokenTrio 5 0)).moments {}) = 4 ∧
    accepted ((nested 6 (tokenTrio 5 0)).moments {}) = 4400 := by
  have hbounded : CpiBounded (nested 6 (tokenTrio 5 0)).Fits {}
      (Comp.exec (topLevel (.repeated 9) (nested 6) (tokenTrio 5 0)) {}).2
      ((nested 6 (tokenTrio 5 0)).moments {}) := cpi_bounded (by decide)
  exact ⟨{ hbounded with bodies := fun _ => hbounded.bodies (nested_fits 6 _) },
    by decide +kernel, by decide +kernel⟩

end Proof
end Himsha
