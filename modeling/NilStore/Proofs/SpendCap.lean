import NilStore.Lib.SpendWindow
import NilStore.Proofs.Saturation

/-!
# `NilStore.Proofs.SpendCap`: the monthly cap on elasticity

A deal counts what its stripes cost in `spendWindowSpent`, and the count starts anew when a month
is over. `currentWindow` tests this with a sum of two `uint64`s. While the sum does not wrap around,
`currentWindow` is the roll of a `Window` (`currentWindow_eq_roll`), so the count covers what was
debited since the window opened.

With a month of nearly `2 ^ 64` blocks, which the params allow, the sum does wrap around, and every
signal starts a new window: `spend_cap_exceeded` debits two stripes in one block of a deal whose
owner has allowed one.
-/

set_option autoImplicit false

namespace NilStore.Chain

open NilStore.Lib

variable {β : Type}

/-! ### The counter -/

/-- A window has spent no negative amount. -/
theorem currentWindow_spent_nonneg (params : Params) (height : UInt64) {deal : Deal}
    (h : 0 ≤ deal.spendWindowSpent) : 0 ≤ (currentWindow params height deal).2 := by
  simp only [currentWindow]
  generalize (if deal.spendWindowStartHeight = 0 then height
    else deal.spendWindowStartHeight) = start
  split
  · exact Int.le_refl 0
  · exact h

/-- What the counter of a stored deal is: not negative, and within the cap. Only an accepted signal
adds to it, and that is checked against the cap. -/
theorem run_windowSpent (env : Env β) (params : Params) (b : β) (es : List Event) {d : Nat}
    {deal : Deal} (hget : (run (apply env) (genesis params b) es).deals.get d = some deal) :
    0 ≤ deal.spendWindowSpent ∧ deal.spendWindowSpent ≤ deal.maxMonthlySpend := by
  refine run_deals env params b (fun _ _ => True)
    (fun _ _ deal => 0 ≤ deal.spendWindowSpent ∧ deal.spendWindowSpent ≤ deal.maxMonthlySpend)
    ?_ ?_ (fun _ _ _ _ => trivial) d deal hget
  -- a new deal has spent nothing
  · intro past e d deal _ _ hnew
    obtain ⟨owner, spend, duration, raw, hint, stripe, -, -, -, hspend, hshape⟩ := hnew
    rw [hshape]
    exact ⟨le_rfl, hspend⟩
  · intro past e d deal deal' _ _ hstep ih
    cases hstep with
    | escrow amount => exact ih
    | content size deposit hroot => exact ih
    | repairStarted hmode hslot hpending => exact ih
    | repaired he hpending => exact ih
    | @saturated ctx msg _ newProviders he hget hadmitted hassign =>
        refine ⟨?_, hadmitted.cap⟩
        have hcost := elasticityCost_nonneg
          (run (apply env) (genesis params b) past).getParams
        have hspent : 0 ≤ (currentWindow (run (apply env) (genesis params b) past).getParams
            ctx.height64 deal).2 := currentWindow_spent_nonneg _ _ ih.1
        show 0 ≤ _ + elasticityCost (run (apply env) (genesis params b) past).getParams
        omega

/-! ### The window -/

/-- The window of a deal. -/
def windowOf (deal : Deal) : Window := ⟨deal.spendWindowStartHeight.toNat, deal.spendWindowSpent⟩

/-- Where the window of a deal starts for a signal: a deal without a window opens one. -/
def windowStart (height : UInt64) (deal : Deal) : UInt64 :=
  if deal.spendWindowStartHeight = 0 then height else deal.spendWindowStartHeight

/-- The month is said to be over before it is: the end of the window has wrapped around. -/
def ResetsEarly (params : Params) (height : UInt64) (deal : Deal) : Prop :=
  windowStart height deal + params.monthLenBlocks ≤ height ∧
    height.toNat < (windowStart height deal).toNat + params.monthLenBlocks.toNat

/-- A window that is not reset early is rolled. -/
theorem currentWindow_eq_roll {params : Params} {height : UInt64} {deal : Deal}
    (hlen : 0 < params.monthLenBlocks) (hreset : ¬ResetsEarly params height deal) :
    (⟨(currentWindow params height deal).1.toNat, (currentWindow params height deal).2⟩ : Window) =
      Window.roll params.monthLenBlocks.toNat
        ⟨(windowStart height deal).toNat, deal.spendWindowSpent⟩ height.toNat := by
  have hstart : (if deal.spendWindowStartHeight = 0 then height else deal.spendWindowStartHeight) =
      windowStart height deal := rfl
  rw [currentWindow, Window.roll, hstart]
  by_cases hover : windowStart height deal + params.monthLenBlocks ≤ height
  · have hdone : (windowStart height deal).toNat + params.monthLenBlocks.toNat ≤ height.toNat :=
      not_lt.mp fun hlt => hreset ⟨hover, hlt⟩
    rw [if_pos ⟨hlen, hover⟩, if_pos hdone]
  · have hnot : ¬(windowStart height deal).toNat + params.monthLenBlocks.toNat ≤ height.toNat := by
      -- A sum that is at most a height does not wrap around.
      intro hle
      refine hover (UInt64.le_iff_toNat_le.mpr ?_)
      have hheight := height.toNat_lt
      rw [UInt64.toNat_add, Nat.mod_eq_of_lt (by omega)]
      exact hle
    rw [if_neg fun h => hover h.2, if_neg hnot]

/-- A signal debits the window of its deal. When the window is over it opens the next one first. -/
theorem saturatedDeal_covers {ctx : Ctx} {params : Params} {deal : Deal} {newProviders : List Str}
    {debits : List (Nat × Int)} (hlen : 0 < params.monthLenBlocks)
    (hreset : ¬ResetsEarly params ctx.height64 deal)
    (h : Covers params.monthLenBlocks.toNat debits (windowOf deal)) :
    Covers params.monthLenBlocks.toNat (debits ++ [(ctx.blockHeight, elasticityCost params)])
      (windowOf (saturatedDeal ctx params deal newProviders)) := by
  have hpos : 0 < params.monthLenBlocks.toNat := UInt64.lt_iff_toNat_lt.mp hlen
  -- A deal without a window opens one at the height, which is not before zero.
  have hopen : Covers params.monthLenBlocks.toNat debits
      ⟨(windowStart ctx.height64 deal).toNat, deal.spendWindowSpent⟩ := by
    refine h.later ?_
    rw [windowOf, windowStart]
    split
    · rename_i hzero
      rw [hzero]
      exact Nat.zero_le _
    · exact le_rfl
  have hdebit := hopen.debit hpos ctx.blockHeight (elasticityCost_nonneg params)
  -- the code rolls the window over as the general rule does
  have hroll := currentWindow_eq_roll hlen hreset
  rw [ctx.toNat_height64] at hroll
  rw [Window.debit, ← hroll] at hdebit
  exact hdebit

/-! ### Runs -/

/-- What an event debits from the escrow of the deal for a stripe: the height and the amount. -/
def Event.elasticity (env : Env β) (d : Nat) (s : KeeperState β) : Event → List (Nat × Int)
  | .deliver ctx (.signalSaturation msg) =>
      if msg.dealId.toNat = d then
        match s.deals.get d, (signalSaturation env ctx msg).exec s with
        | some deal, (.ok _, s') =>
            (s'.deals.get d).toList.map fun deal' =>
              (ctx.blockHeight, deal.escrowBalance - deal'.escrowBalance)
        | _, _ => []
      else []
  | _ => []

/-- No signal of saturation that passes the checks resets the window of the deal early. -/
def KeepsWindow (d : Nat) (s : KeeperState β) (e : Event) : Prop :=
  ∀ ctx msg deal, e = .deliver ctx (.signalSaturation msg) → msg.dealId.toNat = d →
    s.deals.get d = some deal → SaturationAdmitted ctx msg deal s.getParams →
    ¬ResetsEarly s.getParams ctx.height64 deal

section Elasticity

variable {env : Env β} {e : Event} {s : KeeperState β} {d : Nat} {deal deal' : Deal}

/-- Only an accepted saturation debits the deal for elasticity. -/
theorem elasticity_of_not_saturates (hno : ¬e.saturates env s d) : e.elasticity env d s = [] := by
  cases e with
  | deliver ctx msg =>
      cases msg with
      | signalSaturation msg =>
          rw [Event.elasticity]
          by_cases hd : msg.dealId.toNat = d
          · rw [if_pos hd]
            cases hexec : (signalSaturation env ctx msg).exec s with
            | mk res s' =>
                cases res with
                | error fault => split <;> simp_all
                | ok r => exact absurd ⟨ctx, msg, r, s', rfl, hd, hexec⟩ hno
          · rw [if_neg hd]
      | _ => rfl
  | endBlock ctx => rfl
  | call ctx input => rfl

/-- A signal that succeeds debits the cost of a stripe. -/
theorem elasticity_of_saturated {ctx : Ctx} {msg : MsgSignalSaturation} {newProviders : List Str}
    (hget : s.deals.get d = some deal) (hd : msg.dealId.toNat = d)
    (hok : (signalSaturation env ctx msg).exec s =
      (.ok newProviders, apply env s (.deliver ctx (.signalSaturation msg))))
    (hget' : (apply env s (.deliver ctx (.signalSaturation msg))).deals.get d =
      some (saturatedDeal ctx s.getParams deal newProviders)) :
    (Event.deliver ctx (.signalSaturation msg)).elasticity env d s =
      [(ctx.blockHeight, elasticityCost s.getParams)] := by
  have hcost : deal.escrowBalance -
      (saturatedDeal ctx s.getParams deal newProviders).escrowBalance =
        elasticityCost s.getParams := by
    show deal.escrowBalance - (deal.escrowBalance - elasticityCost s.getParams) = _
    omega
  simp only [Event.elasticity, if_pos hd, hget, hok, hget', Option.toList_some, List.map_cons,
    List.map_nil, hcost]

end Elasticity

/-- What a period keeps: the counter of the deal covers its debits, and there are none before there
is a deal. -/
structure PeriodCovered (len : Nat) (debits : List (Nat × Int)) (d : Nat) (s : KeeperState β) :
    Prop where
  none : s.deals.get d = none → debits = []
  covers : ∀ deal, s.deals.get d = some deal → Covers len debits (windowOf deal)

/-- An event of the period keeps the counter right. The deal may be created within the period. -/
theorem PeriodCovered.step {env : Env β} {s : KeeperState β} {debits : List (Nat × Int)} {d : Nat}
    {e : Event} (h : PeriodCovered s.getParams.monthLenBlocks.toNat debits d s)
    (hs : WellFormed env s) (hlen : 0 < s.getParams.monthLenBlocks) (hwindow : KeepsWindow d s e)
    (hspent : ∀ deal, (apply env s e).deals.get d = some deal → 0 ≤ deal.spendWindowSpent) :
    PeriodCovered s.getParams.monthLenBlocks.toNat (debits ++ e.elasticity env d s) d
      (apply env s e) := by
  cases hget : s.deals.get d with
  | none =>
      -- The deal is new, if it is there at all.
      have hempty : debits ++ e.elasticity env d s = [] := by
        rw [h.none hget, elasticity_of_not_saturates (not_saturates_of_none hget)]
        rfl
      rw [hempty]
      exact ⟨fun _ => rfl, fun deal hget' => .nil (hspent deal hget')⟩
  | some deal =>
      obtain ⟨deal', hget', hstep⟩ := apply_saturation (e := e) hs hget
      refine ⟨fun hnone => ?_, fun deal₁ hget₁ => ?_⟩
      · rw [hget'] at hnone
        cases hnone
      · rw [hget'] at hget₁
        cases hget₁
        -- a signal for the deal is debited, and nothing else is
        cases hstep with
        | saturated he hd hok hadmitted hassign =>
            subst he
            rw [elasticity_of_saturated hget hd hok hget']
            exact saturatedDeal_covers hlen (hwindow _ _ deal rfl hd hget hadmitted)
              (h.covers deal hget)
        | other hno hstep hkept =>
            rw [elasticity_of_not_saturates hno, List.append_nil, windowOf,
              hkept.start, hkept.spent]
            exact h.covers deal hget

/-- The run lemma: the spend window covers what was debited since it opened. The period may begin
anywhere in the run. -/
theorem run_covers (env : Env β) (params : Params) (b : β) (past : List Event)
    {period : List Event} {d : Nat} {monthLen : UInt64} (hlen : 0 < monthLen)
    (hconst : Along (fun mid _ =>
      (run (apply env) (genesis params b) (past ++ mid)).getParams.monthLenBlocks =
        monthLen) period)
    (hwindow : Along (fun mid e =>
      KeepsWindow d (run (apply env) (genesis params b) (past ++ mid)) e) period) :
    PeriodCovered monthLen.toNat (trace (apply env) (fun s e => e.elasticity env d s)
      (run (apply env) (genesis params b) past) period) d
      (run (apply env) (genesis params b) (past ++ period)) := by
  -- by the period, from its end
  induction period using List.reverseRecOn with
  | nil =>
      refine ⟨fun _ => rfl, fun deal hget => .nil ?_⟩
      exact (run_windowSpent env params b _ hget).1
  | append_singleton mid e ih =>
      have hmid := ih hconst.left hwindow.left
      have hnext : run (apply env) (genesis params b) (past ++ (mid ++ [e])) =
          apply env (run (apply env) (genesis params b) (past ++ mid)) e := by
        rw [← List.append_assoc, run_snoc]
      have hmonth := hconst.last
      rw [trace_snoc, ← run_append, hnext]
      rw [← hmonth] at hmid hlen ⊢
      refine hmid.step (run_wellFormed env params b _) hlen hwindow.last fun deal hget => ?_
      rw [← hnext] at hget
      exact (run_windowSpent env params b _ hget).1

/-- The cap on elasticity. Take a period of a run in which the month has a constant positive length
and no signal resets the window early. Then in the state that is reached, the counter of the deal
is not negative and within the cap, and so is the total that signals have debited from the escrow
within a month of the opening of the window. -/
theorem elasticity_spend_cap (env : Env β) (params : Params) (b : β) (past period : List Event)
    (d : Nat) (deal : Deal) (monthLen : UInt64) (hlen : 0 < monthLen)
    (hconst : Along (fun mid _ =>
      (run (apply env) (genesis params b) (past ++ mid)).getParams.monthLenBlocks =
        monthLen) period)
    (hwindow : Along (fun mid e =>
      KeepsWindow d (run (apply env) (genesis params b) (past ++ mid)) e) period)
    (hget : (run (apply env) (genesis params b) (past ++ period)).deals.get d = some deal) :
    0 ≤ deal.spendWindowSpent ∧ deal.spendWindowSpent ≤ deal.maxMonthlySpend ∧
      debitedIn deal.spendWindowStartHeight.toNat
        (deal.spendWindowStartHeight.toNat + monthLen.toNat)
        (trace (apply env) (fun s e => e.elasticity env d s)
          (run (apply env) (genesis params b) past) period) ≤ deal.maxMonthlySpend := by
  have hspent := run_windowSpent env params b (past ++ period) hget
  refine ⟨hspent.1, hspent.2, le_trans ?_ hspent.2⟩
  exact (run_covers env params b past hlen hconst hwindow).covers deal hget |>.debitedIn_le

/-! ### On a small chain -/

/-- In a month of a thousand blocks, the owner of the deal pays for one stripe. The counter has the
debit of the window. -/
theorem elasticity_spend_cap_stripeRun :
    ∃ deal, (run (apply saturationEnv) (genesis defaultParams sampleBank)
        (stripeRun ++ [saturationEvent 2])).deals.get 0 = some deal ∧
      deal.spendWindowSpent = 120 ∧
      debitedIn deal.spendWindowStartHeight.toNat
        (deal.spendWindowStartHeight.toNat + (1000 : UInt64).toNat)
        (trace (apply saturationEnv) (fun s e => e.elasticity saturationEnv 0 s)
          (run (apply saturationEnv) (genesis defaultParams sampleBank) stripeRun)
          [saturationEvent 2]) ≤ deal.maxMonthlySpend := by
  have hspent : ((run (apply saturationEnv) (genesis defaultParams sampleBank)
      (stripeRun ++ [saturationEvent 2])).deals.get 0).map (·.spendWindowSpent) = some 120 := by
    decide +kernel
  -- the params do not change, and the window does not wrap
  have hconst : Along (fun mid _ => (run (apply saturationEnv) (genesis defaultParams sampleBank)
      (stripeRun ++ mid)).getParams.monthLenBlocks = 1000) [saturationEvent 2] := by
    decide +kernel
  have hwindow : Along (fun mid e => KeepsWindow 0 (run (apply saturationEnv)
      (genesis defaultParams sampleBank) (stripeRun ++ mid)) e) [saturationEvent 2] := by
    rw [← List.nil_append [saturationEvent 2]]
    refine along_snoc along_nil fun ctx msg deal he hd hget _ => ?_
    cases he
    rw [List.append_nil] at hget
    -- The window has opened at height 1, and its end does not wrap around.
    have hstart : ((run (apply saturationEnv) (genesis defaultParams sampleBank)
        stripeRun).deals.get 0).map (windowStart (ctxAt 2).height64) = some 1 := by decide +kernel
    have hmonth : (run (apply saturationEnv) (genesis defaultParams sampleBank)
        (stripeRun ++ [])).getParams.monthLenBlocks = 1000 := by decide +kernel
    rw [hget] at hstart
    rintro ⟨hover, -⟩
    rw [hmonth, Option.some.inj hstart] at hover
    exact absurd hover (by decide +kernel)
  obtain ⟨deal, hget, htwelve⟩ := Option.map_eq_some_iff.mp hspent
  exact ⟨deal, hget, htwelve, (elasticity_spend_cap saturationEnv defaultParams sampleBank stripeRun
    [saturationEvent 2] 0 deal 1000 (by decide) hconst hwindow hget).2.2⟩

/-- A month that the params allow, and whose end wraps around. -/
def longMonth : Params := { defaultParams with monthLenBlocks := 0xFFFFFFFFFFFFFFFF }

/-- Two signals in one block: each opens a new window, and together they debit more from the escrow
than the owner of the deal has allowed in a month. The month of these params is so long that its end
wraps. -/
theorem spend_cap_exceeded :
    longMonth.validate = .ok () ∧ 0 < longMonth.monthLenBlocks ∧
    Along (fun mid _ => (run (apply saturationEnv) (genesis longMonth sampleBank)
        mid).getParams.monthLenBlocks = longMonth.monthLenBlocks)
      (stripeRun ++ [saturationEvent 2, saturationEvent 2]) ∧
    ∃ deal, (run (apply saturationEnv) (genesis longMonth sampleBank)
        (stripeRun ++ [saturationEvent 2, saturationEvent 2])).deals.get 0 = some deal ∧
      deal.maxMonthlySpend < debitedIn deal.spendWindowStartHeight.toNat
        (deal.spendWindowStartHeight.toNat + longMonth.monthLenBlocks.toNat)
        (trace (apply saturationEnv) (fun s e => e.elasticity saturationEnv 0 s)
          (genesis longMonth sampleBank)
          (stripeRun ++ [saturationEvent 2, saturationEvent 2])) := by
  -- the params and the run are computed
  refine ⟨by decide +kernel, by decide +kernel, by decide +kernel, ?_⟩
  have hexceeded : ((run (apply saturationEnv) (genesis longMonth sampleBank)
      (stripeRun ++ [saturationEvent 2, saturationEvent 2])).deals.get 0).map (fun deal =>
        (deal.maxMonthlySpend, debitedIn deal.spendWindowStartHeight.toNat
          (deal.spendWindowStartHeight.toNat + longMonth.monthLenBlocks.toNat)
          (trace (apply saturationEnv) (fun s e => e.elasticity saturationEnv 0 s)
            (genesis longMonth sampleBank)
            (stripeRun ++ [saturationEvent 2, saturationEvent 2])))) = some (120, 240) := by
    decide +kernel
  obtain ⟨deal, hget, heq⟩ := Option.map_eq_some_iff.mp hexceeded
  obtain ⟨hmax, hdebited⟩ := Prod.mk.inj heq
  refine ⟨deal, hget, ?_⟩
  rw [hmax, hdebited]
  decide

end NilStore.Chain
