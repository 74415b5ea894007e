import NilStore.Lib.Statements
import NilStore.Proofs.Footprints

/-!
# `NilStore.Proofs.RewardLedger`: what a provider has earned and withdrawn

The rewards of a provider are an account. A liveness proof that succeeds posts its reward and the
payment for its bytes, a batch of the precompile posts the payment, and a withdrawal takes out what
it answers. Nothing else posts, failed messages and failed calls included, so `reward_ledger` can
say that in every state the rewards are the sum of the postings, and are not negative.

A withdrawal takes the whole account. Its coins are minted into the module account and sent on, so
of all balances only that of the provider's address is another one afterwards.
-/

set_option autoImplicit false

namespace NilStore.Chain

open NilStore.Lib

variable {β : Type}

/-! ### The postings of an event -/

/-- What an event posts to the accounts of rewards. -/
def Event.rewardPostings (env : Env β) (s : KeeperState β) : Event → List (Posting Str Int)
  | .deliver ctx (.proveLiveness msg) =>
      match s.deals.get msg.dealId.toNat, (proveLiveness env ctx msg).exec s with
      | some deal, (.ok r, _) =>
          if r.success then
            [⟨msg.creator, proofReward ctx.height64 s.getParams.halvingInterval (dealAge ctx deal) +
              msg.proofType.payment⟩]
          else []
      | _, _ => []
  | .deliver ctx (.withdrawRewards msg) =>
      match (withdrawRewards env ctx msg).exec s with
      | (.ok rewards, _) => [⟨msg.creator, -rewards⟩]
      | _ => []
  | .call ctx input =>
      match input.call, (Precompile.run env ctx input).exec s with
      | .ok (.proveRetrievalBatch _ provider _ _ chunks), (.ok _, _) =>
          [⟨provider, bandwidthPayment (Precompile.batchBytes 0 chunks)⟩]
      | _, _ => []
  | _ => []

section Steps

variable {env : Env β} {ctx : Ctx} {s s' : KeeperState β}

/-- A step that leaves the rewards alone leaves every provider's rewards alone. -/
theorem rewardsOf_of_eq (h : s'.providerRewards = s.providerRewards) :
    s'.rewardsOf = s.rewardsOf := by
  funext p
  rw [KeeperState.rewardsOf, KeeperState.rewardsOf, h]

/-- Writing one account changes no other. -/
theorem rewardsOf_set_ne {p q : Str} {amount : Int}
    (h : s'.providerRewards = s.providerRewards.set p amount) (hne : q ≠ p) :
    s'.rewardsOf q = s.rewardsOf q := by
  rw [KeeperState.rewardsOf, KeeperState.rewardsOf, h, KVStore.get_set_ne _ hne]

/-- Accumulating a reward that is not negative posts it. -/
theorem accumulateReward_posted {provider : Str} {reward : Int} (hreward : 0 ≤ reward)
    (h : s'.providerRewards = (accumulateReward provider reward s).providerRewards) :
    Posted s.rewardsOf s'.rewardsOf [⟨provider, reward⟩] := by
  rw [rewardsOf_of_eq h]
  refine .one (rewardsOf_accumulateReward hreward) fun q hq => ?_
  unfold accumulateReward
  split
  · exact rewardsOf_set_ne rfl hq
  · rfl

/-- A liveness proof that is answered without success leaves all rewards alone. -/
theorem proveLiveness_rewards_kept {msg : MsgProveLiveness} {r : MsgProveLivenessResponse}
    (h : (proveLiveness env ctx msg).exec s = (.ok r, s')) (hr : r.success = false) :
    s'.rewardsOf = s.rewardsOf := by
  obtain ⟨deal, stripe, -, -, -, -, ⟨-, hrejected⟩ | ⟨htrue, -⟩⟩ := proveLiveness_ok h
  · exact rewardsOf_of_eq (by rw [hrejected.frame])
  · rw [hr] at htrue
    cases htrue

/-- A withdrawal empties the account of its sender. -/
theorem withdrawRewards_posted {msg : MsgWithdrawRewards} {rewards : Int}
    (h : (withdrawRewards env ctx msg).exec s = (.ok rewards, s')) :
    rewards = s.rewardsOf msg.creator ∧ 0 < rewards ∧ s'.rewardsOf msg.creator = 0 ∧
      ∀ q, q ≠ msg.creator → s'.rewardsOf q = s.rewardsOf q := by
  obtain ⟨addr, b₁, b₂, -, hget, hpos, -, -, rfl⟩ := withdrawRewards_ok h
  refine ⟨?_, hpos, ?_, fun q hq => rewardsOf_set_ne rfl hq⟩
  · rw [KeeperState.rewardsOf, hget]
    rfl
  · rw [KeeperState.rewardsOf, KVStore.get_set_self]
    rfl

/-- Of all balances, a withdrawal changes that of its sender's address. -/
theorem withdrawRewards_balance {msg : MsgWithdrawRewards} {rewards : Int}
    (h : (withdrawRewards env ctx msg).exec s = (.ok rewards, s')) :
    ∃ addr, env.codec.accAddressFromBech32 msg.creator = some addr ∧
      ∀ a d, env.bank.balance s'.bank a d =
        env.bank.balance s.bank a d + debit addr (bondCoin rewards) a d := by
  obtain ⟨addr, b₁, b₂, haddr, -, -, hmint, hsend, rfl⟩ := withdrawRewards_ok h
  refine ⟨addr, haddr, fun a d => ?_⟩
  rw [env.bank.balance_toAccount hsend, env.bank.balance_mint hmint]
  omega

/-- A liveness proof posts what it does to the accounts. A proof that is not accepted as a success
posts nothing. -/
theorem proveLiveness_posted (env : Env β) (ctx : Ctx) (msg : MsgProveLiveness)
    (s : KeeperState β) :
    Posted s.rewardsOf (apply env s (.deliver ctx (.proveLiveness msg))).rewardsOf
      (Event.rewardPostings env s (.deliver ctx (.proveLiveness msg))) := by
  rw [Event.rewardPostings]
  cases hexec : (proveLiveness env ctx msg).exec s with
  -- by the result of the handler
  | mk res s' =>
      cases res with
      | error fault =>
          have happly : apply env s (.deliver ctx (.proveLiveness msg)) = s :=
            Tx.commitOrRollback_of_error (Tx.exec_bind_error.mpr (Or.inl hexec))
          rw [happly]
          cases s.deals.get msg.dealId.toNat <;> exact .of_eq rfl
      | ok r =>
          have happly : apply env s (.deliver ctx (.proveLiveness msg)) = s' :=
            Tx.commitOrRollback_of_ok (a := ()) (discard_ok.mpr ⟨r, hexec⟩)
          obtain ⟨deal, -, hget, -⟩ := proveLiveness_ok hexec
          rw [happly, hget]
          -- a stored failure pays nothing
          by_cases hr : r.success = true
          · simp only [hr, if_true]
            obtain ⟨deal', hget', hrewards, -, -⟩ := proveLiveness_records hexec hr
            rw [hget] at hget'
            cases hget'
            refine accumulateReward_posted (add_nonneg ?_ (payment_nonneg _)) hrewards
            exact (proofReward_bounds _ _ _).1
          · simp only [hr, if_false, Bool.false_eq_true]
            exact .of_eq (proveLiveness_rewards_kept hexec (Bool.eq_false_iff.mpr hr))

/-- What an event posts is what it does to the accounts. Three kinds of events post something, and
the rest leave the rewards as they are. -/
theorem rewardPostings_posted (env : Env β) (s : KeeperState β) (e : Event) :
    Posted s.rewardsOf (apply env s e).rewardsOf (e.rewardPostings env s) := by
  cases e with
  | endBlock ctx => exact .of_eq (rewardsOf_of_eq (endBlock_footprint env ctx s).rewards)
  | call ctx input =>
      cases hrun : (Precompile.run env ctx input).exec s with
      | mk res s' =>
          have happly : apply env s (.call ctx input) = s' := by rw [apply, hrun]
          rw [happly, Event.rewardPostings, hrun]
          -- a call is quiet, or a batch that has paid
          rcases Precompile.call_footprint hrun with hkept | ⟨dealId, provider, filePath, nonce,
            chunks, out, hcall, rfl, -, hset⟩
          · split
            · rename_i hcall hout
              -- A batch that succeeds is not within the frame of the other calls.
              obtain ⟨rfl, rfl⟩ := Prod.mk.inj hout
              rcases Precompile.run_cases hrun with ⟨-, ⟨e, he⟩, -⟩ | ⟨-, call, hcall', hserve⟩
              · cases he
              · rw [hcall] at hcall'
                cases hcall'
                have hset := Precompile.runProveRetrievalBatch_rewards hserve
                refine .one ?_ fun q hq => rewardsOf_set_ne hset hq
                rw [KeeperState.rewardsOf, hset, KVStore.get_set_self]
                rfl
            · exact .of_eq (rewardsOf_of_eq hkept.rewards)
          · rw [hcall]
            refine .one ?_ fun q hq => rewardsOf_set_ne hset hq
            rw [KeeperState.rewardsOf, hset, KVStore.get_set_self]
            rfl
  | deliver ctx msg =>
      cases msg with
      | proveLiveness msg => exact proveLiveness_posted env ctx msg s
      -- a withdrawal empties the account of its sender
      | withdrawRewards msg =>
          rw [Event.rewardPostings]
          cases hexec : (withdrawRewards env ctx msg).exec s with
          | mk res s' =>
              cases res with
              | ok rewards =>
                  have happly : apply env s (.deliver ctx (.withdrawRewards msg)) = s' :=
                    Tx.commitOrRollback_of_ok (a := ()) (discard_ok.mpr ⟨rewards, hexec⟩)
                  obtain ⟨hall, -, hzero, hoff⟩ := withdrawRewards_posted hexec
                  rw [happly]
                  refine .one ?_ hoff
                  rw [hzero, hall, add_neg_cancel]
              | error fault =>
                  have happly : apply env s (.deliver ctx (.withdrawRewards msg)) = s :=
                    Tx.commitOrRollback_of_error (Tx.exec_bind_error.mpr (Or.inl hexec))
                  exact .of_eq (by rw [happly])
      | _ =>
          rcases deliver_cases env ctx _ s with hsame | hok
          · exact .of_eq (by rw [hsame])
          · exact .of_eq (rewardsOf_of_eq ((handle_footprint hok).rewards id))

end Steps

/-! ### Whole runs -/

/-- The postings of a run from genesis. -/
def rewardStatement (env : Env β) (params : Params) (b : β) (es : List Event) :
    List (Posting Str Int) :=
  trace (apply env) (fun s e => e.rewardPostings env s) (genesis params b) es

/-- After every run, the rewards of a provider are what was posted to its account. -/
theorem run_rewardsOf (env : Env β) (params : Params) (b : β) (es : List Event) (provider : Str) :
    (run (apply env) (genesis params b) es).rewardsOf provider =
      balanceOf (rewardStatement env params b es) provider := by
  have hposted : Posted (genesis params b).rewardsOf
      (run (apply env) (genesis params b) es).rewardsOf (rewardStatement env params b es) :=
    run_statement fun past e rest _ => rewardPostings_posted env _ e
  rw [hposted provider, rewardStatement]
  exact zero_add _

/-- A posting adds something, or empties the account. That is why no account goes below zero. -/
theorem rewardPostings_cases (env : Env β) (s : KeeperState β) (e : Event) :
    e.rewardPostings env s = [] ∨ ∃ p, e.rewardPostings env s = [p] ∧
      (0 ≤ p.amount ∨ p.amount = -s.rewardsOf p.account) := by
  -- only a batch, a proof and a withdrawal post something
  cases e with
  | endBlock ctx => exact Or.inl rfl
  | call ctx input =>
      rw [Event.rewardPostings]
      split
      · exact Or.inr ⟨_, rfl, Or.inl (Int.natCast_nonneg _)⟩
      · exact Or.inl rfl
  | deliver ctx msg =>
      cases msg with
      | proveLiveness msg =>
          rw [Event.rewardPostings]
          split
          · rename_i deal r s' hget hexec
            split
            · have hreward := (proofReward_bounds ctx.height64 s.getParams.halvingInterval
                (dealAge ctx deal)).1
              exact Or.inr ⟨_, rfl, Or.inl (add_nonneg hreward (payment_nonneg msg.proofType))⟩
            · exact Or.inl rfl
          · exact Or.inl rfl
      | withdrawRewards msg =>
          rw [Event.rewardPostings]
          split
          · rename_i rewards s' hexec
            obtain ⟨hall, -⟩ := withdrawRewards_posted hexec
            exact Or.inr ⟨_, rfl, Or.inr (by rw [hall])⟩
          · exact Or.inl rfl
      | _ => exact Or.inl rfl

/-- An event leaves no account negative. -/
theorem apply_rewards_nonneg (env : Env β) (s : KeeperState β) (e : Event) {provider : Str}
    (h : 0 ≤ s.rewardsOf provider) : 0 ≤ (apply env s e).rewardsOf provider := by
  rw [rewardPostings_posted env s e provider]
  rcases rewardPostings_cases env s e with hnil | ⟨p, hone, hp⟩
  · rw [hnil, balanceOf_nil, add_zero]
    exact h
  · rw [hone, balanceOf_singleton]
    split
    · rename_i haccount
      rcases hp with hadd | hempty
      · exact add_nonneg h hadd
      · rw [hempty, haccount, add_neg_cancel]
    · rw [add_zero]
      exact h

/-- The rewards over a whole run. In every state the rewards of a provider are the sum of what its
proofs have earned and of what it has withdrawn, and are not negative. A withdrawal takes all that
was there, leaves nothing, and pays it to the address that the provider's text writes; no other
balance changes. -/
theorem reward_ledger (env : Env β) (params : Params) (b : β) (es : List Event) :
    (∀ provider,
      (run (apply env) (genesis params b) es).rewardsOf provider =
        balanceOf (rewardStatement env params b es) provider ∧
      0 ≤ balanceOf (rewardStatement env params b es) provider) ∧
    ∀ ctx msg rewards s',
      (withdrawRewards env ctx msg).exec (run (apply env) (genesis params b) es) =
        (.ok rewards, s') →
      rewards = balanceOf (rewardStatement env params b es) msg.creator ∧ 0 < rewards ∧
        balanceOf (rewardStatement env params b
          (es ++ [.deliver ctx (.withdrawRewards msg)])) msg.creator = 0 ∧
        ∃ addr, env.codec.accAddressFromBech32 msg.creator = some addr ∧
          ∀ a d, env.bank.balance s'.bank a d =
            env.bank.balance (run (apply env) (genesis params b) es).bank a d +
              debit addr (bondCoin rewards) a d := by
  refine ⟨fun provider => ⟨run_rewardsOf env params b es provider, ?_⟩,
    fun ctx msg rewards s' hexec => ?_⟩
  -- no account is overdrawn: by the run, from zero
  · have hstart : 0 ≤ (genesis params b).rewardsOf provider := le_refl 0
    rw [← run_rewardsOf]
    exact run_invariant (fun _ => True) (fun s : KeeperState β => 0 ≤ s.rewardsOf provider) hstart
      (fun s e hs _ => apply_rewards_nonneg env s e hs) fun _ _ => trivial
  -- a withdrawal takes the sum of the statement
  · obtain ⟨hall, hpos, hzero, -⟩ := withdrawRewards_posted hexec
    refine ⟨?_, hpos, ?_, withdrawRewards_balance hexec⟩
    · rw [hall, run_rewardsOf]
    · have happly : apply env (run (apply env) (genesis params b) es)
          (.deliver ctx (.withdrawRewards msg)) = s' :=
        Tx.commitOrRollback_of_ok (a := ()) (discard_ok.mpr ⟨rewards, hexec⟩)
      rw [← run_rewardsOf, run_snoc, happly, hzero]

/-- Two proofs in a block and a withdrawal: two rewards in, both out. -/
example :
    (rewardStatement (sampleProofEnv noKeccak) defaultParams sampleBank
      (sampleContentRun "General" ++
      [.deliver (ctxAt 2) (.proveLiveness (systemProofMsg (sampleProof 0))),
        .deliver (ctxAt 2) (.proveLiveness (systemProofMsg (sampleProof 0))),
        .deliver (ctxAt 3) (.withdrawRewards ⟨providerText⟩)])).map (·.amount) =
      [1000000, 1000000, -2000000] := by
  decide +kernel

end NilStore.Chain
