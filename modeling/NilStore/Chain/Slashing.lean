import NilStore.Chain.Keeper

/-!
# `NilStore.Chain.Slashing`: `CheckMissedProofs`

`keeper/slashing.go`, the module's `EndBlock`. It walks over the deals and, for each active
one, over its providers. A provider whose last proof is too far back is charged, and its proof
status becomes the height of the block, whether the transfer went through or not. The walk also
returns the charges it made, in order: they are what the source writes to its log.

`checkMissedProofs_spec` says what a walk does: a provider is charged exactly when it is due
at the start of the walk, and at most once for each deal, however often the deal lists it; and
each charge is a transfer that the walk attempts, in their order (`checkMissedProofs_slashes`).
-/

set_option autoImplicit false

namespace NilStore.Chain

open NilStore.Lib

variable {β : Type}

/-- One charge: the deal and the provider. The height is that of the block. -/
structure Charge where
  dealId : Nat
  provider : Str
deriving DecidableEq

/-- A charge is its deal and its provider. -/
theorem Charge.eq_mk {c : Charge} {dealId : Nat} {provider : Str} (hd : c.dealId = dealId)
    (hp : c.provider = provider) : c = ⟨dealId, provider⟩ := by
  cases c
  cases hd
  cases hp
  rfl

/-- `slashAmt`. It is the same for every deal and does not depend on its size. -/
def slashAmount : Coin := bondCoin 10000000

/-- The attempt to slash: a transfer into the module account, and the burn of what it brought. An
account that cannot pay is left alone, and no error is reported. -/
def attemptSlash (bank : BankKeeper β) (ctx : Ctx) (addr : Bytes) (b : β) : β :=
  match bank.sendCoinsFromAccountToModule ctx b addr moduleName slashAmount with
  | none => b
  | some b₁ => (bank.burnCoins ctx b₁ moduleName slashAmount).getD b₁

/-- The transfer of a charge: the attempt to slash the account of its provider. A text that is no
address has none. -/
def slashCharge (env : Env β) (ctx : Ctx) (b : β) (charge : Charge) : β :=
  match env.codec.accAddressFromBech32 charge.provider with
  | none => b
  | some addr => attemptSlash env.bank ctx addr b

/-- The height from which the window of a provider counts: its proof status, or the start of
the deal. -/
def lastProof (deal : Deal) (dealId : Nat) (provider : Str)
    (status : KVStore (Nat ×ₗ Str) UInt64) : UInt64 :=
  (status.get (join dealId provider)).getD deal.startBlock

/-- The body of the loop over the providers of a deal. The status is set whether or not the provider
could pay, so its window starts again. -/
def checkProvider (env : Env β) (ctx : Ctx) (dealId : Nat) (deal : Deal)
    (acc : KeeperState β × List Charge) (provider : Str) : KeeperState β × List Charge :=
  if ctx.height64 > lastProof deal dealId provider acc.1.dealProviderStatus + proofWindow then
    match env.codec.accAddressFromBech32 provider with
    | none => acc
    | some addr =>
        ({ acc.1 with
            bank := attemptSlash env.bank ctx addr acc.1.bank
            dealProviderStatus :=
              acc.1.dealProviderStatus.set (join dealId provider) ctx.height64 },
          acc.2 ++ [⟨dealId, provider⟩])
  else acc

/-- The deal is active at the height. Both ends count. -/
def Deal.activeAt (deal : Deal) (height : UInt64) : Prop :=
  deal.startBlock ≤ height ∧ height ≤ deal.endBlock

instance (deal : Deal) (height : UInt64) : Decidable (deal.activeAt height) :=
  inferInstanceAs (Decidable (_ ∧ _))

/-- The callback of the walk. A deal that is not active is passed over. -/
def checkDeal (env : Env β) (ctx : Ctx) (acc : KeeperState β × List Charge)
    (entry : Nat × Deal) : KeeperState β × List Charge :=
  if entry.2.activeAt ctx.height64 then
    entry.2.providers.foldl (checkProvider env ctx entry.1 entry.2) acc
  else acc

/-- `CheckMissedProofs`. It walks the deals in the order of their ids, and also lists the charges it
makes. -/
def checkMissedProofs (env : Env β) (ctx : Ctx) (s : KeeperState β) :
    KeeperState β × List Charge :=
  s.deals.entries.foldl (checkDeal env ctx) (s, [])

/-! ### What a walk does -/

/-- The provider is due for a charge: its window is over, and its address can be read. The end of
the window is computed in `uint64`. -/
def Due (env : Env β) (ctx : Ctx) (dealId : Nat) (deal : Deal)
    (status : KVStore (Nat ×ₗ Str) UInt64) (provider : Str) : Prop :=
  lastProof deal dealId provider status + proofWindow < ctx.height64 ∧
    (env.codec.accAddressFromBech32 provider).isSome

instance (env : Env β) (ctx : Ctx) (dealId : Nat) (deal : Deal)
    (status : KVStore (Nat ×ₗ Str) UInt64) (provider : Str) :
    Decidable (Due env ctx dealId deal status provider) :=
  inferInstanceAs (Decidable (_ ∧ _))

/-- A provider that was charged at this height is not due: its window starts anew. -/
theorem not_due_of_charged {env : Env β} {ctx : Ctx} {dealId : Nat} {deal : Deal}
    {status : KVStore (Nat ×ₗ Str) UInt64} {provider : Str}
    (h : status.get (join dealId provider) = some ctx.height64) :
    ¬Due env ctx dealId deal status provider := by
  rintro ⟨hlt, -⟩
  have hheight := ctx.height_lt
  have hnat := ctx.toNat_height64
  rw [lastProof, h, Option.getD_some, UInt64.lt_iff_toNat_lt, UInt64.toNat_add] at hlt
  have hwindow : proofWindow.toNat = 10 := rfl
  omega

/-- One provider: charged when due, else skipped. -/
theorem checkProvider_eq (env : Env β) (ctx : Ctx) (dealId : Nat) (deal : Deal)
    (s : KeeperState β) (cs : List Charge) (provider : Str) :
    ∃ b, checkProvider env ctx dealId deal (s, cs) provider =
      if Due env ctx dealId deal s.dealProviderStatus provider then
        ({ s with
            bank := b
            dealProviderStatus := s.dealProviderStatus.set (join dealId provider) ctx.height64 },
          cs ++ [⟨dealId, provider⟩])
      else (s, cs) := by
  rw [checkProvider]
  cases haddr : env.codec.accAddressFromBech32 provider with
  | none =>
      refine ⟨s.bank, ?_⟩
      rw [if_neg (c := Due env ctx dealId deal s.dealProviderStatus provider)
        fun hdue => by simpa [haddr] using hdue.2]
      split <;> rfl
  | some addr =>
      refine ⟨attemptSlash env.bank ctx addr s.bank, ?_⟩
      simp only [Due, haddr, Option.isSome_some, and_true, GT.gt]

/-- What a part of the walk over some providers of a deal has done: the state has changed in
the bank and in the proof status only, a provider is charged exactly when it was due at the
start, and at most once. -/
structure Walked (env : Env β) (ctx : Ctx) (covers : Charge → Prop)
    (due : KVStore (Nat ×ₗ Str) UInt64 → Charge → Prop)
    (start end' : KeeperState β × List Charge) : Prop where
  frame : end'.1 = { start.1 with
    bank := end'.1.bank
    dealProviderStatus := end'.1.dealProviderStatus }
  charges : ∃ new, end'.2 = start.2 ++ new ∧ new.Nodup ∧
    (∀ c, c ∈ new ↔ covers c ∧ due start.1.dealProviderStatus c) ∧
    ∀ c : Charge, end'.1.dealProviderStatus.get (join c.dealId c.provider) =
      if c ∈ new then some ctx.height64
      else start.1.dealProviderStatus.get (join c.dealId c.provider)

/-- The charges of one deal that its list of providers covers. A provider that is listed twice is
charged once. -/
def DealDue (env : Env β) (ctx : Ctx) (dealId : Nat) (deal : Deal)
    (status : KVStore (Nat ×ₗ Str) UInt64) (c : Charge) : Prop :=
  c.dealId = dealId ∧ Due env ctx dealId deal status c.provider

/-- Whether a provider is due depends on its own proof status only. -/
theorem due_congr {env : Env β} {ctx : Ctx} {dealId : Nat} {deal : Deal}
    {status status' : KVStore (Nat ×ₗ Str) UInt64} {provider : Str}
    (h : status'.get (join dealId provider) = status.get (join dealId provider)) :
    Due env ctx dealId deal status' provider ↔ Due env ctx dealId deal status provider := by
  rw [Due, Due, lastProof, lastProof, h]

/-- The walk over the providers of one deal. The induction goes over the list; a provider
that occurs again has its status at this height, so it is not due again. -/
theorem walked_providers (env : Env β) (ctx : Ctx) (dealId : Nat) (deal : Deal)
    (providers : List Str) (acc : KeeperState β × List Charge) :
    Walked env ctx (fun c => c.provider ∈ providers) (DealDue env ctx dealId deal) acc
      (providers.foldl (checkProvider env ctx dealId deal) acc) := by
  induction providers generalizing acc with
  | nil =>
      refine ⟨rfl, [], by simp, List.nodup_nil, by simp, ?_⟩
      intro c
      simp
  | cons provider rest ih =>
      obtain ⟨s, cs⟩ := acc
      obtain ⟨b, hone⟩ := checkProvider_eq env ctx dealId deal s cs provider
      rw [List.foldl_cons, hone]
      -- a provider that is due is charged, and its status is set to this height
      by_cases hdue : Due env ctx dealId deal s.dealProviderStatus provider
      · rw [if_pos hdue]
        obtain ⟨hframe, new, hnew, hnodup, hmem, hstatus⟩ := ih
          ({ s with
              bank := b
              dealProviderStatus := s.dealProviderStatus.set (join dealId provider) ctx.height64 },
            cs ++ [⟨dealId, provider⟩])
        -- After the charge the provider is not due, so `new` does not list it again.
        have hnot : (⟨dealId, provider⟩ : Charge) ∉ new := fun hin =>
          not_due_of_charged (KVStore.get_set_self _ _ _) ((hmem _).mp hin).2.2
        have hother : ∀ c : Charge, c ≠ ⟨dealId, provider⟩ →
            (DealDue env ctx dealId deal
                (s.dealProviderStatus.set (join dealId provider) ctx.height64) c ↔
              DealDue env ctx dealId deal s.dealProviderStatus c) := by
          rintro ⟨d, p⟩ hne
          refine and_congr_right fun hd => ?_
          have hd : d = dealId := hd
          subst hd
          refine due_congr (KVStore.get_set_ne _ (fun heq => hne ?_) _)
          exact congrArg (Charge.mk d) (join_inj.mp heq).2
        refine ⟨by rw [hframe], ⟨dealId, provider⟩ :: new, ?_, List.nodup_cons.mpr ⟨hnot, hnodup⟩,
          ?_, ?_⟩
        · rw [hnew, List.append_assoc]
          rfl
        · intro c
          -- for the provider itself the charge is the new one, for another nothing has changed
          by_cases hc : c = ⟨dealId, provider⟩
          · subst hc
            simp [hdue, DealDue]
          · rw [List.mem_cons, hmem, hother c hc]
            have hp : c.provider = provider → ¬DealDue env ctx dealId deal s.dealProviderStatus c :=
              fun hp hd => hc (Charge.eq_mk hd.1 hp)
            simp only [hc, false_or, List.mem_cons]
            tauto
        · intro c
          rw [hstatus c]
          -- the status that the walk leaves is this height for those that were charged, here or
          -- later
          by_cases hc : c = ⟨dealId, provider⟩
          · subst hc
            simp [hnot]
          · have hkey : join c.dealId c.provider ≠ join dealId provider := fun heq =>
              hc (Charge.eq_mk (join_inj.mp heq).1 (join_inj.mp heq).2)
            simp only [List.mem_cons, hc, false_or, KVStore.get_set_ne _ hkey]
      · rw [if_neg hdue]
        obtain ⟨hframe, new, hnew, hnodup, hmem, hstatus⟩ := ih (s, cs)
        refine ⟨hframe, new, hnew, hnodup, ?_, hstatus⟩
        intro c
        rw [hmem]
        simp only [List.mem_cons]
        have hp : c.provider = provider → ¬DealDue env ctx dealId deal s.dealProviderStatus c := by
          rintro rfl hd
          exact hdue hd.2
        tauto

/-- The provider of a charge is due in a deal of the list: the deal is active and lists it. The
status is the one before the walk. -/
def DueIn (env : Env β) (ctx : Ctx) (entries : List (Nat × Deal))
    (status : KVStore (Nat ×ₗ Str) UInt64) (c : Charge) : Prop :=
  ∃ deal, (c.dealId, deal) ∈ entries ∧ deal.activeAt ctx.height64 ∧
    c.provider ∈ deal.providers ∧ Due env ctx c.dealId deal status c.provider

/-- The walk over deals with distinct ids. The induction goes over the entries: a deal that is not
active is passed over, and the charges of an active one are put before those of the rest, which name
other deals. -/
theorem walked_deals (env : Env β) (ctx : Ctx) (entries : List (Nat × Deal))
    (hids : entries.Pairwise (fun a b => a.1 < b.1)) (acc : KeeperState β × List Charge) :
    Walked env ctx (fun _ => True) (DueIn env ctx entries) acc
      (entries.foldl (checkDeal env ctx) acc) := by
  induction entries generalizing acc with
  | nil =>
      refine ⟨rfl, [], by simp, List.nodup_nil, by simp [DueIn], ?_⟩
      intro c
      simp
  | cons entry rest ih =>
      obtain ⟨dealId, deal⟩ := entry
      obtain ⟨hfresh, hids⟩ := List.pairwise_cons.mp hids
      rw [List.foldl_cons, checkDeal]
      -- The later deals have other ids.
      have hrest : ∀ d deal', (d, deal') ∈ rest → d ≠ dealId := fun d deal' hd =>
        (hfresh _ hd).ne'
      by_cases hactive : deal.activeAt ctx.height64
      · rw [if_pos hactive]
        -- the charges of this deal, and those of the later ones
        obtain ⟨hframe₁, new₁, hnew₁, hnodup₁, hmem₁, hstatus₁⟩ :=
          walked_providers env ctx dealId deal deal.providers acc
        obtain ⟨hframe₂, new₂, hnew₂, hnodup₂, hmem₂, hstatus₂⟩ := ih hids
          (deal.providers.foldl (checkProvider env ctx dealId deal) acc)
        have hids₁ : ∀ c ∈ new₁, c.dealId = dealId := fun c hc => ((hmem₁ c).mp hc).2.1
        have hids₂ : ∀ c ∈ new₂, c.dealId ≠ dealId := fun c hc => by
          obtain ⟨deal', hin, -⟩ := ((hmem₂ c).mp hc).2
          exact hrest _ _ hin
        -- The first deal leaves the status of the others alone.
        have hdue : ∀ c : Charge, (DueIn env ctx rest
              (deal.providers.foldl (checkProvider env ctx dealId deal) acc).1.dealProviderStatus
                c ↔
            DueIn env ctx rest acc.1.dealProviderStatus c) := by
          intro c
          refine exists_congr fun deal' => and_congr_right fun hin => ?_
          refine and_congr_right fun _ => and_congr_right fun _ => due_congr ?_
          rw [hstatus₁ c, if_neg fun hc => hrest _ _ hin (hids₁ c hc)]
        refine ⟨by rw [hframe₂, hframe₁], new₁ ++ new₂, ?_, ?_, ?_, ?_⟩
        · rw [hnew₂, hnew₁, List.append_assoc]
        · exact List.nodup_append.mpr ⟨hnodup₁, hnodup₂, fun c hc c' hc' heq =>
            hids₂ c' hc' (heq ▸ hids₁ c hc)⟩
        · intro c
          rw [List.mem_append, hmem₁, hmem₂, hdue]
          constructor
          -- a charge of the whole is one of the first deal, or one of the rest
          · rintro (⟨hp, rfl, hd⟩ | ⟨-, deal', hin, hrest'⟩)
            · exact ⟨trivial, deal, List.mem_cons_self, hactive, hp, hd⟩
            · exact ⟨trivial, deal', List.mem_cons_of_mem _ hin, hrest'⟩
          · rintro ⟨-, deal', hin, hact, hp, hd⟩
            rcases List.mem_cons.mp hin with heq | hin
            · obtain ⟨rfl, rfl⟩ := Prod.mk.inj heq
              exact Or.inl ⟨hp, rfl, hd⟩
            · exact Or.inr ⟨trivial, deal', hin, hact, hp, hd⟩
        · intro c
          rw [hstatus₂ c, hstatus₁ c]
          by_cases h₁ : c ∈ new₁ <;> by_cases h₂ : c ∈ new₂ <;> simp [h₁, h₂]
      · rw [if_neg hactive]
        obtain ⟨hframe, new, hnew, hnodup, hmem, hstatus⟩ := ih hids acc
        refine ⟨hframe, new, hnew, hnodup, ?_, hstatus⟩
        intro c
        rw [hmem]
        refine and_congr_right fun _ => exists_congr fun deal' => ?_
        refine and_congr_left fun hrest' => ⟨List.mem_cons_of_mem _, fun hin => ?_⟩
        rcases List.mem_cons.mp hin with heq | hin
        · exact absurd hrest'.1 (by rw [(Prod.mk.inj heq).2]; exact hactive)
        · exact hin

/-- The bank is the one that the transfers of the charges leave. It ties each charge to its
transfer. -/
def Slashed (env : Env β) (ctx : Ctx) (b : β) (acc : KeeperState β × List Charge) : Prop :=
  acc.1.bank = acc.2.foldl (slashCharge env ctx) b

section Slashed

variable {env : Env β} {ctx : Ctx} {b : β} {acc : KeeperState β × List Charge}

/-- The step lemma of the slashing loop: looking at one provider of a deal keeps the bank the fold
of the charges so far. -/
theorem Slashed.checkProvider (h : Slashed env ctx b acc) (dealId : Nat) (deal : Deal)
    (provider : Str) :
    Slashed env ctx b (checkProvider env ctx dealId deal acc provider) := by
  rw [Chain.checkProvider]
  split
  · cases haddr : env.codec.accAddressFromBech32 provider with
    | none => exact h
    | some addr =>
        -- the charge comes last, and its transfer after those of the charges before it
        have hlast : slashCharge env ctx acc.1.bank ⟨dealId, provider⟩ =
            attemptSlash env.bank ctx addr acc.1.bank := by
          simp only [slashCharge, haddr]
        rw [Slashed, List.foldl_append, ← h]
        exact hlast.symm
  · exact h

/-- Looking at every provider of one deal keeps the bank the fold of the charges so far. -/
theorem Slashed.checkDeal (h : Slashed env ctx b acc) (entry : Nat × Deal) :
    Slashed env ctx b (checkDeal env ctx acc entry) := by
  rw [Chain.checkDeal]
  split
  · exact List.foldlRecOn _ _ h fun acc hacc provider _ =>
      hacc.checkProvider entry.1 entry.2 provider
  · exact h

end Slashed

/-- A walk moves money by the transfers of the charges that it returns, and by nothing else. -/
theorem checkMissedProofs_slashes (env : Env β) (ctx : Ctx) (s : KeeperState β) :
    (checkMissedProofs env ctx s).1.bank =
      (checkMissedProofs env ctx s).2.foldl (slashCharge env ctx) s.bank := by
  have hstart : Slashed env ctx s.bank (s, []) := rfl
  exact List.foldlRecOn _ _ (motive := Slashed env ctx s.bank) hstart fun acc hacc entry _ =>
    hacc.checkDeal entry

/-- What `CheckMissedProofs` does, from the state in which it starts: only the bank and the
proof status change, a provider is charged exactly when it is due, once for each deal, the bank is
the one that the transfers of the charges leave, and the proof status of those charged becomes the
height. -/
structure MissedChecked (env : Env β) (ctx : Ctx) (s s' : KeeperState β) (charges : List Charge) :
    Prop where
  frame : s' = { s with bank := s'.bank, dealProviderStatus := s'.dealProviderStatus }
  nodup : charges.Nodup
  mem_charges : ∀ c : Charge, c ∈ charges ↔
    ∃ deal, s.deals.get c.dealId = some deal ∧ deal.activeAt ctx.height64 ∧
      c.provider ∈ deal.providers ∧ Due env ctx c.dealId deal s.dealProviderStatus c.provider
  bank : s'.bank = charges.foldl (slashCharge env ctx) s.bank
  status : ∀ dealId provider, s'.dealProviderStatus.get (join dealId provider) =
    if (⟨dealId, provider⟩ : Charge) ∈ charges then some ctx.height64
    else s.dealProviderStatus.get (join dealId provider)

/-- What the end of a block does about missed proofs: whom it charges, and what is left as it
was. -/
theorem checkMissedProofs_spec (env : Env β) (ctx : Ctx) (s : KeeperState β) :
    MissedChecked env ctx s (checkMissedProofs env ctx s).1 (checkMissedProofs env ctx s).2 := by
  obtain ⟨hframe, new, hnew, hnodup, hmem, hstatus⟩ :=
    walked_deals env ctx s.deals.entries s.deals.sorted (s, [])
  rw [List.nil_append] at hnew
  rw [checkMissedProofs]
  refine ⟨hframe, hnew ▸ hnodup, fun c => ?_, checkMissedProofs_slashes env ctx s,
    fun dealId provider => ?_⟩
  · rw [hnew, hmem]
    simp only [DueIn, KVStore.mem_entries, true_and]
  · rw [hnew]
    exact hstatus ⟨dealId, provider⟩

/-- A property of the bank that survives each attempt to slash a listed provider survives the
walk. -/
theorem checkMissedProofs_bank {env : Env β} {ctx : Ctx} {s : KeeperState β} {P : β → Prop}
    (hstep : ∀ dealId deal provider addr b, s.deals.get dealId = some deal →
      provider ∈ deal.providers → env.codec.accAddressFromBech32 provider = some addr → P b →
      P (attemptSlash env.bank ctx addr b))
    (h : P s.bank) : P (checkMissedProofs env ctx s).1.bank := by
  have hspec := checkMissedProofs_spec env ctx s
  rw [hspec.bank]
  refine List.foldlRecOn _ _ h fun b hb charge hcharge => ?_
  obtain ⟨deal, hget, -, hlisted, -⟩ := (hspec.mem_charges charge).mp hcharge
  rw [slashCharge]
  split
  · exact hb
  · rename_i addr haddr
    exact hstep charge.dealId deal charge.provider addr b hget hlisted haddr hb

end NilStore.Chain
