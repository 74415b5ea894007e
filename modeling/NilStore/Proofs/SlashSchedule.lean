import NilStore.Chain.Ledger
import NilStore.Proofs.PrecompileSteps

/-!
# `NilStore.Proofs.SlashSchedule`: when a provider is charged

The proof status of a provider for a deal is the height of its last successful proof or of its
last charge, whichever came later (`StatusIsLast`). `ProveLiveness` and the precompile's batch
of proofs set it to the height of their block, and so does `CheckMissedProofs` for each
provider that it charges; no other event touches it (`status_step`).

`slash_schedule` follows: the charges of one provider for one deal are more than `ProofWindow`
apart, none lies within `ProofWindow` of a proof before it, and none is left out.
-/

set_option autoImplicit false

namespace NilStore.Chain

open NilStore.Lib

variable {β : Type}

/-! ### Proofs and charges of one event -/

/-- The event is a successful proof of the provider for the deal. -/
def Proves (env : Env β) (s : KeeperState β) (d : Nat) (p : Str) : Event → Prop
  | .deliver ctx (.proveLiveness msg) =>
      msg.dealId.toNat = d ∧ msg.creator = p ∧
        ∃ r s', (proveLiveness env ctx msg).exec s = (.ok r, s') ∧ r.success = true
  | .call ctx input => Precompile.BatchProved env ctx input s d p
  | _ => False

/-- The event charges the provider for the deal. -/
def Charges (env : Env β) (s : KeeperState β) (d : Nat) (p : Str) (e : Event) : Prop :=
  ⟨d, p⟩ ∈ e.charges env s

/-- The proof status of the provider is set to the height of the event exactly when the event
proves or charges. -/
def StatusStep (env : Env β) (s s' : KeeperState β) (d : Nat) (p : Str) (e : Event) : Prop :=
  (Proves env s d p e ∨ Charges env s d p e) ∧
      s'.dealProviderStatus.get (join d p) = some e.ctx.height64 ∨
    ¬(Proves env s d p e ∨ Charges env s d p e) ∧
      s'.dealProviderStatus.get (join d p) = s.dealProviderStatus.get (join d p)

section Step

variable {env : Env β} {s : KeeperState β}

/-- A quiet step proves nothing and charges nobody. -/
theorem QuietlyMoved.statusStep {e : Event} {s' : KeeperState β} {d : Nat} {p : Str}
    (h : QuietlyMoved env e s s') (hproves : ¬Proves env s d p e)
    (hcharges : ¬Charges env s d p e) : StatusStep env s s' d p e :=
  Or.inr ⟨not_or.mpr ⟨hproves, hcharges⟩, by rw [h.status]⟩

/-- A delivered liveness proof, answered or dropped. It sets the status of its own key, and only
when it succeeds. -/
theorem proveLiveness_status (ctx : Ctx) (msg : MsgProveLiveness) (d : Nat) (p : Str) :
    StatusStep env s (apply env s (.deliver ctx (.proveLiveness msg))) d p
      (.deliver ctx (.proveLiveness msg)) := by
  have hcharges : ¬Charges env s d p (.deliver ctx (.proveLiveness msg)) := List.not_mem_nil
  cases h : (proveLiveness env ctx msg).exec s with
  | mk res s' =>
      cases res with
      | error e =>
          -- The message is dropped.
          have hfails : (handle env ctx (.proveLiveness msg)).exec s = (.error e, s') := by
            rw [handle, discard, Tx.exec_bind, h]
          have happly : apply env s (.deliver ctx (.proveLiveness msg)) = s :=
            Tx.commitOrRollback_of_error hfails
          rw [happly]
          refine Or.inr ⟨not_or.mpr ⟨?_, hcharges⟩, rfl⟩
          rintro ⟨-, -, r, s₁, hok, -⟩
          rw [h] at hok
          cases hok
      | ok r =>
          have happly : apply env s (.deliver ctx (.proveLiveness msg)) = s' :=
            Tx.commitOrRollback_of_ok (a := ()) (discard_ok.mpr ⟨r, h⟩)
          have hstatus := (proveLiveness_moved (e := .deliver ctx (.proveLiveness msg)) h).2
          -- the event is a proof of the sender for its deal, if it was a success
          have hproves : Proves env s d p (.deliver ctx (.proveLiveness msg)) ↔
              msg.dealId.toNat = d ∧ msg.creator = p ∧ r.success = true := by
            constructor
            · rintro ⟨hd, hp, r', s₁, hok, hsuccess⟩
              rw [h] at hok
              cases hok
              exact ⟨hd, hp, hsuccess⟩
            · rintro ⟨hd, hp, hsuccess⟩
              exact ⟨hd, hp, r, s', h, hsuccess⟩
          rw [happly]
          by_cases hsuccess : r.success
          · rw [if_pos hsuccess] at hstatus
            -- for this key, or for another one
            by_cases hkey : msg.dealId.toNat = d ∧ msg.creator = p
            · obtain ⟨rfl, rfl⟩ := hkey
              refine Or.inl ⟨Or.inl (hproves.mpr ⟨rfl, rfl, hsuccess⟩), ?_⟩
              rw [hstatus, KVStore.get_set_self]
              rfl
            · refine Or.inr ⟨not_or.mpr ⟨fun hp => ?_, hcharges⟩, ?_⟩
              · exact hkey ⟨(hproves.mp hp).1, (hproves.mp hp).2.1⟩
              · rw [hstatus, KVStore.get_set_ne]
                intro heq
                exact hkey ⟨(join_inj.mp heq).1.symm, (join_inj.mp heq).2.symm⟩
          · rw [if_neg hsuccess] at hstatus
            refine Or.inr ⟨not_or.mpr ⟨fun hp => ?_, hcharges⟩, by rw [hstatus]⟩
            exact hsuccess (hproves.mp hp).2.2

/-- What one event does to the proof status of one provider. The end of a block sets it for those
that are charged. -/
theorem status_step (hs : WellFormed env s) (e : Event) (d : Nat) (p : Str) :
    StatusStep env s (apply env s e) d p e := by
  -- by the kind of the event
  cases e with
  | deliver ctx msg =>
      by_cases hmsg : ∀ m, msg ≠ .proveLiveness m
      · have hproves : ¬Proves env s d p (.deliver ctx msg) := by
          cases msg with
          | proveLiveness m => exact absurd rfl (hmsg m)
          | _ => exact id
        rcases deliver_cases env ctx msg s with heq | hok
        · rw [heq]
          exact Or.inr ⟨not_or.mpr ⟨hproves, List.not_mem_nil⟩, rfl⟩
        · exact (handle_quiet hs hok hmsg).statusStep hproves List.not_mem_nil
      · push Not at hmsg
        obtain ⟨m, rfl⟩ := hmsg
        exact proveLiveness_status ctx m d p
  | endBlock ctx =>
      have hstatus := (checkMissedProofs_spec env ctx s).status d p
      by_cases hcharged : (⟨d, p⟩ : Charge) ∈ (checkMissedProofs env ctx s).2
      · rw [if_pos hcharged] at hstatus
        exact Or.inl ⟨Or.inr hcharged, hstatus⟩
      · rw [if_neg hcharged] at hstatus
        exact Or.inr ⟨not_or.mpr ⟨id, hcharged⟩, hstatus⟩
  | call ctx input =>
      cases h : (Precompile.run env ctx input).exec s with
      | mk res s' =>
          rw [show apply env s (.call ctx input) = s' by rw [apply, h]]
          -- a call is quiet, or a batch that proves for one provider
          rcases Precompile.run_moved hs h with ⟨hnot, hquiet⟩ | ⟨d', p', deal, hiff, -, -, -, hset⟩
          · exact hquiet.statusStep (hnot d p) List.not_mem_nil
          · rw [StatusStep, hset, KVStore.get_set]
            by_cases hkey : d = d' ∧ p = p'
            · refine Or.inl ⟨Or.inl ((hiff d p).mpr hkey), if_pos ?_⟩
              exact join_inj.mpr hkey
            · refine Or.inr ⟨not_or.mpr ⟨fun hp => hkey ((hiff d p).mp hp), List.not_mem_nil⟩, ?_⟩
              exact if_neg fun heq => hkey (join_inj.mp heq)

end Step

/-! ### The history of a run -/

section History

variable (env : Env β) (s₀ : KeeperState β) (d : Nat) (p : Str)

/-- In the run, the provider has proved the deal at the height. -/
def ProvedAt (h : Nat) : List Event → Prop :=
  Occurs fun past e => Proves env (run (apply env) s₀ past) d p e ∧ e.ctx.blockHeight = h

/-- The heights at which the run charges the provider for the deal, each as often as it is
charged there. -/
def chargeHeights (es : List Event) : List Nat :=
  trace (apply env)
    (fun s e => ((e.charges env s).filter (· = ⟨d, p⟩)).map fun _ => e.ctx.blockHeight) s₀ es

/-- In the run, the provider has proved the deal or was charged for it at the height. -/
def ActiveAt (h : Nat) : List Event → Prop :=
  Occurs fun past e =>
    (Proves env (run (apply env) s₀ past) d p e ∨ Charges env (run (apply env) s₀ past) d p e) ∧
      e.ctx.blockHeight = h

/-- The proof status is the height of the last proof or charge. -/
structure StatusIsLast (past : List Event) (s : KeeperState β) : Prop where
  bounds : ∀ g, ActiveAt env s₀ d p g past →
    ∃ x, s.dealProviderStatus.get (join d p) = some x ∧ g ≤ x.toNat
  attained : ∀ x, s.dealProviderStatus.get (join d p) = some x →
    x.toNat < 2 ^ 63 ∧ ActiveAt env s₀ d p x.toNat past

end History

section Run

variable {env : Env β} {s₀ : KeeperState β} {d : Nat} {p : Str}

/-- An event charges the provider once or not at all. The loop over the providers of a deal skips
those that it has seen. -/
theorem chargeHeights_snoc (env : Env β) (s₀ : KeeperState β) (d : Nat) (p : Str)
    (past : List Event) (e : Event) :
    Charges env (run (apply env) s₀ past) d p e ∧
        chargeHeights env s₀ d p (past ++ [e]) =
          chargeHeights env s₀ d p past ++ [e.ctx.blockHeight] ∨
      ¬Charges env (run (apply env) s₀ past) d p e ∧
        chargeHeights env s₀ d p (past ++ [e]) = chargeHeights env s₀ d p past := by
  -- the charges of an event are without repetitions
  have hnodup : (e.charges env (run (apply env) s₀ past)).Nodup := by
    cases e with
    | endBlock ctx => exact (checkMissedProofs_spec env ctx _).nodup
    | deliver ctx msg => exact List.nodup_nil
    | call ctx input => exact List.nodup_nil
  have hcount := List.nodup_iff_count_le_one.mp hnodup ⟨d, p⟩
  have hsnoc : chargeHeights env s₀ d p (past ++ [e]) = chargeHeights env s₀ d p past ++
      ((e.charges env (run (apply env) s₀ past)).filter (· = ⟨d, p⟩)).map
        fun _ => e.ctx.blockHeight := trace_snoc _ _ _ _ _
  rw [hsnoc, List.filter_eq]
  by_cases hcharges : Charges env (run (apply env) s₀ past) d p e
  · have hone : (e.charges env (run (apply env) s₀ past)).count ⟨d, p⟩ = 1 :=
      le_antisymm hcount (List.one_le_count_iff.mpr hcharges)
    refine Or.inl ⟨hcharges, ?_⟩
    rw [hone]
    rfl
  · refine Or.inr ⟨hcharges, ?_⟩
    rw [List.count_eq_zero.mpr hcharges]
    exact List.append_nil _

/-- The heights of the charges are those of the blocks that charge. -/
theorem mem_chargeHeights {g : Nat} {es : List Event} :
    g ∈ chargeHeights env s₀ d p es ↔
      Occurs (fun past e => Charges env (run (apply env) s₀ past) d p e ∧ e.ctx.blockHeight = g)
        es := by
  induction es using List.reverseRecOn with
  | nil => exact ⟨nofun, fun h => absurd h not_occurs_nil⟩
  | append_singleton past e ih =>
      rw [occurs_snoc]
      rcases chargeHeights_snoc env _ d p past e with ⟨hcharges, heq⟩ | ⟨hnot, heq⟩
      · rw [heq, List.mem_append, List.mem_singleton, ih]
        exact or_congr_right ⟨fun h => ⟨hcharges, h.symm⟩, fun h => h.2.symm⟩
      · rw [heq, ih]
        exact ⟨Or.inl, fun h => h.resolve_right fun hc => hnot hc.1⟩

/-- The heights of proofs and charges do not exceed that of a later event. -/
theorem ActiveAt.le_of_blocks {h₀ g : Nat} {past : List Event} {e : Event}
    (hes : Blocks h₀ (past ++ [e])) (hg : ActiveAt env s₀ d p g past) : g ≤ e.ctx.blockHeight := by
  obtain ⟨past₁, e₁, rest, rfl, -, rfl⟩ := hg
  have h₁ := hes.left past₁ e₁ rest rfl
  have h₂ := hes.last
  rw [h₁, h₂, openHeight, openHeight, List.countP_append]
  omega

/-- The proof status is the height of the last proof or charge, after every run in blocks. The
heights of a run in blocks do not go down. -/
theorem run_statusIsLast (env : Env β) (params : Params) (b : β) (d : Nat) (p : Str) {h₀ : Nat}
    {es : List Event} (hes : Blocks h₀ es) :
    StatusIsLast env (genesis params b) d p es (run (apply env) (genesis params b) es) := by
  -- by the run; the event is active for the provider, or not
  induction es using List.reverseRecOn with
  | nil =>
      refine ⟨fun g hg => absurd hg not_occurs_nil, fun x hx => ?_⟩
      cases hx
  | append_singleton past e ih =>
      have ih := ih hes.left
      have hheight : e.ctx.height64.toNat = e.ctx.blockHeight := e.ctx.toNat_height64
      rw [run_snoc]
      rcases status_step (run_wellFormed env params b past) e d p with
        ⟨hactive, hset⟩ | ⟨hidle, hkept⟩
      · -- The status becomes the height of the event, which no earlier one exceeds.
        refine ⟨fun g hg => ⟨_, hset, ?_⟩, fun x hx => ?_⟩
        · rw [hheight]
          rcases occurs_snoc.mp hg with hold | ⟨-, rfl⟩
          · exact ActiveAt.le_of_blocks hes hold
          · exact le_rfl
        · rw [hset, Option.some.injEq] at hx
          subst hx
          rw [hheight]
          exact ⟨e.ctx.height_lt, occurs_snoc.mpr (Or.inr ⟨hactive, rfl⟩)⟩
      -- an idle event leaves the status as it was
      · refine ⟨fun g hg => ?_, fun x hx => ?_⟩
        · rw [hkept]
          exact ih.bounds g ((occurs_snoc.mp hg).resolve_right fun hlast => hidle hlast.1)
        · rw [hkept] at hx
          obtain ⟨hlt, hactive⟩ := ih.attained x hx
          exact ⟨hlt, hactive.append [e]⟩

/-! ### The schedule -/

/-- The window after a height is over. -/
theorem window_over_iff {x : UInt64} {ctx : Ctx} (hx : x.toNat < 2 ^ 63) :
    x + proofWindow < ctx.height64 ↔ x.toNat + proofWindow.toNat < ctx.blockHeight := by
  have hwindow : proofWindow.toNat = 10 := rfl
  rw [UInt64.lt_iff_toNat_lt, UInt64.toNat_add, ctx.toNat_height64]
  omega

/-- A provider is charged at the end of a block exactly when its deal is active and lists it, and
its last proof or charge, or the start of the deal when there is none, is more than `ProofWindow`
back. The source subtracts in `uint64`, so the status has to be a past height. -/
theorem charges_iff {ctx : Ctx} {past : List Event} {s : KeeperState β} (hs : WellFormed env s)
    (hlast : StatusIsLast env s₀ d p past s) :
    Charges env s d p (.endBlock ctx) ↔
      ∃ deal, s.deals.get d = some deal ∧ deal.activeAt ctx.height64 ∧ p ∈ deal.providers ∧
        (∀ g, ActiveAt env s₀ d p g past → g + proofWindow.toNat < ctx.blockHeight) ∧
        ((∀ g, ¬ActiveAt env s₀ d p g past) →
          deal.startBlock.toNat + proofWindow.toNat < ctx.blockHeight) := by
  have hmem : Charges env s d p (.endBlock ctx) ↔ _ :=
    (checkMissedProofs_spec env ctx s).mem_charges ⟨d, p⟩
  rw [hmem]
  refine exists_congr fun deal => and_congr_right fun hget => and_congr_right fun _ =>
    and_congr_right fun hp => ?_
  -- a listed provider has an address
  have hdecodes : (env.codec.accAddressFromBech32 p).isSome := by
    obtain ⟨addr, haddr, -⟩ := hs.canonical (hs.listed hget p hp)
    rw [haddr]
    rfl
  rw [Due, and_iff_left hdecodes, lastProof]
  -- no proof and no charge yet, or the height of the last one
  cases hstatus : s.dealProviderStatus.get (join d p) with
  | none =>
      have hnone : ∀ g, ¬ActiveAt env s₀ d p g past := by
        intro g hg
        obtain ⟨x, hx, -⟩ := hlast.bounds g hg
        rw [hstatus] at hx
        cases hx
      rw [Option.getD_none, window_over_iff (hs.start_lt hget)]
      exact ⟨fun h => ⟨fun g hg => absurd hg (hnone g), fun _ => h⟩, fun h => h.2 hnone⟩
  | some x =>
      obtain ⟨hlt, hactive⟩ := hlast.attained x hstatus
      rw [Option.getD_some, window_over_iff hlt]
      constructor
      · intro h
        refine ⟨fun g hg => ?_, fun hnone => absurd hactive (hnone _)⟩
        obtain ⟨y, hy, hle⟩ := hlast.bounds g hg
        rw [hstatus] at hy
        cases hy
        omega
      · exact fun h => h.1 _ hactive

/-- A proof is an activity. -/
theorem ProvedAt.activeAt {g : Nat} {es : List Event} (h : ProvedAt env s₀ d p g es) :
    ActiveAt env s₀ d p g es := h.mono fun _ _ hp => ⟨Or.inl hp.1, hp.2⟩

/-- So is a charge. -/
theorem activeAt_of_charged {g : Nat} {es : List Event} (h : g ∈ chargeHeights env s₀ d p es) :
    ActiveAt env s₀ d p g es :=
  (mem_chargeHeights.mp h).mono fun _ _ hp => ⟨Or.inr hp.1, hp.2⟩

/-- There is no other activity. -/
theorem activeAt_iff {g : Nat} {es : List Event} :
    ActiveAt env s₀ d p g es ↔
      ProvedAt env s₀ d p g es ∨ g ∈ chargeHeights env s₀ d p es := by
  refine ⟨?_, fun h => h.elim ProvedAt.activeAt activeAt_of_charged⟩
  rintro ⟨past, e, rest, rfl, hp | hc, hheight⟩
  · exact Or.inl ⟨past, e, rest, rfl, hp, hheight⟩
  · exact Or.inr (mem_chargeHeights.mpr ⟨past, e, rest, rfl, hc, hheight⟩)

/-- The charges of a run are more than `ProofWindow` apart. A charge sets the status, so the next
one has to wait. -/
theorem chargeHeights_pairwise (env : Env β) (params : Params) (b : β) (d : Nat) (p : Str)
    {h₀ : Nat} {es : List Event} (hes : Blocks h₀ es) :
    (chargeHeights env (genesis params b) d p es).Pairwise
      fun g h => g + proofWindow.toNat < h := by
  -- by the run; the last event may charge
  induction es using List.reverseRecOn with
  | nil => exact List.Pairwise.nil
  | append_singleton past e ih =>
      rcases chargeHeights_snoc env _ d p past e with ⟨hcharges, heq⟩ | ⟨-, heq⟩
      · rw [heq]
        refine List.pairwise_append.mpr ⟨ih hes.left, List.pairwise_singleton _ _, ?_⟩
        intro g hg h hh
        rw [List.mem_singleton] at hh
        subst hh
        cases e with
        | endBlock ctx =>
            obtain ⟨deal, -, -, -, hafter, -⟩ := (charges_iff (run_wellFormed env params b past)
              (run_statusIsLast env params b d p hes.left)).mp hcharges
            exact hafter g (activeAt_of_charged hg)
        | deliver ctx msg => exact absurd hcharges List.not_mem_nil
        | call ctx input => exact absurd hcharges List.not_mem_nil
      · rw [heq]
        exact ih hes.left

/-- Only the end of a block charges. -/
theorem Charges.isEndBlock {s : KeeperState β} {e : Event} (h : Charges env s d p e) :
    e.isEndBlock := by
  cases e with
  | endBlock ctx => rfl
  | deliver ctx msg => exact absurd h List.not_mem_nil
  | call ctx input => exact absurd h List.not_mem_nil

/-- What follows a charge has a greater height. -/
theorem charged_lt_of_blocks {h₀ h : Nat} {past : List Event} {e : Event}
    (hes : Blocks h₀ (past ++ [e])) (hh : h ∈ chargeHeights env s₀ d p past) :
    h < e.ctx.blockHeight := by
  obtain ⟨past₁, e₁, rest, rfl, hcharges, rfl⟩ := mem_chargeHeights.mp hh
  have h₁ := hes.left past₁ e₁ rest rfl
  have h₂ := hes.last
  rw [h₁, h₂, openHeight, openHeight, List.countP_append,
    List.countP_cons_of_pos hcharges.isEndBlock]
  omega

/-- No charge of a run lies within `ProofWindow` of a proof before it. The status is never older
than the proof. -/
theorem charge_after_proof (env : Env β) (params : Params) (b : β) (d : Nat) (p : Str)
    {h₀ g h : Nat} {es : List Event} (hes : Blocks h₀ es)
    (hh : h ∈ chargeHeights env (genesis params b) d p es)
    (hg : ProvedAt env (genesis params b) d p g es) (hle : g ≤ h) :
    g + proofWindow.toNat < h := by
  -- by the run
  induction es using List.reverseRecOn with
  | nil => cases hh
  | append_singleton past e ih =>
      rcases chargeHeights_snoc env _ d p past e with ⟨hcharges, heq⟩ | ⟨hnot, heq⟩
      · -- The last event charges, so it is no proof.
        have hend := hcharges.isEndBlock
        have hgpast : ProvedAt env (genesis params b) d p g past := by
          refine (occurs_snoc.mp hg).resolve_right fun hlast => ?_
          cases e with
          | endBlock ctx => exact hlast.1
          | deliver ctx msg => cases hend
          | call ctx input => cases hend
        rw [heq, List.mem_append, List.mem_singleton] at hh
        rcases hh with hh | rfl
        · exact ih hes.left hh hgpast
        · cases e with
          | endBlock ctx =>
              obtain ⟨deal, -, -, -, hafter, -⟩ := (charges_iff (run_wellFormed env params b past)
                (run_statusIsLast env params b d p hes.left)).mp hcharges
              exact hafter g hgpast.activeAt
          | deliver ctx msg => cases hend
          | call ctx input => cases hend
      · rw [heq] at hh
        -- the last event is the proof, and the charges are in the past
        rcases occurs_snoc.mp hg with hgpast | ⟨-, rfl⟩
        · exact ih hes.left hh hgpast
        · exact absurd (charged_lt_of_blocks hes hh) (by omega)

end Run

/-- The slash schedule. In every run in blocks, for every deal and every address:
the charges are more than `ProofWindow` apart, however often the deal lists the address; none
lies within `ProofWindow` of a successful proof before it; and at every height at which the
deal is active and lists the address, and its start, the proofs and the charges so far are all
more than `ProofWindow` back, the address is charged. -/
theorem slash_schedule (env : Env β) (params : Params) (b : β) (h₀ : Nat) (es : List Event)
    (hes : Blocks h₀ es) (d : Nat) (p : Str) :
    (chargeHeights env (genesis params b) d p es).Pairwise
        (fun g h => g + proofWindow.toNat < h) ∧
      (∀ h ∈ chargeHeights env (genesis params b) d p es,
        ∀ g ≤ h, ProvedAt env (genesis params b) d p g es → g + proofWindow.toNat < h) ∧
      ∀ past ctx rest deal, es = past ++ .endBlock ctx :: rest →
        (run (apply env) (genesis params b) past).deals.get d = some deal →
        p ∈ deal.providers → deal.startBlock ≤ ctx.height64 → ctx.height64 ≤ deal.endBlock →
        deal.startBlock.toNat + proofWindow.toNat < ctx.blockHeight →
        (∀ g, ProvedAt env (genesis params b) d p g past →
          g + proofWindow.toNat < ctx.blockHeight) →
        (∀ g ∈ chargeHeights env (genesis params b) d p past,
          g + proofWindow.toNat < ctx.blockHeight) →
        ctx.blockHeight ∈ chargeHeights env (genesis params b) d p es := by
  refine ⟨chargeHeights_pairwise env params b d p hes,
    fun h hh g hle hg => charge_after_proof env params b d p hes hh hg hle, ?_⟩
  intro past ctx rest deal hsplit hget hp hstarted hrunning hstart hproofs hcharges
  subst hsplit
  have hpast : Blocks h₀ past := hes.left
  refine mem_chargeHeights.mpr ⟨past, .endBlock ctx, rest, rfl, ?_, rfl⟩
  -- the conditions on proofs and charges are those on the status
  refine (charges_iff (run_wellFormed env params b past)
    (run_statusIsLast env params b d p hpast)).mpr
      ⟨deal, hget, ⟨hstarted, hrunning⟩, hp, fun g hg => ?_, fun _ => hstart⟩
  rcases activeAt_iff.mp hg with hproved | hcharged
  · exact hproofs g hproved
  · exact hcharges g hcharged

/-- A chain with one provider that never proves: a registration, a deal, and the ends of the
blocks `1, …, n`. -/
def missedRun (n : Nat) (h : n + 1 < 2 ^ 63 := by decide) : List Event :=
  .deliver (ctxAt 1) (registerMsg providerText) ::
    .deliver (ctxAt 1) (createMsg 100 "General:rs=8+4") ::
    (List.finRange n).map fun (i : Fin n) =>
      .endBlock (ctxAt (i.val + 1) (decide_height_fin h i))

/-- The provider is charged when the window of the deal's start is over, and again when that of
the first charge is. -/
theorem slash_schedule_missedRun :
    (chargeHeights (sampleEnv noKeccak []) (genesis defaultParams sampleBank) 0 providerText
        (missedRun 24)).Pairwise (fun g h => g + proofWindow.toNat < h) ∧
      chargeHeights (sampleEnv noKeccak []) (genesis defaultParams sampleBank) 0 providerText
        (missedRun 24) = [12, 23] :=
  ⟨(slash_schedule (sampleEnv noKeccak []) defaultParams sampleBank 1 (missedRun 24)
    (by decide +kernel) 0 providerText).1, by decide +kernel⟩

end NilStore.Chain
