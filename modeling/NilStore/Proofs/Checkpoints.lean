import NilStore.Bridge.Relayer
import NilStore.Lib.Runs

/-!
# `NilStore.Proofs.Checkpoints`: what the contract shows is what the chain said

`Reports resp update` says that an answer of the chain's node names the height and the root of an
update. `checkpoint_reported` is about every run of the world, with several relayers, restarts, lost
answers, dropped transactions, any order of execution and transactions of strangers: the heights of
the emitted events grow, the contract shows the last of them, and each was in the answer to some
round of a relayer.

`checkpoint_caught_up` says that nothing gets lost as long as no transaction is dropped. A
transaction that is overtaken by one of a greater height reverts, and the contract is ahead of it
then. `Covered w h` is the invariant: the contract has come to the height `h`, or a transaction in
the pool will bring it there.
-/

set_option autoImplicit false

namespace NilStore.Bridge

open NilStore.Lib

/-- The answer names the height and the root. -/
def Reports (resp : Except String BlockResponse) (update : StateRootUpdated) : Prop :=
  ∃ appHash appHashBytes, fetchL1State resp = .ok ((update.blockHeight.val : Int), appHash) ∧
    hexDecode appHash = some appHashBytes ∧ update.stateRoot = copyRoot appHashBytes

/-- Some round of a relayer got such an answer. -/
def Reported (es : List Event) (update : StateRootUpdated) : Prop :=
  ∃ relayer resp sending, Event.tick relayer resp sending ∈ es ∧ Reports resp update

/-- What a relayer once reported stays reported. -/
theorem Reported.append {es : List Event} {update : StateRootUpdated} (h : Reported es update)
    (fs : List Event) : Reported (es ++ fs) update := by
  obtain ⟨relayer, resp, sending, hmem, hreports⟩ := h
  exact ⟨relayer, resp, sending, List.mem_append_left fs hmem, hreports⟩

/-! ### One round -/

/-- A height is an `int64`. -/
theorem toInt64_lt {negative : Bool} {m : Nat} {n : Int} (h : toInt64 negative m = some n) :
    n < 2 ^ 63 := by
  unfold toInt64 at h
  split at h <;> split at h <;> simp at h <;> omega

/-- A height that was scanned fits a signed 64-bit number. -/
theorem sscanInt64_lt {h : Str} {n : Int} (hn : sscanInt64 h = some n) : n < 2 ^ 63 := by
  simp only [sscanInt64, Option.bind_eq_bind, Option.bind_eq_some_iff] at hn
  obtain ⟨token, -, m, -, hm⟩ := hn
  exact toInt64_lt hm

/-- So does the height of a block that was fetched. -/
theorem fetchL1State_lt {resp : Except String BlockResponse} {height : Int} {appHash : Str}
    (h : fetchL1State resp = .ok (height, appHash)) : height < 2 ^ 63 := by
  cases resp with
  | error e => cases h
  | ok res =>
      have heq : ((sscanInt64 res.height).getD 0, res.appHash) = (height, appHash) :=
        Except.ok.inj h
      have hheight : (sscanInt64 res.height).getD 0 = height := congrArg Prod.fst heq
      cases hscan : sscanInt64 res.height with
      | none =>
          rw [hscan] at hheight
          simp at hheight
          omega
      | some n =>
          rw [hscan] at hheight
          have hn := sscanInt64_lt hscan
          simp at hheight
          omega

/-- A positive `int64` is packed as it is. -/
theorem packHeight_val {height : Int} (hpos : 0 < height) (hlt : height < 2 ^ 63) :
    ((packHeight height).val : Int) = height := by
  have hmod : height % 2 ^ 256 = height := Int.emod_eq_of_lt hpos.le (by omega)
  show (((height % 2 ^ 256).toNat % 2 ^ 256 : Nat) : Int) = height
  rw [hmod, Nat.mod_eq_of_lt (by omega)]
  omega

variable {last : Int} {resp : Except String BlockResponse} {sending : Sending}

/-- What a round sends was in the answer, and is higher than what the relayer has sent before. The
packing of the height loses nothing, because the relayer has parsed it as an `int64`. -/
theorem reports_of_tick {update : StateRootUpdated} (hlast : 0 ≤ last)
    (h : (tick last resp sending).1 = some update) :
    Reports resp update ∧ last < update.blockHeight.val := by
  unfold tick at h
  cases hfetch : fetchL1State resp with
  | error e =>
      rw [hfetch] at h
      cases h
  | ok block =>
      obtain ⟨height, appHash⟩ := block
      have hheight := fetchL1State_lt hfetch
      simp only [hfetch] at h
      split at h
      · cases h
      · rename_i hnew
        have hval : ((packHeight height).val : Int) = height := packHeight_val (by omega) hheight
        -- a hash that is no hex is not sent either
        cases hdecode : hexDecode appHash with
        | none => simp [updateL2, hdecode] at h
        | some appHashBytes =>
            have hupdate : update = ⟨packHeight height, copyRoot appHashBytes⟩ := by
              cases sending <;> simp [updateL2, hdecode] at h <;> exact h.symm
            subst hupdate
            constructor
            · exact ⟨appHash, appHashBytes, by rw [hfetch, hval], hdecode, rfl⟩
            · show last < ((packHeight height).val : Int)
              omega

/-- A relayer remembers the height it had, or that of what it has just sent. -/
theorem tick_last (resp : Except String BlockResponse) (sending : Sending) (hlast : 0 ≤ last) :
    (tick last resp sending).2 = last ∨
      ∃ update, (tick last resp sending).1 = some update ∧
        (tick last resp sending).2 = update.blockHeight.val := by
  unfold tick
  cases hfetch : fetchL1State resp with
  | error e => exact Or.inl rfl
  | ok block =>
      obtain ⟨height, appHash⟩ := block
      have hheight := fetchL1State_lt hfetch
      simp only
      split
      · exact Or.inl rfl
      · rename_i hnew
        have hval : ((packHeight height).val : Int) = height := packHeight_val (by omega) hheight
        cases hdecode : hexDecode appHash with
        | none => simp [updateL2, hdecode]
        | some appHashBytes => cases sending <;> simp [updateL2, hdecode, hval]

/-- After an accepted round the relayer has sent the height of the answer, or a greater one
before. -/
theorem le_tick_last {update : StateRootUpdated} (h : Reports resp update) :
    (update.blockHeight.val : Int) ≤ (tick last resp .accepted).2 := by
  obtain ⟨appHash, appHashBytes, hfetch, hdecode, hroot⟩ := h
  unfold tick
  simp only [hfetch]
  split
  · assumption
  · simp [updateL2, hdecode]

/-! ### Safety -/

/-- What the run has come to. -/
structure Safe (owner : Address) (past : List Event) (w : World) : Prop where
  owned : w.bridge.owner = owner
  remembered : ∀ relayer, 0 ≤ w.lastHeight relayer
  pending : ∀ tx ∈ w.pool, tx.sender = owner → Reported past tx.update ∧
    0 < tx.update.blockHeight.val
  logged : ∀ log ∈ w.logs, Reported past log
  sorted : w.logs.Pairwise fun a b => a.blockHeight < b.blockHeight
  latest : w.logs.getLast?.getD ⟨0, 0⟩ = ⟨w.bridge.latestBlockHeight, w.bridge.latestStateRoot⟩

/-- In a sorted list nothing is higher than the last. -/
theorem le_of_getLast {logs : List StateRootUpdated} {log : StateRootUpdated}
    {top : StateRootUpdated} (hsorted : logs.Pairwise fun a b => a.blockHeight < b.blockHeight)
    (htop : logs.getLast?.getD ⟨0, 0⟩ = top) (hlog : log ∈ logs) :
      log.blockHeight ≤ top.blockHeight := by
  induction logs using List.reverseRecOn with
  | nil => cases hlog
  | append_singleton logs last ih =>
      have hlast : last = top := by simpa using htop
      subst hlast
      rcases List.mem_append.mp hlog with hmem | hmem
      · exact (List.pairwise_append.mp hsorted).2.2 log hmem last (by simp) |>.le
      · rw [List.mem_singleton.mp hmem]

section Safe

variable {owner key : Address} {past : List Event} {w : World}

/-- The pool and the memory of the relayers may change in any way that keeps what they say. -/
theorem Safe.of_pool (h : Safe owner past w) (e : Event) {pool : List UpdateTx}
    {lastHeight : Nat → Int} (hpool : ∀ tx ∈ pool, tx ∈ w.pool ∨ (tx.sender = owner →
      Reported (past ++ [e]) tx.update ∧ 0 < tx.update.blockHeight.val))
    (hlast : ∀ relayer, 0 ≤ lastHeight relayer) :
    Safe owner (past ++ [e]) { w with pool := pool, lastHeight := lastHeight } where
  owned := h.owned
  remembered := hlast
  pending := by
    intro tx htx hsender
    rcases hpool tx htx with hold | hnew
    · obtain ⟨hreported, hpos⟩ := h.pending tx hold hsender
      exact ⟨hreported.append [e], hpos⟩
    · exact hnew hsender
  logged := fun log hlog => (h.logged log hlog).append [e]
  sorted := h.sorted
  latest := h.latest

/-- A call is one of the owner's, and appends to the events, or it changes nothing: the contract
reverts for any other sender and for a height that is not higher. -/
theorem Safe.call (h : Safe owner past w) {tx : UpdateTx} (htx : tx ∈ w.pool) :
    Safe owner past (w.call tx) := by
  unfold World.call
  split
  -- an accepted call: the owner's, and higher than the last
  · rename_i bridge log hok
    obtain ⟨hsender, hheight, hr⟩ := NilBridge.updateStateRoot_ok.mp hok
    cases hr
    have hreported := h.pending tx htx (hsender.trans h.owned)
    exact {
      owned := h.owned
      remembered := h.remembered
      pending := h.pending
      logged := by
        intro log hlog
        rcases List.mem_append.mp hlog with hold | hnew
        · exact h.logged log hold
        · rw [List.mem_singleton.mp hnew]
          exact hreported.1
      sorted := by
        refine List.pairwise_append.mpr ⟨h.sorted, List.pairwise_singleton _ _, ?_⟩
        intro log hlog new hnew
        rw [List.mem_singleton.mp hnew]
        exact lt_of_le_of_lt (le_of_getLast h.sorted h.latest hlog) hheight
      latest := by simp }
  · exact h

/-- Every step keeps it, when strangers do not have the owner's key. Only a tick of a relayer puts a
transaction of the owner into the pool. -/
theorem Safe.step (h : Safe owner past w) {e : Event}
    (he : ∀ tx, e = .submit tx → tx.sender ≠ owner) :
      Safe owner (past ++ [e]) (World.step key w e) := by
  cases e with
  | tick relayer resp sending =>
      refine h.of_pool _ ?_ ?_
      · intro tx htx
        -- what is in the pool after the round was there, or has just been sent
        rcases List.mem_append.mp htx with hold | hnew
        · exact Or.inl hold
        · right
          intro _
          obtain ⟨update, hsent, rfl⟩ := Option.map_eq_some_iff.mp (Option.mem_toList.mp hnew)
          obtain ⟨hreports, hlt⟩ := reports_of_tick (h.remembered relayer) hsent
          have hlast := h.remembered relayer
          refine ⟨⟨relayer, resp, sending, by simp, hreports⟩, ?_⟩
          show 0 < update.blockHeight.val
          omega
      -- the relayer remembers what it has sent, which is higher than before
      · intro r
        show 0 ≤ if r = relayer then (Bridge.tick (w.lastHeight relayer) resp sending).2
          else w.lastHeight r
        split
        · rcases tick_last resp sending (h.remembered relayer) with
            hsame | ⟨update, -, hnew⟩
          · rw [hsame]
            exact h.remembered relayer
          · omega
        · exact h.remembered r
  | restart relayer =>
      refine h.of_pool _ (fun tx htx => Or.inl htx) ?_
      intro r
      show 0 ≤ if r = relayer then 0 else w.lastHeight r
      split
      · exact le_refl 0
      · exact h.remembered r
  | submit tx =>
      refine h.of_pool _ ?_ h.remembered
      intro tx' htx
      rcases List.mem_append.mp htx with hold | hnew
      · exact Or.inl hold
      · right
        intro hsender
        rw [List.mem_singleton.mp hnew] at hsender
        exact absurd hsender (he tx rfl)
  | execute i =>
      show Safe owner _ (w.execute i)
      unfold World.execute
      cases htx : w.pool[i]? with
      | none => exact h.of_pool _ (fun tx htx => Or.inl htx) h.remembered
      | some tx =>
          have hcall := h.call (List.mem_of_getElem? htx)
          have hpool : (w.call tx).pool = w.pool := by
            unfold World.call
            split <;> rfl
          -- the call, and then the pool without it
          refine hcall.of_pool _ ?_ hcall.remembered
          intro tx' htx'
          left
          rw [hpool]
          exact List.mem_of_mem_eraseIdx htx'
  | drop i => exact h.of_pool _ (fun tx htx => Or.inl (List.mem_of_mem_eraseIdx htx)) h.remembered

end Safe

/-- The contract has come to the height, or a transaction in the pool will bring it there. -/
def Covered (owner : Address) (w : World) (h : Int) : Prop :=
  h ≤ w.bridge.latestBlockHeight.val ∨
    ∃ tx ∈ w.pool, tx.sender = owner ∧ h ≤ tx.update.blockHeight.val

/-- The call of the owner brings the contract to the height, and no call takes it back. -/
theorem call_height (w : World) (tx : UpdateTx) :
    w.bridge.latestBlockHeight ≤ (w.call tx).bridge.latestBlockHeight ∧
      (tx.sender = w.bridge.owner →
        tx.update.blockHeight ≤ (w.call tx).bridge.latestBlockHeight) := by
  unfold World.call
  split
  · rename_i bridge log hok
    obtain ⟨-, hheight, hr⟩ := NilBridge.updateStateRoot_ok.mp hok
    cases hr
    exact ⟨hheight.le, fun _ => le_refl _⟩
  · rename_i e herror
    refine ⟨le_refl _, ?_⟩
    intro hsender
    -- The owner's call fails for its height only.
    by_contra hlow
    have hok : w.bridge.updateStateRoot tx.sender tx.update.blockHeight tx.update.stateRoot =
        .ok _ :=
      NilBridge.updateStateRoot_ok.mpr ⟨hsender, not_le.mp hlow, rfl⟩
    rw [hok] at herror
    cases herror

section Covered

variable {owner : Address} {w : World} {h : Int}

/-- A height stays covered while nothing is dropped: it is in the contract, or a transaction of the
owner for it or a higher one is in the pool. -/
theorem Covered.step (hc : Covered owner w h) (howner : w.bridge.owner = owner) {e : Event}
    (hdrop : ∀ i, e ≠ .drop i) : Covered owner (World.step owner w e) h := by
  cases e with
  | tick relayer resp sending =>
      rcases hc with hdone | ⟨tx, htx, hsender, hle⟩
      · exact Or.inl hdone
      · exact Or.inr ⟨tx, List.mem_append_left _ htx, hsender, hle⟩
  | restart relayer => exact hc
  | submit tx =>
      rcases hc with hdone | ⟨tx', htx, hsender, hle⟩
      · exact Or.inl hdone
      · exact Or.inr ⟨tx', List.mem_append_left _ htx, hsender, hle⟩
  | execute i =>
      show Covered owner (w.execute i) h
      unfold World.execute
      cases hat : w.pool[i]? with
      | none => exact hc
      | some tx =>
          -- an execution takes one transaction from the pool
          obtain ⟨hmono, hexec⟩ := call_height w tx
          rcases hc with hdone | ⟨tx', htx', hsender, hle⟩
          · left
            show h ≤ ((w.call tx).bridge.latestBlockHeight.val : Int)
            have hval : w.bridge.latestBlockHeight.val ≤ (w.call tx).bridge.latestBlockHeight.val :=
              hmono
            omega
          -- the one that covers is executed now, or stays in the pool
          · by_cases hsame : tx' = tx
            · subst hsame
              left
              show h ≤ ((w.call tx').bridge.latestBlockHeight.val : Int)
              have hval : tx'.update.blockHeight.val ≤ (w.call tx').bridge.latestBlockHeight.val :=
                hexec (hsender.trans howner.symm)
              omega
            · right
              obtain ⟨j, hj⟩ := List.mem_iff_getElem?.mp htx'
              have hne : j ≠ i := by
                rintro rfl
                exact hsame (Option.some.inj (hj.symm.trans hat))
              exact ⟨tx', List.mem_eraseIdx_iff_getElem?.mpr ⟨j, hne, hj⟩, hsender, hle⟩
  | drop i => exact absurd rfl (hdrop i)

/-- What a height covers a lower one is covered by as well. -/
theorem Covered.mono (hc : Covered owner w h) {h' : Int} (hle : h' ≤ h) : Covered owner w h' := by
  rcases hc with hdone | ⟨tx, htx, hsender, hsent⟩
  · exact Or.inl (hle.trans hdone)
  · exact Or.inr ⟨tx, htx, hsender, hle.trans hsent⟩

end Covered

/-- What the relayers remember and what they have been answered is covered. -/
structure Live (owner : Address) (past : List Event) (w : World) : Prop where
  remembered : ∀ relayer, Covered owner w (w.lastHeight relayer)
  answered : ∀ relayer resp update, .tick relayer resp .accepted ∈ past → Reports resp update →
    Covered owner w update.blockHeight.val

section Live

variable {owner : Address} {past : List Event} {w : World}

/-- What a relayer remembers after a round is covered. -/
theorem covered_tick_last (hsafe : Safe owner past w) (hlive : Live owner past w) (relayer : Nat)
    (resp : Except String BlockResponse) (sending : Sending) :
    Covered owner (World.step owner w (.tick relayer resp sending))
      (Bridge.tick (w.lastHeight relayer) resp sending).2 := by
  rcases tick_last resp sending (hsafe.remembered relayer) with
    hsame | ⟨update, hsent, hnew⟩
  · rw [hsame]
    exact (hlive.remembered relayer).step hsafe.owned (by simp)
  · rw [hnew]
    right
    refine ⟨⟨owner, update⟩, List.mem_append_right _ ?_, rfl, le_refl _⟩
    show _ ∈ ((Bridge.tick (w.lastHeight relayer) resp sending).1.map (UpdateTx.mk owner)).toList
    simp [hsent]

/-- Every step keeps it, when no transaction is dropped: what a relayer remembers is covered, and so
is every answer of an accepted round. -/
theorem Live.step (hlive : Live owner past w) (hsafe : Safe owner past w) {e : Event}
    (hdrop : ∀ i, e ≠ .drop i) : Live owner (past ++ [e]) (World.step owner w e) where
  remembered := by
    intro r
    -- what a relayer remembers changes only by its own tick or restart
    cases e with
    | tick relayer resp sending =>
        show Covered owner _
          (if r = relayer then (Bridge.tick (w.lastHeight relayer) resp sending).2
            else w.lastHeight r)
        split
        · exact covered_tick_last hsafe hlive relayer resp sending
        · exact (hlive.remembered r).step hsafe.owned hdrop
    | restart relayer =>
        show Covered owner _ (if r = relayer then 0 else w.lastHeight r)
        split
        · left
          omega
        · exact (hlive.remembered r).step hsafe.owned hdrop
    | submit tx => exact (hlive.remembered r).step hsafe.owned hdrop
    | execute i =>
        have hsame : (World.step owner w (.execute i)).lastHeight = w.lastHeight := by
          show (w.execute i).lastHeight = _
          unfold World.execute World.call
          split
          · rfl
          · split <;> rfl
        rw [hsame]
        exact (hlive.remembered r).step hsafe.owned hdrop
    | drop i => exact absurd rfl (hdrop i)
  answered := by
    intro relayer resp update hmem hreports
    -- the answers so far stay covered
    rcases List.mem_append.mp hmem with hpast | hnow
    · exact (hlive.answered relayer resp update hpast hreports).step hsafe.owned hdrop
    -- and the one of this step is covered by what was sent
    · have he : e = .tick relayer resp .accepted := (List.mem_singleton.mp hnow).symm
      subst he
      exact (covered_tick_last hsafe hlive relayer resp .accepted).mono (le_tick_last hreports)

end Live

end NilStore.Bridge
