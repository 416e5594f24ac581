import AmmRollup.Proofs.Rollup.Payment
import AmmRollup.Proofs.Rollup.Perform

/-!
# AmmRollup.Proofs.Solvency

The bridge and the rollup together (`System`), and everything that happens to them, in any
order: tokens are deposited and deposits applied, the rollup replays them, users trade and
burn, and what was burned is paid.  Of every token, at all times, the bridge holds what
waits to be replayed, what circulates in the rollup and what is owed for burns
(`System.run_solvent`).

What moves between the five places is followed by an invariant (`System.Sound`), in which
payments stand on the side of custody, so that nothing is subtracted.
-/

namespace AmmRollup

/-- The bridge, and the rollup that replays its deposits. -/
structure System where
  bridge : Bridge
  state : RollupState

namespace System

/-- The system before anything has happened. -/
def initial : System := ⟨.initial, .initial⟩

/-! ## Actions

The bridge and the rollup are driven by anyone: deposits, applications, replays, intents and
withdrawals in any order, each accepted or not.
-/

/-- What can happen. -/
inductive Action where
  /-- Tokens are deposited at the bridge. -/
  | deposit (depositor : Address) (token : Token) (amount : Amount)
  /-- The bridge applies the deposits that wait. -/
  | applyDeposits
  /-- The rollup replays the oldest applied deposit that it has not replayed. -/
  | replay (verifiers : Verifiers) (earlier : Option Proof)
  /-- A user's intent is built and applied at once. -/
  | perform (verifiers : Verifiers) (earlier : Option Proof) (intent : Intent)
      (user : ∀ d, intent ≠ .deposit d)
  /-- An account asks for what it burned, against whatever roots, and a payment is recorded. -/
  | withdraw (owner : Address) (token : Token) (settled : StateRoots)

/-- The deposit that is replayed next: the first that the rollup fetches. -/
def next? (sys : System) : Option AccountRecord :=
  match sys.state.fetchDeposits sys.bridge with
  | .ok deposits => deposits.head?
  | .error _ => none

/-- The system after an intent was built and applied, accepted or not. -/
def performed (sys : System) (v : Verifiers) (earlier : Option Proof) (i : Intent) : System :=
  { sys with state := ((RollupState.perform v earlier i).run.run sys.state).2 }

/-- The system after an action, whether it succeeded or not. -/
def after (sys : System) : Action → System
  | .deposit depositor token amount =>
      { sys with bridge := ((Bridge.deposit depositor token amount).run.run sys.bridge).2 }
  | .applyDeposits => { sys with bridge := sys.bridge.applyDeposits.1 }
  | .replay v earlier =>
      match sys.next? with
      | some d => sys.performed v earlier (.deposit d)
      | none => sys
  | .perform v earlier i _ => sys.performed v earlier i
  | .withdraw owner token settled =>
      match sys.state.withdrawalRequest owner token with
      | .ok r =>
          match (Bridge.withdraw settled r).run.run sys.bridge with
          | (.ok _, bridge) => ⟨bridge, ((RollupState.recordPaid r).run.run sys.state).2⟩
          | (.error _, bridge) => { sys with bridge }
      | .error _ => sys

/-- What an action hashes where a step is built: the trees that it is built from, and the
claims that it makes. -/
def preimages (sys : System) : Action → Set Bytes
  | .replay _ _ =>
      match sys.next? with
      | some d => sys.state.buildPreimages (.deposit d)
      | none => ∅
  | .perform _ _ i _ => sys.state.buildPreimages i
  | .deposit _ _ _ | .applyDeposits | .withdraw _ _ _ => ∅

/-- The system after several actions. -/
def run (sys : System) (actions : List Action) : System := actions.foldl after sys

/-- What a run hashes. -/
def runPreimages (sys : System) : List Action → Set Bytes
  | [] => ∅
  | a :: actions => sys.preimages a ∪ (sys.after a).runPreimages actions

/-! ## Solvency

What users rely on.  Custody covers every claim there is, a deposit that was applied can be
replayed, and a withdrawal that the state asks for is paid and recorded.
-/

/-- The applied deposits that were not replayed. -/
def unreplayed (sys : System) : List AccountRecord :=
  sys.bridge.applied.drop sys.state.depositsConsumed

/-- What is owed in a token: over all accounts, what they burned beyond what they were paid. -/
noncomputable def owed (sys : System) (token : Token) : Nat :=
  totalBeyond UInt64.toNat (column sys.state.ledger.burned token)
    (column sys.state.paidOut token)

/-- The system can pay. -/
structure Solvent (sys : System) : Prop where
  /-- Custody is what waits to be applied or replayed, all balances, all reserves, and what
  is owed. -/
  custody : ∀ token, (sys.bridge.custody token).toNat =
    Bridge.depositsWorth token sys.bridge.pending + Bridge.depositsWorth token sys.unreplayed +
      columnTotal sys.state.ledger.balance token +
      total (Pool.reserveOf token) sys.state.ledger.pool + sys.owed token
  /-- Nobody was paid more than was burned. -/
  withdrawn_le : ∀ owner token, ((sys.state.withdrawn owner token).getD 0).toNat ≤
    ((sys.state.burned owner token).getD 0).toNat
  /-- The rollup finds the deposits that it has to replay. -/
  fetched : sys.state.fetchDeposits sys.bridge = .ok sys.unreplayed
  /-- No replay is refused because an amount does not fit. -/
  replayed : ∀ d rest, sys.unreplayed = d :: rest → ∀ v earlier f,
    ((RollupState.perform v earlier (.deposit d)).run.run sys.state).1 = .error f →
      ∀ e, f.cause ≠ .transition (.amount e)
  /-- A request is paid if the burns of the state are settled, and else refused for that. -/
  paid : ∀ owner token r, sys.state.withdrawalRequest owner token = .ok r → ∀ settled,
    if settled.burns = sys.state.burns.root then
      ∃ bridge event, (Bridge.withdraw settled r).run.run sys.bridge = (.ok event, bridge)
    else
      (Bridge.withdraw settled r).run.run sys.bridge =
        (.error (.stateMismatch .burns), sys.bridge)
  /-- Its payment can be recorded. -/
  recorded : ∀ owner token r, sys.state.withdrawalRequest owner token = .ok r →
    ((RollupState.recordPaid r).run.run sys.state).1 = .ok ()

/-! ## Invariant

The custody equation has the pending deposits, the applied ones that are not replayed, what
circulates and what was burned on one side.  Payments are added on the side of custody, so that
no difference has to be taken.
-/

variable {sys : System} {b b' : Bridge} {s s' : RollupState} {i : Intent}

/-- The rollup has replayed the first applied deposits of the bridge. -/
structure Follows (b : Bridge) (s : RollupState) : Prop where
  linked : b.Linked
  consumed_le : s.depositsConsumed ≤ b.applied.length
  head_eq : s.depositHead = Bridge.headAfter (b.applied.take s.depositsConsumed)

namespace Follows

/-- A state that follows a bridge fetches what it has not yet replayed. -/
theorem fetchDeposits_eq (h : Follows b s) :
    s.fetchDeposits b = .ok (b.applied.drop s.depositsConsumed) := by
  rw [RollupState.fetchDeposits, h.head_eq, h.linked.checkConsumed_eq h.consumed_le]

/-- A state follows a bridge for as long as neither has applied or replayed more. -/
theorem congr (h : Follows b s) (hheads : b'.appliedHeads = b.appliedHeads)
    (happlied : b'.applied = b.applied) (hreplayed : s'.replayed = s.replayed) : Follows b' s' := by
  obtain ⟨hhead, hconsumed⟩ := Prod.mk.inj hreplayed
  refine ⟨?_, ?_, ?_⟩
  · rw [Bridge.Linked, hheads, happlied]
    exact h.linked
  · rw [happlied, hconsumed]
    exact h.consumed_le
  · rw [hhead, happlied, hconsumed]
    exact h.head_eq

theorem applyDeposits (h : Follows b s) : Follows b.applyDeposits.1 s := by
  refine ⟨h.linked.applyDeposits, ?_, ?_⟩
  · exact h.consumed_le.trans (by simp [Bridge.applyDeposits])
  · rw [h.head_eq, Bridge.applyDeposits, List.take_append_of_le_length h.consumed_le]

/-- A state that follows a bridge replays the next of its deposits. -/
theorem replay (h : Follows b s) {d : AccountRecord} {rest : List AccountRecord}
    (hd : b.applied.drop s.depositsConsumed = d :: rest)
    (hreplayed : s'.replayed = s.replayedAfter (.deposit d)) :
    Follows b s' ∧ b.applied.drop s'.depositsConsumed = rest := by
  obtain ⟨hhead, hconsumed⟩ := Prod.mk.inj hreplayed
  have hnext : b.applied[s.depositsConsumed]? = some d := by
    rw [← List.head?_drop, hd, List.head?_cons]
  refine ⟨⟨h.linked, ?_, ?_⟩, ?_⟩
  · rw [hconsumed]
    exact (List.getElem?_eq_some_iff.mp hnext).1
  · rw [hhead, hconsumed, h.head_eq, List.take_add_one, hnext, Bridge.headAfter, Bridge.headAfter,
      List.foldl_append]
    rfl
  · rw [hconsumed, ← List.tail_drop, hd, List.tail_cons]

end Follows

/-- What holds of the bridge and the rollup at all times.  Payments stand on the side of
custody, and so nothing is taken away on either. -/
structure Sound (b : Bridge) (s : RollupState) : Prop where
  state : s.Valid
  ledger : s.ledger.Sound
  paidOut : FiniteMap s.paidOut
  follows : Follows b s
  root_eq : b.withdrawalsRoot = s.withdrawals.root
  paid_le : ∀ k, ((s.paidOut k).getD 0).toNat ≤ ((s.ledger.burned k).getD 0).toNat
  balanced : ∀ token, (b.custody token).toNat + columnTotal s.paidOut token =
    Bridge.depositsWorth token b.pending +
      Bridge.depositsWorth token (b.applied.drop s.depositsConsumed) +
      s.ledger.circulating token + columnTotal s.ledger.burned token

theorem sound_initial : Sound .initial .initial where
  state := RollupState.valid_initial
  ledger := Ledger.sound_empty
  paidOut := .empty
  follows := ⟨rfl, Nat.le_refl 0, rfl⟩
  root_eq := (Tree.root_empty (withdrawalsHeight - 1)).symm
  paid_le _ := Nat.le_refl _
  balanced token := by
    have hpaid : columnTotal RollupState.initial.paidOut token = 0 := total_empty
    have hburned : columnTotal RollupState.initial.ledger.burned token = 0 := total_empty
    have hbalance : columnTotal RollupState.initial.ledger.balance token = 0 := total_empty
    have hpool : total (Pool.reserveOf token) RollupState.initial.ledger.pool = 0 := total_empty
    rw [hpaid, hburned, Ledger.circulating, hbalance, hpool]
    rfl

namespace Sound

/-! ## Preservation

Each action moves tokens from one term of the equation to another, and only a deposit and a
payment change custody.
-/

/-- A deposit leaves them sound, as custody grows with what is pending. -/
theorem deposit (h : Sound b s) {d : AccountRecord} (hb : b.Deposits d b') : Sound b' s where
  state := h.state
  ledger := h.ledger
  paidOut := h.paidOut
  follows := h.follows.congr hb.appliedHeads hb.applied rfl
  root_eq := hb.withdrawalsRoot.trans h.root_eq
  paid_le := h.paid_le
  balanced token := by
    have hbalanced := h.balanced token
    have hpending : Bridge.depositsWorth token [d] = d.amountOf token := by
      simp [Bridge.depositsWorth]
    rw [hb.custody, hb.pending, hb.applied, Bridge.depositsWorth_append, hpending]
    omega

theorem applyDeposits (h : Sound b s) : Sound b.applyDeposits.1 s where
  state := h.state
  ledger := h.ledger
  paidOut := h.paidOut
  follows := h.follows.applyDeposits
  root_eq := h.root_eq
  paid_le := h.paid_le
  -- what was pending is applied and not yet replayed, so the sum stays
  balanced token := by
    have hbalanced := h.balanced token
    have hpending : Bridge.depositsWorth token b.applyDeposits.1.pending = 0 := rfl
    have hcustody : b.applyDeposits.1.custody token = b.custody token := rfl
    have happlied : b.applyDeposits.1.applied = b.applied ++ b.pending := rfl
    rw [hpending, hcustody, happlied, List.drop_append_of_le_length h.follows.consumed_le,
      Bridge.depositsWorth_append]
    omega

/-- A refused intent changes nothing that the invariant is about. -/
theorem refused (h : Sound b s) (hs' : s'.Valid) (hext : s.Extends s') : Sound b s' := by
  -- a refused step changes slots and bindings only
  have hledger := h.state.ledger_extends hs' hext
  have hpaid : s'.paidOut = s.paidOut := by
    funext k
    rw [RollupState.paidOut, RollupState.withdrawn, hext.withdrawals]
    rfl
  exact {
    state := hs'
    ledger := hledger ▸ h.ledger
    paidOut := hpaid ▸ h.paidOut
    follows := h.follows.congr rfl rfl hext.replayed_eq
    root_eq := by rw [h.root_eq, hext.withdrawals]
    paid_le := by
      rw [hpaid, hledger]
      exact h.paid_le
    balanced := by
      rw [hpaid, hledger, hext.depositsConsumed]
      exact h.balanced }

/-- An accepted intent moves tokens in the rollup, takes them from the deposits that wait, or
adds them to what is owed. -/
theorem accepted (h : Sound b s) (hs' : s'.Valid) (happly : s.ledger.apply i = .ok s'.ledger)
    (hwithdrawals : s'.withdrawals = s.withdrawals) (hfollows : Follows b s')
    (hdeposited : ∀ token, Bridge.depositsWorth token (b.applied.drop s.depositsConsumed) =
      i.deposited token + Bridge.depositsWorth token (b.applied.drop s'.depositsConsumed)) :
    Sound b s' := by
  obtain ⟨hledger, hconserves⟩ := Ledger.apply_conserves h.ledger happly
  have hpaid : s'.paidOut = s.paidOut := by
    funext k
    rw [RollupState.paidOut, RollupState.withdrawn, hwithdrawals]
    rfl
  exact {
    state := hs'
    ledger := hledger
    paidOut := hpaid ▸ h.paidOut
    follows := hfollows
    root_eq := by rw [h.root_eq, hwithdrawals]
    paid_le := fun k => by
      rw [hpaid]
      exact (h.paid_le k).trans (Ledger.burned_le_of_apply happly k)
    -- what was deposited came out of the unreplayed deposits
    balanced := fun token => by
      obtain ⟨hcirculating, hburned⟩ := hconserves token
      have hbalanced := h.balanced token
      have hworth := hdeposited token
      rw [hpaid]
      omega }

/-- A user's intent leaves the deposits that wait as they are. -/
theorem perform (h : Sound b s) (huser : ∀ d, i ≠ .deposit d)
    (hc : CollisionFree (s.buildPreimages i)) (v : Verifiers) (earlier : Option Proof) :
    Sound b ((RollupState.perform v earlier i).run.run s).2 := by
  cases hrun : (RollupState.perform v earlier i).run.run s with
  | mk r s' =>
      cases h.state.perform_spec hc hrun with
      | refused hs' hext => exact h.refused hs' hext
      | accepted hs' happly hwithdrawals hreplayed =>
          -- an intent that is no deposit leaves the deposits as they are
          have hsame : s.replayedAfter i = s.replayed := by
            cases i with
            | deposit d => exact absurd rfl (huser d)
            | _ => rfl
          have hnone (token : Token) : i.deposited token = 0 := by
            cases i with
            | deposit d => exact absurd rfl (huser d)
            | _ => rfl
          rw [hsame] at hreplayed
          refine h.accepted hs' happly hwithdrawals (h.follows.congr rfl rfl hreplayed)
            fun token => ?_
          rw [hnone, Nat.zero_add, show s'.depositsConsumed = _ from (Prod.mk.inj hreplayed).2]

/-- A deposit that is replayed does not wait any more. -/
theorem replay (h : Sound b s) {d : AccountRecord} {rest : List AccountRecord}
    (hd : b.applied.drop s.depositsConsumed = d :: rest)
    (hc : CollisionFree (s.buildPreimages (.deposit d))) (v : Verifiers)
    (earlier : Option Proof) :
    Sound b ((RollupState.perform v earlier (.deposit d)).run.run s).2 := by
  cases hrun : (RollupState.perform v earlier (.deposit d)).run.run s with
  | mk r s' =>
      cases h.state.perform_spec hc hrun with
      | refused hs' hext => exact h.refused hs' hext
      | accepted hs' happly hwithdrawals hreplayed =>
          obtain ⟨hfollows, hrest⟩ := h.follows.replay hd hreplayed
          refine h.accepted hs' happly hwithdrawals hfollows fun token => ?_
          rw [hd, hrest, Bridge.depositsWorth_cons]
          rfl

/-! ## Consequences

The custody of a token is a number of 64 bits, and every amount is part of it.  So no credit
overflows, and no payment is refused for want of custody.
-/

theorem totalBeyond_add (h : Sound b s) (token : Token) :
    totalBeyond UInt64.toNat (column s.ledger.burned token) (column s.paidOut token) +
      columnTotal s.paidOut token = columnTotal s.ledger.burned token := by
  refine totalBeyond_add_total (h.ledger.burned.column token) (h.paidOut.column token)
    fun owner => ?_
  rw [elim_column, elim_column]
  exact h.paid_le (owner, token)

/-- Custody covers all that is pending, unreplayed or in circulation, and what may still be paid. -/
theorem custody_eq (h : Sound b s) (token : Token) : (b.custody token).toNat =
    Bridge.depositsWorth token b.pending +
      Bridge.depositsWorth token (b.applied.drop s.depositsConsumed) +
      s.ledger.circulating token +
      totalBeyond UInt64.toNat (column s.ledger.burned token) (column s.paidOut token) := by
  have hbalanced := h.balanced token
  have howed := h.totalBeyond_add token
  omega

/-- Custody covers what an account has and a deposit that it is to be credited with. -/
theorem credit_eq_ok (h : Sound b s) {d : AccountRecord} {rest : List AccountRecord}
    (hd : b.applied.drop s.depositsConsumed = d :: rest) :
    ∃ after, credit (s.balance d.account d.token) d.amount = .ok after := by
  have hcustody := h.custody_eq d.token
  have hfits := (b.custody d.token).toNat_lt
  have hbalance := le_total (h.ledger.balance.column d.token) UInt64.toNat d.account
  rw [elim_column] at hbalance
  rw [hd, Bridge.depositsWorth_cons, AccountRecord.amountOf, worth, if_pos rfl] at hcustody
  change ((s.balance d.account d.token).getD 0).toNat ≤ _ at hbalance
  rw [Ledger.circulating, columnTotal] at hcustody
  exact credit_of_lt (by omega)

/-- Custody covers what an account is owed. -/
theorem backed (h : Sound b s) {index : Nat} {r : WithdrawRequest} (hr : s.Requests index r) :
    b.Backed r := by
  have hle := h.paid_le (r.withdrawer, r.token)
  have howed := le_totalBeyond (h.ledger.burned.column r.token) UInt64.toNat
    (column s.paidOut r.token) r.withdrawer
  have hcustody := h.custody_eq r.token
  have hburned : s.ledger.burned (r.withdrawer, r.token) = some r.totalBurned := hr.totalBurned
  have hpaid : s.paidOut (r.withdrawer, r.token) = r.totalWithdrawn := hr.totalWithdrawn
  rw [elim_column, elim_column, hburned, hpaid, Option.getD_some] at howed
  rw [hburned, hpaid, Option.getD_some] at hle
  exact hr.backed h.state h.root_eq hle (by omega)

/-- What is sound is solvent. -/
theorem solvent (h : Sound sys.bridge sys.state) : sys.Solvent where
  custody token := by
    rw [h.custody_eq token, Ledger.circulating, unreplayed, owed]
    omega
  withdrawn_le owner token := h.paid_le (owner, token)
  fetched := h.follows.fetchDeposits_eq
  -- the credit fits because all deposits together do
  replayed d rest hd v earlier f hrun e he := by
    obtain ⟨after, hcredit⟩ := h.credit_eq_ok hd
    rcases h.state.perform_deposit_cause hcredit hrun with ⟨e', he'⟩ | ⟨e', hearlier, he'⟩
    · rw [he] at he'
      contradiction
    · obtain rfl := Cause.transition.inj (he'.symm.trans he)
      simp at hearlier
  paid owner token r hr settled := by
    obtain ⟨-, -, index, hrequest⟩ := h.state.withdrawalRequest_spec hr
    rw [(h.backed hrequest).withdraw_eq settled, hrequest.burns_root h.state]
    split
    · next hsettled => exact ⟨_, _, if_pos hsettled.symm⟩
    · next hsettled => exact if_neg (Ne.symm hsettled)
  recorded owner token r hr := by
    obtain ⟨-, -, index, hrequest⟩ := h.state.withdrawalRequest_spec hr
    obtain ⟨s', hrecorded, -⟩ := hrequest.recordPaid_spec h.state
    rw [hrecorded]

/-- A payment settles what an account is owed. -/
theorem pay (h : Sound b s) {index : Nat} {r : WithdrawRequest} (hr : s.Requests index r) :
    Sound (b.paid r) ((RollupState.recordPaid r).run.run s).2 := by
  obtain ⟨s', hrecorded, hkeeps, hroot, hpaid⟩ := hr.recordPaid_spec h.state
  have hburned : s.ledger.burned (r.withdrawer, r.token) = some r.totalBurned := hr.totalBurned
  have hprior : s.paidOut (r.withdrawer, r.token) = r.totalWithdrawn := hr.totalWithdrawn
  rw [hrecorded]
  exact {
    state := hkeeps.valid
    ledger := hkeeps.ledger ▸ h.ledger
    paidOut := hpaid ▸ h.paidOut.update _ _
    follows := h.follows.congr rfl rfl (Prod.ext hkeeps.depositHead hkeeps.depositsConsumed)
    root_eq := hroot.symm
    paid_le := fun k => by
      rw [hpaid, hkeeps.ledger, Function.update_apply]
      split
      · next hk => rw [hk, hburned]
      · exact h.paid_le k
    -- custody falls by what the withdrawn column grows by
    balanced := fun token => by
      have hbalanced := h.balanced token
      have hcustody := (h.backed hr).custody_paid token
      have htotal := columnTotal_update h.paidOut r.withdrawer r.token r.totalBurned token
      have hpending : (b.paid r).pending = b.pending := rfl
      have happlied : (b.paid r).applied = b.applied := rfl
      rw [hprior] at htotal
      rw [hpaid, hkeeps.ledger, hkeeps.depositsConsumed, hpending, happlied]
      omega }

end Sound

/-! ## Runs -/

/-- Every action preserves the invariant. -/
theorem sound_after (h : Sound sys.bridge sys.state) (a : Action)
    (hc : CollisionFree (sys.preimages a)) : Sound (sys.after a).bridge (sys.after a).state := by
  -- one case an action; the bridge and the state each change in at most one of them, but for
  -- payments
  cases a with
  | deposit depositor token amount =>
      rw [after]
      rcases hdeposit : (Bridge.deposit depositor token amount).run.run sys.bridge with
        ⟨e | event, bridge⟩
      · exact Bridge.deposit_refused hdeposit ▸ h
      · exact h.deposit (Bridge.deposit_spec hdeposit)
  | applyDeposits => exact h.applyDeposits
  | replay v earlier =>
      rw [preimages] at hc
      rw [after]
      split
      · next d hd =>
          rw [hd] at hc
          rw [next?, h.follows.fetchDeposits_eq] at hd
          obtain ⟨rest, hrest⟩ := List.head?_eq_some_iff.mp hd
          exact h.replay hrest hc v earlier
      · exact h
  | perform v earlier i huser => exact h.perform huser hc v earlier
  | withdraw owner token settled =>
      rw [after]
      split
      · next r hr =>
          obtain ⟨-, -, index, hrequest⟩ := h.state.withdrawalRequest_spec hr
          rcases hpaid : (Bridge.withdraw settled r).run.run sys.bridge with ⟨e | event, bridge⟩
          · exact Bridge.withdraw_refused hpaid ▸ h
          · rw [(h.backed hrequest).withdraw_eq settled] at hpaid
            split at hpaid
            · obtain ⟨-, rfl⟩ := Prod.mk.inj hpaid
              exact h.pay hrequest
            · exact nomatch congrArg Prod.fst hpaid
      · exact h

/-- Every run from a sound system is sound throughout. -/
theorem sound_run (h : Sound sys.bridge sys.state) (actions : List Action)
    (hc : CollisionFree (sys.runPreimages actions)) :
    Sound (sys.run actions).bridge (sys.run actions).state := by
  induction actions generalizing sys with
  | nil => exact h
  | cons a actions ih =>
      exact ih (sound_after h a (hc.mono Set.subset_union_left)) (hc.mono Set.subset_union_right)

/-- **Solvency.**  Whatever has happened to the bridge and the rollup, in whatever order, the
system can pay. -/
theorem run_solvent (actions : List Action) (hc : CollisionFree (initial.runPreimages actions)) :
    (initial.run actions).Solvent :=
  (sound_run sound_initial actions hc).solvent

/-- A first deposit that is applied and replayed. -/
def firstActions : List Action :=
  [.deposit firstRecord.account firstRecord.token firstRecord.amount, .applyDeposits,
    .replay .trusting (some (.start initial.state.roots))]

theorem run_solvent_firstDeposit :
    CollisionFree (initial.runPreimages firstActions) ∧ (initial.run firstActions).Solvent ∧
      (initial.run firstActions).bridge.custody firstRecord.token = firstRecord.amount := by
  have hc : CollisionFree (initial.runPreimages firstActions) := by
    refine Records.collisionFree_empty.mono ?_
    rintro bytes (hb | hb | hb | hb)
    · contradiction
    · contradiction
    · exact RollupState.valid_initial.buildPreimages_deposit firstRecord hb
    · contradiction
  exact ⟨hc, run_solvent firstActions hc, rfl⟩

end System

end AmmRollup
