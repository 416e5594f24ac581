import AmmRollup.Bridge
import AmmRollup.Proofs.Pool.Exchange

/-!
# AmmRollup.Proofs.Bridge

What the calls of the bridge do to its custody and to its chain of deposits.  A deposit
adds to custody what it records (`Bridge.deposit_spec`); applying deposits moves them
behind the applied ones, with their heads (`Bridge.Linked`); and a request that is in
order is paid against the settled burns, whatever else was settled
(`Bridge.Backed.withdraw_eq`).

Calls work in place, so each has a lemma that says what it answers and what it leaves
(`Bridge.run_deposit`, `Bridge.run_withdraw`).  As they check before they write, a refused
one leaves the bridge as it was (`Bridge.deposit_refused`, `Bridge.withdraw_refused`).
-/

namespace AmmRollup

namespace Bridge

variable {b b' : Bridge} {token : Token} {event : BridgeEvent}

/-! ## The chain of deposits

The bridge keeps a head for every number of applied deposits.  `Bridge.Linked` says that these
are the heads of its chain, so a rollup that has replayed some of the deposits, and no others,
passes the check.
-/

/-- The head of the chain of some deposits. -/
def headAfter (deposits : List AccountRecord) : Bytes32 := deposits.foldl nextDepositHead emptyLeaf

theorem headsFrom_append (head : Bytes32) (deposits more : List AccountRecord) :
    headsFrom head (deposits ++ more) =
      headsFrom head deposits ++ headsFrom (deposits.foldl nextDepositHead head) more := by
  induction deposits generalizing head with
  | nil => rfl
  | cons d deposits ih =>
      simp only [List.cons_append, headsFrom, List.foldl_cons, ih]

theorem length_headsFrom (head : Bytes32) (deposits : List AccountRecord) :
    (headsFrom head deposits).length = deposits.length := by
  induction deposits generalizing head with
  | nil => rfl
  | cons d deposits ih => exact congrArg (· + 1) (ih (nextDepositHead head d))

/-- The head after so many deposits is that of the first ones. -/
theorem getElem?_headsFrom (head : Bytes32) {deposits : List AccountRecord} {n : Nat}
    (h : n < deposits.length) :
    (headsFrom head deposits)[n]? = some ((deposits.take (n + 1)).foldl nextDepositHead head) := by
  induction deposits generalizing head n with
  | nil => contradiction
  | cons d deposits ih =>
      cases n with
      | zero => rfl
      | succ n => exact ih (nextDepositHead head d) (Nat.lt_of_succ_lt_succ h)

/-- The last head is that of all the deposits. -/
theorem getLastD_headsFrom (head : Bytes32) (deposits : List AccountRecord) :
    (headsFrom head deposits).getLastD head = deposits.foldl nextDepositHead head := by
  induction deposits generalizing head with
  | nil => rfl
  | cons d deposits ih => exact List.getLastD_cons.trans (ih (nextDepositHead head d))

/-- The heads that the bridge keeps are those of its applied deposits. -/
def Linked (b : Bridge) : Prop := b.appliedHeads = headsFrom emptyLeaf b.applied

/-- A linked bridge keeps the head after each number of applied deposits. -/
theorem Linked.headAt_eq (h : b.Linked) {n : Nat} (hn : n ≤ b.applied.length) :
    b.headAt n = some (headAfter (b.applied.take n)) := by
  cases n with
  | zero => rfl
  | succ n => rw [headAt, h, getElem?_headsFrom _ hn, headAfter]

theorem Linked.depositHead_eq (h : b.Linked) : b.depositHead = headAfter b.applied := by
  rw [depositHead, h.headAt_eq (Nat.le_refl _), List.take_length, Option.getD_some]

/-- There is a head for each number of applied deposits, and no other. -/
theorem linked_iff : b.Linked ↔ ∀ n, b.headAt n =
    if n ≤ b.applied.length then some (headAfter (b.applied.take n)) else none := by
  constructor
  -- beyond the applied deposits there is no head
  · intro h n
    split
    · next hn => exact h.headAt_eq hn
    · next hn =>
        obtain _ | n := n
        · exact absurd (Nat.zero_le _) hn
        rw [headAt, h]
        exact List.getElem?_eq_none (length_headsFrom _ _ ▸ Nat.le_of_not_lt hn)
  · intro h
    refine List.ext_getElem? fun n => (h (n + 1)).trans ?_
    split
    · next hn => exact (getElem?_headsFrom _ hn).symm
    · next hn =>
        exact (List.getElem?_eq_none (length_headsFrom _ _ ▸ Nat.le_of_not_lt hn)).symm

/-- A rollup that has replayed the first applied deposits passes the check. -/
theorem Linked.checkConsumed_eq (h : b.Linked) {n : Nat} (hn : n ≤ b.applied.length) :
    b.checkConsumed n (headAfter (b.applied.take n)) = .ok () := by
  rw [checkConsumed, h.headAt_eq hn]
  exact if_pos rfl

theorem Linked.applyDeposits (h : b.Linked) : b.applyDeposits.1.Linked := by
  have hhead : b.applied.foldl nextDepositHead emptyLeaf = b.depositHead :=
    h.depositHead_eq.symm
  have happlied : b.appliedHeads = headsFrom emptyLeaf b.applied := h
  rw [Linked, Bridge.applyDeposits, headsFrom_append, hhead, happlied]

/-! ## Custody

A deposit is refused when custody has no room for it, and before anything is written.  Otherwise
it waits, and custody grows.
-/

/-- What some deposits count in a token. -/
def depositsWorth (token : Token) (deposits : List AccountRecord) : Nat :=
  (deposits.map (AccountRecord.amountOf token)).sum

@[simp] theorem depositsWorth_append (token : Token) (deposits more : List AccountRecord) :
    depositsWorth token (deposits ++ more) =
      depositsWorth token deposits + depositsWorth token more := by
  simp [depositsWorth]

theorem depositsWorth_cons (token : Token) (d : AccountRecord) (deposits : List AccountRecord) :
    depositsWorth token (d :: deposits) = d.amountOf token + depositsWorth token deposits :=
  List.sum_cons

/-- Setting what is held of one token. -/
theorem custody_insert {of : Token} {amount : Amount} (h : b'.held = b.held.insert of amount)
    (token : Token) : b'.custody token = if token = of then amount else b.custody token := by
  rw [custody, h, FinMap.get?_insert]
  split <;> rfl

/-- A deposit that is taken waits to be applied, and custody grows by it. -/
structure Deposits (b : Bridge) (d : AccountRecord) (b' : Bridge) : Prop where
  pending : b'.pending = b.pending ++ [d]
  applied : b'.applied = b.applied
  appliedHeads : b'.appliedHeads = b.appliedHeads
  recordedHead : b'.recordedHead = nextDepositHead b.recordedHead d
  withdrawalsRoot : b'.withdrawalsRoot = b.withdrawalsRoot
  custody : ∀ token, (b'.custody token).toNat = (b.custody token).toNat + d.amountOf token
  events : b'.events = b.events ++ [.depositRecorded d b'.recordedHead]

/-- What a deposit answers and leaves.  It is refused if custody has no room for it, before
anything is written. -/
theorem run_deposit (b : Bridge) (depositor : Address) (token : Token) (amount : Amount) :
    (deposit depositor token amount).run.run b =
      if 1 <<< 64 ≤ (b.custody token).toNat + amount.toNat then (.error .overflow, b)
      else
        let d : AccountRecord := ⟨depositor, token, amount⟩
        let event := BridgeEvent.depositRecorded d (nextDepositHead b.recordedHead d)
        (.ok event,
          { b with
            held := b.held.insert token (UInt64.ofNat ((b.custody token).toNat + amount.toNat))
            recordedHead := nextDepositHead b.recordedHead d
            pending := b.pending ++ [d]
            events := b.events ++ [event] }) := by
  rw [deposit, run_get]
  dsimp only
  split <;> rfl

/-- A deposit is recorded, and its amount taken into custody. -/
theorem deposit_spec {depositor : Address} {amount : Amount}
    (h : (deposit depositor token amount).run.run b = (.ok event, b')) :
    b.Deposits ⟨depositor, token, amount⟩ b' := by
  rw [run_deposit] at h
  split at h
  · exact nomatch congrArg Prod.fst h
  · next hfits =>
      obtain ⟨-, rfl⟩ := Prod.mk.inj h
      rw [Nat.one_shiftLeft, Nat.not_le] at hfits
      refine ⟨rfl, rfl, rfl, rfl, rfl, fun of => ?_, rfl⟩
      rw [custody_insert rfl, AccountRecord.amountOf, worth]
      by_cases heq : of = token
      · subst heq
        rw [if_pos rfl, if_pos rfl, UInt64.toNat_ofNat', Nat.mod_eq_of_lt hfits]
      · rw [if_neg heq, if_neg (Ne.symm heq), Nat.add_zero]

/-- A deposit that is refused leaves the bridge as it was. -/
theorem deposit_refused {depositor : Address} {amount : Amount} {e : BridgeError}
    (h : (deposit depositor token amount).run.run b = (.error e, b')) : b' = b := by
  rw [run_deposit] at h
  split at h
  · exact (congrArg Prod.snd h).symm
  · exact nomatch congrArg Prod.fst h

/-! ## Payments

A request is judged by its two witnesses and by custody, and everything is checked before
anything is written.  `Bridge.Backed` collects what must be so apart from the burns, on which the
settled root decides.
-/

/-- The bridge after it has paid a request. -/
def paid (b : Bridge) (r : WithdrawRequest) : Bridge :=
  let amount := r.totalBurned - r.totalWithdrawn.getD 0
  { b with
    withdrawalsRoot := r.withdrawalWitness.root (burnedLeaf r)
    held := b.held.insert r.token (b.custody r.token - amount)
    events := b.events ++ [.withdrawn r.withdrawer r.token amount r.totalBurned] }

/-- What a request answers and leaves.  It is refused if it is not in order, or if custody does
not cover what it is worth, before anything is written. -/
theorem run_withdraw (b : Bridge) (settled : StateRoots) (r : WithdrawRequest) :
    (withdraw settled r).run.run b = match b.payable settled r with
      | .error e => (.error e, b)
      | .ok amount =>
          if b.custody r.token < amount then
            (.error (.insufficientCustody amount (b.custody r.token)), b)
          else
            let event := BridgeEvent.withdrawn r.withdrawer r.token amount r.totalBurned
            (.ok event,
              { b with
                withdrawalsRoot := r.withdrawalWitness.root (burnedLeaf r)
                held := b.held.insert r.token (b.custody r.token - amount)
                events := b.events ++ [event] }) := by
  rw [withdraw, run_get, run_ofExcept]
  cases b.payable settled r with
  | error e => rfl
  | ok amount =>
      simp only [run_get]
      split <;> rfl

/-- A request that is refused leaves the bridge as it was, with the root of withdrawals. -/
theorem withdraw_refused {settled : StateRoots} {r : WithdrawRequest} {e : BridgeError}
    (h : (withdraw settled r).run.run b = (.error e, b')) : b' = b := by
  rw [run_withdraw] at h
  split at h
  · exact (congrArg Prod.snd h).symm
  · split at h
    · exact (congrArg Prod.snd h).symm
    · exact nomatch congrArg Prod.fst h

/-- A request that is in order, but for the burns that it is settled against. -/
structure Backed (b : Bridge) (r : WithdrawRequest) : Prop where
  burnFits : r.burnWitness.checkHeight burnsHeight = .ok ()
  withdrawalFits : r.withdrawalWitness.checkHeight withdrawalsHeight = .ok ()
  sameLeaf : r.burnWitness.index = r.withdrawalWitness.index
  withdrawn_le : (r.totalWithdrawn.getD 0).toNat ≤ r.totalBurned.toNat
  unpaid : r.withdrawalWitness.root (withdrawalLeaf r) = b.withdrawalsRoot
  covered : r.totalBurned.toNat ≤ (b.custody r.token).toNat + (r.totalWithdrawn.getD 0).toNat

namespace Backed

variable {r : WithdrawRequest}

theorem toNat_amount (h : b.Backed r) : (r.totalBurned - r.totalWithdrawn.getD 0).toNat =
    r.totalBurned.toNat - (r.totalWithdrawn.getD 0).toNat :=
  UInt64.toNat_sub_of_le _ _ (UInt64.le_iff_toNat_le.mpr h.withdrawn_le)

/-- Of all checks it can fail that of the burns alone. -/
theorem payable_eq (h : b.Backed r) (settled : StateRoots) :
    b.payable settled r =
      if r.burnWitness.root (burnedLeaf r) = settled.burns then
        .ok (r.totalBurned - r.totalWithdrawn.getD 0)
      else .error (.stateMismatch .burns) := by
  have hpaid : ¬ r.totalBurned < r.totalWithdrawn.getD 0 := by
    rw [UInt64.lt_iff_toNat_lt]
    exact Nat.not_lt.mpr h.withdrawn_le
  simp only [payable, h.burnFits, h.withdrawalFits, h.sameLeaf, h.unpaid, hpaid, ne_eq,
    not_true_eq_false, if_false]
  by_cases hsettled : r.burnWitness.root (burnedLeaf r) = settled.burns
  · simp only [hsettled, not_true_eq_false, if_false, if_true]
    rfl
  · simp only [hsettled, not_false_eq_true, if_true, if_false]
    rfl

/-- A backed withdrawal is paid if its burns are settled, and refused for them otherwise. -/
theorem withdraw_eq (h : b.Backed r) (settled : StateRoots) :
    (withdraw settled r).run.run b =
      if r.burnWitness.root (burnedLeaf r) = settled.burns then
        (.ok (.withdrawn r.withdrawer r.token (r.totalBurned - r.totalWithdrawn.getD 0)
          r.totalBurned), b.paid r)
      else (.error (.stateMismatch .burns), b) := by
  have hcovered : ¬ b.custody r.token < r.totalBurned - r.totalWithdrawn.getD 0 := by
    have := h.covered
    rw [UInt64.lt_iff_toNat_lt, h.toNat_amount]
    omega
  rw [run_withdraw, h.payable_eq]
  by_cases hsettled : r.burnWitness.root (burnedLeaf r) = settled.burns
  · rw [if_pos hsettled, if_pos hsettled]
    exact if_neg hcovered
  · rw [if_neg hsettled, if_neg hsettled]

/-- What it is paid is taken out of custody. -/
theorem custody_paid (h : b.Backed r) (token : Token) :
    ((b.paid r).custody token).toNat + worth token r.token r.totalBurned =
      (b.custody token).toNat + worth token r.token (r.totalWithdrawn.getD 0) := by
  have hcovered := h.covered
  have hle := h.withdrawn_le
  have hamount := h.toNat_amount
  rw [custody_insert rfl, worth, worth]
  by_cases heq : token = r.token
  · subst heq
    have hfits : (r.totalBurned - r.totalWithdrawn.getD 0).toNat ≤ (b.custody r.token).toNat := by
      omega
    have hsub := UInt64.toNat_sub_of_le _ _ (UInt64.le_iff_toNat_le.mpr hfits)
    rw [if_pos rfl, if_pos rfl, if_pos rfl, hsub]
    omega
  · rw [if_neg heq, if_neg (Ne.symm heq), if_neg (Ne.symm heq)]

end Backed

end Bridge

end AmmRollup
