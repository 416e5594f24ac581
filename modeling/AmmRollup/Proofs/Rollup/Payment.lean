import AmmRollup.Proofs.Bridge
import AmmRollup.Proofs.Rollup.Build

/-!
# AmmRollup.Proofs.Rollup.Payment

Requests for what was burned.  A request that the state makes carries the witnesses of one
leaf in the trees of burns and withdrawals, and the totals that stand there; a bridge that
keeps the same root of withdrawals finds it in order (`RollupState.Requests.backed`).
Recording its payment succeeds, and leads to the root that the bridge computes
(`RollupState.Requests.recordPaid_spec`).
-/

namespace AmmRollup

namespace RollupState

variable {s s' : RollupState} {r : WithdrawRequest} {owner : Address} {token : Token}

/-- What accounts were paid, by their keys. -/
def paidOut (s : RollupState) (k : Address × Token) : Option Amount := s.withdrawn k.1 k.2

/-- The record at the leaf of a key's burns in the tree of withdrawals is the key's own. -/
theorem Valid.withdrawals_record (h : s.Valid) {key : Address × Token} {index : Nat}
    (hfind : s.burns.find? key = some index) :
    s.withdrawals.records.get? index = s.withdrawals.get? key := by
  cases hbound : s.withdrawals.find? key with
  | some i =>
      obtain rfl := Option.some.inj ((h.aligned _ _ hbound).symm.trans hfind)
      exact (Table.get?_eq hbound).symm
  | none =>
      rw [Table.get?, hbound, Option.bind_none]
      cases hrecord : s.withdrawals.records.get? index with
      | none => rfl
      | some r =>
          have hkeyed := h.withdrawals.keyed index r hrecord
          rw [h.burns.key_unique (h.aligned _ _ hkeyed) hfind, hbound] at hkeyed
          contradiction

/-- A request for what an account burned, at the leaf of its burns. -/
structure Requests (s : RollupState) (index : Nat) (r : WithdrawRequest) : Prop where
  find : s.burns.find? (r.withdrawer, r.token) = some index
  burnWitness : r.burnWitness = ⟨s.burns.tree.path index⟩
  withdrawalWitness : r.withdrawalWitness = ⟨s.withdrawals.tree.path index⟩
  totalWithdrawn : s.withdrawn r.withdrawer r.token = r.totalWithdrawn
  totalBurned : s.burned r.withdrawer r.token = some r.totalBurned

/-- A request names its account and token, and opens burns and withdrawals at one leaf. -/
theorem Valid.withdrawalRequest_spec (h : s.Valid)
    (hr : s.withdrawalRequest owner token = .ok r) :
    r.withdrawer = owner ∧ r.token = token ∧ ∃ index, s.Requests index r := by
  rw [withdrawalRequest] at hr
  split at hr
  · next index total hfind hburned =>
      have hi : index < 2 ^ (withdrawalsHeight - 1) := h.burns.bound _ _ hfind
      have hwitness : s.withdrawals.witness index = .ok ⟨s.withdrawals.tree.path index⟩ := by
        rw [Table.witness, Tree.witness_eq_ok hi]
        rfl
      rw [h.burns.witness_eq_ok hfind, hwitness] at hr
      obtain rfl := Except.ok.inj hr
      exact ⟨rfl, rfl, index, hfind, rfl, rfl, rfl, hburned⟩
  · contradiction

namespace Requests

variable {index : Nat}

/-- The burns that a request claims are those of the state it was made on. -/
theorem burns_root (h : s.Valid) (hr : s.Requests index r) :
    r.burnWitness.root (Bridge.burnedLeaf r) = s.burns.root := by
  have hrecord : s.burns.records.get? index = some ⟨r.withdrawer, r.token, r.totalBurned⟩ := by
    obtain ⟨record, hget, hamount⟩ := Option.map_eq_some_iff.mp hr.totalBurned
    have hkey := h.burns.keyOf_eq hget
    rw [Table.get?_eq hr.find] at hget
    obtain ⟨account, token, amount⟩ := record
    simp only [AccountRecord.key, Prod.mk.injEq] at hkey hamount
    rw [hget, hkey.1, hkey.2, hamount]
  rw [hr.burnWitness, ← h.burns.root_path (h.burns.bound _ _ hr.find), hrecord]
  rfl

/-- The total that a request claims to have been paid is the recorded one. -/
theorem withdrawals_root (h : s.Valid) (hr : s.Requests index r) :
    r.withdrawalWitness.root (Bridge.withdrawalLeaf r) = s.withdrawals.root := by
  have hrecord : r.totalWithdrawn.map (AccountRecord.mk r.withdrawer r.token) =
      s.withdrawals.records.get? index := by
    rw [h.withdrawals_record hr.find, ← hr.totalWithdrawn, withdrawn]
    cases hget : s.withdrawals.get? (r.withdrawer, r.token) with
    | none => rfl
    | some record =>
        have hkey := h.withdrawals.keyOf_eq hget
        obtain ⟨account, token, amount⟩ := record
        simp only [AccountRecord.key, Prod.mk.injEq] at hkey
        rw [← hkey.1, ← hkey.2]
        rfl
  rw [Bridge.withdrawalLeaf, hrecord, hr.withdrawalWitness]
  exact h.withdrawals.root_path (h.burns.bound _ _ hr.find)

/-- A bridge that agrees on what was paid, and holds what is left to pay, finds a request in
order. -/
theorem backed (h : s.Valid) (hr : s.Requests index r) {b : Bridge}
    (hroot : b.withdrawalsRoot = s.withdrawals.root)
    (hle : (r.totalWithdrawn.getD 0).toNat ≤ r.totalBurned.toNat)
    (hcovered : r.totalBurned.toNat ≤
      (b.custody r.token).toNat + (r.totalWithdrawn.getD 0).toNat) : b.Backed r := by
  have hi := h.burns.bound _ _ hr.find
  have hburns := h.burns.stores.tree_over
  have hwithdrawals := h.withdrawals.stores.tree_over
  refine ⟨?_, ?_, ?_, hle, (hr.withdrawals_root h).trans hroot.symm, hcovered⟩
  · rw [hr.burnWitness, Witness.checkHeight, Witness.height, hburns.length_path hi]
    rfl
  · rw [hr.withdrawalWitness, Witness.checkHeight, Witness.height, hwithdrawals.length_path hi]
    rfl
  · rw [hr.burnWitness, hr.withdrawalWitness, Witness.index, Witness.index, pathIndex, pathIndex,
      hburns.pathPosition_path hi, hwithdrawals.pathPosition_path hi]

/-- Recording the payment of a request succeeds, raises what was paid to what was burned, and
leads to the root that the bridge computes. -/
theorem recordPaid_spec (h : s.Valid) (hr : s.Requests index r) :
    ∃ s', (recordPaid r).run.run s = (.ok (), s') ∧ s.KeepsLedger s' ∧
      s'.withdrawals.root = r.withdrawalWitness.root (Bridge.burnedLeaf r) ∧
      s'.paidOut = Function.update s.paidOut (r.withdrawer, r.token) (some r.totalBurned) := by
  obtain ⟨withdrawals, hrecord, hwrite⟩ := h.recordWithdrawal_of_bound hr.find r.totalBurned
  have hkeeps := h.recordWithdrawal_spec r.withdrawer r.token r.totalBurned
  rw [hrecord] at hkeeps
  obtain ⟨-, -, -, -, -, -, -, hget⟩ :=
    h.withdrawals.write_spec (r := ⟨r.withdrawer, r.token, r.totalBurned⟩) hwrite
  refine ⟨{ s with withdrawals }, ?_, hkeeps, ?_, ?_⟩
  · rw [recordPaid, run_get, hrecord]
    rfl
  · rw [hr.withdrawalWitness]
    exact (h.withdrawals.root_write (r := ⟨r.withdrawer, r.token, r.totalBurned⟩) hwrite).symm
  · change Option.map AccountRecord.amount ∘ withdrawals.get? = _
    rw [hget, Function.comp_update]
    rfl

end Requests

end RollupState

end AmmRollup
