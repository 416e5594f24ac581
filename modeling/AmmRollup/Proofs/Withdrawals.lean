import AmmRollup.Proofs.Bridge
import AmmRollup.Proofs.Transition.Burns

/-!
# AmmRollup.Proofs.Withdrawals

No double withdrawal.  Requests are arbitrary: whoever makes one chooses its witnesses, the
totals it claims and the settled roots it is made against, and of what was paid the bridge
keeps a root alone.  If digests do not collide, that root is nevertheless the root of a
tree that has, behind each leaf, what was paid there (`Accounted`), and an accepted request
claims just that; so it is paid what its burn leaf has on top and no more
(`Bridge.withdrawEach_accounted`).
-/

namespace AmmRollup

/-! ## One request

A request carries a witness of the burns tree and one of the tree of withdrawals, at one leaf,
with the totals that it claims of both.  What passes the checks of the bridge is read off them
once.
-/

namespace WithdrawRequest

/-- The index of the leaf that a request is about. -/
def leafIndex (r : WithdrawRequest) : Nat := r.burnWitness.index.toNat

/-- The record that a request claims of burns, and that it leaves in withdrawals. -/
def burned (r : WithdrawRequest) : AccountRecord := ⟨r.withdrawer, r.token, r.totalBurned⟩

/-- What a request claims of the burns tree. -/
def burnOpening (r : WithdrawRequest) : Opening AccountRecord :=
  .single r.burnWitness (some r.burned)

/-- The record that a request claims of withdrawals. -/
def prior? (r : WithdrawRequest) : Option AccountRecord :=
  accountRecord? r.withdrawer r.token r.totalWithdrawn

theorem elim_prior? (r : WithdrawRequest) :
    r.prior?.elim 0 (·.amount.toNat) = (r.totalWithdrawn.getD 0).toNat := by
  rw [prior?, accountRecord?]
  cases r.totalWithdrawn <;> rfl

/-- What a request claims of the tree of withdrawals. -/
def withdrawalOpening (r : WithdrawRequest) : Opening AccountRecord :=
  .single r.withdrawalWitness r.prior?

end WithdrawRequest

namespace Bridge

variable {b b' : Bridge} {settled : StateRoots} {r : WithdrawRequest} {event : BridgeEvent}

/-- A request that is accepted is in order, and its burns are settled. -/
theorem withdraw_spec (h : (withdraw settled r).run.run b = (.ok event, b')) :
    b.Backed r ∧ r.burnWitness.root (burnedLeaf r) = settled.burns ∧ b' = b.paid r ∧
      event = .withdrawn r.withdrawer r.token (r.totalBurned - r.totalWithdrawn.getD 0)
        r.totalBurned := by
  rw [run_withdraw] at h
  split at h
  · exact nomatch congrArg Prod.fst h
  -- a request that is payable and covered is paid
  · next amount hpayable =>
      split at h
      · exact nomatch congrArg Prod.fst h
      · next hcovered =>
          obtain ⟨hevent, rfl⟩ := Prod.mk.inj h
          obtain rfl := Except.ok.inj hevent
          simp only [payable, bind_eq_ok_iff, mapError_eq_ok_iff, throw_bind_eq_ok_iff,
            pure_eq_ok_iff, ne_eq, not_not] at hpayable
          obtain ⟨_, hburn, _, hwithdrawal, hindex, hpaid, hsettled, hunpaid, rfl⟩ := hpayable
          have hle := UInt64.not_lt.mp hpaid
          rw [UInt64.not_lt, UInt64.le_iff_toNat_le, UInt64.toNat_sub_of_le _ _ hle] at hcovered
          exact ⟨⟨hburn, hwithdrawal, hindex, UInt64.le_iff_toNat_le.mp hle, hunpaid, by omega⟩,
            hsettled, rfl, rfl⟩

end Bridge

/-! ## Requests in turn

Requests come in any order, are accepted or refused, and may be made against any moment of the
rollup that was settled.  Only the accepted ones leave something, and the records that they leave
are told without the tree.
-/

/-- A request, with the settled roots that it is made against: those of the first steps of the
rollup, as far as burns go. -/
structure WithdrawCall where
  covered : Nat
  settled : StateRoots
  request : WithdrawRequest

/-- A request that was accepted, and what the bridge reported. -/
structure Payment where
  call : WithdrawCall
  event : BridgeEvent

namespace Payment

/-- The index of the leaf that was paid. -/
def index (p : Payment) : Nat := p.call.request.leafIndex

/-- How much was paid. -/
def amount (p : Payment) : Nat :=
  match p.event with
  | .withdrawn _ _ amount _ => amount.toNat
  | _ => 0

end Payment

/-- Requests in turn, with the payments they lead to, each on the bridge that the one before it
leaves. -/
def Bridge.withdrawEach (b : Bridge) : List WithdrawCall → Bridge × List Payment
  | [] => (b, [])
  | call :: calls =>
      match (withdraw call.settled call.request).run.run b with
      | (.ok event, next) =>
          let (last, payments) := next.withdrawEach calls
          (last, ⟨call, event⟩ :: payments)
      | (.error _, next) => next.withdrawEach calls

namespace Bridge

variable {b next : Bridge} {call : WithdrawCall} {event : BridgeEvent}

/-- A request that is paid comes first among the payments. -/
theorem withdrawEach_of_ok
    (h : (withdraw call.settled call.request).run.run b = (.ok event, next))
    (calls : List WithdrawCall) :
    b.withdrawEach (call :: calls) =
      ((next.withdrawEach calls).1, ⟨call, event⟩ :: (next.withdrawEach calls).2) := by
  rw [withdrawEach, h]

/-- A request that is refused might as well not have been made. -/
theorem withdrawEach_of_error {e : BridgeError}
    (h : (withdraw call.settled call.request).run.run b = (.error e, next))
    (calls : List WithdrawCall) :
    b.withdrawEach (call :: calls) = b.withdrawEach calls := by
  rw [withdrawEach, h, withdraw_refused h]

/-- Payments are for calls that were made. -/
theorem call_mem_of_mem_withdrawEach {calls : List WithdrawCall} {p : Payment}
    (h : p ∈ (b.withdrawEach calls).2) : p.call ∈ calls := by
  induction calls generalizing b with
  | nil => contradiction
  | cons call calls ih =>
      rcases hw : (withdraw call.settled call.request).run.run b with ⟨e | event, next⟩
      · rw [withdrawEach_of_error hw] at h
        exact List.mem_cons_of_mem _ (ih h)
      · rw [withdrawEach_of_ok hw] at h
        rcases List.mem_cons.mp h with rfl | h
        · exact List.mem_cons_self
        · exact List.mem_cons_of_mem _ (ih h)

end Bridge

/-- What was paid at a leaf. -/
def paidAt (payments : List Payment) (i : Nat) : Nat :=
  ((payments.filter fun p => p.index = i).map Payment.amount).sum

/-- The records of withdrawals after some payments. -/
def withdrawalsAfter (payments : List Payment) : Nat → Option AccountRecord :=
  writeAt (fun _ => none) (payments.map fun p => (p.index, p.call.request.burned))

/-- What accepted requests hash: the trees of withdrawals in between, and their claims. -/
def paymentPreimages (payments : List Payment) : Set Bytes :=
  { bytes | ∃ n, bytes ∈ treePreimages (withdrawalsAfter (payments.take n))
      (withdrawalsHeight - 1) } ∪
    { bytes | ∃ p ∈ payments, bytes ∈ p.call.request.burnOpening.preimages ∪
      p.call.request.withdrawalOpening.preimages }

section

variable {payments : List Payment}

/-- A payment records the burned total at its leaf. -/
theorem withdrawalsAfter_append (payments : List Payment) (p : Payment) :
    withdrawalsAfter (payments ++ [p]) =
      Function.update (withdrawalsAfter payments) p.index (some p.call.request.burned) := by
  simp [withdrawalsAfter, writeAt]

/-- A payment pays what it pays at its leaf. -/
theorem paidAt_append (payments : List Payment) (p : Payment) (i : Nat) :
    paidAt (payments ++ [p]) i = paidAt payments i + if p.index = i then p.amount else 0 := by
  by_cases h : p.index = i <;> simp [paidAt, h]

/-- What earlier payments hash is hashed by all of them together. -/
theorem paymentPreimages_append (payments more : List Payment) :
    paymentPreimages payments ⊆ paymentPreimages (payments ++ more) := by
  rintro bytes (⟨n, h⟩ | ⟨p, hp, h⟩)
  · refine .inl ⟨min n payments.length, ?_⟩
    rwa [List.take_append_of_le_length (Nat.min_le_right _ _), ← List.take_eq_take_min]
  · exact .inr ⟨p, List.mem_append_left _ hp, h⟩

end

/-! ## What is paid

Each payment raises the withdrawn total of its leaf to the burned one, which has only grown.  So
the payments of a leaf add up to its last total, however often they were asked for.
-/

/-- The burn records after the first steps of the rollup. -/
def burnsCovered (steps : List Step) (n : Nat) : Nat → Option AccountRecord :=
  burnsAfter (fun _ => none) (steps.take n)

/-- What was paid is accounted for, by the burns of a rollup and by the root that the bridge
keeps. -/
structure Accounted (steps : List Step) (payments : List Payment) (b : Bridge) : Prop where
  /-- The bridge keeps the root of the tree of withdrawals. -/
  tree : ∃ tree : Tree (withdrawalsHeight - 1),
    tree.Stores (withdrawalsAfter payments) ∧ tree.root = b.withdrawalsRoot
  /-- Behind each leaf of that tree stands what was paid there. -/
  total : ∀ i, paidAt payments i = (withdrawalsAfter payments i).elim 0 (·.amount.toNat)
  /-- Its records are records of burns trees that were used. -/
  backed : ∀ i w, withdrawalsAfter payments i = some w →
    ∃ p ∈ payments, burnsCovered steps p.call.covered i = some w
  /-- A payment is for a record of the burns tree that was used. -/
  burner : ∀ p ∈ payments,
    burnsCovered steps p.call.covered p.index = some p.call.request.burned ∧
      ∃ amount, p.event = .withdrawn p.call.request.withdrawer p.call.request.token amount
        p.call.request.totalBurned
  /-- What a paid request asked for was paid, if not more. -/
  covers : ∀ p ∈ payments, ∃ amount, p.call.request.totalBurned ≤ amount ∧
    withdrawalsAfter payments p.index = some { p.call.request.burned with amount }
  /-- A request that was paid is worth nothing from then on. -/
  once : payments.Pairwise fun p q => q.call.request = p.call.request → q.amount = 0

namespace Accounted

variable {steps : List Step} {payments : List Payment} {b b' : Bridge} {p : Payment}
  {hashed : Set Bytes}

/-- Before any payment. -/
theorem initial (steps : List Step) (h : b.withdrawalsRoot = emptyRoot withdrawalsHeight) :
    Accounted steps [] b where
  tree := ⟨.empty _, .empty _, (Tree.root_empty _).trans h.symm⟩
  total _ := rfl
  backed _ _ h := nomatch h
  burner _ h := nomatch h
  covers _ h := nomatch h
  once := .nil

/-- An accepted request claims the records behind its leaf, and rewrites that of withdrawals. -/
theorem opens (h : Accounted steps payments b) (hc : CollisionFree hashed)
    (hburns : treePreimages (burnsCovered steps p.call.covered) (burnsHeight - 1) ⊆ hashed)
    (hroot : p.call.settled.burns =
      nodeOver (leavesOf (burnsCovered steps p.call.covered)) (burnsHeight - 1) 0)
    (hpaid : paymentPreimages (payments ++ [p]) ⊆ hashed)
    (hw : (Bridge.withdraw p.call.settled p.call.request).run.run b = (.ok p.event, b')) :
    burnsCovered steps p.call.covered p.index = some p.call.request.burned ∧
      p.call.request.prior? = withdrawalsAfter payments p.index ∧
      ∃ tree : Tree (withdrawalsHeight - 1),
        tree.Stores (withdrawalsAfter (payments ++ [p])) ∧ tree.root = b'.withdrawalsRoot := by
  obtain ⟨hbacked, hsettled, rfl, -⟩ := Bridge.withdraw_spec hw
  obtain ⟨tree, hstores, htree⟩ := h.tree
  let r := p.call.request
  have hnow : treePreimages (withdrawalsAfter payments) (withdrawalsHeight - 1) ⊆ hashed := by
    refine fun bytes hb => hpaid (.inl ⟨payments.length, ?_⟩)
    rwa [List.take_left]
  have hclaims : r.burnOpening.preimages ∪ r.withdrawalOpening.preimages ⊆ hashed :=
    fun bytes hb => hpaid (.inr ⟨p, by simp, hb⟩)
  have hburnFits : r.burnOpening.Fits (burnsHeight - 1) :=
    (Transition.checkShape_eq_ok_iff (by decide)).mp (mapError_eq_ok_iff.mpr hbacked.burnFits)
  have hfits : r.withdrawalOpening.Fits (withdrawalsHeight - 1) :=
    (Transition.checkShape_eq_ok_iff (by decide)).mp
      (mapError_eq_ok_iff.mpr hbacked.withdrawalFits)
  have hburnFolds : r.burnOpening.FoldsTo
      (nodeOver (leavesOf (burnsCovered steps p.call.covered)) (burnsHeight - 1) 0) :=
    hsettled.trans hroot
  have hfolds : r.withdrawalOpening.FoldsTo
      (nodeOver (leavesOf (withdrawalsAfter payments)) (withdrawalsHeight - 1) 0) := by
    rw [← hstores.root_eq, htree]
    exact hbacked.unpaid
  -- the settled root binds the burned total, and the bridge's own root the withdrawn one
  have hburn := (Opening.holds_of_root hc hburns (Set.subset_union_left.trans hclaims)
    (by decide) hburnFits trivial hburnFolds).1
  obtain ⟨hprior, hopens⟩ := Opening.holds_of_root hc hnow
    (Set.subset_union_right.trans hclaims) (by decide) hfits trivial hfolds
  have hindex : r.withdrawalWitness.index.toNat = p.index :=
    congrArg UInt64.toNat hbacked.sameLeaf.symm
  have hlt : p.index < 2 ^ (withdrawalsHeight - 1) :=
    hindex ▸ Opening.Fits.index_lt (by decide) hfits
  have hstored := hstores.rehash hlt (some r.burned)
  have hgives := (Opening.Gives.single r.withdrawalWitness r.prior? r.burned).root_eq rfl
    (by decide) hfits hopens
  rw [writeAt, List.foldl_cons, List.foldl_nil, hindex] at hgives
  refine ⟨hburn.symm, hindex ▸ hprior, _, ?_, hstored.root_eq.trans hgives.symm⟩
  rw [withdrawalsAfter_append]
  exact hstored

/-- What a request leaves of the records of withdrawals: its leaf has what it claims of burns,
which is no less than before. -/
structure Leaves (payments : List Payment) (p : Payment) : Prop where
  self : withdrawalsAfter (payments ++ [p]) p.index = some p.call.request.burned
  other : ∀ i ≠ p.index, withdrawalsAfter (payments ++ [p]) i = withdrawalsAfter payments i
  grows : Grows (withdrawalsAfter payments) (withdrawalsAfter (payments ++ [p]))

/-- A payment that meets the record of its leaf leaves the total there. -/
theorem leaves (hprior : p.call.request.prior? = withdrawalsAfter payments p.index)
    (hle : p.call.request.totalWithdrawn.getD 0 ≤ p.call.request.totalBurned) :
    Leaves payments p := by
  constructor
  all_goals rw [withdrawalsAfter_append]
  · exact Function.update_self ..
  · exact fun i hi => Function.update_of_ne hi ..
  · exact grows_update hprior hle

/-- What stood behind its leaf and what a request is paid is what it claims of burns. -/
theorem add_amount
    (hw : (Bridge.withdraw p.call.settled p.call.request).run.run b = (.ok p.event, b'))
    (hprior : p.call.request.prior? = withdrawalsAfter payments p.index) :
    (withdrawalsAfter payments p.index).elim 0 (·.amount.toNat) + p.amount =
      p.call.request.totalBurned.toNat := by
  obtain ⟨hbacked, -, -, hevent⟩ := Bridge.withdraw_spec hw
  have hamount : p.amount = (p.call.request.totalBurned -
      p.call.request.totalWithdrawn.getD 0).toNat := by
    rw [Payment.amount, hevent]
  rw [hamount, hbacked.toNat_amount, ← hprior, WithdrawRequest.elim_prior?,
    Nat.add_sub_cancel' hbacked.withdrawn_le]

/-- An accepted request is paid what its burn leaf has on top of what was paid there. -/
theorem pay (h : Accounted steps payments b) (hc : CollisionFree hashed)
    (hburns : treePreimages (burnsCovered steps p.call.covered) (burnsHeight - 1) ⊆ hashed)
    (hroot : p.call.settled.burns =
      nodeOver (leavesOf (burnsCovered steps p.call.covered)) (burnsHeight - 1) 0)
    (hpaid : paymentPreimages (payments ++ [p]) ⊆ hashed)
    (hw : (Bridge.withdraw p.call.settled p.call.request).run.run b = (.ok p.event, b')) :
    Accounted steps (payments ++ [p]) b' := by
  obtain ⟨hburned, hprior, htree⟩ := h.opens hc hburns hroot hpaid hw
  obtain ⟨hbacked, -, -, hevent⟩ := Bridge.withdraw_spec hw
  have hleaves := leaves hprior (UInt64.le_iff_toNat_le.mpr hbacked.withdrawn_le)
  have hamount := add_amount hw hprior
  refine ⟨htree, fun i => ?total, fun i w hw => ?backed, fun q hq => ?burner, fun q hq => ?covers,
    ?once⟩
  case total =>
    rw [paidAt_append, h.total i]
    by_cases hi : i = p.index
    · rw [hi, if_pos rfl, hleaves.self]
      exact hamount
    · rw [hleaves.other i hi, if_neg (Ne.symm hi), Nat.add_zero]
  case backed =>
    by_cases hi : i = p.index
    · subst hi
      exact ⟨p, by simp, hburned.trans (hleaves.self.symm.trans hw)⟩
    · rw [hleaves.other i hi] at hw
      obtain ⟨q, hq, hrecord⟩ := h.backed i w hw
      exact ⟨q, List.mem_append_left _ hq, hrecord⟩
  case burner =>
    rcases List.mem_append.mp hq with hq | hq
    · exact h.burner q hq
    · obtain rfl := List.mem_singleton.mp hq
      exact ⟨hburned, _, hevent⟩
  case covers =>
    rcases List.mem_append.mp hq with hq | hq
    · obtain ⟨amount, hcovered, hrecord⟩ := h.covers q hq
      obtain ⟨amount', hle', hrecord'⟩ := hleaves.grows _ _ hrecord
      exact ⟨amount', UInt64.le_trans hcovered hle', hrecord'⟩
    · obtain rfl := List.mem_singleton.mp hq
      exact ⟨_, UInt64.le_refl _, hleaves.self⟩
  case once =>
    refine List.pairwise_append.mpr
      ⟨h.once, List.pairwise_singleton _ _, fun q hq p' hp' hsame => ?_⟩
    obtain rfl := List.mem_singleton.mp hp'
    -- what was paid there covers the same request already
    obtain ⟨amount, hcovered, hrecord⟩ := h.covers q hq
    have hindex : q.index = p'.index := congrArg WithdrawRequest.leafIndex hsame.symm
    rw [← hindex, hrecord, Option.elim_some, hsame] at hamount
    rw [UInt64.le_iff_toNat_le] at hcovered
    dsimp only at hamount
    omega

/-- Requests in turn, accepted or not, keep payments accounted for. -/
theorem withdrawEach {calls : List WithdrawCall} (h : Accounted steps payments b)
    (hc : CollisionFree hashed)
    (hcalls : ∀ call ∈ calls,
      treePreimages (burnsCovered steps call.covered) (burnsHeight - 1) ⊆ hashed ∧
        call.settled.burns =
          nodeOver (leavesOf (burnsCovered steps call.covered)) (burnsHeight - 1) 0)
    (hpaid : paymentPreimages (payments ++ (b.withdrawEach calls).2) ⊆ hashed) :
    Accounted steps (payments ++ (b.withdrawEach calls).2) (b.withdrawEach calls).1 := by
  induction calls generalizing payments b with
  | nil =>
      rw [Bridge.withdrawEach, List.append_nil]
      exact h
  | cons call calls ih =>
      have hlater := fun c hm => hcalls c (List.mem_cons_of_mem _ hm)
      rcases hw : (Bridge.withdraw call.settled call.request).run.run b with ⟨e | event, next⟩
      · rw [Bridge.withdrawEach_of_error hw] at hpaid ⊢
        exact ih h hlater hpaid
      · obtain ⟨hburns, hroot⟩ := hcalls call List.mem_cons_self
        rw [Bridge.withdrawEach_of_ok hw, List.append_cons] at hpaid ⊢
        have hpay := h.pay (p := ⟨call, event⟩) hc hburns hroot
          ((paymentPreimages_append _ _).trans hpaid) hw
        exact ih hpay hlater hpaid

end Accounted

namespace Bridge

variable {b : Bridge}

/-- **No double withdrawal.**  Whatever is requested, in whatever order, against the burns of
whatever moments of one rollup: what was paid at a leaf is what the bridge's tree of
withdrawals has there, and a burns tree that was used has no less; payments go to the
burner, in the token burned; and a request that was paid is worth nothing again. -/
theorem withdrawEach_paid_once {start final : StateRoots} {steps : List Step}
    (hchain : Chain start steps final) (hstart : start.burns = emptyRoot burnsHeight)
    (hempty : b.withdrawalsRoot = emptyRoot withdrawalsHeight) {calls : List WithdrawCall}
    (hcalls : ∀ call ∈ calls, ∃ covered, Chain start (steps.take call.covered) covered ∧
      call.settled.burns = covered.burns)
    {last : Bridge} {payments : List Payment} (hrun : b.withdrawEach calls = (last, payments))
    (hc : CollisionFree (burnPreimages (fun _ => none) steps ∪ paymentPreimages payments)) :
    (∃ tree : Tree (withdrawalsHeight - 1), tree.Stores (withdrawalsAfter payments) ∧
      tree.root = last.withdrawalsRoot) ∧
    (∀ i, paidAt payments i = (withdrawalsAfter payments i).elim 0 (·.amount.toNat)) ∧
    (∀ i, 0 < paidAt payments i → ∃ call ∈ calls, ∃ burn,
      burnsCovered steps call.covered i = some burn ∧ paidAt payments i ≤ burn.amount.toNat) ∧
    (∀ p ∈ payments, ∀ n, p.call.covered ≤ n → ∃ burn amount,
      burnsCovered steps n p.index = some burn ∧ p.call.request.totalBurned ≤ burn.amount ∧
        p.event = .withdrawn burn.account burn.token amount p.call.request.totalBurned) ∧
    payments.Pairwise fun p q => q.call.request = p.call.request → q.amount = 0 := by
  have hburned : burnPreimages (fun _ => none) steps ⊆
      burnPreimages (fun _ => none) steps ∪ paymentPreimages payments := Set.subset_union_left
  have hroot : start.burns = nodeOver (leavesOf fun _ => (none : Option AccountRecord))
      (burnsHeight - 1) 0 :=
    hstart.trans (nodeOver_emptyLeaf (burnsHeight - 1) 0).symm
  have hpayments : (b.withdrawEach calls).2 = payments := congrArg Prod.snd hrun
  have haccounted : Accounted steps ([] ++ (b.withdrawEach calls).2) (b.withdrawEach calls).1 :=
    (Accounted.initial steps hempty).withdrawEach hc ?_ ?_
  · rw [hrun, List.nil_append] at haccounted
    refine ⟨haccounted.tree, haccounted.total, fun i hi => ?_, fun p hp n hn => ?_,
      haccounted.once⟩
    · have htotal := haccounted.total i
      cases hw : withdrawalsAfter payments i with
      | none =>
          rw [hw, Option.elim_none] at htotal
          exact absurd htotal hi.ne'
      | some w =>
          obtain ⟨p, hp, hburn⟩ := haccounted.backed i w hw
          rw [hw, Option.elim_some] at htotal
          exact ⟨p.call, call_mem_of_mem_withdrawEach (hpayments ▸ hp), w, hburn, htotal.le⟩
    · obtain ⟨hburn, amount, hevent⟩ := haccounted.burner p hp
      obtain ⟨total, hle, hlater⟩ := hchain.burns_mono hc hburned hroot hn _ _ hburn
      exact ⟨_, amount, hlater, hle, hevent⟩
  · intro call hcall
    obtain ⟨covered, hcut, hsettled⟩ := hcalls call hcall
    refine ⟨fun bytes hb => hburned (.inl ⟨call.covered, hb⟩), hsettled.trans ?_⟩
    exact (hcut.burns hc ((burnPreimages_take _ _ _).trans hburned) hroot).1
  · rw [List.nil_append, hpayments]
    exact Set.subset_union_right

end Bridge

/-! ## A first burn

An account burns some of what it deposited, and is paid it.  The digests of the burn and of the
payment are computed here, and are all that the instance hashes.
-/

/-- What an account first burns of its first deposit. -/
def burnedRecord : AccountRecord := { firstRecord with amount := 3 }

/-- The witness of the first leaf of unwritten burns, or unwritten withdrawals. -/
def burnWitness : Witness := ⟨(Tree.empty (burnsHeight - 1)).path 0⟩

/-- A first burn, after a first deposit. -/
def firstBurn : Step where
  verifiers := .trusting
  earlier := some (.start firstDeposit.outcome.roots)
  transition :=
    .burn ⟨firstWitness, burnWitness, firstRecord.account, firstRecord.token, 3, some 5, none,
      ⟨.zero, .zero⟩⟩
  outcome := {
    roots := { firstDeposit.outcome.roots with
      balances := firstWitness.root (Record.leaf { firstRecord with amount := 2 })
      burns := burnWitness.root (Record.leaf burnedRecord) }
    writes := [⟨firstWitness.index, .balance { firstRecord with amount := 2 }⟩,
      ⟨burnWitness.index, .burn burnedRecord⟩] }

theorem length_burnWitness : burnWitness.siblings.length = burnsHeight - 1 :=
  (Tree.over_empty _).length_path (by decide)

theorem toNat_index_burnWitness : burnWitness.index.toNat = 0 := by
  rw [Witness.toNat_index (length_burnWitness.trans_le (by decide))]
  exact (Tree.over_empty _).pathPosition_path (by decide)

/-- The witness opens a tree with nothing written beside its first leaf. -/
theorem burnWitness_opens (record : Option AccountRecord) :
    burnWitness.Opens (leavesOf (Function.update (fun _ => none) 0 record)) (burnsHeight - 1) :=
  Tree.opens_first _ record

theorem burnWitness_root : burnWitness.root emptyLeaf = emptyRoot burnsHeight := by
  have hopens := burnWitness_opens none
  rw [Function.update_eq_self_iff.mpr rfl] at hopens
  have hfolds : (Opening.single burnWitness (none : Option AccountRecord)).FoldsTo
      (nodeOver (leavesOf fun _ => (none : Option AccountRecord)) (burnsHeight - 1) 0) :=
    Opening.foldsTo_of_holds View.burns.depth_le length_burnWitness rfl hopens
  exact hfolds.trans (nodeOver_emptyLeaf (burnsHeight - 1) 0)

theorem firstBurn_accepted :
    Chain firstDeposit.outcome.roots [firstBurn] firstBurn.outcome.roots := by
  have hfits : firstBurn.transition.Fits :=
    ⟨(Tree.over_empty _).length_path (by decide), trivial, trivial, length_burnWitness⟩
  have hfolds : firstBurn.transition.FoldsTo firstDeposit.outcome.roots :=
    ⟨rfl, trivial, trivial, burnWitness_root⟩
  exact .cons (Transition.execute_eq_ok_iff.mpr
    ⟨fun _ => checkEarlier_start _, hfits, rfl, ⟨hfolds, trivial⟩, rfl⟩) .nil

/-- A bridge that holds what was deposited. -/
def fundedBridge : Bridge :=
  { Bridge.initial with held := (∅ : FinMap Token Amount).insert firstRecord.token 5 }

/-- What was burned is asked for. -/
def firstCall : WithdrawCall where
  covered := 1
  settled := firstBurn.outcome.roots
  request := ⟨firstRecord.account, firstRecord.token, burnWitness, burnWitness, none, 3⟩

/-- What was burned is paid. -/
def firstPayment : Payment := ⟨firstCall, .withdrawn firstRecord.account firstRecord.token 3 3⟩

/-- The first call is paid. -/
theorem withdrawEach_firstCall :
    fundedBridge.withdrawEach [firstCall] =
      (fundedBridge.paid firstCall.request, [firstPayment]) := by
  have hfits : burnWitness.checkHeight burnsHeight = .ok () :=
    mapError_eq_ok_iff.mp ((Transition.checkShape_eq_ok_iff (by decide)).mpr length_burnWitness)
  have hbacked : fundedBridge.Backed firstCall.request :=
    ⟨hfits, hfits, rfl, by decide, burnWitness_root, by decide⟩
  have hpaid := (hbacked.withdraw_eq firstCall.settled).trans (if_pos rfl)
  rw [Bridge.withdrawEach_of_ok hpaid]
  rfl

/-- Everything that the burn and the payment hash of their trees. -/
def paidStrings : List Bytes :=
  emptyStrings 22 ++ Record.preimage burnedRecord ::
    foldStrings (Record.leaf burnedRecord) (emptyPath 0 (burnsHeight - 1))

theorem mem_paidStrings_of_tree {record : Option AccountRecord}
    (hrecord : record = none ∨ record = some burnedRecord) {bytes : Bytes}
    (h : bytes ∈ treePreimages (Function.update (fun _ => none) 0 record) (burnsHeight - 1)) :
    bytes ∈ paidStrings :=
  mem_frontStrings_of_tree hrecord (by decide) h

theorem mem_paidStrings_of_claim {record : Option AccountRecord}
    (hrecord : record = none ∨ record = some burnedRecord) {bytes : Bytes}
    (h : bytes ∈ (Opening.single burnWitness record).preimages) : bytes ∈ paidStrings := by
  refine mem_paidStrings_of_tree hrecord (Opening.preimages_single_subset View.burns.depth_le
    length_burnWitness ?_ (burnWitness_opens record) h)
  rw [Opening.Holds, toNat_index_burnWitness, Function.update_self]

/-- The digests above what was burned, computed. -/
theorem fingerprints_paid : (Record.leaf burnedRecord ::
    foldNodes (Record.leaf burnedRecord) (emptyPath 0 (burnsHeight - 1))).map fingerprint =
    [6815, 3586, 59221, 18076, 2088, 17544, 41154, 59623, 3810, 33171, 22516, 17931, 63976, 53541,
      56193, 24689, 15443, 45252, 34315, 33585] := by
  decide +kernel

/-- The digests of all that is hashed are different. -/
theorem nodup_paid : (emptyLeaf :: paidStrings.map keccak256).Nodup := by
  have hmap := map_frontStrings burnedRecord (burnsHeight - 1)
  change emptyLeaf :: paidStrings.map keccak256 = _ at hmap
  rw [hmap]
  refine .of_map fingerprint ?_
  rw [List.map_append, Records.fingerprints_empty, fingerprints_paid]
  decide +kernel

theorem withdrawalsAfter_firstPayment : withdrawalsAfter [firstPayment] =
    Function.update (fun _ => none) 0 (some burnedRecord) := by
  rw [← toNat_index_burnWitness]
  rfl

/-- Nothing collides in the trees and claims of the payment. -/
theorem firstPayment_collisionFree :
    CollisionFree
      (burnPreimages (fun _ => none) [firstBurn] ∪ paymentPreimages [firstPayment]) := by
  have hburned : burnsAfter (fun _ => none) [firstBurn] =
      Function.update (fun _ => none) 0 (some burnedRecord) := by
    rw [← toNat_index_burnWitness]
    rfl
  have hnone : (fun _ => none : Nat → Option AccountRecord) =
      Function.update (fun _ => none) 0 none :=
    (Function.update_eq_self_iff.mpr rfl).symm
  refine .of_nodup ?_ nodup_paid
  rintro bytes ((⟨n, h⟩ | ⟨step, hstep, h⟩) | (⟨n, h⟩ | ⟨p, hp, h⟩))
  · cases n with
    | zero => exact mem_paidStrings_of_tree (.inl rfl) (hnone ▸ h)
    | succ n =>
        rw [List.take_succ_cons, List.take_nil, hburned] at h
        exact mem_paidStrings_of_tree (.inr rfl) h
  · obtain rfl := List.mem_singleton.mp hstep
    exact mem_paidStrings_of_claim (.inl rfl) h
  · cases n with
    | zero => exact mem_paidStrings_of_tree (.inl rfl) (hnone ▸ h)
    | succ n =>
        rw [List.take_succ_cons, List.take_nil, withdrawalsAfter_firstPayment] at h
        exact mem_paidStrings_of_tree (.inr rfl) h
  · obtain rfl := List.mem_singleton.mp hp
    rcases h with h | h
    · exact mem_paidStrings_of_claim (.inr rfl) h
    · exact mem_paidStrings_of_claim (.inl rfl) h

/-- What was burned first is paid. -/
theorem Bridge.withdrawEach_paid_once_firstCall :
    Chain firstDeposit.outcome.roots [firstBurn] firstBurn.outcome.roots ∧
      firstDeposit.outcome.roots.burns = emptyRoot burnsHeight ∧
      fundedBridge.withdrawalsRoot = emptyRoot withdrawalsHeight ∧
      CollisionFree
        (burnPreimages (fun _ => none) [firstBurn] ∪ paymentPreimages [firstPayment]) ∧
      paidAt [firstPayment] 0 = 3 ∧
      ∃ burn, burnsCovered [firstBurn] 1 0 = some burn ∧ 3 ≤ burn.amount := by
  have hcalls : ∀ call ∈ [firstCall], ∃ covered,
      Chain firstDeposit.outcome.roots ([firstBurn].take call.covered) covered ∧
        call.settled.burns = covered.burns :=
    fun call hcall => List.mem_singleton.mp hcall ▸ ⟨_, firstBurn_accepted, rfl⟩
  obtain ⟨-, htotal, -, hburner, -⟩ := withdrawEach_paid_once firstBurn_accepted rfl rfl hcalls
    withdrawEach_firstCall firstPayment_collisionFree
  have hpaid := htotal 0
  rw [withdrawalsAfter_firstPayment, Function.update_self] at hpaid
  obtain ⟨burn, -, hburn, hle, -⟩ := hburner firstPayment List.mem_cons_self 1 (Nat.le_refl 1)
  have hindex : firstPayment.index = 0 := toNat_index_burnWitness
  exact ⟨firstBurn_accepted, rfl, rfl, firstPayment_collisionFree, hpaid, burn, hindex ▸ hburn, hle⟩

end AmmRollup
