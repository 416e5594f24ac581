import AmmRollup.Proofs.Withdrawals
import Mathlib.Data.List.DropRight

/-!
# AmmRollup.Proofs.Bookkeeping

The books of the bridge.  Its lists, its two running heads, what it holds and what it has
reported are each a function of the calls it has accepted (`Bridge.Booked`): no call that it
accepts brings them out of step (`Bridge.Booked.fulfil`), and one that it refuses leaves them
as they were (`Bridge.fulfil_refused`).  So they are in step after any calls
(`Bridge.fulfilEach_booked`), whatever the arguments of the calls and the settled roots are.
-/

namespace AmmRollup

namespace Bridge

/-! ## Orders

The bridge takes orders one at a time and refuses some.  A refused order leaves nothing, so what
the bridge is follows from those it accepted.
-/

/-- A call that may change the bridge. -/
inductive Order where
  | deposit (depositor : Address) (token : Token) (amount : Amount)
  | applyDeposits
  | withdraw (settled : StateRoots) (request : WithdrawRequest)

/-- What the bridge makes of an order. -/
def fulfil : Order → Update BridgeEvent
  | .deposit depositor token amount => deposit depositor token amount
  | .applyDeposits => modifyGet fun b => b.applyDeposits.swap
  | .withdraw settled request => withdraw settled request

/-- Orders in turn, with those that were accepted, each on the bridge that the one before it
leaves, be that refused or not. -/
def fulfilEach (b : Bridge) : List Order → Bridge × List Order
  | [] => (b, [])
  | order :: orders =>
      match (fulfil order).run.run b with
      | (.ok _, next) =>
          let (last, accepted) := next.fulfilEach orders
          (last, order :: accepted)
      | (.error _, next) => next.fulfilEach orders

section FulfilEach

variable {b next : Bridge} {order : Order} {event : BridgeEvent} {e : BridgeError}

theorem run_fulfil_applyDeposits (b : Bridge) :
    (fulfil .applyDeposits).run.run b = (.ok b.applyDeposits.2, b.applyDeposits.1) := rfl

/-- **A refused order changes nothing.**  Applying deposits is never refused; the other two
check first and write then. -/
theorem fulfil_refused (h : (fulfil order).run.run b = (.error e, next)) : next = b := by
  cases order with
  | deposit depositor token amount => exact deposit_refused h
  | applyDeposits =>
      rw [run_fulfil_applyDeposits] at h
      exact nomatch congrArg Prod.fst h
  | withdraw settled request => exact withdraw_refused h

theorem fulfilEach_of_ok (h : (fulfil order).run.run b = (.ok event, next))
    (orders : List Order) :
    b.fulfilEach (order :: orders) =
      ((next.fulfilEach orders).1, order :: (next.fulfilEach orders).2) := by
  rw [fulfilEach, h]

/-- An order that is refused might as well not have been given. -/
theorem fulfilEach_of_error (h : (fulfil order).run.run b = (.error e, next))
    (orders : List Order) : b.fulfilEach (order :: orders) = b.fulfilEach orders := by
  rw [fulfilEach, h, fulfil_refused h]

/-- Orders may be given in two parts. -/
theorem fulfilEach_append (b : Bridge) (orders more : List Order) :
    b.fulfilEach (orders ++ more) =
      (((b.fulfilEach orders).1.fulfilEach more).1,
        (b.fulfilEach orders).2 ++ ((b.fulfilEach orders).1.fulfilEach more).2) := by
  induction orders generalizing b with
  | nil => rfl
  | cons order orders ih =>
      rcases h : (fulfil order).run.run b with ⟨e | event, next⟩
      · rw [List.cons_append, fulfilEach_of_error h, fulfilEach_of_error h, ih]
      · rw [List.cons_append, fulfilEach_of_ok h, fulfilEach_of_ok h, ih, List.cons_append]

end FulfilEach

/-! ## What accepted orders amount to

What a list of orders adds up to, read off the list alone: its deposits, those that still wait,
what it pays and what it reports.  Each of these grows by one order at a time.
-/

namespace Order

/-- The deposit that an order makes. -/
def deposit? : Order → Option AccountRecord
  | .deposit depositor token amount => some ⟨depositor, token, amount⟩
  | _ => none

/-- Whether an order leaves waiting deposits waiting. -/
def spares : Order → Bool
  | .applyDeposits => false
  | _ => true

/-- What an order takes out of custody. -/
def paid (token : Token) : Order → Nat
  | .withdraw _ r => worth token r.token (r.totalBurned - r.totalWithdrawn.getD 0)
  | _ => 0

end Order

/-- The deposits among some orders. -/
def deposited (history : List Order) : List AccountRecord := history.filterMap Order.deposit?

/-- The deposits that no application came after. -/
def waiting (history : List Order) : List AccountRecord :=
  deposited (history.rtakeWhile Order.spares)

/-- What some orders take out of custody. -/
def paidOut (token : Token) (history : List Order) : Nat := (history.map (Order.paid token)).sum

/-- What the bridge reports of an order, after others. -/
def Order.report (before : List Order) : Order → BridgeEvent
  | .deposit depositor token amount =>
      .depositRecorded ⟨depositor, token, amount⟩
        (headAfter (deposited before ++ [⟨depositor, token, amount⟩]))
  | .applyDeposits =>
      .depositsApplied (UInt64.ofNat (waiting before).length) (headAfter (deposited before))
  | .withdraw _ r =>
      .withdrawn r.withdrawer r.token (r.totalBurned - r.totalWithdrawn.getD 0) r.totalBurned

/-- What the bridge reports of each of some orders. -/
def reports (history : List Order) : List BridgeEvent :=
  history.mapIdx fun n order => order.report (history.take n)

variable {history : List Order} {order : Order} {token : Token}

/-- A further order records its deposit, if it is one. -/
theorem deposited_concat (history : List Order) (order : Order) :
    deposited (history ++ [order]) = deposited history ++ order.deposit?.toList := by
  rw [deposited, List.filterMap_append, deposited]
  cases h : order.deposit? <;> simp [h]

/-- A further order leaves its deposit waiting, unless it applies those that wait. -/
theorem waiting_concat (history : List Order) (order : Order) :
    waiting (history ++ [order]) =
      if order.spares then waiting history ++ order.deposit?.toList else [] := by
  rw [waiting, List.rtakeWhile_concat]
  split
  · exact deposited_concat _ _
  · rfl

/-- A further order pays what it pays. -/
theorem paidOut_concat (token : Token) (history : List Order) (order : Order) :
    paidOut token (history ++ [order]) = paidOut token history + order.paid token := by
  simp [paidOut]

/-- A further order reports what it reports. -/
theorem reports_concat (history : List Order) (order : Order) :
    reports (history ++ [order]) = reports history ++ [order.report history] := by
  rw [reports, List.mapIdx_concat, List.take_left]
  congr 1
  refine List.mapIdx_eq_mapIdx_iff.mpr fun n hn => ?_
  rw [List.take_append_of_le_length (Nat.le_of_lt hn)]

theorem headAfter_concat (deposits : List AccountRecord) (d : AccountRecord) :
    headAfter (deposits ++ [d]) = nextDepositHead (headAfter deposits) d := by
  rw [headAfter, List.foldl_append]
  rfl

/-! ## The books

The fields of the bridge against the list of accepted orders.  Every order keeps the two in step,
and by induction all of them do.
-/

/-- The books of the bridge, after the orders it has accepted. -/
structure Booked (history : List Order) (b : Bridge) : Prop where
  /-- Every deposit is applied or waits, in the order of the calls. -/
  deposited : b.applied ++ b.pending = deposited history
  /-- Those wait that were made since deposits were last applied. -/
  waiting : b.pending = waiting history
  /-- The recorded head covers every deposit. -/
  recordedHead : b.recordedHead = headAfter (Bridge.deposited history)
  /-- The head after so many applied deposits is known for as many as there are. -/
  headAt : ∀ n, b.headAt n =
    if n ≤ b.applied.length then some (headAfter (b.applied.take n)) else none
  /-- The head of the chain covers every applied deposit. -/
  depositHead : b.depositHead = headAfter b.applied
  /-- What is held is what was deposited and not paid out. -/
  custody : ∀ token, (b.custody token).toNat + paidOut token history =
    depositsWorth token (Bridge.deposited history)
  /-- Every order was reported, in the order of the calls. -/
  events : b.events = reports history

variable {b b' : Bridge} {event : BridgeEvent}

theorem booked_initial : Booked [] initial where
  deposited := rfl
  waiting := rfl
  recordedHead := rfl
  headAt := linked_iff.mp rfl
  depositHead := rfl
  custody := fun _ => rfl
  events := rfl

namespace Booked

theorem linked (h : Booked history b) : b.Linked := linked_iff.mpr h.headAt

/-- A deposit that the bridge takes is booked. -/
theorem deposit (h : Booked history b) {depositor : Address} {amount : Amount}
    (hok : (Bridge.deposit depositor token amount).run.run b = (.ok event, b')) :
    Booked (history ++ [.deposit depositor token amount]) b' := by
  have hb := deposit_spec hok
  -- a deposit that only waits is not among the heads
  have hlinked : b'.Linked := by
    rw [Linked, hb.appliedHeads, hb.applied]
    exact h.linked
  have hdeposited := deposited_concat history (.deposit depositor token amount)
  have hhead : b'.recordedHead =
      headAfter (Bridge.deposited history ++ [⟨depositor, token, amount⟩]) := by
    rw [hb.recordedHead, h.recordedHead, headAfter_concat]
  exact {
    deposited := by
      rw [hb.applied, hb.pending, ← List.append_assoc, h.deposited, hdeposited]
      rfl
    waiting := by
      rw [hb.pending, h.waiting, waiting_concat]
      rfl
    recordedHead := by
      rw [hhead, hdeposited]
      rfl
    headAt := linked_iff.mp hlinked
    depositHead := hlinked.depositHead_eq
    custody := fun of => by
      have hcustody := h.custody of
      have hone : depositsWorth of [⟨depositor, token, amount⟩] =
          AccountRecord.amountOf of ⟨depositor, token, amount⟩ := List.sum_singleton
      rw [hb.custody, paidOut_concat, hdeposited, depositsWorth_append, ← hcustody]
      exact (Nat.add_right_comm _ _ _).trans (congrArg (_ + ·) hone.symm)
    events := by
      rw [hb.events, h.events, reports_concat, hhead]
      rfl }

/-- Deposits stay booked when they are applied. -/
theorem applyDeposits (h : Booked history b) :
    Booked (history ++ [.applyDeposits]) b.applyDeposits.1 := by
  have hlinked := h.linked.applyDeposits
  have hdeposited : Bridge.deposited (history ++ [.applyDeposits]) = Bridge.deposited history :=
    (deposited_concat _ _).trans (List.append_nil _)
  -- the head of all deposits is that of the applied ones, with the waiting ones hashed on
  have hhead : (headsFrom b.depositHead b.pending).getLastD b.depositHead =
      headAfter (Bridge.deposited history) := by
    rw [← h.deposited, headAfter, List.foldl_append, ← headAfter, ← h.depositHead]
    exact getLastD_headsFrom _ _
  exact {
    deposited := (List.append_nil _).trans (h.deposited.trans hdeposited.symm)
    waiting := by
      rw [waiting_concat]
      rfl
    recordedHead := h.recordedHead.trans (congrArg headAfter hdeposited.symm)
    headAt := linked_iff.mp hlinked
    depositHead := hlinked.depositHead_eq
    custody := fun token => by
      rw [paidOut_concat, hdeposited, ← h.custody]
      rfl
    events := by
      rw [reports_concat, ← h.events, Bridge.applyDeposits, hhead, h.waiting]
      rfl }

/-- A withdrawal that the bridge pays is booked. -/
theorem withdraw (h : Booked history b) {settled : StateRoots} {r : WithdrawRequest}
    (hok : (Bridge.withdraw settled r).run.run b = (.ok event, b')) :
    Booked (history ++ [.withdraw settled r]) b' := by
  obtain ⟨hbacked, -, rfl, rfl⟩ := withdraw_spec hok
  have hdeposited : Bridge.deposited (history ++ [.withdraw settled r]) =
      Bridge.deposited history := (deposited_concat _ _).trans (List.append_nil _)
  exact {
    deposited := h.deposited.trans hdeposited.symm
    waiting := by
      rw [waiting_concat]
      exact h.waiting.trans (List.append_nil _).symm
    recordedHead := h.recordedHead.trans (congrArg headAfter hdeposited.symm)
    headAt := h.headAt
    depositHead := h.depositHead
    -- what is paid is the growth of the withdrawn total
    custody := fun token => by
      have hcustody := h.custody token
      have hpaid := hbacked.custody_paid token
      have hamount := hbacked.toNat_amount
      have hle := hbacked.withdrawn_le
      rw [paidOut_concat, hdeposited, Order.paid]
      simp only [worth] at hpaid ⊢
      split_ifs at hpaid ⊢ <;> omega
    events := by
      rw [reports_concat, ← h.events]
      rfl }

/-- No order that is accepted brings the books out of step. -/
theorem fulfil (h : Booked history b) (hok : (Bridge.fulfil order).run.run b = (.ok event, b')) :
    Booked (history ++ [order]) b' := by
  cases order with
  | deposit depositor token amount => exact h.deposit hok
  | applyDeposits =>
      rw [run_fulfil_applyDeposits] at hok
      obtain ⟨-, rfl⟩ := Prod.mk.inj hok
      exact h.applyDeposits
  | withdraw settled request => exact h.withdraw hok

/-- The books are in step after any orders. -/
theorem fulfilEach (h : Booked history b) (orders : List Order) :
    Booked (history ++ (b.fulfilEach orders).2) (b.fulfilEach orders).1 := by
  induction orders generalizing b history with
  | nil => simpa [Bridge.fulfilEach] using h
  | cons order orders ih =>
      rcases hok : (Bridge.fulfil order).run.run b with ⟨e | event, next⟩
      · rw [fulfilEach_of_error hok]
        exact ih h
      · rw [fulfilEach_of_ok hok, List.append_cons]
        exact ih (h.fulfil hok)

end Booked

/-- After any orders the books of the bridge are in step with those that were accepted, nothing
is owed that custody could not hold, and an order that is refused changes nothing: the bridge
that it leaves is the one it was given, with the root of withdrawals, and the orders that were
accepted are the same. -/
theorem fulfilEach_booked (orders : List Order) :
    Booked (initial.fulfilEach orders).2 (initial.fulfilEach orders).1 ∧
      (∀ token, depositsWorth token (deposited (initial.fulfilEach orders).2) <
        paidOut token (initial.fulfilEach orders).2 + 1 <<< 64) ∧
      ∀ order e left,
        (fulfil order).run.run (initial.fulfilEach orders).1 = (.error e, left) →
          left = (initial.fulfilEach orders).1 ∧
            initial.fulfilEach (orders ++ [order]) = initial.fulfilEach orders := by
  have hbooked := booked_initial.fulfilEach orders
  refine ⟨hbooked, fun token => ?_, fun order e left hrefused => ⟨fulfil_refused hrefused, ?_⟩⟩
  · have hcustody := hbooked.custody token
    have hfits := ((initial.fulfilEach orders).1.custody token).toNat_lt
    rw [Nat.one_shiftLeft]
    simp only [List.nil_append] at hcustody
    omega
  · rw [fulfilEach_append, fulfilEach_of_error hrefused, fulfilEach, List.append_nil]

/-- A deposit of as much as custody can hold. -/
def fullOrder : Order := .deposit firstRecord.account firstRecord.token (.ofNat ((1 <<< 64) - 1))

/-- Once custody holds all that it can of a token, another deposit of it changes nothing. -/
theorem fulfilEach_booked_full :
    ∃ left, (fulfil fullOrder).run.run (initial.fulfilEach [fullOrder]).1 =
        (.error .overflow, left) ∧
      left = (initial.fulfilEach [fullOrder]).1 ∧
      initial.fulfilEach [fullOrder, fullOrder] = initial.fulfilEach [fullOrder] := by
  obtain ⟨left, hrefused⟩ : ∃ left,
      (fulfil fullOrder).run.run (initial.fulfilEach [fullOrder]).1 = (.error .overflow, left) :=
    ⟨_, rfl⟩
  exact ⟨left, hrefused, (fulfilEach_booked [fullOrder]).2.2 fullOrder _ left hrefused⟩

end Bridge

end AmmRollup
