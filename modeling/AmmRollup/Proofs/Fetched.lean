import AmmRollup.Proofs.Bookkeeping
import AmmRollup.Proofs.Rollup.Replay
import AmmRollup.Proofs.Solvency

/-!
# AmmRollup.Proofs.Fetched

The bridge and the rollup agree on the deposits through a count and a head alone, and either
goes on without the other.  If the rollup replays no deposit but the first that it fetches,
then whatever else it does, and whatever the bridge does, the deposits that it has committed,
those that it would fetch and those that wait are together what the bridge has taken, each
once and in order (`System.turnedEach_inOrder`).  No digest has to be free of collisions for
that: the heads are compared, and nobody learns a deposit from them.
-/

namespace AmmRollup

namespace RollupState

variable {s s' : RollupState} {i : Intent} {v : Verifiers} {earlier : Option Proof}
  {t : Transition}

/-! ## Actions that commit no deposit

What the rollup has replayed is a head and a count.  Every action but those that commit a deposit
or consume a head leaves both alone, whatever else it does to the state.
-/

/-- No deposit is committed: steps are built, for whoever asks, and others are applied or
committed, with any outcome. -/
def Action.SparesDeposits : Action → Prop
  | .build _ | .record _ _ _ => True
  | .apply _ _ t | .commit t _ => deposit? t = none
  | .consume _ => False

theorem replayed_counted_of_none (s : RollupState) (ht : deposit? t = none) :
    (s.counted t).replayed = s.replayed := by
  cases t with
  | deposit a => contradiction
  | _ => rfl

/-- Writing leaves replays nothing. -/
theorem WritesAll.replayed_eq {ws : List LeafWrite} (h : WritesAll s ws s') :
    s'.replayed = s.replayed :=
  Prod.ext h.beside.2.1 h.beside.2.2

/-- Where a step is applied, the deposits that it counts are all that is replayed. -/
theorem Valid.run_apply_replayed (h : s.Valid) {o : Outcome}
    (hrun : (apply v earlier t).run.run s = (.ok o, s')) :
    ∃ written : RollupState, written.replayed = s.replayed ∧ s' = written.counted t := by
  obtain ⟨-, written, hcommit, rfl⟩ := run_apply_eq_ok hrun
  exact ⟨written, (h.commit_ok hcommit).1.replayed_eq, rfl⟩

theorem Valid.replayed_commitStep (h : s.Valid) (ht : deposit? t = none) (o : Outcome) :
    ((RollupState.commitStep t o).run.run s).2.replayed = s.replayed := by
  cases hcommit : s.commit o with
  | mk r written =>
      cases r with
      | error e =>
          rw [run_commitStep_of_error hcommit]
          exact (h.commit_error hcommit).2.replayed_eq
      | ok u =>
          rw [run_commitStep_of_ok hcommit, replayed_counted_of_none _ ht]
          exact (h.commit_ok hcommit).1.replayed_eq

/-- Actions other than deposits leave the replayed deposits as they are. -/
theorem Valid.replayed_after (h : s.Valid) {a : Action} (ha : a.SparesDeposits) :
    (s.after a).replayed = s.replayed := by
  -- only commits of deposits and the consumption of a head touch what was replayed
  cases a with
  | build i => exact (h.build_spec i).extended.replayed_eq
  | apply v earlier t =>
      cases hrun : (apply v earlier t).run.run s with
      | mk r s' =>
          rw [after_apply hrun]
          cases r with
          | error f => exact (h.run_apply_extends hrun).replayed_eq
          | ok o =>
              obtain ⟨written, hwritten, rfl⟩ := h.run_apply_replayed hrun
              rw [replayed_counted_of_none _ ha, hwritten]
  | commit t o => exact h.replayed_commitStep ha o
  | consume head => contradiction
  | record owner token total =>
      have hkeeps := h.recordWithdrawal_spec owner token total
      exact Prod.ext hkeeps.depositHead hkeeps.depositsConsumed

/-- Actions other than deposits commit none. -/
theorem Action.SparesDeposits.committed?_eq {a : Action} (ha : a.SparesDeposits)
    (s : RollupState) : s.committed? a = none := by
  cases a with
  | apply v earlier t =>
      have ht : deposit? t = none := ha
      rw [committed?, ht, Option.bind_fun_none]
  | _ => rfl

/-- An intent that is performed replays its deposit if it is accepted, and nothing if not. -/
theorem Valid.perform_replayed (h : s.Valid) {r : Except Failure Outcome}
    (hrun : (perform v earlier i).run.run s = (r, s')) :
    s'.Valid ∧ s'.replayed = if r.isOk then s.replayedAfter i else s.replayed := by
  obtain ⟨hvalid, hext, hasked⟩ := h.build_spec i
  rw [perform, run_bind] at hrun
  -- building replays nothing, so what counts is whether the step is applied
  cases hbuild : (build i).run.run s with
  | mk built mid =>
      rw [hbuild] at hvalid hext hasked hrun
      cases built with
      | error f =>
          obtain ⟨rfl, rfl⟩ := Prod.mk.inj hrun
          exact ⟨hvalid, hext.replayed_eq⟩
      | ok t =>
          have happly : (apply v earlier t).run.run mid = (r, s') := hrun
          have hvalid' : s'.Valid := after_apply happly ▸ hvalid.after (.apply v earlier t)
          cases r with
          | error f =>
              exact ⟨hvalid', (hext.trans (hvalid.run_apply_extends happly)).replayed_eq⟩
          | ok o =>
              obtain ⟨written, hwritten, rfl⟩ := hvalid.run_apply_replayed happly
              have ha : mid.Asked i t := hasked t rfl
              exact ⟨hvalid', (ha.replayed_counted hwritten).trans (hext.replayedAfter_eq i)⟩

end RollupState

namespace System

variable {sys : System} {b b' : Bridge} {s s' : RollupState} {deposits : List AccountRecord}

/-! ## Turns

The bridge and the rollup take turns in any order.  The rollup replays the deposits it fetches,
and performs other actions in between.
-/

/-- What can happen to the bridge and the rollup, each in its turn. -/
inductive Turn where
  /-- The bridge is called. -/
  | call (order : Bridge.Order)
  /-- The rollup builds a step from the first of the deposits that it fetches, and applies it. -/
  | replay (verifiers : Verifiers) (earlier : Option Proof)
  /-- The rollup does anything else. -/
  | act (action : RollupState.Action) (spares : action.SparesDeposits)

/-- The call of the bridge in a turn. -/
def Turn.order? : Turn → Option Bridge.Order
  | .call order => some order
  | _ => none

/-- The system after a turn, whether it succeeded or not. -/
def turned (sys : System) : Turn → System
  | .call order => { sys with bridge := ((Bridge.fulfil order).run.run sys.bridge).2 }
  | .replay v earlier =>
      match sys.next? with
      | some d => sys.performed v earlier (.deposit d)
      | none => sys
  | .act a _ => { sys with state := sys.state.after a }

/-- The deposit that the rollup commits in a turn. -/
def committed? (sys : System) : Turn → Option AccountRecord
  | .call _ => none
  | .replay v earlier => sys.next?.filter fun d =>
      ((RollupState.perform v earlier (.deposit d)).run.run sys.state).1.isOk
  | .act a _ => (sys.state.committed? a).map DepositArgs.deposit

/-- The system after several turns. -/
def turnedEach (sys : System) (turns : List Turn) : System := turns.foldl turned sys

/-- The deposits that the rollup commits in several turns, in order. -/
def committed (sys : System) : List Turn → List AccountRecord
  | [] => []
  | turn :: turns => (sys.committed? turn).toList ++ (sys.turned turn).committed turns

/-- Of the bridge a run leaves what its calls lead to. -/
theorem bridge_turnedEach (sys : System) (turns : List Turn) :
    (sys.turnedEach turns).bridge = (sys.bridge.fulfilEach (turns.filterMap Turn.order?)).1 := by
  induction turns generalizing sys with
  | nil => rfl
  | cons turn turns ih =>
      refine (ih (sys.turned turn)).trans ?_
      -- only calls reach the bridge, and a refused one leaves it as it was
      cases turn with
      | call order =>
          change _ = (sys.bridge.fulfilEach (order :: turns.filterMap Turn.order?)).1
          rcases hok : (Bridge.fulfil order).run.run sys.bridge with ⟨e | event, next⟩
          · rw [Bridge.fulfilEach_of_error hok, turned, hok, Bridge.fulfil_refused hok]
          · rw [Bridge.fulfilEach_of_ok hok, turned, hok]
      | replay v earlier =>
          have hbridge : (sys.turned (.replay v earlier)).bridge = sys.bridge := by
            rw [turned]
            split <;> rfl
          rw [hbridge]
          rfl
      | act a spares => rfl

/-! ## Invariant

The rollup has committed as many deposits as it counts, and these are the first that the bridge
has applied.
-/

/-- No call of the bridge unsettles what the rollup has replayed. -/
theorem Follows.fulfil (h : Follows b s) {order : Bridge.Order} {event : BridgeEvent}
    (hok : (Bridge.fulfil order).run.run b = (.ok event, b')) :
    Follows b' s ∧
      b'.applied.take s.depositsConsumed = b.applied.take s.depositsConsumed := by
  cases order with
  | deposit depositor token amount =>
      have hb := Bridge.deposit_spec hok
      exact ⟨h.congr hb.appliedHeads hb.applied rfl, congrArg (List.take _) hb.applied⟩
  | applyDeposits =>
      rw [Bridge.run_fulfil_applyDeposits] at hok
      obtain ⟨-, rfl⟩ := Prod.mk.inj hok
      exact ⟨h.applyDeposits, List.take_append_of_le_length h.consumed_le⟩
  | withdraw settled r =>
      obtain ⟨-, -, rfl, -⟩ := Bridge.withdraw_spec hok
      exact ⟨h.congr rfl rfl rfl, rfl⟩

/-- The rollup has committed the first applied deposits, as many as it counts. -/
structure Replays (sys : System) (deposits : List AccountRecord) : Prop where
  state : sys.state.Valid
  follows : Follows sys.bridge sys.state
  committed : deposits = sys.bridge.applied.take sys.state.depositsConsumed

/-- A new system has replayed nothing. -/
theorem replays_initial : Replays initial [] where
  state := RollupState.valid_initial
  follows := ⟨rfl, Nat.le_refl 0, rfl⟩
  committed := rfl

namespace Replays

/-- A system replays the same deposits with a state that has replayed what its own has. -/
theorem of_replayed (h : sys.Replays deposits) (hs : s.Valid)
    (hreplayed : s.replayed = sys.state.replayed) :
    Replays { sys with state := s } deposits := by
  refine ⟨hs, h.follows.congr rfl rfl hreplayed, ?_⟩
  rw [show s.depositsConsumed = _ from (Prod.mk.inj hreplayed).2]
  exact h.committed

/-- What is replayed next is the first applied deposit that was not replayed. -/
theorem next?_eq (h : sys.Replays deposits) : sys.next? = sys.unreplayed.head? := by
  rw [next?, h.follows.fetchDeposits_eq, unreplayed]

/-- Calls on the bridge replay nothing. -/
theorem call (h : sys.Replays deposits) (order : Bridge.Order) :
    (sys.turned (.call order)).Replays deposits := by
  rw [turned]
  rcases hok : (Bridge.fulfil order).run.run sys.bridge with ⟨e | event, next⟩
  · exact Bridge.fulfil_refused hok ▸ h
  · obtain ⟨hfollows, htake⟩ := h.follows.fulfil hok
    exact ⟨h.state, hfollows, h.committed.trans htake.symm⟩

/-- A deposit that is committed is the next of the applied ones. -/
theorem replay (h : sys.Replays deposits) (v : Verifiers) (earlier : Option Proof) :
    (sys.turned (.replay v earlier)).Replays
      (deposits ++ (sys.committed? (.replay v earlier)).toList) := by
  cases hd : sys.unreplayed with
  | nil => simpa [turned, committed?, h.next?_eq, hd] using h
  | cons d rest =>
      have hnext : sys.next? = some d := h.next?_eq.trans (congrArg List.head? hd)
      cases hrun : (RollupState.perform v earlier (.deposit d)).run.run sys.state with
      | mk r s =>
          obtain ⟨hvalid, hreplayed⟩ := h.state.perform_replayed hrun
          have hturned : sys.turned (.replay v earlier) = { sys with state := s } := by
            simp only [turned, hnext, System.performed, hrun]
          have hcommitted : sys.committed? (.replay v earlier) =
              (some d).filter fun _ => r.isOk := by
            simp only [committed?, hnext, Option.filter_some, hrun]
          rw [hturned, hcommitted]
          cases r with
          | error f =>
              simpa [Except.isOk, Except.toBool] using h.of_replayed hvalid hreplayed
          | ok o =>
              obtain ⟨hfollows, -⟩ := h.follows.replay hd hreplayed
              refine ⟨hvalid, hfollows, ?_⟩
              have hhead : sys.bridge.applied[sys.state.depositsConsumed]? = some d := by
                rw [← List.head?_drop]
                exact congrArg List.head? hd
              rw [show s.depositsConsumed = _ from (Prod.mk.inj hreplayed).2, List.take_add_one,
                hhead, h.committed]
              rfl

/-- Steps other than deposits replay nothing. -/
theorem act (h : sys.Replays deposits) {a : RollupState.Action} (ha : a.SparesDeposits) :
    (sys.turned (.act a ha)).Replays
      (deposits ++ (sys.committed? (.act a ha)).toList) := by
  have hnone : sys.committed? (.act a ha) = none := by
    rw [committed?, ha.committed?_eq, Option.map_none]
  rw [hnone, Option.toList_none, List.append_nil]
  exact h.of_replayed (h.state.after a) (h.state.replayed_after ha)

/-- Every turn preserves it. -/
theorem turned (h : sys.Replays deposits) (turn : Turn) :
    (sys.turned turn).Replays (deposits ++ (sys.committed? turn).toList) := by
  cases turn with
  | call order => simpa [committed?] using h.call order
  | replay v earlier => exact h.replay v earlier
  | act a ha => exact h.act ha

theorem turnedEach (h : sys.Replays deposits) (turns : List Turn) :
    (sys.turnedEach turns).Replays (deposits ++ sys.committed turns) := by
  induction turns generalizing sys deposits with
  | nil => simpa [System.committed, System.turnedEach] using h
  | cons turn turns ih =>
      rw [System.committed, ← List.append_assoc]
      exact ih (h.turned turn)

end Replays

/-! ## Deposits in order

So the deposits that the bridge has taken fall into three parts, one after the other: those
committed, those that can be fetched, and those that wait to be applied.
-/

/-- Where the deposits are that the bridge has taken, when the rollup has committed some. -/
structure InOrder (sys : System) (taken replayed : List AccountRecord) : Prop where
  /-- The first applied deposits are committed, as many as the rollup counts. -/
  committed : replayed = sys.bridge.applied.take sys.state.depositsConsumed
  consumed : sys.state.depositsConsumed = replayed.length
  /-- The other applied deposits are those that the rollup fetches, without failing. -/
  fetched : sys.state.fetchDeposits sys.bridge = .ok sys.unreplayed
  /-- The head that the rollup keeps is that of the bridge behind the committed deposits. -/
  headAt : sys.bridge.headAt sys.state.depositsConsumed = some sys.state.depositHead
  /-- No deposit is committed or fetched while it waits, left out, or there twice. -/
  once : taken = replayed ++ sys.unreplayed ++ sys.bridge.pending

/-- **Applied deposits are replayed once, in order.**  After any turns the deposits that the
bridge has taken are committed, fetched or wait to be applied, in the order in which it has
taken them. -/
theorem turnedEach_inOrder (turns : List Turn) :
    InOrder (initial.turnedEach turns)
      (Bridge.deposited (Bridge.initial.fulfilEach (turns.filterMap Turn.order?)).2)
      (initial.committed turns) := by
  obtain ⟨-, hfollows, hcommitted⟩ := replays_initial.turnedEach turns
  have hbooked := (Bridge.booked_initial.fulfilEach (turns.filterMap Turn.order?)).deposited
  have hbridge := bridge_turnedEach initial turns
  rw [List.nil_append] at hcommitted
  exact {
    committed := hcommitted
    consumed := by rw [hcommitted, List.length_take_of_le hfollows.consumed_le]
    fetched := hfollows.fetchDeposits_eq
    headAt := by rw [hfollows.linked.headAt_eq hfollows.consumed_le, hfollows.head_eq]
    once := by
      rw [hcommitted, unreplayed, List.take_append_drop, hbridge]
      exact hbooked.symm }

end System

end AmmRollup
