import AmmRollup.Proofs.Bridge
import AmmRollup.Proofs.Rollup.Perform

/-!
# AmmRollup.Proofs.Rollup.Replay

How far the check of replayed deposits reaches.  A deposit carries the head that it starts
at and the head that it leads to.  The core checks that the one leads to the other, and
the rollup keeps the last head and a count, which the bridge compares with its own; but
nothing compares the head that a deposit starts at with the one that is kept.  So the
check pins down the last deposit that was committed, and those before it as far back as
each starts where the one before it ended (`committed_of_checkConsumed`).  A deposit that
starts elsewhere is committed all the same (`Valid.run_apply_deposit`), and what came
before it goes unnoticed (`checkConsumed_of_stray`).
-/

namespace AmmRollup

/-! ## Links

Every head is the digest of the one before and of a deposit, so as far as nothing collides a head
determines the whole chain that leads to it.
-/

/-- What a link of the chain of deposits is hashed from. -/
def linkPreimages (head : Bytes32) (d : AccountRecord) : Set Bytes :=
  {pairBytes head (Record.leaf d), Record.preimage d}

/-- A head determines the link that leads to it. -/
theorem nextDepositHead_inj {hashed : Set Bytes} (hc : Set.InjOn keccak256 hashed)
    {head head' : Bytes32} {d d' : AccountRecord} (hd : linkPreimages head d ⊆ hashed)
    (hd' : linkPreimages head' d' ⊆ hashed)
    (h : nextDepositHead head d = nextDepositHead head' d') : head = head' ∧ d = d' := by
  obtain ⟨hhead, hleaf⟩ :=
    pairBytes_injective (hc (hd (Set.mem_insert _ _)) (hd' (Set.mem_insert _ _)) h)
  have hrecord : Record.preimage d = Record.preimage d' :=
    hc (hd (Set.mem_insert_of_mem _ rfl)) (hd' (Set.mem_insert_of_mem _ rfl)) hleaf
  exact ⟨hhead, preimage_injective hrecord⟩

/-- What the chain of some deposits is hashed from. -/
def chainPreimages (deposits : List AccountRecord) : Set Bytes :=
  { bytes | ∃ before d, before ++ [d] <+: deposits ∧
    bytes ∈ linkPreimages (Bridge.headAfter before) d }

/-- What the links of committed deposits are hashed from. -/
def committedPreimages (deposits : List DepositArgs) : Set Bytes :=
  { bytes | ∃ a ∈ deposits, bytes ∈ linkPreimages a.currentHead a.deposit }

/-- A longer list of deposits hashes more. -/
theorem chainPreimages_subset {deposits more : List AccountRecord} (h : deposits <+: more) :
    chainPreimages deposits ⊆ chainPreimages more := by
  rintro bytes ⟨before, d, hcut, hb⟩
  exact ⟨before, d, hcut.trans h, hb⟩

theorem committedPreimages_subset {deposits more : List DepositArgs} (h : deposits ⊆ more) :
    committedPreimages deposits ⊆ committedPreimages more := by
  rintro bytes ⟨a, ha, hb⟩
  exact ⟨a, h ha, hb⟩

/-- Each deposit starts at the head that the one before it leads to. -/
def Consecutive (deposits : List DepositArgs) : Prop :=
  deposits.IsChain fun a next => a.expectedHead = next.currentHead

/-- Consecutive deposits that end at the head of a chain are the last ones of that chain. -/
theorem Consecutive.eq_drop {hashed : Set Bytes} (hc : Set.InjOn keccak256 hashed)
    {deposits : List DepositArgs} (h : Consecutive deposits)
    (hlinked : ∀ a ∈ deposits, (Transition.deposit a).Linked)
    (hdeposits : committedPreimages deposits ⊆ hashed) {applied : List AccountRecord}
    (happlied : chainPreimages applied ⊆ hashed) (hle : deposits.length ≤ applied.length)
    (hlast : ∀ a ∈ deposits.getLast?, a.expectedHead = Bridge.headAfter applied) :
    deposits.map DepositArgs.deposit = applied.drop (applied.length - deposits.length) := by
  induction deposits using List.reverseRecOn generalizing applied with
  | nil => simp
  | append_singleton deposits a ih =>
      -- both lists end on one head, so their last deposits are equal and so are the heads before
      rcases List.eq_nil_or_concat applied with rfl | ⟨applied, d, rfl⟩
      · simp at hle
      rw [List.concat_eq_append] at *
      have hhead := hlast a (by simp)
      rw [← hlinked a (by simp), Bridge.headAfter, List.foldl_append] at hhead
      obtain ⟨hcurrent, rfl⟩ := nextDepositHead_inj hc
        (fun bytes hb => hdeposits ⟨a, by simp, hb⟩)
        (fun bytes hb => happlied ⟨applied, d, List.prefix_rfl, hb⟩) hhead
      obtain ⟨hchain, -, hjoin⟩ := List.isChain_append.mp h
      have hrest := ih hchain (fun a ha => hlinked a (List.mem_append_left _ ha))
        ((committedPreimages_subset (List.subset_append_left _ _)).trans hdeposits)
        ((chainPreimages_subset (List.prefix_append _ _)).trans happlied)
        (by simpa using hle) (fun last hlast => (hjoin last hlast a (by simp)).trans hcurrent)
      simp only [List.length_append, List.length_singleton] at hle
      rw [List.map_append, hrest, List.length_append, List.length_append, List.length_singleton,
        List.length_singleton, Nat.add_sub_add_right, List.drop_append_of_le_length (by omega)]
      rfl

/-! ## The bridge

Of the bridge only its chain matters here: it keeps a head for every number of applied deposits,
whatever it is called with.
-/

namespace Bridge

/-- What happens to the deposits of the bridge. -/
inductive Call where
  | deposit (depositor : Address) (token : Token) (amount : Amount)
  | applyDeposits

/-- The bridge after a call, accepted or not. -/
def called (b : Bridge) : Call → Bridge
  | .deposit depositor token amount => ((deposit depositor token amount).run.run b).2
  | .applyDeposits => b.applyDeposits.1

/-- The bridge after several calls. -/
def calledEach (b : Bridge) (calls : List Call) : Bridge := calls.foldl called b

/-- The bridge stays linked, whatever it is called with. -/
theorem Linked.called {b : Bridge} (h : b.Linked) (call : Call) : (b.called call).Linked := by
  cases call with
  | deposit depositor token amount =>
      rw [Bridge.called]
      rcases hb : (deposit depositor token amount).run.run b with ⟨e | event, b'⟩
      · exact deposit_refused hb ▸ h
      · have hdeposits := deposit_spec hb
        rw [Linked, hdeposits.appliedHeads, hdeposits.applied]
        exact h
  | applyDeposits => exact h.applyDeposits

/-- The bridge keeps the heads of its applied deposits. -/
theorem linked_calledEach (calls : List Call) : (initial.calledEach calls).Linked := by
  have hrun {b : Bridge} (h : b.Linked) : (b.calledEach calls).Linked := by
    induction calls generalizing b with
    | nil => exact h
    | cons call calls ih => exact ih (h.called call)
  exact hrun rfl

/-- What passes the check is the head after so many applied deposits. -/
theorem Linked.of_checkConsumed {b : Bridge} (h : b.Linked) {n : Nat} {head : Bytes32}
    (hcheck : b.checkConsumed n head = .ok ()) :
    n ≤ b.applied.length ∧ head = headAfter (b.applied.take n) := by
  have hle : n ≤ b.applied.length := by
    by_contra hgt
    have hnone : b.headAt n = none := by
      cases n with
      | zero => omega
      | succ n =>
          rw [headAt, h]
          refine List.getElem?_eq_none ?_
          rw [length_headsFrom]
          omega
    rw [checkConsumed, hnone] at hcheck
    contradiction
  simp only [checkConsumed, h.headAt_eq hle] at hcheck
  split at hcheck
  · next heq => exact ⟨hle, heq.symm⟩
  · contradiction

end Bridge

/-! ## The rollup

The rollup counts the deposits that it commits and keeps the head that the last one leads to.  It
does not compare the head that a deposit says it starts at with the one that it keeps, so nothing
yet makes them consecutive.
-/

namespace RollupState

variable {s s' : RollupState}

/-- The actions that the state takes from whoever runs it: steps are built, and any step
whatsoever is applied. -/
def Action.Offered : Action → Prop
  | .build _ | .apply _ _ _ => True
  | .commit _ _ | .consume _ | .record _ _ _ => False

/-- The deposit that a step is. -/
def deposit? : Transition → Option DepositArgs
  | .deposit a => some a
  | _ => none

/-- The deposit that an action commits. -/
def committed? (s : RollupState) : Action → Option DepositArgs
  | .apply v earlier t => ((apply v earlier t).run.run s).1.toOption.bind fun _ => deposit? t
  | _ => none

section

variable {v : Verifiers} {earlier : Option Proof} {t : Transition}

/-- What an action leaves is read off its run. -/
theorem after_apply {r : Except Failure Outcome} (h : (apply v earlier t).run.run s = (r, s')) :
    s.after (.apply v earlier t) = s' :=
  congrArg Prod.snd h

theorem committed?_build (i : Intent) : s.committed? (.build i) = none := rfl

/-- The deposit that an action commits is read off its run. -/
theorem committed?_apply {o : Outcome} (h : (apply v earlier t).run.run s = (.ok o, s')) :
    s.committed? (.apply v earlier t) = deposit? t := by
  rw [committed?, h]
  rfl

/-- An action that was refused commits no deposit. -/
theorem committed?_apply_of_error {f : Failure}
    (h : (apply v earlier t).run.run s = (.error f, s')) :
    s.committed? (.apply v earlier t) = none := by
  rw [committed?, h]
  rfl

end

/-- The state after several actions. -/
def afterEach (s : RollupState) (actions : List Action) : RollupState := actions.foldl after s

/-- The deposits that several actions commit, in order. -/
def committed (s : RollupState) : List Action → List DepositArgs
  | [] => []
  | a :: actions => (s.committed? a).toList ++ (s.after a).committed actions

/-- A step that is not applied changes nothing that a lookup can tell. -/
theorem Valid.run_apply_extends (h : s.Valid) {v : Verifiers} {earlier : Option Proof}
    {t : Transition} {f : Failure} (hrun : (apply v earlier t).run.run s = (.error f, s')) :
    s.Extends s' := by
  cases hexecute : t.execute v s.roots earlier with
  | error e =>
      rw [run_apply_of_error hexecute] at hrun
      obtain ⟨-, rfl⟩ := Prod.mk.inj hrun
      exact .refl s
  | ok o =>
      rw [run_apply_of_ok hexecute] at hrun
      cases hcommit : s.commit o with
      | mk r written =>
          cases r with
          | ok u =>
              rw [run_commitStep_of_ok hcommit] at hrun
              exact nomatch (Prod.mk.inj hrun).1
          | error e =>
              rw [run_commitStep_of_error hcommit] at hrun
              obtain ⟨-, rfl⟩ := Prod.mk.inj hrun
              exact (h.commit_error hcommit).2

/-- What the state knows of the deposits that were committed: their number, and the head that
the last one leads to. -/
structure Counts (s : RollupState) (deposits : List DepositArgs) : Prop where
  valid : s.Valid
  consumed : s.depositsConsumed = deposits.length
  head : s.depositHead = deposits.getLast?.elim emptyLeaf DepositArgs.expectedHead
  linked : ∀ a ∈ deposits, (Transition.deposit a).Linked

/-- In the beginning nothing was replayed. -/
theorem counts_initial : initial.Counts [] := ⟨valid_initial, rfl, rfl, by simp⟩

namespace Counts

variable {deposits : List DepositArgs}

/-- An action that replays nothing leaves the count alone. -/
theorem of_replayed (h : s.Counts deposits) (hs' : s'.Valid) (heq : s'.replayed = s.replayed) :
    s'.Counts deposits := by
  obtain ⟨hhead, hconsumed⟩ := Prod.mk.inj heq
  exact ⟨hs', hconsumed.trans h.consumed, hhead.trans h.head, h.linked⟩

/-- A committed deposit is counted, by the head that it leads to. -/
theorem counted (h : s.Counts deposits) {t : Transition} (hlinked : t.Linked) :
    (s.counted t).Counts (deposits ++ (deposit? t).toList) := by
  have hvalid := h.valid.counted t
  cases t with
  | deposit a =>
      refine ⟨hvalid, ?_, ?_, fun a' ha' => ?_⟩
      · simpa [RollupState.counted, consumeDeposit, deposit?] using h.consumed
      · simp [RollupState.counted, consumeDeposit, deposit?]
      · rcases List.mem_append.mp ha' with ha' | ha'
        · exact h.linked a' ha'
        · obtain rfl : a' = a := by simpa [deposit?] using ha'
          exact hlinked
  | _ => simpa [deposit?, RollupState.counted] using h

/-- An action counts the deposit that it commits, and nothing else. -/
theorem after (h : s.Counts deposits) {a : Action} (ha : a.Offered) :
    (s.after a).Counts (deposits ++ (s.committed? a).toList) := by
  have hvalid := h.valid.after a
  cases a with
  | build i =>
      obtain ⟨-, hext, -⟩ := h.valid.build_spec i
      rw [committed?_build, Option.toList_none, List.append_nil]
      exact h.of_replayed hvalid hext.replayed_eq
  | apply v earlier t =>
      cases hrun : (apply v earlier t).run.run s with
      | mk r s' =>
          rw [after_apply hrun] at hvalid ⊢
          cases r with
          | error f =>
              rw [committed?_apply_of_error hrun, Option.toList_none, List.append_nil]
              exact h.of_replayed hvalid (h.valid.run_apply_extends hrun).replayed_eq
          | ok o =>
              obtain ⟨hexecute, written, hcommit, rfl⟩ := run_apply_eq_ok hrun
              obtain ⟨-, -, -, ⟨-, hlinked⟩, -⟩ := Transition.execute_eq_ok_iff.mp hexecute
              obtain ⟨hwrites, -⟩ := h.valid.commit_ok hcommit
              obtain ⟨-, hhead, hconsumed⟩ := hwrites.beside
              -- a committed deposit is linked, so counting it adds it to the list
              rw [committed?_apply hrun]
              exact (h.of_replayed (hwrites.valid h.valid) (Prod.ext hhead hconsumed)).counted
                hlinked
  | commit | consume | record => contradiction

/-- After any actions the count is that of all deposits committed on the way. -/
theorem afterEach (h : s.Counts deposits) {actions : List Action}
    (hactions : ∀ a ∈ actions, a.Offered) :
    (s.afterEach actions).Counts (deposits ++ s.committed actions) := by
  induction actions generalizing s deposits with
  | nil =>
      rw [committed, List.append_nil]
      exact h
  | cons a actions ih =>
      rw [committed, ← List.append_assoc]
      exact ih (h.after (hactions a List.mem_cons_self))
        fun a' ha' => hactions a' (List.mem_cons_of_mem _ ha')

end Counts

/-! ## The check

The check compares the last head at its own number of deposits.  From there it can be followed
backwards, as long as each committed deposit starts where the one before it ended.
-/

/-- **Replay.**  When the check passes, as many deposits were committed as the bridge compares,
and it has applied them; and from any of them on, if each starts where the one before it
ended, they are the bridge's own.  In particular the last one always is. -/
theorem committed_of_checkConsumed (calls : List Bridge.Call) {actions : List Action}
    (hactions : ∀ a ∈ actions, a.Offered) {b : Bridge} (hb : b = Bridge.initial.calledEach calls)
    {deposits : List DepositArgs} (hdeposits : deposits = initial.committed actions)
    {s : RollupState} (hs : s = initial.afterEach actions)
    (hcheck : b.checkConsumed s.depositsConsumed s.depositHead = .ok ())
    (hc : Set.InjOn keccak256 (chainPreimages b.applied ∪ committedPreimages deposits)) :
    s.depositsConsumed = deposits.length ∧ deposits.length ≤ b.applied.length ∧
      ∀ before after, deposits = before ++ after → Consecutive after →
        after.map DepositArgs.deposit = (b.applied.take s.depositsConsumed).drop before.length := by
  have hcounts := counts_initial.afterEach hactions
  rw [List.nil_append, ← hs, ← hdeposits] at hcounts
  have hlinked : b.Linked := hb ▸ Bridge.linked_calledEach calls
  obtain ⟨hle, hhead⟩ := hlinked.of_checkConsumed hcheck
  refine ⟨hcounts.consumed, hcounts.consumed ▸ hle, fun before after hsplit hafter => ?_⟩
  subst hsplit
  have hconsumed := hcounts.consumed
  rw [List.length_append] at hconsumed
  have hlength : (b.applied.take s.depositsConsumed).length = s.depositsConsumed :=
    List.length_take_of_le hle
  have hlast : ∀ a ∈ after.getLast?,
      a.expectedHead = Bridge.headAfter (b.applied.take s.depositsConsumed) := by
    intro a ha
    rw [← hhead, hcounts.head, List.getLast?_append, ha]
    rfl
  -- the deposits after the last gap end at the head that the bridge checks
  have hdrop := hafter.eq_drop hc
    (fun a ha => hcounts.linked a (List.mem_append_right _ ha))
    ((committedPreimages_subset (List.subset_append_right _ _)).trans Set.subset_union_right)
    ((chainPreimages_subset (List.take_prefix _ _)).trans Set.subset_union_left) (by omega) hlast
  rw [hdrop, hlength]
  congr 1
  omega

/-! ## Stray deposits

What the check does not see: a deposit that is none of the bridge's, committed in place of its
first one, with the next deposit again starting from the bridge's own head.
-/

/-- A deposit to a leaf that is bound is applied, whatever head it says it starts at. -/
theorem Valid.run_apply_deposit (h : s.Valid) {d : AccountRecord} {index : Nat}
    (hfind : s.balances.find? d.key = some index) {after : Amount}
    (hcredit : credit (s.balance d.account d.token) d.amount = .ok after) {v : Verifiers}
    {earlier : Option Proof} (hearlier : checkEarlier v s.roots earlier = .ok ())
    (head : Bytes32) :
    ∃ o, (apply v earlier (.deposit ⟨⟨s.balances.tree.path index⟩, d,
        s.balance d.account d.token, head, nextDepositHead head d⟩)).run.run s =
      (.ok o, { s with balances :=
          s.balances.restore index (some ⟨d.account, d.token, after⟩) }.consumeDeposit
        (nextDepositHead head d)) := by
  have hopened := h.balances.openedAt_path (by decide) hfind
  have hfits : (Transition.deposit ⟨⟨s.balances.tree.path index⟩, d,
      s.balance d.account d.token, head, nextDepositHead head d⟩).Fits :=
    ⟨hopened.opens.length_eq, trivial, trivial, trivial⟩
  have hopens : (Transition.deposit ⟨⟨s.balances.tree.path index⟩, d,
      s.balance d.account d.token, head, nextDepositHead head d⟩).Opens s.records :=
    ⟨hopened.opens, trivial, trivial, trivial⟩
  have hfolds := Transition.foldsTo_of_holds (r := s.records) hfits
    ⟨accountRecord?_eq h.balances hopened.find, trivial, trivial, trivial⟩ hopens
  rw [← h.roots_eq] at hfolds
  have hsame : (⟨s.balances.tree.path index⟩ : Witness).index.toNat = index :=
    Option.some.inj (hopened.find.symm.trans hfind)
  -- the path is of no interest from here on, only that it opens the leaf
  generalize hw : (⟨s.balances.tree.path index⟩ : Witness) = w at *
  let after' : AccountRecord := ⟨d.account, d.token, after⟩
  let o : Outcome := ⟨{ s.roots with balances := w.root (Record.leaf after') },
    [⟨w.index, .balance after'⟩]⟩
  have houtcome : (Transition.deposit ⟨w, d, s.balance d.account d.token, head,
      nextDepositHead head d⟩).outcome s.roots = .ok o := by
    simp only [Transition.outcome, hcredit]
    rfl
  have hexecute := Transition.execute_eq_ok_iff.mpr
    ⟨fun _ => hearlier, hfits, rfl, ⟨hfolds, rfl⟩, houtcome⟩
  have hroots := Transition.outcome_roots hfits hopens (h.roots_eq ▸ houtcome)
  obtain ⟨written, hcommit, -⟩ := h.commit_of_bound (o := o)
    (by simpa [o, Bound, AccountRecord.key] using hopened.find) hroots
  refine ⟨o, ?_⟩
  rw [run_apply_of_ok hexecute, run_commitStep_of_ok hcommit,
    h.commit_balance (r := after') hopened.find hcommit, hsame]
  rfl

/-- A deposit that the bridge never sees. -/
def strayRecord : AccountRecord := { firstRecord with amount := 6 }

/-- The second of two deposits that the bridge applies. -/
def laterRecord : AccountRecord := { firstRecord with amount := 7 }

/-- The bridge applies two deposits. -/
def strayCalls : List Bridge.Call :=
  [.deposit firstRecord.account firstRecord.token firstRecord.amount,
    .deposit laterRecord.account laterRecord.token laterRecord.amount, .applyDeposits]

/-- The state that has built the stray deposit. -/
def strayBuilt : RollupState := initial.after (.build (.deposit strayRecord))

/-- The stray deposit, as it is built. -/
def strayArgs : DepositArgs :=
  ⟨⟨strayBuilt.balances.tree.path 0⟩, strayRecord, strayBuilt.balance strayRecord.account
    strayRecord.token, emptyLeaf, nextDepositHead emptyLeaf strayRecord⟩

/-- The state that has committed the stray deposit. -/
def strayApplied : RollupState :=
  { strayBuilt with balances := strayBuilt.balances.restore 0 (some strayRecord) }.consumeDeposit
    strayArgs.expectedHead

/-- The second deposit of the bridge, which starts where the bridge's first one ends. -/
def laterArgs : DepositArgs :=
  ⟨⟨strayApplied.balances.tree.path 0⟩, laterRecord, strayApplied.balance laterRecord.account
    laterRecord.token, Bridge.headAfter [firstRecord],
    nextDepositHead (Bridge.headAfter [firstRecord]) laterRecord⟩

/-- The rollup replays the stray deposit in place of the bridge's first one. -/
def strayActions : List Action :=
  [.build (.deposit strayRecord),
    .apply .trusting (some (.start strayBuilt.roots)) (.deposit strayArgs),
    .apply .trusting (some (.start strayApplied.roots)) (.deposit laterArgs)]

/-- The state that the stray step was built in is valid. -/
theorem strayBuilt_valid : strayBuilt.Valid := valid_initial.after _

/-- The stray step is applied in the state that it was built in. -/
theorem run_strayArgs : ∃ o, (apply .trusting (some (.start strayBuilt.roots))
    (.deposit strayArgs)).run.run strayBuilt = (.ok o, strayApplied) :=
  strayBuilt_valid.run_apply_deposit (d := strayRecord) rfl rfl (checkEarlier_start _) emptyLeaf

/-- The stray step leaves a valid state. -/
theorem strayApplied_valid : strayApplied.Valid := by
  obtain ⟨o, hrun⟩ := run_strayArgs
  rw [← after_apply hrun]
  exact strayBuilt_valid.after _

/-- The second deposit of the bridge is applied after the stray step, from the head before it. -/
theorem run_laterArgs : ∃ o s, (apply .trusting (some (.start strayApplied.roots))
    (.deposit laterArgs)).run.run strayApplied = (.ok o, s) ∧ s.depositsConsumed = 2 ∧
      s.depositHead = Bridge.headAfter [firstRecord, laterRecord] := by
  have hfind : strayApplied.balances.find? laterRecord.key = some 0 := rfl
  obtain ⟨o, hrun⟩ := strayApplied_valid.run_apply_deposit hfind rfl (checkEarlier_start _)
    (Bridge.headAfter [firstRecord])
  exact ⟨o, _, hrun, rfl, rfl⟩

/-- Both the stray deposit and the later one are committed, and the count and the last head are
those of the bridge. -/
theorem committed_stray : initial.committed strayActions = [strayArgs, laterArgs] ∧
    (initial.afterEach strayActions).depositsConsumed = 2 ∧
    (initial.afterEach strayActions).depositHead =
      Bridge.headAfter [firstRecord, laterRecord] := by
  obtain ⟨o, hstray⟩ := run_strayArgs
  obtain ⟨o', s, hlater, hconsumed, hhead⟩ := run_laterArgs
  have hbuilt : initial.after (.build (.deposit strayRecord)) = strayBuilt := rfl
  refine ⟨?_, ?_, ?_⟩
  · rw [strayActions, committed, committed, committed, committed, hbuilt, after_apply hstray,
      committed?_build, committed?_apply hstray, committed?_apply hlater]
    rfl
  all_goals
    rw [afterEach, strayActions, List.foldl_cons, List.foldl_cons, List.foldl_cons,
      List.foldl_nil, hbuilt, after_apply hstray, after_apply hlater]
  · exact hconsumed
  · exact hhead

/-- The bridge has applied its two deposits. -/
theorem applied_stray :
    (Bridge.initial.calledEach strayCalls).applied = [firstRecord, laterRecord] := rfl

/-- The strings that the two chains hash. -/
def strayStrings : List Bytes :=
  [Record.preimage firstRecord, Record.preimage laterRecord, Record.preimage strayRecord,
    pairBytes emptyLeaf (Record.leaf firstRecord), pairBytes emptyLeaf (Record.leaf strayRecord),
    pairBytes (Bridge.headAfter [firstRecord]) (Record.leaf laterRecord)]

/-- None of the few strings that these deposits hash collide. -/
theorem injOn_stray : Set.InjOn keccak256
    (chainPreimages [firstRecord, laterRecord] ∪ committedPreimages [strayArgs, laterArgs]) := by
  have hnodup : (strayStrings.map keccak256).Nodup := by
    decide +kernel
  have hmem {bytes : Bytes} (h : bytes ∈ chainPreimages [firstRecord, laterRecord] ∪
      committedPreimages [strayArgs, laterArgs]) : bytes ∈ strayStrings := by
    -- the bridge links two deposits, and each commit links one
    rcases h with ⟨before, d, hcut, h⟩ | ⟨a, ha, h⟩
    · rcases before with _ | ⟨e, _ | ⟨e', before⟩⟩
      · obtain rfl : d = firstRecord := by simpa using hcut
        rcases h with rfl | rfl <;> simp [strayStrings, Bridge.headAfter]
      · obtain ⟨rfl, rfl⟩ : e = firstRecord ∧ d = laterRecord := by simpa using hcut
        rcases h with rfl | rfl <;> simp [strayStrings]
      · have := hcut.length_le
        simp at this
    · rcases List.mem_pair.mp ha with rfl | rfl
      · rcases h with rfl | rfl <;> simp [strayStrings, strayArgs]
      · rcases h with rfl | rfl <;> simp [strayStrings, laterArgs]
  exact fun x hx y hy hxy => List.inj_on_of_nodup_map hnodup (hmem hx) (hmem hy) hxy

/-- **A stray deposit.**  The check passes, though the first deposit that was committed is
none that the bridge has applied. -/
theorem checkConsumed_of_stray :
    (∀ a ∈ strayActions, a.Offered) ∧
      (Bridge.initial.calledEach strayCalls).checkConsumed
        (initial.afterEach strayActions).depositsConsumed
        (initial.afterEach strayActions).depositHead = .ok () ∧
      Set.InjOn keccak256 (chainPreimages (Bridge.initial.calledEach strayCalls).applied ∪
        committedPreimages (initial.committed strayActions)) ∧
      (initial.committed strayActions).map DepositArgs.deposit ≠
        (Bridge.initial.calledEach strayCalls).applied.take
          (initial.afterEach strayActions).depositsConsumed := by
  obtain ⟨hcommitted, hconsumed, hhead⟩ := committed_stray
  rw [hcommitted, hconsumed, hhead, applied_stray]
  refine ⟨by simp [strayActions, Action.Offered], ?_, injOn_stray, by decide⟩
  exact (Bridge.linked_calledEach strayCalls).checkConsumed_eq (n := 2) (by decide)

/-- The last deposit that was committed is the bridge's own. -/
theorem committed_of_checkConsumed_stray :
    (Bridge.initial.calledEach strayCalls).checkConsumed
        (initial.afterEach strayActions).depositsConsumed
        (initial.afterEach strayActions).depositHead = .ok () ∧
      [laterArgs].map DepositArgs.deposit =
        ((Bridge.initial.calledEach strayCalls).applied.take
          (initial.afterEach strayActions).depositsConsumed).drop 1 := by
  obtain ⟨hoffered, hcheck, hinj, -⟩ := checkConsumed_of_stray
  obtain ⟨-, -, hsplit⟩ :=
    committed_of_checkConsumed strayCalls hoffered rfl rfl rfl hcheck hinj
  exact ⟨hcheck, hsplit [strayArgs] [laterArgs] committed_stray.1 (List.isChain_singleton _)⟩

end RollupState

end AmmRollup
