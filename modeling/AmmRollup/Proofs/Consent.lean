import AmmRollup.Proofs.Conservation
import AmmRollup.Proofs.Pool.Terms

/-!
# AmmRollup.Proofs.Consent

What an account has to agree to.  The core sees four roots and a step that anyone may have
made up: witnesses, indexes and claimed values are arbitrary.  If digests do not collide,
an accepted step nevertheless touches the records of one account alone, the one that signed
it or that a deposit is for, and the pool of the pair that the signed message names
(`ChangesOnly`).  The leaves of that account change by what the message says
(`Transition.Moves`): amounts that are signed change hands exactly, and the other side of
a trade stays within the signed limit.

* `execute_authorized` — what becomes of the trees on whose roots a step is accepted.
-/

namespace AmmRollup

/-! ## One tree

What a step claims and what it writes decide together which records change.  Where all of these
are of a kind, a leaf whose record differs afterwards held nothing or a record of that kind, and
holds one now.
-/

section

variable {ρ : Type} {records : Nat → Option ρ} {writes : List (Nat × ρ)} {P : ρ → Prop}

/-- Wherever records differ, both the one before and the one after are of a kind. -/
def ChangesOnly (P : ρ → Prop) (before after : Nat → Option ρ) : Prop :=
  ∀ i, after i ≠ before i → (∀ r ∈ before i, P r) ∧ ∀ r ∈ after i, P r

/-- A record after some writes was written, or stood there before. -/
theorem mem_writeAt {i : Nat} {r : ρ} (h : writeAt records writes i = some r) :
    (i, r) ∈ writes ∨ records i = some r := by
  induction writes generalizing records with
  | nil => exact .inr h
  | cons w writes ih =>
      obtain hmem | hr := ih h
      · exact .inl (List.mem_cons_of_mem _ hmem)
      · simp only [Function.update_apply] at hr
        split at hr
        · next hi =>
            rw [hi, ← Option.some.inj hr]
            exact .inl List.mem_cons_self
        · exact .inr hr

/-- A leaf that is not written keeps its record. -/
theorem writeAt_of_notMem {i : Nat} (h : i ∉ writes.map Prod.fst) :
    writeAt records writes i = records i := by
  induction writes generalizing records with
  | nil => rfl
  | cons w writes ih =>
      rw [List.map_cons, List.mem_cons, not_or] at h
      exact (ih h.2).trans (Function.update_of_ne h.1 _ _)

/-- What is true of all leaves that are written is true of those of one tree. -/
theorem forall_writesOf {record? : LeafValue → Option ρ} {leafWrites : List LeafWrite}
    {Q : LeafValue → Prop} (hwrites : ∀ w ∈ leafWrites, Q w.leaf)
    (h : ∀ leaf r, Q leaf → record? leaf = some r → P r) :
    ∀ i r, (i, r) ∈ writesOf record? leafWrites → P r := by
  intro i r hmem
  obtain ⟨write, hwrite, hrecord⟩ := List.mem_filterMap.mp hmem
  obtain ⟨_, hr, hpair⟩ := Option.map_eq_some_iff.mp hrecord
  obtain ⟨-, rfl⟩ := Prod.mk.inj hpair
  exact h write.leaf _ (hwrites write hwrite) hr

namespace Opening

variable {o : Opening ρ}

/-- The indexes of the opened leaves. -/
def indexes : Opening ρ → List Nat
  | untouched => []
  | single w _ => [w.index.toNat]
  | double w _ _ => [w.indexes.1.toNat, w.indexes.2.toNat]

/-- The claimed records are of a kind. -/
def All (P : ρ → Prop) : Opening ρ → Prop
  | untouched => True
  | single _ prior => ∀ r ∈ prior, P r
  | double _ first second => (∀ r ∈ first, P r) ∧ ∀ r ∈ second, P r

/-- Records that are claimed truly are of the kind that is claimed. -/
theorem Holds.of_mem_indexes (h : o.Holds records) (hall : o.All P) {i : Nat}
    (hi : i ∈ o.indexes) : ∀ r ∈ records i, P r := by
  cases o with
  | untouched => exact absurd hi List.not_mem_nil
  | single w prior =>
      obtain rfl := List.mem_singleton.mp hi
      exact h ▸ hall
  | double w first second =>
      obtain ⟨hfirst, hsecond⟩ := h
      simp only [indexes, List.mem_cons, List.not_mem_nil, or_false] at hi
      obtain rfl | rfl := hi
      · exact hfirst ▸ hall.1
      · exact hsecond ▸ hall.2

variable [Record ρ] {before after : Bytes32}

/-- An opened tree is written just where it is opened. -/
theorem Gives.indexes_eq (h : o.Gives before writes after) : writes.map Prod.fst = o.indexes := by
  cases h <;> rfl

/-- An opened tree keeps its records wherever it is not opened. -/
theorem Gives.eq_of_notMem (h : o.Gives before writes after) {i : Nat} (hi : i ∉ o.indexes) :
    writeAt records writes i = records i :=
  writeAt_of_notMem (h.indexes_eq ▸ hi)

/-- Where all that is claimed and written is of a kind, nothing else changes. -/
theorem Gives.changesOnly (h : o.Gives before writes after) (hholds : o.Holds records)
    (hall : o.All P) (hwrites : ∀ i r, (i, r) ∈ writes → P r) :
    ChangesOnly P records (writeAt records writes) := by
  intro i hne
  have hi : i ∈ o.indexes := by
    by_contra hi
    exact hne (h.eq_of_notMem hi)
  have hbefore := hholds.of_mem_indexes hall hi
  refine ⟨hbefore, fun r hr => ?_⟩
  obtain hmem | hr := mem_writeAt hr
  · exact hwrites i r hmem
  · exact hbefore r hr

end Opening

end

/-! ## Signers and pairs

Every method is for one account, and all but two are for one pair.  The claims and the writes of
a method are of that account, or of the pool of that pair, which is read off each method once.
-/

/-- The pair that a message names; all but that of a burn name one. -/
def Signed.pair? (s : Signed) : Option (Token × Token) :=
  match s.message with
  | base :: quote :: _ :: _ => some (base, quote)
  | _ => none

/-- A leaf is of an account, or of the pool of a pair. -/
def LeafValue.IsOf (account : Option Address) (pair : Option (Token × Token)) : LeafValue → Prop
  | .balance r | .burn r => account = some r.account
  | .liquidity l => account = some l.provider ∧ pair = some (l.base, l.quote)
  | .pool p => pair = some (p.base, p.quote)

namespace Transition

variable {t : Transition} {roots : StateRoots} {o : Outcome} {r : Records}

/-- The account that a step is for: the depositor, or whoever must sign. -/
def actor? : Transition → Option Address
  | .deposit a => some a.deposit.account
  | t => t.signed?.map Signed.signer

/-- The pair that a step is signed for. -/
def signedPair? (t : Transition) : Option (Token × Token) := t.signed?.bind Signed.pair?

/-- A step claims the records of its account and the pool of its pair. -/
theorem openings_of_actor (t : Transition) :
    t.balanceOpening.All (fun b => t.actor? = some b.account) ∧
      t.liquidityOpening.All
        (fun l => t.actor? = some l.provider ∧ t.signedPair? = some (l.base, l.quote)) ∧
      t.poolOpening.All (fun p => t.signedPair? = some (p.base, p.quote)) ∧
      t.burnOpening.All (fun b => t.actor? = some b.account) := by
  cases t <;>
    simp [Opening.All, balanceOpening, liquidityOpening, poolOpening, burnOpening, pairOpening,
      accountRecord?, pointsRecord?, actor?, signedPair?, signed?, Signed.pair?, pairMessage,
      removeMessage]

/-- What a change of liquidity writes is of its account and pair. -/
theorem sharedOutcome_isOf {account : Address} {base quote : Token} {w v : Witness}
    {u : DoubleWitness} {after : Shared} (hbase : after.pool.base = base)
    (hquote : after.pool.quote = quote) : ∀ x ∈ (sharedOutcome roots account w v u after).writes,
      x.leaf.IsOf (some account) (some (base, quote)) := by
  simp [sharedOutcome, LeafValue.IsOf, hbase, hquote]

/-- What a trade writes is of its account and pair. -/
theorem tradedOutcome_isOf {c : PoolClaim} {after : Traded}
    (hbase : after.pool.base = c.pool.base) (hquote : after.pool.quote = c.pool.quote) :
    ∀ x ∈ (tradedOutcome roots c after).writes,
      x.leaf.IsOf (some c.account) (some (c.pool.base, c.pool.quote)) := by
  simp [tradedOutcome, LeafValue.IsOf, hbase, hquote]

/-- All that a step writes is of its actor and signed pair. -/
theorem writes_of_actor (h : t.outcome roots = .ok o) :
    ∀ w ∈ o.writes, w.leaf.IsOf t.actor? t.signedPair? := by
  -- the records written are named after the account of the step and the pool's own pair
  cases t with
  | genesis =>
      simp only [outcome, pure_eq_ok_iff] at h
      subst h
      simp
  | deposit a =>
      simp only [outcome, bind_eq_ok_iff, pure_eq_ok_iff] at h
      obtain ⟨amount, -, rfl⟩ := h
      simp [LeafValue.IsOf, actor?]
  | burn a =>
      simp only [outcome, bind_eq_ok_iff, pure_eq_ok_iff] at h
      obtain ⟨balance, -, burned, -, rfl⟩ := h
      simp [LeafValue.IsOf, actor?, signed?]
  | createPool a =>
      simp only [outcome, bind_eq_ok_iff, pure_eq_ok_iff] at h
      obtain ⟨after, hafter, rfl⟩ := h
      obtain ⟨-, hbase, hquote⟩ := Pool.opened_conserves hafter
      exact sharedOutcome_isOf hbase hquote
  | provideLiquidity a =>
      simp only [outcome, bind_eq_ok_iff, pure_eq_ok_iff] at h
      obtain ⟨after, hafter, rfl⟩ := h
      obtain ⟨-, hbase, hquote⟩ := Pool.provide_conserves hafter
      exact sharedOutcome_isOf hbase hquote
  | removeLiquidity a =>
      simp only [outcome, bind_eq_ok_iff, pure_eq_ok_iff] at h
      obtain ⟨after, hafter, rfl⟩ := h
      obtain ⟨-, hbase, hquote⟩ := Pool.remove_conserves hafter
      exact sharedOutcome_isOf hbase hquote
  | buy a =>
      simp only [outcome, bind_eq_ok_iff, pure_eq_ok_iff] at h
      obtain ⟨after, hafter, rfl⟩ := h
      obtain ⟨-, hbase, hquote⟩ := Pool.buy_conserves hafter
      exact tradedOutcome_isOf hbase hquote
  | sell a =>
      simp only [outcome, bind_eq_ok_iff, pure_eq_ok_iff] at h
      obtain ⟨after, hafter, rfl⟩ := h
      obtain ⟨-, hbase, hquote⟩ := Pool.sell_conserves hafter
      exact tradedOutcome_isOf hbase hquote

end Transition

/-! ## Leaves of the signer

Beside which records change, a signature bounds by how much.  A `Slot` is the place of an amount
or of points in the records, and the bounds are stated as what it gains or loses.  They come from
the terms on which a pool deals.
-/

/-- A leaf that is kept for one owner: its index, and the record there by the quantity that
the owner has. -/
structure Slot (α ρ : Type) where
  index : Nat
  record : α → ρ
  size : α → Nat

namespace Slot

variable {α ρ : Type}

/-- The leaf is its owner's before and after, and holds these quantities; it may never have
been written before. -/
def Goes (s : Slot α ρ) (before after : Nat → Option ρ) (prior : Option α) (now : α) : Prop :=
  before s.index = prior.map s.record ∧ after s.index = some (s.record now)

/-- The leaf is its owner's and grows by `n`, from nothing if it was never written. -/
def Gains (s : Slot α ρ) (before after : Nat → Option ρ) (n : Nat) : Prop :=
  ∃ prior now, s.Goes before after prior now ∧ s.size now = prior.elim 0 s.size + n

/-- The leaf is its owner's and shrinks by `n`. -/
def Loses (s : Slot α ρ) (before after : Nat → Option ρ) (n : Nat) : Prop :=
  ∃ prior now, s.Goes before after prior now ∧ prior.elim 0 s.size = s.size now + n

/-- The leaf of an account's amount of a token. -/
def ofAccount (index : UInt64) (account : Address) (token : Token) : Slot Amount AccountRecord :=
  ⟨index.toNat, AccountRecord.mk account token, UInt64.toNat⟩

/-- The leaf of a provider's points in a pair. -/
def ofPoints (index : UInt64) (provider : Address) (base quote : Token) : Slot Points Liquidity :=
  ⟨index.toNat, Liquidity.mk provider base quote, BitVec.toNat⟩

variable {index : UInt64} {account : Address} {token base quote : Token} {n : Nat}

theorem Goes.gains_amount {before after : Nat → Option AccountRecord} {prior : Option Amount}
    {now : Amount} (h : (ofAccount index account token).Goes before after prior now)
    (hn : now.toNat = (prior.getD 0).toNat + n) :
    (ofAccount index account token).Gains before after n :=
  ⟨prior, now, h, by cases prior <;> exact hn⟩

theorem Goes.loses_amount {before after : Nat → Option AccountRecord} {prior : Option Amount}
    {now : Amount} (h : (ofAccount index account token).Goes before after prior now)
    (hn : (prior.getD 0).toNat = now.toNat + n) :
    (ofAccount index account token).Loses before after n :=
  ⟨prior, now, h, by cases prior <;> exact hn⟩

theorem Goes.gains_points {before after : Nat → Option Liquidity} {prior : Option Points}
    {now : Points} (h : (ofPoints index account base quote).Goes before after prior now)
    (hn : now.toNat = (prior.getD 0).toNat + n) :
    (ofPoints index account base quote).Gains before after n :=
  ⟨prior, now, h, by cases prior <;> exact hn⟩

theorem Goes.loses_points {before after : Nat → Option Liquidity} {prior : Option Points}
    {now : Points} (h : (ofPoints index account base quote).Goes before after prior now)
    (hn : (prior.getD 0).toNat = now.toNat + n) :
    (ofPoints index account base quote).Loses before after n :=
  ⟨prior, now, h, by cases prior <;> exact hn⟩

end Slot

/-- The leaf of the account's base balance. -/
def PoolClaim.baseSlot (c : PoolClaim) : Slot Amount AccountRecord :=
  .ofAccount c.balanceWitness.indexes.1 c.account c.pool.base

/-- The leaf of the account's quote balance. -/
def PoolClaim.quoteSlot (c : PoolClaim) : Slot Amount AccountRecord :=
  .ofAccount c.balanceWitness.indexes.2 c.account c.pool.quote

/-- The leaf of the account's points. -/
def PoolClaim.pointsSlot (c : PoolClaim) (p : PointsClaim) : Slot Points Liquidity :=
  .ofPoints p.witness.index c.account c.pool.base c.pool.quote

namespace Transition

/-- What a step does to the leaves of its account.  Amounts that the message names are moved
exactly, and what is given or received for them keeps to the limit that it names. -/
def Moves (before after : Records) : Transition → Prop
  | .genesis => True
  | .deposit a =>
      (Slot.ofAccount a.witness.index a.deposit.account a.deposit.token).Gains
        before.balances after.balances a.deposit.amount.toNat
  | .burn a =>
      (Slot.ofAccount a.balanceWitness.index a.owner a.token).Loses
        before.balances after.balances a.amount.toNat ∧
      (Slot.ofAccount a.burnWitness.index a.owner a.token).Gains
        before.burns after.burns a.amount.toNat
  | .createPool a =>
      (Slot.ofAccount a.balanceWitness.indexes.1 a.provider a.base).Loses
        before.balances after.balances a.baseAmount.toNat ∧
      (Slot.ofAccount a.balanceWitness.indexes.2 a.provider a.quote).Loses
        before.balances after.balances a.quoteAmount.toNat ∧
      (Slot.ofPoints a.liquidityWitness.index a.provider a.base a.quote).Gains
        before.liquidities after.liquidities (a.baseAmount.toNat * a.quoteAmount.toNat)
  | .provideLiquidity a =>
      ∃ quoteIn ≤ a.quoteLimit, ∃ minted,
        a.claim.baseSlot.Loses before.balances after.balances a.baseIn.toNat ∧
        a.claim.quoteSlot.Loses before.balances after.balances quoteIn.toNat ∧
        (a.claim.pointsSlot a.points).Gains before.liquidities after.liquidities minted
  | .removeLiquidity a =>
      ∃ baseOut ≥ a.baseLimit, ∃ quoteOut ≤ a.quoteLimit,
        a.claim.baseSlot.Gains before.balances after.balances baseOut.toNat ∧
        a.claim.quoteSlot.Gains before.balances after.balances quoteOut.toNat ∧
        (a.claim.pointsSlot a.points).Loses before.liquidities after.liquidities a.redeemed.toNat
  | .buy a =>
      ∃ paid ≤ a.limit,
        a.claim.baseSlot.Gains before.balances after.balances a.amount.toNat ∧
        a.claim.quoteSlot.Loses before.balances after.balances paid.toNat
  | .sell a =>
      ∃ paid ≤ a.limit,
        a.claim.baseSlot.Loses before.balances after.balances paid.toNat ∧
        a.claim.quoteSlot.Gains before.balances after.balances a.amount.toNat

variable {t : Transition} {roots : StateRoots} {o : Outcome} {r : Records}

/-- The balances of a pair that are claimed truly go to what is written. -/
theorem pair_goes {w : DoubleWitness} {account : Address} {base quote : Token}
    {balances : PairBalances} {pool : Pool} {x y : Amount} (hne : w.indexes.1 ≠ w.indexes.2)
    (hholds : (pairOpening w account base quote balances).Holds r.balances)
    (hbase : pool.base = base) (hquote : pool.quote = quote) :
    let after := writeAt r.balances
      [(w.indexes.1.toNat, ⟨account, pool.base, x⟩), (w.indexes.2.toNat, ⟨account, pool.quote, y⟩)]
    (Slot.ofAccount w.indexes.1 account base).Goes r.balances after balances.base x ∧
      (Slot.ofAccount w.indexes.2 account quote).Goes r.balances after balances.quote y := by
  subst hbase hquote
  have hne' : w.indexes.1.toNat ≠ w.indexes.2.toNat := fun h => hne (UInt64.toNat_inj.mp h)
  exact ⟨⟨hholds.1.symm, (Function.update_of_ne hne' _ _).trans (Function.update_self ..)⟩,
    ⟨hholds.2.symm, Function.update_self ..⟩⟩

/-- The points that are claimed truly go to what is written. -/
theorem points_goes {w : Witness} {base quote : Token} {pool : Pool} (account : Address)
    (prior : Option Points) (points : Points)
    (hholds : Option.map (Liquidity.mk account base quote) prior = r.liquidities w.index.toNat)
    (hbase : pool.base = base) (hquote : pool.quote = quote) :
    (Slot.ofPoints w.index account base quote).Goes r.liquidities
      (writeAt r.liquidities [(w.index.toNat, ⟨account, pool.base, pool.quote, points⟩)])
      prior points := by
  subst hbase hquote
  exact ⟨hholds.symm, Function.update_self ..⟩

/-- A step with true claims moves what was signed for. -/
theorem moves_of_outcome (hfits : t.Fits) (hholds : t.Holds r) (h : t.outcome roots = .ok o) :
    t.Moves r (r.writeAll o.writes) := by
  -- each method: its claims are the records before, its writes those after, its terms the
  -- difference
  cases t with
  | genesis => trivial
  | deposit a =>
      simp only [outcome, bind_eq_ok_iff, pure_eq_ok_iff, credit_eq_ok_iff] at h
      obtain ⟨amount, hamount, rfl⟩ := h
      exact Slot.Goes.gains_amount ⟨hholds.balances.symm, Function.update_self ..⟩ hamount
  | burn a =>
      simp only [outcome, bind_eq_ok_iff, pure_eq_ok_iff, credit_eq_ok_iff, debit_eq_ok_iff] at h
      obtain ⟨balance, hbalance, burned, hburned, rfl⟩ := h
      exact ⟨Slot.Goes.loses_amount ⟨hholds.balances.symm, Function.update_self ..⟩ hbalance,
        Slot.Goes.gains_amount ⟨hholds.burns.symm, Function.update_self ..⟩ hburned⟩
  | createPool a =>
      simp only [outcome, bind_eq_ok_iff, pure_eq_ok_iff] at h
      obtain ⟨after, hafter, rfl⟩ := h
      obtain ⟨-, hb, hq⟩ := Pool.opened_conserves hafter
      have hterms := Pool.opened_terms hafter
      obtain ⟨hbase, hquote⟩ := pair_goes hfits.balances.2 hholds.balances hb hq
      have hpoints := points_goes a.provider none after.points hholds.liquidities hb hq
      exact ⟨hbase.loses_amount hterms.base, hquote.loses_amount hterms.quote,
        hpoints.gains_points (by simpa using hterms.points)⟩
  | provideLiquidity a =>
      simp only [outcome, bind_eq_ok_iff, pure_eq_ok_iff] at h
      obtain ⟨after, hafter, rfl⟩ := h
      obtain ⟨-, hb, hq⟩ := Pool.provide_conserves hafter
      obtain ⟨quoteIn, hlimit, minted, hterms⟩ := Pool.provide_terms hafter
      obtain ⟨hbase, hquote⟩ := pair_goes hfits.balances.2 hholds.balances hb hq
      have hpoints := points_goes a.claim.account a.points.prior after.points hholds.liquidities
        hb hq
      exact ⟨quoteIn, hlimit, minted.toNat, hbase.loses_amount hterms.base,
        hquote.loses_amount hterms.quote, hpoints.gains_points hterms.points⟩
  | removeLiquidity a =>
      simp only [outcome, bind_eq_ok_iff, pure_eq_ok_iff] at h
      obtain ⟨after, hafter, rfl⟩ := h
      obtain ⟨-, hb, hq⟩ := Pool.remove_conserves hafter
      obtain ⟨baseOut, hbaseLimit, quoteOut, hquoteLimit, hterms⟩ := Pool.remove_terms hafter
      obtain ⟨hbase, hquote⟩ := pair_goes hfits.balances.2 hholds.balances hb hq
      have hpoints := points_goes a.claim.account a.points.prior after.points hholds.liquidities
        hb hq
      exact ⟨baseOut, hbaseLimit, quoteOut, hquoteLimit, hbase.gains_amount hterms.base,
        hquote.gains_amount hterms.quote, hpoints.loses_points hterms.points⟩
  | buy a =>
      simp only [outcome, bind_eq_ok_iff, pure_eq_ok_iff] at h
      obtain ⟨after, hafter, rfl⟩ := h
      obtain ⟨-, hb, hq⟩ := Pool.buy_conserves hafter
      obtain ⟨paid, hlimit, hterms⟩ := Pool.buy_terms hafter
      obtain ⟨hbase, hquote⟩ := pair_goes hfits.balances.2 hholds.balances hb hq
      exact ⟨paid, hlimit, hbase.gains_amount hterms.base, hquote.loses_amount hterms.quote⟩
  | sell a =>
      simp only [outcome, bind_eq_ok_iff, pure_eq_ok_iff] at h
      obtain ⟨after, hafter, rfl⟩ := h
      obtain ⟨-, hb, hq⟩ := Pool.sell_conserves hafter
      obtain ⟨paid, hlimit, hterms⟩ := Pool.sell_terms hafter
      obtain ⟨hbase, hquote⟩ := pair_goes hfits.balances.2 hholds.balances hb hq
      exact ⟨paid, hlimit, hbase.loses_amount hterms.base, hquote.gains_amount hterms.quote⟩

/-! ## Accepted steps

The claims of an accepted step are true, so what it writes is known, and what it changes is known
from that.
-/

/-- What was agreed to in a step, by what stands behind the trees before and after it. -/
structure Authorized (v : Verifiers) (t : Transition) (before after : Records) : Prop where
  /-- All but genesis and deposits are signed by the account that they are for. -/
  signed : t = .genesis ∨ (∃ a, t = .deposit a) ∨
    ∃ s, t.signed? = some s ∧ t.actor? = some s.signer ∧
      v.signatures s.signer s.message s.signature = true
  /-- Balances of no other account change. -/
  balances : ChangesOnly (fun b => t.actor? = some b.account) before.balances after.balances
  /-- Points of no other account change, nor points in another pair. -/
  liquidities : ChangesOnly
    (fun l => t.actor? = some l.provider ∧ t.signedPair? = some (l.base, l.quote))
    before.liquidities after.liquidities
  /-- Pools of no other pair change. -/
  pools : ChangesOnly (fun p => t.signedPair? = some (p.base, p.quote)) before.pools after.pools
  /-- Burns of no other account change. -/
  burns : ChangesOnly (fun b => t.actor? = some b.account) before.burns after.burns
  /-- No leaf changes that the step does not open. -/
  beside : t.Each fun view o => ∀ i ∉ o.indexes, view.records after i = view.records before i
  /-- The leaves that it opens change by what was signed. -/
  moves : t.Moves before after

/-- A step that passes the check of its signature is signed, if it must be. -/
theorem signed_of_checkSignature {v : Verifiers} (h : t.checkSignature v = .ok ()) :
    t = .genesis ∨ (∃ a, t = .deposit a) ∨
      ∃ s, t.signed? = some s ∧ t.actor? = some s.signer ∧
        v.signatures s.signer s.message s.signature = true := by
  cases t with
  | genesis => exact .inl rfl
  | deposit a => exact .inr (.inl ⟨a, rfl⟩)
  | burn a | createPool a | provideLiquidity a | removeLiquidity a | buy a | sell a =>
      refine .inr (.inr ⟨_, rfl, rfl, ?_⟩)
      simp only [checkSignature, signed?] at h
      split at h
      · assumption
      · contradiction

/-- **No account is debited beyond what it signed.**  A step that is accepted on the roots of
some trees, with the flags that its witness calls for, changes the records behind them only
as far as was agreed to; and these are the records behind the trees that its writes lead
to, whose roots it gives. -/
theorem execute_authorized {trees : StateTrees} {v : Verifiers} {earlier : Option Proof}
    (hstores : trees.Stores r) (hc : CollisionFree (r.preimages ∪ t.preimages))
    (hflags : t.balanceOpening.Flagged) (h : t.execute v trees.roots earlier = .ok o) :
    (∃ next, trees.replay o.writes = .ok next ∧ next.Stores (r.writeAll o.writes) ∧
      next.roots = o.roots) ∧
    t.Authorized v r (r.writeAll o.writes) := by
  rw [hstores.roots_eq, execute_eq_ok_iff] at h
  obtain ⟨-, hfits, hsignature, ⟨hfolds, -⟩, houtcome⟩ := h
  -- the roots bind the claims, which is all that the rest needs of the witnesses
  obtain ⟨hholds, hopens⟩ := holds_of_foldsTo hc Set.subset_union_left Set.subset_union_right
    hfits hflags hfolds
  have hgives := outcome_gives houtcome
  have hwrites := writes_of_actor houtcome
  obtain ⟨hbalances, hliquidities, hpools, hburns⟩ := openings_of_actor t
  refine ⟨outcome_replay hstores hfits hopens houtcome,
    { signed := signed_of_checkSignature hsignature
      balances := hgives.balances.changesOnly hholds.balances hbalances ?_
      liquidities := hgives.liquidities.changesOnly hholds.liquidities hliquidities ?_
      pools := hgives.pools.changesOnly hholds.pools hpools ?_
      burns := hgives.burns.changesOnly hholds.burns hburns ?_
      beside := hgives.mp fun view o hgive i hi => ?_
      moves := moves_of_outcome hfits hholds houtcome }⟩
  · exact forall_writesOf hwrites fun leaf b hleaf hb => by cases leaf <;> cases hb; exact hleaf
  · exact forall_writesOf hwrites fun leaf l hleaf hl => by cases leaf <;> cases hl; exact hleaf
  · exact forall_writesOf hwrites fun leaf p hleaf hp => by cases leaf <;> cases hp; exact hleaf
  · exact forall_writesOf hwrites fun leaf b hleaf hb => by cases leaf <;> cases hb; exact hleaf
  · rw [view.records_writeAll]
    exact hgive.eq_of_notMem hi

open RollupState

/-! ## An instance

The opening of a pool that is signed for, where the account gives what the message names and no
more.
-/

/-- The account signs for a pool with two and three of what it has, and gives no more. -/
theorem execute_authorized_opening :
    prepared.trees.Stores prepared.records ∧
      CollisionFree (prepared.records.preimages ∪ openingStep.transition.preimages) ∧
      openingStep.transition.balanceOpening.Flagged ∧
      openingStep.transition.execute openingStep.verifiers prepared.trees.roots
        openingStep.earlier = .ok openingStep.outcome ∧
      openingStep.transition.Authorized openingStep.verifiers prepared.records
        (prepared.records.writeAll openingStep.outcome.writes) := by
  have hstores := prepared_reachable.valid.stores
  have hflags : openingStep.transition.balanceOpening.Flagged := asked_opening.flagged
  exact ⟨hstores, openingStep_collisionFree, hflags, openingStep_accepted,
    (execute_authorized hstores openingStep_collisionFree hflags openingStep_accepted).2⟩

end Transition

end AmmRollup
