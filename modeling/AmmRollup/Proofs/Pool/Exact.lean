import AmmRollup.Proofs.Pool.Terms
import AmmRollup.Proofs.Pool.Words
import Mathlib.Algebra.Order.Floor.Semifield
import Mathlib.Data.Rat.Floor

/-!
# AmmRollup.Proofs.Pool.Exact

Prices are exact.  Each is a formula over unbounded numbers, computed step by step, and every
step is rounded down (`floorRatio`).  One lemma for each price says when it is given, what it
is then, and for which reasons it is refused (`swapCost_decides`, `swapPrice_decides`,
`provideAmounts_decides`, `removeAmounts_decides`).  Past the checks for zero the only reason
is a step that does not fit its width, and swaps are never dearer for less
(`pricing_exact`).
-/

namespace AmmRollup

/-! ## Formulas

The formulas are stated with rational numbers and a floor, as a reader would write them, and are
shown to be the quotients that are computed.
-/

/-- The product of two numbers over a third, rounded down. -/
def floorRatio (a b d : Nat) : Nat := ⌊(a * b / d : ℚ)⌋₊

/-- The floor of the ratio is the quotient of whole numbers. -/
theorem floorRatio_eq (a b d : Nat) : floorRatio a b d = a * b / d := by
  rw [floorRatio, ← Nat.cast_mul, Nat.floor_div_eq_div]

/-- What one reserve must come to for the product of both to stay when `out` leaves the other. -/
def reserveRequired (reserveOut reserveIn out : Nat) : Nat :=
  floorRatio reserveOut reserveIn (reserveOut - out)

/-- A price with the fee of one in a thousand. -/
def withFee (cost : Nat) : Nat := floorRatio cost 1001 1000

/-- What is paid for `out`: what the other reserve lacks to the one required, and the fee. -/
def swapPrice (reserveOut reserveIn out : Nat) : Nat :=
  withFee (reserveRequired reserveOut reserveIn out - reserveIn)

/-! ## Steps

Every number passes a few checks on its way: for zero, for what is there to take, and for a
width.  Each is decided: it succeeds on its condition, and is refused for a reason of its own.
-/

variable (R : AmountError → Prop)

theorem narrowAmount_decides (hr : R .overflow) (n : Nat) :
    Decides R (narrowAmount n) (n < 2 ^ 64) fun a => a.toNat = n := by
  rw [narrowAmount, Nat.one_shiftLeft]
  split
  · next h =>
      exact ⟨fun _ => ⟨_, rfl, UInt64.toNat_ofNat'.trans (Nat.mod_eq_of_lt h)⟩, (absurd h ·)⟩
  · next h => exact ⟨fun h' => absurd h' h, fun _ => ⟨_, rfl, hr⟩⟩

theorem narrowPoints_decides (hr : R .overflow) (n : Nat) :
    Decides R (narrowPoints n) (n < 2 ^ 128) fun p => p.toNat = n := by
  rw [narrowPoints, Nat.one_shiftLeft]
  split
  · next h =>
      exact ⟨fun _ => ⟨_, rfl, (BitVec.toNat_ofNat n 128).trans (Nat.mod_eq_of_lt h)⟩,
        (absurd h ·)⟩
  · next h => exact ⟨fun h' => absurd h' h, fun _ => ⟨_, rfl, hr⟩⟩

theorem requireNonzero_decides {n : Nat} {quantity : Quantity}
    (hr : 0 < n ∨ R (.zero quantity)) :
    Decides R (requireNonzero n quantity) (0 < n) fun _ => 0 < n := by
  rw [requireNonzero]
  split
  · next h => exact ⟨fun h' => absurd h h'.ne', fun h' => ⟨_, rfl, hr.resolve_left h'⟩⟩
  · next h => exact ⟨fun h' => ⟨(), rfl, h'⟩, fun h' => absurd (Nat.pos_of_ne_zero h) h'⟩

theorem debit_decides (prior : Option Amount) (amount : Amount)
    (hr : amount.toNat ≤ (prior.getD 0).toNat ∨ R .underflow) :
    Decides R (debit prior amount) (amount.toNat ≤ (prior.getD 0).toNat)
      fun a => a.toNat = (prior.getD 0).toNat - amount.toNat := by
  rw [debit, ← UInt64.le_iff_toNat_le]
  split
  · next h => exact ⟨fun _ => ⟨_, rfl, UInt64.toNat_sub_of_le _ _ h⟩, (absurd h ·)⟩
  · next h =>
      exact ⟨fun h' => absurd h' h, fun h' =>
        ⟨_, rfl, hr.resolve_left fun hle => h (UInt64.le_iff_toNat_le.mpr hle)⟩⟩

/-! ## Prices

The prices are sequences of those checks.  `Decides` carries the conditions along, so the
condition for a price is read off in the order in which the checks are made.
-/

theorem applyFee_decides (hr : R .overflow) (amount : Amount) :
    Decides R (applyFee amount) (withFee amount.toNat < 2 ^ 64)
      fun paid => paid.toNat = withFee amount.toNat := by
  rw [applyFee, withFee, floorRatio_eq]
  exact narrowAmount_decides R hr _

/-- What is required is no less than what is there. -/
theorem le_reserveRequired {reserveOut out : Nat} (reserveIn : Nat) (h : out < reserveOut) :
    reserveIn ≤ reserveRequired reserveOut reserveIn out := by
  rw [reserveRequired, floorRatio_eq, Nat.le_div_iff_mul_le (by omega), Nat.mul_comm]
  exact Nat.mul_le_mul_right reserveIn (Nat.sub_le reserveOut out)

/-- The cost of a swap is computed exactly when the swap leaves something and what is required fits,
and it is what the other reserve lacks of that. -/
theorem swapCost_decides (hover : R .overflow) (reserveOut reserveIn out : Amount)
    (hunder : out.toNat ≤ reserveOut.toNat ∨ R .underflow)
    (hzero : out.toNat < reserveOut.toNat ∨ R (.zero .poolReserveAfterSwap)) :
    Decides R (swapCost reserveOut reserveIn out)
      (out.toNat < reserveOut.toNat ∧
        reserveRequired reserveOut.toNat reserveIn.toNat out.toNat < 2 ^ 64)
      fun cost => cost.toNat =
        reserveRequired reserveOut.toNat reserveIn.toNat out.toNat - reserveIn.toNat := by
  have hrest (left : Amount) (hleft : left.toNat = reserveOut.toNat - out.toNat) :
      Decides R (do
          requireNonzero left.toNat .poolReserveAfterSwap
          let required ← narrowAmount (reserveOut.toNat * reserveIn.toNat / left.toNat)
          debit (some required) reserveIn)
        (0 < reserveOut.toNat - out.toNat ∧
          reserveRequired reserveOut.toNat reserveIn.toNat out.toNat < 2 ^ 64 ∧ True)
        fun cost => cost.toNat =
          reserveRequired reserveOut.toNat reserveIn.toNat out.toNat - reserveIn.toNat := by
    rw [hleft, ← floorRatio_eq, ← reserveRequired]
    refine (requireNonzero_decides R (hzero.imp_left (by omega))).bind fun _ hpos => ?_
    refine (narrowAmount_decides R hover _).bind fun required hrequired => ?_
    -- what is required is no less than the reserve, so taking the reserve off never underflows
    have hle := le_reserveRequired reserveIn.toNat (Nat.lt_of_sub_pos hpos)
    rw [← hrequired] at hle ⊢
    exact (debit_decides R (some required) reserveIn (.inl hle)).congr (iff_of_true hle trivial)
  refine ((debit_decides R (some reserveOut) out hunder).bind hrest).congr ?_
  rw [Option.getD_some, and_true]
  omega

/-- The price is the cost with its fee, and must fit as well. -/
theorem swapPrice_decides (hover : R .overflow) (reserveOut reserveIn out : Amount)
    (hunder : out.toNat ≤ reserveOut.toNat ∨ R .underflow)
    (hzero : out.toNat < reserveOut.toNat ∨ R (.zero .poolReserveAfterSwap)) :
    Decides R (swapCost reserveOut reserveIn out >>= applyFee)
      (out.toNat < reserveOut.toNat ∧
        reserveRequired reserveOut.toNat reserveIn.toNat out.toNat < 2 ^ 64 ∧
        swapPrice reserveOut.toNat reserveIn.toNat out.toNat < 2 ^ 64)
      fun paid => paid.toNat = swapPrice reserveOut.toNat reserveIn.toNat out.toNat := by
  refine ((swapCost_decides R hover reserveOut reserveIn out hunder hzero).bind
    fun cost hcost => ?_).congr and_assoc
  rw [swapPrice, ← hcost]
  exact applyFee_decides R hover cost

theorem provideAmounts_decides (hover : R .overflow) {pool : Pool} {baseIn : Amount}
    (hin : 0 < baseIn.toNat ∨ R (.zero .baseAmount))
    (hbase : 0 < pool.baseAmount.toNat ∨ R (.zero .poolBase)) :
    Decides R (provideAmounts pool baseIn)
      (0 < baseIn.toNat ∧ 0 < pool.baseAmount.toNat ∧
        floorRatio pool.totalPoints.toNat baseIn.toNat pool.baseAmount.toNat < 2 ^ 128 ∧
        floorRatio baseIn.toNat pool.quoteAmount.toNat pool.baseAmount.toNat < 2 ^ 64)
      fun amounts =>
        amounts.1.toNat =
          floorRatio baseIn.toNat pool.quoteAmount.toNat pool.baseAmount.toNat ∧
        amounts.2.toNat =
          floorRatio pool.totalPoints.toNat baseIn.toNat pool.baseAmount.toNat := by
  rw [floorRatio_eq, floorRatio_eq, provideAmounts]
  refine (requireNonzero_decides R hin).bind fun _ _ => ?_
  refine (requireNonzero_decides R hbase).bind fun _ _ => ?_
  refine (narrowPoints_decides R hover _).bind fun minted hminted => ?_
  exact (narrowAmount_decides R hover _).bind_ok fun quoteIn hquoteIn =>
    .of_ok rfl ⟨hquoteIn, hminted⟩

theorem removeAmounts_decides (hover : R .overflow) {pool : Pool} {points : Points}
    (hpoints : 0 < points.toNat ∨ R (.zero .points))
    (htotal : 0 < pool.totalPoints.toNat ∨ R (.zero .poolPoints))
    (hbase : 0 < pool.baseAmount.toNat ∨ R (.zero .poolBase)) :
    Decides R (removeAmounts pool points)
      (0 < points.toNat ∧ 0 < pool.totalPoints.toNat ∧ 0 < pool.baseAmount.toNat ∧
        floorRatio pool.baseAmount.toNat points.toNat pool.totalPoints.toNat < 2 ^ 64 ∧
        floorRatio pool.quoteAmount.toNat points.toNat pool.totalPoints.toNat < 2 ^ 64)
      fun amounts =>
        amounts.1.toNat =
          floorRatio pool.baseAmount.toNat points.toNat pool.totalPoints.toNat ∧
        amounts.2.toNat =
          floorRatio pool.quoteAmount.toNat points.toNat pool.totalPoints.toNat := by
  rw [floorRatio_eq, floorRatio_eq, removeAmounts]
  refine (requireNonzero_decides R hpoints).bind fun _ _ => ?_
  refine (requireNonzero_decides R htotal).bind fun _ _ => ?_
  refine (requireNonzero_decides R hbase).bind fun _ _ => ?_
  refine (narrowAmount_decides R hover _).bind fun baseOut hbaseOut => ?_
  exact (narrowAmount_decides R hover _).bind_ok fun quoteOut hquoteOut =>
    .of_ok rfl ⟨hbaseOut, hquoteOut⟩

/-! ## Larger amounts

Prices grow with the amount, and a smaller amount can be had wherever a larger can.  Both follow
from the formulas, whose conditions and values grow.
-/

/-- The more is taken out, the more it costs; and what is less can be had where what is more can. -/
def NeverDearer (price : Amount → Except AmountError Amount) : Prop :=
  ∀ out out' paid', out ≤ out' → price out' = .ok paid' →
    ∃ paid ≤ paid', price out = .ok paid

/-- A price that is decided by growing conditions and values grows itself. -/
theorem neverDearer_of_decides {price : Amount → Except AmountError Amount}
    {fits : Amount → Prop} {value : Amount → Nat}
    (h : ∀ out, Decides R (price out) (fits out) fun paid => paid.toNat = value out)
    (hmono : ∀ out out', out.toNat ≤ out'.toNat → fits out' → fits out ∧ value out ≤ value out') :
    NeverDearer price := by
  intro out out' paid' hle hpaid'
  obtain ⟨hfits', hvalue'⟩ := (h out').of_eq_ok hpaid'
  obtain ⟨hfits, hvalue⟩ := hmono out out' (UInt64.le_iff_toNat_le.mp hle) hfits'
  obtain ⟨paid, hpaid, hgives⟩ := (h out).value hfits
  refine ⟨paid, UInt64.le_iff_toNat_le.mpr ?_, hpaid⟩
  rwa [hgives, hvalue']

/-- The less stays of the one reserve, the more is required of the other. -/
theorem reserveRequired_mono {reserveOut out out' : Nat} (reserveIn : Nat) (hle : out ≤ out')
    (hlt : out' < reserveOut) :
    reserveRequired reserveOut reserveIn out ≤ reserveRequired reserveOut reserveIn out' := by
  rw [reserveRequired, reserveRequired, floorRatio_eq, floorRatio_eq]
  exact Nat.div_le_div_left (Nat.sub_le_sub_left hle reserveOut) (Nat.sub_pos_of_lt hlt)

theorem withFee_mono {cost cost' : Nat} (h : cost ≤ cost') : withFee cost ≤ withFee cost' := by
  rw [withFee, withFee, floorRatio_eq, floorRatio_eq]
  exact Nat.div_le_div_right (Nat.mul_le_mul_right 1001 h)

theorem swapCost_neverDearer (reserveOut reserveIn : Amount) :
    NeverDearer (swapCost reserveOut reserveIn) := by
  refine neverDearer_of_decides (fun _ => True) (fun out =>
    swapCost_decides _ trivial reserveOut reserveIn out (.inr trivial) (.inr trivial)) ?_
  rintro out out' hle ⟨hleft, hrequired⟩
  have hmono := reserveRequired_mono reserveIn.toNat hle hleft
  exact ⟨⟨by omega, by omega⟩, by omega⟩

/-- A swap is not dearer for a smaller amount, with the fee as without. -/
theorem swapPrice_neverDearer (reserveOut reserveIn : Amount) :
    NeverDearer fun out => swapCost reserveOut reserveIn out >>= applyFee := by
  refine neverDearer_of_decides (fun _ => True) (fun out =>
    swapPrice_decides _ trivial reserveOut reserveIn out (.inr trivial) (.inr trivial)) ?_
  rintro out out' hle ⟨hleft, hrequired, hprice⟩
  have hmono := reserveRequired_mono reserveIn.toNat hle hleft
  have hfee := withFee_mono (Nat.sub_le_sub_right hmono reserveIn.toNat)
  rw [← swapPrice, ← swapPrice] at hfee
  exact ⟨⟨by omega, by omega, by omega⟩, hfee⟩

/-- Only an amount beyond the reserve is too much to take away: what is required of the other is
never less than what is there. -/
theorem swapCost_eq_underflow_iff {reserveOut reserveIn out : Amount} :
    swapCost reserveOut reserveIn out = .error .underflow ↔ reserveOut < out := by
  constructor
  · intro h
    by_contra hle
    rw [UInt64.not_lt, UInt64.le_iff_toNat_le] at hle
    have hdecides := swapCost_decides (· ≠ .underflow) nofun reserveOut reserveIn out (.inl hle)
      (.inr nofun)
    exact (hdecides.of_eq_error h).2 rfl
  · intro hlt
    have hdebit : debit (some reserveOut) out = .error .underflow :=
      if_neg (UInt64.not_le.mpr hlt)
    rw [swapCost, hdebit]
    rfl

/-! ## Exactness

All of it put together, for any pool and in both directions: the value where there is one, the
refusal where there is none, the same on words as on numbers, and how prices grow.
-/

/-- Swaps out of one reserve into another are priced exactly, and never dearer for less. -/
structure ExactSwap (reserveOut reserveIn : Amount) (price : Amount → Except AmountError Amount) :
    Prop where
  exact : ∀ out < reserveOut, Decides (· = .overflow) (price out)
    (reserveRequired reserveOut.toNat reserveIn.toNat out.toNat < 2 ^ 64 ∧
      swapPrice reserveOut.toNat reserveIn.toNat out.toNat < 2 ^ 64)
    fun paid => paid.toNat = swapPrice reserveOut.toNat reserveIn.toNat out.toNat
  neverDearer : NeverDearer price

/-- Swaps are priced exactly. -/
theorem exactSwap (reserveOut reserveIn : Amount) :
    ExactSwap reserveOut reserveIn fun out => swapCost reserveOut reserveIn out >>= applyFee := by
  refine ⟨fun out hlt => ?_, swapPrice_neverDearer reserveOut reserveIn⟩
  have hout : out.toNat < reserveOut.toNat := UInt64.lt_iff_toNat_lt.mp hlt
  exact (swapPrice_decides (· = .overflow) rfl reserveOut reserveIn out (.inl hout.le)
    (.inl hout)).congr (and_iff_right hout)

/-- The quote to add for some base and the points to issue for it are exact. -/
def ExactProvision (pool : Pool) (baseIn : Amount) : Prop :=
  Decides (· = .overflow) (provideAmounts pool baseIn)
    (floorRatio pool.totalPoints.toNat baseIn.toNat pool.baseAmount.toNat < 2 ^ 128 ∧
      floorRatio baseIn.toNat pool.quoteAmount.toNat pool.baseAmount.toNat < 2 ^ 64)
    fun amounts =>
      amounts.1.toNat = floorRatio baseIn.toNat pool.quoteAmount.toNat pool.baseAmount.toNat ∧
      amounts.2.toNat = floorRatio pool.totalPoints.toNat baseIn.toNat pool.baseAmount.toNat

/-- The base and the quote to give back for some points are exact. -/
def ExactRemoval (pool : Pool) (points : Points) : Prop :=
  Decides (· = .overflow) (removeAmounts pool points)
    (floorRatio pool.baseAmount.toNat points.toNat pool.totalPoints.toNat < 2 ^ 64 ∧
      floorRatio pool.quoteAmount.toNat points.toNat pool.totalPoints.toNat < 2 ^ 64)
    fun amounts =>
      amounts.1.toNat = floorRatio pool.baseAmount.toNat points.toNat pool.totalPoints.toNat ∧
      amounts.2.toNat = floorRatio pool.quoteAmount.toNat points.toNat pool.totalPoints.toNat

/-- What is added to a pool is computed exactly. -/
theorem exactProvision {pool : Pool} {baseIn : Amount} (hin : 0 < baseIn.toNat)
    (hbase : 0 < pool.baseAmount.toNat) : ExactProvision pool baseIn :=
  (provideAmounts_decides (· = .overflow) rfl (.inl hin) (.inl hbase)).congr
    (by simp only [hin, hbase, true_and])

/-- What is taken from a pool is computed exactly. -/
theorem exactRemoval {pool : Pool} {points : Points} (hpoints : 0 < points.toNat)
    (htotal : 0 < pool.totalPoints.toNat) (hbase : 0 < pool.baseAmount.toNat) :
    ExactRemoval pool points :=
  (removeAmounts_decides (· = .overflow) rfl (.inl hpoints) (.inl htotal) (.inl hbase)).congr
    (by simp only [hpoints, htotal, hbase, true_and])

/-- **Prices are exact.**  Past its checks for zero and for what the reserve holds, each of them
gives its formula, rounded down step by step, and is refused exactly where a step is too wide.
Words of 256 bits give the same, for no product of theirs wraps.  A swap asks for more than a
reserve holds only when too much is taken out of it, and costs no more for a smaller amount. -/
theorem pricing_exact :
    (∀ amount, Words.applyFee amount = applyFee amount ∧
      Decides (· = .overflow) (applyFee amount) (withFee amount.toNat < 2 ^ 64)
        fun paid => paid.toNat = withFee amount.toNat) ∧
    (∀ base quote, Words.buyCost base quote = buyCost base quote ∧
      Words.sellCost base quote = sellCost base quote ∧
      ExactSwap base quote (buyCost base quote) ∧ ExactSwap quote base (sellCost base quote)) ∧
    (∀ pool baseIn, Words.provideAmounts pool baseIn = provideAmounts pool baseIn ∧
      (0 < baseIn.toNat → 0 < pool.baseAmount.toNat → ExactProvision pool baseIn)) ∧
    (∀ pool points, Words.removeAmounts pool points = removeAmounts pool points ∧
      (0 < points.toNat → 0 < pool.totalPoints.toNat → 0 < pool.baseAmount.toNat →
        ExactRemoval pool points)) ∧
    (∀ (a b : Amount) (p : Points),
      (Words.ofAmount a * Words.ofAmount b).toNat = a.toNat * b.toNat ∧
      (Words.ofPoints p * Words.ofAmount a).toNat = p.toNat * a.toNat) ∧
    ∀ reserveOut reserveIn, NeverDearer (swapCost reserveOut reserveIn) ∧
      ∀ out, swapCost reserveOut reserveIn out = .error .underflow ↔ reserveOut < out := by
  refine ⟨fun amount => ⟨Words.applyFee_eq amount, applyFee_decides (· = .overflow) rfl amount⟩,
    fun base quote => ⟨?_, ?_, exactSwap base quote, exactSwap quote base⟩,
    fun pool baseIn => ⟨Words.provideAmounts_eq pool baseIn, exactProvision⟩,
    fun pool points => ⟨Words.removeAmounts_eq pool points, exactRemoval⟩,
    fun a b p => ⟨Words.toNat_amount_mul_amount a b, Words.toNat_points_mul_amount p a⟩,
    fun reserveOut reserveIn => ⟨swapCost_neverDearer reserveOut reserveIn,
      fun out => swapCost_eq_underflow_iff⟩⟩
  · exact funext fun out => Words.buyCost_eq base quote out
  · exact funext fun out => Words.sellCost_eq base quote out

/-- A pool with as much of either token as there can be, and a single point for all of it. -/
def Pool.brimful : Pool := ⟨.ofBytes [1], .ofBytes [2], 0 - 1, 0 - 1, 1⟩

/-- Where all but one of the fullest reserve is taken out, what is required of the other has twice
its width.  Two points of the single one would get twice the reserves, and one more base gets no
whole point.  What costs four for three costs no more for two. -/
theorem pricing_exact_brimful :
    buyCost (0 - 1) (0 - 1) (0 - 2) = .error .overflow ∧
    (∃ paid ≤ 4, sellCost 10 10 2 = .ok paid) ∧
    (∃ amounts, provideAmounts .brimful 1 = .ok amounts ∧
      amounts.1.toNat = 1 ∧ amounts.2.toNat = 0) ∧
    removeAmounts .brimful 2 = .error .overflow := by
  obtain ⟨-, hswap, hprovide, hremove, -, -⟩ := pricing_exact
  obtain ⟨-, -, hbuy, -⟩ := hswap (0 - 1) (0 - 1)
  obtain ⟨-, -, -, hsell⟩ := hswap 10 10
  have hprovision := (hprovide .brimful 1).2 (by decide) (by decide)
  have hremoval := (hremove .brimful 2).2 (by decide) (by decide) (by decide)
  obtain ⟨e, hbuy, rfl⟩ := (hbuy.exact (0 - 2) (by decide)).refused (by
    rw [reserveRequired, floorRatio_eq]
    decide)
  refine ⟨hbuy, hsell.neverDearer 2 3 4 (by decide) (by decide), ?_, ?_⟩
  -- floors become quotients, which evaluate
  · rw [ExactProvision, floorRatio_eq, floorRatio_eq] at hprovision
    exact hprovision.value (by decide)
  · obtain ⟨e, hremoval, rfl⟩ := hremoval.refused (by
      rw [floorRatio_eq]
      decide)
    exact hremoval

end AmmRollup
