import AmmRollup.Keys
import AmmRollup.Proofs.Digest
import AmmRollup.Proofs.Transition.Outcome

/-!
# AmmRollup.Proofs.Transition.Messages

What a signature stands for.  A message does not name the method that it is signed for, so
methods are told apart by the layout of their messages alone.  Burns and redemptions have
layouts of their own.  Opening a pool, adding to it, buying and selling share one, a pair
and two amounts (`PairTerms`), and steps of these methods on the same terms share their
messages.

* `concat_message_eq_iff` — when steps of different methods have one message.
-/

namespace AmmRollup

/-! ## Layouts

The messages have no method in them, only values: four for opening a pool, adding to one and both
trades, five for taking out of one and two for a burn.  Messages of different lengths are
different, so only the methods of four values can share one.
-/

/-- The number of values in the message of a method. -/
def Method.signedValues : Method → Nat
  | .burn => 2
  | .createPool | .provideLiquidity | .buy | .sell => 4
  | .removeLiquidity => 5
  | .genesis | .deposit | .merge => 0

/-- Methods with as many signed values have four, or none. -/
theorem Method.signedValues_eq_four {m n : Method} (hne : m ≠ n)
    (h : m.signedValues = n.signedValues) (hpos : 0 < m.signedValues) : m.signedValues = 4 := by
  cases m <;> cases n <;> simp_all [signedValues]

/-- The pair and the two amounts that a message of four values names. -/
structure PairTerms where
  base : Token
  quote : Token
  first : Amount
  second : Amount
deriving DecidableEq

/-- The message that names them. -/
def PairTerms.message (p : PairTerms) : List Bytes32 :=
  pairMessage p.base p.quote p.first p.second

/-- Different terms have different messages. -/
theorem PairTerms.message_injective {p q : PairTerms} (h : p.message = q.message) : p = q := by
  simp only [message, pairMessage, List.cons.injEq, and_true] at h
  obtain ⟨hbase, hquote, hfirst, hsecond⟩ := h
  cases p
  cases q
  simp only [PairTerms.mk.injEq]
  exact ⟨hbase, hquote, Bytes32.ofWord_injective hfirst, Bytes32.ofWord_injective hsecond⟩

namespace Transition

variable {t u : Transition} {s s' : Signed}

/-- The pair and the two amounts that a step is signed for, if these are all. -/
def pairTerms? : Transition → Option PairTerms
  | .createPool a => some ⟨a.base, a.quote, a.baseAmount, a.quoteAmount⟩
  | .provideLiquidity a => some ⟨a.claim.pool.base, a.claim.pool.quote, a.baseIn, a.quoteLimit⟩
  | .buy a | .sell a => some ⟨a.claim.pool.base, a.claim.pool.quote, a.amount, a.limit⟩
  | .genesis | .deposit _ | .burn _ | .removeLiquidity _ => none

/-- A message has as many values as its method. -/
theorem length_message (h : t.signed? = some s) : s.message.length = t.method.signedValues := by
  cases t <;> cases h <;> rfl

theorem signedValues_pos (h : t.signed? = some s) : 0 < t.method.signedValues := by
  cases t with
  | genesis | deposit _ => exact nomatch h
  | burn _ | createPool _ | provideLiquidity _ | removeLiquidity _ | buy _ | sell _ =>
      exact Nat.succ_pos _

/-- A step with four signed values is signed for a pair and two amounts. -/
theorem exists_pairTerms (hfour : t.method.signedValues = 4) :
    ∃ terms, t.pairTerms? = some terms := by
  cases t with
  | genesis | deposit _ | burn _ | removeLiquidity _ => exact nomatch hfour
  | createPool _ | provideLiquidity _ | buy _ | sell _ => exact ⟨_, rfl⟩

/-- The message of a step that is signed for a pair and two amounts names them. -/
theorem message_of_pairTerms {terms : PairTerms} (h : t.signed? = some s)
    (hterms : t.pairTerms? = some terms) : s.message = terms.message := by
  cases t with
  | genesis | deposit _ | burn _ | removeLiquidity _ => exact nomatch hterms
  | createPool _ | provideLiquidity _ | buy _ | sell _ =>
      cases h
      cases hterms
      rfl

/-! ## Shared messages

Those of four values name the pair and two amounts in the same order, so one signature stands for
all four methods with these terms.  Nothing in the message binds it to the method or to a single
use.
-/

/-- **When a signature stands for two methods.**  The messages of steps of different methods
are different bytes unless both steps open a pool, add to one, buy or sell, on the same pair
and with the same two amounts.  Then whatever signature is valid for one step is valid for
the other. -/
theorem concat_message_eq_iff (ht : t.signed? = some s) (hu : u.signed? = some s')
    (hne : t.method ≠ u.method) :
    (Bytes32.concat s.message = Bytes32.concat s'.message ↔
      ∃ terms, t.pairTerms? = some terms ∧ u.pairTerms? = some terms) ∧
    ((∃ terms, t.pairTerms? = some terms ∧ u.pairTerms? = some terms) →
      ∀ (keys : KeyRegistry) (signer : Address) (signature : Ed25519.Signature),
        keys.verify signer s.message signature = keys.verify signer s'.message signature) := by
  have hshared : (∃ terms, t.pairTerms? = some terms ∧ u.pairTerms? = some terms) →
      s.message = s'.message := fun ⟨terms, hterms, hterms'⟩ =>
    (message_of_pairTerms ht hterms).trans (message_of_pairTerms hu hterms').symm
  refine ⟨⟨fun h => ?_, fun h => by rw [hshared h]⟩, fun h keys signer signature => by
    rw [hshared h]⟩
  have hmessage : s.message = s'.message := Bytes32.concat_injective h
  -- equal messages are equally long, and only methods of four values share a length
  have hvalues : t.method.signedValues = u.method.signedValues :=
    (length_message ht).symm.trans ((congrArg List.length hmessage).trans (length_message hu))
  have hfour := Method.signedValues_eq_four hne hvalues (signedValues_pos ht)
  obtain ⟨terms, hterms⟩ := exists_pairTerms hfour
  obtain ⟨terms', hterms'⟩ := exists_pairTerms (hvalues ▸ hfour)
  rw [message_of_pairTerms ht hterms, message_of_pairTerms hu hterms'] at hmessage
  obtain rfl : terms = terms' := PairTerms.message_injective hmessage
  exact ⟨terms, hterms, hterms'⟩

/-- A trade for ten that pays forty at most. -/
def tenForForty : SwapArgs where
  claim :=
    { poolWitness := ⟨[]⟩
      balanceWitness := ⟨[], [], []⟩
      account := firstRecord.account
      pool := ⟨.ofWord 1, .ofWord 2, 100, 100, 10000⟩
      balances := ⟨some 50, some 50⟩ }
  amount := 10
  limit := 40
  signature := ⟨.zero, .zero⟩

/-- A pool that is opened with the two amounts of the trade. -/
def openedWithTen : CreatePoolArgs where
  poolWitness := ⟨[]⟩
  liquidityWitness := ⟨[]⟩
  balanceWitness := ⟨[], [], []⟩
  provider := firstRecord.account
  base := .ofWord 1
  quote := .ofWord 2
  baseAmount := 10
  quoteAmount := 40
  balances := ⟨some 50, some 50⟩
  signature := ⟨.zero, .zero⟩

/-- Whoever signs to buy ten for forty at most has signed to open a pool of ten and forty. -/
theorem concat_message_eq_iff_opened :
    ∃ s s', (Transition.buy tenForForty).signed? = some s ∧
      (Transition.createPool openedWithTen).signed? = some s' ∧
      (Transition.buy tenForForty).method ≠ (Transition.createPool openedWithTen).method ∧
      Bytes32.concat s.message = Bytes32.concat s'.message ∧
      ∀ (keys : KeyRegistry) (signer : Address) (signature : Ed25519.Signature),
        keys.verify signer s.message signature = keys.verify signer s'.message signature := by
  have hne : (Transition.buy tenForForty).method ≠
      (Transition.createPool openedWithTen).method := by
    decide
  have hshared : ∃ terms, (Transition.buy tenForForty).pairTerms? = some terms ∧
      (Transition.createPool openedWithTen).pairTerms? = some terms := ⟨_, rfl, by decide⟩
  obtain ⟨hbytes, hvalid⟩ := concat_message_eq_iff (t := .buy tenForForty)
    (u := .createPool openedWithTen) rfl rfl hne
  exact ⟨_, _, rfl, rfl, hne, hbytes.mpr hshared, hvalid hshared⟩

/-- The messages of different methods are not always different: a purchase and a sale on the
same terms have one. -/
theorem not_message_ne_of_method_ne :
    ¬ ∀ (t u : Transition) (s s' : Signed), t.signed? = some s → u.signed? = some s' →
      t.method ≠ u.method → Bytes32.concat s.message ≠ Bytes32.concat s'.message := fun h =>
  h (.buy tenForForty) (.sell tenForForty) _ _ rfl rfl (by decide) rfl

end Transition

end AmmRollup
