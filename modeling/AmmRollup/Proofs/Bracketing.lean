import AmmRollup.Proofs.Merger

/-!
# AmmRollup.Proofs.Bracketing

Joining proofs in any order.  What a list of proofs joins to does not depend on which
neighbours are joined first: a single proof joins to itself, and several join exactly when
they are linked, to the certificate from the first input to the last output (`Joins`).

The step is `joins_append`, which joins two lists by joining each of them first.  From it
follow all three ways to join: along a `Bracketing`, from left to right, and in rounds.
A round joins every pair of neighbours, and so keeps what its list joins to
(`joins_round`), whatever the size of the batches it works in (`round_cons_cons`).  They are
put together in `bracketing_irrelevant`.
-/

namespace AmmRollup

/-! ## Bracketings

Brackets around a list of proofs are binary trees with the proofs at their leaves.
-/

/-- Brackets around a list of proofs, with two operands in every pair. -/
inductive Bracketing where
  | proof (p : Proof)
  | pair (first second : Bracketing)

namespace Bracketing

/-- The proofs in the brackets, in order. -/
def proofs : Bracketing → List Proof
  | .proof p => [p]
  | .pair first second => first.proofs ++ second.proofs

/-- Joins the proofs in the order that the brackets say, every pair from the start of its
first operand. -/
def merge (prover : Prover) : Bracketing → Except TransitionError Proof
  | .proof p => .ok p
  | .pair first second => do
      let first ← first.merge prover
      let second ← second.merge prover
      prover.merge first.input first second

theorem proofs_ne_nil (tree : Bracketing) : tree.proofs ≠ [] := by
  induction tree with
  | proof p => simp [proofs]
  | pair first second ihfirst ihsecond => simp [proofs, ihfirst]

end Bracketing

/-! ## What proofs join to

What a list joins to is said without any order of joining: a single proof joins to itself, and
several to the certificate that spans them.  Two lists one after the other join to what their own
results join to, which is all that is needed of any order.
-/

namespace Prover

variable {prover : Prover} {first second joined : Proof} {rest left right : List Proof}

/-- What a list of proofs joins to: a single proof to itself, and several, if they are linked,
to the certificate that spans them. -/
def Joins (prover : Prover) (proofs : List Proof) (joined : Proof) : Prop :=
  ∃ first rest, proofs = first :: rest ∧ (rest = [] ∨ prover.Linked proofs) ∧
    joined = prover.span first rest

theorem not_joins_nil : ¬ prover.Joins [] joined := by
  simp [Joins]

/-- Proofs join when they are linked, or are one, and the result spans them. -/
theorem joins_cons_iff : prover.Joins (first :: rest) joined ↔
    (rest = [] ∨ prover.Linked (first :: rest)) ∧ joined = prover.span first rest := by
  simp [Joins]

theorem joins_singleton_iff : prover.Joins [first] joined ↔ joined = first := by
  simp [joins_cons_iff, span]

/-- Two lists are linked when each is, and the second starts where the first ends. -/
theorem linked_append_iff (prover : Prover) (hleft : left ≠ []) (hright : right ≠ []) :
    prover.Linked (left ++ right) ↔ prover.Linked left ∧ prover.Linked right ∧
      (left.getLast hleft).output = (right.head hright).input := by
  constructor
  · rintro ⟨hchained, hverified⟩
    obtain ⟨hl, hr, hlink⟩ := List.isChain_append.mp hchained
    refine ⟨⟨hl, fun p hp => hverified p (by simp [hp])⟩,
      ⟨hr, fun p hp => hverified p (by simp [hp])⟩, ?_⟩
    exact hlink _ (List.getLast?_eq_some_getLast hleft) _ (List.head?_eq_some_head hright)
  · rintro ⟨hl, hr, hlink⟩
    constructor
    · refine List.isChain_append.mpr ⟨hl.chained, hr.chained, ?_⟩
      rw [List.getLast?_eq_some_getLast hleft, List.head?_eq_some_head hright]
      simpa using hlink
    · exact List.forall_mem_append.mpr ⟨hl.verified, hr.verified⟩

/-- What a list joins to verifies exactly when all its proofs do. -/
theorem joins_verified_iff : prover.Joins (first :: rest) joined ∧ prover.verify joined = true ↔
    prover.Linked (first :: rest) ∧ joined = prover.span first rest := by
  rw [joins_cons_iff]
  constructor
  · rintro ⟨⟨hnil | hlinked, rfl⟩, hverify⟩
    · subst hnil
      exact ⟨⟨.singleton _, by simpa [span] using hverify⟩, rfl⟩
    · exact ⟨hlinked, rfl⟩
  · rintro ⟨hlinked, rfl⟩
    exact ⟨⟨.inr hlinked, rfl⟩, verify_span (hlinked.verified first (by simp))⟩

end Prover

namespace Merger

open Prover

variable {prover : Prover} {first second joined : Proof} {proofs left right : List Proof}
  {parallelism : Nat}

/-- **Two lists one after the other** join to what their joined proofs are joined to. -/
theorem joins_append (hleft : left ≠ []) (hright : right ≠ []) :
    prover.Joins (left ++ right) joined ↔ ∃ a b, prover.Joins left a ∧ prover.Joins right b ∧
      mergeTwo prover a b = .ok joined := by
  obtain ⟨x, xs, rfl⟩ := List.exists_cons_of_ne_nil hleft
  obtain ⟨y, ys, rfl⟩ := List.exists_cons_of_ne_nil hright
  -- the joined proofs of both lists start and end where the lists do
  have hspan : prover.span x (xs ++ y :: ys) =
      prover.certify .merge (prover.span x xs).input (prover.span y ys).output := by
    rw [input_span, output_span, List.getLast_of_getLast?_eq_some List.getLast?_cons, span,
      List.getLast?_append, List.getLast?_cons]
    rfl
  have hlinked := linked_append_iff prover hleft hright
  rw [List.cons_append, joins_cons_iff, ← List.cons_append, hlinked, hspan]
  constructor
  · rintro ⟨hnil | ⟨hl, hr, hlink⟩, rfl⟩
    · simp at hnil
    · have ha := joins_verified_iff.mpr ⟨hl, rfl⟩
      have hb := joins_verified_iff.mpr ⟨hr, rfl⟩
      refine ⟨_, _, ha.1, hb.1, mergeTwo_eq_ok_iff.mpr ⟨ha.2, hb.2, ?_, rfl⟩⟩
      rw [output_span, input_span]
      exact hlink
  · rintro ⟨a, b, ha, hb, hmerge⟩
    obtain ⟨hva, hvb, hlink, rfl⟩ := mergeTwo_eq_ok_iff.mp hmerge
    obtain ⟨hl, rfl⟩ := joins_verified_iff.mp ⟨ha, hva⟩
    obtain ⟨hr, rfl⟩ := joins_verified_iff.mp ⟨hb, hvb⟩
    rw [output_span, input_span] at hlink
    exact ⟨.inr ⟨hl, hr, hlink⟩, rfl⟩

/-! ## Three ways to join

Along brackets, from the left, and in rounds that join neighbours: each is an induction of its
own, and each comes to the same.
-/

/-- Joining along brackets. -/
theorem bracketing_eq_ok_iff (tree : Bracketing) :
    tree.merge prover = .ok joined ↔ prover.Joins tree.proofs joined := by
  induction tree generalizing joined with
  | proof p =>
    rw [Bracketing.merge, Bracketing.proofs, joins_singleton_iff]
    exact ⟨fun h => (Except.ok.inj h).symm, fun h => congrArg _ h.symm⟩
  | pair first second ihfirst ihsecond =>
    rw [Bracketing.proofs, joins_append first.proofs_ne_nil second.proofs_ne_nil,
      Bracketing.merge]
    simp only [bind_eq_ok_iff, ihfirst, ihsecond, mergeTwo, mapError_eq_ok_iff]
    grind

/-- Joining from left to right. -/
theorem fold_eq_ok_iff : fold prover proofs = .ok joined ↔ prover.Joins proofs joined := by
  induction proofs using List.reverseRecOn generalizing joined with
  | nil => simp [fold, not_joins_nil]
  | append_singleton proofs last ih =>
    by_cases hnil : proofs = []
    · subst hnil
      rw [List.nil_append, joins_singleton_iff]
      exact ⟨fun h => (Except.ok.inj h).symm, fun h => congrArg _ h.symm⟩
    · rw [joins_append hnil (by simp), fold_append hnil, bind_eq_ok_iff]
      simp [ih, joins_singleton_iff]

/-! ### Rounds

A round joins proofs two by two, in batches that may run side by side.  The batches make no
difference, as no proof is joined across two of them.
-/

theorem flatten_batches {α : Type} (size : Nat) (xs : List α) :
    (batches size xs).flatten = xs := by
  fun_induction batches size xs with
  | case1 => rfl
  | case2 x xs ih => simp [ih]

/-- Working through batches is working through the list. -/
theorem mapM_batches {α : Type} (f : α → Except Failure Proof) (size : Nat) (xs : List α) :
    ((batches size xs).mapM (·.mapM f) >>= fun merged => pure merged.flatten) = xs.mapM f := by
  suffices h : ∀ parts : List (List α),
      (parts.mapM (·.mapM f) >>= fun merged => pure merged.flatten) = parts.flatten.mapM f by
    rw [h, flatten_batches]
  intro parts
  induction parts with
  | nil => rfl
  | cons part parts ih =>
    rw [List.flatten_cons, List.mapM_append, ← ih]
    simp [List.mapM_cons]

/-- The batches that a round works in make no difference. -/
theorem round_eq (proofs : List Proof) : round prover parallelism proofs = (do
    let merged ← (neighbours proofs).1.mapM fun pair => mergeTwo prover pair.1 pair.2
    return merged ++ (neighbours proofs).2.toList) := by
  rw [← mapM_batches _ parallelism]
  simp [round]

@[simp] theorem round_nil : round prover parallelism [] = .ok [] := round_eq []

@[simp] theorem round_singleton (only : Proof) : round prover parallelism [only] = .ok [only] :=
  round_eq [only]

/-- A round joins its first two proofs, and then the others. -/
theorem round_cons_cons (x y : Proof) (rest : List Proof) :
    round prover parallelism (x :: y :: rest) = (do
      let both ← mergeTwo prover x y
      let others ← round prover parallelism rest
      return both :: others) := by
  simp [round_eq, neighbours, List.mapM_cons]

/-- A round merges the first two proofs and goes on behind them. -/
theorem round_cons_cons_eq_ok_iff {x y : Proof} {rest next : List Proof} :
    round prover parallelism (x :: y :: rest) = .ok next ↔ ∃ both others,
      mergeTwo prover x y = .ok both ∧ round prover parallelism rest = .ok others ∧
        next = both :: others := by
  simp only [round_cons_cons, bind_eq_ok_iff, pure_eq_ok_iff]
  grind

/-- A round halves the list, and an odd one out stays. -/
theorem length_round {next : List Proof} (h : round prover parallelism proofs = .ok next) :
    next.length = (proofs.length + 1) / 2 := by
  fun_induction neighbours proofs generalizing next with
  | case1 => grind [round_nil]
  | case2 x => grind [round_singleton]
  | case3 x y rest pairs last hrest ih =>
    obtain ⟨both, others, -, hothers, rfl⟩ := round_cons_cons_eq_ok_iff.mp h
    have := ih hothers
    simp only [List.length_cons]
    omega

/-- **A round** keeps what a list joins to. -/
theorem joins_round {next : List Proof} (h : round prover parallelism proofs = .ok next) :
    prover.Joins next joined ↔ prover.Joins proofs joined := by
  -- two proofs at a time: merging them keeps what the list joins to
  fun_induction neighbours proofs generalizing next joined with
  | case1 => grind [round_nil]
  | case2 x => grind [round_singleton]
  | case3 x y rest pairs last hrest ih =>
    obtain ⟨both, others, hboth, hothers, rfl⟩ := round_cons_cons_eq_ok_iff.mp h
    -- for two proofs, joining is merging
    have hpair (p : Proof) : prover.Joins [x, y] p ↔ p = both := by
      rw [← List.singleton_append, joins_append (by simp) (by simp)]
      simp only [joins_singleton_iff]
      grind
    by_cases hnil : rest = []
    · subst hnil
      obtain rfl : [] = others := Except.ok.inj (round_nil.symm.trans hothers)
      rw [hpair]
      exact joins_singleton_iff
    · have hothersnil : others ≠ [] := by
        have := length_round hothers
        have := List.length_pos_iff.mpr hnil
        grind
      rw [← List.singleton_append, joins_append (by simp) hothersnil,
        show x :: y :: rest = [x, y] ++ rest from rfl, joins_append (by simp) hnil]
      simp only [joins_singleton_iff, hpair, ih hothers]

/-- A round goes through when the list is linked. -/
theorem exists_round (parallelism : Nat) (h : prover.Linked proofs) :
    ∃ next, round prover parallelism proofs = .ok next := by
  fun_induction neighbours proofs with
  | case1 => exact ⟨[], round_nil⟩
  | case2 x => exact ⟨[x], round_singleton x⟩
  | case3 x y rest pairs last hrest ih =>
    have hlink : x.output = y.input := (List.isChain_cons_cons.mp h.chained).1
    obtain ⟨others, hothers⟩ := ih (h.drop 2)
    exact ⟨_, round_cons_cons_eq_ok_iff.mpr ⟨_, others,
      mergeTwo_linked (h.verified x (by simp)) (h.verified y (by simp)) hlink, hothers, rfl⟩⟩

/-- Rounds are over when as many have been run as there are proofs. -/
theorem rounds_eq_ok_iff {fuel : Nat} (h : proofs.length ≤ fuel) :
    rounds prover parallelism fuel proofs = .ok joined ↔ prover.Joins proofs joined := by
  induction fuel generalizing proofs with
  | zero =>
    obtain rfl := List.length_eq_zero_iff.mp (Nat.le_zero.mp h)
    simp [rounds, not_joins_nil]
  | succ fuel ih =>
    match proofs with
    | [] => simp [rounds, not_joins_nil]
    | [only] =>
      rw [joins_singleton_iff]
      exact ⟨fun h => (Except.ok.inj h).symm, fun h => congrArg _ h.symm⟩
    | x :: y :: rest =>
      -- a round halves the list, so the fuel outlasts it
      have hshorter {next : List Proof}
          (hnext : round prover parallelism (x :: y :: rest) = .ok next) :
          next.length ≤ fuel := by
        have := length_round hnext
        simp only [List.length_cons] at this h
        omega
      have hrounds : rounds prover parallelism (fuel + 1) (x :: y :: rest) =
          (round prover parallelism (x :: y :: rest) >>= rounds prover parallelism fuel) := rfl
      rw [hrounds, bind_eq_ok_iff]
      constructor
      · rintro ⟨next, hnext, hjoined⟩
        exact (joins_round hnext).mp ((ih (hshorter hnext)).mp hjoined)
      · intro hjoins
        have hlinked : prover.Linked (x :: y :: rest) := by
          simpa using (joins_cons_iff.mp hjoins).1
        obtain ⟨next, hnext⟩ := exists_round parallelism hlinked
        exact ⟨next, hnext, (ih (hshorter hnext)).mpr ((joins_round hnext).mpr hjoins)⟩

/-- Joining in rounds. -/
theorem reduce_eq_ok_iff :
    reduce prover parallelism proofs = .ok joined ↔ prover.Joins proofs joined :=
  rounds_eq_ok_iff (Nat.le_refl _)

/-- **Brackets do not matter**: joining along any brackets, from left to right, and in rounds
of any parallelism all succeed on the same lists, and give the same proof.  They refuse the
empty list. -/
theorem bracketing_irrelevant (prover : Prover) :
    (∀ (tree : Bracketing) (joined : Proof),
      tree.merge prover = .ok joined ↔ prover.Joins tree.proofs joined) ∧
    (∀ (proofs : List Proof) (joined : Proof),
      fold prover proofs = .ok joined ↔ prover.Joins proofs joined) ∧
    (∀ (parallelism : Nat) (proofs : List Proof) (joined : Proof),
      reduce prover parallelism proofs = .ok joined ↔ prover.Joins proofs joined) ∧
    fold prover [] = .error (.of .nothingToMerge) ∧
    ∀ parallelism, reduce prover parallelism [] = .error (.of .nothingToMerge) :=
  ⟨fun tree _ => bracketing_eq_ok_iff tree, fun _ _ => fold_eq_ok_iff,
    fun _ _ _ => reduce_eq_ok_iff, rfl, fun _ => by rw [reduce, rounds]⟩

end Merger

end AmmRollup
