import AmmRollup.Proofs.Chain
import AmmRollup.Proofs.Store.Agreement

/-!
# AmmRollup.Proofs.Restarts

A chain of proofs that is stepped, refused and resumed.  After genesis on a store that holds
nothing, whatever is attempted, the store holds the proofs of the chain and nothing else
(`Shelf.ofProofs`), and the chain is what resuming from the store gives.

* `ProofChain.perform_resume`: resuming gives the chain that the store backs.
* `ProofChain.Standing.attempted`: an attempt leaves the chain and its store standing.
* `ProofChain.stored_after`: so do all attempts, on the store in memory and on one in a
  folder.
-/

namespace AmmRollup

/-! ## Shelves of proofs alone

A chain keeps its proofs from index zero on and nothing else, so its store is a shelf that is
read off the list of proofs.
-/

namespace Shelf

/-- The shelf that holds proofs from index zero on, and nothing else. -/
def ofProofs (proofs : List Proof) : Shelf where
  proof i := proofs[i]?.elim (.error (.notFound i)) .ok
  merged := .ok none
  cursors := ⟨proofs.length, ⟨0, 0⟩, 0⟩

theorem ofProofs_nil : ofProofs [] = .empty := rfl

/-- A proof put after the last is one more. -/
theorem put_ofProofs (proofs : List Proof) (p : Proof) :
    (ofProofs proofs).put proofs.length p = ofProofs (proofs ++ [p]) := by
  have hproof : ((ofProofs proofs).put proofs.length p).proof =
      (ofProofs (proofs ++ [p])).proof := by
    funext i
    simp only [put, ofProofs]
    by_cases hlast : i = proofs.length
    · simp [hlast]
    · simp only [hlast, if_false]
      by_cases hi : i < proofs.length
      · rw [List.getElem?_append_left hi]
      · rw [List.getElem?_eq_none (by omega), List.getElem?_eq_none (by simp; omega)]
  have hcount : max proofs.length (proofs.length + 1) = (proofs ++ [p]).length := by simp
  show (⟨((ofProofs proofs).put proofs.length p).proof, _, ⟨max proofs.length _, _, _⟩⟩ : Shelf) = _
  rw [hproof, hcount]
  rfl

end Shelf

/-! ## Attempts

What may be attempted with a chain: proving a step, or giving the chain up and resuming it from
its store.
-/

namespace ProofChain

/-- What is attempted with a chain of proofs. -/
inductive Attempt where
  /-- One more step. -/
  | push (transition : Transition)
  /-- To go on from what the store holds. -/
  | resume

variable {m : Type → Type} [Monad m] {σ : Type}

/-- The chain that an attempt makes of another. -/
def attempt (store : ProofStore m) (chain : ProofChain) : Attempt → ExceptT Failure m ProofChain
  | .push t => chain.push store t
  | .resume => resume store chain.prover

/-- The chain and the state of its store after an attempt; one that fails leaves the chain. -/
def attempted (r : Runs m σ) (store : ProofStore m) (now : ProofChain × σ) (a : Attempt) :
    ProofChain × σ :=
  match r.perform (attempt store now.1 a) now.2 with
  | (.ok chain, s) => (chain, s)
  | (.error _, s) => (now.1, s)

theorem attempted_of_ok {r : Runs m σ} {store : ProofStore m} {now : ProofChain × σ} {a : Attempt}
    {chain : ProofChain} {s : σ} (h : r.perform (attempt store now.1 a) now.2 = (.ok chain, s)) :
    attempted r store now a = (chain, s) := by
  rw [attempted, h]

theorem attempted_of_error {r : Runs m σ} {store : ProofStore m} {now : ProofChain × σ}
    {a : Attempt} {e : Failure} {s : σ}
    (h : r.perform (attempt store now.1 a) now.2 = (.error e, s)) :
    attempted r store now a = (now.1, s) := by
  rw [attempted, h]

/-- The chain and the state of its store after attempts in turn. -/
def after (r : Runs m σ) (store : ProofStore m) (now : ProofChain × σ) (attempts : List Attempt) :
    ProofChain × σ :=
  attempts.foldl (attempted r store) now

/-- A verified chain that its store holds: what the store answers, how the proofs hang
together, and what comes of a refusal and of a restart. -/
structure Stored (r : Runs m σ) (store : ProofStore m) (index : Nat → Prop) (prover : Prover)
    (roots : StateRoots) (now : ProofChain × σ) (proofs : List Proof) : Prop where
  next : now.1.nextIndex = proofs.length
  count : r.perform store.proofCount now.2 = (.ok now.1.nextIndex, now.2)
  /-- The store has a proof at the indexes below the next one, and at no others. -/
  get : ∀ i, index i →
    r.perform (store.get i) now.2 = (proofs[i]?.elim (.error (.notFound i)) .ok, now.2)
  first : proofs.head? = some (prover.certify .genesis roots roots)
  chained : proofs.IsChain fun p next => next.input = p.output
  verified : ∀ p ∈ proofs, prover.verify p = true
  last : proofs[now.1.nextIndex - 1]? = some now.1.last
  /-- A step that is refused leaves the store as it was. -/
  refused : ∀ t e s, r.perform (now.1.push store t) now.2 = (.error e, s) → s = now.2
  /-- A restart gives the chain back, so that all goes on as it would have. -/
  resumed : r.perform (resume store prover) now.2 = (.ok now.1, now.2)

variable [LawfulMonad m] {store : ProofStore m} {r : Runs m σ} {shelved : σ → Shelf → Prop}
  {index : Nat → Prop} {storable : Proof → Prop} {s : σ} {shelf : Shelf} {chain : ProofChain}
  {proofs : List Proof} {prover : Prover} {roots : StateRoots}

/-- Resuming gives the chain that the store backs, and changes nothing. -/
theorem perform_resume (hstore : store.Lawful r shelved index storable) (h : shelved s shelf)
    (hbacked : chain.Backed shelf proofs) (hindex : index (proofs.length - 1)) :
    r.perform (resume store chain.prover) s = (.ok chain, s) := by
  have hcount := r.perform_adapt_ok (f := fun e => Failure.of (.store e)) (hstore.proofCount h)
  have hnonempty : proofs ≠ [] := by
    intro hnil
    have hlast := hbacked.last
    simp [hnil] at hlast
  have hpositive : shelf.count ≠ 0 := by
    rw [hbacked.count]
    exact fun hzero => hnonempty (List.length_eq_zero_iff.mp hzero)
  have hget := hstore.get h (hbacked.count ▸ hindex)
  rw [hbacked.proof_last] at hget
  have hload := r.perform_adapt_ok
    (f := fun e => Failure.mk [.loadProof (shelf.count - 1)] (.store e)) hget
  -- the chain knows its prover, its last proof and their number, and all three are found again
  have hsame : (⟨chain.prover, chain.last, shelf.count⟩ : ProofChain) = chain := by
    rw [hbacked.count, ← hbacked.next]
  rw [resume, r.perform_bind_ok hcount, if_neg hpositive]
  refine (r.perform_bind_ok hload).trans ?_
  rw [r.perform_pure, hsame]

/-! ## One attempt

An attempt that fails leaves the chain and its store; one that succeeds adds a proof at the next
index, or finds the chain again.
-/

/-- A chain whose proofs, genesis first, are all that its store holds. -/
structure Standing (shelved : σ → Shelf → Prop) (prover : Prover) (roots : StateRoots)
    (now : ProofChain × σ) (proofs : List Proof) : Prop where
  same : now.1.prover = prover
  shelved : shelved now.2 (.ofProofs proofs)
  backed : now.1.Backed (.ofProofs proofs) proofs
  first : proofs.head? = some (prover.certify .genesis roots roots)

/-- A standing chain is verified, and stored as it should be. -/
theorem Standing.stored (hstore : store.Lawful r shelved index storable)
    (hcertify : ∀ method input output, storable (prover.certify method input output))
    {now : ProofChain × σ} (h : Standing shelved prover roots now proofs)
    (hindex : ∀ i ≤ proofs.length + 1, index i) :
    Stored r store index prover roots now proofs := by
  obtain ⟨chain, s⟩ := now
  obtain ⟨rfl, hshelved, hbacked, hfirst⟩ := h
  have hcount := hstore.proofCount hshelved
  rw [hbacked.count, ← hbacked.next] at hcount
  have hlast := hbacked.last
  rw [List.getLast?_eq_getElem?, ← hbacked.next] at hlast
  have hresume := perform_resume hstore hshelved hbacked (hindex _ (by omega))
  constructor
  case next => exact hbacked.next
  case count => exact hcount
  case get =>
    intro i hi
    exact hstore.get hshelved hi
  case first => exact hfirst
  case chained => exact hbacked.linked.chained.imp fun _ _ => Eq.symm
  case verified => exact hbacked.linked.verified
  case last => exact hlast
  -- a step that was kept is no refusal, and one that was not kept has changed nothing
  case refused =>
    intro t e s' hpush
    rcases perform_push hstore hcertify hshelved hbacked (hindex _ (by omega))
      (hindex _ (by omega)) t with ⟨p, s₁, hok, -⟩ | ⟨e', herror⟩
    · rw [hok] at hpush
      cases hpush
    · rw [herror] at hpush
      exact (Prod.mk.inj hpush).2.symm
  case resumed => exact hresume

/-- An attempt adds a proof, or leaves the chain and its store as they were. -/
theorem Standing.attempted (hstore : store.Lawful r shelved index storable)
    (hcertify : ∀ method input output, storable (prover.certify method input output))
    {now : ProofChain × σ} (h : Standing shelved prover roots now proofs)
    (hindex : ∀ i ≤ proofs.length + 1, index i) (a : Attempt) :
    ∃ added, added.length ≤ 1 ∧
      Standing shelved prover roots (attempted r store now a) (proofs ++ added) := by
  have hsame : Standing shelved prover roots now (proofs ++ []) := by
    rw [List.append_nil]
    exact h
  obtain ⟨chain, s⟩ := now
  obtain ⟨rfl, hshelved, hbacked, hfirst⟩ := h
  cases a with
  | push t =>
      -- a step is kept and makes the chain longer by one, or is refused
      rcases perform_push hstore hcertify hshelved hbacked (hindex _ (by omega))
        (hindex _ (by omega)) t with ⟨p, s', hpush, hshelved', hbacked'⟩ | ⟨e, hpush⟩
      · rw [Shelf.put_ofProofs] at hshelved' hbacked'
        rw [attempted_of_ok (a := .push t) hpush]
        exact ⟨[p], by simp, rfl, hshelved', hbacked', by simp [hfirst]⟩
      · rw [attempted_of_error (a := .push t) hpush]
        exact ⟨[], by simp, hsame⟩
  | resume =>
      have hresume := perform_resume hstore hshelved hbacked (hindex _ (by omega))
      rw [attempted_of_ok (a := .resume) hresume]
      exact ⟨[], by simp, hsame⟩

/-! ## All attempts

By induction the store always holds the chain.  A restart therefore gives back the chain that was
given up.
-/

/-- Attempts in turn leave a chain standing, with at most as many proofs more. -/
theorem Standing.after (hstore : store.Lawful r shelved index storable)
    (hcertify : ∀ method input output, storable (prover.certify method input output))
    {now : ProofChain × σ} (h : Standing shelved prover roots now proofs) {attempts : List Attempt}
    (hindex : ∀ i ≤ proofs.length + attempts.length, index i) :
    ∃ added, added.length ≤ attempts.length ∧
      Standing shelved prover roots (after r store now attempts) (proofs ++ added) := by
  -- by induction on the attempts, each of which adds one proof at most
  induction attempts generalizing now proofs with
  | nil =>
      refine ⟨[], by simp, ?_⟩
      rw [List.append_nil]
      exact h
  | cons a attempts ih =>
      rw [List.length_cons] at hindex
      have hfit (i : Nat) (hi : i ≤ proofs.length + 1) : index i := hindex i (by omega)
      obtain ⟨added, hadded, hnext⟩ := h.attempted hstore hcertify hfit a
      have hrest (i : Nat) (hi : i ≤ (proofs ++ added).length + attempts.length) : index i := by
        rw [List.length_append] at hi
        exact hindex i (by omega)
      obtain ⟨more, hmore, hlast⟩ := ih hnext hrest
      refine ⟨added ++ more, ?_, ?_⟩
      · rw [List.length_append, List.length_cons]
        omega
      · rw [List.append_assoc] at hlast
        exact hlast

/-- Genesis on a store that holds nothing starts a chain, and whatever is attempted with it
then, the store holds a verified chain. -/
theorem exists_stored_after (hstore : store.Lawful r shelved index storable)
    (hcertify : ∀ method input output, storable (prover.certify method input output))
    (h : shelved s .empty) (roots : StateRoots) {attempts : List Attempt}
    (hindex : ∀ i ≤ attempts.length + 2, index i) :
    ∃ chain t, r.perform (genesis store prover roots) s = (.ok chain, t) ∧
      ∃ proofs, Stored r store index prover roots (after r store (chain, t) attempts) proofs := by
  obtain ⟨t, hgenesis, hshelved, hbacked⟩ := perform_genesis hstore hcertify
    (hindex 0 (by omega)) (hindex 1 (by omega)) h rfl roots
  have hput := Shelf.put_ofProofs [] (prover.certify .genesis roots roots)
  rw [Shelf.ofProofs_nil] at hput
  have hstanding : Standing shelved prover roots (_, t) _ :=
    ⟨rfl, hput ▸ hshelved, hput ▸ hbacked, rfl⟩
  have hfit (i : Nat) (hi : i ≤ 1 + attempts.length) : index i := hindex i (by omega)
  obtain ⟨added, hadded, hafter⟩ := hstanding.after hstore hcertify hfit
  refine ⟨_, t, hgenesis, _, hafter.stored hstore hcertify fun i hi => hindex i ?_⟩
  simp only [List.length_append, List.length_nil, List.length_singleton] at hi
  omega

/-- **The stored chain is always a verified chain.**  Genesis at any roots starts a chain on a
store that holds nothing, be it in memory or in a folder.  Whatever steps and restarts are
attempted then, the store has the chain's proofs and no others; genesis is the first of them,
each starts where the one before ends, the chain knows the last, and all verify.  A refused
step changes nothing, and a restart gives the same chain.  In a folder indexes are words, so the
attempts are fewer than those; in memory they are natural numbers, which a word of 64 bits stands
for as long as there are fewer attempts than words. -/
theorem stored_after (prover : Prover) (roots : StateRoots) (attempts : List Attempt) :
    (∃ chain s, (Runs.state _).perform (genesis .memory prover roots) .empty = (.ok chain, s) ∧
      ∃ proofs, Stored (.state _) .memory (fun _ => True) prover roots
        (after (.state _) .memory (chain, s) attempts) proofs) ∧
    ∀ folder base files, FileStore.Shelved folder base files .empty →
      attempts.length + 2 < 1 <<< 64 →
      ∃ chain s, Runs.files.perform (genesis (.files folder) prover roots) files = (.ok chain, s) ∧
        ∃ proofs, Stored .files (.files folder) (· < 1 <<< 64) prover roots
          (after .files (.files folder) (chain, s) attempts) proofs := by
  constructor
  · exact exists_stored_after ProofStore.memory_lawful (fun _ _ _ => trivial) rfl roots
      fun _ _ => trivial
  · intro folder base files hempty hlength
    have hstore := ProofStore.files_lawful folder base files
    have hcertify := prover.length_payload_certify
    have hindex (i : Nat) (hi : i ≤ attempts.length + 2) : i < 1 <<< 64 := by omega
    exact exists_stored_after hstore hcertify ⟨hempty, .refl base files⟩ roots hindex

/-- A node that starts in a new folder, proves another genesis, and is started again. -/
theorem stored_after_restart :
    ∃ chain s, Runs.files.perform (genesis (.files "proofs") .keyless .empty)
        FileStore.withStoreFolder = (.ok chain, s) ∧
      ∃ proofs, Stored .files (.files "proofs") (· < 1 <<< 64) .keyless .empty
        (after .files (.files "proofs") (chain, s) [.push .genesis, .resume]) proofs :=
  (stored_after .keyless .empty [.push .genesis, .resume]).2 "proofs" ["proofs".toList]
    FileStore.withStoreFolder FileStore.shelved_withStoreFolder (by decide)

end ProofChain

end AmmRollup
