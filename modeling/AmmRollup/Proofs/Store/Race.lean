import AmmRollup.Proofs.Store.Session

/-!
# AmmRollup.Proofs.Store.Race

Two handles of one folder that are called at the same time.  A handle keeps others out only
of itself, so the steps of the two calls come in any order.

* `Race.eq_outcome`: what two calls make of the cursors, in whichever order they read and
  replace them.
* `race_of_interleaved`: interleaved sessions race for the cursors and for nothing else.
* `slots_of_interleaved`: the cursors after a proof is kept while another handle moves them are
  those of both calls, unless each call read them before the other replaced them; then one of
  the two changes is lost.
* `exists_uncounted`: such a loss is possible on every store.
-/

namespace AmmRollup

namespace FileStore

/-! ## Races for the cursors

Each call reads the cursors, decides on others and replaces them.  Two calls that move by turns
either follow each other or cross: each has read before the other has written.  Then the later
write is all that remains.
-/

/-- Two calls on the same cursors, of which either may move next: from their phases and the
cursors to the cursors after all moves. -/
inductive Race (f g : Cursors → Option Cursors) :
    Phase → Phase → Cursors → List (Side × CursorMove) → Cursors → Prop
  | finished (c : Cursors) : Race f g .past .past c [] c
  | leftReads {r : Phase} {c c' : Cursors} {moves : List (Side × CursorMove)}
      (h : Race f g (.after (f c)) r c moves c') :
      Race f g .ahead r c ((.left, .reads) :: moves) c'
  | leftReplaces {r : Phase} {next c c' : Cursors} {moves : List (Side × CursorMove)}
      (h : Race f g .past r next moves c') :
      Race f g (.due next) r c ((.left, .replaces) :: moves) c'
  | rightReads {l : Phase} {c c' : Cursors} {moves : List (Side × CursorMove)}
      (h : Race f g l (.after (g c)) c moves c') :
      Race f g l .ahead c ((.right, .reads) :: moves) c'
  | rightReplaces {l : Phase} {next c c' : Cursors} {moves : List (Side × CursorMove)}
      (h : Race f g l .past next moves c') :
      Race f g l (.due next) c ((.right, .replaces) :: moves) c'

/-- Each call reads the cursors before the other replaces them. -/
def Crossed (moves : List (Side × CursorMove)) : Prop :=
  [(.left, .reads), (.right, .replaces)].Sublist moves ∧
    [(.right, .reads), (.left, .replaces)].Sublist moves

instance (moves : List (Side × CursorMove)) : Decidable (Crossed moves) :=
  inferInstanceAs (Decidable (_ ∧ _))

namespace Race

variable {f g : Cursors → Option Cursors} {l r : Phase} {c c' next : Cursors}
  {moves : List (Side × CursorMove)}

/-- What a call makes of the cursors. -/
def result (update : Cursors → Option Cursors) (c : Cursors) : Cursors := (update c).getD c

/-- A call that has read the cursors, while the other is over, may replace them. -/
theorem right_after {y : Option Cursors} (h : Race f g .past (.after y) c moves c') :
    c' = y.getD c ∧ moves = if y.isSome then [(.right, .replaces)] else [] := by
  cases y with
  | none =>
      cases h
      exact ⟨rfl, rfl⟩
  | some next =>
      cases h with
      | rightReplaces h =>
          cases h
          exact ⟨rfl, rfl⟩

/-- A call that has read, and is alone from here on, writes what it decided on. -/
theorem left_after {x : Option Cursors} (h : Race f g (.after x) .past c moves c') :
    c' = x.getD c ∧ moves = if x.isSome then [(.left, .replaces)] else [] := by
  cases x with
  | none =>
      cases h
      exact ⟨rfl, rfl⟩
  | some next =>
      cases h with
      | leftReplaces h =>
          cases h
          exact ⟨rfl, rfl⟩

/-- Where both calls have read the cursors, those of the later one to replace them remain. -/
theorem both_after {x y : Option Cursors} (h : Race f g (.after x) (.after y) c moves c') :
    (c' = y.getD (x.getD c) ∧
        moves = (if x.isSome then [(.left, .replaces)] else []) ++
          if y.isSome then [(.right, .replaces)] else []) ∨
      (c' = x.getD (y.getD c) ∧
        moves = (if y.isSome then [(.right, .replaces)] else []) ++
          if x.isSome then [(.left, .replaces)] else []) := by
  cases x with
  | none => exact .inl h.right_after
  | some a =>
      cases y with
      | none => exact .inr h.left_after
      | some b =>
          cases h with
          | leftReplaces h =>
              obtain ⟨rfl, rfl⟩ := right_after (y := some b) h
              exact .inl ⟨rfl, rfl⟩
          | rightReplaces h =>
              obtain ⟨rfl, rfl⟩ := left_after (x := some a) h
              exact .inr ⟨rfl, rfl⟩

/-- The cursors after the moves of two calls, each of which made others of those at the
beginning: of both, unless they crossed, and else of the later one. -/
def outcome (f g : Cursors → Option Cursors) (c : Cursors) (moves : List (Side × CursorMove)) :
    Cursors :=
  if Crossed moves then
    if moves.getLast? = some (.right, .replaces) then result g c else result f c
  else result g (result f c)

/-- Where both read the cursors before either replaces them, they cross if both do. -/
theorem crossed_iff_of_both_after (h : Race f g (.after (f c)) (.after (g c)) c moves c')
    {reads : List (Side × CursorMove)}
    (hreads : reads = [(.left, .reads), (.right, .reads)] ∨
      reads = [(.right, .reads), (.left, .reads)]) :
    Crossed (reads ++ moves) ↔ (f c).isSome ∧ (g c).isSome := by
  rcases hreads with rfl | rfl <;> rcases h.both_after with ⟨-, rfl⟩ | ⟨-, rfl⟩ <;>
    cases (f c).isSome <;> cases (g c).isSome <;> decide

/-- When both have read before either writes, the last write stays, as if the other had not been. -/
theorem outcome_of_both_after (h : Race f g (.after (f c)) (.after (g c)) c moves c')
    (hnone : g c = none → g (result f c) = none) {reads : List (Side × CursorMove)}
    (hreads : reads = [(.left, .reads), (.right, .reads)] ∨
      reads = [(.right, .reads), (.left, .reads)]) :
    c' = outcome f g c (reads ++ moves) := by
  have hcrossed := h.crossed_iff_of_both_after hreads
  unfold outcome
  by_cases hboth : (f c).isSome ∧ (g c).isSome
  · obtain ⟨a, ha⟩ := Option.isSome_iff_exists.mp hboth.1
    obtain ⟨b, hb⟩ := Option.isSome_iff_exists.mp hboth.2
    rw [if_pos (hcrossed.mpr hboth)]
    rcases h.both_after with ⟨rfl, rfl⟩ | ⟨rfl, rfl⟩ <;> simp [result, ha, hb]
  -- one of them writes nothing, so it does not matter that they have read in between
  · rw [if_neg fun h => hboth (hcrossed.mp h)]
    cases hg : g c with
    | none =>
        have hright : result g (result f c) = result f c := by
          rw [result, hnone hg, Option.getD_none]
        rw [hright]
        rcases h.both_after with ⟨rfl, -⟩ | ⟨rfl, -⟩ <;> simp [result, hg]
    | some b =>
        have hf : f c = none := by simpa [hg] using hboth
        rcases h.both_after with ⟨rfl, -⟩ | ⟨rfl, -⟩ <;> simp [result, hf, hg]

/-- Where the left call has read the cursors, the right one reads them before the left one
replaces them, or after. -/
theorem left_first {x : Option Cursors} (h : Race f g (.after x) .ahead c moves c') :
    (∃ rest, moves = (.right, .reads) :: rest ∧ Race f g (.after x) (.after (g c)) c rest c') ∨
      ∃ a rest, x = some a ∧ moves = (.left, .replaces) :: (.right, .reads) :: rest ∧
        Race f g .past (.after (g a)) a rest c' := by
  cases x with
  | none =>
      cases h with
      | rightReads h => exact .inl ⟨_, rfl, h⟩
  | some a =>
      cases h with
      | rightReads h => exact .inl ⟨_, rfl, h⟩
      | leftReplaces h =>
          cases h with
          | rightReads h => exact .inr ⟨a, _, rfl, rfl, h⟩

/-- While one call has read and the other has not, the first may write before the other reads, or
not. -/
theorem right_first {y : Option Cursors} (h : Race f g .ahead (.after y) c moves c') :
    (∃ rest, moves = (.left, .reads) :: rest ∧ Race f g (.after (f c)) (.after y) c rest c') ∨
      ∃ b rest, y = some b ∧ moves = (.right, .replaces) :: (.left, .reads) :: rest ∧
        Race f g (.after (f b)) .past b rest c' := by
  cases y with
  | none =>
      cases h with
      | leftReads h => exact .inl ⟨_, rfl, h⟩
  | some b =>
      cases h with
      | leftReads h => exact .inl ⟨_, rfl, h⟩
      | rightReplaces h =>
          cases h with
          | leftReads h => exact .inr ⟨b, _, rfl, rfl, h⟩

/-- Two calls that do not depend on each other leave the cursors of both, unless they cross. -/
theorem eq_outcome (h : Race f g .ahead .ahead c moves c')
    (hcomm : result f (result g c) = result g (result f c))
    (hnone : g c = none → g (result f c) = none) : c' = outcome f g c moves := by
  -- The call that reads first replaces the cursors before the other one reads them, and then
  -- they run in turn; or both have read them, and then the later one decides.
  cases h with
  | leftReads h =>
      rcases h.left_first with ⟨rest, rfl, hboth⟩ | ⟨a, rest, ha, rfl, hright⟩
      · exact hboth.outcome_of_both_after hnone (.inl rfl)
      · obtain ⟨rfl, rfl⟩ := hright.right_after
        have hnot : ¬ Crossed ((.left, .reads) :: (.left, .replaces) :: (.right, .reads) ::
            if (g a).isSome then [(.right, .replaces)] else []) := by
          cases (g a).isSome <;> decide
        rw [outcome, if_neg hnot]
        simp [result, ha]
  | rightReads h =>
      rcases h.right_first with ⟨rest, rfl, hboth⟩ | ⟨b, rest, hb, rfl, hleft⟩
      · exact hboth.outcome_of_both_after hnone (.inr rfl)
      · obtain ⟨rfl, rfl⟩ := hleft.left_after
        have hnot : ¬ Crossed ((.right, .reads) :: (.right, .replaces) :: (.left, .reads) ::
            if (f b).isSome then [(.left, .replaces)] else []) := by
          cases (f b).isSome <;> decide
        rw [outcome, if_neg hnot, ← hcomm]
        simp [result, hb]

end Race

/-! ## Programs that race

The moves on the cursors are picked out of the steps of two interleaved programs, and what either
owes to other files besides is independent of the other.
-/

/-- The moves on the cursors among the steps of two programs, each on its own path. -/
def cursorMoves (folder folder' : String) (steps : List (Side × FileStep)) :
    List (Side × CursorMove) :=
  steps.filterMap fun
    | (.left, e) => (cursorMove? folder e).map (.left, ·)
    | (.right, e) => (cursorMove? folder' e).map (.right, ·)

variable {folder folder' : String} {base : PathParts} {s t : FileSystem} {shelf : Shelf}
  {expected : Cursors → Prop} {f g : Cursors → Option Cursors}
  {answer answer' a b : Except StoreError StoreAnswer} {l r : Phase} {owed owed' : Owed}
  {p q : FileProgram (Except StoreError StoreAnswer)} {steps : List (Side × FileStep)}

/-- A step of either side counts when it touches the cursors. -/
theorem cursorMoves_left (e : FileStep) (steps : List (Side × FileStep)) :
    cursorMoves folder folder' ((.left, e) :: steps) =
      ((cursorMove? folder e).map (Side.left, ·)).toList ++ cursorMoves folder folder' steps := by
  cases h : cursorMove? folder e <;> simp [cursorMoves, h]

theorem cursorMoves_right (e : FileStep) (steps : List (Side × FileStep)) :
    cursorMoves folder folder' ((.right, e) :: steps) =
      ((cursorMove? folder' e).map (Side.right, ·)).toList ++ cursorMoves folder folder' steps := by
  cases h : cursorMove? folder' e <;> simp [cursorMoves, h]

/-- Interleaved sessions race for the cursors, and each does besides what it owes.  What the
right one expects of the cursors it finds them to be, whatever the left one makes of them. -/
theorem race_of_interleaved (h : Interleaved p q s steps a b t)
    (hleft : Session folder (fun _ => True) f answer l owed p)
    (hright : Session folder' expected g answer' r owed' q)
    (hroom : s.Room folder' base) (hs : Shelved folder base s shelf)
    (hapart : ∀ shelf, owed.apply (owed'.apply shelf) = owed'.apply (owed.apply shelf))
    (hkeeps : ∀ c next, expected c → f c = some next → expected next)
    (hexpected : r = .ahead → expected shelf.cursors ∧ ∀ next, l = .due next → expected next) :
    a = answer ∧ b = answer' ∧ Kept base s t ∧ ∃ c,
      Shelved folder base t { owed.apply (owed'.apply shelf) with cursors := c } ∧
      Race f g l r shelf.cursors (cursorMoves folder folder' steps) c := by
  -- As long as the right call has not read the cursors, those there, and those that the left
  -- call is about to put there, are as it expects.
  induction h generalizing shelf l r owed owed' with
  | done a b s =>
      obtain ⟨rfl, rfl, rfl⟩ := hleft.of_done
      obtain ⟨rfl, rfl, rfl⟩ := hright.of_done
      exact ⟨rfl, rfl, .refl base s, _, hs, .finished _⟩
  | left hstep hrest ih =>
      rw [cursorMoves_left]
      cases hleft.moved hs (fun _ => trivial) hstep with
      | paid hmove hshelved hkept hleft =>
          rw [hmove]
          obtain ⟨ha, hb, hkept', c, hc, hrace⟩ := ih hleft hright (hroom.of_folders hkept.folders)
            hshelved (fun _ => rfl) (by simpa using hexpected)
          rw [Owed.cursors_apply] at hrace
          rw [← hapart] at hc
          exact ⟨ha, hb, hkept.trans hkept', c, hc, hrace⟩
      | read hleft =>
          rw [cursorMove?_reads]
          have hnext : r = .ahead → expected shelf.cursors ∧
              ∀ next, Phase.after (f shelf.cursors) = .due next → expected next := by
            intro hr
            obtain ⟨hcursors, -⟩ := hexpected hr
            constructor
            · exact hcursors
            · intro next hdue
              exact hkeeps _ next hcursors (Phase.after_eq_due_iff.mp hdue)
          obtain ⟨ha, hb, hkept', c, hc, hrace⟩ := ih hleft hright hroom hs hapart hnext
          exact ⟨ha, hb, hkept', c, hc, .leftReads hrace⟩
      | @replaced next owed p t hshelved hkept hleft =>
          rw [cursorMove?_replaces]
          have hnext : r = .ahead → expected next ∧
              ∀ next, Phase.past = .due next → expected next := by
            intro hr
            exact ⟨(hexpected hr).2 next rfl, fun _ hdue => nomatch hdue⟩
          obtain ⟨ha, hb, hkept', c, hc, hrace⟩ := ih hleft hright (hroom.of_folders hkept.folders)
            hshelved hapart hnext
          rw [Owed.apply_of_cursors] at hc
          exact ⟨ha, hb, hkept.trans hkept', c, hc, .leftReplaces hrace⟩
  | right hstep hrest ih =>
      rw [cursorMoves_right]
      cases hright.moved (hs.of_room hroom) (fun hr => (hexpected hr).1) hstep with
      | paid hmove hshelved hkept hright =>
          rw [hmove]
          have hroom' := hs.keeps.room.of_folders hkept.folders
          obtain ⟨ha, hb, hkept', c, hc, hrace⟩ := ih hleft hright
            (hroom.of_folders hkept.folders) (hshelved.of_room hroom') (fun _ => rfl)
            (by simpa using hexpected)
          rw [Owed.cursors_apply] at hrace
          exact ⟨ha, hb, hkept.trans hkept', c, hc, hrace⟩
      | read hright =>
          rw [cursorMove?_reads]
          obtain ⟨ha, hb, hkept', c, hc, hrace⟩ := ih hleft hright hroom hs hapart
            fun hr => absurd hr (Phase.after_ne_ahead _)
          exact ⟨ha, hb, hkept', c, hc, .rightReads hrace⟩
      | replaced hshelved hkept hright =>
          rw [cursorMove?_replaces]
          have hroom' := hs.keeps.room.of_folders hkept.folders
          obtain ⟨ha, hb, hkept', c, hc, hrace⟩ := ih hleft hright
            (hroom.of_folders hkept.folders) (hshelved.of_room hroom') hapart
            fun hr => nomatch hr
          rw [Owed.apply_of_cursors] at hc
          exact ⟨ha, hb, hkept.trans hkept', c, hc, .rightReplaces hrace⟩

/-! ## Keeping a proof while another handle moves the cursors

Keeping a proof changes the count and the proof; the other calls change the marks, the window and
the merged proof.  They would commute, but for the cursors being in one file.
-/

/-- Keeping a proof moves the count up to it, and never back. -/
theorem result_put (i : Nat) (q : Proof) (c : Cursors) :
    Race.result (StoreCall.put i q).update c =
      { c with proofCount := max c.proofCount (i + 1) } :=
  StoreCall.getD_update_put i q c

/-- A call that moves a mark neither reads nor changes the count. -/
theorem update_of_proofCount {call : StoreCall} (hmoves : call.MovesMarks) (c : Cursors)
    (count : Nat) :
    call.update { c with proofCount := count } =
      (call.update c).map fun next => { next with proofCount := count } := by
  cases call with
  | putMerged q stop =>
      by_cases hrefused : stop ≤ c.window.start <;> simp [StoreCall.update, hrefused]
  | startMerge | setSettledUntil => rfl
  | get | put | getMerged | proofCount | mergedWindow | settledUntil => cases hmoves

/-- A call that moves a mark makes the same of any count. -/
theorem result_of_proofCount {call : StoreCall} (hmoves : call.MovesMarks) (c : Cursors)
    (count : Nat) :
    Race.result call.update { c with proofCount := count } =
      { Race.result call.update c with proofCount := count } := by
  rw [Race.result, Race.result, update_of_proofCount hmoves]
  cases call.update c <;> rfl

/-- What a call that moves a mark writes has the count that it read. -/
theorem proofCount_result {call : StoreCall} (hmoves : call.MovesMarks) (c : Cursors) :
    (Race.result call.update c).proofCount = c.proofCount := by
  have hsame : Race.result call.update c =
      { Race.result call.update c with proofCount := c.proofCount } :=
    result_of_proofCount hmoves c c.proofCount
  rw [hsame]

/-- A `put` and a call that moves a mark may be made in either order. -/
theorem result_put_comm {call : StoreCall} (hmoves : call.MovesMarks) (i : Nat) (q : Proof)
    (c : Cursors) :
    Race.result (StoreCall.put i q).update (Race.result call.update c) =
      Race.result call.update (Race.result (StoreCall.put i q).update c) := by
  rw [result_put, result_put, proofCount_result hmoves,
    result_of_proofCount hmoves c (max c.proofCount (i + 1))]

/-- A `put` does not make a call change the cursors that would move no mark. -/
theorem update_result_put {call : StoreCall} (hmoves : call.MovesMarks) (i : Nat) (q : Proof)
    {c : Cursors} (h : call.update c = none) :
    call.update (Race.result (StoreCall.put i q).update c) = none := by
  rw [result_put, update_of_proofCount hmoves, h, Option.map_none]

/-- Keeping a proof leaves the window alone. -/
theorem window_of_update_put {i : Nat} {q : Proof} {c next : Cursors}
    (h : (StoreCall.put i q).update c = some next) : next.window = c.window := by
  have hresult := result_put i q c
  rw [Race.result, h, Option.getD_some] at hresult
  rw [hresult]

/-- Besides the cursors the other calls change the merged proof at most. -/
theorem owed_of_movesMarks {call : StoreCall} (hmoves : call.MovesMarks) (w : Window) :
    call.owed w = .nothing ∨ ∃ p, call.owed w = .merged p := by
  cases call with
  | putMerged q stop => by_cases hrefused : stop ≤ w.start <;> simp [StoreCall.owed, hrefused]
  | startMerge start => exact .inr ⟨none, rfl⟩
  | setSettledUntil stop => exact .inl rfl
  | get | put | getMerged | proofCount | mergedWindow | settledUntil => cases hmoves

/-- What becomes of the merged proof does not depend on a step's proof. -/
theorem merged_reply_put {call : StoreCall} (hmoves : call.MovesMarks) (shelf : Shelf) (i : Nat)
    (q : Proof) : ((shelf.put i q).reply call).2.merged = (shelf.reply call).2.merged := by
  have hwindow : (shelf.put i q).window = shelf.window := rfl
  rw [call.reply_eq, call.reply_eq, hwindow]
  rcases owed_of_movesMarks hmoves shelf.window with howed | ⟨p, howed⟩ <;> rw [howed] <;> rfl

/-- The cursors and the merged proof are those after two calls, one after the other in some
order. -/
def InTurn (shelf : Shelf) (call call' : StoreCall) (final : Shelf) : Prop :=
  let first := ((shelf.reply call).2.reply call').2
  let second := ((shelf.reply call').2.reply call).2
  (final.cursors = first.cursors ∧ final.merged = first.merged) ∨
    (final.cursors = second.cursors ∧ final.merged = second.merged)

/-- **What two handles of one folder make of it.**  While one handle keeps the proof of a step,
another one keeps a merged proof, opens a merge window or marks what is settled, and their
steps on the files come in any order.  Both calls are answered as ever, and the proofs are kept
or dropped as ever.  The cursors are those of both calls, unless each call read them
before the other replaced them: then the call that replaced them last undid what the other did
to them. -/
theorem slots_of_interleaved (hs : Shelved folder base s shelf) (hroom : s.Room folder' base)
    {i : Nat} {proof : Proof} {call : StoreCall}
    (hput : (StoreCall.put i proof).Within (· < 1 <<< 64) (·.payload.length < 1 <<< 64))
    (hmoves : call.MovesMarks)
    (hcall : call.Within (· < 1 <<< 64) (·.payload.length < 1 <<< 64))
    (h : Interleaved ((ProofStore.files folder).ask (.put i proof)).run
      ((ProofStore.files folder').ask call).run s steps a b t) :
    a = .ok .done ∧ b = (shelf.reply call).1 ∧ Kept base s t ∧
      ∃ final, Shelved folder base t final ∧ final.proof = (shelf.put i proof).proof ∧
        final.merged = (shelf.reply call).2.merged ∧
        (¬ Crossed (cursorMoves folder folder' steps) →
          InTurn shelf (.put i proof) call final) ∧
        (Crossed (cursorMoves folder folder' steps) → final.cursors =
          if (cursorMoves folder folder' steps).getLast? = some (.right, .replaces) then
            (shelf.reply call).2.cursors
          else (shelf.put i proof).cursors) := by
  have howed := owed_of_movesMarks hmoves shelf.window
  -- what the calls write beside the cursors are different files
  have hapart (shelf' : Shelf) :
      (Owed.proof i proof).apply ((call.owed shelf.window).apply shelf') =
        (call.owed shelf.window).apply ((Owed.proof i proof).apply shelf') := by
    rcases howed with howed | ⟨p, howed⟩ <;> rw [howed] <;> rfl
  obtain ⟨ha, hb, hkept, c, hc, hrace⟩ := race_of_interleaved h (session_put hput)
    (session_of_movesMarks hmoves hcall shelf) hroom hs hapart
    (fun _ _ hwindow hnext => (window_of_update_put hnext).trans hwindow)
    fun _ => ⟨rfl, fun _ hdue => nomatch hdue⟩
  have houtcome := hrace.eq_outcome (result_put_comm hmoves i proof shelf.cursors)
    (update_result_put hmoves i proof)
  have hcounted : (shelf.put i proof).cursors =
      Race.result (StoreCall.put i proof).update shelf.cursors := (result_put ..).symm
  have hmoved (shelf' : Shelf) :
      (shelf'.reply call).2.cursors = Race.result call.update shelf'.cursors := by
    rw [call.reply_eq]
    rfl
  have hmerged : ((call.owed shelf.window).apply shelf).merged = (shelf.reply call).2.merged := by
    rw [call.reply_eq]
  refine ⟨ha, hb, hkept, _, hc, ?proof, hmerged, ?inTurn, ?crossed⟩
  case proof => rcases howed with howed | ⟨p, howed⟩ <;> rw [howed] <;> rfl
  -- in turn: keeping the proof first, then the other call on what that leaves
  case inTurn =>
    intro hnot
    left
    constructor
    · show c = ((shelf.put i proof).reply call).2.cursors
      rw [houtcome, Race.outcome, if_neg hnot, hmoved, hcounted]
    · exact hmerged.trans (merged_reply_put hmoves shelf i proof).symm
  case crossed =>
    intro hcrossed
    show c = _
    rw [houtcome, Race.outcome, if_pos hcrossed, hmoved, hcounted]

/-- Two handles can both read the cursors before either replaces them; those of the later one
remain. -/
theorem exists_crossed (hs : Shelved folder base s shelf) (hroom : s.Room folder' base)
    {c c' : Cursors} (hc : c.Fits) (hc' : c'.Fits) (k k' : Cursors → FileCall StoreAnswer)
    (hk : k shelf.cursors = do saveCursors folder c; return .done)
    (hk' : k' shelf.cursors = do saveCursors folder' c'; return .done) :
    ∃ steps t, Interleaved (loadCursors folder >>= k).run (loadCursors folder' >>= k').run s
        steps (.ok .done) (.ok .done) t ∧
      cursorMoves folder folder' steps =
        [(.left, .reads), (.right, .reads), (.left, .replaces), (.right, .replaces)] ∧
      Shelved folder base t { shelf with cursors := c' } := by
  have hs' := hs.of_room hroom
  have hleft := hs.withCursors hc
  have hroom' : (withFile base s .cursors (Json.prettyBytes c)).Room folder' base :=
    hroom.of_folders (FileSystem.folders_replaced ..)
  have hleft' := hleft.of_room hroom'
  have hread := FileProgram.step?_bind_ok (f := k) (step?_loadCursors hs)
  have hread' := FileProgram.step?_bind_ok (f := k') (step?_loadCursors hs')
  have hsave := FileProgram.step?_bind_ok (f := fun _ => pure StoreAnswer.done)
    (step?_saveCursors hs.keeps c)
  have hsave' := FileProgram.step?_bind_ok (f := fun _ => pure StoreAnswer.done)
    (step?_saveCursors hleft'.keeps c')
  rw [← hk] at hsave
  rw [← hk'] at hsave'
  -- both read, then the left call writes, then the right one
  have hrun := Interleaved.left hread (.right hread' (.left hsave (.right hsave' (.done _ _ _))))
  refine ⟨_, _, hrun, ?_, hleft.withCursors hc'⟩
  simp [cursorMoves]

/-- Two handles can lose a proof from the count, whatever the store holds: the one that keeps
the proof counts it, and the other one, which read the cursors before, replaces them. -/
theorem exists_uncounted (hs : Shelved folder base s shelf) (hroom : s.Room folder' base)
    {i : Nat} {proof : Proof}
    (hput : (StoreCall.put i proof).Within (· < 1 <<< 64) (·.payload.length < 1 <<< 64))
    (hcount : shelf.count ≤ i) {stop : Nat} (hstop : stop < 1 <<< 64) :
    ∃ steps t, Interleaved ((ProofStore.files folder).ask (.put i proof)).run
        ((ProofStore.files folder').ask (.setSettledUntil stop)).run s steps
        (.ok .done) (.ok .done) t ∧
      cursorMoves folder folder' steps =
        [(.left, .reads), (.right, .reads), (.left, .replaces), (.right, .replaces)] ∧
      ∃ final, Shelved folder base t final ∧
        final.cursors = { shelf.cursors with settledUntil := stop } := by
  obtain ⟨hi, hnext, hproof⟩ := hput
  obtain ⟨-, hstart, hwindow, hsettled⟩ := hs.fits
  have hsave := step?_save hs.keeps (f := .proof i) hi proof.encode
  have hmove := cursorMove?_replaces_file hs.keeps (f := .proof i) hi (by simp)
  rw [StoreFile.name_proof] at hsave hmove
  have hroom' : (withFile base s (.proof i) proof.encode).Room folder' base :=
    hroom.of_folders (FileSystem.folders_replaced ..)
  have hcounted : Cursors.Fits { shelf.cursors with proofCount := i + 1 } :=
    ⟨hnext, hstart, hwindow, hsettled⟩
  have hmarked : Cursors.Fits { shelf.cursors with settledUntil := stop } :=
    ⟨hs.fits.1, hstart, hwindow, hstop⟩
  have hle : shelf.cursors.proofCount ≤ i := hcount
  obtain ⟨steps, t, hrest, hmoves, ht⟩ := exists_crossed (hs.withProof i hproof) hroom'
    hcounted hmarked
    (fun c => do
      (if c.proofCount ≤ i then saveCursors folder { c with proofCount := i + 1 } else pure ())
      return .done)
    (fun c => do
      saveCursors folder' { c with settledUntil := stop }
      return .done)
    (by simp only [if_pos hle]) rfl
  simp only [ProofStore.ask, ProofStore.files, put, setSettledUntil, bind_assoc]
  -- the file of the proof is written first, and from there on the calls cross
  refine ⟨_, t, .left (FileProgram.step?_bind_ok hsave) hrest, ?_, _, ht, rfl⟩
  rw [cursorMoves_left, hmove, hmoves]
  rfl

/-- What two handles leave is not always what their calls leave one after the other: a proof
that one of them keeps is lost from the count when the other one marks what is settled. -/
theorem not_always_in_turn :
    ¬ ∀ (folder folder' : String) (base : PathParts) (s t : FileSystem) (shelf final : Shelf)
      (i : Nat) (proof : Proof) (call : StoreCall) (steps : List (Side × FileStep))
      (a b : Except StoreError StoreAnswer),
      Shelved folder base s shelf → s.Room folder' base →
      (StoreCall.put i proof).Within (· < 1 <<< 64) (·.payload.length < 1 <<< 64) →
      call.MovesMarks → call.Within (· < 1 <<< 64) (·.payload.length < 1 <<< 64) →
      Interleaved ((ProofStore.files folder).ask (.put i proof)).run
        ((ProofStore.files folder').ask call).run s steps a b t →
      Shelved folder base t final → InTurn shelf (.put i proof) call final := by
  intro hall
  have hs := shelved_withStoreFolder
  have hput : (StoreCall.put 0 keptProof).Within (· < 1 <<< 64) (·.payload.length < 1 <<< 64) := by
    simp [StoreCall.Within, keptProof]
  have hstop : 1 < 1 <<< 64 := by decide
  obtain ⟨steps, t, hrun, -, final, hfinal, hcursors⟩ :=
    exists_uncounted hs hs.keeps.room hput (Nat.le_refl 0) hstop
  have hturn := hall _ _ _ _ _ _ _ _ _ (.setSettledUntil 1) _ _ _ hs hs.keeps.room hput trivial
    hstop hrun hfinal
  -- in either order the proof would be counted
  rcases hturn with ⟨hcounted, -⟩ | ⟨hcounted, -⟩
  · rw [hcursors] at hcounted
    exact absurd (congrArg Cursors.proofCount hcounted) (by decide)
  · rw [hcursors] at hcounted
    exact absurd (congrArg Cursors.proofCount hcounted) (by decide)

/-- The same loss, where the second handle has another path to the folder: the proof is kept,
and not counted. -/
theorem slots_of_interleaved_uncounted :
    ∃ steps t, Interleaved ((ProofStore.files "proofs").ask (.put 0 keptProof)).run
        ((ProofStore.files "./proofs/").ask (.setSettledUntil 1)).run withStoreFolder steps
        (.ok .done) (.ok .done) t ∧
      ∃ final, Shelved "proofs" ["proofs".toList] t final ∧ final.proof 0 = .ok keptProof ∧
        final.merged = .ok none ∧ final.cursors = ⟨0, ⟨0, 0⟩, 1⟩ := by
  have hs := shelved_withStoreFolder
  have hroom : withStoreFolder.Room "./proofs/" ["proofs".toList] :=
    ⟨rfl, by simp [withStoreFolder], by decide⟩
  have hput : (StoreCall.put 0 keptProof).Within (· < 1 <<< 64) (·.payload.length < 1 <<< 64) := by
    simp [StoreCall.Within, keptProof]
  have hstop : 1 < 1 <<< 64 := by decide
  obtain ⟨steps, t, hrun, hmoves, -⟩ := exists_uncounted hs hroom hput (Nat.le_refl 0) hstop
  have hmarks : (StoreCall.setSettledUntil 1).MovesMarks := trivial
  obtain ⟨-, -, -, final, hfinal, hproof, hmerged, -, hlost⟩ :=
    slots_of_interleaved hs hroom hput hmarks hstop hrun
  rw [hmoves] at hlost
  refine ⟨steps, t, hrun, final, hfinal, ?_, hmerged, hlost (by decide)⟩
  rw [hproof]
  rfl

end FileStore

end AmmRollup
