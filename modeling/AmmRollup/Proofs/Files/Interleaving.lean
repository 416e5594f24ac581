import AmmRollup.Files.Program

/-!
# AmmRollup.Proofs.Files.Interleaving

Two programs over the same files at the same time.  A step of a program is indivisible, and
after each of them either program may take the next (`Interleaved`), which one is left open.
One program after the other is one of the ways (`exists_interleaved`).
-/

namespace AmmRollup

/-- What a step of a program does, and to which path. -/
inductive FileStep where
  | reads (path : String)
  | replaces (path : String)
  | removes (path : String)
  | makesFolder (path : String)
deriving DecidableEq

namespace FileProgram

variable {α β : Type} {p p' : FileProgram α} {q q' : FileProgram β} {s t : FileSystem}
  {e : FileStep}

/-! ## Single steps

One command of a program and what is left of it.  Running a program is taking its steps one by
one.
-/

/-- The first step of a program, what is left of the program, and the files after the step. -/
def step? : FileProgram α → FileSystem → Option (FileStep × FileProgram α × FileSystem)
  | done _, _ => none
  | read path next, s => some (.reads path, next (s.read path), s)
  | replace path temporary contents next, s =>
      some (.replaces path, next (s.replace path temporary contents).1,
        (s.replace path temporary contents).2)
  | remove path next, s => some (.removes path, next (s.remove path).1, (s.remove path).2)
  | makeFolder path next, s =>
      some (.makesFolder path, next (s.makeFolder path).1, (s.makeFolder path).2)

/-- A program runs by taking its first step, and then running what is left. -/
theorem run_of_step? (h : p.step? s = some (e, p', t)) : p.run s = p'.run t := by
  cases p with
  | done a => cases h
  | read | replace | remove | makeFolder =>
      simp only [step?, Option.some.injEq, Prod.mk.injEq] at h
      obtain ⟨-, rfl, rfl⟩ := h
      rfl

/-- The first step of a program is the first, whatever it goes on with. -/
theorem step?_andThen (f : α → FileProgram β) (h : p.step? s = some (e, p', t)) :
    (p.andThen f).step? s = some (e, p'.andThen f, t) := by
  cases p with
  | done a => cases h
  | read | replace | remove | makeFolder =>
      simp only [step?, Option.some.injEq, Prod.mk.injEq] at h
      obtain ⟨rfl, rfl, rfl⟩ := h
      rfl

/-- A program that succeeds in a single step hands its result on. -/
theorem step?_bind_ok {ε : Type} {x : ExceptT ε FileProgram α} {f : α → ExceptT ε FileProgram β}
    {a : α} (h : x.run.step? s = some (e, .done (.ok a), t)) :
    (x >>= f).run.step? s = some (e, (f a).run, t) :=
  step?_andThen _ h

end FileProgram

/-! ## Interleavings

Two handles of one folder run at the same time when their steps come in any order, each on the
files that the last one left.
-/

/-- One of two parties. -/
inductive Side where
  | left
  | right
deriving DecidableEq

/-- Two programs on the same files, step by step, until both have their results.  The steps
are those of either, in the order that they are taken in. -/
inductive Interleaved {α β : Type} : FileProgram α → FileProgram β → FileSystem →
    List (Side × FileStep) → α → β → FileSystem → Prop
  | done (a : α) (b : β) (s : FileSystem) : Interleaved (.done a) (.done b) s [] a b s
  | left {p p' : FileProgram α} {q : FileProgram β} {s s' t : FileSystem} {e : FileStep}
      {steps : List (Side × FileStep)} {a : α} {b : β} (h : p.step? s = some (e, p', s'))
      (hrest : Interleaved p' q s' steps a b t) :
      Interleaved p q s ((.left, e) :: steps) a b t
  | right {p : FileProgram α} {q q' : FileProgram β} {s s' t : FileSystem} {e : FileStep}
      {steps : List (Side × FileStep)} {a : α} {b : β} (h : q.step? s = some (e, q', s'))
      (hrest : Interleaved p q' s' steps a b t) :
      Interleaved p q s ((.right, e) :: steps) a b t

namespace Interleaved

variable {α β : Type}

/-- Where the one has its result, the other goes on by itself. -/
theorem exists_of_done (a : α) (q : FileProgram β) (s : FileSystem) :
    ∃ steps, Interleaved (.done a) q s steps a (q.run s).1 (q.run s).2 := by
  induction q generalizing s with
  | done b => exact ⟨[], done a b s⟩
  | read _ _ ih | replace _ _ _ _ ih | remove _ _ ih | makeFolder _ _ ih =>
      obtain ⟨steps, hrest⟩ := ih _ _
      exact ⟨_, right rfl hrest⟩

end Interleaved

/-- One program after the other is one way to interleave them. -/
theorem exists_interleaved {α β : Type} (p : FileProgram α) (q : FileProgram β) (s : FileSystem) :
    ∃ steps, Interleaved p q s steps (p.run s).1 (q.run (p.run s).2).1 (q.run (p.run s).2).2 := by
  induction p generalizing s with
  | done a => exact Interleaved.exists_of_done a q s
  | read _ _ ih | replace _ _ _ _ ih | remove _ _ ih | makeFolder _ _ ih =>
      obtain ⟨steps, hrest⟩ := ih _ _
      exact ⟨_, .left rfl hrest⟩

end AmmRollup
