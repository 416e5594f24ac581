/-!
# AmmRollup.Proofs.Result

Taking results apart: what is known when a sequence of fallible steps has succeeded, when it
succeeds at all and why it is refused (`Decides`), and when two sequences have the same
outcome (`Agree`).  Operations that work in place give a result and leave a state, and are
taken apart by running them (`run_bind`).
-/

namespace AmmRollup

variable {ε ε' α β γ δ : Type}

/-- A sequence succeeds when its first step does, and the rest on what it gave. -/
theorem bind_eq_ok_iff {x : Except ε α} {f : α → Except ε β} {b : β} :
    (x >>= f) = .ok b ↔ ∃ a, x = .ok a ∧ f a = .ok b := by
  cases x with
  | error e => exact ⟨fun h => (nomatch h), fun ⟨_, h, _⟩ => (nomatch h)⟩
  | ok a => exact ⟨fun h => ⟨a, rfl, h⟩, fun ⟨_, h, hf⟩ => (Except.ok.inj h) ▸ hf⟩

theorem pure_eq_ok_iff {a b : α} : (pure a : Except ε α) = .ok b ↔ a = b :=
  ⟨Except.ok.inj, congrArg Except.ok⟩

theorem mapError_eq_ok_iff {x : Except ε α} {f : ε → ε'} {a : α} :
    x.mapError f = .ok a ↔ x = .ok a := by
  cases x with
  | error e => exact ⟨fun h => (nomatch h), fun h => (nomatch h)⟩
  | ok b => exact ⟨fun h => congrArg _ (Except.ok.inj h), fun h => congrArg _ (Except.ok.inj h)⟩

/-- A check in a sequence succeeds with nothing to pass on. -/
theorem check_bind_eq_ok_iff {x : Except ε Unit} {f : Unit → Except ε β} {b : β} :
    (x >>= f) = .ok b ↔ x = .ok () ∧ f () = .ok b := by
  rw [bind_eq_ok_iff]
  exact ⟨fun ⟨_, h, hf⟩ => ⟨h, hf⟩, fun ⟨h, hf⟩ => ⟨(), h, hf⟩⟩

theorem pure_ne_error {a : α} {e : ε} : (pure a : Except ε α) ≠ .error e := nofun

/-- A sequence does not fail in some way when neither its first step does, nor the rest on
what that gave. -/
theorem bind_ne_error {x : Except ε α} {f : α → Except ε β} {e : ε} (hx : x ≠ .error e)
    (hf : ∀ a, x = .ok a → f a ≠ .error e) : (x >>= f) ≠ .error e := by
  cases x with
  | error e' => exact fun h => hx (congrArg _ (Except.error.inj h))
  | ok a => exact hf a rfl

/-- Wording an error in another way makes it no other error. -/
theorem mapError_ne_error {x : Except ε α} {f : ε → ε'} {e : ε} (hf : ∀ e', f e' = f e → e' = e)
    (hx : x ≠ .error e) : x.mapError f ≠ .error (f e) := by
  cases x with
  | error e' => exact fun h => hx (congrArg _ (hf e' (Except.error.inj h)))
  | ok a => exact nofun

/-- A sequence that is refused under a condition succeeds when the condition fails. -/
theorem throw_bind_eq_ok_iff {c : Prop} [Decidable c] {e : ε} {f : α → Except ε β}
    {x : Except ε β} {b : β} :
    (if c then (throw e : Except ε α) >>= f else x) = .ok b ↔ ¬ c ∧ x = .ok b := by
  split
  · next h => exact ⟨fun h => (nomatch h), fun h' => absurd h h'.1⟩
  · next h => exact ⟨fun hx => ⟨h, hx⟩, fun h => h.2⟩

/-- A fold over a list succeeds when its first step does, and the rest from there. -/
theorem foldlM_cons_eq_ok_iff {f : β → α → Except ε β} {a : α} {l : List α} {b c : β} :
    (a :: l).foldlM f b = .ok c ↔ ∃ d, f b a = .ok d ∧ l.foldlM f d = .ok c := by
  rw [List.foldlM_cons, bind_eq_ok_iff]

/-! ## Operations in place

Operations of the bridge, of the state and of the record of settlement work in place: they return
a result and leave a state, whether they are refused or not.  Running a sequence is running its
first step and then the rest on what that leaves.
-/

section

variable {σ : Type} {s s' : σ}

/-- The rest of an operation runs on the state that its first step leaves; if that is refused,
the state it leaves is the last. -/
theorem run_bind {m : ExceptT ε (StateM σ) α} {f : α → ExceptT ε (StateM σ) β} :
    (m >>= f).run.run s = match m.run.run s with
      | (.ok a, s') => (f a).run.run s'
      | (.error e, s') => (.error e, s') := by
  cases hm : m.run.run s with
  | mk r s' =>
      rw [ExceptT.run_bind, StateT.run_bind, hm]
      cases r <;> rfl

/-- Reading the state changes nothing. -/
theorem run_get {f : σ → ExceptT ε (StateM σ) β} :
    (get >>= f : ExceptT ε (StateM σ) β).run.run s = (f s).run.run s := rfl

/-- Setting the state leaves nothing of the one before. -/
theorem run_set {f : PUnit → ExceptT ε (StateM σ) β} :
    (set s' >>= f : ExceptT ε (StateM σ) β).run.run s = (f ⟨⟩).run.run s' := rfl

/-- A result that is passed on changes no state. -/
theorem run_ofExcept {x : Except ε α} {f : α → ExceptT ε (StateM σ) β} :
    (ofExcept x >>= f : ExceptT ε (StateM σ) β).run.run s = match x with
      | .ok a => (f a).run.run s
      | .error e => (.error e, s) := by
  cases x <;> rfl

end

/-! ## Deciding

`Decides` says of a computation on which condition it succeeds, what is known of its value, and
what a refusal may say where the condition fails.  It composes along sequences: conditions are
joined, and the value of one step is at hand for the next.
-/

/-- A computation succeeds exactly on a condition, with a value of which something is known, and
is refused for one of some reasons where the condition fails. -/
structure Decides (R : ε → Prop) (x : Except ε α) (fits : Prop) (Gives : α → Prop) : Prop where
  value : fits → ∃ a, x = .ok a ∧ Gives a
  refused : ¬ fits → ∃ e, x = .error e ∧ R e

/-- A computation is refused for no other reasons. -/
def RefusedFor (R : ε → Prop) (x : Except ε α) : Prop := ∀ e, x = .error e → R e

theorem RefusedFor.bind {R : ε → Prop} {x : Except ε α} {f : α → Except ε β}
    (hx : RefusedFor R x) (hf : ∀ a, RefusedFor R (f a)) : RefusedFor R (x >>= f) := by
  cases x with
  | error e => exact fun e' h => hx e' (congrArg _ (Except.error.inj h))
  | ok a => exact hf a

/-- Whatever the reasons, wording them anew gives reasons of the new wording. -/
theorem RefusedFor.mapError {R : ε' → Prop} {x : Except ε α} {f : ε → ε'} (hf : ∀ e, R (f e)) :
    RefusedFor R (x.mapError f) := by
  cases x with
  | error e => exact fun e' h => Except.error.inj h ▸ hf e
  | ok a => exact nofun

/-- A choice is refused for the reasons of its branches. -/
theorem RefusedFor.ite {R : ε → Prop} {c : Prop} [Decidable c] {x y : Except ε α}
    (hx : RefusedFor R x) (hy : RefusedFor R y) : RefusedFor R (if c then x else y) := by
  split
  · exact hx
  · exact hy

theorem RefusedFor.ok {R : ε → Prop} (a : α) : RefusedFor R (.ok a) := nofun

theorem RefusedFor.error {R : ε → Prop} {e : ε} (h : R e) :
    RefusedFor R (.error e : Except ε α) :=
  fun _ he => Except.error.inj he ▸ h

namespace Decides

variable {R : ε → Prop} {x : Except ε α} {fits fits' : Prop} {Gives : α → Prop}

/-- Whatever succeeds meets the condition, and its value is as known. -/
theorem of_eq_ok {a : α} (h : Decides R x fits Gives) (hx : x = .ok a) : fits ∧ Gives a := by
  have hfits : fits := Classical.byContradiction fun hfits => by
    obtain ⟨e, he, -⟩ := h.refused hfits
    exact nomatch hx.symm.trans he
  obtain ⟨b, hb, hgives⟩ := h.value hfits
  obtain rfl := Except.ok.inj (hx.symm.trans hb)
  exact ⟨hfits, hgives⟩

/-- Whatever is refused does not meet the condition, and is refused for one of the reasons. -/
theorem of_eq_error {e : ε} (h : Decides R x fits Gives) (hx : x = .error e) :
    ¬ fits ∧ R e := by
  have hfits : ¬ fits := fun hfits => by
    obtain ⟨a, ha, -⟩ := h.value hfits
    exact nomatch hx.symm.trans ha
  obtain ⟨e', he', hreason⟩ := h.refused hfits
  obtain rfl := Except.error.inj (hx.symm.trans he')
  exact ⟨hfits, hreason⟩

theorem of_ok {a : α} (hx : x = .ok a) (h : Gives a) : Decides R x True Gives :=
  ⟨fun _ => ⟨a, hx, h⟩, fun hfalse => absurd trivial hfalse⟩

/-- A check is decided by when it passes and why it does not. -/
theorem of_ok_iff {x : Except ε Unit} (hx : x = .ok () ↔ fits) (hr : RefusedFor R x) :
    Decides R x fits fun _ => True := by
  refine ⟨fun h => ⟨(), hx.mpr h, trivial⟩, fun h => ?_⟩
  cases hcase : x with
  | error e => exact ⟨e, rfl, hr e hcase⟩
  | ok _ => exact absurd (hx.mp hcase) h

/-- A sequence succeeds on the conditions of both its parts, and is refused for the reasons of
either. -/
theorem bind {f : α → Except ε β} {GivesRest : β → Prop} (hx : Decides R x fits Gives)
    (hf : ∀ a, Gives a → Decides R (f a) fits' GivesRest) :
    Decides R (x >>= f) (fits ∧ fits') GivesRest := by
  by_cases hfits : fits
  · obtain ⟨a, rfl, ha⟩ := hx.value hfits
    exact ⟨fun h => (hf a ha).value h.2, fun h => (hf a ha).refused fun h' => h ⟨hfits, h'⟩⟩
  · obtain ⟨e, rfl, he⟩ := hx.refused hfits
    exact ⟨fun h => absurd h.1 hfits, fun _ => ⟨e, rfl, he⟩⟩

/-- A first part that is known to succeed adds nothing to the conditions. -/
theorem bind_of_fits {f : α → Except ε β} {GivesRest : β → Prop} (hx : Decides R x fits Gives)
    (hfits : fits) (hf : ∀ a, Gives a → Decides R (f a) fits' GivesRest) :
    Decides R (x >>= f) fits' GivesRest := by
  obtain ⟨a, rfl, ha⟩ := hx.value hfits
  exact hf a ha

/-- The condition may be said in other words. -/
theorem congr (h : Decides R x fits Gives) (hfits : fits ↔ fits') :
    Decides R x fits' Gives :=
  ⟨fun h' => h.value (hfits.mpr h'), fun h' => h.refused fun hf => h' (hfits.mp hf)⟩

/-- Less may be known of the value. -/
theorem imp {Gives' : α → Prop} (h : Decides R x fits Gives) (hgives : ∀ a, Gives a → Gives' a) :
    Decides R x fits Gives' := by
  refine ⟨fun hfits => ?_, h.refused⟩
  obtain ⟨a, hx, ha⟩ := h.value hfits
  exact ⟨a, hx, hgives a ha⟩

/-- Where the rest always succeeds, the condition is that of the first part. -/
theorem bind_ok {f : α → Except ε β} {GivesRest : β → Prop} (hx : Decides R x fits Gives)
    (hf : ∀ a, Gives a → Decides R (f a) True GivesRest) :
    Decides R (x >>= f) fits GivesRest :=
  (hx.bind hf).congr (iff_of_eq (and_true fits))

/-- Where the rest only returns something, the condition is that of the first part. -/
theorem bind_pure {g : α → β} (hx : Decides R x fits Gives) :
    Decides R (x >>= fun a => pure (g a)) fits fun _ => True :=
  hx.bind_ok fun _ _ => of_ok rfl trivial

/-- Of a value it is also known that the condition holds. -/
theorem and_fits (h : Decides R x fits Gives) : Decides R x fits fun a => fits ∧ Gives a := by
  refine ⟨fun hfits => ?_, h.refused⟩
  obtain ⟨a, hx, ha⟩ := h.value hfits
  exact ⟨a, hx, hfits, ha⟩

end Decides

/-! ## Agreeing

Two computations agree when both fail with one error, or both succeed with related values.
-/

/-- Results that are the same error, or values that are related. -/
inductive Agree (R : α → β → Prop) : Except ε α → Except ε β → Prop
  | ok {a : α} {b : β} (h : R a b) : Agree R (.ok a) (.ok b)
  | error (e : ε) : Agree R (.error e) (.error e)

/-- Sequences agree when their first steps do, and the rest on related values. -/
theorem Agree.bind {R : α → β → Prop} {S : γ → δ → Prop} {x : Except ε α} {y : Except ε β}
    {f : α → Except ε γ} {g : β → Except ε δ} (h : Agree R x y)
    (hf : ∀ a b, R a b → Agree S (f a) (g b)) : Agree S (x >>= f) (y >>= g) := by
  cases h with
  | ok h => exact hf _ _ h
  | error e => exact .error e

/-- A step agrees with itself. -/
theorem Agree.refl (x : Except ε α) : Agree Eq x x := by
  cases x with
  | error e => exact .error e
  | ok a => exact .ok rfl

end AmmRollup
