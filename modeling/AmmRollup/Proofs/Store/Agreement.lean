import AmmRollup.Proofs.Store.File

/-!
# AmmRollup.Proofs.Store.Agreement

The store in a folder is the store in memory.  Both are lawful, so either answers a call as its
shelf does (`ProofStore.Lawful.perform_ask`); and both start from the shelf that holds nothing.
A folder says the same whatever path it is reached by (`FileStore.Shelved.of_room`), and a
store keeps nothing but the path, so it makes no difference how many handles there are, which
of them is called, and when each was opened (`FileStore.answers_agree`).
-/

namespace AmmRollup

variable {m n : Type → Type} [Monad m] [Monad n] {σ τ ε α β ι : Type}

/-! ## Calls

A store as its users see it: calls, and answers where it does not refuse.
-/

/-- A call of a proof store. -/
inductive StoreCall where
  | get (index : Nat)
  | put (index : Nat) (proof : Proof)
  | getMerged
  | putMerged (proof : Proof) (stop : Nat)
  | startMerge (start : Nat)
  | proofCount
  | mergedWindow
  | settledUntil
  | setSettledUntil (stop : Nat)

/-- What a proof store answers where it does not refuse. -/
inductive StoreAnswer where
  | done
  | proof (proof : Proof)
  | merged (proof : Option Proof)
  | count (steps : Nat)
  | window (window : Window)
deriving DecidableEq

/-- Calls a store. -/
def ProofStore.ask (store : ProofStore m) : StoreCall → ExceptT StoreError m StoreAnswer
  | .get index => do return .proof (← store.get index)
  | .put index proof => do
      store.put index proof
      return .done
  | .getMerged => do return .merged (← store.getMerged)
  | .putMerged proof stop => do
      store.putMerged proof stop
      return .done
  | .startMerge start => do
      store.startMerge start
      return .done
  | .proofCount => do return .count (← store.proofCount)
  | .mergedWindow => do return .window (← store.mergedWindow)
  | .settledUntil => do return .count (← store.settledUntil)
  | .setSettledUntil stop => do
      store.setSettledUntil stop
      return .done

/-- What a shelf answers to a call, and the shelf after it. -/
def Shelf.reply (shelf : Shelf) : StoreCall → Except StoreError StoreAnswer × Shelf
  | .get index => ((shelf.proof index).map .proof, shelf)
  | .put index proof => (.ok .done, shelf.put index proof)
  | .getMerged => (shelf.getMerged.map .merged, shelf)
  | .putMerged proof stop =>
      if stop ≤ shelf.window.start then
        (.error (.window shelf.window.start shelf.window.stop stop), shelf)
      else (.ok .done, shelf.putMerged proof stop)
  | .startMerge start => (.ok .done, shelf.startMerge start)
  | .proofCount => (.ok (.count shelf.count), shelf)
  | .mergedWindow => (.ok (.window shelf.window), shelf)
  | .settledUntil => (.ok (.count shelf.settledUntil), shelf)
  | .setSettledUntil stop => (.ok .done, shelf.setSettledUntil stop)

/-- Whether a call stays within what a store is limited to. -/
def StoreCall.Within (index : Nat → Prop) (storable : Proof → Prop) : StoreCall → Prop
  | .get i => index i
  | .put i p => index i ∧ index (i + 1) ∧ storable p
  | .putMerged p stop => storable p ∧ index stop
  | .startMerge stop | .setSettledUntil stop => index stop
  | .getMerged | .proofCount | .mergedWindow | .settledUntil => True

namespace Runs

/-- What is made of a result changes nothing else. -/
theorem perform_map (r : Runs m σ) (x : ExceptT ε m α) (f : α → β) (s : σ) :
    r.perform (do return f (← x)) s = ((r.perform x s).1.map f, (r.perform x s).2) := by
  cases hx : r.perform x s with
  | mk result t =>
      cases result with
      | error e => exact r.perform_bind_error hx
      | ok a => exact (r.perform_bind_ok hx).trans (r.perform_pure (f a))

end Runs

/-- A lawful store answers a call as its shelf does. -/
theorem ProofStore.Lawful.perform_ask {store : ProofStore m} {r : Runs m σ}
    {shelved : σ → Shelf → Prop} {index : Nat → Prop} {storable : Proof → Prop}
    (h : store.Lawful r shelved index storable) {s : σ} {shelf : Shelf} (hs : shelved s shelf)
    {call : StoreCall} (hcall : call.Within index storable) :
    ∃ t, r.perform (store.ask call) s = ((shelf.reply call).1, t) ∧
      shelved t (shelf.reply call).2 := by
  -- calls that change the store answer that they are done
  have hdone {x : ExceptT StoreError m Unit} {t : σ} (hx : r.perform x s = (.ok (), t)) :
      r.perform (do x; return StoreAnswer.done) s = (.ok .done, t) :=
    (r.perform_bind_ok hx).trans (r.perform_pure _)
  cases call with
  | get i => exact ⟨s, by rw [ask, r.perform_map, h.get hs hcall]; rfl, hs⟩
  | put i p =>
      obtain ⟨hi, hnext, hp⟩ := hcall
      obtain ⟨t, hput, ht⟩ := h.put hs hi hnext hp
      exact ⟨t, hdone hput, ht⟩
  | getMerged => exact ⟨s, by rw [ask, r.perform_map, h.getMerged hs]; rfl, hs⟩
  | putMerged p stop =>
      obtain ⟨hp, hstop⟩ := hcall
      rw [Shelf.reply]
      split
      · next hwindow =>
          exact ⟨s, r.perform_bind_error (h.putMerged_refused hs p hwindow), hs⟩
      · next hwindow =>
          obtain ⟨t, hput, ht⟩ := h.putMerged hs hp hstop (Nat.lt_of_not_le hwindow)
          exact ⟨t, hdone hput, ht⟩
  | startMerge start =>
      obtain ⟨t, hstart, ht⟩ := h.startMerge hs hcall
      exact ⟨t, hdone hstart, ht⟩
  | proofCount => exact ⟨s, by rw [ask, r.perform_map, h.proofCount hs]; rfl, hs⟩
  | mergedWindow => exact ⟨s, by rw [ask, r.perform_map, h.mergedWindow hs]; rfl, hs⟩
  | settledUntil => exact ⟨s, by rw [ask, r.perform_map, h.settledUntil hs]; rfl, hs⟩
  | setSettledUntil stop =>
      obtain ⟨t, hset, ht⟩ := h.setSettledUntil hs hcall
      exact ⟨t, hdone hset, ht⟩

/-! ## Programs in turn

Programs of two kinds that answer alike on alike states answer alike in a row.  This is the
induction over the uses of a store, for whatever relation the two states are in.
-/

namespace Runs

/-- The answers to programs that run one after another, whether they fail or not. -/
def answers (r : Runs m σ) (s : σ) : List (ExceptT ε m α) → List (Except ε α)
  | [] => []
  | x :: xs => (r.perform x s).1 :: r.answers (r.perform x s).2 xs

/-- Programs of two kinds have the same answers, if each has on states that are alike and
leaves such states. -/
theorem answers_eq_of_alike {r : Runs m σ} {r' : Runs n τ} {alike : σ → τ → Prop}
    {f : ι → ExceptT ε m α} {g : ι → ExceptT ε n α} {uses : List ι}
    (hstep : ∀ u ∈ uses, ∀ s t, alike s t → (r.perform (f u) s).1 = (r'.perform (g u) t).1 ∧
      alike (r.perform (f u) s).2 (r'.perform (g u) t).2) {s : σ} {t : τ} (h : alike s t) :
    r.answers s (uses.map f) = r'.answers t (uses.map g) := by
  induction uses generalizing s t with
  | nil => rfl
  | cons u uses ih =>
      obtain ⟨hanswer, hnext⟩ := hstep u List.mem_cons_self s t h
      exact List.cons_eq_cons.mpr
        ⟨hanswer, ih (fun u' hu' => hstep u' (List.mem_cons_of_mem _ hu')) hnext⟩

end Runs

/-! ## Handles

Handles of one folder may have different paths to it, and each is opened on its own.  The state
is in the files alone, so what one handle writes the others read.
-/

namespace FileStore

variable {folder folder' : String} {base : PathParts} {s t : FileSystem} {shelf : Shelf}

/-- What a folder says does not depend on the path that it is reached by. -/
theorem Shelved.of_room (h : Shelved folder base s shelf) (hroom : s.Room folder' base) :
    Shelved folder' base s shelf :=
  ⟨⟨hroom, h.keeps.place, h.keeps.temporary⟩, h.proof, h.merged, h.cursors⟩

/-- A folder that nothing is in. -/
structure Vacant (s : FileSystem) (base : PathParts) : Prop where
  files : ∀ name, s.files.get? (base ++ [name]) = none
  folders : ∀ name, base ++ [name] ∉ s.folders
  /-- No file stands where a folder does, here or elsewhere. -/
  free : ∀ place ∈ s.folders, s.files.contains place = false

/-- Its store holds nothing. -/
theorem Vacant.shelved (h : Vacant s base) (hroom : s.Room folder base) :
    Shelved folder base s .empty := by
  have hnone (f : StoreFile) : contents? base s f = none := h.files _
  exact {
    keeps := ⟨hroom, fun f => h.folders _, fun f => h.folders _⟩
    proof := fun i _ => by rw [hnone]; rfl
    merged := by rw [hnone]; rfl
    cursors := by rw [hnone]; rfl }

/-- What is done with the handles of one folder, each of which has a path to it. -/
inductive Use where
  /-- A handle is opened. -/
  | opened (folder : String)
  /-- A handle is called. -/
  | called (folder : String) (call : StoreCall)

namespace Use

/-- The path of the handle. -/
def path : Use → String
  | .opened folder | .called folder _ => folder

/-- Numbers have 64 bits, the length of a payload is such a number, and so is what comes after
the index of a proof that is kept. -/
def Fits : Use → Prop
  | .opened _ => True
  | .called _ call => call.Within (· < 1 <<< 64) (·.payload.length < 1 <<< 64)

/-- A use of the store in the folder. -/
def onFiles : Use → FileCall StoreAnswer
  | .opened folder => do
      openAt folder
      return .done
  | .called folder call => (ProofStore.files folder).ask call

/-- A use of a store in memory, which need not be opened. -/
def inMemory : Use → ExceptT StoreError (StateM MemoryStore) StoreAnswer
  | .opened _ => return .done
  | .called _ call => ProofStore.memory.ask call

end Use

/-- By whatever path it is reached, the folder says what a store in memory holds. -/
def Mirrors (base : PathParts) (s t : FileSystem) (memory : MemoryStore) : Prop :=
  ∀ folder, s.Room folder base → Shelved folder base t memory.shelf ∧ Kept base s t

/-- Before the first use nothing is kept, on either side. -/
theorem Vacant.mirrors (h : Vacant s base) : Mirrors base s s .empty :=
  fun _ hroom => ⟨h.shelved hroom, .refl base s⟩

/-- A use of a handle is answered as by the store in memory, and the folder goes on to say what
that holds. -/
theorem Vacant.perform_use (hvacant : Vacant s base) {use : Use} (hroom : s.Room use.path base)
    (hfits : use.Fits) {memory : MemoryStore} (h : Mirrors base s t memory) :
    (Runs.files.perform use.onFiles t).1 = ((Runs.state _).perform use.inMemory memory).1 ∧
      Mirrors base s (Runs.files.perform use.onFiles t).2
        ((Runs.state _).perform use.inMemory memory).2 := by
  obtain ⟨hshelved, hkept⟩ := h use.path hroom
  cases use with
  | opened folder =>
      have hopen := hshelved.perform_openAt (hkept.free hshelved.keeps hvacant.free)
      have hrun : Runs.files.perform (Use.opened folder).onFiles t = (.ok .done, t) :=
        (Runs.perform_bind_ok _ hopen).trans (Runs.perform_pure _ _)
      rw [hrun]
      exact ⟨rfl, h⟩
  | called folder call =>
      obtain ⟨t', hfiles, hshelved', hkept'⟩ :=
        (ProofStore.files_lawful folder base s).perform_ask ⟨hshelved, hkept⟩ hfits
      have hwithin : call.Within (fun _ => True) (fun _ => True) := by
        cases call <;> simp [StoreCall.Within]
      obtain ⟨memory', hmemory, hshelf⟩ := ProofStore.memory_lawful.perform_ask rfl hwithin
      have hrun : Runs.files.perform (Use.called folder call).onFiles t = _ := hfiles
      have hrun' : (Runs.state _).perform (Use.called folder call).inMemory memory = _ := hmemory
      rw [hrun, hrun']
      -- any other path to the folder shows the same shelf, before the call and after it
      refine ⟨rfl, fun other hother => ⟨?_, hkept'⟩⟩
      rw [hshelf]
      exact hshelved'.of_room (hother.of_folders hkept'.folders)

/-! ## Agreement

Handles that are used one after another answer as a single store in memory, in which the folder
starts out empty.
-/

/-- Every file of a store, and every temporary file, has a place of its own, by whatever path
the folder is reached. -/
structure Separate (s : FileSystem) (base : PathParts) : Prop where
  slot : ∀ folder, s.Room folder base → ∀ f : StoreFile, f.Named →
    s.slot (joinPath folder f.name) = .ok (place base f) ∧
      s.slot (temporaryPath (joinPath folder f.name)) = .ok (temporaryPlace base f)
  place : ∀ f g, FileStore.place base f = FileStore.place base g → f = g
  temporary : ∀ f g, temporaryPlace base f = temporaryPlace base g → f = g
  apart : ∀ f g, FileStore.place base f ≠ temporaryPlace base g

/-- What stands beside the folder is not looked at, so different places do not meet. -/
theorem Vacant.separate (h : Vacant s base) : Separate s base where
  slot _ hroom _ hf :=
    have hkeeps := (h.shelved hroom).keeps
    ⟨hkeeps.slot hf, hkeeps.slot_temporary hf⟩
  place _ _ := place_inj.mp
  temporary _ _ := temporaryPlace_inj.mp
  apart := place_ne_temporaryPlace

/-- **The store in a folder is the store in memory.**  Handles of one folder, in which nothing
was, answer any calls as one store in memory does, whichever of them are called and whenever
they were opened.  Proofs and cursors read back from their files, and no two files share a
place. -/
theorem answers_agree (h : Vacant s base) {uses : List Use}
    (hroom : ∀ use ∈ uses, s.Room use.path base) (hfits : ∀ use ∈ uses, use.Fits) :
    Runs.files.answers s (uses.map Use.onFiles) =
        (Runs.state _).answers .empty (uses.map Use.inMemory) ∧
      (∀ p : Proof, p.payload.length < 1 <<< 64 → Proof.decode? p.encode = some p) ∧
      (∀ c : Cursors, c.Fits → Json.read? (Json.prettyBytes c) = some c) ∧
      Separate s base := by
  refine ⟨?_, fun p hp => ?_, fun c hc => (Cursors.readsBack hc).read?_prettyBytes, h.separate⟩
  · have hstep (use : Use) (huse : use ∈ uses) (t : FileSystem) (memory : MemoryStore)
        (halike : Mirrors base s t memory) := h.perform_use (hroom use huse) (hfits use huse) halike
    exact Runs.answers_eq_of_alike hstep h.mirrors
  · simpa using Proof.decode?_encode_append hp []

/-- The file system with an empty folder for proofs. -/
def withStoreFolder : FileSystem := ⟨∅, [[], ["proofs".toList]]⟩

/-- A new folder holds an empty store. -/
theorem shelved_withStoreFolder :
    Shelved "proofs" ["proofs".toList] withStoreFolder .empty :=
  Vacant.shelved ⟨fun _ => rfl, by simp [withStoreFolder], fun _ _ => rfl⟩
    ⟨rfl, by simp [withStoreFolder], by decide⟩

/-- A proof to keep there. -/
def keptProof : Proof := ⟨.burn, .empty, .empty, [7]⟩

/-- Two handles on it: the one keeps a proof, and the other, opened later and by another path,
finds it, but no second one. -/
def twoHandles : List Use :=
  [.opened "proofs", .called "proofs" (.put 0 keptProof), .opened "./proofs/",
    .called "./proofs/" (.get 0), .called "./proofs/" (.get 1), .called "proofs" .proofCount]

/-- Two handles on one folder, by different paths: what one keeps the other finds. -/
theorem answers_agree_twoHandles :
    Runs.files.answers withStoreFolder (twoHandles.map Use.onFiles) =
      [.ok .done, .ok .done, .ok .done, .ok (.proof keptProof), .error (.notFound 1),
        .ok (.count 1)] := by
  have hvacant : Vacant withStoreFolder ["proofs".toList] :=
    ⟨fun _ => rfl, by simp [withStoreFolder], fun _ _ => rfl⟩
  have hplain : withStoreFolder.Room "proofs" ["proofs".toList] :=
    ⟨rfl, by simp [withStoreFolder], by decide⟩
  have hdotted : withStoreFolder.Room "./proofs/" ["proofs".toList] :=
    ⟨rfl, by simp [withStoreFolder], by decide⟩
  have hroom : ∀ use ∈ twoHandles, withStoreFolder.Room use.path ["proofs".toList] := by
    simp only [twoHandles, List.forall_mem_cons, Use.path]
    exact ⟨hplain, hplain, hdotted, hdotted, hdotted, hplain, by simp⟩
  have hfits : ∀ use ∈ twoHandles, use.Fits := by
    simp [twoHandles, Use.Fits, StoreCall.Within, keptProof]
  exact (answers_agree hvacant hroom hfits).1.trans rfl

end FileStore

end AmmRollup
