import AmmRollup.Proofs.Files.Folder
import AmmRollup.Proofs.Text
import AmmRollup.Store.File

/-!
# AmmRollup.Proofs.Store.Names

The names of a store's files.  They are short and plain, so that a folder has room for
them; they are different, and none is the name of a temporary file.
-/

namespace AmmRollup

/-- The files of a store. -/
inductive StoreFile where
  | proof (index : Nat)
  | merged
  | cursors
deriving DecidableEq

namespace StoreFile

/-- The name of a file up to its extension. -/
def stem : StoreFile → List Char
  | .proof index => "proof-".toList ++ FileStore.paddedIndex index
  | .merged => "merged".toList
  | .cursors => "meta".toList

/-- The extension of a file's name. -/
def extension : StoreFile → List Char
  | .proof _ | .merged => "bin".toList
  | .cursors => "json".toList

/-- The three kinds of names, by the part before the dot and the part behind it. -/
@[simp] theorem stem_proof (index : Nat) :
    (proof index).stem = "proof-".toList ++ FileStore.paddedIndex index := rfl

@[simp] theorem stem_merged : merged.stem = "merged".toList := rfl

@[simp] theorem stem_cursors : cursors.stem = "meta".toList := rfl

@[simp] theorem extension_proof (index : Nat) : (proof index).extension = "bin".toList := rfl

@[simp] theorem extension_merged : merged.extension = "bin".toList := rfl

@[simp] theorem extension_cursors : cursors.extension = "json".toList := rfl

/-- The name of a file. -/
def name (f : StoreFile) : String := String.ofList (f.stem ++ '.' :: f.extension)

/-- The name of the file that the new contents of a file are written to. -/
def temporary (f : StoreFile) : String := String.ofList (f.stem ++ ".tmp".toList)

/-- Whether a file can be named: indexes have 64 bits. -/
def Named : StoreFile → Prop
  | .proof index => index < 1 <<< 64
  | .merged | .cursors => True

/-- Put together they are the names that the store uses. -/
theorem name_proof (index : Nat) : (proof index).name = FileStore.proofName index := rfl

theorem name_merged : merged.name = FileStore.mergedName := rfl

/-! ## Characters of names

Names are made of letters, digits, a dash and a dot, and are short.  So they are names of entries
in any folder, and nothing in them is read as a folder of its own.
-/

/-- Whether a character may stand in the name of a file of a store. -/
def isNameChar (c : Char) : Bool := c ≠ '/' ∧ 0 < c.toNat ∧ c.toNat < 128

/-- Digits may stand in a name, and are no dot. -/
theorem isNameChar_of_isDigit {c : Char} (h : c.isDigit) : isNameChar c ∧ c ≠ '.' := by
  have hrange := Char.isDigit_iff_toNat.mp h
  have hne (d : Char) (hd : d.isDigit = false) : c ≠ d := by
    rintro rfl
    rw [h] at hd
    cases hd
  refine ⟨?_, hne '.' rfl⟩
  have hzero : '0'.toNat = 48 := rfl
  have hnine : '9'.toNat = 57 := rfl
  simp only [isNameChar, decide_eq_true_eq]
  exact ⟨hne '/' rfl, by omega, by omega⟩

/-- An index is written in digits alone, with zeros in front. -/
theorem isDigit_of_mem_paddedIndex {index : Nat} {c : Char} (h : c ∈ FileStore.paddedIndex index) :
    c.isDigit := by
  rcases List.mem_append.mp h with h | h
  · obtain rfl := List.eq_of_mem_replicate h
    rfl
  · exact Nat.isDigit_of_mem_toDigits (by decide) (by decide) h

/-- An index that is a word of 64 bits needs no more than twenty digits. -/
theorem length_paddedIndex {index : Nat} (h : index < 1 <<< 64) :
    (FileStore.paddedIndex index).length ≤ 20 := by
  have hlength : (Nat.toDigits 10 index).length ≤ 20 :=
    (Nat.length_toDigits_le_iff (by decide) (by decide)).mpr (by omega)
  simp only [FileStore.paddedIndex, List.length_append, List.length_replicate]
  omega

/-- Different indexes are written differently. -/
theorem paddedIndex_injective {i j : Nat}
    (h : FileStore.paddedIndex i = FileStore.paddedIndex j) : i = j := by
  have hvalue (k : Nat) : Nat.ofDigitChars 10 (FileStore.paddedIndex k) 0 = k := by
    rw [FileStore.paddedIndex, Nat.ofDigitChars_append, Nat.ofDigitChars_replicate_zero,
      Nat.mul_zero, Nat.ofDigitChars_ten_toDigits]
  rw [← hvalue i, ← hvalue j, h]

/-- No dot stands before the one that divides a name. -/
theorem isNameChar_of_mem_stem {f : StoreFile} : ∀ c ∈ f.stem, isNameChar c ∧ c ≠ '.' := by
  cases f with
  | proof index =>
    intro c h
    have hword : ∀ c ∈ "proof-".toList, isNameChar c ∧ c ≠ '.' := by simp [isNameChar]
    rcases List.mem_append.mp h with h | h
    · exact hword c h
    · exact isNameChar_of_isDigit (isDigit_of_mem_paddedIndex h)
  | merged | cursors => simp [isNameChar]

/-- No dot stands behind the one that divides a name. -/
theorem isNameChar_of_mem_extension {f : StoreFile} :
    ∀ c ∈ f.extension, isNameChar c ∧ c ≠ '.' := by
  cases f <;> simp [isNameChar]

/-- Names are short, as indexes have at most twenty digits. -/
theorem length_stem {f : StoreFile} (h : f.Named) :
    3 ≤ f.stem.length ∧ f.stem.length ≤ 26 ∧ f.stem.length + f.extension.length ≤ 29 := by
  cases f with
  | proof index =>
    have := length_paddedIndex h
    have hword : "proof-".toList.length = 6 := rfl
    have hextension : "bin".toList.length = 3 := rfl
    simp only [stem_proof, extension_proof, List.length_append]
    omega
  | merged | cursors => decide

/-- A text of a few such characters is the name of an entry. -/
theorem entryName_ofList {cs : List Char} (hchars : ∀ c ∈ cs, isNameChar c) (hmin : 3 ≤ cs.length)
    (hmax : cs.length ≤ 30) : FileSystem.EntryName (String.ofList cs) := by
  have hascii : ∀ c ∈ cs, c.toNat < 128 := fun c hc => by
    have := hchars c hc
    simp only [isNameChar, decide_eq_true_eq] at this
    exact this.2.2
  refine ⟨?_, ?_, ?_⟩
  · rw [String.toList_ofList]
    refine ⟨fun hslash => ?_, ?_, ?_, ?_⟩
    -- a slash is no character of a name, and the reserved names are too short to be one
    · exact absurd (hchars _ hslash) (by decide)
    all_goals
      rintro rfl
      simp at hmin
  · rw [utf8ByteSize_ofList_ascii hascii]
    exact hmax
  · rw [String.toList_ofList, List.all_eq_true]
    intro c hc
    have := hchars c hc
    simp only [isNameChar, decide_eq_true_eq] at this ⊢
    exact this.2.1

/-- The name of a file of the store may be that of an entry of a folder. -/
theorem entryName {f : StoreFile} (h : f.Named) : FileSystem.EntryName f.name := by
  have hlength := length_stem h
  refine entryName_ofList ?_ ?_ ?_
  · intro c hc
    rcases List.mem_append.mp hc with hc | hc
    · exact (isNameChar_of_mem_stem c hc).1
    · rcases List.mem_cons.mp hc with rfl | hc
      · rfl
      · exact (isNameChar_of_mem_extension c hc).1
  all_goals
    simp only [List.length_append, List.length_cons]
    omega

/-- The name under which a file is written first may be that of an entry of a folder. -/
theorem entryName_temporary {f : StoreFile} (h : f.Named) :
    FileSystem.EntryName f.temporary := by
  have hlength := length_stem h
  have hextension : ".tmp".toList.length = 4 := rfl
  have hword : ∀ c ∈ ".tmp".toList, isNameChar c := by simp [isNameChar]
  refine entryName_ofList ?_ ?_ ?_
  · intro c hc
    rcases List.mem_append.mp hc with hc | hc
    · exact (isNameChar_of_mem_stem c hc).1
    · exact hword c hc
  all_goals
    simp only [List.length_append]
    omega

/-- The temporary file of a file stands in the same folder. -/
theorem temporaryPath_name (folder : String) {f : StoreFile} (h : f.Named) :
    temporaryPath (joinPath folder f.name) = joinPath folder f.temporary := by
  have hlength := length_stem h
  have hslash {cs : List Char} (hcs : ∀ c ∈ cs, isNameChar c ∧ c ≠ '.') : '/' ∉ cs :=
    fun hc => absurd (hcs _ hc).1 (by decide)
  refine temporaryPath_joinPath folder (hslash isNameChar_of_mem_stem) ?_ ?_ ?_
    (hslash isNameChar_of_mem_extension) fun hdot => (isNameChar_of_mem_extension _ hdot).2 rfl
  · rintro hnil
    rw [hnil, List.length_nil] at hlength
    omega
  · rintro hdot
    rw [hdot, List.length_singleton] at hlength
    omega
  · cases f <;> simp

/-! ## Different names

Files of a store are told apart by their names, up to the dot and behind it, and no file has the
name of a temporary one.
-/

/-- The name of a file up to its extension tells the file. -/
theorem stem_injective {f g : StoreFile} (h : f.stem = g.stem) : f = g := by
  cases f with
  | proof i =>
    cases g with
    | proof j => rw [paddedIndex_injective (List.append_cancel_left h)]
    | merged | cursors => simp at h
  | merged =>
    cases g with
    | merged => rfl
    | proof | cursors => simp at h
  | cursors =>
    cases g with
    | cursors => rfl
    | proof | merged => simp at h

/-- Temporary files of one name belong to one file. -/
theorem temporary_injective {f g : StoreFile} (h : f.temporary = g.temporary) : f = g :=
  stem_injective (List.append_cancel_right (String.ofList_injective h))

/-- A name ends with its first dot and an extension. -/
theorem takeWhile_name (f : StoreFile) : f.name.toList.takeWhile (· ≠ '.') = f.stem := by
  rw [name, String.toList_ofList,
    List.takeWhile_append_of_pos fun c hc => decide_eq_true (isNameChar_of_mem_stem c hc).2,
    List.takeWhile_cons_of_neg (by simp), List.append_nil]

/-- Files of one name are one file. -/
theorem name_injective {f g : StoreFile} (h : f.name = g.name) : f = g :=
  stem_injective (by rw [← takeWhile_name f, h, takeWhile_name g])

/-- No file bears the name of a temporary file. -/
theorem name_ne_temporary (f g : StoreFile) : f.name ≠ g.temporary := by
  intro h
  have hlist : f.stem ++ '.' :: f.extension = g.stem ++ ".tmp".toList :=
    String.ofList_injective h
  have hlast := congrArg List.getLast? hlist
  generalize f.stem = stem at hlast
  cases f <;> simp at hlast

end StoreFile

end AmmRollup
