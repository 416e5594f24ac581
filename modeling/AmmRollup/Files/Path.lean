/-!
# AmmRollup.Files.Path

Paths of files, as texts whose pieces stand between slashes.  A piece is a name, or says
to stay (nothing, or one dot) or to step back (two dots).  What a path leads to depends
on the folders that exist, so a path is followed on a file system and not here.

The main statement is `temporaryPath_joinPath`: the new contents of a file with an
extension are written beside it, under its name with another extension.

This module depends only on the Lean 4 core library.
-/

namespace AmmRollup

/-- The names on the way to a file. -/
abbrev PathParts := List (List Char)

/-- The pieces of a text between slashes. -/
def splitSlashes : List Char → PathParts
  | [] => [[]]
  | c :: cs =>
      if c = '/' then [] :: splitSlashes cs
      else
        match splitSlashes cs with
        | [] => [[c]]
        | part :: parts => (c :: part) :: parts

/-- Follows one more piece of a path. -/
def PathParts.follow (parts : PathParts) (piece : List Char) : PathParts :=
  if piece = [] ∨ piece = ['.'] then parts
  else if piece = ['.', '.'] then parts.dropLast
  else parts ++ [piece]

/-- Whether a text may be a path: it has at most 4095 bytes, none of them zero. -/
def usablePath (path : String) : Bool :=
  path.utf8ByteSize ≤ 4095 ∧ path.toList.all (0 < ·.toNat)

/-- Whether a piece may be looked up in a folder: it has at most 255 bytes. -/
def usablePiece (piece : List Char) : Bool := (String.ofList piece).utf8ByteSize ≤ 255

/-- The path of a name inside a folder; an absolute name stands for itself. -/
def joinPath (folder name : String) : String :=
  if name.toList.head? = some '/' then name
  else if folder.toList = [] ∨ folder.toList.getLast? = some '/' then folder ++ name
  else folder ++ "/" ++ name

/-- A path read backwards, without the slashes and single dots at its end. -/
def dropTrailing : List Char → List Char
  | '/' :: cs => dropTrailing cs
  | '.' :: '/' :: cs => dropTrailing cs
  | cs => cs

/-- Where the contents of a file are written before they take its place: the last
extension of its name gives way to `tmp`, and what follows the name is dropped.  A path
without a name stays as it is; where only a dot stands before the extension, cutting
that off leaves two dots, which are no name either. -/
def temporaryPath (path : String) : String :=
  let whole := path.toList.reverse
  let cs := dropTrailing whole
  let name := cs.takeWhile (· ≠ '/')
  let extension := name.takeWhile (· ≠ '.')
  let stem := (name.drop extension.length).drop 1
  if name = [] ∨ name = ['.'] ∨ name = ['.', '.'] then path
  else if stem = ['.'] ∧ cs = whole then
    String.ofList (cs.drop extension.length).reverse
  else
    let stem := if stem = [] then name else stem
    String.ofList ((stem ++ cs.drop name.length).reverse ++ ".tmp".toList)

/-! ## Laws -/

theorem splitSlashes_ne_nil (cs : List Char) : splitSlashes cs ≠ [] := by
  cases cs with
  | nil => simp [splitSlashes]
  | cons c cs =>
    rw [splitSlashes]
    split
    · simp
    · split <;> simp

/-- A text without slashes is one piece. -/
theorem splitSlashes_eq_singleton {cs : List Char} (h : '/' ∉ cs) : splitSlashes cs = [cs] := by
  induction cs with
  | nil => rfl
  | cons c cs ih =>
    rw [List.mem_cons, not_or] at h
    simp [splitSlashes, ih h.2, Ne.symm h.1]

/-- A slash ends a piece. -/
theorem splitSlashes_append_slash (cs ds : List Char) :
    splitSlashes (cs ++ '/' :: ds) = splitSlashes cs ++ splitSlashes ds := by
  induction cs with
  | nil => simp [splitSlashes]
  | cons c cs ih =>
    by_cases hc : c = '/'
    · simp [splitSlashes, hc, ih]
    · obtain ⟨part, parts, h⟩ := List.exists_cons_of_ne_nil (splitSlashes_ne_nil cs)
      simp [splitSlashes, hc, ih, h]

/-- A plain name is a name without slashes that is neither empty nor made of one or two dots. -/
def PlainName (name : List Char) : Prop :=
  '/' ∉ name ∧ name ≠ [] ∧ name ≠ ['.'] ∧ name ≠ ['.', '.']

/-- A plain name leads to what bears it. -/
theorem PathParts.follow_plain {name : List Char} (h : PlainName name) (parts : PathParts) :
    parts.follow name = parts ++ [name] := by
  simp [PathParts.follow, h.2.1, h.2.2.1, h.2.2.2]

/-- A name inside a folder comes after the folder's path, and after a slash unless that
is empty. -/
theorem toList_joinPath (folder : String) : ∃ before : List Char,
    (before = [] ∧ folder.toList = [] ∨ before = folder.toList ∧ before.getLast? = some '/' ∨
      before = folder.toList ++ ['/']) ∧
    ∀ name : String, name.toList.head? ≠ some '/' →
      (joinPath folder name).toList = before ++ name.toList := by
  by_cases hd : folder.toList = [] ∨ folder.toList.getLast? = some '/'
  · refine ⟨folder.toList, ?_, fun name hn => by
      rw [joinPath, if_neg hn, if_pos hd, String.toList_append]⟩
    rcases hd with hd | hd
    · exact .inl ⟨hd, hd⟩
    · exact .inr (.inl ⟨rfl, hd⟩)
  · exact ⟨folder.toList ++ ['/'], .inr (.inr rfl), fun name hn => by
      rw [joinPath, if_neg hn, if_neg hd]
      simp⟩

/-- The pieces of a plain name's path are those of the folder and the name. -/
theorem splitSlashes_joinPath (folder : String) {name : String} (h : PlainName name.toList) :
    ∃ pieces, splitSlashes (joinPath folder name).toList = pieces ++ [name.toList] ∧
      (splitSlashes folder.toList = pieces ∨ splitSlashes folder.toList = pieces ++ [[]]) := by
  obtain ⟨before, hbefore, hjoin⟩ := toList_joinPath folder
  rw [hjoin name fun hc => h.1 (List.mem_of_head? hc)]
  rcases hbefore with ⟨rfl, hf⟩ | ⟨rfl, hd⟩ | rfl
  · exact ⟨[], by simp [splitSlashes_eq_singleton h.1], .inr (by simp [hf, splitSlashes])⟩
  · obtain ⟨ds, hds⟩ := List.getLast?_eq_some_iff.mp hd
    refine ⟨splitSlashes ds, ?_, .inr ?_⟩
    · rw [hds, List.append_assoc, List.singleton_append, splitSlashes_append_slash,
        splitSlashes_eq_singleton h.1]
    · rw [hds, splitSlashes_append_slash]
      rfl
  · refine ⟨splitSlashes folder.toList, ?_, .inl rfl⟩
    rw [List.append_assoc, List.singleton_append, splitSlashes_append_slash,
      splitSlashes_eq_singleton h.1]

/-- A path that ends in no slash and no dot ends in its name. -/
theorem dropTrailing_cons {c : Char} (hs : c ≠ '/') (hd : c ≠ '.') (cs : List Char) :
    dropTrailing (c :: cs) = c :: cs := by
  unfold dropTrailing
  split <;> simp_all

/-- The temporary file of a file with an extension stands beside it and has the extension
`tmp`. -/
theorem temporaryPath_joinPath (folder : String) {stem extension : List Char}
    (hs : '/' ∉ stem) (hn : stem ≠ []) (hdot : stem ≠ ['.'])
    (he : extension ≠ []) (hes : '/' ∉ extension) (hed : '.' ∉ extension) :
    temporaryPath (joinPath folder (String.ofList (stem ++ '.' :: extension))) =
      joinPath folder (String.ofList (stem ++ ".tmp".toList)) := by
  obtain ⟨before, hbefore, hjoin⟩ := toList_joinPath folder
  have hhead (cs : List Char) : (String.ofList (stem ++ cs)).toList.head? ≠ some '/' := by
    obtain ⟨c, rest, rfl⟩ := List.exists_cons_of_ne_nil hn
    simp only [List.mem_cons, not_or] at hs
    simpa using Ne.symm hs.1
  have hend : before.reverse.takeWhile (· ≠ '/') = [] := by
    rcases hbefore with ⟨rfl, -⟩ | ⟨-, hd⟩ | rfl
    · rfl
    · obtain ⟨ds, rfl⟩ := List.getLast?_eq_some_iff.mp hd
      simp
    · simp
  have hstem : ∀ a ∈ stem.reverse, (a ≠ '/') := fun a ha h => hs (h ▸ List.mem_reverse.mp ha)
  have hslash : ∀ a ∈ extension.reverse, a ≠ '/' :=
    fun a ha h => hes (h ▸ List.mem_reverse.mp ha)
  have hpoint : ∀ a ∈ extension.reverse, a ≠ '.' :=
    fun a ha h => hed (h ▸ List.mem_reverse.mp ha)
  have hwhole : (joinPath folder (String.ofList (stem ++ '.' :: extension))).toList.reverse =
      extension.reverse ++ '.' :: (stem.reverse ++ before.reverse) := by
    rw [hjoin _ (hhead _)]
    simp
  have hdrop : dropTrailing (extension.reverse ++ '.' :: (stem.reverse ++ before.reverse)) =
      extension.reverse ++ '.' :: (stem.reverse ++ before.reverse) := by
    obtain ⟨c, rest, hc⟩ := List.exists_cons_of_ne_nil (List.reverse_ne_nil_iff.mpr he)
    have hmem : c ∈ extension.reverse := hc ▸ List.mem_cons_self
    rw [hc]
    exact dropTrailing_cons (hslash c hmem) (hpoint c hmem) _
  have hname : (extension.reverse ++ '.' :: (stem.reverse ++ before.reverse)).takeWhile (· ≠ '/') =
      extension.reverse ++ '.' :: stem.reverse := by
    rw [List.takeWhile_append_of_pos (by simpa using hslash), List.takeWhile_cons_of_pos rfl,
      List.takeWhile_append_of_pos (by simpa using hstem), hend, List.append_nil]
  have hext : (extension.reverse ++ '.' :: stem.reverse).takeWhile (· ≠ '.') =
      extension.reverse := by
    rw [List.takeWhile_append_of_pos (by simpa using hpoint), List.takeWhile_cons_of_neg (by simp),
      List.append_nil]
  have hnone : ¬ (extension.reverse ++ '.' :: stem.reverse = [] ∨
      extension.reverse ++ '.' :: stem.reverse = ['.'] ∨
      extension.reverse ++ '.' :: stem.reverse = ['.', '.']) := by
    obtain ⟨c, rest, hc⟩ := List.exists_cons_of_ne_nil (List.reverse_ne_nil_iff.mpr he)
    have : c ≠ '.' := hpoint c (hc ▸ List.mem_cons_self)
    simp [hc, this]
  have hstem' : ((extension.reverse ++ '.' :: stem.reverse).drop extension.reverse.length).drop 1 =
      stem.reverse := by
    rw [List.drop_left]
    rfl
  have hone : stem.reverse ≠ ['.'] := fun h => hdot (by simpa using congrArg List.reverse h)
  have hrest : (extension.reverse ++ '.' :: (stem.reverse ++ before.reverse)).drop
      (extension.reverse ++ '.' :: stem.reverse).length = before.reverse := by
    rw [← List.cons_append, ← List.append_assoc, List.drop_left]
  unfold temporaryPath
  simp only [hwhole, hdrop, hname, hext, hstem', hrest, if_neg hnone, hone, false_and, if_false,
    List.reverse_eq_nil_iff, hn]
  rw [← String.toList_inj, hjoin _ (hhead _)]
  simp

end AmmRollup
