import AmmRollup.Json.Parser
import Mathlib.Tactic.IntervalCases

/-!
# AmmRollup.Proofs.Json.RoundTrip

Written values read back.  A value is written as the text of its tokens, so the round
trip has two halves: the scanner finds the tokens in the text, whatever the layout, and
the reader builds the value from the tokens.

A number ends where something else begins, so the scanner has read a value only when
what follows cannot be part of a number.  Nothing else of the text that follows matters,
and nothing of what was read before.

The main statement is `parse?_render`.
-/

namespace AmmRollup.Json

/-! ## Values that are written in full

Not every value can be written and read again: a number that is no natural number loses its
value, and a text that cannot be decoded is lost.  The plain ones are those that can.
-/

mutual

/-- Whether every number of a value carries its value, and every name and text can be read. -/
def Plain : Json → Prop
  | .null | .bool _ | .number _ => True
  | .otherNumber => False
  | .string text => text.isSome
  | .array items => PlainItems items
  | .object fields => PlainFields fields

/-- Whether the items of an array are plain. -/
def PlainItems : List Json → Prop
  | [] => True
  | item :: items => Plain item ∧ PlainItems items

/-- Whether the fields of an object are plain. -/
def PlainFields : List (Option String × Json) → Prop
  | [] => True
  | (name, value) :: fields => name.isSome ∧ Plain value ∧ PlainFields fields

end

mutual

/-- The tokens of a value. -/
def tokens : Json → List Token
  | .null => [.null]
  | .bool b => [.bool b]
  | .number n => [.number n]
  | .otherNumber => [.otherNumber]
  | .string text => [.string text]
  | .array [] => [.openArray, .closeArray]
  | .array (item :: items) => .openArray :: (tokens item ++ itemTokens items ++ [.closeArray])
  | .object [] => [.openObject, .closeObject]
  | .object ((name, value) :: fields) =>
      .openObject :: .string name :: .colon ::
        (tokens value ++ fieldTokens fields ++ [.closeObject])

/-- The tokens of the items after the first. -/
def itemTokens : List Json → List Token
  | [] => []
  | item :: items => .comma :: (tokens item ++ itemTokens items)

/-- The tokens of the fields after the first. -/
def fieldTokens : List (Option String × Json) → List Token
  | [] => []
  | (name, value) :: fields =>
      .comma :: .string name :: .colon :: (tokens value ++ fieldTokens fields)

end

/-! ## Scanning on

The scanner is a state machine over bytes.  A text that is followed by more is scanned by going
on from the state that it leads to.
-/

namespace Scanner

/-- The tokens of a whole text, for a scanner that has only this much of it left. -/
def scan (rest : Bytes) (s : Scanner) : Option (List Token) :=
  (rest.foldlM step s).bind finish

theorem scan_cons (b : UInt8) (rest : Bytes) (s : Scanner) :
    scan (b :: rest) s = (s.step b).bind (scan rest) := by
  rw [scan, List.foldlM_cons]
  cases s.step b <;> rfl

/-- A text that is read leaves the rest to the scanner that it leads to. -/
theorem scan_append {text : Bytes} {s t : Scanner} (h : text.foldlM step s = some t)
    (rest : Bytes) : scan (text ++ rest) s = scan rest t := by
  rw [scan, List.foldlM_append, h]
  rfl

/-- Whether a number can end before a text. -/
def Delimited : Bytes → Prop
  | [] => True
  | b :: _ => b ∈ ([0x0a, 0x2c, 0x5d, 0x7d] : Bytes)

variable {rest : Bytes} {done : List Token}

/-! ## Numbers

A number has no end of its own: it ends at the first byte that cannot belong to it, so what
follows must be one.
-/

/-- The mode after the digits of a number. -/
def wholeMode (n : Nat) : Mode :=
  if n = 0 then .zero false else .digits false n

/-- A digit is written as a byte. -/
private theorem ofNat_digitChar {d : Nat} (hd : d < 10) :
    UInt8.ofNat d.digitChar.toNat = UInt8.ofNat (48 + d) := by
  rw [Nat.toNat_digitChar_of_lt_ten hd]

/-- The digits of a number lead to its mode. -/
theorem foldlM_decimal (n : Nat) :
    (decimal n).foldlM step ⟨.between, done⟩ = some ⟨wholeMode n, done⟩ := by
  induction n using Nat.strongRecOn with
  | ind n ih =>
    rcases Nat.lt_or_ge n 10 with hn | hn
    · rw [decimal, Nat.toDigits_of_lt_base hn]
      interval_cases n <;> rfl
    -- the last digit is read after all before it
    · have hd : n % 10 < 10 := Nat.mod_lt _ (by decide)
      have hpos : n / 10 ≠ 0 := by omega
      have hsplit : decimal n = decimal (n / 10) ++ [UInt8.ofNat (48 + n % 10)] := by
        rw [decimal, Nat.toDigits_of_base_le (by decide) hn, List.map_append, List.map_singleton,
          ofNat_digitChar hd]
        rfl
      have hstep : step ⟨.digits false (n / 10), done⟩ (UInt8.ofNat (48 + n % 10)) =
          some ⟨.digits false (10 * (n / 10) + n % 10), done⟩ := by
        generalize n % 10 = d at hd
        interval_cases d <;> rfl
      rw [hsplit, List.foldlM_append, ih _ (by omega), wholeMode, if_neg hpos]
      rw [Nat.div_add_mod] at hstep
      rw [wholeMode, if_neg (by omega)]
      simpa using hstep

/-- A number is read when it ends. -/
theorem scan_decimal (n : Nat) (hrest : Delimited rest) :
    scan (decimal n ++ rest) ⟨.between, done⟩ = scan rest ⟨.between, .number n :: done⟩ := by
  rw [scan_append (foldlM_decimal n)]
  -- a number ends where no digit can follow
  cases rest with
  | nil =>
    unfold wholeMode
    split
    · next h => subst h; rfl
    · rfl
  | cons b rest =>
    rw [scan_cons, scan_cons]
    congr 1
    simp only [Delimited, List.mem_cons, List.not_mem_nil, or_false] at hrest
    unfold wholeMode
    split
    · next h => subst h; rcases hrest with rfl | rfl | rfl | rfl <;> rfl
    · rcases hrest with rfl | rfl | rfl | rfl <;> rfl

/-! ## Texts

Characters are escaped one at a time, and each escape is read as the piece that it was written
for.
-/

/-- The piece that a byte of a text is written as. -/
def pieceOf (b : UInt8) : Piece :=
  if b < 0x20 ∧ b ∉ ([0x08, 0x09, 0x0a, 0x0c, 0x0d] : Bytes) then .unit b.toNat else .byte b

/-- The hexadecimal digits of a text spell their values. -/
theorem hexValue?_written :
    ∀ n < 16,
      Bytes.hexValue? (Char.ofNat (UInt8.ofNat (Bytes.hexDigit n).toNat).toNat) = some n := by
  decide

/-- A byte is read as its piece. -/
theorem foldlM_escape (b : UInt8) (pieces : List Piece) :
    (escape b).foldlM step ⟨.text pieces, done⟩ = some ⟨.text (pieceOf b :: pieces), done⟩ := by
  unfold escape
  split; · next h => subst h; rfl
  split; · next h => subst h; rfl
  split; · next h => subst h; rfl
  split; · next h => subst h; rfl
  split; · next h => subst h; rfl
  split; · next h => subst h; rfl
  split; · next h => subst h; rfl
  split
  -- a control character is written as four digits, of which only the last two are not zero
  · next hcontrol =>
    have hb : b.toNat < 32 := UInt8.lt_iff_toNat_lt.mp hcontrol
    have hpiece : pieceOf b = .unit b.toNat := by simp_all [pieceOf]
    have hzeros : ([0x5c, 0x75, 0x30, 0x30] : Bytes).foldlM step ⟨.text pieces, done⟩ =
        some ⟨.unit pieces 2 0, done⟩ := rfl
    have hhigh : step ⟨.unit pieces 2 0, done⟩ (UInt8.ofNat (Bytes.hexDigit (b.toNat / 16)).toNat) =
        some ⟨.unit pieces 1 (b.toNat / 16), done⟩ := by
      rw [step, hexValue?_written _ (by omega)]
      simp [enter]
    have hlow : step ⟨.unit pieces 1 (b.toNat / 16), done⟩
        (UInt8.ofNat (Bytes.hexDigit (b.toNat % 16)).toNat) =
          some ⟨.text (.unit b.toNat :: pieces), done⟩ := by
      rw [step, hexValue?_written _ (by omega)]
      simp [enter, Nat.div_add_mod]
    rw [List.foldlM_append, hzeros, hpiece]
    show (step _ _ >>= fun s => step s _ >>= pure) = _
    rw [hhigh, Option.bind_eq_bind, Option.bind_some, hlow]
    rfl
  · next hquote hslash _ _ _ _ _ hcontrol =>
    have hpiece : pieceOf b = .byte b := by simp [pieceOf, hcontrol]
    simp [step, hquote, hslash, hcontrol, hpiece, enter]

/-- The bytes of a text are read as their pieces. -/
theorem foldlM_escapes (bs : Bytes) (pieces : List Piece) :
    (bs.flatMap escape).foldlM step ⟨.text pieces, done⟩ =
      some ⟨.text ((bs.map pieceOf).reverse ++ pieces), done⟩ := by
  induction bs generalizing pieces with
  | nil => rfl
  | cons b bs ih =>
    rw [List.flatMap_cons, List.foldlM_append, foldlM_escape]
    simpa using ih (pieceOf b :: pieces)

/-- A unit below the surrogates is a character by itself. -/
theorem bytes?_unit_cons {code : Nat} (hcode : code < 0xd800) (pieces : List Piece) :
    Piece.bytes? (.unit code :: pieces) =
      (Piece.bytes? pieces).map (String.utf8EncodeChar (Char.ofNat code) ++ ·) := by
  have hhigh : ¬ 0xd800 ≤ code := by omega
  have hlow : ¬ 0xdc00 ≤ code := by omega
  match pieces with
  | [] => simp [Piece.bytes?, hhigh]
  | .byte b :: rest => simp [Piece.bytes?, hhigh]
  | .unit low :: rest => rw [Piece.bytes?, if_neg (by simp [hhigh]), if_neg (by simp [hlow])]

/-- The first characters are written in one byte. -/
theorem utf8EncodeChar_control :
    ∀ n < 32, String.utf8EncodeChar (Char.ofNat n) = [UInt8.ofNat n] := by
  decide

/-- The pieces of a text spell its bytes. -/
theorem bytes?_pieces (bs : Bytes) : Piece.bytes? (bs.map pieceOf) = some bs := by
  induction bs with
  | nil => rfl
  | cons b bs ih =>
    rw [List.map_cons]
    by_cases hb : b < 0x20 ∧ b ∉ ([0x08, 0x09, 0x0a, 0x0c, 0x0d] : Bytes)
    · have hcontrol : b.toNat < 32 := UInt8.lt_iff_toNat_lt.mp hb.1
      rw [pieceOf, if_pos hb, bytes?_unit_cons (by omega), ih, utf8EncodeChar_control _ hcontrol]
      simp
    · rw [pieceOf, if_neg hb, Piece.bytes?, ih]
      rfl

/-- A text between quotes is read. -/
theorem scan_quoted (s : String) :
    scan (quoted s ++ rest) ⟨.between, done⟩ =
      scan rest ⟨.between, .string (some s) :: done⟩ := by
  apply scan_append
  have hopen : step ⟨.between, done⟩ 0x22 = some ⟨.text [], done⟩ := rfl
  have htext : Piece.text? ((Bytes.ofText s).map pieceOf) = some s := by
    rw [Piece.text?, bytes?_pieces, Option.bind_some, Bytes.toText?_ofText]
  rw [quoted, List.foldlM_cons, hopen, Option.bind_eq_bind, Option.bind_some, List.foldlM_append,
    foldlM_escapes]
  simp [step, emit, htext]

/-- A name or a text is read. -/
theorem scan_renderText {text : Option String} (htext : text.isSome) :
    scan (renderText text ++ rest) ⟨.between, done⟩ =
      scan rest ⟨.between, .string text :: done⟩ := by
  obtain ⟨s, rfl⟩ := Option.isSome_iff_exists.mp htext
  exact scan_quoted s

/-! ## Values

Layout is blanks only, and the scanner passes over blanks.  The tokens are those of the value,
whatever the layout.
-/

/-- Blanks between lines are passed over. -/
theorem scan_newline (layout : Layout) :
    scan (layout.newline ++ rest) ⟨.between, done⟩ = scan rest ⟨.between, done⟩ := by
  cases layout with
  | compact => rfl
  | indented level =>
    apply scan_append
    rw [Layout.newline, List.foldlM_cons]
    have hblanks (n : Nat) : (List.replicate n 0x20).foldlM step ⟨.between, done⟩ =
        some ⟨.between, done⟩ := by
      induction n with
      | zero => rfl
      | succ n ih => rw [List.replicate_succ, List.foldlM_cons]; exact ih
    exact hblanks _

/-- What separates a name from its value is a colon. -/
theorem scan_colon (layout : Layout) :
    scan (layout.colon ++ rest) ⟨.between, done⟩ = scan rest ⟨.between, .colon :: done⟩ := by
  cases layout <;> rfl

/-- A comma is read. -/
theorem scan_comma (text : Bytes) :
    scan (0x2c :: text) ⟨.between, done⟩ = scan text ⟨.between, .comma :: done⟩ := rfl

theorem delimited_newline (layout : Layout) (h : Delimited rest) :
    Delimited (layout.newline ++ rest) := by
  cases layout with
  | compact => exact h
  | indented level => simp [Layout.newline, Delimited]

theorem delimited_renderItems (layout : Layout) (items : List Json) (h : Delimited rest) :
    Delimited (renderItems layout items ++ rest) := by
  cases items with
  | nil => exact h
  | cons item items => simp [renderItems, Delimited]

theorem delimited_renderFields (layout : Layout) (fields : List (Option String × Json))
    (h : Delimited rest) : Delimited (renderFields layout fields ++ rest) := by
  cases fields with
  | nil => exact h
  | cons field fields => simp [renderFields, Delimited]

mutual

/-- The tokens of a value are read from its text, whatever its layout. -/
theorem scan_render (layout : Layout) (done : List Token) (rest : Bytes) (hrest : Delimited rest) :
    ∀ j : Json, Plain j →
      scan (render layout j ++ rest) ⟨.between, done⟩ =
        scan rest ⟨.between, j.tokens.reverse ++ done⟩
  | .null, _ => rfl
  | .bool true, _ => rfl
  | .bool false, _ => rfl
  | .number n, _ => scan_decimal n hrest
  | .string text, h => scan_renderText h
  | .array [], _ => rfl
  | .array (item :: items), h => by
    have hend : Delimited (layout.newline ++ 0x5d :: rest) :=
      delimited_newline layout (by simp [Delimited])
    have hopen (text : Bytes) :
        scan (0x5b :: text) ⟨.between, done⟩ = scan text ⟨.between, .openArray :: done⟩ := rfl
    have hclose (done : List Token) :
        scan (0x5d :: rest) ⟨.between, done⟩ = scan rest ⟨.between, .closeArray :: done⟩ := rfl
    simp only [render, Json.tokens, List.cons_append, List.append_assoc, List.nil_append]
    rw [hopen, scan_newline,
      scan_render _ _ _ (delimited_renderItems _ _ hend) item h.1,
      scan_renderItems _ _ _ hend items h.2, scan_newline, hclose]
    simp
  | .object [], _ => rfl
  | .object ((name, value) :: fields), h => by
    have hend : Delimited (layout.newline ++ 0x7d :: rest) :=
      delimited_newline layout (by simp [Delimited])
    have hopen (text : Bytes) :
        scan (0x7b :: text) ⟨.between, done⟩ = scan text ⟨.between, .openObject :: done⟩ := rfl
    have hclose (done : List Token) :
        scan (0x7d :: rest) ⟨.between, done⟩ = scan rest ⟨.between, .closeObject :: done⟩ := rfl
    simp only [render, Json.tokens, List.cons_append, List.append_assoc, List.nil_append]
    rw [hopen, scan_newline, scan_renderText h.1, scan_colon,
      scan_render _ _ _ (delimited_renderFields _ _ hend) value h.2.1,
      scan_renderFields _ _ _ hend fields h.2.2, scan_newline, hclose]
    simp

/-- The tokens of the items after the first are read from their text. -/
theorem scan_renderItems (layout : Layout) (done : List Token) (rest : Bytes)
    (hrest : Delimited rest) :
    ∀ items : List Json, PlainItems items →
      scan (renderItems layout items ++ rest) ⟨.between, done⟩ =
        scan rest ⟨.between, (itemTokens items).reverse ++ done⟩
  | [], _ => rfl
  | item :: items, h => by
    simp only [renderItems, itemTokens, List.cons_append, List.append_assoc]
    rw [scan_comma, scan_newline,
      scan_render _ _ _ (delimited_renderItems _ _ hrest) item h.1,
      scan_renderItems _ _ _ hrest items h.2]
    simp

/-- The tokens of the fields after the first are read from their text. -/
theorem scan_renderFields (layout : Layout) (done : List Token) (rest : Bytes)
    (hrest : Delimited rest) :
    ∀ fields : List (Option String × Json), PlainFields fields →
      scan (renderFields layout fields ++ rest) ⟨.between, done⟩ =
        scan rest ⟨.between, (fieldTokens fields).reverse ++ done⟩
  | [], _ => rfl
  | (name, value) :: fields, h => by
    simp only [renderFields, fieldTokens, List.cons_append, List.append_assoc]
    rw [scan_comma, scan_newline, scan_renderText h.1, scan_colon,
      scan_render _ _ _ (delimited_renderFields _ _ hrest) value h.2.1,
      scan_renderFields _ _ _ hrest fields h.2.2]
    simp

end

end Scanner

/-- The text of a value has the value's tokens. -/
theorem tokens?_render (layout : Layout) {j : Json} (h : Plain j) :
    tokens? (render layout j) = some j.tokens := by
  have := Scanner.scan_render layout [] [] trivial j h
  rw [List.append_nil] at this
  exact this.trans (by simp [Scanner.scan, Scanner.finish])

/-! ## Reading the tokens

Arrays and objects are kept on a stack while their items are read, so a value is read the same
way at any depth.
-/

namespace Reader

/-- The end of an array completes it. -/
theorem close_array (stack : List Container) (items : List Json) :
    step ⟨.array items :: stack, .separator⟩ .closeArray =
      some (complete (.array items.reverse) stack) := rfl

/-- The end of an object completes it. -/
theorem close_object (stack : List Container) (fields : List (Option String × Json))
    (name : Option String) :
    step ⟨.object fields name :: stack, .separator⟩ .closeObject =
      some (complete (.object fields.reverse) stack) := rfl

mutual

/-- A value is read from its tokens, also as the first item of an array. -/
theorem foldlM_tokens (stack : List Container) :
    ∀ j : Json, j.tokens.foldlM step ⟨stack, .value⟩ = some (complete j stack) ∧
      j.tokens.foldlM step ⟨stack, .firstItem⟩ = some (complete j stack)
  | .null | .bool _ | .number _ | .otherNumber | .string _ => ⟨rfl, rfl⟩
  | .array [] | .object [] => ⟨rfl, rfl⟩
  -- items) :: the first item decides nothing, so both states read the list alike
  | .array (item :: items) => by
    have hbody : (item.tokens ++ itemTokens items ++ [Token.closeArray]).foldlM step
        ⟨.array [] :: stack, .firstItem⟩ = some (complete (.array (item :: items)) stack) := by
      have hfirst : complete item (.array [] :: stack) =
          ⟨.array [item] :: stack, .separator⟩ := rfl
      rw [List.foldlM_append, List.foldlM_append, (foldlM_tokens _ item).2, Option.bind_eq_bind,
        Option.bind_some, hfirst, foldlM_itemTokens, Option.bind_some]
      simpa using close_array stack (items.reverse ++ [item])
    exact ⟨hbody, hbody⟩
  | .object ((name, value) :: fields) => by
    have hbody : (value.tokens ++ fieldTokens fields ++ [Token.closeObject]).foldlM step
        ⟨.object [] name :: stack, .value⟩ =
          some (complete (.object ((name, value) :: fields)) stack) := by
      have hfirst : complete value (.object [] name :: stack) =
          ⟨.object [(name, value)] name :: stack, .separator⟩ := rfl
      obtain ⟨last, hfields⟩ := foldlM_fieldTokens stack [(name, value)] name fields
      rw [List.foldlM_append, List.foldlM_append, (foldlM_tokens _ value).1, Option.bind_eq_bind,
        Option.bind_some, hfirst, hfields, Option.bind_some]
      simpa using close_object stack (fields.reverse ++ [(name, value)]) last
    exact ⟨hbody, hbody⟩

/-- The items after the first are read onto those before them. -/
theorem foldlM_itemTokens (stack : List Container) (done : List Json) :
    ∀ items : List Json, (itemTokens items).foldlM step ⟨.array done :: stack, .separator⟩ =
      some ⟨.array (items.reverse ++ done) :: stack, .separator⟩
  | [] => rfl
  | item :: items => by
    have hcomma : step ⟨.array done :: stack, .separator⟩ .comma =
        some ⟨.array done :: stack, .value⟩ := rfl
    rw [itemTokens, List.foldlM_cons, hcomma, Option.bind_eq_bind, Option.bind_some,
      List.foldlM_append, (foldlM_tokens _ item).1]
    simpa [complete] using foldlM_itemTokens stack (item :: done) items

/-- The fields after the first are read onto those before them. -/
theorem foldlM_fieldTokens (stack : List Container) (done : List (Option String × Json))
    (name : Option String) :
    ∀ fields : List (Option String × Json), ∃ last,
      (fieldTokens fields).foldlM step ⟨.object done name :: stack, .separator⟩ =
        some ⟨.object (fields.reverse ++ done) last :: stack, .separator⟩
  | [] => ⟨name, rfl⟩
  | (next, value) :: fields => by
    -- the name that is pending is that of the field read last
    have hcomma : ([.comma, .string next, .colon] : List Token).foldlM step
        ⟨.object done name :: stack, .separator⟩ = some ⟨.object done next :: stack, .value⟩ := rfl
    obtain ⟨last, hfields⟩ := foldlM_fieldTokens stack ((next, value) :: done) next fields
    have hsplit : fieldTokens ((next, value) :: fields) =
        [.comma, .string next, .colon] ++ (value.tokens ++ fieldTokens fields) := rfl
    refine ⟨last, ?_⟩
    rw [hsplit, List.foldlM_append, hcomma, Option.bind_eq_bind, Option.bind_some,
      List.foldlM_append, (foldlM_tokens _ value).1]
    simpa [complete] using hfields

end

end Reader

/-- A value is read from its tokens. -/
theorem ofTokens?_tokens (j : Json) : ofTokens? j.tokens = some j := by
  rw [ofTokens?, Reader.initial, (Reader.foldlM_tokens [] j).1]
  rfl

/-- A value whose parts are all written reads back from its text. -/
theorem parse?_render (layout : Layout) {j : Json} (h : Plain j) :
    parse? (render layout j) = some j := by
  rw [parse?, tokens?_render layout h, Option.bind_some, ofTokens?_tokens]

end AmmRollup.Json
