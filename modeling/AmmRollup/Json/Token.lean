import AmmRollup.Json.Value

/-!
# AmmRollup.Json.Token

The tokens of a JSON text.  A scanner reads the text byte by byte: between tokens it
passes over blanks, and inside a word, a text or a number its mode says what may
follow.  Nothing is ever looked at twice, so scanning is one fold over the bytes.
-/

namespace AmmRollup.Json

/-- A token. -/
inductive Token where
  | openArray
  | closeArray
  | openObject
  | closeObject
  | comma
  | colon
  | null
  | bool (b : Bool)
  | number (n : Nat)
  | otherNumber
  | string (text : Option String)
deriving DecidableEq

/-! ## Texts -/

/-- A piece of a text between quotes: a byte, or a 16-bit unit written in hexadecimal. -/
inductive Piece where
  | byte (b : UInt8)
  | unit (code : Nat)
deriving DecidableEq

/-- The bytes of the pieces of a text.  A unit from `D800` to `DBFF` must stand right before
one from `DC00` to `DFFF`, and the two are one character. -/
def Piece.bytes? : List Piece → Option Bytes
  | [] => some []
  | .byte b :: rest => (bytes? rest).map (b :: ·)
  | .unit high :: .unit low :: rest =>
      if 0xd800 ≤ high ∧ high ≤ 0xdbff then
        if 0xdc00 ≤ low ∧ low ≤ 0xdfff then
          (bytes? rest).map
            (String.utf8EncodeChar
              (Char.ofNat (0x10000 + 0x400 * (high - 0xd800) + (low - 0xdc00))) ++ ·)
        else none
      else if 0xdc00 ≤ high ∧ high ≤ 0xdfff then none
      else (bytes? (.unit low :: rest)).map (String.utf8EncodeChar (Char.ofNat high) ++ ·)
  | .unit code :: rest =>
      if 0xd800 ≤ code ∧ code ≤ 0xdfff then none
      else (bytes? rest).map (String.utf8EncodeChar (Char.ofNat code) ++ ·)

/-- The text of its pieces, if they spell one. -/
def Piece.text? (pieces : List Piece) : Option String :=
  (bytes? pieces).bind Bytes.toText?

/-! ## Scanner -/

/-- What the scanner is inside of. -/
inductive Mode where
  /-- Between tokens. -/
  | between
  /-- In a word of which these bytes are still to come. -/
  | word (left : Bytes) (token : Token)
  /-- In a text, with its pieces so far, latest first. -/
  | text (pieces : List Piece)
  /-- After a backslash in a text. -/
  | escape (pieces : List Piece)
  /-- In a 16-bit unit of which `left` hexadecimal digits are still to come. -/
  | unit (pieces : List Piece) (left code : Nat)
  /-- After a minus sign. -/
  | minus
  /-- After a leading zero. -/
  | zero (negative : Bool)
  /-- In the digits of a whole number. -/
  | digits (negative : Bool) (n : Nat)
  /-- After a decimal point. -/
  | point
  /-- In the digits of a fraction. -/
  | fraction
  /-- After the letter of an exponent. -/
  | exponent
  /-- After the sign of an exponent. -/
  | exponentSign
  /-- In the digits of an exponent. -/
  | exponentDigits

/-- The number that may end here. -/
def Mode.number? : Mode → Option Token
  | .zero false => some (.number 0)
  | .digits false n => some (.number n)
  | .zero true | .digits true _ | .fraction | .exponentDigits => some .otherNumber
  | _ => none

/-- A scanner: its mode, and the tokens so far, latest first. -/
structure Scanner where
  mode : Mode
  tokens : List Token

namespace Scanner

/-- The scanner at the start of a text. -/
def initial : Scanner := ⟨.between, []⟩

/-- Ends a token. -/
def emit (s : Scanner) (t : Token) : Scanner := ⟨.between, t :: s.tokens⟩

/-- Goes on in another mode. -/
def enter (s : Scanner) (m : Mode) : Scanner := { s with mode := m }

/-- Whether a byte is a decimal digit. -/
def isDigit (b : UInt8) : Bool := 0x30 ≤ b && b ≤ 0x39

/-- The value of a decimal digit. -/
def digit (b : UInt8) : Nat := b.toNat - 0x30

/-- Reads a byte between tokens. -/
def start (s : Scanner) (b : UInt8) : Option Scanner :=
  if b = 0x20 ∨ b = 0x09 ∨ b = 0x0a ∨ b = 0x0d then some (s.enter .between)
  else if b = 0x5b then some (s.emit .openArray)
  else if b = 0x5d then some (s.emit .closeArray)
  else if b = 0x7b then some (s.emit .openObject)
  else if b = 0x7d then some (s.emit .closeObject)
  else if b = 0x2c then some (s.emit .comma)
  else if b = 0x3a then some (s.emit .colon)
  else if b = 0x22 then some (s.enter (.text []))
  else if b = 0x2d then some (s.enter .minus)
  else if b = 0x30 then some (s.enter (.zero false))
  else if isDigit b then some (s.enter (.digits false (digit b)))
  else if b = 0x6e then some (s.enter (.word [0x75, 0x6c, 0x6c] .null))
  else if b = 0x74 then some (s.enter (.word [0x72, 0x75, 0x65] (.bool true)))
  else if b = 0x66 then some (s.enter (.word [0x61, 0x6c, 0x73, 0x65] (.bool false)))
  else none

/-- The byte that a letter after a backslash stands for. -/
def unescape? (b : UInt8) : Option UInt8 :=
  if b = 0x22 ∨ b = 0x5c ∨ b = 0x2f then some b
  else if b = 0x62 then some 0x08
  else if b = 0x66 then some 0x0c
  else if b = 0x6e then some 0x0a
  else if b = 0x72 then some 0x0d
  else if b = 0x74 then some 0x09
  else none

/-- Ends a number and reads the byte after it. -/
def endNumber (s : Scanner) (b : UInt8) : Option Scanner :=
  match s.mode.number? with
  | none => none
  | some t => (s.emit t).start b

/-- Reads what may follow the digits before a decimal point. -/
def afterWhole (s : Scanner) (b : UInt8) : Option Scanner :=
  if b = 0x2e then some (s.enter .point)
  else if b = 0x65 ∨ b = 0x45 then some (s.enter .exponent)
  else s.endNumber b

/-- Reads one byte. -/
def step (s : Scanner) (b : UInt8) : Option Scanner :=
  match s.mode with
  | .between => s.start b
  | .word [] _ => none
  | .word [c] t => if b = c then some (s.emit t) else none
  | .word (c :: left) t => if b = c then some (s.enter (.word left t)) else none
  | .text pieces =>
      if b = 0x22 then some (s.emit (.string (Piece.text? pieces.reverse)))
      else if b = 0x5c then some (s.enter (.escape pieces))
      else if b < 0x20 then none
      else some (s.enter (.text (.byte b :: pieces)))
  | .escape pieces =>
      if b = 0x75 then some (s.enter (.unit pieces 4 0))
      else (unescape? b).map fun c => s.enter (.text (.byte c :: pieces))
  | .unit pieces left code =>
      match Bytes.hexValue? (Char.ofNat b.toNat) with
      | none => none
      | some d =>
          if left ≤ 1 then some (s.enter (.text (.unit (16 * code + d) :: pieces)))
          else some (s.enter (.unit pieces (left - 1) (16 * code + d)))
  | .minus =>
      if b = 0x30 then some (s.enter (.zero true))
      else if isDigit b then some (s.enter (.digits true (digit b)))
      else none
  | .zero _ => if isDigit b then none else s.afterWhole b
  | .digits negative n =>
      if isDigit b then some (s.enter (.digits negative (10 * n + digit b))) else s.afterWhole b
  | .point => if isDigit b then some (s.enter .fraction) else none
  | .fraction =>
      if isDigit b then some (s.enter .fraction)
      else if b = 0x65 ∨ b = 0x45 then some (s.enter .exponent)
      else s.endNumber b
  | .exponent =>
      if b = 0x2b ∨ b = 0x2d then some (s.enter .exponentSign)
      else if isDigit b then some (s.enter .exponentDigits)
      else none
  | .exponentSign => if isDigit b then some (s.enter .exponentDigits) else none
  | .exponentDigits => if isDigit b then some (s.enter .exponentDigits) else s.endNumber b

/-- The tokens at the end of a text. -/
def finish (s : Scanner) : Option (List Token) :=
  match s.mode with
  | .between => some s.tokens.reverse
  | m => m.number?.map fun t => (t :: s.tokens).reverse

end Scanner

/-- The tokens of a text. -/
def tokens? (text : Bytes) : Option (List Token) :=
  (text.foldlM Scanner.step Scanner.initial).bind Scanner.finish

end AmmRollup.Json
