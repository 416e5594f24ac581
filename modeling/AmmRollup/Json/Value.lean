import AmmRollup.Bytes

/-!
# AmmRollup.Json.Value

JSON values, as far as the forms of this library look into them, and their written
form.  Only whole numbers that are not negative carry their value, and a text that
spells no Unicode characters is kept as `none`: both are only ever passed over.
Objects keep the order of their fields and any field that is written twice.
-/

namespace AmmRollup

/-- A JSON value. -/
inductive Json where
  | null
  | bool (b : Bool)
  /-- A whole number without sign, fraction or exponent. -/
  | number (n : Nat)
  /-- Any other number. -/
  | otherNumber
  | string (text : Option String)
  | array (items : List Json)
  | object (fields : List (Option String × Json))

namespace Json

/-- The value of a readable text. -/
def text (s : String) : Json := .string (some s)

/-- The value of a list of named fields. -/
def record (fields : List (String × Json)) : Json :=
  .object (fields.map fun f => (some f.1, f.2))

/-! ## Written texts -/

/-- How a byte of a text is written between quotes. -/
def escape (b : UInt8) : Bytes :=
  if b = 0x22 then [0x5c, 0x22]
  else if b = 0x5c then [0x5c, 0x5c]
  else if b = 0x08 then [0x5c, 0x62]
  else if b = 0x09 then [0x5c, 0x74]
  else if b = 0x0a then [0x5c, 0x6e]
  else if b = 0x0c then [0x5c, 0x66]
  else if b = 0x0d then [0x5c, 0x72]
  else if b < 0x20 then
    [0x5c, 0x75, 0x30, 0x30] ++ (Bytes.hexChars [b]).map fun c => UInt8.ofNat c.toNat
  else [b]

/-- A text between quotes. -/
def quoted (s : String) : Bytes :=
  0x22 :: ((Bytes.ofText s).flatMap escape ++ [0x22])

/-- The decimal digits of a number. -/
def decimal (n : Nat) : Bytes :=
  (Nat.toDigits 10 n).map fun c => UInt8.ofNat c.toNat

/-! ## Written values -/

/-- Where a written value stands: on one line with everything around it, or on lines of
its own, indented by two blanks a level. -/
inductive Layout where
  | compact
  | indented (level : Nat)

/-- The layout of what stands inside. -/
def Layout.inner : Layout → Layout
  | .compact => .compact
  | .indented level => .indented (level + 1)

/-- What separates one line from the next. -/
def Layout.newline : Layout → Bytes
  | .compact => []
  | .indented level => 0x0a :: List.replicate (2 * level) 0x20

/-- What separates a field's name from its value. -/
def Layout.colon : Layout → Bytes
  | .compact => [0x3a]
  | .indented _ => [0x3a, 0x20]

mutual

/-- The bytes of a value.  Numbers and texts whose value is not kept are written as `null`. -/
def render (layout : Layout) : Json → Bytes
  | .null => [0x6e, 0x75, 0x6c, 0x6c]
  | .bool true => [0x74, 0x72, 0x75, 0x65]
  | .bool false => [0x66, 0x61, 0x6c, 0x73, 0x65]
  | .number n => decimal n
  | .otherNumber => [0x6e, 0x75, 0x6c, 0x6c]
  | .string text => renderText text
  | .array [] => [0x5b, 0x5d]
  | .array (item :: items) =>
      0x5b :: (layout.inner.newline ++ render layout.inner item ++
        renderItems layout.inner items ++ layout.newline ++ [0x5d])
  | .object [] => [0x7b, 0x7d]
  | .object ((name, value) :: fields) =>
      0x7b :: (layout.inner.newline ++ renderText name ++ layout.colon ++
        render layout.inner value ++ renderFields layout.inner fields ++ layout.newline ++ [0x7d])

/-- The bytes of the items after the first. -/
def renderItems (layout : Layout) : List Json → Bytes
  | [] => []
  | item :: items => 0x2c :: (layout.newline ++ render layout item ++ renderItems layout items)

/-- The bytes of the fields after the first. -/
def renderFields (layout : Layout) : List (Option String × Json) → Bytes
  | [] => []
  | (name, value) :: fields =>
      0x2c :: (layout.newline ++ renderText name ++ layout.colon ++ render layout value ++
        renderFields layout fields)

/-- The bytes of a text. -/
def renderText : Option String → Bytes
  | none => [0x6e, 0x75, 0x6c, 0x6c]
  | some s => quoted s

end

end Json

end AmmRollup
