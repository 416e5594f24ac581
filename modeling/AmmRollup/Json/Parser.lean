import AmmRollup.Json.Token

/-!
# AmmRollup.Json.Parser

JSON values from their tokens.  A reader takes one token at a time and keeps the
arrays and objects that are still open on a stack, so no depth is too great for it.
-/

namespace AmmRollup.Json

/-- An open array or object, with what it holds so far, latest first. -/
inductive Container where
  | array (items : List Json)
  | object (fields : List (Option String × Json)) (name : Option String)

/-- What may come next. -/
inductive Expected where
  /-- A value. -/
  | value
  /-- A value, or the end of the array that was just opened. -/
  | firstItem
  /-- A name, or the end of the object that was just opened. -/
  | firstName
  /-- A name. -/
  | name
  /-- A colon. -/
  | colon
  /-- A comma, or the end of the innermost container. -/
  | separator
  /-- Nothing: the value is complete. -/
  | nothing (result : Json)

/-- A reader: the open containers, innermost first, and what may come next. -/
structure Reader where
  stack : List Container
  expected : Expected

namespace Reader

/-- The reader before any token. -/
def initial : Reader := ⟨[], .value⟩

/-- Puts a complete value where it belongs. -/
def complete (v : Json) : List Container → Reader
  | [] => ⟨[], .nothing v⟩
  | .array items :: stack => ⟨.array (v :: items) :: stack, .separator⟩
  | .object fields name :: stack => ⟨.object ((name, v) :: fields) name :: stack, .separator⟩

/-- Reads a token where a value starts. -/
def value (stack : List Container) : Token → Option Reader
  | .null => some (complete .null stack)
  | .bool b => some (complete (.bool b) stack)
  | .number n => some (complete (.number n) stack)
  | .otherNumber => some (complete .otherNumber stack)
  | .string text => some (complete (.string text) stack)
  | .openArray => some ⟨.array [] :: stack, .firstItem⟩
  | .openObject => some ⟨.object [] none :: stack, .firstName⟩
  | _ => none

/-- Reads a token where a name starts. -/
def name (stack : List Container) : Token → Option Reader
  | .string text =>
      match stack with
      | .object fields _ :: stack => some ⟨.object fields text :: stack, .colon⟩
      | _ => none
  | _ => none

/-- Reads the end of the innermost container. -/
def close (stack : List Container) : Token → Option Reader
  | .closeArray =>
      match stack with
      | .array items :: stack => some (complete (.array items.reverse) stack)
      | _ => none
  | .closeObject =>
      match stack with
      | .object fields _ :: stack => some (complete (.object fields.reverse) stack)
      | _ => none
  | _ => none

/-- Reads one token. -/
def step (r : Reader) (t : Token) : Option Reader :=
  match r.expected with
  | .value => value r.stack t
  | .firstItem => if t = .closeArray then close r.stack t else value r.stack t
  | .firstName => if t = .closeObject then close r.stack t else name r.stack t
  | .name => name r.stack t
  | .colon => if t = .colon then some ⟨r.stack, .value⟩ else none
  | .separator =>
      if t = .comma then
        match r.stack with
        | .array _ :: _ => some ⟨r.stack, .value⟩
        | .object _ _ :: _ => some ⟨r.stack, .name⟩
        | [] => none
      else close r.stack t
  | .nothing _ => none

/-- The value at the end of the tokens. -/
def finish (r : Reader) : Option Json :=
  match r.expected with
  | .nothing v => some v
  | _ => none

end Reader

/-- The value of a list of tokens. -/
def ofTokens? (tokens : List Token) : Option Json :=
  (tokens.foldlM Reader.step Reader.initial).bind Reader.finish

/-- The value of a JSON text. -/
def parse? (text : Bytes) : Option Json :=
  (tokens? text).bind ofTokens?

end AmmRollup.Json
