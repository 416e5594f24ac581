import AmmRollup.Bytes32

/-!
# AmmRollup.Hash.Keccak

Keccak-256 with the multi-rate padding of the first submission (a padded message
continues with the byte `0x01`): a sponge of 25 words over the permutation
Keccak-f[1600], absorbing 17 words a block and giving four words of digest.

The state is five planes of five lanes.  Lane `x` of plane `y` is the word that
the standard numbers `5 * y + x`.
-/

namespace AmmRollup

namespace Keccak

/-! ## State -/

/-- Five lanes of one plane. -/
structure Plane where
  x0 : UInt64
  x1 : UInt64
  x2 : UInt64
  x3 : UInt64
  x4 : UInt64
deriving DecidableEq

/-- Five planes of five lanes. -/
structure State where
  y0 : Plane
  y1 : Plane
  y2 : Plane
  y3 : Plane
  y4 : Plane
deriving DecidableEq

/-- The plane of zero lanes. -/
def Plane.zero : Plane := ⟨0, 0, 0, 0, 0⟩

/-- The state of zero lanes. -/
def State.zero : State := ⟨.zero, .zero, .zero, .zero, .zero⟩

/-- Exclusive or, lane by lane. -/
def Plane.xor (a b : Plane) : Plane :=
  ⟨a.x0 ^^^ b.x0, a.x1 ^^^ b.x1, a.x2 ^^^ b.x2, a.x3 ^^^ b.x3, a.x4 ^^^ b.x4⟩

/-- Turns a word left by fewer than 64 places. -/
def rotl (w n : UInt64) : UInt64 :=
  (w <<< n) ||| (w >>> (64 - n))

/-! ## Permutation -/

/-- Adds to every lane the parities of two neighbouring columns. -/
def theta (s : State) : State :=
  let c := (((s.y0.xor s.y1).xor s.y2).xor s.y3).xor s.y4
  let d : Plane :=
    ⟨c.x4 ^^^ rotl c.x1 1, c.x0 ^^^ rotl c.x2 1, c.x1 ^^^ rotl c.x3 1,
      c.x2 ^^^ rotl c.x4 1, c.x3 ^^^ rotl c.x0 1⟩
  ⟨s.y0.xor d, s.y1.xor d, s.y2.xor d, s.y3.xor d, s.y4.xor d⟩

/-- Turns every lane by its own offset and moves lane `(x, y)` to `(y, 2 * x + 3 * y)`. -/
def rhoPi (s : State) : State where
  y0 := ⟨s.y0.x0, rotl s.y1.x1 44, rotl s.y2.x2 43, rotl s.y3.x3 21, rotl s.y4.x4 14⟩
  y1 := ⟨rotl s.y0.x3 28, rotl s.y1.x4 20, rotl s.y2.x0 3, rotl s.y3.x1 45, rotl s.y4.x2 61⟩
  y2 := ⟨rotl s.y0.x1 1, rotl s.y1.x2 6, rotl s.y2.x3 25, rotl s.y3.x4 8, rotl s.y4.x0 18⟩
  y3 := ⟨rotl s.y0.x4 27, rotl s.y1.x0 36, rotl s.y2.x1 10, rotl s.y3.x2 15, rotl s.y4.x3 56⟩
  y4 := ⟨rotl s.y0.x2 62, rotl s.y1.x3 55, rotl s.y2.x4 39, rotl s.y3.x0 41, rotl s.y4.x1 2⟩

/-- Mixes every lane of a plane with the two after it. -/
def Plane.chi (p : Plane) : Plane :=
  ⟨p.x0 ^^^ (~~~p.x1 &&& p.x2), p.x1 ^^^ (~~~p.x2 &&& p.x3), p.x2 ^^^ (~~~p.x3 &&& p.x4),
    p.x3 ^^^ (~~~p.x4 &&& p.x0), p.x4 ^^^ (~~~p.x0 &&& p.x1)⟩

/-- One round, with its constant added to lane `(0, 0)`. -/
def round (s : State) (constant : UInt64) : State :=
  let t := rhoPi (theta s)
  let first := t.y0.chi
  ⟨{ first with x0 := first.x0 ^^^ constant }, t.y1.chi, t.y2.chi, t.y3.chi, t.y4.chi⟩

/-- The constants of the 24 rounds. -/
def roundConstants : List UInt64 :=
  [0x0000000000000001, 0x0000000000008082, 0x800000000000808a, 0x8000000080008000,
   0x000000000000808b, 0x0000000080000001, 0x8000000080008081, 0x8000000000008009,
   0x000000000000008a, 0x0000000000000088, 0x0000000080008009, 0x000000008000000a,
   0x000000008000808b, 0x800000000000008b, 0x8000000000008089, 0x8000000000008003,
   0x8000000000008002, 0x8000000000000080, 0x000000000000800a, 0x800000008000000a,
   0x8000000080008081, 0x8000000000008080, 0x0000000080000001, 0x8000000080008008]

/-- The permutation: all 24 rounds. -/
def permute (s : State) : State :=
  roundConstants.foldl round s

/-! ## Sponge -/

/-- The bytes of one block. -/
def rate : Nat := 136

/-- Padding of `n` bytes: a byte `0x01`, zeros, and the top bit of the last byte. -/
def padding : Nat → Bytes
  | 0 => []
  | 1 => [0x81]
  | n + 2 => 0x01 :: (List.replicate n 0 ++ [0x80])

/-- Pads to whole blocks, by at least one byte. -/
def pad (message : Bytes) : Bytes :=
  message ++ padding (rate - message.length % rate)

/-- Adds 17 words at a time into the state and permutes it after each block. -/
def absorb (s : State) : List UInt64 → State
  | a0 :: a1 :: a2 :: a3 :: a4 :: b0 :: b1 :: b2 :: b3 :: b4 :: c0 :: c1 :: c2 :: c3 :: c4 ::
      d0 :: d1 :: rest =>
      absorb
        (permute
          ⟨s.y0.xor ⟨a0, a1, a2, a3, a4⟩, s.y1.xor ⟨b0, b1, b2, b3, b4⟩,
            s.y2.xor ⟨c0, c1, c2, c3, c4⟩, s.y3.xor ⟨d0, d1, 0, 0, 0⟩, s.y4⟩)
        rest
  | _ => s

theorem length_padding (n : Nat) : (padding n).length = n := by
  match n with
  | 0 => rfl
  | 1 => rfl
  | n + 2 => simp [padding]

/-- Padding fills whole blocks. -/
theorem rate_dvd_length_pad (message : Bytes) : rate ∣ (pad message).length := by
  simp only [pad, List.length_append, length_padding, rate]
  omega

end Keccak

/-- The Keccak-256 digest of a byte string. -/
def keccak256 (message : Bytes) : Bytes32 :=
  let s := Keccak.absorb .zero (Bytes.words (Keccak.pad message))
  ⟨s.y0.x0, s.y0.x1, s.y0.x2, s.y0.x3⟩

end AmmRollup
