import PageStore.Bytes.Basic

/-!
# UTF-8

`encode` writes characters as bytes and `decode` reads them back.  Reading accepts only the
shortest form of each character and no surrogates; a refusal names the index of the first byte that
belongs to no character, and how many bytes there cannot begin one, unless the bytes merely end too
early.

`cut` shortens a text to the longest beginning whose bytes fit a given room.
-/

namespace PageStore.Utf8

/-- The bytes of one character. -/
def encodeChar (c : Char) : Bytes :=
  let n := c.toNat
  if n < 0x80 then [.ofNat n]
  else if n < 0x800 then [.ofNat (0xC0 + n / 64), .ofNat (0x80 + n % 64)]
  else if n < 0x10000 then
    [.ofNat (0xE0 + n / 4096), .ofNat (0x80 + n / 64 % 64), .ofNat (0x80 + n % 64)]
  else
    [.ofNat (0xF0 + n / 262144), .ofNat (0x80 + n / 4096 % 64), .ofNat (0x80 + n / 64 % 64),
      .ofNat (0x80 + n % 64)]

/-- The bytes of a text. -/
def encode (text : List Char) : Bytes := text.flatMap encodeChar

/-- Why bytes are not a text: from `index` on, either `length` bytes cannot begin a character, or
the bytes end inside one. -/
structure Fault where
  index : Nat
  length : Option Nat
deriving DecidableEq, Repr, Inhabited

/-- Whether a byte can follow the first byte of a character. -/
def isTail (b : UInt8) : Bool := 0x80 ≤ b.toNat && b.toNat < 0xC0

/-- The six bits that a following byte carries. -/
def tailBits (b : UInt8) : Nat := b.toNat - 0x80

/-- Whether `b` can be second in a character of three bytes that begins with `lead`: no longer form
of a shorter character, and no surrogate. -/
def isSecondOfThree (lead b : UInt8) : Bool :=
  isTail b && (lead ≠ 0xE0 || 0xA0 ≤ b.toNat) && (lead ≠ 0xED || b.toNat < 0xA0)

/-- Whether `b` can be second in a character of four bytes that begins with `lead`: no longer form
of a shorter character, and nothing past the last character. -/
def isSecondOfFour (lead b : UInt8) : Bool :=
  isTail b && (lead ≠ 0xF0 || 0x90 ≤ b.toNat) && (lead ≠ 0xF4 || b.toNat < 0x90)

/-- How many bytes a character has that begins with `lead`. -/
def width (lead : UInt8) : Nat :=
  if lead.toNat < 0x80 then 1
  else if lead.toNat < 0xC2 then 0
  else if lead.toNat < 0xE0 then 2
  else if lead.toNat < 0xF0 then 3
  else if lead.toNat < 0xF5 then 4
  else 0

/-- Reads the characters of bytes that begin at a given index. -/
def decodeFrom (index : Nat) : Bytes → Except Fault (List Char)
  | [] => .ok []
  | lead :: rest =>
    match width lead, rest with
    | 1, rest => (decodeFrom (index + 1) rest).map (Char.ofNat lead.toNat :: ·)
    | 2, [] => .error ⟨index, none⟩
    | 2, b :: rest =>
      if isTail b then
        (decodeFrom (index + 2) rest).map
          (Char.ofNat ((lead.toNat - 0xC0) * 64 + tailBits b) :: ·)
      else .error ⟨index, some 1⟩
    | 3, [] => .error ⟨index, none⟩
    | 3, b :: rest =>
      if isSecondOfThree lead b then
        match rest with
        | [] => .error ⟨index, none⟩
        | c :: rest =>
          if isTail c then
            (decodeFrom (index + 3) rest).map
              (Char.ofNat ((lead.toNat - 0xE0) * 4096 + tailBits b * 64 + tailBits c) :: ·)
          else .error ⟨index, some 2⟩
      else .error ⟨index, some 1⟩
    | 4, [] => .error ⟨index, none⟩
    | 4, b :: rest =>
      if isSecondOfFour lead b then
        match rest with
        | [] => .error ⟨index, none⟩
        | c :: rest =>
          if isTail c then
            match rest with
            | [] => .error ⟨index, none⟩
            | d :: rest =>
              if isTail d then
                (decodeFrom (index + 4) rest).map
                  (Char.ofNat ((lead.toNat - 0xF0) * 262144 + tailBits b * 4096 + tailBits c * 64
                    + tailBits d) :: ·)
              else .error ⟨index, some 3⟩
          else .error ⟨index, some 2⟩
      else .error ⟨index, some 1⟩
    | _, _ => .error ⟨index, some 1⟩

/-- The text whose bytes are given. -/
def decode (bytes : Bytes) : Except Fault (List Char) := decodeFrom 0 bytes

/-- The longest beginning of a text whose bytes fit into `room`. -/
def cut : (room : Nat) → List Char → List Char
  | _, [] => []
  | room, c :: rest =>
    if (encodeChar c).length ≤ room then c :: cut (room - (encodeChar c).length) rest else []

@[simp] theorem encode_nil : encode [] = [] := rfl

@[simp] theorem encode_cons (c : Char) (text : List Char) :
    encode (c :: text) = encodeChar c ++ encode text := rfl

/-- A shortened text fits. -/
theorem length_encode_cut (room : Nat) (text : List Char) :
    (encode (cut room text)).length ≤ room := by
  induction text generalizing room with
  | nil => simp [cut]
  | cons c rest ih =>
    unfold cut
    split
    · have := ih (room - (encodeChar c).length)
      simp only [encode_cons, List.length_append]
      omega
    · simp

end PageStore.Utf8
