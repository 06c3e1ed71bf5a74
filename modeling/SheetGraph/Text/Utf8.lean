/-!
# Reading UTF-8 that may be broken

`decodeLossy` reads bytes as UTF-8 and puts the replacement character in the place of each longest
start of a sequence that is none.
-/

namespace SheetGraph.Text

/-- The character that stands for bytes that are no UTF-8. -/
def replacement : Char := '\ufffd'

/-- Whether a byte continues a sequence: two bits `10` and six more. -/
def isContinuation (b : UInt8) : Bool :=
  0x80 ≤ b && b ≤ 0xBF

/-- Whether `b` may follow the first byte `a` of a sequence. -/
def mayFollow (a b : UInt8) : Bool :=
  if a == 0xE0 then 0xA0 ≤ b && b ≤ 0xBF
  else if a == 0xED then 0x80 ≤ b && b ≤ 0x9F
  else if a == 0xF0 then 0x90 ≤ b && b ≤ 0xBF
  else if a == 0xF4 then 0x80 ≤ b && b ≤ 0x8F
  else isContinuation b

/-- The six bits that a continuation byte carries. -/
def payload (b : UInt8) : Nat :=
  b.toNat % 64

/-- The character of the sequence that starts with the byte `a`, and the number of bytes behind `a`
that belong to it; the replacement character for the longest start of a broken one. -/
def sequence (a : UInt8) (rest : List UInt8) : Char × Nat :=
  if a < 0x80 then (Char.ofNat a.toNat, 0)
  else if a < 0xC2 || 0xF4 < a then (replacement, 0)
  else match rest with
    | [] => (replacement, 0)
    | b :: rest =>
      if !mayFollow a b then (replacement, 0)
      else if a < 0xE0 then (Char.ofNat (64 * (a.toNat % 32) + payload b), 1)
      else match rest with
        | [] => (replacement, 1)
        | c :: rest =>
          if !isContinuation c then (replacement, 1)
          else if a < 0xF0 then
            (Char.ofNat (4096 * (a.toNat % 16) + 64 * payload b + payload c), 2)
          else match rest with
            | [] => (replacement, 2)
            | d :: _ =>
              if !isContinuation d then (replacement, 2)
              else (Char.ofNat (262144 * (a.toNat % 8) + 4096 * payload b + 64 * payload c
                + payload d), 3)

/-- The characters that bytes write behind the first `skip` of them, broken sequences replaced. -/
def decodeFrom : (skip : Nat) → List UInt8 → List Char
  | _, [] => []
  | skip + 1, _ :: rest => decodeFrom skip rest
  | 0, a :: rest =>
    let (c, more) := sequence a rest
    c :: decodeFrom more rest

/-- The characters that bytes write, broken sequences replaced. -/
def decodeLossy (bytes : List UInt8) : List Char :=
  decodeFrom 0 bytes

/-- The text that bytes write, broken sequences replaced. -/
def ofBytesLossy (bytes : ByteArray) : String :=
  String.ofList (decodeLossy bytes.toList)

end SheetGraph.Text
