import LineExchange.InWords

/-!
# LineExchange.Header.BitLoop

A field read and written in a loop over its bits, with bytes and 64-bit words. A round finds the
byte of its bit, which must be there, and shifts a mask to the bit; a word is shifted by fewer
places than it has bits. A loop has no result where one of these fails.
-/

namespace LineExchange

namespace Bytes

/-- The byte at `i`, which must be there. -/
def byte? (b : Bytes) (i : Nat) : Option UInt8 := if i < b.size then some (b.byteAt i) else none

end Bytes

namespace Word

/-- `a` shifted down by `n` bits, which must be fewer than a word has. -/
def shr? (a : UInt64) (n : UInt8) : Option UInt64 :=
  if n < 64 then some (a >>> n.toUInt64) else none

end Word

open Word

namespace Field

/-- Bit `i` of the field, if it is set, becomes bit `i` of the value. -/
def gatherBit? (f : Field) (b : Bytes) (value : UInt64) (i : Nat) : Option UInt64 := do
  let n := f.start + i
  let byte ← b.byte? (n / 8)
  if byte >>> UInt8.ofNat (n % 8) &&& 1 = 1 then
    let mask ← shl? 1 (.ofNat i)
    return value ||| mask
  else return value

/-- The value of the field. -/
def gather? (f : Field) (b : Bytes) : Option UInt64 :=
  (List.range f.width.toNat).foldlM (f.gatherBit? b) 0

/-- Bit `i` of the value becomes bit `i` of the field. -/
def scatterBit? (f : Field) (value : UInt64) (b : Bytes) (i : Nat) : Option Bytes := do
  let n := f.start + i
  let byte ← b.byte? (n / 8)
  let rest ← shr? value (.ofNat i)
  let mask : UInt8 := 1 <<< UInt8.ofNat (n % 8)
  return b.put (n / 8) (if rest &&& 1 = 1 then byte ||| mask else byte &&& ~~~mask)

/-- `b` with the value in the field. -/
def scatter? (f : Field) (b : Bytes) (value : UInt64) : Option Bytes :=
  (List.range f.width.toNat).foldlM (f.scatterBit? value) b

end Field
end LineExchange
