import LineExchange.Transaction.InlineBytes

/-!
# LineExchange.Transaction.Record

Inline bytes as they are kept: a buffer and a number, about which nothing is promised. They are
read and written through the view of the bytes in use, and a word is a piece of four bytes of that
view. Two records are equal if all of their buffers is.
-/

namespace LineExchange

namespace Bytes

/-- The pieces of `n` bytes, from the front. A shorter rest is no piece. -/
def chunks (b : Bytes) (n : Nat) : List Bytes :=
  (List.range (b.size / n)).map fun i => b.slice (n * i) n

end Bytes

/-- A buffer, and how many of its bytes are in use. -/
structure InlineRecord where
  buffer : Bytes
  len : UInt8
deriving DecidableEq

open InlineBytes

namespace InlineRecord

/-- `n` zero bytes; at most a header full. -/
def zeroed (n : Nat) : InlineRecord := ⟨.zeros headerSize, .ofNat (min n headerSize)⟩

/-- The bytes in use. -/
def contents (r : InlineRecord) : Bytes := r.buffer.slice 0 r.len.toNat

/-- `r` with as many other bytes in the place of those in use. -/
def update (r : InlineRecord) (contents : Bytes) : InlineRecord :=
  { r with buffer := r.buffer.patch 0 contents }

/-- The bytes of `b`, if a header can hold them. -/
def ofBytes? (b : Bytes) : Option InlineRecord :=
  if headerSize < b.size then none else some ((zeroed b.size).update b)

/-- `src` written over the bytes in use from `start`, all of which must be there. -/
def write? (r : InlineRecord) (start : Nat) (src : Bytes) : Option InlineRecord :=
  if start + src.size ≤ r.contents.size then some (r.update (r.contents.patch start src)) else none

def word? (r : InlineRecord) (i : Nat) : Option UInt32 :=
  (r.contents.chunks 4)[i]?.map (littleEndian · 0)

def words (r : InlineRecord) : List UInt32 := (r.contents.chunks 4).map (littleEndian · 0)

/-- Whether `r` has an `i`-th word, and `r` with that word replaced. -/
def setWord (r : InlineRecord) (i : Nat) (w : UInt32) : Bool × InlineRecord :=
  if (r.contents.chunks 4)[i]?.isSome then (true, r.update (r.contents.patch (4 * i) (wordBytes w)))
  else (false, r)

/-- What is done to a record. -/
inductive Move where
  | word (i : Nat) (w : UInt32)
  | bytes (start : Nat) (src : Bytes)

def step? (r : InlineRecord) : Move → Option InlineRecord
  | .word i w => some (r.setWord i w).2
  | .bytes start src => r.write? start src

/-- The moves in order. None has a result behind one that has none. -/
def run? (r : InlineRecord) (moves : List Move) : Option InlineRecord := moves.foldlM step? r

end InlineRecord
end LineExchange
