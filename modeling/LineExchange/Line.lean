import LineExchange.Bytes

/-!
# LineExchange.Line

A cacheline: 128 bytes, the unit both sides exchange. A control line is split in two halves, the
header in front and the first payload bytes (`inline`) behind it.
-/

namespace LineExchange

def lineSize : Nat := 128

/-- Bytes of a control line that hold the header. -/
def headerSize : Nat := 64

/-- Where the payload starts in a control line: right behind the header. -/
def inlineOffset : Nat := headerSize

/-- Payload bytes that fit in the control line itself. -/
def inlineSize : Nat := lineSize - inlineOffset

/-- One cacheline. -/
structure Line where
  bytes : Bytes
  size_bytes : bytes.size = lineSize
deriving DecidableEq

namespace Line

def zero : Line := ⟨.zeros lineSize, Bytes.size_zeros _⟩

/-- The line with `src` written over its bytes from `start`. -/
def patch (l : Line) (start : Nat) (src : Bytes) : Line :=
  ⟨l.bytes.patch start src, by rw [Bytes.size_patch, l.size_bytes]⟩

/-- The line that starts with `b`: padded with zeros, or cut. -/
def ofBytes (b : Bytes) : Line := zero.patch 0 (b.slice 0 lineSize)

def inline (l : Line) : Bytes := l.bytes.slice inlineOffset inlineSize

instance : Inhabited Line := ⟨zero⟩

theorem size_inline (l : Line) : l.inline.size = inlineSize := by
  simp [inline, l.size_bytes, lineSize, inlineSize, inlineOffset]

theorem bytes_ofBytes_of_size {b : Bytes} (h : b.size = lineSize) : (ofBytes b).bytes = b := by
  have hs : b.slice 0 lineSize = b := by rw [← h, Bytes.slice_zero_size]
  refine Bytes.ext_byteAt (by rw [(ofBytes b).size_bytes, h]) fun i hi => ?_
  rw [(ofBytes b).size_bytes] at hi
  have hfit : 0 + b.size ≤ zero.bytes.size := by rw [zero.size_bytes]; omega
  simp only [ofBytes, patch, hs]
  rw [Bytes.byteAt_patch hfit, if_pos ⟨Nat.zero_le _, by omega⟩, Nat.sub_zero]

end Line
end LineExchange
