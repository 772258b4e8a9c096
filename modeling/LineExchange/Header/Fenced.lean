import LineExchange.Header.Encode
import LineExchange.Word

/-!
# LineExchange.Header.Fenced

The codec behind a fence: every index into a header and both sides of every copy are checked
first, and the answer is `none` where one is out of range.
-/

namespace LineExchange

namespace Bytes

/-- The `len` bytes from `start`, all of which must be there. -/
def slice? (b : Bytes) (start len : Nat) : Option Bytes :=
  if start + len ≤ b.size ∧ start + len ≤ wordMax then some (b.slice start len) else none

/-- `b` with `src` written over the `len` bytes from `start`. They must be there, and be as many as
`src` has. -/
def copy? (b : Bytes) (start len : Nat) (src : Bytes) : Option Bytes :=
  if start + len ≤ b.size ∧ start + len ≤ wordMax ∧ src.size = len then some (b.patch start src)
  else none

end Bytes

namespace Field

/-- Whether the byte of each bit is one of `size` bytes. -/
def Indexes (g : Field) (size : Nat) : Prop := ∀ i, i < g.width.toNat → (g.start + i) / 8 < size

instance (g : Field) (size : Nat) : Decidable (g.Indexes size) :=
  inferInstanceAs (Decidable (∀ i, i < g.width.toNat → _))

def get? (g : Field) (b : Bytes) : Option Nat := if g.Indexes b.size then some (g.get b) else none

end Field

namespace InlineBytes

/-- `n` zero bytes, overwritten with as many others. -/
def copyOf? (n : Nat) (src : Bytes) : Option InlineBytes :=
  if (zeroed n).len = src.size then some (take src) else none

end InlineBytes

namespace Line

/-- The line with a field set, which must lie in the header. -/
def put? (l : Line) (g : Field) (value : Nat) : Option Line :=
  if g.Indexes headerSize then some (l.put g value) else none

/-- The line with `src` written over the `len` bytes from `start`, all of them below `stop`. -/
def copy? (l : Line) (start len stop : Nat) (src : Bytes) : Option Line :=
  if start + len ≤ stop ∧ start + len ≤ wordMax ∧ src.size = len then some (l.patch start src)
  else none

end Line

namespace Format

def bypassOf? (f : Format) (header : Bytes) : Option Transaction := do
  let kind := f.headerKind (← f.hdrTy.get? header)
  let bytes ← header.slice? f.bypassOffset.toNat (f.headerLen kind)
  return .bypass kind (← InlineBytes.copyOf? (f.headerLen kind) bytes)

def rpcOf? (f : Format) (header : Bytes) : Option Rpc := do
  let bytes ← header.slice? f.argsOffset.toNat f.argsSize
  let words ← InlineBytes.copyOf? f.argsSize bytes
  return ⟨.ofNat (← f.funcPtr.get? header), .ofNat (← f.xid.get? header), words⟩

def transactionOf? (f : Format) (header : Bytes) : Option Transaction := do
  let tag ← f.ty.get? header
  if tag = f.tags.bypass.toNat then f.bypassOf? header
  else if tag = f.tags.call.toNat then return .call (← f.rpcOf? header)
  else if tag = f.tags.reply.toNat then return .reply (← f.rpcOf? header)
  else return .error (.ofNat tag)

/-- What the header of a line says. -/
def decode? (f : Format) (l : Line) : Option Header := do
  let header ← l.bytes.slice? 0 headerSize
  let valid ← f.valid.get? header
  let transaction ← f.transactionOf? header
  return ⟨valid = 1, ← f.len.get? header, transaction⟩

def writeBypass? (f : Format) (kind : HeaderKind) (header : InlineBytes) :
    Option (Except EncodeError Line) :=
  match f.headerCode? kind with
  | none => some (.error (.unsupportedHeader kind))
  | some code =>
    let expected := f.headerLen kind
    if header.len = expected then do
      let bytes ← header.buffer.slice? 0 header.len
      let l ← Line.zero.put? f.ty f.tags.bypass.toNat
      let l ← l.put? f.hdrTy code.toNat
      return .ok (← l.copy? f.bypassOffset.toNat header.len headerSize bytes)
    else some (.error (.headerLength kind header.len expected))

def writeRpc? (f : Format) (tag : UInt64) (rpc : Rpc) : Option (Except EncodeError Line) :=
  if f.argsSize < rpc.words.len then
    some (.error (.tooLarge "rpc inline words" rpc.words.len f.argsSize))
  else do
    let bytes ← rpc.words.buffer.slice? 0 rpc.words.len
    let l ← Line.zero.put? f.ty tag.toNat
    let l ← l.put? f.funcPtr rpc.funcPtr.toNat
    let l ← l.put? f.xid rpc.xid.toNat
    return .ok (← l.copy? f.argsOffset.toNat rpc.words.len headerSize bytes)

def writeTransaction? (f : Format) : Transaction → Option (Except EncodeError Line)
  | .bypass kind header => f.writeBypass? kind header
  | .call rpc => f.writeRpc? f.tags.call rpc
  | .reply rpc => f.writeRpc? f.tags.reply rpc
  | .error _ => some (.error (.unsupportedKind .error))

/-- The valid control line for a transaction. -/
def encode? (f : Format) (t : Transaction) (length : Nat) (inline : Bytes) :
    Option (Except EncodeError Line) :=
  if inlineSize < inline.size then some (.error (.tooLarge "inline payload" inline.size inlineSize))
  else if f.maxLength < length then some (.error (.lengthOverflow length f.maxLength))
  else do
    match ← f.writeTransaction? t with
    | .error e => return .error e
    | .ok l =>
      let l ← l.put? f.len length
      let l ← l.put? f.valid 1
      return .ok (← l.copy? inlineOffset inline.size lineSize inline)

end Format
end LineExchange
