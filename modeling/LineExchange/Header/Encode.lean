import LineExchange.Header.Decode

/-!
# LineExchange.Header.Encode

Writing a control line. A transaction is refused if it has no code, or a part of it has not the
size its place in the header asks for.
-/

namespace LineExchange

/-- Why a transaction has no control line. -/
inductive EncodeError where
  | unsupportedKind (kind : TransactionKind)
  | unsupportedHeader (kind : HeaderKind)
  /-- The length does not fit the `len` field. -/
  | lengthOverflow (length max : Nat)
  /-- A bypass header has not the size of its kind. -/
  | headerLength (kind : HeaderKind) (len expected : Nat)
  /-- A part is larger than its place. -/
  | tooLarge (what : String) (len max : Nat)
deriving DecidableEq

namespace EncodeError

open Text

def message : EncodeError → String
  | unsupportedKind kind => s!"cannot encode a {kind.name} transaction"
  | unsupportedHeader kind => s!"cannot encode bypass header kind {kind.shown}"
  | lengthOverflow length max => s!"length {length} exceeds the len field maximum {max}"
  | headerLength kind len expected => s!"{kind.shown} header is {len} bytes, expected {expected}"
  | tooLarge what len max => s!"{what} is {len} bytes, at most {max} fit"

def shown : EncodeError → String
  | unsupportedKind kind => tuple "UnsupportedKind" [kind.shown]
  | unsupportedHeader kind => tuple "UnsupportedHeader" [kind.shown]
  | lengthOverflow length max =>
    record "LengthOverflow" [("length", toString length), ("max", toString max)]
  | headerLength kind len expected =>
    record "HeaderLength"
      [("kind", kind.shown), ("len", toString len), ("expected", toString expected)]
  | tooLarge what len max =>
    record "TooLarge" [("what", quoted what), ("len", toString len), ("max", toString max)]

end EncodeError

namespace Line

/-- The line with a field of its header set. -/
def put (l : Line) (f : Field) (value : Nat) : Line :=
  ⟨f.put l.bytes value, by rw [Field.size_put, l.size_bytes]⟩

end Line

namespace Format

/-- The code of a header kind; the error kind has none. -/
def headerCode? (f : Format) : HeaderKind → Option UInt64
  | .ethernet => some f.tags.ethernet
  | .ip => some f.tags.ip
  | .udp => some f.tags.udp
  | .error => none

/-- The zero line with a bypass transaction written into it. -/
def writeBypass (f : Format) (kind : HeaderKind) (header : InlineBytes) :
    Except EncodeError Line :=
  match f.headerCode? kind with
  | none => .error (.unsupportedHeader kind)
  | some code =>
    let expected := f.headerLen kind
    if header.len = expected then
      .ok (((Line.zero.put f.ty f.tags.bypass.toNat).put f.hdrTy code.toNat).patch
        f.bypassOffset.toNat header.toBytes)
    else .error (.headerLength kind header.len expected)

/-- The zero line with a call or reply of code `tag` written into it. -/
def writeRpc (f : Format) (tag : UInt64) (rpc : Rpc) : Except EncodeError Line :=
  if f.argsSize < rpc.words.len then
    .error (.tooLarge "rpc inline words" rpc.words.len f.argsSize)
  else
    .ok ((((Line.zero.put f.ty tag.toNat).put f.funcPtr rpc.funcPtr.toNat).put f.xid
      rpc.xid.toNat).patch f.argsOffset.toNat rpc.words.toBytes)

/-- The zero line with a transaction written into it. -/
def writeTransaction (f : Format) : Transaction → Except EncodeError Line
  | .bypass kind header => f.writeBypass kind header
  | .call rpc => f.writeRpc f.tags.call rpc
  | .reply rpc => f.writeRpc f.tags.reply rpc
  | .error _ => .error (.unsupportedKind .error)

/-- The valid control line for a transaction whose payload has `length` bytes and starts with
`inline`. -/
def encode (f : Format) (t : Transaction) (length : Nat) (inline : Bytes) :
    Except EncodeError Line :=
  if inlineSize < inline.size then .error (.tooLarge "inline payload" inline.size inlineSize)
  else if f.maxLength < length then .error (.lengthOverflow length f.maxLength)
  else match f.writeTransaction t with
    | .error e => .error e
    | .ok l => .ok (((l.put f.len length).put f.valid 1).patch inlineOffset inline)

end Format
end LineExchange
