import LineExchange.Header.Encode
import LineExchange.Fault

/-!
# LineExchange.Walk.Header

Checks of a header format on arbitrary input. Decoding any bytes gives back what their fields hold
(`Format.checkDecode`). A transaction of the sizes that the format asks for comes back unchanged
from its control line (`Format.checkRoundTrip`); this fails where a field of the format is too
narrow for the value.
-/

namespace LineExchange

/-- An arbitrary transaction with its payload length. Not every part of it is used. -/
structure HeaderSample where
  kind : UInt8
  headerKind : UInt8
  /-- The first byte of a bypass header and the mask of the payload. -/
  seed : UInt8
  length : UInt16
  funcPtr : UInt64
  xid : UInt32
  words : List UInt32

namespace HeaderSample

def bypassKind (s : HeaderSample) : HeaderKind :=
  match s.headerKind.toNat % 4 with
  | 0 => .ethernet
  | 1 => .ip
  | 2 => .udp
  | _ => .error

/-- The words of a sample in the space that the format has for them. -/
def inlineWords (s : HeaderSample) (f : Format) : InlineBytes :=
  (s.words.zipIdx).foldl (fun x (w, i) => (x.setWord i w).2) (.zeroed f.argsSize)

def transaction (s : HeaderSample) (f : Format) : Transaction :=
  let rpc : Rpc := ⟨s.funcPtr, s.xid, s.inlineWords f⟩
  match s.kind.toNat % 4 with
  | 0 => .bypass s.bypassKind
      (.take (.ofFn (min (f.headerLen s.bypassKind) headerSize) fun i => s.seed + UInt8.ofNat i))
  | 1 => .call rpc
  | 2 => .reply rpc
  | _ => .error s.seed.toUInt64

def inlinePayload (s : HeaderSample) : Bytes :=
  .ofFn (min s.length.toNat inlineSize) fun i => UInt8.ofNat i ^^^ s.seed

end HeaderSample

namespace Format

def assertAll (conditions : List Bool) : Except Fault Unit :=
  if conditions.all id then .ok () else .error (.assertion none)

/-- What a header must have in common with the fields of its line. -/
def agreesWith (f : Format) (l : Line) (h : Header) : List Bool :=
  let tag := f.ty.get l.bytes
  let fields : List Bool :=
    [h.valid = decide (f.valid.get l.bytes = 1), h.valid = f.isValid l,
      h.length = f.len.get l.bytes]
  let parts : List Bool := match h.transaction with
    | .bypass kind header => [tag = f.tags.bypass.toNat, header.len = f.headerLen kind]
    | .call rpc => [tag = f.tags.call.toNat, rpc.words.len = f.argsSize]
    | .reply _ => [tag = f.tags.reply.toNat]
    | .error reported =>
      [reported.toNat = tag, tag ≠ f.tags.bypass.toNat, tag ≠ f.tags.call.toNat,
        tag ≠ f.tags.reply.toNat]
  fields ++ parts

def checkDecode (f : Format) (b : Bytes) : Except Fault Unit :=
  let l := Line.ofBytes b
  assertAll (f.agreesWith l (f.decode l))

/-- Whether a transaction with a payload of `length` bytes is rightly refused. -/
def isUnencodable (f : Format) (t : Transaction) (length : Nat) : Bool :=
  (match t with
    | .error _ => true
    | .bypass .error _ => true
    | _ => false) || f.maxLength < length

/-- Check that a sample comes back from its control line, or is rightly refused. -/
def checkRoundTrip (f : Format) (s : HeaderSample) : Except Fault Unit :=
  let t := s.transaction f
  let length := s.length.toNat
  match f.encode t length s.inlinePayload with
  | .error _ =>
    if f.isUnencodable t length then .ok ()
    else .error (.assertion (some s!"rejected an encodable {t.shown}"))
  | .ok l =>
    let h := f.decode l
    assertAll [h.valid, h.length = length, h.transaction = t,
      l.inline.slice 0 s.inlinePayload.size = s.inlinePayload]

end Format
end LineExchange
