import LineExchange.Transaction

/-!
# LineExchange.Header.Decode

Reading a control line. Every line decodes: a line whose code is not known is an error
transaction, whatever its other bits are.
-/

namespace LineExchange

/-- What a control header says. -/
structure Header where
  valid : Bool
  /-- Payload bytes, both in the line and in the overflow array. -/
  length : Nat
  transaction : Transaction
deriving DecidableEq, Inhabited

namespace Format

def headerKind (f : Format) (code : Nat) : HeaderKind :=
  if code = f.tags.ethernet.toNat then .ethernet
  else if code = f.tags.ip.toNat then .ip
  else if code = f.tags.udp.toNat then .udp
  else .error

def bypassOf (f : Format) (l : Line) : Transaction :=
  let kind := f.headerKind (f.hdrTy.get l.bytes)
  .bypass kind (.take (l.bytes.slice f.bypassOffset.toNat (f.headerLen kind)))

/-- The call or reply in a line. -/
def rpcOf (f : Format) (l : Line) : Rpc where
  funcPtr := .ofNat (f.funcPtr.get l.bytes)
  xid := .ofNat (f.xid.get l.bytes)
  words := .take (l.bytes.slice f.argsOffset.toNat f.argsSize)

def transactionOf (f : Format) (l : Line) : Transaction :=
  let tag := f.ty.get l.bytes
  if tag = f.tags.bypass.toNat then f.bypassOf l
  else if tag = f.tags.call.toNat then .call (f.rpcOf l)
  else if tag = f.tags.reply.toNat then .reply (f.rpcOf l)
  else .error (.ofNat tag)

/-- Whether a line holds a transaction at all. -/
def isValid (f : Format) (l : Line) : Bool := f.valid.get l.bytes = 1

/-- What the header of a line says. -/
def decode (f : Format) (l : Line) : Header where
  valid := f.isValid l
  length := f.len.get l.bytes
  transaction := f.transactionOf l

end Format
end LineExchange
