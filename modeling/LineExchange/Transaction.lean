import LineExchange.Header.Format
import LineExchange.Transaction.InlineBytes

/-!
# LineExchange.Transaction

What a control line carries besides its payload: a raw network frame header (bypass), a remote
call, a reply to one, or a code nobody knows.
-/

namespace LineExchange

/-- The kind of a transaction. -/
inductive TransactionKind where
  | bypass
  | call
  | reply
  /-- Any code that is not known. -/
  | error
deriving DecidableEq, Inhabited

namespace TransactionKind

def name : TransactionKind → String
  | bypass => "bypass"
  | call => "onc-rpc call"
  | reply => "onc-rpc reply"
  | error => "error"

def shown : TransactionKind → String
  | bypass => "Bypass"
  | call => "OncRpcCall"
  | reply => "OncRpcReply"
  | error => "Error"

end TransactionKind

/-- How much of a network header a bypass transaction carries. Each kind has the layers below it
too. -/
inductive HeaderKind where
  | ethernet
  | ip
  | udp
  | error
deriving DecidableEq, Inhabited

def ethernetLen : Nat := 14

/-- Bytes of the headers up to IPv4. -/
def ipLen : Nat := ethernetLen + 20

/-- Bytes of the headers up to UDP. -/
def udpLen : Nat := ipLen + 8

namespace HeaderKind

def shown : HeaderKind → String
  | ethernet => "Ethernet"
  | ip => "Ip"
  | udp => "Udp"
  | error => "Error"

/-- Bytes of the header on the wire; the error kind has no size of its own. -/
def wireLen : HeaderKind → Option Nat
  | ethernet => some ethernetLen
  | ip => some ipLen
  | udp => some udpLen
  | error => none

end HeaderKind

/-- Bytes of a bypass header that the window of the format has room for. The error kind fills the
window. -/
def Format.headerLen (f : Format) (k : HeaderKind) : Nat :=
  match k.wireLen with
  | some n => min n f.bypassSize.toNat
  | none => f.bypassSize.toNat

/-- What calls and replies carry. -/
structure Rpc where
  /-- The handler; it only means something in a call. -/
  funcPtr : UInt64
  xid : UInt32
  /-- The first words of the arguments or of the result. -/
  words : InlineBytes
deriving DecidableEq, Inhabited

/-- One transaction. -/
inductive Transaction where
  | bypass (kind : HeaderKind) (header : InlineBytes)
  | call (rpc : Rpc)
  | reply (rpc : Rpc)
  | error (tag : UInt64)
deriving DecidableEq

namespace Transaction

instance : Inhabited Transaction := ⟨error 0⟩

def kind : Transaction → TransactionKind
  | bypass .. => .bypass
  | call _ => .call
  | reply _ => .reply
  | error _ => .error

/-- The zero transaction of a kind, with the sizes of the format. -/
def empty (f : Format) : TransactionKind → Transaction
  | .bypass => bypass .ethernet (.zeroed (f.headerLen .ethernet))
  | .call => call ⟨0, 0, .zeroed f.argsSize⟩
  | .reply => reply ⟨0, 0, .zeroed f.argsSize⟩
  | .error => error 0

/-- A bypass transaction for a raw header, which must have the size of its kind and fit a control
header. -/
def ofHeader? (kind : HeaderKind) (header : Bytes) : Option Transaction :=
  if kind.wireLen.all (· = header.size) then (InlineBytes.ofBytes? header).map (bypass kind)
  else none

open Text in
def shown : Transaction → String
  | bypass kind header =>
    tuple "Bypass" [record "Bypass" [("header_kind", kind.shown), ("header", header.shown)]]
  | call rpc => tuple "OncRpcCall" [rpcShown rpc]
  | reply rpc => tuple "OncRpcReply" [rpcShown rpc]
  | error tag => record "Error" [("tag", toString tag.toNat)]
where
  rpcShown (rpc : Rpc) : String :=
    record "OncRpc" [("func_ptr", toString rpc.funcPtr.toNat), ("xid", toString rpc.xid.toNat),
      ("words", rpc.words.shown)]

end Transaction
end LineExchange
