import LineExchange.Header.Field
import LineExchange.Line
import LineExchange.Rule
import LineExchange.Text

/-!
# LineExchange.Header.Format

Where the parts of a control header lie. The format is generated with the hardware and checked
once: `check` accepts it when no two parts that can be present together share a bit and the
codes can be told apart.

`valid`, `len` and `ty` are present in every header. `hdrTy` and the bypass window belong to
bypass transactions; `funcPtr`, `xid` and the argument window to calls and replies. The two
groups may share bits.
-/

namespace LineExchange

/-- The codes of the `ty` field and of the `hdrTy` field. -/
structure Tags where
  bypass : UInt64 := 1
  call : UInt64 := 2
  reply : UInt64 := 3
  ethernet : UInt64 := 1
  ip : UInt64 := 2
  udp : UInt64 := 3
deriving DecidableEq, Inhabited

/-- The layout of a control header. -/
structure Format where
  valid : Field := ⟨0, 1⟩
  len : Field := ⟨1, 14⟩
  ty : Field := ⟨15, 4⟩
  hdrTy : Field := ⟨19, 3⟩
  /-- First byte of the bypass window. -/
  bypassOffset : UInt64 := 4
  /-- Bytes of the bypass window. -/
  bypassSize : UInt64 := 42
  funcPtr : Field := ⟨64, 64⟩
  xid : Field := ⟨128, 32⟩
  /-- First byte of the argument window. -/
  argsOffset : UInt64 := 20
  /-- 32-bit words in the argument window. -/
  argsWords : UInt64 := 11
  tags : Tags := {}
deriving DecidableEq, Inhabited

/-- Why a format is refused. -/
inductive FormatError where
  /-- The valid flag is not the single bit 0. -/
  | validNotBitZero (field : Field)
  /-- A field has no bits, or more than 64. -/
  | badWidth (field : String)
  | outOfHeader (field : String)
  | overlap (a b : String)
  /-- A code is zero or does not fit its field. Zero stands for an error. -/
  | tagOutOfRange (tag : String) (value : Nat)
  | duplicateTag (a b : String)
deriving DecidableEq

namespace FormatError

open Text

def message : FormatError → String
  | validNotBitZero f =>
    s!"valid flag must be bit 0 with width 1, found offset {f.offset.toNat} width {f.width.toNat}"
  | badWidth field => s!"field {field} must be 1 to 64 bits wide"
  | outOfHeader field => s!"field {field} extends past the {headerSize}-byte header"
  | overlap a b => s!"fields {a} and {b} overlap"
  | tagOutOfRange tag value => s!"tag {tag} = {value} does not fit its field"
  | duplicateTag a b => s!"tags {a} and {b} share a code"

def shown : FormatError → String
  | validNotBitZero f =>
    tuple "ValidNotBitZero" [record "BitField"
      [("offset", toString f.offset.toNat), ("width", toString f.width.toNat)]]
  | badWidth field => tuple "BadWidth" [quoted field]
  | outOfHeader field => tuple "OutOfHeader" [quoted field]
  | overlap a b => tuple "Overlap" [quoted a, quoted b]
  | tagOutOfRange tag value =>
    record "TagOutOfRange" [("tag", quoted tag), ("value", toString value)]
  | duplicateTag a b => tuple "DuplicateTag" [quoted a, quoted b]

end FormatError

/-- A named run of header bits. -/
structure HeaderPart where
  name : String
  start : Nat
  stop : Nat

namespace HeaderPart

def ofField (name : String) (f : Field) : HeaderPart := ⟨name, f.start, f.stop⟩

/-- The bits of `size` bytes from `offset`. -/
def ofWindow (name : String) (offset size : Nat) : HeaderPart :=
  ⟨name, 8 * offset, 8 * (offset + size)⟩

/-- Two parts must not share a bit. -/
def apart (p q : HeaderPart) : Rule FormatError :=
  ⟨!Field.runsMeet p.start p.stop q.start q.stop, .overlap p.name q.name⟩

end HeaderPart

namespace Format

/-- The largest length that the `len` field describes. -/
def maxLength (f : Format) : Nat := f.len.maxValue

def argsSize (f : Format) : Nat := 4 * f.argsWords.toNat

def validPart (f : Format) : HeaderPart := .ofField "valid" f.valid
def lenPart (f : Format) : HeaderPart := .ofField "len" f.len
def tyPart (f : Format) : HeaderPart := .ofField "ty" f.ty
def hdrTyPart (f : Format) : HeaderPart := .ofField "hdr_ty" f.hdrTy
def funcPtrPart (f : Format) : HeaderPart := .ofField "func_ptr" f.funcPtr
def xidPart (f : Format) : HeaderPart := .ofField "xid" f.xid

def bypassPart (f : Format) : HeaderPart :=
  .ofWindow "bypass_header" f.bypassOffset.toNat f.bypassSize.toNat

def argsPart (f : Format) : HeaderPart := .ofWindow "rpc_args" f.argsOffset.toNat f.argsSize

/-- A field must be 1 to 64 bits wide and lie in the header. -/
def fieldRules (name : String) (f : Field) : List (Rule FormatError) := [
  ⟨0 < f.width.toNat && f.width.toNat ≤ 64, .badWidth name⟩,
  ⟨f.stop ≤ 8 * headerSize, .outOfHeader name⟩]

/-- A window must lie in the header. -/
def windowRule (p : HeaderPart) : Rule FormatError := ⟨p.stop ≤ 8 * headerSize, .outOfHeader p.name⟩

/-- The parts that only some transactions have. -/
def privateParts (f : Format) : List HeaderPart :=
  [f.hdrTyPart, f.funcPtrPart, f.xidPart, f.bypassPart, f.argsPart]

/-- The parts of every header stay apart from each other and from all private parts; private
parts stay apart from the others of their group. -/
def overlapRules (f : Format) : List (Rule FormatError) :=
  ([f.lenPart, f.tyPart] ++ f.privateParts).map f.validPart.apart ++
  ([f.tyPart] ++ f.privateParts).map f.lenPart.apart ++
  f.privateParts.map f.tyPart.apart ++
  [f.hdrTyPart.apart f.bypassPart, f.funcPtrPart.apart f.xidPart, f.funcPtrPart.apart f.argsPart,
    f.xidPart.apart f.argsPart]

/-- A code must be positive and fit its field. -/
def tagRange (f : Field) (tag : String) (value : UInt64) : Rule FormatError :=
  ⟨value ≠ 0 && value.toNat ≤ f.maxValue, .tagOutOfRange tag value.toNat⟩

def tagsDiffer (a : String) (x : UInt64) (b : String) (y : UInt64) : Rule FormatError :=
  ⟨x ≠ y, .duplicateTag a b⟩

def tagRules (f : Format) : List (Rule FormatError) :=
  let t := f.tags
  [tagRange f.ty "bypass" t.bypass,
    tagsDiffer "bypass" t.bypass "onc_rpc_call" t.call,
    tagsDiffer "bypass" t.bypass "onc_rpc_reply" t.reply,
    tagRange f.ty "onc_rpc_call" t.call,
    tagsDiffer "onc_rpc_call" t.call "onc_rpc_reply" t.reply,
    tagRange f.ty "onc_rpc_reply" t.reply,
    tagRange f.hdrTy "hdr_ethernet" t.ethernet,
    tagsDiffer "hdr_ethernet" t.ethernet "hdr_ip" t.ip,
    tagsDiffer "hdr_ethernet" t.ethernet "hdr_udp" t.udp,
    tagRange f.hdrTy "hdr_ip" t.ip,
    tagsDiffer "hdr_ip" t.ip "hdr_udp" t.udp,
    tagRange f.hdrTy "hdr_udp" t.udp]

def rules (f : Format) : List (Rule FormatError) :=
  [⟨f.valid = ⟨0, 1⟩, .validNotBitZero f.valid⟩] ++
  fieldRules "len" f.len ++ fieldRules "ty" f.ty ++ fieldRules "hdr_ty" f.hdrTy ++
  fieldRules "func_ptr" f.funcPtr ++ fieldRules "xid" f.xid ++
  [windowRule f.bypassPart, windowRule f.argsPart] ++
  f.overlapRules ++ f.tagRules

/-- Whether the format can be used; else the first rule it breaks. -/
def check (f : Format) : Except FormatError Unit := Rule.check f.rules

end Format
end LineExchange
