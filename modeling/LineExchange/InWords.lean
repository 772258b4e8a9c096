import LineExchange.Header.Format
import LineExchange.Layout

/-!
# LineExchange.InWords

The checks of a layout and of a format with every number a 64-bit word.

* `Word.satAdd` and `Word.satMul` stop at the largest word.
* `Word.add?`, `Word.mul?`, `Word.sub?` and `Word.shl?` have no result where it is no word. The
  size of a region is then unknown (`Layout.regionSizeInWords?`); a check for which that happens
  has no verdict (`Format.check?`).

Where rules hold each element of a list against those behind it, they are made by recursion over
that list (`Format.commonRules`, `Format.codeRules`).
-/

namespace LineExchange

namespace Word

def satAdd (a b : UInt64) : UInt64 := .ofNat (saturate (a.toNat + b.toNat))

def satMul (a b : UInt64) : UInt64 := .ofNat (saturate (a.toNat * b.toNat))

def add? (a b : UInt64) : Option UInt64 := (checked? (a.toNat + b.toNat)).map .ofNat

def mul? (a b : UInt64) : Option UInt64 := (checked? (a.toNat * b.toNat)).map .ofNat

def sub? (a b : UInt64) : Option UInt64 := if b ≤ a then some (a - b) else none

/-- `a` shifted up by `n` bits, which must be fewer than a word has. -/
def shl? (a : UInt64) (n : UInt8) : Option UInt64 :=
  if n < 64 then some (a <<< n.toUInt64) else none

theorem toNat_ofNat {n : Nat} (h : n ≤ wordMax) : (UInt64.ofNat n).toNat = n :=
  UInt64.toNat_ofNat_of_lt' (Nat.lt_succ_of_le h)

theorem exists_toNat_eq {n : Nat} (h : n ≤ wordMax) : ∃ w : UInt64, w.toNat = n :=
  ⟨.ofNat n, toNat_ofNat h⟩

@[simp] theorem toNat_satAdd (a b : UInt64) : (satAdd a b).toNat = saturate (a.toNat + b.toNat) :=
  toNat_ofNat (saturate_le_wordMax _)

@[simp] theorem toNat_satMul (a b : UInt64) : (satMul a b).toNat = saturate (a.toNat * b.toNat) :=
  toNat_ofNat (saturate_le_wordMax _)

theorem map_ofNat_checked? {n : Nat} {w : UInt64} :
    (checked? n).map UInt64.ofNat = some w ↔ w.toNat = n := by
  rw [Option.map_eq_some_iff]
  constructor
  · rintro ⟨m, hm, rfl⟩
    obtain ⟨hle, rfl⟩ := checked?_eq_some.1 hm
    exact toNat_ofNat hle
  · rintro rfl
    exact ⟨w.toNat, checked?_eq_some.2 ⟨toNat_le_wordMax w, rfl⟩, UInt64.ofNat_toNat⟩

theorem add?_eq_some {a b c : UInt64} : add? a b = some c ↔ c.toNat = a.toNat + b.toNat :=
  map_ofNat_checked?

theorem mul?_eq_some {a b c : UInt64} : mul? a b = some c ↔ c.toNat = a.toNat * b.toNat :=
  map_ofNat_checked?

end Word

open Word

namespace Layout

def lineWord : UInt64 := 128

def spanInWords (l : Layout) : UInt64 :=
  satAdd l.overflowOffset (satMul l.overflowLines lineWord)

def rulesInWords (l : Layout) : List (Rule LayoutError) :=
  ([("rx_base", l.rxBase), ("tx_base", l.txBase), ("overflow_offset", l.overflowOffset),
    ("worker_ctrl_offset", l.workerControl), ("core_stride", l.stride)].map
      fun (field, offset) => ⟨offset % lineWord = 0, .misaligned field offset.toNat⟩) ++
  ([("overflow_offset", l.overflowOffset, 2 * lineWord),
    ("tx_base", l.txBase, satAdd l.rxBase l.spanInWords),
    ("worker_ctrl_offset", l.workerControl, satAdd l.txBase l.spanInWords),
    ("core_stride", l.stride, satAdd l.workerControl lineWord)].map
      fun (field, offset, min) => ⟨min ≤ offset, .overlap field offset.toNat min.toNat⟩)

def checkInWords (l : Layout) : Except LayoutError Unit := Rule.check l.rulesInWords

def regionSizeInWords? (l : Layout) (cores : UInt64) : Option UInt64 :=
  if cores = 0 then some 0
  else do
    let last ← mul? l.stride (cores - 1)
    add? last (← add? l.workerControl lineWord)

end Layout

namespace Field

def maxWord? (g : Field) : Option UInt64 := do
  if 64 ≤ g.width then return .ofNat wordMax
  sub? (← shl? 1 g.width) 1

end Field

/-- The bits of `size` bytes from `offset`. -/
def HeaderPart.ofWindow? (name : String) (offset size : UInt64) : Option HeaderPart := do
  let start ← mul? offset 8
  let stop ← mul? (← add? offset size) 8
  return ⟨name, start.toNat, stop.toNat⟩

namespace Format

def windowRuleInWords (name : String) (offset size : UInt64) : Rule FormatError :=
  ⟨satAdd offset size ≤ 64, .outOfHeader name⟩

/-- The rules on single parts. -/
def partRules (f : Format) : List (Rule FormatError) :=
  ⟨f.valid = ⟨0, 1⟩, .validNotBitZero f.valid⟩ ::
  -- the end of a field is the sum of a 16-bit and an 8-bit number, so always a word
  ([("len", f.len), ("ty", f.ty), ("hdr_ty", f.hdrTy), ("func_ptr", f.funcPtr),
    ("xid", f.xid)].flatMap fun (name, g) => fieldRules name g) ++
  [windowRuleInWords "bypass_header" f.bypassOffset f.bypassSize,
    windowRuleInWords "rpc_args" f.argsOffset (satMul f.argsWords 4)]

/-- Each of the parts `common` stays apart from those behind it and from all of `others`. -/
def commonRules (others : List HeaderPart) : (common : List HeaderPart) → List (Rule FormatError)
  | [] => []
  | p :: ps => (ps ++ others).map p.apart ++ commonRules others ps

/-- The rules on pairs of parts, given the two windows. -/
def pairRules (f : Format) (bypass args : HeaderPart) : List (Rule FormatError) :=
  commonRules [f.hdrTyPart, f.funcPtrPart, f.xidPart, bypass, args]
    [f.validPart, f.lenPart, f.tyPart] ++
  [f.hdrTyPart.apart bypass, f.funcPtrPart.apart f.xidPart, f.funcPtrPart.apart args,
    f.xidPart.apart args]

/-- Each code is positive, at most `max` and differs from those behind it. -/
def codeRules (max : UInt64) : List (String × UInt64) → List (Rule FormatError)
  | [] => []
  | (tag, code) :: rest =>
    ⟨code ≠ 0 && code ≤ max, .tagOutOfRange tag code.toNat⟩ ::
      rest.map (fun (other, c) => tagsDiffer tag code other c) ++ codeRules max rest

/-- The verdict of `check`, or none where a number on the way to it is no word. -/
def check? (f : Format) : ExceptT FormatError Option Unit := do
  Rule.check f.partRules
  let bypass ← HeaderPart.ofWindow? "bypass_header" f.bypassOffset f.bypassSize
  let args ← HeaderPart.ofWindow? "rpc_args" f.argsOffset (← mul? f.argsWords 4)
  Rule.check (f.pairRules bypass args)
  Rule.check (codeRules (← f.ty.maxWord?)
    [("bypass", f.tags.bypass), ("onc_rpc_call", f.tags.call), ("onc_rpc_reply", f.tags.reply)])
  Rule.check (codeRules (← f.hdrTy.maxWord?)
    [("hdr_ethernet", f.tags.ethernet), ("hdr_ip", f.tags.ip), ("hdr_udp", f.tags.udp)])

end Format
end LineExchange
