import Gelpp.Image
import Gelpp.Elf.Load
import Gelpp.Elf.Stack

namespace Gelpp

def ImageSegment.defaultName (flags : UInt32) : String :=
  if flags &&& EXECUTABLE != 0 then "code"
  else if flags &&& WRITABLE != 0 then "data"
  else if flags &&& CONTENT != 0 then "rodata"
  else "unknown"

def ImageSegment.ofBuffer (buf : List UInt8) (addr : UInt64) (flags : UInt32) (name : String) :
    ImageSegment where
  name := if name = "" then defaultName flags else name
  base := addr
  buf := buf
  flags := flags

namespace Elf

open FileM Effect

def pfX : Nat := 1
def pfW : Nat := 2
def pfR : Nat := 4

def Phdr.isExecutable (p : Phdr) : Bool := p.flags &&& pfX != 0
def Phdr.isWritable (p : Phdr) : Bool := p.flags &&& pfW != 0
def Phdr.isReadable (p : Phdr) : Bool := p.flags &&& pfR != 0

def FileM.header (i : Nat) : FileM Phdr := do
  let f ← get
  let h ← at_ f.phs i
  lift (f.phdr h.ptr)

def Phdr.name (p : Phdr) : String :=
  if p.isExecutable then "code" else if p.isWritable then "data" else "rodata"

def Segment.ops (s : Segment) : SegmentOps File where
  name := do return (← header s.head).name
  loadAddress := do return .ofNat (← header s.head).paddr
  size := do return (← header s.head).memsz
  isExecutable := do return (← header s.head).isExecutable
  isWritable := do return (← header s.head).isWritable
  hasContent := pure true
  buffer := do return some (← content s.head)

def fileOps : FileOps File where
  count := count
  segment i := do return (← segment i).ops

-- The parameters as the builder gets them, with the answer of abi(). No class of the library
-- answers unix_abi.
structure BuildParameter where
  params : UnixParameter
  abi : String := "gen"

def unixAbi : String := "unix"

namespace UnixBuilder

-- _uparams is UnixParameter::null when the parameters are not for Unix.
def unixParams (p : BuildParameter) : UnixParameter := if p.abi = unixAbi then p.params else {}

def loadFlags (h : Phdr) : UInt32 :=
  let f : UInt32 := 0
  let f := if h.isExecutable then f ||| ImageSegment.EXECUTABLE else f
  let f := if h.isWritable then f ||| ImageSegment.WRITABLE else f
  let f := if h.isReadable then f ||| ImageSegment.READABLE else f
  if h.filesz ≠ 0 then f ||| ImageSegment.CONTENT else f

-- PT_DYNAMIC is recorded for the link, which is not made; an unknown type is only reported.
def loadHeader (base : UInt64) (x : Gelpp.Image × UInt64) (i : Nat) : FileM (Gelpp.Image × UInt64) := do
  let h ← header i
  if h.type = ptLoad then do
    let buf ← content i
    let addr := base + .ofNat h.vaddr
    let s := ImageSegment.ofBuffer buf addr (loadFlags h) ""
    return (x.1.add s, max x.2 (addr + .ofNat h.memsz))
  else return x

-- Unit::load. The base has 32 bits, and so has the top that is returned.
def load (base : UInt32) (im : Gelpp.Image) : FileM (Gelpp.Image × UInt32) := do
  let phs ← programHeaders
  let x ← (List.range phs.length).foldlM (loadHeader base.toUInt64) (im, base.toUInt64)
  return (x.1, x.2.toUInt32)

def stackSegment (s : Stack) : ImageSegment :=
  .ofBuffer s.buf.bytes s.addr (ImageSegment.WRITABLE ||| ImageSegment.TO_FREE) "stack"

-- The program is the only unit: where the next one would start is not used.
def build (p : BuildParameter) : FileM Gelpp.Image := do
  let (im, _) ← load 0 {}
  let f ← get
  match ← lift (buildStack f p.params.toParameter (unixParams p)) with
  | some s => return im.add (stackSegment s)
  | none => return im

end UnixBuilder

end Elf

end Gelpp
