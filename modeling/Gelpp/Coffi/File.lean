import Gelpp.Coffi.Symbols
import Gelpp.Dwarf.Unit
import Gelpp.Elf.Memory

namespace Gelpp.Coffi

open Effect

structure Scn where
  cntCode : UInt32
  cntInitializedData : UInt32
  cntUninitializedData : UInt32
  memExecute : UInt32

-- What COFFI has of a section: the data is as long as it says, when there is a pointer to it.
structure SectionRecord where
  name : String
  virtualAddress : UInt32
  physicalAddress : UInt32
  alignment : UInt32
  flags : UInt32
  dataOffset : UInt32
  dataSize : UInt32
  data : Option (List UInt8)
  sized : ∀ bytes, data = some bytes → bytes.length = dataSize.toNat

structure OptionalHeader where
  entryPointAddress : UInt32
  codeBase : UInt32

-- `architecture` is none for COFFI_ARCHITECTURE_NONE, `imageBase` is in the Windows header.
structure Coff where
  architecture : Option Architecture
  imageBase : Option UInt64 := none
  optionalHeader : Option OptionalHeader := none
  sections : List SectionRecord
  symbols : List Record := []

namespace SectionRecord

variable (scn : Scn) (s : SectionRecord)

def isExecutable : Bool := s.flags &&& (scn.memExecute ||| scn.cntCode) != 0

def hasContent : Bool := s.flags &&& scn.cntUninitializedData == 0

def isSegment : Bool :=
  s.flags &&& (scn.cntCode ||| scn.cntInitializedData ||| scn.cntUninitializedData) != 0 &&
    s.dataSize != 0

def view : SegmentView where
  name := s.name
  loadAddress := s.physicalAddress.toUInt64
  size := s.dataSize.toNat
  executable := s.isExecutable scn
  writable := true
  content := s.hasContent scn
  buffer := s.data

end SectionRecord

-- LittleDecoder on a little-endian host; on another one it does not compile.
def littleDecoder : Decoder := Dwarf.nullDecoder

theorem data_lt (s : SectionRecord) : (s.data.getD []).length < 2 ^ 63 := by
  have hlt := s.dataSize.toNat_lt
  cases h : s.data with
  | none => exact Nat.two_pow_pos 63
  | some bytes =>
    rw [Option.getD_some, s.sized bytes h]
    omega

-- A null pointer with a size is not read.
def SectionRecord.buffer (s : SectionRecord) : Res Buffer :=
  if s.data.isSome ∨ s.dataSize = 0 then
    .ok { decoder := littleDecoder, bytes := s.data.getD [], size_lt := data_lt s }
  else .error (.fault .bounds)

structure CoffFile where
  coff : Coff
  base : UInt64
  sections : List SectionRecord
  segments : List SectionRecord
  symbols : File
  debug : Option Dwarf.DebugLine := none
  debugInit : Bool := false

def baseOf (path : String) (c : Coff) : Architecture → Res UInt64
  | .pe =>
    match c.imageBase with
    | some base => .ok base
    | none => .error (.exception ("No Windows header for " ++ path))
  | .ceva | .ti =>
    match c.optionalHeader with
    | some h => .ok h.codeBase.toUInt64
    | none => .ok 0

-- `load` is what COFFI makes of the path.
def construct (scn : Scn) (path : String) (load : Option Coff) : Res CoffFile :=
  match load with
  | none => .error (.exception ("cannot open " ++ path))
  | some c =>
    match c.architecture with
    | none => .error (.exception "Unknown architecture")
    | some architecture => do
      let base ← baseOf path c architecture
      return {
        coff := c
        base
        sections := c.sections
        segments := c.sections.filter (·.isSegment scn)
        symbols :=
          { reader := { architecture, sections := c.sections.map (·.flags), symbols := c.symbols } } }

abbrev CoffM (α : Type) := Effect Stop CoffFile α

def fileOps (scn : Scn) : FileOps CoffFile where
  count := do
    let f ← get
    return f.segments.length
  segment i := do
    let f ← get
    match f.segments[i]? with
    | some s => return (s.view scn).ops CoffFile
    | none => raise (.fault .index)

namespace CoffM

def entry : CoffM UInt64 := do
  let f ← get
  match f.coff.optionalHeader with
  | some h => return h.entryPointAddress.toUInt64
  | none => raise (.exception "No optional header, unsure how to proceed")

def countSections : CoffM Nat := do
  let f ← get
  return f.sections.length

def sectionAt (i : Nat) : CoffM SectionRecord := do
  let f ← get
  match f.sections[i]? with
  | some s => return s
  | none => raise (.fault .index)

def findSection (name : String) : CoffM (Option SectionRecord) := do
  let f ← get
  return f.sections.find? fun s => s.name == name

def onSymbols {α : Type} (m : FileM α) : CoffM α :=
  ⟨fun f => ((m.run f.symbols).1, { f with symbols := (m.run f.symbols).2 })⟩

def symbols (st : Styp) : CoffM SymbolTable := onSymbols (FileM.symbols st)

def make (scn : Scn) (junk : Nat → UInt8) : CoffM Gelpp.Image := SimpleBuilder.build junk (fileOps scn)

def readLines (join : Dwarf.Path → Dwarf.Path → Dwarf.Path) (fuel : Nat) : CoffM Unit := do
  match ← findSection ".debug_line" with
  | some s =>
    let buf ← lift s.buffer
    let dl ← lift (Dwarf.debugLineOfBuffer join fuel buf)
    modify fun f => { f with debug := some dl }
  | none => return ()

-- The first call is marked before the table is made.
def debugLines (join : Dwarf.Path → Dwarf.Path → Dwarf.Path) (fuel : Nat) :
    CoffM (Option Dwarf.DebugLine) := do
  let f ← get
  if f.debugInit then return f.debug
  else
    modify fun f => { f with debugInit := true }
    readLines join fuel
    let f ← get
    return f.debug

end CoffM

end Gelpp.Coffi
