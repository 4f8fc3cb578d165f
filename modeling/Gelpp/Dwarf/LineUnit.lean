import Gelpp.Dwarf.Sequence
import Gelpp.Dwarf.Tables4

namespace Gelpp.Dwarf

open LineMachine (Op Place Attributes State)
open Reader (Plain Outside)

structure LineUnit where
  is64 : Bool
  version : UInt16
  minimumInstructionLength : UInt8
  maximumOperations : UInt8
  defaultIsStmt : UInt8
  lineBase : Int8
  lineRange : UInt8
  opcodeLengths : List UInt8
  tables : Tables4
  extra : List UInt8
  body : List Op
  more : List UInt8
  version_lt : version < 5
  operations : version < 4 → maximumOperations = 1
  operations_pos : maximumOperations ≠ 0
  range_pos : lineRange ≠ 0
  lengths_lt : opcodeLengths.length < 255
  unended : .endSequence ∉ body
  regular : Regular tables.files.length
    { minimumInstructionLength := minimumInstructionLength.toNat
      maximumOperations := maximumOperations.toNat
      lineBase := lineBase.toInt
      lineRange := lineRange.toNat
      opcodeBase := opcodeLengths.length + 1 }
    { address := 0, opIndex := 0, file := 1, line := 1, column := 0 } (body ++ [.endSequence])

def lengthBytes (order : ByteOrder) (is64 : Bool) (n : Nat) : List UInt8 :=
  if is64 then order.bytes 4 0xffffffff ++ order.bytes 8 n else order.bytes 4 n

-- The lengths from 0xffffff00 on are kept for the formats.
def LengthFits (is64 : Bool) (n : Nat) : Prop := is64 = false → n < 0xffffff00

namespace LineUnit

variable (u : LineUnit)

def opcodeBase : Nat := u.opcodeLengths.length + 1

def header : LineMachine.Header where
  minimumInstructionLength := u.minimumInstructionLength.toNat
  maximumOperations := u.maximumOperations.toNat
  lineBase := u.lineBase.toInt
  lineRange := u.lineRange.toNat
  opcodeBase := u.opcodeBase

def start : State where
  place := { address := 0, opIndex := 0, file := 1, line := 1, column := 0 }
  attributes := { isStmt := u.defaultIsStmt != 0 }

def sequence : List Op := u.body ++ [.endSequence]

def rows : List State := flaggedFrom false (LineMachine.rows u.header u.start u.sequence)

def fields : List UInt8 :=
  u.minimumInstructionLength :: ((if 4 ≤ u.version then [u.maximumOperations] else []) ++
    u.defaultIsStmt :: u.lineBase.toUInt8 :: u.lineRange :: .ofNat u.opcodeBase :: u.opcodeLengths)

def headerBytes (fileBytes : List UInt8) : List UInt8 :=
  u.fields ++ (u.tables.dirBytes ++ (fileBytes ++ u.extra))

def content (order : ByteOrder) (fileBytes program : List UInt8) : List UInt8 :=
  order.bytes 2 u.version.toNat ++
    (order.bytes (offsetSize u.is64) (u.headerBytes fileBytes).length ++
      (u.headerBytes fileBytes ++ (program ++ u.more)))

def Encodes (order : ByteOrder) (bs : List UInt8) : Prop :=
  ∃ fileBytes program, u.tables.EncodesFiles fileBytes ∧
    Concat (Written order u.is64 u.opcodeBase) u.sequence program ∧
    LengthFits u.is64 (u.content order fileBytes program).length ∧
    bs = lengthBytes order u.is64 (u.content order fileBytes program).length ++
      u.content order fileBytes program

def calls (join : Path → Path → Path) : List Call := u.tables.files.map (u.tables.call join)

end LineUnit

section
variable {c : Cursor} {is64 : Bool} {n : Nat} {tail : List UInt8}

end

section
variable {s : Reader} {b : UInt8} {tail : List UInt8}

end

namespace LineUnit

variable {u : LineUnit} {s : Reader} {fileBytes tail : List UInt8}

def machine (u : LineUnit) (sm : StateMachine) : StateMachine :=
  { sm with
    minimumInstructionLength := u.minimumInstructionLength
    maximumOperationsPerInstruction := u.maximumOperations
    flags := stmtFlags u.defaultIsStmt sm.flags
    lineBase := u.lineBase
    lineRange := u.lineRange
    opcodeBase := .ofNat u.opcodeBase }

variable (join : Path → Path → Path)

end LineUnit

end Gelpp.Dwarf
