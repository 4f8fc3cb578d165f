import Gelpp.Dwarf.Program

namespace Gelpp.Dwarf

structure Scan where
  c : Cursor
  dl : DebugLine

section
variable (join : Path → Path → Path)

def addUnit (s : Reader) : DebugLine := { s.dl with units := s.dl.units ++ [s.cu] }

def openUnit (s : Scan) : Res (Reader × Nat) := do
  let (unitLength, is64, c) ← readUnitLength s.c
  let endOffset := (c.off + unitLength.toNat) % 2 ^ 64
  return ({ c, sm := {}, cu := {}, dl := { s.dl with is64 } }, endOffset)

def runProgram (fuel endOffset : Nat) (s : Reader) : Res Reader :=
  if s.c.off < endOffset then runSM join fuel endOffset s else .ok s

def closeUnit (endOffset : Nat) (s : Reader) : Res Scan := do
  match ← s.c.move endOffset with
  | some c => return { c, dl := addUnit s }
  | none => return { c := s.c, dl := addUnit s }

def readCU (fuel : Nat) (s : Scan) : Res Scan := do
  let (h, endOffset) ← openUnit s
  let r ← readHeader join h
  let r ← runProgram join fuel endOffset r
  closeUnit endOffset r

def scanning (s : Scan) : Bool := !s.c.ended

def readAll (fuel : Nat) (s : Scan) : Res Scan :=
  Loop.run .steps scanning (readCU join fuel) fuel s

def nullDecoder : Decoder where
  host := .little
  order := .little
  fix16 := id
  fix32 := id
  fix64 := id
  fix16_load bs h := by
    have := ByteOrder.value_lt .little bs
    simp_all [Nat.mod_eq_of_lt]
  fix32_load bs h := by
    have := ByteOrder.value_lt .little bs
    simp_all [Nat.mod_eq_of_lt]
  fix64_load bs h := by
    have := ByteOrder.value_lt .little bs
    simp_all [Nat.mod_eq_of_lt]

def nullCursor : Cursor := .start { decoder := nullDecoder, bytes := [], size_lt := by simp }

def Scan.start (buf : Buffer) (strSect lineStrSect : Cursor) : Scan where
  c := .start buf
  dl := { strSect, lineStrSect }

-- The constructor from an ELF file; the one from a buffer leaves both string sections null.
def debugLine (fuel : Nat) (buf : Buffer) (strSect lineStrSect : Cursor) : Res DebugLine := do
  let s ← readAll join fuel (.start buf strSect lineStrSect)
  return s.dl

def debugLineOfBuffer (fuel : Nat) (buf : Buffer) : Res DebugLine :=
  debugLine join fuel buf nullCursor nullCursor

end

end Gelpp.Dwarf
