import Gelpp.Cursor

namespace Gelpp.Dwarf

abbrev Path := List UInt8

-- A File pointer is an index into `DebugLine.files`, a CompilationUnit pointer one into
-- `DebugLine.units`, where the unit being read will stand.
structure File where
  path : Path
  date : UInt64
  size : UInt64
  units : List Nat
  deriving DecidableEq, Repr

structure LineNumber where
  addr : UInt64
  file : Nat
  line : Int32
  col : Int32
  flags : UInt32
  isa : UInt8
  disc : UInt8
  opi : UInt8
  deriving DecidableEq

def isStmt : UInt8 := 1
def basicBlock : UInt8 := 2
def prologueEnd : UInt8 := 4
def epilogueBegin : UInt8 := 8

structure CompilationUnit where
  files : List Nat := []
  lines : List LineNumber := []
  deriving DecidableEq

structure DebugLine where
  files : List File := []
  units : List CompilationUnit := []
  is64 : Bool := false
  strSect : Cursor
  lineStrSect : Cursor

structure StateMachine where
  version : UInt16 := 0
  address : UInt64 := 0
  opIndex : UInt32 := 0
  file : UInt32 := 1
  line : UInt32 := 1
  column : UInt32 := 0
  isa : UInt32 := 0
  discriminator : UInt32 := 0
  endSequence : Bool := false
  flags : UInt8 := 0
  lineBase : Int8 := 0
  lineRange : UInt8 := 0
  opcodeBase : UInt8 := 0
  standardOpcodeLengths : List UInt8 := []
  minimumInstructionLength : UInt8 := 0
  maximumOperationsPerInstruction : UInt8 := 0
  addressSize : UInt8 := 0
  segmentSelectorSize : UInt8 := 0
  includeDirectories : List CString := [.text [46]]
  deriving DecidableEq

namespace StateMachine

def set (sm : StateMachine) (m : UInt8) : StateMachine := { sm with flags := sm.flags ||| m }

def clear (sm : StateMachine) (m : UInt8) : StateMachine := { sm with flags := sm.flags &&& ~~~m }

def bit (sm : StateMachine) (m : UInt8) : Bool := sm.flags &&& m != 0

end StateMachine

structure Reader where
  c : Cursor
  sm : StateMachine
  cu : CompilationUnit
  dl : DebugLine

def raise {α : Type} (message : String) : Res α := .error (.exception message)

def errorIf {α : Type} (x : Option α) : Res α :=
  match x with
  | some a => .ok a
  | none => raise "debug line error"

-- Vector::operator[] takes an int and asserts that it is in range.
def vectorAt {α : Type} (l : List α) (i : Int) : Res α :=
  if 0 ≤ i then
    match l[i.toNat]? with
    | some a => .ok a
    | none => .error (.fault .index)
  else .error (.fault .index)

def textOf (s : CString) : Res (List UInt8) :=
  match s with
  | .text chars => .ok chars
  | .wild => .error (.fault .bounds)

namespace Reader

-- c.read(sm.x) with its result ignored: a failed read leaves the register as it was.
def keep {α : Type} (read : Cursor → Res (Option (α × Cursor)))
    (put : α → StateMachine → StateMachine) (s : Reader) : Res Reader := do
  match ← read s.c with
  | some (v, c) => .ok { s with c, sm := put v s.sm }
  | none => .ok s

def moveTo (s : Reader) (o : Nat) : Res Reader := do
  match ← s.c.move o with
  | some c => .ok { s with c }
  | none => .ok s

-- files().get(p), the new File when there is none, and cu->add(f) with its back link.
def intern (s : Reader) (path : Path) (date size : UInt64) : Reader :=
  let f := s.dl.files.findIdx (·.path == path)
  let files := if f < s.dl.files.length then s.dl.files
    else s.dl.files ++ [{ path, date, size, units := [] }]
  let linked := files.modify f (fun x => { x with units := s.dl.units.length :: x.units })
  { s with cu.files := s.cu.files ++ [f], dl.files := linked }

end Reader

end Gelpp.Dwarf
