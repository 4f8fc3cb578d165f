import Gelpp.Dwarf.Header

namespace Gelpp.Dwarf

-- minimum_instruction_length * n is made in 64 bits.
def advancePC (sm : StateMachine) (adv : UInt64) : Res StateMachine :=
  let m := sm.maximumOperationsPerInstruction
  let l := sm.minimumInstructionLength.toUInt64
  if m = 1 then .ok { sm with address := sm.address + l * adv }
  else if m = 0 then .error (.fault .division)
  else
    let n := sm.opIndex.toUInt64 + adv
    .ok { sm with
      address := sm.address + l * (n / m.toUInt64), opIndex := (n % m.toUInt64).toUInt32 }

-- The sum is made in int64, then cut to the 32 bits of the register.
def advanceLine (sm : StateMachine) (adv : Int) : Res StateMachine :=
  if sm.line.toNat + adv < 2 ^ 63 then .ok { sm with line := .ofInt (sm.line.toNat + adv) }
  else .error (.fault .overflow)

def lineNumber (sm : StateMachine) (file : Nat) : LineNumber where
  addr := sm.address
  file := file
  line := sm.line.toInt32
  col := sm.column.toInt32
  flags := sm.flags.toUInt32
  isa := sm.isa.toUInt8
  disc := sm.discriminator.toUInt8
  opi := sm.opIndex.toUInt8

def recordLine (s : Reader) : Res Reader := do
  let file ← vectorAt s.cu.files (s.sm.file - 1).toInt32.toInt
  return { s with
    cu.lines := s.cu.lines ++ [lineNumber s.sm file]
    sm := { s.sm.set (basicBlock ||| prologueEnd ||| epilogueBegin) with discriminator := 0 } }

def special (opcode : UInt8) (s : Reader) : Res Reader := do
  let k := opcode - s.sm.opcodeBase
  if s.sm.lineRange = 0 then .error (.fault .division)
  else
    let sm ← advanceLine s.sm (s.sm.lineBase.toInt + (k % s.sm.lineRange).toNat)
    let sm ← advancePC sm (k / s.sm.lineRange).toUInt64
    recordLine { s with sm }

def withU (s : Reader) (put : UInt64 → StateMachine → StateMachine) : Res Reader := do
  let (v, c) ← readLEB128U s.c
  return { s with c, sm := put v s.sm }

def standard (opcode : UInt8) (s : Reader) : Res Reader :=
  if opcode = 1 then recordLine s
  else if opcode = 2 then do
    let (adv, c) ← readLEB128U s.c
    let sm ← advancePC s.sm adv
    return { s with c, sm }
  else if opcode = 3 then do
    let (adv, c) ← readLEB128S s.c
    let sm ← advanceLine s.sm adv
    return { s with c, sm }
  else if opcode = 4 then withU s fun v sm => { sm with file := v.toUInt32 }
  else if opcode = 5 then withU s fun v sm => { sm with column := v.toUInt32 }
  else if opcode = 6 then
    if s.sm.bit isStmt then return { s with sm := s.sm.clear isStmt }
    else return { s with sm := s.sm.set isStmt }
  else if opcode = 7 then return { s with sm := s.sm.set basicBlock }
  else if opcode = 8 then
    -- The int quotient is never negative, opcode_base being a byte.
    if s.sm.lineRange = 0 then .error (.fault .division)
    else do
      let sm ← advancePC s.sm ((255 - s.sm.opcodeBase) / s.sm.lineRange).toUInt64
      return { s with sm }
  else if opcode = 9 then do
    let (o, c) ← errorIf (← s.c.readU16)
    return { s with c, sm.address := s.sm.address + o.toUInt64, sm.opIndex := 0 }
  else if opcode = 10 then return { s with sm := s.sm.set prologueEnd }
  else if opcode = 11 then return { s with sm := s.sm.set epilogueBegin }
  else if opcode = 12 then withU s fun v sm => { sm with isa := v.toUInt32 }
  else raise "invalid debug line standard opcode"

-- int offset = length; offset += c.offset(): the sum is kept on 32 bits, and a negative one is
-- huge as the offset_t that Cursor::move takes.
def extendedEnd (length : UInt64) (off : Nat) : Nat :=
  let sum := (length.toNat + off) % 2 ^ 32
  if sum < 2 ^ 31 then sum else sum + (2 ^ 64 - 2 ^ 32)

section
variable (join : Path → Path → Path)

def extendedOpcode (opcode : UInt8) (s : Reader) : Res Reader :=
  if opcode = 1 then do
    let s ← recordLine s
    return { s with sm.endSequence := true }
  else if opcode = 2 then do
    let (address, c) ← readAddress s.dl.is64 s.c
    return { s with c, sm.address := address }
  else if opcode = 3 then readFile join s
  else if opcode = 4 then withU s fun v sm => { sm with discriminator := v.toUInt32 }
  else raise "invalid debug line extended opcode"

def extended (s : Reader) : Res Reader := do
  let (length, c) ← readLEB128U s.c
  let offset := extendedEnd length c.off
  let (opcode, c) ← errorIf (← c.readU8)
  let s ← extendedOpcode join opcode { s with c }
  s.moveTo offset

def execute (opcode : UInt8) (s : Reader) : Res Reader :=
  if s.sm.opcodeBase ≤ opcode then special opcode s
  else if opcode = 0 then extended join s
  else standard opcode s

def step (endOffset : Nat) (s : Reader) : Res Reader := do
  if endOffset ≤ s.c.off then raise "endless debug line opcode program"
  else
    let (opcode, c) ← errorIf (← s.c.readU8)
    execute join opcode { s with c }

def running (s : Reader) : Bool := !s.sm.endSequence

def runSM (fuel endOffset : Nat) (s : Reader) : Res Reader :=
  Loop.run .steps running (step join endOffset) fuel s

end

end Gelpp.Dwarf
