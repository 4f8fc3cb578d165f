import Mathlib

namespace LineMachine

structure Header where
  minimumInstructionLength : Nat
  maximumOperations : Nat
  lineBase : Int
  lineRange : Nat
  opcodeBase : Nat

inductive Op where
  | special (opcode : Nat)
  | copy
  | advancePc (advance : Nat)
  | advanceLine (advance : Int)
  | setFile (file : Nat)
  | setColumn (column : Nat)
  | negateStmt
  | setBasicBlock
  | constAddPc
  | fixedAdvancePc (advance : Nat)
  | setPrologueEnd
  | setEpilogueBegin
  | setIsa (isa : Nat)
  | endSequence
  | setAddress (address : Nat)
  | defineFile
  | setDiscriminator (discriminator : Nat)
  deriving DecidableEq, Repr

structure Place where
  address : Nat
  opIndex : Nat
  file : Nat
  line : Int
  column : Nat
  deriving DecidableEq, Repr

structure Attributes where
  isStmt : Bool
  basicBlock : Bool := false
  prologueEnd : Bool := false
  epilogueBegin : Bool := false
  isa : Nat := 0
  discriminator : Nat := 0
  deriving DecidableEq, Repr

structure State where
  place : Place
  attributes : Attributes

namespace Op

def emits : Op → Bool
  | special _ => true
  | copy => true
  | endSequence => true
  | _ => false

end Op

section
variable (h : Header)

def Place.advance (p : Place) (n : Nat) : Place :=
  { p with
    address := p.address + h.minimumInstructionLength * ((p.opIndex + n) / h.maximumOperations)
    opIndex := (p.opIndex + n) % h.maximumOperations }

def Place.step (p : Place) : Op → Place
  | .special opcode =>
    let k := opcode - h.opcodeBase
    Place.advance h { p with line := p.line + h.lineBase + (k % h.lineRange : Nat) } (k / h.lineRange)
  | .advancePc n => p.advance h n
  | .advanceLine n => { p with line := p.line + n }
  | .setFile n => { p with file := n }
  | .setColumn n => { p with column := n }
  | .constAddPc => p.advance h ((255 - h.opcodeBase) / h.lineRange)
  | .fixedAdvancePc n => { p with address := p.address + n, opIndex := 0 }
  | .setAddress n => { p with address := n, opIndex := 0 }
  | _ => p

def Attributes.cleared (a : Attributes) : Attributes :=
  { a with basicBlock := false, prologueEnd := false, epilogueBegin := false, discriminator := 0 }

def Attributes.step (a : Attributes) : Op → Attributes
  | .negateStmt => { a with isStmt := !a.isStmt }
  | .setBasicBlock => { a with basicBlock := true }
  | .setPrologueEnd => { a with prologueEnd := true }
  | .setEpilogueBegin => { a with epilogueBegin := true }
  | .setIsa n => { a with isa := n }
  | .setDiscriminator n => { a with discriminator := n }
  | op => if op.emits then a.cleared else a

def State.step (s : State) (op : Op) : State where
  place := s.place.step h op
  attributes := s.attributes.step op

def State.row (s : State) (op : Op) : List State :=
  if op.emits then [{ place := s.place.step h op, attributes := s.attributes }] else []

def rows (s : State) : List Op → List State
  | [] => []
  | op :: ops => s.row h op ++ rows (s.step h op) ops

end

def attributeRows (a : Attributes) : List Op → List Attributes
  | [] => []
  | op :: ops => (if op.emits then [a] else []) ++ attributeRows (a.step op) ops

def placeRows (h : Header) (p : Place) : List Op → List Place
  | [] => []
  | op :: ops => (if op.emits then [p.step h op] else []) ++ placeRows h (p.step h op) ops

theorem rows_attributes (h : Header) (s : State) (ops : List Op) :
    (rows h s ops).map State.attributes = attributeRows s.attributes ops := by
  induction ops generalizing s with
  | nil => rfl
  | cons op ops ih =>
    rw [rows, attributeRows, List.map_append, ih, State.row]
    split <;> rfl

theorem rows_place (h : Header) (s : State) (ops : List Op) :
    (rows h s ops).map State.place = placeRows h s.place ops := by
  induction ops generalizing s with
  | nil => rfl
  | cons op ops ih =>
    rw [rows, placeRows, List.map_append, ih, State.row]
    split <;> rfl

end LineMachine
