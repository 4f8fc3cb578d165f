import Gelpp.Writer
import Gelpp.Elf.Content

namespace Gelpp.Elf

structure Auxiliary where
  type : UInt32
  val : UInt32
  deriving DecidableEq, Repr

-- The strings are without their NUL.
structure Parameter where
  arg : List (List UInt8) := []
  env : List (List UInt8) := []
  stackAlloc : Bool := true
  stackAt : Bool := false
  stackAddr : UInt64 := 0
  stackSize : UInt64 := 4096

structure UnixParameter extends Parameter where
  auxv : List Auxiliary := []

structure Stack where
  sp : UInt64
  addr : UInt64
  buf : Buffer

structure StackSizes where
  argA : Nat
  envA : Nat
  argS : Nat
  envS : Nat
  isize : Nat

-- A count or a length to which an int is added.
def asInt (n : Nat) : Res Nat := if n < 2 ^ 31 then .ok n else .error (.fault .overflow)

def addLength (s : Nat) (text : List UInt8) : Res Nat := do
  return s + (← asInt (text.length + 1))

def stackSizes (params : Parameter) (uparams : UnixParameter) : Res StackSizes := do
  let argA := 3 * 4
  let envA := argA + (← asInt (params.arg.length + 1)) * 4
  let auxA := envA + (← asInt (params.env.length + 1)) * 4
  let argS := auxA + (← asInt (uparams.auxv.length * 2 + 1)) * 4
  let envS ← params.arg.foldlM addLength argS
  let s ← params.env.foldlM addLength envS
  return { argA, envA, argS, envS, isize := (s + 3) / 4 * 4 }

def writePointer (x : Cursor × UInt32) (text : List UInt8) : Cursor × UInt32 :=
  (x.1.writeU32 x.2, x.2 + .ofNat (text.length + 1))

def writeAuxiliary (c : Cursor) (a : Auxiliary) : Cursor := (c.writeU32 a.type).writeU32 a.val

def fillStack (params : Parameter) (uparams : UnixParameter) (z : StackSizes) (sp : UInt64)
    (c : Cursor) : Cursor :=
  let c := c.writeU32 (.ofNat params.arg.length)
  let c := c.writeU32 (sp + .ofNat z.argA).toUInt32
  let c := c.writeU32 (sp + .ofNat z.envA).toUInt32
  let c := (params.arg.foldl writePointer (c, (sp + .ofNat z.argS).toUInt32)).1
  let c := c.writeU32 0
  let c := (params.env.foldl writePointer (c, (sp + .ofNat z.envS).toUInt32)).1
  let c := c.writeU32 0
  let c := uparams.auxv.foldl writeAuxiliary c
  let c := c.writeU32 0
  let c := params.arg.foldl (fun c text => c.writeCString text) c
  params.env.foldl (fun c text => c.writeCString text) c

def stackTop (params : Parameter) : UInt64 := if params.stackAt then params.stackAddr else 0x80000000

def buildStack (prog : File) (params : Parameter) (uparams : UnixParameter) :
    Res (Option Stack) := do
  if uparams.stackAlloc then
    let z ← stackSizes params uparams
    let size := params.stackSize
    if size.toNat < z.isize then .error (.exception "stack size too small")
    else
      let addr := stackTop params - size
      let sp := addr + size - .ofNat z.isize
      if h : size.toNat < 2 ^ 63 then
        let buf : Buffer := {
          decoder := prog.decoder, bytes := fresh prog size.toNat, size_lt := by rwa [fresh_length] }
        let c := Cursor.start buf
        let c := (← c.skip (size.toNat - z.isize)).getD c
        return some { sp, addr, buf := (fillStack params uparams z sp c).buf }
      else .error .badAlloc
  else return none

end Gelpp.Elf
