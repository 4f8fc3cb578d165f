import Gelpp.Elf.Layout
import Gelpp.Library.Effect
import Gelpp.Library.Loop

namespace Gelpp.Elf

-- What the stream is asked for, with the position or the size that it is given.
inductive Asked where
  | moveTo (pos : UInt32)
  | read (size : UInt32)
  deriving DecidableEq, Repr

-- `fails` tells which operations on the stream fail, by their number.
structure Stream where
  bytes : List UInt8
  fails : Nat → Bool := fun _ => false
  count : Nat := 0
  asked : List Asked := []
  lastErrorMessage : String := ""

structure Ehdr where
  ident : List UInt8
  phoff : Nat
  shoff : Nat
  phentsize : Nat
  phnum : Nat
  shentsize : Nat
  shnum : Nat
  shstrndx : Nat
  deriving DecidableEq, Repr

-- `ptr` is the offset in ph_buf or sec_buf that _info points to.
structure ProgramHeader where
  ptr : Nat
  buf : Option (List UInt8) := none
  deriving DecidableEq, Repr

structure Section where
  ptr : Nat
  buf : Option (List UInt8) := none
  deriving DecidableEq, Repr

-- `mem` is the number of the recorded buffer that _info points into.
structure Symbol where
  mem : Nat
  ptr : Nat
  deriving DecidableEq, Repr

structure SymbolTable where
  mems : List (List UInt8) := []
  map : List (List UInt8 × Symbol) := []
  deriving DecidableEq, Repr

-- HashMap::put replaces the value of an existing key.
def SymbolTable.put (t : SymbolTable) (name : List UInt8) (s : Symbol) : SymbolTable :=
  { t with map := (name, s) :: t.map.filter (fun p => p.1 != name) }

structure Segment where
  head : Nat
  deriving DecidableEq, Repr

structure File where
  layout : Layout
  host : ByteOrder
  path : String
  stream : Stream
  junk : Nat → UInt8
  h : Ehdr
  phLoaded : Bool := false
  phBuf : Option (List UInt8) := none
  phs : List ProgramHeader := []
  sectsLoaded : Bool := false
  secBuf : List UInt8 := []
  sects : List Section := []
  syms : Option SymbolTable := none
  segs : List Segment := []
  segsInit : Bool := false

namespace File

def eiData (f : File) : UInt8 := f.h.ident.getD 5 0

def decoder (f : File) : Decoder := Elf.decoder f.host f.eiData

end File

structure Phdr where
  type : Nat
  flags : Nat
  offset : Nat
  vaddr : Nat
  paddr : Nat
  filesz : Nat
  memsz : Nat
  align : Nat
  deriving DecidableEq, Repr

def readPhdr (host : ByteOrder) (l : PhdrLayout) (mem : List UInt8) (ptr : Nat) : Res Phdr := do
  let type ← loadAt host mem ptr l.type
  let flags ← loadAt host mem ptr l.flags
  let offset ← loadAt host mem ptr l.offset
  let vaddr ← loadAt host mem ptr l.vaddr
  let paddr ← loadAt host mem ptr l.paddr
  let filesz ← loadAt host mem ptr l.filesz
  let memsz ← loadAt host mem ptr l.memsz
  let align ← loadAt host mem ptr l.align
  return { type, flags, offset, vaddr, paddr, filesz, memsz, align }

def File.phdr (f : File) (ptr : Nat) : Res Phdr :=
  readPhdr f.host f.layout.phdr (f.phBuf.getD []) ptr

abbrev FileM (α : Type) := Effect Stop File α

namespace FileM

open Effect

def throw {α : Type} (message : String) : FileM α := raise (.exception message)

def fault {α : Type} (kind : Fault) : FileM α := raise (.fault kind)

def at_ {α : Type} (l : List α) (i : Int) : FileM α :=
  if 0 ≤ i then
    match l[i.toNat]? with
    | some a => pure a
    | none => fault .index
  else fault .index

def tick (op : Asked) : FileM Bool := do
  let f ← get
  modify fun f => { f with stream.count := f.stream.count + 1, stream.asked := f.stream.asked ++ [op] }
  return f.stream.fails f.stream.count

-- new t::uint8[n]: what the memory holds is not specified.
def alloc (n : Nat) : FileM (List UInt8) := do
  let f ← get
  if n < 2 ^ 63 then return (List.range n).map f.junk else raise .badAlloc

def cannotRead (f : File) (size : Nat) : String :=
  "cannot read " ++ toString size ++ " bytes from " ++ f.path ++ ": " ++ f.stream.lastErrorMessage

def cannotMove (f : File) (pos : Nat) : String :=
  "cannot move to position " ++ toString pos ++ " in " ++ f.path ++ ": " ++
    f.stream.lastErrorMessage

-- The bytes that the stream delivers are written even when there are too few of them.
def read (pos size : UInt32) (buf : List UInt8) : FileM (List UInt8) := do
  let f ← get
  let failed ← tick (.read size)
  if failed then throw (cannotRead f size.toNat)
  else
    let data := InStream.delivered f.stream.bytes pos.toNat (toInt size.toNat)
    if buf.length < data.length then fault .bounds
    else if UInt32.ofInt (InStream.answer data) ≠ size then throw (cannotRead f size.toNat)
    else return data ++ buf.drop data.length

def readAt (pos size : Nat) (buf : List UInt8) : FileM (List UInt8) := do
  let f ← get
  let failed ← tick (.moveTo (.ofNat pos))
  if failed then throw (cannotMove f (UInt32.ofNat pos).toNat)
  else read (.ofNat pos) (.ofNat size) buf

def readInit (p : Phdr) (buf : List UInt8) : FileM (List UInt8) :=
  if p.filesz ≠ 0 then readAt p.offset p.filesz buf else pure buf

-- array::set(p, n, v) stores v in p[0..n).
def zeroFill (p : Phdr) (buf : List UInt8) : List UInt8 :=
  if p.filesz < p.memsz then
    List.replicate (p.memsz - p.filesz) 0 ++ buf.drop (p.memsz - p.filesz)
  else buf

-- Both classes have the same readBuf.
def readBuf (p : Phdr) : FileM (List UInt8) := do
  let buf ← alloc p.memsz
  let buf ← readInit p buf
  return zeroFill p buf

-- The bytes of Buffer(_file, _buf, memsz()).
def content (i : Nat) : FileM (List UInt8) := do
  let f ← get
  let h ← at_ f.phs i
  match h.buf with
  | some buf => return buf
  | none =>
    let p ← lift (f.phdr h.ptr)
    let buf ← readBuf p
    modify fun f => { f with phs := f.phs.set i { h with buf := some buf } }
    return buf

end FileM

end Gelpp.Elf
