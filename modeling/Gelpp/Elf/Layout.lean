import Gelpp.Elf.Endian

namespace Gelpp.Elf

structure Slot where
  off : Nat
  width : Nat
  deriving DecidableEq, Repr

structure EhdrLayout where
  size : Nat
  phoff : Slot
  shoff : Slot
  phentsize : Slot
  phnum : Slot
  shentsize : Slot
  shnum : Slot
  shstrndx : Slot

structure PhdrLayout where
  size : Nat
  type : Slot
  flags : Slot
  offset : Slot
  vaddr : Slot
  paddr : Slot
  filesz : Slot
  memsz : Slot
  align : Slot

structure ShdrLayout where
  size : Nat
  name : Slot
  type : Slot
  flags : Slot
  addr : Slot
  offset : Slot
  bytes : Slot
  link : Slot
  info : Slot
  addralign : Slot
  entsize : Slot

structure SymLayout where
  size : Nat
  name : Slot
  value : Slot
  bytes : Slot
  info : Slot
  shndx : Slot

structure DynLayout where
  size : Nat
  tag : Slot
  val : Slot

structure Layout where
  eiClass : UInt8
  ehdr : EhdrLayout
  phdr : PhdrLayout
  shdr : ShdrLayout
  sym : SymLayout
  dyn : DynLayout

def elf32 : Layout where
  eiClass := 1
  ehdr := {
    size := 52, phoff := ⟨28, 4⟩, shoff := ⟨32, 4⟩, phentsize := ⟨42, 2⟩, phnum := ⟨44, 2⟩
    shentsize := ⟨46, 2⟩, shnum := ⟨48, 2⟩, shstrndx := ⟨50, 2⟩ }
  phdr := {
    size := 32, type := ⟨0, 4⟩, offset := ⟨4, 4⟩, vaddr := ⟨8, 4⟩, paddr := ⟨12, 4⟩
    filesz := ⟨16, 4⟩, memsz := ⟨20, 4⟩, flags := ⟨24, 4⟩, align := ⟨28, 4⟩ }
  shdr := {
    size := 40, name := ⟨0, 4⟩, type := ⟨4, 4⟩, flags := ⟨8, 4⟩, addr := ⟨12, 4⟩
    offset := ⟨16, 4⟩, bytes := ⟨20, 4⟩, link := ⟨24, 4⟩, info := ⟨28, 4⟩
    addralign := ⟨32, 4⟩, entsize := ⟨36, 4⟩ }
  sym := {
    size := 16, name := ⟨0, 4⟩, value := ⟨4, 4⟩, bytes := ⟨8, 4⟩, info := ⟨12, 1⟩
    shndx := ⟨14, 2⟩ }
  dyn := { size := 8, tag := ⟨0, 4⟩, val := ⟨4, 4⟩ }

def elf64 : Layout where
  eiClass := 2
  ehdr := {
    size := 64, phoff := ⟨32, 8⟩, shoff := ⟨40, 8⟩, phentsize := ⟨54, 2⟩, phnum := ⟨56, 2⟩
    shentsize := ⟨58, 2⟩, shnum := ⟨60, 2⟩, shstrndx := ⟨62, 2⟩ }
  phdr := {
    size := 56, type := ⟨0, 4⟩, flags := ⟨4, 4⟩, offset := ⟨8, 8⟩, vaddr := ⟨16, 8⟩
    paddr := ⟨24, 8⟩, filesz := ⟨32, 8⟩, memsz := ⟨40, 8⟩, align := ⟨48, 8⟩ }
  shdr := {
    size := 64, name := ⟨0, 4⟩, type := ⟨4, 4⟩, flags := ⟨8, 8⟩, addr := ⟨16, 8⟩
    offset := ⟨24, 8⟩, bytes := ⟨32, 8⟩, link := ⟨40, 4⟩, info := ⟨44, 4⟩
    addralign := ⟨48, 8⟩, entsize := ⟨56, 8⟩ }
  sym := {
    size := 24, name := ⟨0, 4⟩, info := ⟨4, 1⟩, shndx := ⟨6, 2⟩, value := ⟨8, 8⟩
    bytes := ⟨16, 8⟩ }
  dyn := { size := 16, tag := ⟨0, 8⟩, val := ⟨8, 8⟩ }

def fixWidth (eiData : UInt8) (width v : Nat) : Nat :=
  if width = 2 then (fix16 eiData (.ofNat v)).toNat
  else if width = 4 then (fix32 eiData (.ofNat v)).toNat
  else if width = 8 then (fix64 eiData (.ofNat v)).toNat
  else v

def cell (mem : List UInt8) (off width : Nat) : List UInt8 := (mem.drop off).take width

def loadAt (host : ByteOrder) (mem : List UInt8) (base : Nat) (s : Slot) : Res Nat :=
  if base + s.off + s.width ≤ mem.length then .ok (host.value (cell mem (base + s.off) s.width))
  else .error (.fault .bounds)

def storeAt (host : ByteOrder) (mem : List UInt8) (base : Nat) (s : Slot) (v : Nat) : List UInt8 :=
  mem.take (base + s.off) ++ host.bytes s.width v ++ mem.drop (base + s.off + s.width)

def fixAt (host : ByteOrder) (eiData : UInt8) (base : Nat) (mem : List UInt8) (s : Slot) :
    Res (List UInt8) := do
  let v ← loadAt host mem base s
  return storeAt host mem base s (fixWidth eiData s.width v)

-- The slots stand in the order in which the source fixes them.
def PhdrLayout.fixes (l : PhdrLayout) : List Slot :=
  [l.align, l.filesz, l.flags, l.memsz, l.offset, l.paddr, l.type, l.vaddr]

def ShdrLayout.fixes (l : ShdrLayout) : List Slot :=
  [l.addr, l.addralign, l.entsize, l.flags, l.info, l.link, l.name, l.offset, l.bytes, l.type]

def SymLayout.fixes (l : SymLayout) : List Slot := [l.name, l.value, l.bytes, l.shndx]

def fixTable (host : ByteOrder) (eiData : UInt8) (slots : List Slot) (entsize count : Nat)
    (mem : List UInt8) : Res (List UInt8) :=
  (List.range count).foldlM
    (fun mem i => slots.foldlM (fixAt host eiData (i * entsize)) mem) mem

end Gelpp.Elf
