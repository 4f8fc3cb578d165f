import Gelpp.Elf.File

namespace Gelpp.Elf

def elfMagic : List UInt8 := [0x7f, 0x45, 0x4c, 0x46]
def shtSymtab : Nat := 2
def shtDynamic : Nat := 6
def shtDynsym : Nat := 11
def ptLoad : Nat := 1

structure Shdr where
  name : Nat
  type : Nat
  flags : Nat
  addr : Nat
  offset : Nat
  size : Nat
  link : Nat
  info : Nat
  addralign : Nat
  entsize : Nat
  deriving DecidableEq, Repr

structure Sym where
  name : Nat
  value : Nat
  size : Nat
  info : Nat
  shndx : Nat
  deriving DecidableEq, Repr

def readEhdr (host : ByteOrder) (l : EhdrLayout) (mem : List UInt8) : Res Ehdr := do
  let field (s : Slot) : Res Nat := do return fixWidth (mem.getD 5 0) s.width (← loadAt host mem 0 s)
  let shnum ← field l.shnum
  let phnum ← field l.phnum
  let shentsize ← field l.shentsize
  let phentsize ← field l.phentsize
  let shstrndx ← field l.shstrndx
  let shoff ← field l.shoff
  let phoff ← field l.phoff
  return { ident := mem.take 16, phoff, shoff, phentsize, phnum, shentsize, shnum, shstrndx }

def readShdr (host : ByteOrder) (l : ShdrLayout) (mem : List UInt8) (ptr : Nat) : Res Shdr := do
  let name ← loadAt host mem ptr l.name
  let type ← loadAt host mem ptr l.type
  let flags ← loadAt host mem ptr l.flags
  let addr ← loadAt host mem ptr l.addr
  let offset ← loadAt host mem ptr l.offset
  let size ← loadAt host mem ptr l.bytes
  let link ← loadAt host mem ptr l.link
  let info ← loadAt host mem ptr l.info
  let addralign ← loadAt host mem ptr l.addralign
  let entsize ← loadAt host mem ptr l.entsize
  return { name, type, flags, addr, offset, size, link, info, addralign, entsize }

def readSym (host : ByteOrder) (l : SymLayout) (mem : List UInt8) (ptr : Nat) : Res Sym := do
  let name ← loadAt host mem ptr l.name
  let value ← loadAt host mem ptr l.value
  let size ← loadAt host mem ptr l.bytes
  let info ← loadAt host mem ptr l.info
  let shndx ← loadAt host mem ptr l.shndx
  return { name, value, size, info, shndx }

def File.blank (layout : Layout) (host : ByteOrder) (path : String) (stream : Stream)
    (junk : Nat → UInt8) : File where
  layout := layout
  host := host
  path := path
  stream := stream
  junk := junk
  h := {
    ident := [], phoff := 0, shoff := 0, phentsize := 0, phnum := 0, shentsize := 0, shnum := 0
    shstrndx := 0 }

def File.shdr (f : File) (ptr : Nat) : Res Shdr := readShdr f.host f.layout.shdr f.secBuf ptr

-- The product of two half words is made in int.
def product (m n : Nat) : Res Nat := if m * n < 2 ^ 31 then .ok (m * n) else .error (.fault .overflow)

def cstringAt (buf : List UInt8) (off : Nat) : Res (List UInt8) :=
  if off < buf.length then
    let text := (buf.drop off).takeWhile (· ≠ 0)
    if off + text.length < buf.length then .ok text else .error (.fault .bounds)
  else .error (.fault .assertion)

def garbage (name : List UInt8) : String :=
  "garbage found at end of symbol table " ++ String.ofList (name.map fun b => Char.ofNat b.toNat)

namespace FileM

open Effect

def readAll (pos size : Nat) : FileM (List UInt8) := do
  let buf ← alloc size
  readAt pos size buf

-- Both classes have the same constructor, but for the layout.
def construct : FileM Unit := do
  let f ← get
  let buf ← readAll 0 f.layout.ehdr.size
  if buf.take 4 ≠ elfMagic then throw "not an ELF file"
  else if buf.getD 4 0 ≠ f.layout.eiClass then fault .assertion
  else
    let h ← lift (readEhdr f.host f.layout.ehdr buf)
    if h.shnum ≤ h.shstrndx then throw "malformed ELF"
    else modify fun f => { f with h }

-- ph_buf is set before it is read.
def loadProgramHeaders : FileM Unit := do
  let f ← get
  match f.phBuf with
  | some _ => return ()
  | none =>
    let size ← lift (product f.h.phentsize f.h.phnum)
    let buf ← alloc size
    modify fun f => { f with phBuf := some buf }
    let buf ← readAt f.h.phoff size buf
    let buf ← lift (fixTable f.host f.eiData f.layout.phdr.fixes f.h.phentsize f.h.phnum buf)
    modify fun f => { f with
      phBuf := some buf
      phs := (List.range f.h.phnum).map fun i => { ptr := i * f.h.phentsize } }

def programHeaders : FileM (List ProgramHeader) := do
  let f ← get
  if f.phLoaded then return f.phs
  else
    loadProgramHeaders
    modify fun f => { f with phLoaded := true }
    let f ← get
    return f.phs

def loadSections : FileM Unit := do
  let f ← get
  let size ← lift (product f.h.shentsize f.h.shnum)
  let _ ← alloc size
  let buf ← readAt f.h.shoff size (.replicate size 0)
  let buf ← lift (fixTable f.host f.eiData f.layout.shdr.fixes f.h.shentsize f.h.shnum buf)
  modify fun f => { f with
    secBuf := buf
    sects := (List.range f.h.shnum).map fun i => { ptr := i * f.h.shentsize } }

def initSections : FileM Unit := do
  let f ← get
  if f.sectsLoaded then return ()
  else
    loadSections
    modify fun f => { f with sectsLoaded := true }

def sections : FileM (List Section) := do
  initSections
  let f ← get
  return f.sects

def stringIn (content : Int → FileM (List UInt8)) (offset : Nat) (sect : Int) :
    FileM (List UInt8) := do
  let sects ← sections
  if (sects.length : Int) ≤ sect then throw "strtab index out of bound"
  else
    let buf ← content sect
    lift (cstringAt buf offset)

-- The numbers of entries and garbage behind the last one.
def entries (name : FileM (List UInt8)) (s : Shdr) : FileM Nat :=
  if s.entsize = 0 then fault .division
  else if s.size / s.entsize * s.entsize ≠ s.size then do
    let name ← name
    throw (garbage name)
  else return s.size / s.entsize

def readSection (name : FileM (List UInt8)) (s : Shdr) : FileM (List UInt8) := do
  let buf ← readAll s.offset s.size
  if s.type = shtSymtab ∨ s.type = shtDynsym then
    let count ← entries name s
    let f ← get
    lift (fixTable f.host f.eiData f.layout.sym.fixes s.entsize count buf)
  else return buf

-- The name of a section needs the content of the string table. A string table that needs its own
-- name calls itself until the stream fails or the stack is full: the run stops at its first call of
-- itself.
def contentFor : Nat → Int → FileM (List UInt8)
  | 0, _ => raise .steps
  | n + 1, i => do
    let f ← get
    let s ← at_ f.sects i
    match s.buf with
    | some buf => return buf
    | none =>
      let h ← lift (f.shdr s.ptr)
      let buf ← readSection (stringIn (contentFor n) h.name f.h.shstrndx) h
      modify fun f => { f with sects := f.sects.set i.toNat { s with buf := some buf } }
      return buf

def sectionContent (i : Int) : FileM (List UInt8) := contentFor 2 i

def stringAt (offset : Nat) (sect : Int) : FileM (List UInt8) := stringIn sectionContent offset sect

def name (s : Shdr) : FileM (List UInt8) := do
  let f ← get
  stringAt s.name f.h.shstrndx

-- Symbols keep the place of their entry in the recorded buffer.
def fillSymbol (mem entsize : Nat) (str : Int) (i : Nat) : FileM Unit := do
  let f ← get
  let table := f.syms.getD {}
  let buf ← at_ table.mems mem
  let buf ← lift (f.layout.sym.fixes.foldlM (fixAt f.host f.eiData (i * entsize)) buf)
  modify fun f => { f with syms := some { table with mems := table.mems.set mem buf } }
  let sym ← lift (readSym f.host f.layout.sym buf (i * entsize))
  let name ← stringAt sym.name str
  modify fun f => { f with syms := some ((f.syms.getD {}).put name { mem, ptr := i * entsize }) }

def fillSymbolTable (s : Shdr) : FileM Unit := do
  let buf ← readAll s.offset s.size
  let f ← get
  let table := f.syms.getD {}
  modify fun f => { f with syms := some { table with mems := table.mems ++ [buf] } }
  let count ← entries (name s) s
  let str := (UInt32.ofNat s.link).toInt32.toInt
  (List.range count).forM (fillSymbol table.mems.length s.entsize str)

def fillFrom (s : Section) : FileM Unit := do
  let f ← get
  let h ← lift (f.shdr s.ptr)
  if h.type = shtSymtab ∨ h.type = shtDynsym then fillSymbolTable h else return ()

-- syms is set before the table is filled.
def symbols : FileM SymbolTable := do
  let f ← get
  match f.syms with
  | some table => return table
  | none =>
    modify fun f => { f with syms := some {} }
    let sects ← sections
    sects.forM fillFrom
    let f ← get
    return f.syms.getD {}

def addSegment (i : Nat) : FileM Unit := do
  let f ← get
  let h ← at_ f.phs i
  let p ← lift (f.phdr h.ptr)
  if p.type = ptLoad then modify fun f => { f with segs := f.segs ++ [{ head := i }] } else return ()

def initSegments : FileM Unit := do
  let f ← get
  if f.segsInit then return ()
  else
    let phs ← programHeaders
    (List.range phs.length).forM addSegment
    modify fun f => { f with segsInit := true }

def count : FileM Nat := do
  initSegments
  let f ← get
  return f.segs.length

def segment (i : Int) : FileM Segment := do
  initSegments
  let f ← get
  at_ f.segs i

end FileM

end Gelpp.Elf
