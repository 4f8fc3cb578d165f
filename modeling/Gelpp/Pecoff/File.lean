import Gelpp.Pecoff.Header
import Gelpp.Image

namespace Gelpp.Pecoff

open Effect

def hex (n : Nat) : String := String.ofList (Nat.toDigits 16 n)

def escapeByte (c : UInt8) : String :=
  if 32 ≤ c ∧ c < 128 then String.singleton (Char.ofNat c.toNat)
  else if c = 0 then "\\0"
  else if c = 10 then "\\n"
  else if c = 9 then "\\t"
  else if c = 13 then "\\r"
  else "\\x" ++ hex c.toNat

def escape (buf : List UInt8) : String := String.join (buf.map escapeByte)

structure Headers where
  coffHeader : CoffHeader
  standardCoffFields : StandardCoffFields
  windowsSpecificFields : WindowsSpecificFields
  dataDirectories : List DataDirectory
  sectionTable : List SectionHeader

-- base_of_data is not in PE32+: the stream goes back over it.
def readWindowsSpecificFields (type : UInt16) : StreamM WindowsSpecificFields := do
  if type = pe32p then
    let _ ← Stream.moveBackward 4
    let mem ← readRecord WindowsSpecificFields.size
    return .decode mem
  else
    let mem ← readRecord WindowsSpecificFields32.size
    return .of32 (.decode mem)

def readCoffHeader : StreamM CoffHeader := do
  move msdosOffset
  let mem ← readRecord 4
  move (u32At mem 0).toNat
  let mem ← readRecord CoffHeader.size
  let header := CoffHeader.decode mem
  if header.signature ≠ magic then
    raise (.exception ("not a PECOFF file: magic=" ++ escape header.signature))
  else return header

def readStandardCoffFields : StreamM StandardCoffFields := do
  let mem ← readRecord StandardCoffFields.size
  let fields := StandardCoffFields.decode mem
  if fields.magic ≠ pe32 ∧ fields.magic ≠ pe32p then
    raise (.exception ("unknown PE type " ++ hex fields.magic.toNat))
  else return fields

def readHeaders (junk : Nat → UInt8) : StreamM Headers := do
  let coffHeader ← readCoffHeader
  let standardCoffFields ← readStandardCoffFields
  let windowsSpecificFields ← readWindowsSpecificFields standardCoffFields.magic
  let dataDirectories ← readRecords junk DataDirectory.decode DataDirectory.bytes
    windowsSpecificFields.numberOfRvaAndSizes.toNat
  let sectionTable ← readRecords junk SectionHeader.decode SectionHeader.bytes
    coffHeader.numberOfSections.toNat
  return { coffHeader, standardCoffFields, windowsSpecificFields, dataDirectories, sectionTable }

-- An empty name has not been looked for.
structure Section where
  hd : SectionHeader
  name : List UInt8 := []
  buf : Option (List UInt8) := none
  deriving DecidableEq, Repr

namespace Section

def baseAddress (s : Section) : UInt64 := s.hd.virtualAddress.toUInt64
def loadAddress (s : Section) : UInt64 := s.hd.virtualAddress.toUInt64
def size (s : Section) : UInt64 := s.hd.virtualSize.toUInt64

end Section

-- `junk` is what new memory holds and `scan` what the input of a t::uint32 gets from a text.
structure File extends Headers where
  stream : Stream
  junk : Nat → UInt8
  scan : List UInt8 → Res UInt32
  sects : List Section
  stringTable : Option (List UInt8) := none
  stringTableSize : UInt32 := 0

namespace File

def construct (junk : Nat → UInt8) (scan : List UInt8 → Res UInt32) (stream : Stream) : Res File :=
  match (readHeaders junk).run stream with
  | (.ok headers, stream) =>
    .ok { headers with stream, junk, scan, sects := headers.sectionTable.map fun hd => { hd } }
  | (.error e, _) => .error e

def store (f : File) (i : Nat) (s : Section) : File := { f with sects := f.sects.set i s }

@[simp] theorem store_stream (f : File) (i : Nat) (s : Section) : (f.store i s).stream = f.stream := rfl
@[simp] theorem store_length (f : File) (i : Nat) (s : Section) :
    (f.store i s).sects.length = f.sects.length := List.length_set

def entry (f : File) : UInt64 :=
  f.standardCoffFields.addressOfEntryPoint.toUInt64 + f.windowsSpecificFields.imageBase

def count (f : File) : Nat := f.sects.length
def segment (f : File) (i : Nat) : Option Section := f.sects[i]?

theorem store_get {f : File} {i : Nat} (s : Section) (h : i < f.sects.length) :
    (f.store i s).sects[i]? = some s := by
  rw [store, List.getElem?_set, if_pos rfl, if_pos h]

end File

abbrev FileM (α : Type) := Effect Stop File α

namespace FileM

def onStream {α : Type} (m : StreamM α) : FileM α :=
  ⟨fun f =>
    let (r, stream) := m.run f.stream
    (r, { f with stream })⟩

def textAt (mem : List UInt8) (off : Nat) : Res (List UInt8) :=
  let text := (mem.drop off).takeWhile (· ≠ 0)
  if off + text.length < mem.length then .ok text else .error (.fault .bounds)

-- string_table - 4 + offset is before the table for the first offsets.
def tableText (mem : List UInt8) (offset : UInt32) : Res (List UInt8) :=
  if offset.toNat < 4 then .error (.fault .bounds) else textAt mem (offset.toNat - 4)

-- The table is recorded before it is read. Where the stream could not move, it reads on.
def getString (offset : UInt32) : FileM (List UInt8) := do
  let f ← get
  match f.stringTable with
  | some table => lift (tableText table offset)
  | none =>
    let place := f.coffHeader.pointerToSymbolTable + 18 * f.coffHeader.numberOfSymbols
    let _ ← onStream (Stream.moveTo place.toNat)
    let mem ← onStream (readRecord 4)
    let size := u32At mem 0 - 4
    modify fun f => { f with stringTableSize := size }
    let table ← lift (allocate f.junk size.toNat)
    modify fun f => { f with stringTable := some table }
    let (r, table) ← onStream (read table (toInt size.toNat))
    modify fun f => { f with stringTable := some table }
    lift r
    lift (tableText table offset)

def at_ (l : List Section) (i : Nat) : FileM Section :=
  match l[i]? with
  | some s => pure s
  | none => raise (.fault .index)

def set (i : Nat) (s : Section) : FileM Unit := modify fun f => f.store i s

def findName (hd : SectionHeader) : FileM (List UInt8) := do
  if hd.name.getD 0 0 = 47 then
    let text ← lift (textAt (hd.name.drop 1) 0)
    let f ← get
    let offset ← lift (f.scan text)
    getString offset
  else if hd.name.getD 7 0 = 0 then lift (textAt hd.name 0)
  else return hd.name

def name (i : Nat) : FileM (List UInt8) := do
  let f ← get
  let s ← at_ f.sects i
  if s.name = [] then
    let text ← findName s.hd
    set i { s with name := text }
    return text.takeWhile (· ≠ 0)
  else return s.name.takeWhile (· ≠ 0)

def badPointer (name : List UInt8) : Stop :=
  .exception ("bad pointer_to_raw_data for section " ++
    String.ofList (name.map fun b => Char.ofNat b.toNat))

-- The raw data is read in the memory of the section, with its raw size.
def readRaw (i : Nat) (s : Section) (buf : List UInt8) : FileM (List UInt8) := do
  let moved ← onStream (Stream.moveTo s.hd.pointerToRawData.toNat)
  if moved then
    let (r, buf) ← onStream (read buf (toInt s.hd.sizeOfRawData.toNat))
    set i { s with buf := some buf }
    lift r
    return buf
  else
    set i { s with buf := none }
    let text ← name i
    raise (badPointer text)

def fillRaw (i : Nat) (s : Section) (buf : List UInt8) : FileM (List UInt8) :=
  if s.hd.sizeOfRawData ≠ 0 then readRaw i s buf else pure buf

-- array::clear(_buf + virtual_size, virtual_size - size_of_raw_data)
def clearRest (hd : SectionHeader) (buf : List UInt8) : Res (List UInt8) :=
  if hd.sizeOfRawData < hd.virtualSize then
    ImageSegment.clear buf hd.virtualSize.toNat (hd.virtualSize - hd.sizeOfRawData).toNat
  else .ok buf

def buffer (i : Nat) : FileM (List UInt8) := do
  let f ← get
  let s ← at_ f.sects i
  match s.buf with
  | some buf => return buf
  | none =>
    let buf ← lift (allocate f.junk s.hd.virtualSize.toNat)
    set i { s with buf := some buf }
    let buf ← fillRaw i s buf
    let buf ← lift (clearRest s.hd buf)
    set i { s with buf := some buf }
    return buf

end FileM

end Gelpp.Pecoff
