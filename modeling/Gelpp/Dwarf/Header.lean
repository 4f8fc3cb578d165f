import Gelpp.Dwarf.State
import Gelpp.Library.Loop

namespace Gelpp.Dwarf

structure LebState where
  c : Cursor
  r : UInt64 := 0
  p : Nat := 0
  more : Bool := true

def lebBody (s : LebState) : Res LebState := do
  let (b, c) ← errorIf (← s.c.readU8)
  if 64 ≤ s.p then .error (.fault .shift)
  else .ok {
    c
    r := s.r ||| (b &&& 0x7f).toUInt64 <<< s.p.toUInt64
    p := s.p + 7
    more := b &&& 0x80 != 0 }

-- Each turn takes a byte, so the fuel is never spent.
def readLEB128 (c : Cursor) : Res LebState :=
  Loop.run .steps LebState.more lebBody (c.buf.size - c.off + 1) { c }

def readLEB128U (c : Cursor) : Res (UInt64 × Cursor) := do
  let s ← readLEB128 c
  return (s.r, s.c)

def signExtend (r : UInt64) (p : Nat) : Int :=
  if 0 < p ∧ p < 64 then ((r.toBitVec <<< (64 - p)).sshiftRight (64 - p)).toInt
  else r.toBitVec.toInt

def readLEB128S (c : Cursor) : Res (Int × Cursor) := do
  let s ← readLEB128 c
  return (signExtend s.r s.p, s.c)

def readAddress (is64 : Bool) (c : Cursor) : Res (UInt64 × Cursor) :=
  if is64 then do errorIf (← c.readU64)
  else do
    let (a, c) ← errorIf (← c.readU32)
    return (a.toUInt64, c)

def readUnitLength (c : Cursor) : Res (UInt64 × Bool × Cursor) := do
  let (l, c) ← errorIf (← c.readU32)
  if l < 0xffffff00 then return (l.toUInt64, false, c)
  else
    let (l, c) ← errorIf (← c.readU64)
    return (l, true, c)

def readHeaderLength (is64 : Bool) (c : Cursor) : Res (UInt64 × Cursor) :=
  if is64 then do
    match ← c.readU64 with
    | some r => return r
    | none => .error (.fault .unset)
  else do
    match ← c.readU32 with
    | some (l, c) => return (l.toUInt64, c)
    | none => .error (.fault .unset)

def lnctPath : UInt64 := 0x1
def lnctDirectoryIndex : UInt64 := 0x2
def lnctMD5 : UInt64 := 0x5

def formString : UInt64 := 0x08
def formStrp : UInt64 := 0x0e
def formLineStrp : UInt64 := 0x1f

def readName (c : Cursor) : Res (List UInt8 × Cursor) := do
  match ← c.readCString with
  | .found chars c => return (chars, c)
  | _ => raise "debug line error"

-- Vector counts its elements in an int.
def addDirectory (sm : StateMachine) (dir : CString) : Res StateMachine :=
  if sm.includeDirectories.length + 1 < 2 ^ 31 then
    .ok { sm with includeDirectories := sm.includeDirectories ++ [dir] }
  else .error (.fault .overflow)

structure DirState where
  s : Reader
  more : Bool := true

def readDirBody (d : DirState) : Res DirState := do
  let (name, c) ← readName d.s.c
  if name = [] then return { s := { d.s with c }, more := false }
  else
    let sm ← addDirectory d.s.sm (.text name)
    return { s := { d.s with c, sm } }

def readDir4 (s : Reader) : Res Reader := do
  let d ← Loop.run .steps DirState.more readDirBody (s.c.buf.size - s.c.off + 1) { s }
  return d.s

-- c.read(s) with its result ignored.
def readInto (c : Cursor) (old : CString) : Res (CString × Cursor) := do
  match ← c.readCString with
  | .absent => return (old, c)
  | .unterminated c => return (.wild, c)
  | .found chars c => return (.text chars, c)

def readSect (c : Cursor) (offset : UInt64) (old : CString) : Res (CString × Cursor) := do
  match ← c.move offset.toNat with
  | some c => readInto c old
  | none => readInto c old

def readPath (message : String) (form : UInt64) (old : CString) (s : Reader) :
    Res (CString × Reader) :=
  if form = formString then do
    let (str, c) ← readInto s.c old
    return (str, { s with c })
  else if form = formLineStrp then do
    let (offset, c) ← readAddress s.dl.is64 s.c
    let (str, sect) ← readSect s.dl.lineStrSect offset old
    return (str, { s with c, dl.lineStrSect := sect })
  else if form = formStrp then do
    let (offset, c) ← readAddress s.dl.is64 s.c
    let (str, sect) ← readSect s.dl.strSect offset old
    return (str, { s with c, dl.strSect := sect })
  else raise message

def readFormat (f : List (UInt64 × UInt64) × Cursor) : Res (List (UInt64 × UInt64) × Cursor) := do
  let (contentType, c) ← readLEB128U f.2
  let (formatCode, c) ← readLEB128U c
  return (f.1 ++ [(contentType, formatCode)], c)

def readDirField (d : CString × Reader) (format : UInt64 × UInt64) : Res (CString × Reader) :=
  if format.1 = lnctPath then
    readPath "Don't know how to get the include directory." format.2 d.1 d.2
  else raise "Don't know how to get the include directory."

def readDirEntry5 (formats : List (UInt64 × UInt64)) (s : Reader) : Res Reader := do
  let (dir, s) ← formats.foldlM readDirField (.text [], s)
  let sm ← addDirectory s.sm dir
  return { s with sm }

def readDir5 (s : Reader) : Res Reader := do
  match ← s.c.readU8 with
  | none => .error (.fault .unset)
  | some (count, c) =>
    if 1 < count then raise "Don't know how to do if there is more than one format."
    else if count = 0 then raise "Missing format to decode directories."
    else
      let (formats, c) ← Loop.times readFormat count.toNat ([], c)
      let (directoriesCount, c) ← readLEB128U c
      Loop.times (readDirEntry5 formats) directoriesCount.toNat { s with c }

def readDir (s : Reader) : Res Reader :=
  if s.sm.version < 5 then readDir4 s else readDir5 s

-- The index reaches Vector::operator[] as an int.
def includeDirectory (sm : StateMachine) (dir : UInt64) : Res (List UInt8) := do
  let d ← vectorAt sm.includeDirectories dir.toUInt32.toInt32.toInt
  textOf d

-- The directory 0 is the Path ".".
def entryDirectory (sm : StateMachine) (dir : UInt64) : Res (List UInt8) :=
  if dir = 0 then .ok [46] else includeDirectory sm dir

structure FileState where
  s : Reader
  name : List UInt8

def FileState.more (f : FileState) : Bool := !f.name.isEmpty

section
variable (join : Path → Path → Path)

def readFileBody (f : FileState) : Res FileState := do
  let (dir, c) ← readLEB128U f.s.c
  let (date, c) ← readLEB128U c
  let (size, c) ← readLEB128U c
  let d ← entryDirectory f.s.sm dir
  let s := Reader.intern { f.s with c } (join d f.name) date size
  let (name, c) ← readName c
  return { s := { s with c }, name }

def readFile4 (s : Reader) : Res Reader := do
  let (name, c) ← readName s.c
  let f ← Loop.run .steps FileState.more (readFileBody join) (c.buf.size - c.off + 1)
    { s := { s with c }, name }
  return f.s

structure FileEntry where
  s : Reader
  fileName : CString := .text []
  dirName : CString := .text [46]

def readFileField (f : FileEntry) (format : UInt64 × UInt64) : Res FileEntry :=
  if format.1 = lnctPath then do
    let (fileName, s) ← readPath "Don't know how to get the files." format.2 f.fileName f.s
    return { f with s, fileName }
  else if format.1 = lnctDirectoryIndex then do
    let (index, c) ← readLEB128U f.s.c
    match f.s.sm.includeDirectories[index.toNat]? with
    | some dirName => return { f with s := { f.s with c }, dirName }
    | none => return { f with s := { f.s with c } }
  else if format.1 = lnctMD5 then do
    let s ← f.s.keep Cursor.readU16 (fun _ sm => sm)
    return { f with s }
  else raise "Don't know how to get the files."

def readFileEntry5 (formats : List (UInt64 × UInt64)) (s : Reader) : Res Reader := do
  let f ← formats.foldlM readFileField { s }
  if f.fileName = .text [] then return f.s
  else
    let d ← textOf f.dirName
    let n ← textOf f.fileName
    return f.s.intern (join d n) 0 0

def readFile5 (s : Reader) : Res Reader := do
  let (count, c) ← readLEB128U s.c
  let (formats, c) ← Loop.times readFormat count.toUInt8.toNat ([], c)
  let (fileNamesCount, c) ← readLEB128U c
  Loop.times (readFileEntry5 join formats) fileNamesCount.toNat { s with c }

def readFile (s : Reader) : Res Reader :=
  if s.sm.version < 5 then readFile4 join s else readFile5 join s

def readVersion (s : Reader) : Res Reader := do
  let (version, c) ← errorIf (← s.c.readU16)
  if 5 < version then raise ("DWARF version > 5 (" ++ toString version.toNat ++ ")")
  else if 5 ≤ version then
    let s ← Reader.keep Cursor.readU8 (fun v sm => { sm with addressSize := v })
      { s with c, sm.version := version }
    s.keep Cursor.readU8 (fun v sm => { sm with segmentSelectorSize := v })
  else return { s with c, sm.version := version }

def readDefaultIsStmt (s : Reader) : Res Reader := do
  match ← s.c.readU8 with
  | none => .error (.fault .unset)
  | some (defaultIsStmt, c) =>
    if defaultIsStmt = 0 then return { s with c }
    else return { s with c, sm := s.sm.set isStmt }

def readMaximumOperations (s : Reader) : Res Reader :=
  if 4 ≤ s.sm.version then
    s.keep Cursor.readU8 (fun v sm => { sm with maximumOperationsPerInstruction := v })
  else .ok { s with sm.maximumOperationsPerInstruction := 1 }

def readBase (s : Reader) : Res Reader := do
  let s ← s.keep Cursor.readU8 (fun v sm => { sm with minimumInstructionLength := v })
  let s ← readMaximumOperations s
  let s ← readDefaultIsStmt s
  let s ← s.keep Cursor.readI8 (fun v sm => { sm with lineBase := v })
  let s ← s.keep Cursor.readU8 (fun v sm => { sm with lineRange := v })
  s.keep Cursor.readU8 (fun v sm => { sm with opcodeBase := v })

-- opcode_base - 1 is an int that avail and skip take as a size_t, so 0 becomes 2^64 - 1.
def opcodeCount (opcodeBase : UInt8) : Nat := (opcodeBase.toNat + (2 ^ 64 - 1)) % 2 ^ 64

def readOpcodeLengths (s : Reader) : Res Reader := do
  let c ← errorIf (← s.c.skip (opcodeCount s.sm.opcodeBase))
  let p ← s.c.here
  return { s with c, sm.standardOpcodeLengths := s.c.buf.slice p (s.sm.opcodeBase.toNat - 1) }

def readBaseAndDir (s : Reader) : Res Reader := do
  let s ← readBase s
  let s ← readOpcodeLengths s
  readDir s

def readTables (s : Reader) : Res Reader := do
  let s ← readBaseAndDir s
  readFile join s

def readHeader (s : Reader) : Res Reader := do
  let s ← readVersion s
  let (headerLength, c) ← readHeaderLength s.dl.is64 s.c
  let t ← readTables join { s with c }
  t.moveTo ((c.off + headerLength.toNat) % 2 ^ 64)

end

end Gelpp.Dwarf
