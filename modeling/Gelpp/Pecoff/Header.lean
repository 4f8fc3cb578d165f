import Gelpp.Pecoff.Stream

namespace Gelpp.Pecoff

def msdosOffset : Nat := 0x3C

def magic : List UInt8 := [80, 69, 0, 0]

def pe32 : UInt16 := 0x10b
def pe32p : UInt16 := 0x20b

structure CoffHeader where
  signature : List UInt8
  machine : UInt16
  numberOfSections : UInt16
  timeDateStamp : UInt32
  pointerToSymbolTable : UInt32
  numberOfSymbols : UInt32
  sizeOfOptionalHeader : UInt16
  characteristics : UInt16
  deriving DecidableEq, Repr

def CoffHeader.size : Nat := 24

def CoffHeader.decode (mem : List UInt8) : CoffHeader where
  signature := cell mem 0 4
  machine := u16At mem 4
  numberOfSections := u16At mem 6
  timeDateStamp := u32At mem 8
  pointerToSymbolTable := u32At mem 12
  numberOfSymbols := u32At mem 16
  sizeOfOptionalHeader := u16At mem 20
  characteristics := u16At mem 22

structure StandardCoffFields where
  magic : UInt16
  majorLinkerVersion : UInt8
  minorLinkerVersion : UInt8
  sizeOfCode : UInt32
  sizeOfInitializedData : UInt32
  sizeOfUnitializedData : UInt32
  addressOfEntryPoint : UInt32
  baseOfCode : UInt32
  baseOfData : UInt32
  deriving DecidableEq, Repr

def StandardCoffFields.size : Nat := 28

def StandardCoffFields.decode (mem : List UInt8) : StandardCoffFields where
  magic := u16At mem 0
  majorLinkerVersion := mem.getD 2 0
  minorLinkerVersion := mem.getD 3 0
  sizeOfCode := u32At mem 4
  sizeOfInitializedData := u32At mem 8
  sizeOfUnitializedData := u32At mem 12
  addressOfEntryPoint := u32At mem 16
  baseOfCode := u32At mem 20
  baseOfData := u32At mem 24

structure WindowsSpecificFields32 where
  imageBase : UInt32
  sectionAlignment : UInt32
  fileAlignment : UInt32
  majorOperatingSystemVersion : UInt16
  minorOperatingSystemVersion : UInt16
  majorImageVersion : UInt16
  minorImageVersion : UInt16
  majorSubsystemVersion : UInt16
  minorSubsystemVersion : UInt16
  win32VersionValue : UInt32
  sizeOfImage : UInt32
  sizeOfHeaders : UInt32
  checksum : UInt32
  subsystem : UInt16
  dllCharacteristics : UInt16
  sizeOfStackReserve : UInt32
  sizeOfStackCommit : UInt32
  sizeOfHeapReserve : UInt32
  sizeOfHeapCommit : UInt32
  loaderFlags : UInt32
  numberOfRvaAndSizes : UInt32
  deriving DecidableEq, Repr

def WindowsSpecificFields32.size : Nat := 68

def WindowsSpecificFields32.decode (mem : List UInt8) : WindowsSpecificFields32 where
  imageBase := u32At mem 0
  sectionAlignment := u32At mem 4
  fileAlignment := u32At mem 8
  majorOperatingSystemVersion := u16At mem 12
  minorOperatingSystemVersion := u16At mem 14
  majorImageVersion := u16At mem 16
  minorImageVersion := u16At mem 18
  majorSubsystemVersion := u16At mem 20
  minorSubsystemVersion := u16At mem 22
  win32VersionValue := u32At mem 24
  sizeOfImage := u32At mem 28
  sizeOfHeaders := u32At mem 32
  checksum := u32At mem 36
  subsystem := u16At mem 40
  dllCharacteristics := u16At mem 42
  sizeOfStackReserve := u32At mem 44
  sizeOfStackCommit := u32At mem 48
  sizeOfHeapReserve := u32At mem 52
  sizeOfHeapCommit := u32At mem 56
  loaderFlags := u32At mem 60
  numberOfRvaAndSizes := u32At mem 64

structure WindowsSpecificFields where
  imageBase : UInt64
  sectionAlignment : UInt32
  fileAlignment : UInt32
  majorOperatingSystemVersion : UInt16
  minorOperatingSystemVersion : UInt16
  majorImageVersion : UInt16
  minorImageVersion : UInt16
  majorSubsystemVersion : UInt16
  minorSubsystemVersion : UInt16
  win32VersionValue : UInt32
  sizeOfImage : UInt32
  sizeOfHeaders : UInt32
  checksum : UInt32
  subsystem : UInt16
  dllCharacteristics : UInt16
  sizeOfStackReserve : UInt64
  sizeOfStackCommit : UInt64
  sizeOfHeapReserve : UInt64
  sizeOfHeapCommit : UInt64
  loaderFlags : UInt32
  numberOfRvaAndSizes : UInt32
  deriving DecidableEq, Repr

def WindowsSpecificFields.size : Nat := 88

def WindowsSpecificFields.decode (mem : List UInt8) : WindowsSpecificFields where
  imageBase := u64At mem 0
  sectionAlignment := u32At mem 8
  fileAlignment := u32At mem 12
  majorOperatingSystemVersion := u16At mem 16
  minorOperatingSystemVersion := u16At mem 18
  majorImageVersion := u16At mem 20
  minorImageVersion := u16At mem 22
  majorSubsystemVersion := u16At mem 24
  minorSubsystemVersion := u16At mem 26
  win32VersionValue := u32At mem 28
  sizeOfImage := u32At mem 32
  sizeOfHeaders := u32At mem 36
  checksum := u32At mem 40
  subsystem := u16At mem 44
  dllCharacteristics := u16At mem 46
  sizeOfStackReserve := u64At mem 48
  sizeOfStackCommit := u64At mem 56
  sizeOfHeapReserve := u64At mem 64
  sizeOfHeapCommit := u64At mem 72
  loaderFlags := u32At mem 80
  numberOfRvaAndSizes := u32At mem 84

def WindowsSpecificFields.of32 (w : WindowsSpecificFields32) : WindowsSpecificFields where
  imageBase := w.imageBase.toUInt64
  sectionAlignment := w.sectionAlignment
  fileAlignment := w.fileAlignment
  majorOperatingSystemVersion := w.majorOperatingSystemVersion
  minorOperatingSystemVersion := w.minorOperatingSystemVersion
  majorImageVersion := w.majorImageVersion
  minorImageVersion := w.minorImageVersion
  majorSubsystemVersion := w.majorSubsystemVersion
  minorSubsystemVersion := w.minorSubsystemVersion
  win32VersionValue := w.win32VersionValue
  sizeOfImage := w.sizeOfImage
  sizeOfHeaders := w.sizeOfHeaders
  checksum := w.checksum
  subsystem := w.subsystem
  dllCharacteristics := w.dllCharacteristics
  sizeOfStackReserve := w.sizeOfStackReserve.toUInt64
  sizeOfStackCommit := w.sizeOfStackCommit.toUInt64
  sizeOfHeapReserve := w.sizeOfHeapReserve.toUInt64
  sizeOfHeapCommit := w.sizeOfHeapCommit.toUInt64
  loaderFlags := w.loaderFlags
  numberOfRvaAndSizes := w.numberOfRvaAndSizes

structure DataDirectory where
  virtualAddress : UInt32
  size : UInt32
  deriving DecidableEq, Repr

def DataDirectory.bytes : Nat := 8

def DataDirectory.decode (mem : List UInt8) : DataDirectory where
  virtualAddress := u32At mem 0
  size := u32At mem 4

structure SectionHeader where
  name : List UInt8
  virtualSize : UInt32
  virtualAddress : UInt32
  sizeOfRawData : UInt32
  pointerToRawData : UInt32
  pointerToRelocations : UInt32
  pointerToLineNumbers : UInt32
  numberOfRelocations : UInt16
  numberOfLineNumbers : UInt16
  characteristics : UInt32
  deriving DecidableEq, Repr

def SectionHeader.bytes : Nat := 40

def SectionHeader.decode (mem : List UInt8) : SectionHeader where
  name := cell mem 0 8
  virtualSize := u32At mem 8
  virtualAddress := u32At mem 12
  sizeOfRawData := u32At mem 16
  pointerToRawData := u32At mem 20
  pointerToRelocations := u32At mem 24
  pointerToLineNumbers := u32At mem 28
  numberOfRelocations := u16At mem 32
  numberOfLineNumbers := u16At mem 34
  characteristics := u32At mem 36

section
variable {mem mem' : List UInt8}

theorem u16At_cell {off width k : Nat} (h : k + 2 ≤ width) :
    u16At (cell mem off width) k = u16At mem (off + k) := by
  rw [u16At, u16At, cell_cell h]

theorem u32At_cell {off width k : Nat} (h : k + 4 ≤ width) :
    u32At (cell mem off width) k = u32At mem (off + k) := by
  rw [u32At, u32At, cell_cell h]

theorem cell_value_lt {off width : Nat} (h : off + width ≤ mem.length) :
    ByteOrder.little.value (cell mem off width) < 256 ^ width := by
  have hlt := ByteOrder.little.value_lt (cell mem off width)
  rwa [cell_length h] at hlt

theorem cell_value_inj {off off' width : Nat} (h : off + width ≤ mem.length)
    (h' : off' + width ≤ mem'.length)
    (heq : ByteOrder.little.value (cell mem off width) = ByteOrder.little.value (cell mem' off' width)) :
    cell mem off width = cell mem' off' width := by
  apply ByteOrder.little.value_inj _ heq
  rw [cell_length h, cell_length h']

theorem u16At_cells {off off' : Nat} (h : off + 2 ≤ mem.length) (h' : off' + 2 ≤ mem'.length)
    (heq : u16At mem off = u16At mem' off') : cell mem off 2 = cell mem' off' 2 := by
  have hvalue := congrArg UInt16.toNat heq
  rw [u16At, u16At, UInt16.toNat_ofNat_of_lt' (cell_value_lt h),
    UInt16.toNat_ofNat_of_lt' (cell_value_lt h')] at hvalue
  exact cell_value_inj h h' hvalue

theorem u32At_cells {off off' : Nat} (h : off + 4 ≤ mem.length) (h' : off' + 4 ≤ mem'.length)
    (heq : u32At mem off = u32At mem' off') : cell mem off 4 = cell mem' off' 4 := by
  have hvalue := congrArg UInt32.toNat heq
  rw [u32At, u32At, UInt32.toNat_ofNat_of_lt' (cell_value_lt h),
    UInt32.toNat_ofNat_of_lt' (cell_value_lt h')] at hvalue
  exact cell_value_inj h h' hvalue

theorem SectionHeader.decode_inj (h : mem.length = 40) (h' : mem'.length = 40)
    (heq : SectionHeader.decode mem = SectionHeader.decode mem') : mem = mem' := by
  rw [SectionHeader.decode, SectionHeader.decode, SectionHeader.mk.injEq] at heq
  obtain ⟨hname, h8, h12, h16, h20, h24, h28, h32, h34, h36⟩ := heq
  have hparts (l : List UInt8) (hl : l.length = 40) : l = cell l 0 8 ++ (cell l 8 4 ++
      (cell l 12 4 ++ (cell l 16 4 ++ (cell l 20 4 ++ (cell l 24 4 ++ (cell l 28 4 ++
        (cell l 32 2 ++ (cell l 34 2 ++ cell l 36 4)))))))) := by
    rw [← cell_append, ← cell_append, ← cell_append, ← cell_append, ← cell_append, ← cell_append,
      ← cell_append, ← cell_append, ← cell_append]
    exact (hl ▸ cell_all l).symm
  rw [hparts mem h, hparts mem' h', hname,
    u32At_cells (by omega) (by omega) h8, u32At_cells (by omega) (by omega) h12,
    u32At_cells (by omega) (by omega) h16, u32At_cells (by omega) (by omega) h20,
    u32At_cells (by omega) (by omega) h24, u32At_cells (by omega) (by omega) h28,
    u16At_cells (by omega) (by omega) h32, u16At_cells (by omega) (by omega) h34,
    u32At_cells (by omega) (by omega) h36]

end

end Gelpp.Pecoff
