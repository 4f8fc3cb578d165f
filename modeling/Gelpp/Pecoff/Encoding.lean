import Gelpp.Library.Twin
import Gelpp.Pecoff.Sections

namespace Gelpp.Pecoff

open Effect

def write (fields : List (Nat × Nat)) : List UInt8 :=
  (fields.map fun x => ByteOrder.little.bytes x.1 x.2).flatten

theorem write_length (fields : List (Nat × Nat)) : (write fields).length = (fields.map Prod.fst).sum := by
  induction fields with
  | nil => rfl
  | cons x fields ih =>
    change (ByteOrder.little.bytes x.1 x.2 ++ write fields).length = _
    rw [List.length_append, ByteOrder.bytes_length, ih]
    rfl

theorem cell_skip {a b : List UInt8} (k width : Nat) :
    cell (a ++ b) (a.length + k) width = cell b k width := by
  rw [cell, cell, ← List.drop_drop, List.drop_left]

theorem cell_here (a b : List UInt8) : cell (a ++ b) 0 a.length = a := by
  rw [cell, List.drop_zero, List.take_left]

theorem cell_getD (mem : List UInt8) (off : Nat) : (cell mem off 1).getD 0 0 = mem.getD off 0 := by
  rw [cell, List.getD_eq_getElem?_getD, List.getD_eq_getElem?_getD, List.getElem?_take,
    if_pos Nat.zero_lt_one,
    List.getElem?_drop, Nat.add_zero]

def fieldAt : List (Nat × Nat) → Nat → Option (Nat × Nat)
  | [], _ => none
  | x :: fields, off =>
    if off = 0 then some x else if x.1 ≤ off then fieldAt fields (off - x.1) else none

section
variable {fields : List (Nat × Nat)} {off : Nat}

theorem cell_field {width v : Nat} (h : fieldAt fields off = some (width, v)) (rest : List UInt8) :
    cell (write fields ++ rest) off width = ByteOrder.little.bytes width v := by
  induction fields generalizing off with
  | nil => cases h
  | cons x fields ih =>
    have hwrite : write (x :: fields) ++ rest =
        ByteOrder.little.bytes x.1 x.2 ++ (write fields ++ rest) := List.append_assoc ..
    have hlen : (ByteOrder.little.bytes x.1 x.2).length = x.1 := ByteOrder.bytes_length ..
    rw [fieldAt] at h
    rw [hwrite]
    split at h
    · next h0 =>
      have hhere := cell_here (ByteOrder.little.bytes x.1 x.2) (write fields ++ rest)
      cases h
      rwa [hlen, ← h0] at hhere
    · split at h
      · next hle =>
        have hskip := cell_skip (a := ByteOrder.little.bytes x.1 x.2) (b := write fields ++ rest)
          (off - x.1) width
        rw [hlen, Nat.add_sub_cancel' hle] at hskip
        rw [hskip]
        exact ih h
      · cases h

theorem u16At_field {v : UInt16} (rest : List UInt8) (off : Nat)
    (h : fieldAt fields off = some (2, v.toNat)) : u16At (write fields ++ rest) off = v := by
  rw [u16At, cell_field h, ByteOrder.value_bytes _ v.toNat_lt, UInt16.ofNat_toNat]

theorem u32At_field {v : UInt32} (rest : List UInt8) (off : Nat)
    (h : fieldAt fields off = some (4, v.toNat)) : u32At (write fields ++ rest) off = v := by
  rw [u32At, cell_field h, ByteOrder.value_bytes _ v.toNat_lt, UInt32.ofNat_toNat]

theorem getD_field {v : UInt8} (rest : List UInt8) (off : Nat)
    (h : fieldAt fields off = some (1, v.toNat)) : (write fields ++ rest).getD off 0 = v := by
  have hcell := cell_field h rest
  rw [← cell_getD, hcell]
  exact UInt8.ofNat_toNat

theorem u64At_field {v : UInt32} (rest : List UInt8) (off : Nat)
    (h : fieldAt fields off = some (8, v.toNat)) :
    u64At (write fields ++ rest) off = v.toUInt64 := by
  have hlt := v.toNat_lt
  rw [u64At, cell_field h, ByteOrder.value_bytes _ (hlt.trans (by norm_num)),
    ← UInt32.toNat_toUInt64, UInt64.ofNat_toNat]

end

def CoffHeader.fields (h : CoffHeader) : List (Nat × Nat) :=
  [(2, h.machine.toNat), (2, h.numberOfSections.toNat), (4, h.timeDateStamp.toNat),
    (4, h.pointerToSymbolTable.toNat), (4, h.numberOfSymbols.toNat),
    (2, h.sizeOfOptionalHeader.toNat), (2, h.characteristics.toNat)]

-- base_of_data is not in PE32+.
def StandardCoffFields.fields (h : StandardCoffFields) (type : UInt16) : List (Nat × Nat) :=
  [(2, type.toNat), (1, h.majorLinkerVersion.toNat), (1, h.minorLinkerVersion.toNat),
    (4, h.sizeOfCode.toNat), (4, h.sizeOfInitializedData.toNat), (4, h.sizeOfUnitializedData.toNat),
    (4, h.addressOfEntryPoint.toNat), (4, h.baseOfCode.toNat)] ++
    if type = pe32p then [] else [(4, h.baseOfData.toNat)]

def WindowsSpecificFields32.fields (n : Nat) (w : WindowsSpecificFields32) : List (Nat × Nat) :=
  [(n, w.imageBase.toNat), (4, w.sectionAlignment.toNat), (4, w.fileAlignment.toNat),
    (2, w.majorOperatingSystemVersion.toNat), (2, w.minorOperatingSystemVersion.toNat),
    (2, w.majorImageVersion.toNat), (2, w.minorImageVersion.toNat),
    (2, w.majorSubsystemVersion.toNat), (2, w.minorSubsystemVersion.toNat),
    (4, w.win32VersionValue.toNat), (4, w.sizeOfImage.toNat), (4, w.sizeOfHeaders.toNat),
    (4, w.checksum.toNat), (2, w.subsystem.toNat), (2, w.dllCharacteristics.toNat),
    (n, w.sizeOfStackReserve.toNat), (n, w.sizeOfStackCommit.toNat),
    (n, w.sizeOfHeapReserve.toNat), (n, w.sizeOfHeapCommit.toNat), (4, w.loaderFlags.toNat),
    (4, w.numberOfRvaAndSizes.toNat)]

def DataDirectory.encode (d : DataDirectory) : List UInt8 :=
  write [(4, d.virtualAddress.toNat), (4, d.size.toNat)]

def SectionHeader.encode (s : SectionHeader) : List UInt8 :=
  s.name ++ write [(4, s.virtualSize.toNat), (4, s.virtualAddress.toNat), (4, s.sizeOfRawData.toNat),
    (4, s.pointerToRawData.toNat), (4, s.pointerToRelocations.toNat),
    (4, s.pointerToLineNumbers.toNat), (2, s.numberOfRelocations.toNat),
    (2, s.numberOfLineNumbers.toNat), (4, s.characteristics.toNat)]

theorem windows32_decode (w : WindowsSpecificFields32) (rest : List UInt8) :
    WindowsSpecificFields32.decode (write (w.fields 4) ++ rest) = w := by
  rw [WindowsSpecificFields32.decode, u32At_field rest 0 rfl, u32At_field rest 4 rfl,
    u32At_field rest 8 rfl, u16At_field rest 12 rfl, u16At_field rest 14 rfl,
    u16At_field rest 16 rfl, u16At_field rest 18 rfl, u16At_field rest 20 rfl,
    u16At_field rest 22 rfl, u32At_field rest 24 rfl, u32At_field rest 28 rfl,
    u32At_field rest 32 rfl, u32At_field rest 36 rfl, u16At_field rest 40 rfl,
    u16At_field rest 42 rfl, u32At_field rest 44 rfl, u32At_field rest 48 rfl,
    u32At_field rest 52 rfl, u32At_field rest 56 rfl, u32At_field rest 60 rfl,
    u32At_field rest 64 rfl]

theorem windows_decode (w : WindowsSpecificFields32) (rest : List UInt8) :
    WindowsSpecificFields.decode (write (w.fields 8) ++ rest) = .of32 w := by
  rw [WindowsSpecificFields.decode, u64At_field rest 0 rfl, u32At_field rest 8 rfl,
    u32At_field rest 12 rfl, u16At_field rest 16 rfl, u16At_field rest 18 rfl,
    u16At_field rest 20 rfl, u16At_field rest 22 rfl, u16At_field rest 24 rfl,
    u16At_field rest 26 rfl, u32At_field rest 28 rfl, u32At_field rest 32 rfl,
    u32At_field rest 36 rfl, u32At_field rest 40 rfl, u16At_field rest 44 rfl,
    u16At_field rest 46 rfl, u64At_field rest 48 rfl, u64At_field rest 56 rfl,
    u64At_field rest 64 rfl, u64At_field rest 72 rfl, u32At_field rest 80 rfl,
    u32At_field rest 84 rfl]
  rfl

theorem drop_u32 (mem : List UInt8) (n off : Nat) : u32At mem (n + off) = u32At (mem.drop n) off := by
  rw [u32At, u32At, cell, cell, List.drop_drop]

theorem drop_u16 (mem : List UInt8) (n off : Nat) : u16At mem (n + off) = u16At (mem.drop n) off := by
  rw [u16At, u16At, cell, cell, List.drop_drop]

theorem coffHeader_decode (h : CoffHeader) :
    CoffHeader.decode (magic ++ write h.fields) = { h with signature := magic } := by
  have hdrop : (magic ++ write h.fields).drop 4 = write h.fields ++ [] := (List.append_nil _).symm
  have hmagic : cell (magic ++ write h.fields) 0 4 = magic := rfl
  rw [CoffHeader.decode, hmagic, drop_u16 _ 4 0, drop_u16 _ 4 2, drop_u32 _ 4 4, drop_u32 _ 4 8,
    drop_u32 _ 4 12, drop_u16 _ 4 16, drop_u16 _ 4 18, hdrop, u16At_field [] 0 rfl,
    u16At_field [] 2 rfl, u32At_field [] 4 rfl, u32At_field [] 8 rfl, u32At_field [] 12 rfl,
    u16At_field [] 16 rfl, u16At_field [] 18 rfl]

theorem standard_drop (mem : List UInt8) (pos : Nat) :
    StandardCoffFields.decode (cell mem pos 28) = .decode (mem.drop pos) := by
  have hbyte {k : Nat} (h : k + 1 ≤ 28) : (cell mem pos 28).getD k 0 = (mem.drop pos).getD k 0 := by
    have hone : cell (mem.drop pos) k 1 = cell mem (pos + k) 1 := by rw [cell, cell, List.drop_drop]
    rw [← cell_getD, cell_cell h, ← cell_getD (mem.drop pos), hone]
  rw [StandardCoffFields.decode, StandardCoffFields.decode, hbyte (by omega), hbyte (by omega),
    u16At_cell (by omega), u32At_cell (by omega), u32At_cell (by omega), u32At_cell (by omega),
    u32At_cell (by omega), u32At_cell (by omega), u32At_cell (by omega), drop_u16, drop_u32,
    drop_u32, drop_u32, drop_u32, drop_u32, drop_u32]

theorem dataDirectory_decode (d : DataDirectory) : DataDirectory.decode d.encode = d := by
  rw [DataDirectory.decode, DataDirectory.encode, ← List.append_nil (write _), u32At_field [] 0 rfl,
    u32At_field [] 4 rfl]

theorem sectionHeader_decode {s : SectionHeader} (h : s.name.length = 8) :
    SectionHeader.decode s.encode = s := by
  have hname : cell s.encode 0 8 = s.name := by
    rw [← h]
    exact cell_here ..
  have hdrop : s.encode.drop 8 = s.encode.drop s.name.length := by rw [h]
  rw [SectionHeader.encode, List.drop_left, ← SectionHeader.encode] at hdrop
  rw [SectionHeader.decode, hname, drop_u32 _ 8 0, drop_u32 _ 8 4, drop_u32 _ 8 8, drop_u32 _ 8 12,
    drop_u32 _ 8 16, drop_u32 _ 8 20, drop_u16 _ 8 24, drop_u16 _ 8 26, drop_u32 _ 8 28, hdrop,
    ← List.append_nil (write _), u32At_field [] 0 rfl, u32At_field [] 4 rfl, u32At_field [] 8 rfl,
    u32At_field [] 12 rfl, u32At_field [] 16 rfl, u32At_field [] 20 rfl, u16At_field [] 24 rfl,
    u16At_field [] 26 rfl, u32At_field [] 28 rfl]

structure Description where
  stub : List UInt8
  gap : List UInt8
  coff : CoffHeader
  standard : StandardCoffFields
  windows : WindowsSpecificFields32
  directories : List DataDirectory
  sections : List SectionHeader
  stub_length : stub.length = 60
  gap_lt : 64 + gap.length < 2 ^ 32
  numbers : windows.numberOfRvaAndSizes.toNat = directories.length
  count : coff.numberOfSections.toNat = sections.length
  names : ∀ s ∈ sections, s.name.length = 8

namespace Description

variable (d : Description) (plus : Bool) (rest : List UInt8)

def type : UInt16 := if plus then pe32p else pe32

def offset : Nat := 64 + d.gap.length

def coffHeader : CoffHeader :=
  { d.coff with sizeOfOptionalHeader := .ofNat (fixedSize plus + 8 * d.directories.length) }

def standardFields : StandardCoffFields :=
  { d.standard with
    magic := type plus
    baseOfData := if plus then d.windows.imageBase else d.standard.baseOfData }

def front : List UInt8 := d.stub ++ (ByteOrder.little.bytes 4 d.offset ++ d.gap)

def tables : List UInt8 :=
  (d.directories.map DataDirectory.encode).flatten ++ ((d.sections.map SectionHeader.encode).flatten ++ rest)

def optionalHeader : List UInt8 :=
  write (d.standard.fields (type plus)) ++
    (write (d.windows.fields (if plus then 8 else 4)) ++ d.tables rest)

def encode : List UInt8 :=
  d.front ++ (magic ++ write (d.coffHeader plus).fields ++ d.optionalHeader plus rest)

def stream : Stream where
  bytes := d.encode plus rest

end Description

section
variable (d : Description) (plus : Bool) (rest : List UInt8)

theorem front_length : d.front.length = d.offset := by
  rw [Description.front, List.length_append, List.length_append, d.stub_length,
    ByteOrder.bytes_length, Description.offset]
  omega

theorem coffFields_length (h : CoffHeader) : (magic ++ write h.fields).length = 24 := by
  rw [List.length_append, write_length]
  rfl

theorem standard_length (h : StandardCoffFields) :
    (write (h.fields (Description.type plus))).length = if plus then 24 else 28 := by
  rw [write_length]
  cases plus <;> rfl

theorem windows_length (w : WindowsSpecificFields32) :
    (write (w.fields (if plus then 8 else 4))).length = if plus then 88 else 68 := by
  rw [write_length]
  cases plus <;> simp [WindowsSpecificFields32.fields]

theorem cell_of_drop {mem a b : List UInt8} {pos n : Nat} (h : mem.drop pos = a ++ b)
    (hn : a.length = n) : cell mem pos n = a := by
  rw [cell, h, List.take_left' hn]

theorem drop_next {mem a b : List UInt8} {pos : Nat} (h : mem.drop pos = a ++ b) {n : Nat}
    (hn : a.length = n) : mem.drop (pos + n) = b := by
  rw [← List.drop_drop, h, List.drop_left' hn]

theorem le_of_drop {mem a b : List UInt8} {pos : Nat} (h : mem.drop pos = a ++ b) {n : Nat}
    (hn : a.length = n) (hpos : pos ≤ mem.length) : pos + n ≤ mem.length := by
  have hlen := congrArg List.length h
  rw [List.length_drop, List.length_append] at hlen
  omega

theorem offset_le : d.offset ≤ (d.encode plus rest).length := by
  rw [Description.encode, List.length_append, front_length]
  omega

theorem drop_offset : (d.encode plus rest).drop d.offset =
    magic ++ write (d.coffHeader plus).fields ++ d.optionalHeader plus rest := by
  rw [Description.encode, ← front_length d, List.drop_left]

theorem drop_optional :
    (d.encode plus rest).drop (d.offset + 24) = d.optionalHeader plus rest :=
  drop_next (drop_offset d plus rest) (coffFields_length _)

theorem drop_windows : (d.encode plus rest).drop (d.offset + 24 + if plus then 24 else 28) =
    write (d.windows.fields (if plus then 8 else 4)) ++ d.tables rest :=
  drop_next (drop_optional d plus rest) (standard_length plus _)

theorem drop_tables :
    (d.encode plus rest).drop (d.offset + 24 + fixedSize plus) = d.tables rest := by
  have hdrop := drop_next (drop_windows d plus rest) (windows_length plus _)
  cases plus <;> exact hdrop

theorem tables_le : d.offset + 24 + fixedSize plus ≤ (d.encode plus rest).length := by
  have hcoff := le_of_drop (drop_offset d plus rest) (coffFields_length _) (offset_le d plus rest)
  have hstandard := le_of_drop (drop_optional d plus rest) (standard_length plus _) hcoff
  have hwindows := le_of_drop (drop_windows d plus rest) (windows_length plus _) hstandard
  cases plus <;> exact hwindows

theorem standard_le : d.offset + 24 + 28 ≤ (d.encode plus rest).length := by
  have hle := tables_le d plus rest
  have hge := fixedSize_ge plus
  omega

theorem stream_calm : (d.stream plus rest).Calm := rfl

theorem coffHeader_read : readCoffHeader.run (d.stream plus rest) =
    (.ok { d.coffHeader plus with signature := magic },
      (d.stream plus rest).moved (d.offset + 24) 4) := by
  have hc := stream_calm d plus rest
  have hfront : (d.encode plus rest).drop 60 = ByteOrder.little.bytes 4 d.offset ++ (d.gap ++
      (magic ++ write (d.coffHeader plus).fields ++ d.optionalHeader plus rest)) := by
    rw [Description.encode, Description.front, List.append_assoc, List.append_assoc,
      List.drop_left' d.stub_length]
  have hplace : cell (d.encode plus rest) 60 4 = ByteOrder.little.bytes 4 d.offset :=
    cell_of_drop hfront (ByteOrder.bytes_length ..)
  have hstub : msdosOffset + 4 ≤ (d.encode plus rest).length := by
    have hle := offset_le d plus rest
    have hoffset : 64 ≤ d.offset := Nat.le_add_right ..
    rw [msdosOffset]
    omega
  have hread := readRecord_moved hc msdosOffset 4 1 (by decide) hstub
  change _ = (Except.ok (cell (d.encode plus rest) 60 4), _) at hread
  rw [hplace] at hread
  have hlt : d.offset < 2 ^ 32 := d.gap_lt
  have hoffset : (u32At (ByteOrder.little.bytes 4 d.offset) 0).toNat = d.offset := by
    have hcell : cell (ByteOrder.little.bytes 4 d.offset) 0 4 = ByteOrder.little.bytes 4 d.offset := rfl
    rw [u32At, hcell, ByteOrder.value_bytes _ hlt, UInt32.toNat_ofNat_of_lt' hlt]
  have hcell : cell (d.encode plus rest) d.offset 24 = magic ++ write (d.coffHeader plus).fields :=
    cell_of_drop (drop_offset d plus rest) (coffFields_length _)
  have hheader := readRecord_moved hc d.offset CoffHeader.size 3 (by decide)
    (le_of_drop (drop_offset d plus rest) (coffFields_length _) (offset_le d plus rest))
  change _ = (Except.ok (cell (d.encode plus rest) d.offset 24), _) at hheader
  rw [hcell] at hheader
  rw [readCoffHeader, bind_of_ok (move_calm hc msdosOffset), bind_of_ok hread, hoffset,
    bind_of_ok (move_moved hc _ 2 d.offset), bind_of_ok hheader]
  dsimp only
  rw [coffHeader_decode, if_neg (not_not_intro rfl)]
  rfl

theorem standard_decode : StandardCoffFields.decode (d.optionalHeader plus rest) = d.standardFields plus := by
  rw [StandardCoffFields.decode, Description.optionalHeader, u16At_field _ 0 rfl, getD_field _ 2 rfl,
    getD_field _ 3 rfl, u32At_field _ 4 rfl, u32At_field _ 8 rfl, u32At_field _ 12 rfl,
    u32At_field _ 16 rfl, u32At_field _ 20 rfl]
  have hbase : u32At (write (d.standard.fields (Description.type plus)) ++
      (write (d.windows.fields (if plus then 8 else 4)) ++ d.tables rest)) 24 =
        if plus then d.windows.imageBase else d.standard.baseOfData := by
    cases plus with
    | false => exact u32At_field _ 24 rfl
    | true =>
      have hfour : u32At (write [(4, d.windows.imageBase.toNat)] ++ []) 0 = d.windows.imageBase :=
        u32At_field [] 0 rfl
      exact hfour
  rw [hbase]
  rfl

theorem standard_read : readStandardCoffFields.run
    ((d.stream plus rest).moved (d.offset + 24) 4) =
      (.ok (d.standardFields plus), (d.stream plus rest).moved (d.offset + 24 + 28) 5) := by
  have hread := readRecord_moved (stream_calm d plus rest) (d.offset + 24) StandardCoffFields.size 4
    (by decide) (standard_le d plus rest)
  have hdecode : StandardCoffFields.decode (cell (d.stream plus rest).bytes (d.offset + 24) 28) =
      d.standardFields plus := by
    rw [standard_drop]
    change StandardCoffFields.decode ((d.encode plus rest).drop _) = _
    rw [drop_optional, standard_decode]
  have hmagic : ¬ (Description.type plus ≠ pe32 ∧ Description.type plus ≠ pe32p) := by
    cases plus <;> decide
  rw [readStandardCoffFields, bind_of_ok hread, StandardCoffFields.size, hdecode]
  exact (congrArg (run · _) (if_neg hmagic)).trans rfl

theorem windows_read : ∃ k, (readWindowsSpecificFields (Description.type plus)).run
      ((d.stream plus rest).moved (d.offset + 24 + 28) 5) =
    (.ok (.of32 d.windows), (d.stream plus rest).moved (d.offset + 24 + fixedSize plus) k) := by
  have hc := stream_calm d plus rest
  have hle := tables_le d plus rest
  have hcell := cell_of_drop (drop_windows d plus rest) (windows_length plus _)
  cases plus with
  | true =>
    change cell _ (d.offset + 24 + 24) 88 = write (d.windows.fields 8) at hcell
    have hback := moveBackward_moved hc (d.offset + 24 + 28) 4 5 (by omega)
    have hread := readRecord_moved hc (d.offset + 24 + 24) WindowsSpecificFields.size 6
      (by decide) hle
    refine ⟨7, ?_⟩
    rw [readWindowsSpecificFields, Description.type, if_pos rfl, if_pos rfl, bind_of_ok hback]
    refine (bind_of_ok hread).trans ?_
    change (Except.ok (WindowsSpecificFields.decode (cell (d.encode true rest) _ 88)), _) = _
    rw [hcell, ← List.append_nil (write _), windows_decode]
    rfl
  | false =>
    change cell _ (d.offset + 24 + 28) 68 = write (d.windows.fields 4) at hcell
    have hread := readRecord_moved hc (d.offset + 24 + 28) WindowsSpecificFields32.size 5
      (by decide) hle
    refine ⟨6, ?_⟩
    rw [readWindowsSpecificFields, Description.type, if_neg Bool.false_ne_true, if_neg (by decide)]
    refine (bind_of_ok hread).trans ?_
    change (Except.ok (WindowsSpecificFields.of32 (.decode (cell (d.encode false rest) _ 68))), _) = _
    rw [hcell, ← List.append_nil (write _), windows32_decode]
    rfl

def readLists (junk : Nat → UInt8) (directories sections : Nat) :
    StreamM (List DataDirectory × List SectionHeader) := do
  let dataDirectories ← readRecords junk DataDirectory.decode DataDirectory.bytes directories
  let sectionTable ← readRecords junk SectionHeader.decode SectionHeader.bytes sections
  return (dataDirectories, sectionTable)

theorem readLists_map {α : Type} (junk : Nat → UInt8) (m n : Nat) (s : Stream)
    (f : List DataDirectory × List SectionHeader → α) :
    (readRecords junk DataDirectory.decode DataDirectory.bytes m >>= fun a =>
      readRecords junk SectionHeader.decode SectionHeader.bytes n >>= fun b => pure (f (a, b))).run s =
      (((readLists junk m n).run s).1.map f, ((readLists junk m n).run s).2) := by
  rw [readLists]
  cases hm : (readRecords junk DataDirectory.decode DataDirectory.bytes m).run s with
  | mk r t =>
    cases r with
    | error e =>
      rw [bind_of_error hm, bind_of_error hm]
      rfl
    | ok a =>
      rw [bind_of_ok hm, bind_of_ok hm]
      cases hn : (readRecords junk SectionHeader.decode SectionHeader.bytes n).run t with
      | mk r' t' =>
        cases r' with
        | error e =>
          rw [bind_of_error hn, bind_of_error hn]
          rfl
        | ok b =>
          rw [bind_of_ok hn, bind_of_ok hn]
          rfl

theorem construct_lists (junk : Nat → UInt8) (scan : List UInt8 → Res UInt32) :
    ∃ k, File.construct junk scan (d.stream plus rest) =
      match (readLists junk d.directories.length d.sections.length).run
          ((d.stream plus rest).moved (d.offset + 24 + fixedSize plus) k) with
      | (.ok x, t) => .ok {
        coffHeader := { d.coffHeader plus with signature := magic }
        standardCoffFields := d.standardFields plus, windowsSpecificFields := .of32 d.windows
        dataDirectories := x.1, sectionTable := x.2, stream := t, junk, scan
        sects := x.2.map fun hd => { hd } }
      | (.error e, _) => .error e := by
  obtain ⟨k, hwindows⟩ := windows_read d plus rest
  have hmagic : (d.standardFields plus).magic = Description.type plus := rfl
  have hcount : (d.coffHeader plus).numberOfSections.toNat = d.sections.length := d.count
  have hnumbers : (WindowsSpecificFields.of32 d.windows).numberOfRvaAndSizes.toNat =
      d.directories.length := d.numbers
  have hlists := readLists_map junk d.directories.length d.sections.length
    ((d.stream plus rest).moved (d.offset + 24 + fixedSize plus) k) fun x => ({
      coffHeader := { d.coffHeader plus with signature := magic }
      standardCoffFields := d.standardFields plus
      windowsSpecificFields := .of32 d.windows
      dataDirectories := x.1
      sectionTable := x.2 } : Headers)
  refine ⟨k, ?_⟩
  rw [File.construct, readHeaders, bind_of_ok (coffHeader_read d plus rest),
    bind_of_ok (standard_read d plus rest), hmagic, bind_of_ok hwindows, hcount, hnumbers, hlists]
  cases (readLists junk d.directories.length d.sections.length).run
    ((d.stream plus rest).moved (d.offset + 24 + fixedSize plus) k) with
  | mk r t => cases r <;> rfl

end

section
variable {s t : Stream}

structure Ahead (s t : Stream) : Prop where
  left : s.Calm
  right : t.Calm
  message : s.lastErrorMessage = t.lastErrorMessage
  bytes : s.bytes.drop s.pos = t.bytes.drop t.pos

theorem Ahead.moved (h : Ahead s t) (n : Nat) : Ahead (s.moved (s.pos + n) 1) (t.moved (t.pos + n) 1) :=
  ⟨h.left, h.right, h.message, by
    simp only [moved_bytes, moved_pos]
    rw [← List.drop_drop, h.bytes, List.drop_drop]⟩

theorem streamRead_twin (h : Ahead s t) (mem : List UInt8) (len : Int) :
    Twin Ahead (fun _ => Ahead) ((Stream.read mem len).run s) ((Stream.read mem len).run t) := by
  have h0 : Ahead (s.moved s.pos 1) (t.moved t.pos 1) := h.moved 0
  rw [Stream.read, get_bind, get_bind, bind_of_ok (tick_served h.left.served),
    bind_of_ok (tick_served h.right.served)]
  refine Twin.ite (fun _ => .ok h0) fun _ => ?_
  rw [InStream.delivered, InStream.delivered, h.bytes]
  refine Twin.ite (fun _ => .error h0) fun _ => ?_
  exact .ok (h.moved _)

theorem read_twin (h : Ahead s t) (mem : List UInt8) (len : Int) :
    Twin Ahead (fun _ => Ahead) ((read mem len).run s) ((read mem len).run t) := by
  refine Twin.bind (streamRead_twin h mem len) fun x s' t' h' => ?_
  have hmessage : ioError s' = ioError t' := by rw [ioError, ioError, h'.message]
  rw [get_bind, get_bind, hmessage]
  refine Twin.ite (fun _ => .ok h') fun _ => ?_
  exact Twin.ite (fun _ => .ok h') fun _ => .ok h'

theorem readRecords_twin {α : Type} (h : Ahead s t) (junk : Nat → UInt8) (decode : List UInt8 → α)
    (size count : Nat) : Twin Ahead (fun _ => Ahead) ((readRecords junk decode size count).run s)
      ((readRecords junk decode size count).run t) := by
  refine Twin.bind (Twin.lift (Q := fun _ => Ahead) (fun _ _ => h) h) fun mem s' t' h' => ?_
  refine Twin.bind (read_twin h' mem _) fun x s1 t1 h1 => ?_
  refine Twin.bind (Twin.lift (Q := fun _ => Ahead) (fun _ _ => h1) h1) fun _ s2 t2 h2 => ?_
  exact .ok h2

theorem readLists_twin (h : Ahead s t) (junk : Nat → UInt8) (m n : Nat) :
    Twin Ahead (fun _ => Ahead) ((readLists junk m n).run s) ((readLists junk m n).run t) := by
  refine Twin.bind (readRecords_twin h junk _ _ _) fun a s' t' h' => ?_
  refine Twin.bind (readRecords_twin h' junk _ _ _) fun b s1 t1 h1 => ?_
  exact .ok h1

theorem records_flatten {α : Type} {decode : List UInt8 → α} {encode : α → List UInt8} {size : Nat}
    {l : List α} (hlen : ∀ a ∈ l, (encode a).length = size) (hdec : ∀ a ∈ l, decode (encode a) = a) :
    records decode size l.length (l.map encode).flatten = l := by
  induction l with
  | nil => rfl
  | cons a l ih =>
    have hrest := ih (fun b hb => hlen b (List.mem_cons_of_mem _ hb))
      fun b hb => hdec b (List.mem_cons_of_mem _ hb)
    have ha := hlen a (List.mem_cons_self ..)
    rw [records] at hrest ⊢
    rw [List.length_cons, List.range_succ_eq_map, List.map_cons, List.map_map, List.map_cons,
      List.flatten_cons]
    congr 1
    · rw [Nat.zero_mul, ← ha, cell_here]
      exact hdec a (List.mem_cons_self ..)
    · refine (List.map_congr_left fun i _ => ?_).trans hrest
      have hskip := cell_skip (a := encode a) (b := (l.map encode).flatten) (i * size) size
      rw [ha] at hskip
      dsimp only [Function.comp_apply]
      rw [Nat.succ_mul, Nat.add_comm (i * size) size, hskip]

theorem flatten_length {α : Type} {encode : α → List UInt8} {size : Nat} {l : List α}
    (hlen : ∀ a ∈ l, (encode a).length = size) : (l.map encode).flatten.length = size * l.length := by
  induction l with
  | nil => rfl
  | cons a l ih =>
    rw [List.map_cons, List.flatten_cons, List.length_append, hlen a (List.mem_cons_self ..),
      ih fun b hb => hlen b (List.mem_cons_of_mem _ hb), List.length_cons, Nat.mul_succ, Nat.add_comm]

end

section
variable (d : Description) (plus : Bool) (rest : List UInt8)

theorem sectionHeader_length {s : SectionHeader} (h : s.name.length = 8) : s.encode.length = 40 := by
  rw [SectionHeader.encode, List.length_append, h, write_length]
  rfl

theorem directories_length :
    (d.directories.map DataDirectory.encode).flatten.length = 8 * d.directories.length :=
  flatten_length fun _ _ => rfl

theorem sections_length :
    (d.sections.map SectionHeader.encode).flatten.length = 40 * d.sections.length :=
  flatten_length fun s hs => sectionHeader_length (d.names s hs)

theorem sections_lt : d.sections.length < 2 ^ 16 := by
  rw [← d.count]
  exact d.coff.numberOfSections.toNat_lt

theorem readLists_run (hsmall : 8 * d.directories.length < 2 ^ 31) (junk : Nat → UInt8) (k : Nat) :
    ∃ pos, (readLists junk d.directories.length d.sections.length).run
      ((d.stream plus rest).moved (d.offset + 24 + fixedSize plus) k) =
        (.ok (d.directories, d.sections), (d.stream plus rest).moved pos (k + 2)) := by
  have hc := stream_calm d plus rest
  have hdrop := drop_tables d plus rest
  have hdrop' := drop_next hdrop (directories_length d)
  have hle := le_of_drop hdrop (directories_length d) (tables_le d plus rest)
  have hle' := le_of_drop hdrop' (sections_length d) hle
  have hsections := sections_lt d
  have hdirs := readRecords_moved hc junk DataDirectory.decode (d.offset + 24 + fixedSize plus)
    DataDirectory.bytes d.directories.length k hsmall hle
  have hsects := readRecords_moved hc junk SectionHeader.decode
    (d.offset + 24 + fixedSize plus + 8 * d.directories.length) SectionHeader.bytes
    d.sections.length (k + 1) (by rw [SectionHeader.bytes]; omega) hle'
  rw [← records_cell] at hdirs hsects
  have hcell := cell_of_drop hdrop (directories_length d)
  have hcell' := cell_of_drop hdrop' (sections_length d)
  have hdirs' : records DataDirectory.decode DataDirectory.bytes d.directories.length
      (cell (d.encode plus rest) (d.offset + 24 + fixedSize plus) (8 * d.directories.length)) =
        d.directories := by
    rw [hcell]
    exact records_flatten (fun _ _ => rfl) fun a _ => dataDirectory_decode a
  have hsects' : records SectionHeader.decode SectionHeader.bytes d.sections.length
      (cell (d.encode plus rest) (d.offset + 24 + fixedSize plus + 8 * d.directories.length)
        (40 * d.sections.length)) = d.sections := by
    rw [hcell']
    exact records_flatten (fun s hs => sectionHeader_length (d.names s hs))
      fun s hs => sectionHeader_decode (d.names s hs)
  change _ = (Except.ok (records _ _ _ (cell (d.encode plus rest) _ (8 * _))), _) at hdirs
  change _ = (Except.ok (records _ _ _ (cell (d.encode plus rest) _ (40 * _))), _) at hsects
  rw [hdirs'] at hdirs
  rw [hsects'] at hsects
  refine ⟨d.offset + 24 + fixedSize plus + 8 * d.directories.length + 40 * d.sections.length, ?_⟩
  rw [readLists, bind_of_ok hdirs]
  exact bind_of_ok hsects

structure SameHeaders (f g : File) : Prop where
  windows : f.windowsSpecificFields = g.windowsSpecificFields
  directories : f.dataDirectories = g.dataDirectories
  sections : f.sectionTable = g.sectionTable
  entry : f.entry = g.entry

def SameResult (x y : Res File) : Prop :=
  match x, y with
  | .ok f, .ok g => SameHeaders f g
  | .error e, .error e' => e = e'
  | _, _ => False

structure Declared (d : Description) (plus : Bool) (f : File) : Prop where
  coff : f.coffHeader = { d.coffHeader plus with signature := magic }
  standard : f.standardCoffFields = d.standardFields plus
  windows : f.windowsSpecificFields = .of32 d.windows
  directories : f.dataDirectories = d.directories
  sections : f.sectionTable = d.sections
  sects : f.sects = d.sections.map fun hd => { hd }

theorem construct_encoded (hsmall : 8 * d.directories.length < 2 ^ 31) (junk : Nat → UInt8)
    (scan : List UInt8 → Res UInt32) :
    ∃ f pos k, File.construct junk scan (d.stream plus rest) = .ok f ∧ Declared d plus f ∧
      f.stream = (d.stream plus rest).moved pos k ∧ f.stringTable = none ∧ f.scan = scan := by
  obtain ⟨k, hrun⟩ := construct_lists d plus rest junk scan
  obtain ⟨pos, hlists⟩ := readLists_run d plus rest hsmall junk k
  rw [hlists] at hrun
  exact ⟨_, pos, k + 2, hrun, ⟨rfl, rfl, rfl, rfl, rfl, rfl⟩, rfl, rfl, rfl⟩

theorem formats_agree (d : Description) (rest : List UInt8) (junk : Nat → UInt8)
    (scan : List UInt8 → Res UInt32) :
    SameResult (File.construct junk scan (d.stream false rest))
      (File.construct junk scan (d.stream true rest)) ∧
    (8 * d.directories.length < 2 ^ 31 → ∀ plus, ∃ f,
      File.construct junk scan (d.stream plus rest) = .ok f ∧ Declared d plus f) := by
  refine ⟨?_, fun hsmall plus => ?_⟩
  · obtain ⟨k, hrun⟩ := construct_lists d false rest junk scan
    obtain ⟨k', hrun'⟩ := construct_lists d true rest junk scan
    have hahead : Ahead ((d.stream false rest).moved (d.offset + 24 + fixedSize false) k)
        ((d.stream true rest).moved (d.offset + 24 + fixedSize true) k') :=
      ⟨rfl, rfl, rfl, (drop_tables d false rest).trans (drop_tables d true rest).symm⟩
    have hlists := (readLists_twin hahead junk d.directories.length d.sections.length).result
    rw [hrun, hrun']
    cases hx : (readLists junk d.directories.length d.sections.length).run
        ((d.stream false rest).moved (d.offset + 24 + fixedSize false) k) with
    | mk r t =>
      cases hy : (readLists junk d.directories.length d.sections.length).run
          ((d.stream true rest).moved (d.offset + 24 + fixedSize true) k') with
      | mk r' t' =>
        rw [hx, hy] at hlists
        obtain rfl : r = r' := hlists
        cases r with
        | error e => rfl
        | ok x => exact ⟨rfl, rfl, rfl, rfl⟩
  · obtain ⟨f, pos, k, hrun, hd, -⟩ := construct_encoded d plus rest hsmall junk scan
    exact ⟨f, hrun, hd⟩

end

theorem blankStub_length : (List.replicate 60 (0 : UInt8)).length = 60 := rfl

theorem noGap_lt : 64 + ([] : List UInt8).length < 2 ^ 32 := by decide

-- One section of two bytes, where the entry point is, and one directory.
def entryImage (imageBase : UInt32) : Description where
  stub := .replicate 60 0
  gap := []
  coff := ⟨magic, 0x14c, 1, 0, 0, 0, 0, 2⟩
  standard := ⟨0, 0, 0, 0, 0, 0, 0x1000, 0, 0⟩
  windows := ⟨imageBase, 0, 0, 0, 0, 0, 0, 0, 0, 0, 0, 0, 0, 0, 0, 0, 0, 0, 0, 0, 1⟩
  directories := [⟨0, 0⟩]
  sections := [⟨[46, 116, 101, 120, 116, 0, 0, 0], 2, 0x1000, 2, 0, 0, 0, 0, 0, 0⟩]
  stub_length := blankStub_length
  gap_lt := noGap_lt
  numbers := rfl
  count := rfl
  names := by simp

theorem formats_agree_image :
    SameResult (File.construct (fun _ => 1) (fun _ => .ok 0) ((entryImage 4096).stream false []))
      (File.construct (fun _ => 1) (fun _ => .ok 0) ((entryImage 4096).stream true [])) ∧
    (8 * (entryImage 4096).directories.length < 2 ^ 31 → ∀ plus, ∃ f,
      File.construct (fun _ => 1) (fun _ => .ok 0) ((entryImage 4096).stream plus []) = .ok f ∧
        Declared (entryImage 4096) plus f) :=
  formats_agree (entryImage 4096) [] (fun _ => 1) fun _ => .ok 0

end Gelpp.Pecoff
