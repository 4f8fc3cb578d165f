import Gelpp.Pecoff.File

namespace Gelpp.Pecoff

open Effect

def fixedSize (plus : Bool) : Nat := if plus then 112 else 96

structure Pe (bytes : List UInt8) where
  offset : Nat
  plus : Bool
  directories : Nat
  sections : Nat
  optional : Nat
  stub : 0x40 ≤ bytes.length
  place : (u32At bytes 0x3C).toNat = offset
  signature : cell bytes offset 4 = magic
  count : (u16At bytes (offset + 6)).toNat = sections
  size : (u16At bytes (offset + 20)).toNat = optional
  type : u16At bytes (offset + 24) = if plus then pe32p else pe32
  numbers : (u32At bytes (offset + 24 + (fixedSize plus - 4))).toNat = directories
  room : fixedSize plus + 8 * directories ≤ optional
  whole : offset + 24 + optional + 40 * sections ≤ bytes.length

namespace Pe

variable {bytes : List UInt8}

def headersAt (p : Pe bytes) (pos : Nat) : List SectionHeader :=
  (List.range p.sections).map fun i => SectionHeader.decode (cell bytes (pos + i * 40) 40)

def table (p : Pe bytes) : Nat := p.offset + 24 + p.optional

def directoriesEnd (p : Pe bytes) : Nat := p.offset + 24 + (fixedSize p.plus + 8 * p.directories)

theorem fixedSize_le (p : Pe bytes) :
    p.offset + 24 + fixedSize p.plus + 8 * p.directories ≤ bytes.length := by
  have hroom := p.room
  have hwhole := p.whole
  omega

theorem optional_lt (p : Pe bytes) : p.optional < 2 ^ 16 := by
  rw [← p.size]
  exact UInt16.toNat_lt _

theorem sections_lt (p : Pe bytes) : p.sections < 2 ^ 16 := by
  rw [← p.count]
  exact UInt16.toNat_lt _

end Pe

section
variable {s : Stream}

theorem move_moved (hc : s.Calm) (pos k offset : Nat) :
    (move offset).run (s.moved pos k) = (.ok (), s.moved offset (k + 1)) := by
  rw [move_calm (hc.moved pos k), moved_moved]

theorem moveBackward_moved (hc : s.Calm) (pos n k : Nat) (hn : n ≤ pos) :
    (Stream.moveBackward n).run (s.moved pos k) = (.ok true, s.moved (pos - n) (k + 1)) := by
  rw [moveBackward_calm (hc.moved pos k) hn, moved_moved]
  rfl

theorem readRecord_moved (hc : s.Calm) (pos size k : Nat) (hsize : size < 2 ^ 31)
    (hbytes : pos + size ≤ s.bytes.length) :
    (readRecord size).run (s.moved pos k) =
      (.ok (cell s.bytes pos size), s.moved (pos + size) (k + 1)) := by
  rw [readRecord_calm (hc.moved pos k) hsize hbytes, moved_moved]
  rfl

theorem readRecords_moved {α : Type} (hc : s.Calm) (junk : Nat → UInt8) (decode : List UInt8 → α)
    (pos size count k : Nat) (hsize : size * count < 2 ^ 31)
    (hbytes : pos + size * count ≤ s.bytes.length) :
    (readRecords junk decode size count).run (s.moved pos k) =
      (.ok ((List.range count).map fun i => decode (cell s.bytes (pos + i * size) size)),
        s.moved (pos + size * count) (k + 1)) := by
  rw [readRecords_calm (hc.moved pos k) junk decode hsize hbytes, moved_moved, records_cell]
  rfl

theorem readCoffHeader_run (hc : s.Calm) (p : Pe s.bytes) :
    readCoffHeader.run s =
      (.ok (CoffHeader.decode (cell s.bytes p.offset 24)), s.moved (p.offset + 24) 4) := by
  have hstub := p.stub
  have hle := p.fixedSize_le
  have hplace : (u32At (cell s.bytes 0x3C 4) 0).toNat = p.offset := by
    rw [u32At_cell (Nat.le_refl 4)]
    exact p.place
  have hsignature : (CoffHeader.decode (cell s.bytes p.offset 24)).signature = magic := by
    rw [CoffHeader.decode, cell_cell (by omega)]
    exact p.signature
  have hread : (readRecord 4).run (s.moved msdosOffset 1) = (.ok (cell s.bytes 0x3C 4), s.moved 64 2) :=
    readRecord_moved hc msdosOffset 4 1 (by decide) hstub
  have hheader := readRecord_moved hc p.offset CoffHeader.size 3 (by decide)
    (by rw [CoffHeader.size]; omega)
  rw [readCoffHeader, bind_of_ok (move_calm hc msdosOffset), bind_of_ok hread, hplace,
    bind_of_ok (move_moved hc 64 2 p.offset), bind_of_ok hheader, CoffHeader.size]
  dsimp only
  rw [if_neg (not_not_intro hsignature)]
  rfl

theorem standard_magic (p : Pe s.bytes) :
    (StandardCoffFields.decode (cell s.bytes (p.offset + 24) 28)).magic =
      if p.plus then pe32p else pe32 := by
  rw [StandardCoffFields.decode, ← p.type]
  exact u16At_cell (by omega)

theorem fixedSize_ge (plus : Bool) : 96 ≤ fixedSize plus := by
  cases plus <;> decide

theorem readStandardCoffFields_run (hc : s.Calm) (p : Pe s.bytes) :
    readStandardCoffFields.run (s.moved (p.offset + 24) 4) =
      (.ok (StandardCoffFields.decode (cell s.bytes (p.offset + 24) 28)),
        s.moved (p.offset + 24 + 28) 5) := by
  have hle := p.fixedSize_le
  have hge := fixedSize_ge p.plus
  have hread := readRecord_moved hc (p.offset + 24) StandardCoffFields.size 4 (by decide)
    (by rw [StandardCoffFields.size]; omega)
  have htype : ¬ ((StandardCoffFields.decode (cell s.bytes (p.offset + 24) 28)).magic ≠ pe32 ∧
      (StandardCoffFields.decode (cell s.bytes (p.offset + 24) 28)).magic ≠ pe32p) := by
    rw [standard_magic p]
    cases p.plus <;> decide
  rw [readStandardCoffFields, bind_of_ok hread, StandardCoffFields.size]
  dsimp only
  rw [if_neg htype]
  rfl

theorem readWindowsSpecificFields_run (hc : s.Calm) (p : Pe s.bytes) :
    ∃ w k, (readWindowsSpecificFields (if p.plus then pe32p else pe32)).run
        (s.moved (p.offset + 24 + 28) 5) = (.ok w, s.moved (p.offset + 24 + fixedSize p.plus) k) ∧
      w.numberOfRvaAndSizes.toNat = p.directories := by
  have hle := p.fixedSize_le
  have hnumbers := p.numbers
  cases hplus : p.plus with
  | true =>
    rw [hplus, fixedSize, if_pos rfl] at hle hnumbers
    have hback := moveBackward_moved hc (p.offset + 24 + 28) 4 5 (by omega)
    have hread := readRecord_moved hc (p.offset + 24 + 28 - 4)
      WindowsSpecificFields.size 6 (by decide) (by rw [WindowsSpecificFields.size]; omega)
    refine ⟨.decode (cell s.bytes (p.offset + 24 + 28 - 4) 88), 7, ?_, ?_⟩
    rotate_left
    · rw [← hnumbers]
      exact congrArg UInt32.toNat (u32At_cell (by omega))
    rw [readWindowsSpecificFields, if_pos rfl, if_pos rfl, bind_of_ok hback, bind_of_ok hread]
    rfl
  | false =>
    rw [hplus, fixedSize, if_neg Bool.false_ne_true] at hle hnumbers
    have hread := readRecord_moved hc (p.offset + 24 + 28)
      WindowsSpecificFields32.size 5 (by decide) (by rw [WindowsSpecificFields32.size]; omega)
    refine ⟨.of32 (.decode (cell s.bytes (p.offset + 24 + 28) 68)), 6, ?_, ?_⟩
    rotate_left
    · rw [← hnumbers]
      exact congrArg UInt32.toNat (u32At_cell (by omega))
    rw [readWindowsSpecificFields, if_neg Bool.false_ne_true, if_neg (by decide), bind_of_ok hread]
    rfl

theorem construct_run (hc : s.Calm) (p : Pe s.bytes) (junk : Nat → UInt8)
    (scan : List UInt8 → Res UInt32) :
    ∃ f pos k, File.construct junk scan s = .ok f ∧ f.stream = s.moved pos k ∧
      f.sects = (p.headersAt p.directoriesEnd).map fun hd => { hd } := by
  have hwhole := p.whole
  have hroom := p.room
  have hoptional := p.optional_lt
  have hsections := p.sections_lt
  obtain ⟨w, k, hwindows, hnumbers⟩ := readWindowsSpecificFields_run hc p
  have hdirectories := readRecords_moved hc junk DataDirectory.decode
    (p.offset + 24 + fixedSize p.plus) DataDirectory.bytes w.numberOfRvaAndSizes.toNat k
    (by rw [hnumbers, DataDirectory.bytes]; omega)
    (by rw [hnumbers, DataDirectory.bytes]; omega)
  have hcount : (CoffHeader.decode (cell s.bytes p.offset 24)).numberOfSections.toNat = p.sections := by
    rw [← p.count]
    exact congrArg UInt16.toNat (u16At_cell (by omega))
  have hplace : p.offset + 24 + fixedSize p.plus + DataDirectory.bytes * w.numberOfRvaAndSizes.toNat =
      p.directoriesEnd := by
    rw [hnumbers, DataDirectory.bytes, Pe.directoriesEnd, Nat.add_assoc]
  rw [hplace] at hdirectories
  have htable := readRecords_moved hc junk SectionHeader.decode p.directoriesEnd
    SectionHeader.bytes p.sections (k + 1)
    (by rw [SectionHeader.bytes]; omega) (by rw [SectionHeader.bytes, Pe.directoriesEnd]; omega)
  have hheaders : ∃ h pos k, (readHeaders junk).run s = (.ok h, s.moved pos k) ∧
      h.sectionTable = p.headersAt p.directoriesEnd := by
    rw [readHeaders, bind_of_ok (readCoffHeader_run hc p),
      bind_of_ok (readStandardCoffFields_run hc p), standard_magic p, bind_of_ok hwindows,
      bind_of_ok hdirectories, hcount, bind_of_ok htable]
    exact ⟨_, _, _, rfl, rfl⟩
  obtain ⟨h, pos, k, hrun, hsection⟩ := hheaders
  rw [File.construct, hrun]
  exact ⟨_, pos, k, rfl, rfl, hsection ▸ rfl⟩

theorem construct_headers (hc : s.Calm) (p : Pe s.bytes) (junk : Nat → UInt8)
    (scan : List UInt8 → Res UInt32) :
    ∃ f, File.construct junk scan s = .ok f ∧ f.sects.map Section.hd = p.headersAt p.directoriesEnd := by
  obtain ⟨f, pos, k, hrun, -, hsects⟩ := construct_run hc p junk scan
  refine ⟨f, hrun, ?_⟩
  rw [hsects, List.map_map]
  exact List.map_id _

theorem cells_iff {mem : List UInt8} {pos pos' size n : Nat} :
    cell mem pos (size * n) = cell mem pos' (size * n) ↔
      ∀ i < n, cell mem (pos + i * size) size = cell mem (pos' + i * size) size := by
  constructor
  · intro heq i hi
    have hfit : i * size + size ≤ size * n := by
      rw [← Nat.succ_mul, Nat.mul_comm]
      exact Nat.mul_le_mul_left size hi
    rw [← cell_cell hfit, ← cell_cell hfit, heq]
  · intro h
    induction n with
    | zero => rfl
    | succ n ih =>
      have hlast := h n (Nat.lt_succ_self n)
      rw [Nat.mul_succ, cell_append, cell_append, ih fun i hi => h i (Nat.lt_succ_of_lt hi),
        Nat.mul_comm size n, hlast]

theorem headersAt_inj (p : Pe s.bytes) {pos pos' : Nat} (h : pos + 40 * p.sections ≤ s.bytes.length)
    (h' : pos' + 40 * p.sections ≤ s.bytes.length) :
    p.headersAt pos = p.headersAt pos' ↔
      cell s.bytes pos (40 * p.sections) = cell s.bytes pos' (40 * p.sections) := by
  rw [Pe.headersAt, Pe.headersAt, List.map_inj_left, cells_iff]
  constructor
  · intro heq i hi
    exact SectionHeader.decode_inj (cell_length (by omega)) (cell_length (by omega))
      (heq i (List.mem_range.mpr hi))
  · intro heq i hi
    rw [heq i (List.mem_range.mp hi)]

theorem construct_sections_iff (hc : s.Calm) (p : Pe s.bytes) (junk : Nat → UInt8)
    (scan : List UInt8 → Res UInt32) :
    (∃ f, File.construct junk scan s = .ok f ∧ f.sects.map Section.hd = p.headersAt p.table) ↔
      cell s.bytes p.directoriesEnd (40 * p.sections) = cell s.bytes p.table (40 * p.sections) := by
  have hwhole := p.whole
  have hroom := p.room
  obtain ⟨f, hrun, hsects⟩ := construct_headers hc p junk scan
  rw [← headersAt_inj p (by rw [Pe.directoriesEnd]; omega) (by rw [Pe.table]; omega)]
  constructor
  · rintro ⟨f', hrun', hsects'⟩
    rw [hrun] at hrun'
    cases hrun'
    exact hsects.symm.trans hsects'
  · exact fun heq => ⟨f, hrun, hsects.trans heq⟩

end

-- A PE32 file with one section, some bytes at the end of its optional header and some raw data.
def sectionBytes (virtualSize sizeOfRawData : Nat) : List UInt8 :=
  [46, 116, 101, 120, 116, 0, 0, 0] ++
    ([virtualSize, 0x1000, sizeOfRawData, 224, 0, 0, 0, 0x20].map (ByteOrder.little.bytes 4)).flatten

def imageBytes (extra sect raw : List UInt8) : List UInt8 :=
  .replicate 60 0 ++ ByteOrder.little.bytes 4 64 ++ magic ++
    ([0x14c, 1].map (ByteOrder.little.bytes 2)).flatten ++ .replicate 12 0 ++
    ([96 + extra.length, 2, 0x10b].map (ByteOrder.little.bytes 2)).flatten ++ .replicate 94 0 ++
    extra ++ sect ++ raw

def imageStream (extra : List UInt8) (virtualSize sizeOfRawData : Nat) (raw : List UInt8) : Stream where
  bytes := imageBytes extra (sectionBytes virtualSize sizeOfRawData) raw

theorem sectionBytes_length (virtualSize sizeOfRawData : Nat) :
    (sectionBytes virtualSize sizeOfRawData).length = 40 := by
  simp [sectionBytes]

theorem imageBytes_length (extra sect raw : List UInt8) :
    (imageBytes extra sect raw).length = 184 + extra.length + sect.length + raw.length := by
  simp only [imageBytes, List.length_append, List.length_replicate, ByteOrder.bytes_length, magic,
    List.length_flatten, List.map_cons, List.map_nil, List.sum_cons, List.sum_nil, List.length_cons,
    List.length_nil]
  omega

theorem imageStream_length (extra : List UInt8) (virtualSize sizeOfRawData : Nat) (raw : List UInt8) :
    (imageStream extra virtualSize sizeOfRawData raw).bytes.length = 224 + extra.length + raw.length := by
  rw [imageStream, imageBytes_length, sectionBytes_length]
  omega

theorem imageStream_stub (extra : List UInt8) (virtualSize sizeOfRawData : Nat) (raw : List UInt8) :
    0x40 ≤ (imageStream extra virtualSize sizeOfRawData raw).bytes.length := by
  rw [imageStream_length]
  omega

theorem imageStream_size {extra : List UInt8} (virtualSize sizeOfRawData : Nat) (raw : List UInt8)
    (h : extra.length < 1000) :
    (u16At (imageStream extra virtualSize sizeOfRawData raw).bytes (64 + 20)).toNat =
      96 + extra.length := by
  have hcell : cell (imageStream extra virtualSize sizeOfRawData raw).bytes (64 + 20) 2 =
      ByteOrder.little.bytes 2 (96 + extra.length) := rfl
  have hlt : 96 + extra.length < UInt16.size := by
    rw [UInt16.size]
    omega
  rw [u16At, hcell, ByteOrder.value_bytes _ (by omega), UInt16.toNat_ofNat_of_lt' hlt]

theorem imageStream_whole (extra : List UInt8) (virtualSize sizeOfRawData : Nat) (raw : List UInt8) :
    64 + 24 + (96 + extra.length) + 40 * 1 ≤
      (imageStream extra virtualSize sizeOfRawData raw).bytes.length := by
  rw [imageStream_length]
  omega

def imagePe (extra : List UInt8) (virtualSize sizeOfRawData : Nat) (raw : List UInt8)
    (h : extra.length < 1000) : Pe (imageStream extra virtualSize sizeOfRawData raw).bytes where
  offset := 64
  plus := false
  directories := 0
  sections := 1
  optional := 96 + extra.length
  stub := imageStream_stub extra virtualSize sizeOfRawData raw
  place := rfl
  signature := rfl
  count := rfl
  size := imageStream_size virtualSize sizeOfRawData raw h
  type := rfl
  numbers := rfl
  room := Nat.le_add_right 96 extra.length
  whole := imageStream_whole extra virtualSize sizeOfRawData raw

theorem construct_sections_tight :
    (∃ f, File.construct (fun _ => 1) (fun _ => .ok 0) (imageStream [] 2 2 [7, 8]) = .ok f ∧
      f.sects.map Section.hd =
        (imagePe [] 2 2 [7, 8] (by decide)).headersAt (imagePe [] 2 2 [7, 8] (by decide)).table) ↔
    cell (imageStream [] 2 2 [7, 8]).bytes (imagePe [] 2 2 [7, 8] (by decide)).directoriesEnd 40 =
      cell (imageStream [] 2 2 [7, 8]).bytes (imagePe [] 2 2 [7, 8] (by decide)).table 40 :=
  construct_sections_iff (s := imageStream [] 2 2 [7, 8]) rfl (imagePe [] 2 2 [7, 8] (by decide)) _ _

def loosePe := imagePe [1, 2, 3, 4, 5, 6, 7, 8] 2 2 [7, 8] (by decide)

theorem sections_misplaced :
    ¬ ∃ f, File.construct (fun _ => 1) (fun _ => .ok 0)
        (imageStream [1, 2, 3, 4, 5, 6, 7, 8] 2 2 [7, 8]) = .ok f ∧
      f.sects.map Section.hd = loosePe.headersAt loosePe.table := by
  rintro ⟨f, hrun, hsects⟩
  obtain ⟨f', hrun', hsects'⟩ := construct_headers
    (s := imageStream [1, 2, 3, 4, 5, 6, 7, 8] 2 2 [7, 8]) rfl loosePe (fun _ => 1) (fun _ => .ok 0)
  rw [hrun] at hrun'
  cases hrun'
  rw [hsects] at hsects'
  exact absurd hsects' (by decide +kernel)

end Gelpp.Pecoff
