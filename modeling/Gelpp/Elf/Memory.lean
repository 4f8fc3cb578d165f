import Gelpp.Elf.Builders
import Gelpp.Elf.Contains
import Gelpp.Library.Blocks

namespace Gelpp

open Effect

def ImageSegment.block (s : ImageSegment) : Block UInt8 where
  base := s.base.toNat
  cells := s.buf

def Image.blocks (im : Image) : List (Block UInt8) := im.segs.map ImageSegment.block

def Image.byteAt (im : Image) (a : UInt64) : Option UInt8 :=
  (im.at_ a).bind fun s => s.buf[(a - s.base).toNat]?

structure Image.Placed (im : Image) : Prop where
  region : ∀ s ∈ im.segs, Region s.base.toNat s.size
  nonempty : ∀ s ∈ im.segs, 0 < s.size

section
variable {im : Image} {a : UInt64}

theorem at_covers (h : im.Placed) :
    im.at_ a = im.segs.find? fun s => decide (s.block.Covers a.toNat) := by
  refine List.find?_congr fun s hs => ?_
  have hpos := h.nonempty s hs
  rw [Bool.eq_iff_iff, decide_eq_true_eq, ImageSegment.contains_iff (h.region s hs)]
  exact ⟨fun hc => hc.resolve_right fun h0 => by omega, .inl⟩

theorem byteAt_read (h : im.Placed) (a : UInt64) : im.byteAt a = Block.read im.blocks a.toNat := by
  rw [Image.byteAt, at_covers h, Block.read_find, Image.blocks, List.find?_map]
  cases hfind : im.segs.find? fun s => decide (s.block.Covers a.toNat) with
  | none =>
    have hnone : im.segs.find? ((fun b => decide (b.Covers a.toNat)) ∘ ImageSegment.block) = none := hfind
    rw [hnone]
    rfl
  | some s =>
    have hsome : im.segs.find? ((fun b => decide (b.Covers a.toNat)) ∘ ImageSegment.block) = some s := hfind
    have hcov : s.block.Covers a.toNat := by simpa using List.find?_some hfind
    have hle : s.base ≤ a := UInt64.le_iff_toNat_le.mpr hcov.1
    rw [hsome, Option.map_some, Option.bind_some, Option.bind_some, Block.cell, if_pos hcov.1,
      UInt64.toNat_sub_of_le _ _ hle]
    rfl

end

namespace Elf

open FileM

-- File::make of both classes: the parameters are not used.
def FileM.make (junk : Nat → UInt8) : FileM Gelpp.Image := SimpleBuilder.build junk fileOps

-- The bytes that readBuf leaves: what it clears is the start of the block.
def loadedByte (b : Source) (p : Phdr) (j : Nat) : UInt8 :=
  if j < p.memsz - p.filesz then 0
  else if j < p.filesz % 2 ^ 32 then b.bytes.getD (p.offset % 2 ^ 32 + j) 0
  else b.junk j

section
variable {b : Source} {f : File} {x : Executable b} {p : Phdr}

theorem fresh_get (b : Source) {n j : Nat} (hj : j < n) : (b.fresh n)[j]? = some (b.junk j) := by
  rw [Source.fresh, List.getElem?_map, List.getElem?_range hj]
  rfl

theorem segmentInit_get {buf : List UInt8} (h : b.segmentInit p (b.fresh p.memsz) = .ok buf) {j : Nat}
    (hj : j < p.memsz) : buf[j]? = some
      (if j < p.filesz % 2 ^ 32 then b.bytes.getD (p.offset % 2 ^ 32 + j) 0 else b.junk j) := by
  rw [Source.segmentInit] at h
  split at h
  · rw [Source.read] at h
    split_ifs at h with hlong hshort
    cases h
    have hlen := not_not.mp hshort
    rw [hlen]
    by_cases hin : j < p.filesz % 2 ^ 32
    · rw [if_pos hin, List.getElem?_append_left (by rw [hlen]; exact hin),
        List.getElem?_take_of_lt hin, List.getElem?_drop, List.getD_eq_getElem?_getD]
      have hlt : p.offset % 2 ^ 32 + j < b.bytes.length := by
        rw [List.length_take, List.length_drop] at hlen
        omega
      rw [List.getElem?_eq_getElem hlt]
      rfl
    · rw [if_neg hin, List.getElem?_append_right (by rw [hlen]; omega), hlen, List.getElem?_drop,
        Nat.add_sub_cancel' (Nat.le_of_not_lt hin), fresh_get b hj]
  · next hzero =>
    cases h
    rw [not_not.mp hzero, if_neg (by omega), fresh_get b hj]

theorem segmentContent_get {buf : List UInt8} (h : b.segmentContent p = .ok buf) {j : Nat}
    (hj : j < p.memsz) : buf[j]? = some (loadedByte b p j) := by
  rw [Source.segmentContent] at h
  split at h
  · cases hinit : b.segmentInit p (b.fresh p.memsz) with
    | error e =>
      rw [hinit] at h
      cases h
    | ok init =>
      rw [hinit] at h
      cases h
      have hget := segmentInit_get hinit hj
      rw [zeroFill, loadedByte]
      by_cases hzero : j < p.memsz - p.filesz
      · rw [if_pos (by omega), if_pos hzero,
          List.getElem?_append_left (by rw [List.length_replicate]; exact hzero),
          List.getElem?_replicate, if_pos hzero]
      · rw [if_neg hzero]
        split
        · rw [List.getElem?_append_right (by rw [List.length_replicate]; omega),
            List.length_replicate, List.getElem?_drop, Nat.add_sub_cancel' (Nat.le_of_not_lt hzero)]
          exact hget
        · exact hget
  · cases h

def Executable.kept (x : Executable b) : List Nat := x.loads.filter fun i => (x.header i).memsz ≠ 0

def Executable.made (x : Executable b) : Gelpp.Image := { segs := x.kept.map fun i => (x.view i).image }

def Executable.memory (x : Executable b) (a : Nat) : Option UInt8 :=
  (x.loads.find? fun i => decide ((x.header i).paddr ≤ a ∧ a < (x.header i).paddr + (x.header i).memsz)).map
    fun i => loadedByte b (x.header i) (a - (x.header i).paddr)

structure Executable.Inside (x : Executable b) : Prop where
  region : ∀ i ∈ x.kept, Region (x.header i).paddr (x.header i).memsz

theorem kept_loads {i : Nat} (hi : i ∈ x.kept) : i ∈ x.loads ∧ (x.header i).memsz ≠ 0 := by
  rw [Executable.kept, List.mem_filter] at hi
  exact ⟨hi.1, by simpa using hi.2⟩

theorem make_ready (x : Executable b) (junk : Nat → UInt8) :
    Gives (Ready x true) (FileM.make junk) (.ok x.made) := by
  have hkept : (x.loads.map x.view).filter (·.Kept) = x.kept.map x.view := by
    rw [List.filter_map, Executable.kept]
    congr 1
    refine List.filter_congr fun i _ => ?_
    simp [SegmentView.Kept, Executable.view]
  have hbuild := kept_gives x junk
  rwa [hkept, List.map_map] at hbuild

theorem make_fresh (hf : Fresh f) (hc : f.Calm) (x : Executable f.source) (junk : Nat → UInt8) :
    ∃ g, (FileM.make junk).run f = (.ok x.made, g) ∧ Ready x true g :=
  build_fresh hf hc (make_ready x junk)

def makes (junk : Nat → UInt8) : Nat → File → File
  | 0, f => f
  | n + 1, f => makes junk n ((FileM.make junk).run f).2

theorem makes_ready {x : Executable b} (junk : Nat → UInt8) (n : Nat) {f : File} (h : Ready x true f) :
    Ready x true (makes junk n f) := by
  induction n generalizing f with
  | zero => exact h
  | succ n ih =>
    obtain ⟨g, hrun, hg⟩ := make_ready x junk f h
    rw [makes, hrun]
    exact ih hg

theorem make_again (hf : Fresh f) (hc : f.Calm) (x : Executable f.source) (junk : Nat → UInt8) (n : Nat) :
    ∃ g, (FileM.make junk).run (makes junk n f) = (.ok x.made, g) := by
  obtain ⟨g, hrun, hg⟩ := make_fresh hf hc x junk
  cases n with
  | zero => exact ⟨g, hrun⟩
  | succ n =>
    have hready : Ready x true (makes junk (n + 1) f) := by
      rw [makes, hrun]
      exact makes_ready junk n hg
    obtain ⟨g', hrun', -⟩ := make_ready x junk _ hready
    exact ⟨g', hrun'⟩

theorem view_filled {i : Nat} (hi : i ∈ x.loads) : (x.view i).filled = x.contents i := by
  have hlen := (contents_length hi).1
  rw [SegmentView.filled, SegmentView.initial]
  change x.contents i ++ List.replicate ((x.header i).memsz - (x.contents i).length) 0 = x.contents i
  rw [hlen, Nat.sub_self, List.replicate_zero, List.append_nil]

theorem made_blocks (hin : x.Inside) : x.made.blocks =
    x.kept.map fun i => { base := (x.header i).paddr, cells := x.contents i } := by
  rw [Image.blocks, Executable.made, List.map_map]
  refine List.map_congr_left fun i hi => ?_
  have hbase : (UInt64.ofNat (x.header i).paddr).toNat = (x.header i).paddr :=
    UInt64.toNat_ofNat_of_lt (hin.region i hi).base_lt
  rw [Function.comp_apply, ImageSegment.block, SegmentView.image, view_filled (kept_loads hi).1]
  exact congrArg (Block.mk · _) hbase

theorem made_placed (hin : x.Inside) : x.made.Placed := by
  have hsegs {s : ImageSegment} (hs : s ∈ x.made.segs) : ∃ i ∈ x.kept,
      s.base.toNat = (x.header i).paddr ∧ s.size = (x.header i).memsz := by
    obtain ⟨i, hi, rfl⟩ := List.mem_map.mp hs
    refine ⟨i, hi, UInt64.toNat_ofNat_of_lt (hin.region i hi).base_lt, ?_⟩
    rw [ImageSegment.size, SegmentView.image, view_filled (kept_loads hi).1,
      (contents_length (kept_loads hi).1).1]
  constructor
  · intro s hs
    obtain ⟨i, hi, hbase, hsize⟩ := hsegs hs
    rw [hbase, hsize]
    exact hin.region i hi
  · intro s hs
    obtain ⟨i, hi, -, hsize⟩ := hsegs hs
    rw [hsize]
    exact Nat.pos_of_ne_zero (kept_loads hi).2

theorem made_memory (hin : x.Inside) (a : Nat) : Block.read x.made.blocks a = x.memory a := by
  have hfind : x.kept.find? ((fun bl : Block UInt8 => decide (bl.Covers a)) ∘ fun i =>
      { base := (x.header i).paddr, cells := x.contents i }) =
      x.loads.find? fun i => decide ((x.header i).paddr ≤ a ∧
        a < (x.header i).paddr + (x.header i).memsz) := by
    rw [Executable.kept, List.find?_filter]
    refine List.find?_congr fun i hi => ?_
    have hlen := (contents_length hi).1
    rw [Bool.eq_iff_iff]
    simp only [Function.comp_apply, Block.Covers, hlen, decide_eq_true_eq]
    omega
  rw [made_blocks hin, Block.read_find, List.find?_map, hfind, Executable.memory]
  cases hi : x.loads.find? fun i => decide ((x.header i).paddr ≤ a ∧
      a < (x.header i).paddr + (x.header i).memsz) with
  | none => rfl
  | some i =>
    obtain ⟨hle, hlt⟩ : (x.header i).paddr ≤ a ∧ a < (x.header i).paddr + (x.header i).memsz := by
      simpa using List.find?_some hi
    obtain ⟨p, hp, ht⟩ := loads_mem (List.mem_of_find?_eq_some hi)
    have hget := segmentContent_get (x.content i p hp ht) (j := a - p.paddr) (by
      rw [header_some hp] at hle hlt
      omega)
    rw [Option.map_some, Option.bind_some, Block.cell, if_pos hle, Option.map_some, header_some hp]
    exact hget

theorem make_memory (hf : Fresh f) (hc : f.Calm) (x : Executable f.source) (hin : x.Inside)
    (junk : Nat → UInt8) (n : Nat) :
    ∃ im g, (FileM.make junk).run (makes junk n f) = (.ok im, g) ∧
      ∀ a, im.byteAt a = x.memory a.toNat := by
  obtain ⟨g, hrun⟩ := make_again hf hc x junk n
  refine ⟨x.made, g, hrun, fun a => ?_⟩
  rw [byteAt_read (made_placed hin), made_memory hin]

theorem staticExecutable_inside : staticExecutable.Inside where
  region i hi := by
    have hloads : staticExecutable.loads = [0] := by decide +kernel
    obtain ⟨hi, -⟩ := kept_loads hi
    rw [hloads, List.mem_singleton] at hi
    subst hi
    exact ⟨by decide +kernel, by decide +kernel, by decide +kernel⟩

theorem make_memory_static : ∃ im g, (FileM.make fun _ => 7).run (makes (fun _ => 7) 2 staticFile) =
    (.ok im, g) ∧ ∀ a, im.byteAt a = staticExecutable.memory a.toNat :=
  make_memory staticFile_fresh rfl staticExecutable staticExecutable_inside (fun _ => 7) 2

end

end Elf

end Gelpp
