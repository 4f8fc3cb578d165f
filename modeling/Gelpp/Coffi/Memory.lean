import Gelpp.Bin.ImageCommand
import Gelpp.Coffi.File

namespace Gelpp.Coffi

open Effect

namespace SectionRecord

variable (scn : Scn) (s : SectionRecord)

def Mapped : Prop := s.isSegment scn ∧ s.data.isSome

instance : DecidablePred (Mapped scn) := fun _ => inferInstanceAs (Decidable (_ ∧ _))

def Spans (a : Nat) : Prop :=
  s.physicalAddress.toNat ≤ a ∧ a < s.physicalAddress.toNat + s.dataSize.toNat

instance (a : Nat) : Decidable (s.Spans a) := inferInstanceAs (Decidable (_ ∧ _))

def byte (i : Nat) : UInt8 := if s.hasContent scn then (s.data.getD []).getD i 0 else 0

end SectionRecord

def Coff.memory (scn : Scn) (c : Coff) (a : Nat) : Option UInt8 :=
  (c.sections.find? fun s => decide (s.Mapped scn ∧ s.Spans a)).map fun s =>
    s.byte scn (a - s.physicalAddress.toNat)

def Coff.mapped (scn : Scn) (c : Coff) : List SectionRecord := c.sections.filter (·.Mapped scn)

def Coff.image (scn : Scn) (c : Coff) : Gelpp.Image :=
  { segs := (c.mapped scn).map fun s => (s.view scn).image }

structure Opened (scn : Scn) (f : CoffFile) : Prop where
  sections : f.sections = f.coff.sections
  segments : f.segments = f.coff.sections.filter (·.isSegment scn)
  symtab : f.symbols.symtab = none
  debug : f.debug = none
  debugInit : f.debugInit = false

section
variable {scn : Scn} {c : Coff} {f : CoffFile} {s : SectionRecord} {a : Nat}

theorem construct_opened {path : String} {load : Option Coff} (h : construct scn path load = .ok f) :
    load = some f.coff ∧ Opened scn f := by
  unfold construct at h
  split at h
  · cases h
  · split at h
    · cases h
    · obtain ⟨base, -, hf⟩ := Res.bind_ok.mp h
      cases hf
      exact ⟨rfl, rfl, rfl, rfl, rfl, rfl⟩

theorem view_fits (s : SectionRecord) :
    ∀ buf, (s.view scn).buffer = some buf → buf.length ≤ (s.view scn).size :=
  fun buf h => Nat.le_of_eq (s.sized buf h)

theorem fileOps_lists {I : CoffFile → Prop} {segments : List SectionRecord}
    (hI : ∀ f, I f → f.segments = segments) : Lists I (fileOps scn) (segments.map (·.view scn)) where
  count := by
    intro f hf
    refine ⟨f, ?_, hf⟩
    rw [List.length_map, ← hI f hf]
    rfl
  segment i v hv := by
    obtain ⟨s, hs, rfl⟩ : ∃ s, segments[i]? = some s ∧ s.view scn = v := by simpa using hv
    refine ⟨(s.view scn).ops CoffFile, ?_, ⟨Gives.pure _, Gives.pure _, Gives.pure _, Gives.pure _,
      Gives.pure _, Gives.pure _, Gives.pure _⟩⟩
    intro f hf
    refine ⟨f, ?_, hf⟩
    rw [fileOps]
    dsimp only
    rw [get_bind, hI f hf, hs]
    rfl

theorem kept_mapped (h : s.isSegment scn) : (s.view scn).Kept ↔ s.Mapped scn := by
  have hsize : s.dataSize.toNat ≠ 0 := by
    rw [SectionRecord.isSegment, Bool.and_eq_true] at h
    exact fun hzero => bne_iff_ne.mp h.2 (UInt32.toNat_inj.mp hzero)
  exact ⟨fun hk => ⟨h, hk.2⟩, fun hm => ⟨hsize, hm.2⟩⟩

theorem segments_kept (l : List SectionRecord) :
    ((l.filter (·.isSegment scn)).map (·.view scn)).filter (·.Kept) =
      (l.filter (·.Mapped scn)).map (·.view scn) := by
  rw [List.filter_map, List.filter_filter]
  congr 1
  refine List.filter_congr fun s _ => ?_
  rw [Bool.eq_iff_iff]
  simp only [Function.comp_apply, Bool.and_eq_true, decide_eq_true_eq]
  exact ⟨fun h => (kept_mapped h.2).mp h.1, fun h => ⟨(kept_mapped h.1).mpr h, h.1⟩⟩

theorem make_gives {I : CoffFile → Prop} (hI : ∀ f, I f → f.segments = c.sections.filter (·.isSegment scn))
    (junk : Nat → UInt8) : Gives I (CoffM.make scn junk) (.ok (c.image scn)) := by
  have hbuild : Gives I (CoffM.make scn junk) _ := build_gives junk (fileOps_lists hI) fun v hv => by
    obtain ⟨s, -, rfl⟩ := List.mem_map.mp hv
    exact view_fits s
  have hsize : ∀ v ∈ (c.sections.filter (·.isSegment scn)).map (·.view scn), v.Kept → v.size < 2 ^ 63 := by
    intro v hv _
    obtain ⟨s, -, rfl⟩ := List.mem_map.mp hv
    have hlt := s.dataSize.toNat_lt
    change s.dataSize.toNat < 2 ^ 63
    omega
  rwa [addViews_ok hsize, segments_kept, List.nil_append, List.map_map] at hbuild

theorem view_filled_length (s : SectionRecord) : (s.view scn).filled.length = s.dataSize.toNat := by
  have hfits : ∀ buf, (s.view scn).buffer = some buf → buf.length ≤ (s.view scn).size := view_fits s
  have hle := initial_length_le hfits
  rw [SegmentView.filled, List.length_append, List.length_replicate]
  exact Nat.add_sub_cancel' hle

theorem view_base (s : SectionRecord) : ((s.view scn).image.base).toNat = s.physicalAddress.toNat :=
  UInt32.toNat_toUInt64 s.physicalAddress

theorem view_block (s : SectionRecord) : (s.view scn).image.block =
    { base := s.physicalAddress.toNat, cells := (s.view scn).filled } := by
  rw [ImageSegment.block, view_base]
  rfl

theorem coff_placed (scn : Scn) (c : Coff) : (c.image scn).Placed := by
  constructor
  · intro s hs
    obtain ⟨r, -, rfl⟩ := List.mem_map.mp hs
    have haddress := r.physicalAddress.toNat_lt
    have hsize := r.dataSize.toNat_lt
    rw [view_base, ImageSegment.size]
    change Region _ (r.view scn).filled.length
    rw [view_filled_length]
    exact ⟨by omega, by omega, by omega⟩
  · intro s hs
    obtain ⟨r, hr, rfl⟩ := List.mem_map.mp hs
    obtain ⟨hseg, hdata⟩ : r.Mapped scn := by simpa [Coff.mapped] using (List.mem_filter.mp hr).2
    have hk := (kept_mapped hseg).mpr ⟨hseg, hdata⟩
    change 0 < (r.view scn).filled.length
    rw [view_filled_length]
    exact Nat.pos_of_ne_zero hk.1

theorem coff_memory (scn : Scn) (c : Coff) (a : Nat) :
    Block.read (c.image scn).blocks a = c.memory scn a := by
  have hblocks : (c.image scn).blocks = (c.mapped scn).map fun s =>
      { base := s.physicalAddress.toNat, cells := (s.view scn).filled } := by
    rw [Image.blocks, Coff.image, List.map_map]
    exact List.map_congr_left fun s _ => view_block s
  have hfind : (c.mapped scn).find? ((fun b : Block UInt8 => decide (b.Covers a)) ∘ fun s =>
      { base := s.physicalAddress.toNat, cells := (s.view scn).filled }) =
      c.sections.find? fun s => decide (s.Mapped scn ∧ s.Spans a) := by
    rw [Coff.mapped, List.find?_filter]
    refine List.find?_congr fun s _ => ?_
    rw [Bool.eq_iff_iff]
    simp only [Function.comp_apply, Block.Covers, view_filled_length, decide_eq_true_eq]
    exact Iff.rfl
  rw [hblocks, Block.read_find, List.find?_map, hfind, Coff.memory]
  cases hs : c.sections.find? fun s => decide (s.Mapped scn ∧ s.Spans a) with
  | none => rfl
  | some s =>
    obtain ⟨-, hle, hlt⟩ : s.Mapped scn ∧ s.Spans a := by simpa using List.find?_some hs
    have hget : (s.view scn).filled[a - s.physicalAddress.toNat]? =
        some ((s.view scn).byte (a - s.physicalAddress.toNat)) :=
      filled_get (by change _ < s.dataSize.toNat; omega)
    rw [Option.map_some, Option.bind_some, Block.cell, if_pos hle, Option.map_some]
    exact hget

theorem openPlain_coffi {γ : Type} {p : Manager.Platform} {magic : List UInt8} {s t : Pecoff.Stream} {f : γ} :
    (Manager.openPlain p magic).run s ≠ (.ok (.coffi f), t) := by
  rw [Manager.openPlain, ite_run]
  split
  · intro h
    obtain ⟨g, u, -, h⟩ := Effect.bind_ok.mp h
    cases h
  · intro h
    cases h

theorem openFile_coffi {γ : Type} {p : Manager.Platform} {r : Res γ} {path : String}
    {disk : Except String Pecoff.Stream} {f : γ}
    (h : Manager.openFile p (some r) path disk = .ok (.coffi f)) : r = .ok f := by
  cases disk with
  | error message => cases h
  | ok s =>
    obtain ⟨⟨size, magic⟩, t, -, h⟩ := Effect.bind_ok.mp (run_fst h)
    obtain ⟨moved, u, -, h⟩ := Effect.bind_ok.mp h
    dsimp only at h
    split_ifs at h
    · cases h
    · obtain ⟨g, v, -, h⟩ := Effect.bind_ok.mp h
      cases h
    · cases r with
      | ok g =>
        cases h
        rfl
      | error e => cases h
    · exact absurd h openPlain_coffi

def imageOf (scn : Scn) (junk : Nat → UInt8) (f : CoffFile) : Res Gelpp.Image :=
  ((CoffM.make scn junk).run f).1

theorem imageOf_opened (h : Opened scn f) (junk : Nat → UInt8) :
    imageOf scn junk f = .ok (f.coff.image scn) := by
  have hgives : Gives (fun g => g = f) (CoffM.make scn junk) (.ok (f.coff.image scn)) :=
    make_gives (by rintro g rfl; exact h.segments) junk
  obtain ⟨g, hrun, -⟩ := hgives f rfl
  rw [imageOf, hrun]

end

theorem coff_displayed {p : Manager.Platform} {scn : Scn} {load : Option Coff} {path : String}
    {disk : String → Except String Pecoff.Stream} {f : CoffFile}
    (h : Manager.openFile p (some (construct scn path load)) path (disk path) = .ok (.coffi f)) :
    ∃ c im, load = some c ∧
      ImageCommand.imageFrom p (some (construct scn path load)) (imageOf scn p.junk) disk path = .ok im ∧
      (∀ a, im.byteAt a = c.memory scn a.toNat) ∧
      ∀ a, ImageCommand.memoryOf (ImageCommand.display false im) a = c.memory scn a := by
  obtain ⟨hload, hopened⟩ := construct_opened (openFile_coffi h)
  have hplaced := coff_placed scn f.coff
  refine ⟨f.coff, f.coff.image scn, hload, ?_, fun a => ?_, fun a => ?_⟩
  · rw [ImageCommand.imageFrom, h]
    exact imageOf_opened hopened p.junk
  · rw [byteAt_read hplaced, coff_memory]
  · rw [ImageCommand.display_memory hplaced.region, coff_memory]

def scn : Scn := ⟨0x20, 0x40, 0x80, 0x20000000⟩

def codeSection : SectionRecord where
  name := ".text"
  virtualAddress := 0x100
  physicalAddress := 0x100
  alignment := 4
  flags := 0x20
  dataOffset := 64
  dataSize := 2
  data := some [1, 2]
  sized bytes h := by
    cases h
    rfl

def bssSection : SectionRecord where
  name := ".bss"
  virtualAddress := 0x100
  physicalAddress := 0x100
  alignment := 4
  flags := 0x80
  dataOffset := 0
  dataSize := 8
  data := none
  sized bytes h := by cases h

def tiCoff : Coff where
  architecture := some .ti
  sections := [bssSection, codeSection]

def tiFile : CoffFile where
  coff := tiCoff
  base := 0
  sections := [bssSection, codeSection]
  segments := [bssSection, codeSection]
  symbols := { reader := { architecture := .ti, sections := [0x80, 0x20], symbols := [] } }

def tiBytes : Pecoff.Stream where
  bytes := [0xc2, 0, 1, 0]

theorem coff_displayed_ti : ∃ c im, some tiCoff = some c ∧
    ImageCommand.imageFrom ⟨.little, fun _ => 0, fun _ => .ok 0⟩ (some (construct scn "ti" (some tiCoff)))
      (imageOf scn fun _ => 0) (fun _ => .ok tiBytes) "ti" = .ok im ∧
    (∀ a, im.byteAt a = c.memory scn a.toNat) ∧
    ∀ a, ImageCommand.memoryOf (ImageCommand.display false im) a = c.memory scn a :=
  coff_displayed (p := ⟨.little, fun _ => 0, fun _ => .ok 0⟩) (f := tiFile) rfl

example : tiCoff.memory scn 0x101 = some 2 := by decide

end Gelpp.Coffi
