import Gelpp.Elf.Shown
import Gelpp.Manager

namespace Gelpp.Manager

open Effect Pecoff

abbrev CommandM (ρ : Type) (α : Type) := Effect Stop (Printing Unit ρ) α

def catching {ρ α : Type} (m : CommandM ρ α) (handler : String → CommandM ρ α) : CommandM ρ α :=
  ⟨fun s =>
    match m.run s with
    | (.error (.exception message), t) => (handler message).run t
    | x => x⟩

def Ends {ρ α : Type} (m : CommandM ρ α) (rows : List ρ) (r : Res α) : Prop :=
  Prints (fun _ => True) m rows r

section
variable {ρ α : Type} {m : CommandM ρ α} {handler : String → CommandM ρ α} {rows rows' : List ρ}
  {r : Res α} {message : String}

theorem Ends.run (h : Ends m rows r) : m.run { state := () } = (r, { state := (), out := rows }) := by
  obtain ⟨t, hrun, -⟩ := h { state := () } trivial
  exact hrun

theorem catching_caught (hm : Ends m rows (.error (.exception message)))
    (hh : Ends (handler message) rows' r) : Ends (catching m handler) (rows ++ rows') r := by
  intro s hs
  obtain ⟨t, hrun, ht⟩ := hm s hs
  obtain ⟨u, hrun', hu⟩ := hh { state := t, out := s.out ++ rows } ht
  refine ⟨u, ?_, hu⟩
  simp only [catching, hrun, hrun', List.append_assoc]

theorem catching_passed (hm : Ends m rows r) (hr : ∀ message, r ≠ .error (.exception message)) :
    Ends (catching m handler) rows r := by
  intro s hs
  obtain ⟨t, hrun, ht⟩ := hm s hs
  refine ⟨t, ?_, ht⟩
  simp only [catching, hrun]
  split
  · next heq =>
    obtain ⟨rfl, -⟩ := Prod.mk.inj heq
    exact absurd rfl (hr _)
  · rfl

end

section
variable {γ : Type} {p : Platform} {coffi : Option (Res γ)} {disk : String → Except String Stream}
  {path : String} {l : Elf.Layout} {d : Elf.Description}

def openDisk (p : Platform) (coffi : Option (Res γ)) (disk : String → Except String Stream) (path : String) :
    Res (Opened γ) := openFile p coffi path (disk path)

def openELF (p : Platform) (disk : String → Except String Stream) (path : String) : Res Elf.File :=
  match disk path with
  | .ok s => ((openELFFile p path).run s).1
  | .error message => .error (.exception message)

structure Holds (p : Platform) (disk : String → Except String Stream) (path : String)
    (d : Elf.Description) (l : Elf.Layout) (places : Elf.Places) (bytes : List UInt8) : Prop where
  layout : l = Elf.elf32 ∨ l = Elf.elf64
  held : ∃ s eiData, disk path = .ok s ∧ s.bytes = bytes ∧ s.Calm ∧ s.pos = 0 ∧
    Elf.Encodes (Elf.fileOrder p.host eiData) s.bytes l eiData d places

theorem opened_described (coffi : Option (Res γ)) {places : Elf.Places} {bytes : List UInt8}
    (h : Holds p disk path d l places bytes) :
    ∃ f, openDisk p coffi disk path = .ok (.elf f) ∧ Elf.Fresh f ∧ f.Calm ∧
      f.stream.bytes = bytes ∧ f.host = p.host ∧ f.layout = l ∧ Elf.Depicted f.source d places := by
  obtain ⟨s, eiData, hdisk, rfl, hc, hpos, hencodes⟩ := h.held
  obtain ⟨f, hopen, hbuilt, hfresh, hcalm, hdepicted⟩ :=
    @opened_encodes _ p path s coffi l h.layout _ _ _ hc hpos hencodes
  refine ⟨f, ?_, hfresh, hcalm, ?_, ?_, ?_, hdepicted⟩
  · rw [openDisk, hdisk, hopen]
  · rw [hbuilt]
    rfl
  · rw [hbuilt]
    rfl
  · rw [hbuilt]
    rfl

theorem openELF_described {places : Elf.Places} {bytes : List UInt8}
    (h : Holds p disk path d l places bytes) :
    ∃ f, openELF p disk path = .ok f ∧ Elf.Fresh f ∧ f.Calm ∧ f.layout = l ∧
      Elf.Depicted f.source d places := by
  obtain ⟨s, eiData, hdisk, rfl, hc, hpos, hencodes⟩ := h.held
  have hmagic : cell s.bytes 0 4 = Elf.elfMagic := hencodes.magic
  have hstream : (elfStream (s.moved 16 1)).fails = fun _ => false := hc
  obtain ⟨f, hrun, hfresh, hcalm, hlayout, hdepicted⟩ :=
    Elf.construct_described h.layout hstream hencodes path p.junk
  refine ⟨f, ?_, hfresh, hcalm, hlayout, hdepicted⟩
  rw [openELF, hdisk]
  dsimp only
  rw [openELF_run hpos, elfAt_class hc h.layout hmagic hencodes.eiClass hencodes.inside, newELF,
    blankELF, hrun]

end

def littlePlatform : Platform := ⟨.little, fun _ => 0, fun _ => .ok 0⟩

def smallDisk (path : String) : Except String Stream :=
  if path = "wide" then .ok { bytes := Elf.small64.bytes } else .error "No such file or directory"

theorem small_holds : Holds littlePlatform smallDisk "wide" Elf.smallDescription Elf.elf64
    (Elf.smallPlaces true) Elf.small64.bytes where
  layout := .inr rfl
  held := ⟨_, 1, rfl, rfl, rfl, rfl, Elf.small64_encodes⟩

end Gelpp.Manager
