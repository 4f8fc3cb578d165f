import Gelpp.Elf.Fixed
import Gelpp.Elf.Remember

namespace Gelpp.Elf

def shtNobits : Nat := 8

structure Header where
  type : Nat
  flags : Nat
  vaddr : Nat
  paddr : Nat
  memsz : Nat
  filesz : Nat
  align : Nat
  deriving DecidableEq, Repr

inductive Body where
  | bits (content : List UInt8) (entsize : Nat)
  | nobits (size entsize : Nat)
  | symbols (syms : List Sym)
  | dynamic (dyns : List Dyn)

structure SectionDesc where
  name : Nat
  type : Nat
  flags : Nat
  addr : Nat
  link : Nat
  info : Nat
  addralign : Nat
  body : Body

def Body.Of (type : Nat) : Body → Prop
  | .bits _ _ => type ≠ shtSymtab ∧ type ≠ shtDynsym ∧ type ≠ shtDynamic ∧ type ≠ shtNobits
  | .nobits _ _ => type = shtNobits
  | .symbols _ => type = shtSymtab ∨ type = shtDynsym
  | .dynamic _ => type = shtDynamic

def textIn (content : List UInt8) (off : Nat) : List UInt8 := (content.drop off).takeWhile (· ≠ 0)

def HasText (sections : List SectionDesc) (sect off : Nat) : Prop :=
  ∃ s content entsize, sections[sect]? = some s ∧ s.body = .bits content entsize ∧
    off < content.length ∧ off + (textIn content off).length < content.length

structure Description where
  headers : List Header
  sections : List SectionDesc
  shstrndx : Nat
  headers_lt : headers.length < 2 ^ 16
  sections_lt : sections.length < 2 ^ 16
  shstrndx_lt : shstrndx < sections.length
  bodies : ∀ s ∈ sections, s.body.Of s.type
  names : ∀ s ∈ sections, HasText sections shstrndx s.name
  symbolNames : ∀ s ∈ sections, ∀ syms, s.body = .symbols syms →
    ∀ y ∈ syms, HasText sections s.link y.name

namespace Body

def size (l : Layout) : Body → Nat
  | .bits content _ => content.length
  | .nobits size _ => size
  | .symbols syms => syms.length * l.sym.size
  | .dynamic dyns => dyns.length * l.dyn.size

def entsize (l : Layout) : Body → Nat
  | .bits _ entsize => entsize
  | .nobits _ entsize => entsize
  | .symbols _ => l.sym.size
  | .dynamic _ => l.dyn.size

end Body

section
variable (order : ByteOrder) (bytes : List UInt8)

def word (pos : Nat) (s : Slot) : Nat := order.value (cell bytes (pos + s.off) s.width)

structure HeaderAt (l : PhdrLayout) (pos : Nat) (h : Header) : Prop where
  inside : pos + l.size ≤ bytes.length
  type : word order bytes pos l.type = h.type
  flags : word order bytes pos l.flags = h.flags
  vaddr : word order bytes pos l.vaddr = h.vaddr
  paddr : word order bytes pos l.paddr = h.paddr
  memsz : word order bytes pos l.memsz = h.memsz
  filesz : word order bytes pos l.filesz = h.filesz
  align : word order bytes pos l.align = h.align

structure SectionAt (l : Layout) (pos : Nat) (s : SectionDesc) (content : Nat) : Prop where
  inside : pos + l.shdr.size ≤ bytes.length
  name : word order bytes pos l.shdr.name = s.name
  type : word order bytes pos l.shdr.type = s.type
  flags : word order bytes pos l.shdr.flags = s.flags
  addr : word order bytes pos l.shdr.addr = s.addr
  offset : word order bytes pos l.shdr.offset = content
  size : word order bytes pos l.shdr.bytes = s.body.size l
  link : word order bytes pos l.shdr.link = s.link
  info : word order bytes pos l.shdr.info = s.info
  addralign : word order bytes pos l.shdr.addralign = s.addralign
  entsize : word order bytes pos l.shdr.entsize = s.body.entsize l

structure SymAt (l : SymLayout) (pos : Nat) (y : Sym) : Prop where
  inside : pos + l.size ≤ bytes.length
  name : word order bytes pos l.name = y.name
  value : word order bytes pos l.value = y.value
  size : word order bytes pos l.bytes = y.size
  info : word order bytes pos l.info = y.info
  shndx : word order bytes pos l.shndx = y.shndx

structure DynAt (l : DynLayout) (pos : Nat) (d : Dyn) : Prop where
  inside : pos + l.size ≤ bytes.length
  tag : (word order bytes pos l.tag : Int) = d.tag % (256 ^ l.tag.width : Nat)
  val : word order bytes pos l.val = d.val

def Body.At (l : Layout) (pos : Nat) : Body → Prop
  | .bits content _ => pos + content.length ≤ bytes.length ∧ cell bytes pos content.length = content
  | .nobits _ _ => True
  | .symbols syms => pos + syms.length * l.sym.size ≤ bytes.length ∧
      ∀ i y, syms[i]? = some y → SymAt order bytes l.sym (pos + i * l.sym.size) y
  | .dynamic dyns => pos + dyns.length * l.dyn.size ≤ bytes.length ∧
      ∀ i d, dyns[i]? = some d → DynAt order bytes l.dyn (pos + i * l.dyn.size) d

structure Places where
  headers : Nat
  sections : Nat
  content : Nat → Nat
  headers_lt : headers < 2 ^ 32
  sections_lt : sections < 2 ^ 32
  content_lt : ∀ i, content i < 2 ^ 32

structure Encodes (l : Layout) (eiData : UInt8) (d : Description) (p : Places) : Prop where
  magic : cell bytes 0 4 = elfMagic
  eiClass : bytes.getD 4 0 = l.eiClass
  eiData : bytes.getD 5 0 = eiData
  inside : l.ehdr.size ≤ bytes.length
  phoff : word order bytes 0 l.ehdr.phoff = p.headers
  shoff : word order bytes 0 l.ehdr.shoff = p.sections
  phentsize : word order bytes 0 l.ehdr.phentsize = l.phdr.size
  phnum : word order bytes 0 l.ehdr.phnum = d.headers.length
  shentsize : word order bytes 0 l.ehdr.shentsize = l.shdr.size
  shnum : word order bytes 0 l.ehdr.shnum = d.sections.length
  shstrndx : word order bytes 0 l.ehdr.shstrndx = d.shstrndx
  headers : ∀ i h, d.headers[i]? = some h →
    HeaderAt order bytes l.phdr (p.headers + i * l.phdr.size) h
  sections : ∀ i s, d.sections[i]? = some s →
    SectionAt order bytes l (p.sections + i * l.shdr.size) s (p.content i)
  bodies : ∀ i (s : SectionDesc), d.sections[i]? = some s → s.body.At order bytes l (p.content i)
  sizes : ∀ s ∈ d.sections, s.body.size l < 2 ^ 32

end

structure SymbolView where
  value : Nat
  size : Nat
  type : Nat
  bind : Nat
  shndx : Nat
  deriving DecidableEq, Repr

def Sym.view (y : Sym) : SymbolView where
  value := y.value
  size := y.size
  type := y.info % 16
  bind := y.info / 16
  shndx := y.shndx

structure SectionView where
  name : List UInt8
  type : Nat
  flags : Nat
  addr : Nat
  size : Nat
  link : Nat
  info : Nat
  addralign : Nat
  entsize : Nat
  content : Option (List UInt8)
  deriving DecidableEq, Repr

structure View where
  headers : List Header
  sections : List SectionView
  symbols : List (List UInt8 × SymbolView)
  dynamics : List (List Dyn)
  deriving DecidableEq

def Tabular (type : Nat) : Prop := type = shtSymtab ∨ type = shtDynsym ∨ type = shtDynamic

instance (type : Nat) : Decidable (Tabular type) := inferInstanceAs (Decidable (_ ∨ _ ∨ _))

def SectionView.common (s : SectionView) : SectionView :=
  if Tabular s.type then { s with size := 0, entsize := 0 } else s

def View.common (v : View) : View := { v with sections := v.sections.map SectionView.common }

def putNamed {α : Type} (acc : List (List UInt8 × α)) (name : List UInt8) (a : α) :
    List (List UInt8 × α) := (name, a) :: acc.filter fun p => p.1 != name

namespace Description

variable (d : Description)

def text (sect off : Nat) : List UInt8 :=
  match d.sections[sect]? with
  | some s =>
    match s.body with
    | .bits content _ => textIn content off
    | _ => []
  | none => []

def recordAll (acc : List (List UInt8 × Sym)) (s : SectionDesc) : List (List UInt8 × Sym) :=
  match s.body with
  | .symbols syms => syms.foldl (fun acc y => putNamed acc (d.text s.link y.name) y) acc
  | _ => acc

def symbols : List (List UInt8 × Sym) := d.sections.foldl d.recordAll []

def dynamics : List (List Dyn) := d.sections.filterMap fun s =>
  match s.body with
  | .dynamic dyns => some (dyns.map Dyn.cut)
  | _ => none

def sectionView (l : Layout) (s : SectionDesc) : SectionView where
  name := d.text d.shstrndx s.name
  type := s.type
  flags := s.flags
  addr := s.addr
  size := s.body.size l
  link := s.link
  info := s.info
  addralign := s.addralign
  entsize := s.body.entsize l
  content :=
    match s.body with
    | .bits content _ => some content
    | _ => none

def view (l : Layout) : View where
  headers := d.headers
  sections := d.sections.map (d.sectionView l)
  symbols := d.symbols.map fun p => (p.1, p.2.view)
  dynamics := d.dynamics

end Description

theorem view_common (d : Description) (l m : Layout) : (d.view l).common = (d.view m).common := by
  have hsections : (d.sections.map (d.sectionView l)).map SectionView.common =
      (d.sections.map (d.sectionView m)).map SectionView.common := by
    rw [List.map_map, List.map_map]
    apply List.map_congr_left
    intro s hs
    have hbody := d.bodies s hs
    cases hb : s.body with
    | bits content entsize => simp [SectionView.common, Description.sectionView, Body.size, Body.entsize, hb]
    | nobits size entsize => simp [SectionView.common, Description.sectionView, Body.size, Body.entsize, hb]
    | symbols syms =>
      rw [hb] at hbody
      have htab : Tabular s.type := hbody.imp_right .inl
      simp [SectionView.common, Description.sectionView, htab]
    | dynamic dyns =>
      rw [hb] at hbody
      have htab : Tabular s.type := .inr (.inr hbody)
      simp [SectionView.common, Description.sectionView, htab]
  rw [View.common, View.common]
  exact congrArg (fun x => View.mk d.headers x _ _) hsections

end Gelpp.Elf
