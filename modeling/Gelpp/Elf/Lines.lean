import Gelpp.Dwarf.Unit
import Gelpp.Elf.Classes

namespace Gelpp.Elf

open FileM Effect

namespace FileM

def buffer (i : Int) : FileM Buffer := do
  let content ← sectionContent i
  let f ← get
  lift (bufferOf f content)

def bufferNamed (name : List UInt8) : FileM (Option Buffer) := do
  match ← findSection name with
  | some i => do return some (← buffer i)
  | none => return none

end FileM

-- ".debug_line", ".debug_str" and ".debug_line_str"
def debugLineName : List UInt8 := [46, 100, 101, 98, 117, 103, 95, 108, 105, 110, 101]
def debugStrName : List UInt8 := [46, 100, 101, 98, 117, 103, 95, 115, 116, 114]
def debugLineStrName : List UInt8 := debugLineName ++ [95, 115, 116, 114]

def cursorOn : Option Buffer → Cursor
  | some buf => .start buf
  | none => Dwarf.nullCursor

def emptyTable : Dwarf.DebugLine where
  strSect := Dwarf.nullCursor
  lineStrSect := Dwarf.nullCursor

structure LineFile where
  file : File
  debug : Option Dwarf.DebugLine := none

abbrev LineM (α : Type) := Effect Stop LineFile α

section
variable (join : Dwarf.Path → Dwarf.Path → Dwarf.Path) (fuel : Nat)

def readLines : FileM Dwarf.DebugLine := do
  match ← bufferNamed debugLineName with
  | none => return emptyTable
  | some buf =>
    let str ← bufferNamed debugStrName
    let lineStr ← bufferNamed debugLineStrName
    lift (Dwarf.debugLine join fuel buf (cursorOn str) (cursorOn lineStr))

def onFile {α : Type} (m : FileM α) : LineM α :=
  ⟨fun s => ((m.run s.file).1, { s with file := (m.run s.file).2 })⟩

def debugLines : LineM Dwarf.DebugLine := do
  let s ← get
  match s.debug with
  | some dl => return dl
  | none =>
    let dl ← onFile (readLines join fuel)
    modify fun s => { s with debug := some dl }
    return dl

inductive LineRequest where
  | request (r : Request)
  | debugLines
  deriving DecidableEq

def serveLine : LineRequest → LineM Unit
  | .request r => do
    let _ ← onFile (serve r)
    return ()
  | .debugLines => do
    let _ ← debugLines join fuel
    return ()

def afterLines (rs : List LineRequest) (s : LineFile) : LineFile :=
  rs.foldl (fun s r => ((serveLine join fuel r).run s).2) s

end

namespace Description

variable (d : Description)

def index (name : List UInt8) : Option Nat :=
  d.sections.findIdx? fun s => d.text d.shstrndx s.name == name

def Plain (name : List UInt8) : Prop :=
  ∀ i, d.index name = some i → ∃ s content entsize, d.sections[i]? = some s ∧ s.body = .bits content entsize

def content (name : List UInt8) : Option (List UInt8) :=
  ((d.index name).bind fun i => d.sections[i]?).bind fun s =>
    match s.body with
    | .bits content _ => some content
    | _ => none

end Description

def bufferFor (host : ByteOrder) (eiData : UInt8) (content : List UInt8) : Res Buffer :=
  if h : content.length < 2 ^ 63 then
    .ok { decoder := decoder host eiData, bytes := content, size_lt := h }
  else .error .badAlloc

def cursorFor (host : ByteOrder) (eiData : UInt8) : Option (List UInt8) → Res Cursor
  | some content => do return .start (← bufferFor host eiData content)
  | none => .ok Dwarf.nullCursor

def Description.lines (d : Description) (join : Dwarf.Path → Dwarf.Path → Dwarf.Path) (fuel : Nat)
    (host : ByteOrder) (eiData : UInt8) : Res Dwarf.DebugLine :=
  match d.content debugLineName with
  | none => .ok emptyTable
  | some content => do
    let buf ← bufferFor host eiData content
    let str ← cursorFor host eiData (d.content debugStrName)
    let lineStr ← cursorFor host eiData (d.content debugLineStrName)
    Dwarf.debugLine join fuel buf str lineStr

section
variable {b : Source} {d : Description} {p : Places} {f : File} {name : List UInt8} {i : Nat}
  {s : SectionDesc}

theorem bufferOf_decoder (f : File) (content : List UInt8) :
    bufferOf f content = bufferFor f.host f.eiData content := rfl

theorem findFrom_run (h : Depicted b d p) (name : List UInt8) {l : List SectionDesc} :
    ∀ {f : File} {sects : List Section} {i : Nat}, Sectioned b f →
      (∀ k, l[k]? = d.sections[i + k]?) →
      sects.map Section.ptr = (List.range' i l.length).map (· * b.layout.shdr.size) →
      ∃ f', (findFrom name i sects).run f = (.ok ((l.findIdx? fun s =>
        d.text d.shstrndx s.name == name).map (· + i)), f') ∧ Kin b f f' := by
  induction l with
  | nil =>
    intro f sects i hr _ hptrs
    obtain rfl : sects = [] := by simpa using hptrs
    exact ⟨f, rfl, hr.kin⟩
  | cons s l ih =>
    intro f sects i hr hl hptrs
    obtain ⟨sec, sects, rfl⟩ : ∃ sec rest, sects = sec :: rest := by
      cases sects with
      | nil => simp [List.range'_succ] at hptrs
      | cons sec rest => exact ⟨sec, rest, rfl⟩
    rw [List.length_cons, List.range'_succ, List.map_cons, List.map_cons, List.cons.injEq] at hptrs
    obtain ⟨hptr, hptrs⟩ := hptrs
    have hs : d.sections[i]? = some s := (hl 0).symm
    have hnext (k : Nat) : l[k]? = d.sections[i + 1 + k]? := by
      rw [Nat.add_assoc, Nat.add_comm 1 k]
      exact hl (k + 1)
    obtain ⟨f1, hname, hkin1⟩ := name_read h hr hs
    rw [findFrom, get_bind, hr.coherent.shdr hr.loaded, hptr, h.shdr hs, lift_ok_bind,
      bind_of_ok hname, List.findIdx?_cons]
    by_cases htext : d.text d.shstrndx s.name = name
    · refine ⟨f1, ?_, hkin1⟩
      rw [if_pos htext, if_pos (beq_iff_eq.mpr htext)]
      simp
    · obtain ⟨f2, hrun, hkin2⟩ := ih hkin1.toSectioned hnext hptrs
      refine ⟨f2, ?_, hkin1.trans hkin2⟩
      rw [if_neg htext, if_neg (by simpa using htext), hrun, Option.map_map]
      congr 2
      congr 1
      funext k
      simp only [Function.comp_apply]
      omega

theorem findSection_run (h : Depicted b d p) (hr : Sectioned b f) (name : List UInt8) :
    ∃ f', (findSection name).run f = (.ok (d.index name), f') ∧ Kin b f f' := by
  have hptrs : f.sects.map Section.ptr =
      (List.range' 0 d.sections.length).map (· * b.layout.shdr.size) := by
    rw [hr.coherent.ptrs hr.loaded, Source.sectionPtrs, h.shnum, h.shentsize, List.range_eq_range']
  obtain ⟨f', hrun, hkin⟩ := findFrom_run h name hr (fun k => by rw [Nat.zero_add]) hptrs
  refine ⟨f', ?_, hkin⟩
  rw [findSection, sections_loaded _ hr.loaded, hrun, Description.index]
  simp

theorem buffer_run (h : Depicted b d p) (hr : Sectioned b f) (hs : d.sections[i]? = some s)
    {content : List UInt8} {entsize : Nat}
    (hb : s.body = .bits content entsize) :
    ∃ f', (buffer i).run f = (bufferFor b.host b.eiData content, f') ∧ Kin b f f' := by
  obtain ⟨f', hrun, hkin⟩ := content_delivered hr (h.ptr hs) (h.bits hs hb) 1
  have hcontent : (sectionContent (i : Int)).run f = (.ok content, f') := hrun
  have hsource := hkin.coherent.source
  refine ⟨f', ?_, hkin⟩
  rw [buffer, bind_of_ok hcontent, get_bind, bufferOf_decoder, ← hsource]
  rfl

theorem bufferFor_small (host : ByteOrder) (eiData : UInt8) {content : List UInt8}
    (h : content.length < 2 ^ 63) : bufferFor host eiData content =
      .ok { decoder := decoder host eiData, bytes := content, size_lt := h } := dif_pos h

theorem content_some (hs : d.sections[i]? = some s) {content : List UInt8} {entsize : Nat}
    (hb : s.body = .bits content entsize) (hi : d.index name = some i) :
    d.content name = some content := by
  rw [Description.content, hi, Option.bind_some, hs, Option.bind_some, hb]

theorem bufferNamed_run (h : Depicted b d p) (hr : Sectioned b f) (hplain : d.Plain name) :
    ∃ o f', (bufferNamed name).run f = (.ok o, f') ∧ Kin b f f' ∧
      (d.content name = none ∧ o = none ∨ ∃ content buf, d.content name = some content ∧
        bufferFor b.host b.eiData content = .ok buf ∧ o = some buf) := by
  obtain ⟨f1, hfind, hkin1⟩ := findSection_run h hr name
  rw [bufferNamed, bind_of_ok hfind]
  cases hi : d.index name with
  | none =>
    have hnone : d.content name = none := by
      rw [Description.content, hi]
      rfl
    exact ⟨none, f1, rfl, hkin1, .inl ⟨hnone, rfl⟩⟩
  | some i =>
    obtain ⟨s, content, entsize, hs, hb⟩ := hplain i hi
    obtain ⟨f2, hbuffer, hkin2⟩ := buffer_run h hkin1.toSectioned hs hb
    have hsize := h.encodes.sizes s (List.mem_of_getElem? hs)
    rw [hb] at hsize
    have hlt : content.length < 2 ^ 63 := Nat.lt_trans hsize (by decide)
    rw [bufferFor_small _ _ hlt] at hbuffer
    refine ⟨_, f2, ?_, hkin1.trans hkin2,
      .inr ⟨content, _, content_some hs hb hi, bufferFor_small _ _ hlt, rfl⟩⟩
    dsimp only
    rw [bind_of_ok hbuffer]
    rfl

theorem cursorFor_of {o : Option Buffer} (h : d.content name = none ∧ o = none ∨
    ∃ content buf, d.content name = some content ∧ bufferFor b.host b.eiData content = .ok buf ∧
      o = some buf) : cursorFor b.host b.eiData (d.content name) = .ok (cursorOn o) := by
  rcases h with ⟨hcontent, rfl⟩ | ⟨content, buf, hcontent, hbuf, rfl⟩
  · rw [hcontent]
    rfl
  · rw [hcontent, cursorFor, hbuf]
    rfl

def Description.LineSections (d : Description) : Prop :=
  d.Plain debugLineName ∧ d.Plain debugStrName ∧ d.Plain debugLineStrName

theorem readLines_run (h : Depicted b d p) (hr : Sectioned b f) (hplain : d.LineSections)
    (join : Dwarf.Path → Dwarf.Path → Dwarf.Path) (fuel : Nat) :
    ∃ f', (readLines join fuel).run f = (d.lines join fuel b.host b.eiData, f') ∧ Kin b f f' := by
  obtain ⟨o, f1, hline, hkin1, hcases⟩ := bufferNamed_run h hr hplain.1
  rw [readLines, bind_of_ok hline, Description.lines]
  rcases hcases with ⟨hcontent, rfl⟩ | ⟨content, buf, hcontent, hbuf, rfl⟩
  · rw [hcontent]
    exact ⟨f1, rfl, hkin1⟩
  · obtain ⟨str, f2, hstr, hkin2, hstr'⟩ := bufferNamed_run h hkin1.toSectioned hplain.2.1
    obtain ⟨lineStr, f3, hlineStr, hkin3, hlineStr'⟩ :=
      bufferNamed_run h hkin2.toSectioned hplain.2.2
    refine ⟨f3, ?_, hkin1.trans (hkin2.trans hkin3)⟩
    dsimp only
    rw [bind_of_ok hstr, bind_of_ok hlineStr, hcontent]
    dsimp only
    rw [hbuf, cursorFor_of hstr', cursorFor_of hlineStr']
    rfl

end

section
variable {b : Source} {d : Description} {p : Places} {k : Tabled b} {f : File}
  {join : Dwarf.Path → Dwarf.Path → Dwarf.Path} {fuel : Nat} {s : LineFile}

theorem readLines_settled (h : Depicted b d p) (hs : Settled k f) (hplain : d.LineSections) :
    ∃ f', (readLines join fuel).run f = (d.lines join fuel b.host b.eiData, f') ∧ Settled k f' := by
  obtain ⟨f1, hinit, hs1, hl1⟩ := initSections_settled hs
  obtain ⟨f2, hrun, hkin⟩ := readLines_run h ⟨hs1.coherent, hs1.calm, hl1⟩ hplain join fuel
  refine ⟨f2, ?_, hs1.kin hkin⟩
  rw [← hrun]
  have hfind : (findSection debugLineName).run f = (findSection debugLineName).run f1 :=
    sections_first hinit hl1 _
  exact bind_congr (bind_congr hfind _) _

theorem onFile_run {α : Type} (m : FileM α) (s : LineFile) :
    (onFile m).run s = ((m.run s.file).1, { s with file := (m.run s.file).2 }) := rfl

structure Lined (k : Tabled b) (table : Res Dwarf.DebugLine) (s : LineFile) : Prop where
  settled : Settled k s.file
  debug : ∀ dl, s.debug = some dl → table = .ok dl

theorem debugLines_run (h : Depicted b d p) (hplain : d.LineSections)
    (hs : Lined k (d.lines join fuel b.host b.eiData) s) :
    ((debugLines join fuel).run s).1 = d.lines join fuel b.host b.eiData ∧
      Lined k (d.lines join fuel b.host b.eiData) ((debugLines join fuel).run s).2 := by
  rw [debugLines, get_bind]
  cases hdebug : s.debug with
  | some dl => exact ⟨(hs.debug dl hdebug).symm, hs⟩
  | none =>
    obtain ⟨f', hrun, hsettled⟩ : ∃ f', (readLines join fuel).run s.file =
        (d.lines join fuel b.host b.eiData, f') ∧ Settled k f' := readLines_settled h hs.settled hplain
    have hfile : (onFile (readLines join fuel)).run s =
        (d.lines join fuel b.host b.eiData, { s with file := f' }) := by
      rw [onFile_run, hrun]
    dsimp only
    cases hlines : d.lines join fuel b.host b.eiData with
    | error e =>
      rw [hlines] at hfile
      rw [bind_of_error hfile]
      refine ⟨rfl, hsettled, fun dl hdl => ?_⟩
      rw [show ({ s with file := f' } : LineFile).debug = none from hdebug] at hdl
      cases hdl
    | ok dl =>
      rw [hlines] at hfile
      rw [bind_of_ok hfile]
      refine ⟨rfl, hsettled, fun dl' hdl => ?_⟩
      cases hdl
      rfl

theorem serveLine_lined (h : Depicted b d p) (hplain : d.LineSections) (r : LineRequest)
    (hs : Lined k (d.lines join fuel b.host b.eiData) s) :
    Lined k (d.lines join fuel b.host b.eiData) ((serveLine join fuel r).run s).2 := by
  cases r with
  | request r =>
    refine bind_keeps ?_ fun _ _ ht => ht
    exact ⟨(served hs.settled r).1, hs.debug⟩
  | debugLines => exact bind_keeps (debugLines_run h hplain hs).2 fun _ _ ht => ht

theorem afterLines_lined (h : Depicted b d p) (hplain : d.LineSections) (rs : List LineRequest)
    (hs : Lined k (d.lines join fuel b.host b.eiData) s) :
    Lined k (d.lines join fuel b.host b.eiData) (afterLines join fuel rs s) := by
  induction rs generalizing s with
  | nil => exact hs
  | cons r rs ih => exact ih (serveLine_lined h hplain r hs)

end

theorem construct_keeps {l : Layout} {host : ByteOrder} {path : String} {stream : Stream}
    {junk : Nat → UInt8} (hc : stream.fails = fun _ => false) {f : File}
    (h : construct.run (File.blank l host path stream junk) = (.ok (), f)) :
    f.source.host = host ∧ f.source.bytes = stream.bytes := by
  rw [construct, get_bind] at h
  obtain ⟨buf, g, hread, h⟩ := bind_ok.mp h
  obtain ⟨k, hk⟩ := readAll_calm (f := File.blank l host path stream junk) hc 0 l.ehdr.size
  have hg : g = ticked (File.blank l host path stream junk) k := by
    have hstates := congrArg Prod.snd (hk.symm.trans hread)
    exact hstates.symm
  subst hg
  split_ifs at h
  · cases h
  · cases h
  · obtain ⟨ehdr, g, hehdr, h⟩ := bind_ok.mp h
    obtain ⟨-, rfl⟩ := Prod.mk.inj hehdr
    split_ifs at h
    · cases h
    · cases h
      exact ⟨rfl, rfl⟩

theorem lines_described {l : Layout} (hl : l = elf32 ∨ l = elf64) {host : ByteOrder} {eiData : UInt8}
    {d : Description} {p : Places} {stream : Stream} (hc : stream.fails = fun _ => false)
    (h : Encodes (fileOrder host eiData) stream.bytes l eiData d p) (hplain : d.LineSections)
    (path : String) (junk : Nat → UInt8) (join : Dwarf.Path → Dwarf.Path → Dwarf.Path) (fuel : Nat)
    (rs : List LineRequest) :
    ∃ f, construct.run (File.blank l host path stream junk) = (.ok (), f) ∧
      ((debugLines join fuel).run (afterLines join fuel rs { file := f })).1 =
        d.lines join fuel host eiData := by
  obtain ⟨f, hrun, hfresh, hcalm, -, hdepicted⟩ := construct_described hl hc h path junk
  obtain ⟨hhost, hbytes⟩ := construct_keeps hc hrun
  have hdata : f.source.eiData = eiData := by
    rw [← hdepicted.encodes.eiData, hbytes, h.eiData]
  obtain ⟨k, -⟩ := hdepicted.tabled hfresh hcalm
  have hstart : Lined k (d.lines join fuel f.source.host f.source.eiData) { file := f } :=
    ⟨hfresh.settled hcalm k, fun dl hdl => by cases hdl⟩
  have hlined := afterLines_lined hdepicted hplain rs hstart
  refine ⟨f, hrun, ?_⟩
  rw [(debugLines_run hdepicted hplain hlined).1, hhost, hdata]

-- A section of names and a line table of one unit, which has the file a and two rows.
def linedNames : List UInt8 := 0 :: debugLineName ++ [0]

def linedUnit : List UInt8 :=
  [23, 0, 0, 0, 2, 0, 13, 0, 0, 0, 1, 1, 0xfb, 14, 2, 0, 0, 97, 0, 0, 0, 0, 0, 1, 0, 1, 1]

def linedSections : List SectionDesc := [
  { name := 0, type := 3, flags := 0, addr := 0, link := 0, info := 0, addralign := 1
    body := .bits linedNames 0 },
  { name := 1, type := 1, flags := 0, addr := 0, link := 0, info := 0, addralign := 1
    body := .bits linedUnit 0 }]

theorem linedSections_lt : linedSections.length < 2 ^ 16 := by decide

theorem lined_shstrndx : 0 < linedSections.length := by decide

theorem lined_bodies : ∀ s ∈ linedSections, s.body.Of s.type := by
  simp only [linedSections, List.forall_mem_cons]
  exact ⟨by unfold Body.Of; decide, by unfold Body.Of; decide, nofun⟩

theorem lined_names : ∀ s ∈ linedSections, HasText linedSections 0 s.name := by
  simp only [linedSections, List.forall_mem_cons]
  exact ⟨⟨_, _, _, rfl, rfl, by decide, by decide⟩, ⟨_, _, _, rfl, rfl, by decide, by decide⟩, nofun⟩

theorem lined_symbols : ∀ s ∈ linedSections, ∀ syms, s.body = .symbols syms →
    ∀ y ∈ syms, HasText linedSections s.link y.name := by
  simp only [linedSections, List.forall_mem_cons]
  exact ⟨nofun, nofun, nofun⟩

def linedDescription : Description where
  headers := []
  sections := linedSections
  shstrndx := 0
  headers_lt := by decide
  sections_lt := linedSections_lt
  shstrndx_lt := lined_shstrndx
  bodies := lined_bodies
  names := lined_names
  symbolNames := lined_symbols

def lined32 : Stream where
  bytes := [0x7f, 0x45, 0x4c, 0x46, 1, 1, 1, 0, 0, 0, 0, 0, 0, 0, 0, 0] ++
    fields [(2, 2), (2, 3), (4, 1), (4, 0), (4, 0), (4, 52), (4, 0), (2, 52), (2, 32), (2, 0),
      (2, 40), (2, 2), (2, 0)] ++
    fields [(4, 0), (4, 3), (4, 0), (4, 0), (4, 132), (4, 13), (4, 0), (4, 0), (4, 1), (4, 0)] ++
    fields [(4, 1), (4, 1), (4, 0), (4, 0), (4, 145), (4, 27), (4, 0), (4, 0), (4, 1), (4, 0)] ++
    linedNames ++ linedUnit

theorem lined_encodes : Encodes (fileOrder .little 1) lined32.bytes elf32 1 linedDescription
    (placedAt 0 52 [132, 145]) where
  magic := rfl
  eiClass := rfl
  eiData := rfl
  inside := by decide +kernel
  phoff := rfl
  shoff := rfl
  phentsize := rfl
  phnum := rfl
  shentsize := rfl
  shnum := rfl
  shstrndx := rfl
  headers := nofun
  sections := by
    rintro (_ | _ | i) s hs
    · cases hs
      exact ⟨by decide +kernel, rfl, rfl, rfl, rfl, rfl, rfl, rfl, rfl, rfl, rfl⟩
    · cases hs
      exact ⟨by decide +kernel, rfl, rfl, rfl, rfl, rfl, rfl, rfl, rfl, rfl, rfl⟩
    · cases hs
  bodies := by
    rintro (_ | _ | i) s hs
    · cases hs
      exact ⟨by decide +kernel, rfl⟩
    · cases hs
      exact ⟨by decide +kernel, rfl⟩
    · cases hs
  sizes := by
    change ∀ s ∈ linedSections, _
    simp only [linedSections, List.forall_mem_cons]
    exact ⟨by decide, by decide, nofun⟩

theorem lined_plain : linedDescription.LineSections := by
  have hline : linedDescription.index debugLineName = some 1 := by decide
  have hstr : linedDescription.index debugStrName = none := by decide
  have hlineStr : linedDescription.index debugLineStrName = none := by decide
  refine ⟨fun i hi => ?_, fun i hi => ?_, fun i hi => ?_⟩
  · rw [hline] at hi
    cases hi
    exact ⟨_, linedUnit, 0, rfl, rfl⟩
  · rw [hstr] at hi
    cases hi
  · rw [hlineStr] at hi
    cases hi

theorem lines_described_rows : ∃ f,
    construct.run (File.blank elf32 .little "lined" lined32 fun _ => 0) = (.ok (), f) ∧
      ((debugLines (fun _ b => b) 40).run (afterLines (fun _ b => b) 40
        [.debugLines, .request .countSections, .debugLines] { file := f })).1 =
        linedDescription.lines (fun _ b => b) 40 .little 1 :=
  lines_described (.inl rfl) rfl lined_encodes lined_plain "lined" _ _ 40 _

end Gelpp.Elf
