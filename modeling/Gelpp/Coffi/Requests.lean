import Gelpp.Coffi.Memory

namespace Gelpp.Coffi

open Effect CoffM

inductive Request where
  | entry
  | count
  | segment (i : Nat)
  | countSections
  | sectionAt (i : Nat)
  | findSection (name : String)
  | make
  | symbols
  | debugLines
  deriving DecidableEq

inductive Reply where
  | entry (a : UInt64)
  | count (n : Nat)
  | view (v : SegmentView)
  | found (s : Option SectionRecord)
  | image (im : Gelpp.Image)
  | table (t : SymbolTable)
  | lines (dl : Option Dwarf.DebugLine)

structure Setting where
  scn : Scn
  styp : Styp
  junk : Nat → UInt8
  join : Dwarf.Path → Dwarf.Path → Dwarf.Path
  fuel : Nat

def CoffM.segmentView (scn : Scn) (i : Nat) : CoffM SegmentView := do
  let f ← get
  match f.segments[i]? with
  | some s => return s.view scn
  | none => raise (.fault .index)

section
variable (e : Setting)

def serve : Request → CoffM Reply
  | .entry => do return .entry (← entry)
  | .count => do return .count (← (fileOps e.scn).count)
  | .segment i => do return .view (← segmentView e.scn i)
  | .countSections => do return .count (← countSections)
  | .sectionAt i => do
    let s ← CoffM.sectionAt i
    return .view (s.view e.scn)
  | .findSection name => do return .found (← findSection name)
  | .make => do return .image (← make e.scn e.junk)
  | .symbols => do return .table (← CoffM.symbols e.styp)
  | .debugLines => do return .lines (← debugLines e.join e.fuel)

def answer (r : Request) (f : CoffFile) : Res Reply := ((serve e r).run f).1

def after (rs : List Request) (f : CoffFile) : CoffFile := rs.foldl (fun f r => ((serve e r).run f).2) f

def Coff.lines (c : Coff) : Res (Option Dwarf.DebugLine) :=
  match c.sections.find? fun s => s.name == ".debug_line" with
  | some s => do
    let buf ← s.buffer
    return some (← Dwarf.debugLineOfBuffer e.join e.fuel buf)
  | none => .ok none

def Coff.remembered (c : Coff) : Option Dwarf.DebugLine := (c.lines e).toOption.join

def lookedUp (sections : List UInt32) (k : Int16) : Option UInt32 :=
  if k.toUInt16.toNat < sections.length then sections[k.toInt.toNat - 1]? else none

def made (st : Styp) (sections : List UInt32) (r : Record) : Symbol where
  name := r.name
  type := ((lookedUp sections r.sectionNumber).map (symbolType st r)).getD .noType
  bind := .global
  value := r.value

def tableOf (rd : Reader) : SymbolTable :=
  rd.symbols.foldl (fun t r => t.put r.name (made e.styp rd.sections r)) []

structure Reader.Ends (rd : Reader) : Prop where
  ti : rd.architecture = .ti
  numbers : ∀ r ∈ rd.symbols,
    r.sectionNumber.toUInt16.toNat < rd.sections.length → 1 ≤ r.sectionNumber.toInt

structure Kept (f g : CoffFile) (rs : List Request) : Prop where
  coff : g.coff = f.coff
  sections : g.sections = f.sections
  segments : g.segments = f.segments
  symbols : g.symbols = f.symbols ∨
    g.symbols = { reader := f.symbols.reader, symtab := some (tableOf e f.symbols.reader) }
  before : .debugLines ∉ rs → g.debugInit = false ∧ g.debug = none
  later : .debugLines ∈ rs → g.debugInit = true ∧ g.debug = f.coff.remembered e

end

section
variable {e : Setting} {f g : CoffFile} {rs : List Request} {r : Request}

theorem readLines_run (h : g.debug = none) (hsections : g.sections = g.coff.sections) :
    (readLines e.join e.fuel).run g =
      ((g.coff.lines e).map fun _ => (), { g with debug := g.coff.remembered e }) := by
  have hfind : (findSection ".debug_line").run g =
      (.ok (g.coff.sections.find? fun s => s.name == ".debug_line"), g) := by
    rw [← hsections]
    rfl
  have hsame : { g with debug := none } = g := by rw [← h]
  rw [readLines, bind_of_ok hfind, Coff.remembered, Coff.lines]
  cases g.coff.sections.find? fun s => s.name == ".debug_line" with
  | none => exact congrArg (Prod.mk _) hsame.symm
  | some s =>
    dsimp only
    cases hbuf : s.buffer with
    | error x => exact congrArg (Prod.mk _) hsame.symm
    | ok buf =>
      rw [lift_ok_bind, Res.ok_bind]
      cases Dwarf.debugLineOfBuffer e.join e.fuel buf with
      | error x => exact congrArg (Prod.mk _) hsame.symm
      | ok dl => rfl

theorem debugLines_first (hinit : g.debugInit = false) (h : g.debug = none)
    (hsections : g.sections = g.coff.sections) :
    (debugLines e.join e.fuel).run g =
      (g.coff.lines e, { g with debugInit := true, debug := g.coff.remembered e }) := by
  have hread := readLines_run (e := e) (g := { g with debugInit := true }) h hsections
  rw [debugLines, get_bind, hinit, if_neg Bool.false_ne_true, modify_bind]
  cases hlines : g.coff.lines e with
  | error x =>
    rw [hlines] at hread
    exact bind_of_error hread
  | ok o =>
    rw [hlines] at hread
    rw [bind_of_ok hread, get_bind, Coff.remembered, hlines]
    cases o <;> rfl

theorem debugLines_again (hinit : g.debugInit = true) :
    (debugLines e.join e.fuel).run g = (.ok g.debug, g) := by
  rw [debugLines, get_bind, hinit]
  rfl

def Request.Caching (r : Request) : Prop := r = .symbols ∨ r = .debugLines

theorem reply_unmoved {α : Type} {m : CoffM α} (k : α → Reply) (h : m.run g = ((m.run f).1, g)) :
    (do return k (← m) : CoffM Reply).run g = (((do return k (← m) : CoffM Reply).run f).1, g) := by
  cases hm : m.run f with
  | mk x t =>
    rw [hm] at h
    cases x with
    | ok a => rw [bind_of_ok h, bind_of_ok hm, pure_run, pure_run]
    | error x => rw [bind_of_error h, bind_of_error hm]

theorem serve_plain (hopened : Opened e.scn f) (hr : ¬ r.Caching) (hcoff : g.coff = f.coff)
    (hsections : g.sections = f.sections) (hsegments : g.segments = f.segments) :
    (serve e r).run g = (answer e r f, g) := by
  cases r with
  | entry =>
    refine reply_unmoved .entry ?_
    rw [entry, get_bind, get_bind, hcoff]
    cases f.coff.optionalHeader <;> rfl
  | count =>
    refine reply_unmoved .count ?_
    rw [fileOps]
    dsimp only
    rw [get_bind, get_bind, hsegments]
    rfl
  | segment i =>
    refine reply_unmoved .view ?_
    rw [segmentView, get_bind, get_bind, hsegments]
    cases f.segments[i]? <;> rfl
  | countSections =>
    refine reply_unmoved .count ?_
    rw [countSections, get_bind, get_bind, hsections]
    rfl
  | sectionAt i =>
    refine reply_unmoved (fun s : SectionRecord => .view (s.view e.scn)) ?_
    rw [CoffM.sectionAt, get_bind, get_bind, hsections]
    cases f.sections[i]? <;> rfl
  | findSection name =>
    refine reply_unmoved .found ?_
    rw [findSection, get_bind, get_bind, hsections]
    rfl
  | make =>
    refine reply_unmoved .image ?_
    have hmake (h : CoffFile) (hs : h.segments = f.segments) :
        (make e.scn e.junk).run h = (.ok (f.coff.image e.scn), h) := by
      have hgives : Gives (fun h' => h' = h) (make e.scn e.junk) (.ok (f.coff.image e.scn)) :=
        make_gives (by rintro h' rfl; rw [hs, hopened.segments]) e.junk
      obtain ⟨h', hrun, rfl⟩ := hgives h rfl
      exact hrun
    rw [hmake g hsegments, hmake f rfl]
  | symbols => exact absurd (.inl rfl) hr
  | debugLines => exact absurd (.inr rfl) hr

theorem answer_debugLines (hopened : Opened e.scn f) :
    answer e .debugLines f = (f.coff.lines e).map .lines := by
  rw [answer, serve]
  have hfirst := debugLines_first (e := e) hopened.debugInit hopened.debug hopened.sections
  cases hlines : f.coff.lines e with
  | error x =>
    rw [hlines] at hfirst
    rw [bind_of_error hfirst]
    rfl
  | ok o =>
    rw [hlines] at hfirst
    rw [bind_of_ok hfirst]
    rfl

theorem onSymbols_run {α : Type} (m : FileM α) (g : CoffFile) :
    (onSymbols m).run g = ((m.run g.symbols).1, { g with symbols := (m.run g.symbols).2 }) := rfl

theorem symbolOf_made {sections : List UInt32} {r : Record}
    (h : r.sectionNumber.toUInt16.toNat < sections.length → 1 ≤ r.sectionNumber.toInt) :
    symbolOf e.styp sections r = .ok (made e.styp sections r) := by
  have hfound : containingSection sections r.sectionNumber = .ok (lookedUp sections r.sectionNumber) := by
    rw [containingSection, lookedUp]
    by_cases hlt : r.sectionNumber.toUInt16.toNat < sections.length
    · have hpos := h hlt
      have hword := toUInt16_toNat r.sectionNumber
      rw [if_pos (by omega)] at hword
      have hin : r.sectionNumber.toInt.toNat - 1 < sections.length := by omega
      have hindex : (r.sectionNumber.toInt - 1).toNat = r.sectionNumber.toInt.toNat - 1 := by omega
      rw [if_pos hlt, if_pos hlt, sectionAt, if_pos (by omega), hindex, List.getElem?_eq_getElem hin]
      rfl
    · rw [if_neg hlt, if_neg hlt]
  rw [symbolOf, hfound]
  rfl

theorem symbols_kept (hc : f.symbols.reader.Ends)
    (hopened : f.symbols.symtab = none) (hg : g.symbols = f.symbols ∨
      g.symbols = { reader := f.symbols.reader, symtab := some (tableOf e f.symbols.reader) }) :
    (CoffM.symbols e.styp).run g = (.ok (tableOf e f.symbols.reader), { g with
      symbols := { reader := f.symbols.reader, symtab := some (tableOf e f.symbols.reader) } }) := by
  have hstart : f.symbols = { reader := f.symbols.reader } := by
    rw [← hopened]
  have hrun : (FileM.symbols e.styp).run g.symbols = (.ok (tableOf e f.symbols.reader), {
      reader := f.symbols.reader, symtab := some (tableOf e f.symbols.reader) }) := by
    rcases hg with h | h
    · rw [h, hstart]
      exact symbols_run hc.ti fun r hr => symbolOf_made (hc.numbers r hr)
    · rw [h]
      rfl
  rw [CoffM.symbols, onSymbols_run, hrun]

def expected (e : Setting) (f : CoffFile) (rs : List Request) (r : Request) : Res Reply :=
  if r = .debugLines ∧ .debugLines ∈ rs then .ok (.lines (f.coff.remembered e)) else answer e r f

theorem serve_kept (hopened : Opened e.scn f) (hsym : r = .symbols → f.symbols.reader.Ends)
    (hg : Kept e f g rs) : ((serve e r).run g).1 = expected e f rs r ∧
      Kept e f ((serve e r).run g).2 (rs ++ [r]) := by
  by_cases hr : r.Caching
  · rcases hr with rfl | rfl
    · have hc := hsym rfl
      have hrun := symbols_kept hc hopened.symtab hg.symbols
      have hfirst := symbols_kept (e := e) (g := f) hc hopened.symtab (.inl rfl)
      rw [serve, bind_of_ok hrun, expected, if_neg (fun h => by cases h.1), answer, serve, bind_of_ok hfirst]
      exact ⟨rfl, hg.coff, hg.sections, hg.segments, .inr rfl,
        fun h => hg.before fun hin => h (List.mem_append_left _ hin),
        fun h => hg.later ((List.mem_append.mp h).resolve_right fun h => by simp at h)⟩
    · by_cases hin : .debugLines ∈ rs
      · obtain ⟨hinit, hdebug⟩ := hg.later hin
        rw [serve, bind_of_ok (debugLines_again hinit), expected, if_pos ⟨rfl, hin⟩, hdebug]
        exact ⟨rfl, hg.coff, hg.sections, hg.segments, hg.symbols,
          fun h => absurd (List.mem_append_left _ hin) h, fun _ => ⟨hinit, hdebug⟩⟩
      · obtain ⟨hinit, hdebug⟩ := hg.before hin
        have hfirst := debugLines_first (e := e) hinit hdebug (by rw [hg.sections, hg.coff, hopened.sections])
        have hkept : Kept e f { g with debugInit := true, debug := g.coff.remembered e }
            (rs ++ [.debugLines]) :=
          ⟨hg.coff, hg.sections, hg.segments, hg.symbols,
            fun h => absurd (List.mem_append_right _ (List.mem_singleton_self _)) h,
            fun _ => ⟨rfl, by rw [hg.coff]⟩⟩
        rw [expected, if_neg fun h => hin h.2, answer_debugLines hopened, ← hg.coff, serve]
        cases hlines : g.coff.lines e with
        | error x =>
          rw [hlines] at hfirst
          rw [bind_of_error hfirst]
          exact ⟨rfl, hkept⟩
        | ok o =>
          rw [hlines] at hfirst
          rw [bind_of_ok hfirst]
          exact ⟨rfl, hkept⟩
  · have hne : r ≠ .debugLines := fun h => hr (.inr h)
    rw [serve_plain hopened hr hg.coff hg.sections hg.segments, expected, if_neg fun h => hne h.1]
    refine ⟨rfl, hg.coff, hg.sections, hg.segments, hg.symbols,
      fun h => hg.before fun hin => h (List.mem_append_left _ hin), fun h => hg.later ?_⟩
    exact (List.mem_append.mp h).resolve_right fun h => hne (List.mem_singleton.mp h).symm

theorem after_kept (hopened : Opened e.scn f) (hsym : .symbols ∈ rs → f.symbols.reader.Ends) :
    Kept e f (after e rs f) rs := by
  induction rs using List.reverseRecOn with
  | nil =>
    exact ⟨rfl, rfl, rfl, .inl rfl, fun _ => ⟨hopened.debugInit, hopened.debug⟩, fun h => by cases h⟩
  | append_singleton rs r ih =>
    rw [after, List.foldl_append]
    have hbefore := ih fun h => hsym (List.mem_append_left _ h)
    refine (serve_kept hopened (fun h => hsym ?_) hbefore).2
    exact List.mem_append_right _ (List.mem_singleton.mpr h.symm)

end

theorem coff_requests {e : Setting} {path : String} {load : Option Coff} {f : CoffFile}
    (h : construct e.scn path load = .ok f) (rs : List Request) (r : Request)
    (hsym : .symbols ∈ rs ++ [r] → f.symbols.reader.Ends) :
    answer e .debugLines f = (f.coff.lines e).map .lines ∧ answer e r (after e rs f) =
      if r = .debugLines ∧ .debugLines ∈ rs then .ok (.lines (f.coff.remembered e)) else answer e r f := by
  obtain ⟨-, hopened⟩ := construct_opened h
  have hkept := after_kept hopened fun hin => hsym (List.mem_append_left _ hin)
  refine ⟨answer_debugLines hopened, (serve_kept hopened (fun hr => hsym ?_) hkept).1⟩
  exact List.mem_append_right _ (List.mem_singleton.mpr hr.symm)

-- A line section that ends in its first length.
def shortSection : SectionRecord where
  name := ".debug_line"
  virtualAddress := 0
  physicalAddress := 0
  alignment := 1
  flags := 0x200
  dataOffset := 66
  dataSize := 1
  data := some [7]
  sized bytes h := by
    cases h
    rfl

-- A function of the code section, one of the last section and an absolute symbol.
def shortSymbols : List Record := [function 1, { function 2 with name := [103] }, function (-1)]

def shortCoff : Coff where
  architecture := some .ti
  sections := [codeSection, shortSection]
  symbols := shortSymbols

def shortSetting : Setting := ⟨scn, styp, fun _ => 0, fun _ b => b, 5⟩

def shortFile : CoffFile where
  coff := shortCoff
  base := 0
  sections := [codeSection, shortSection]
  segments := [codeSection]
  symbols := { reader := { architecture := .ti, sections := [0x20, 0x200], symbols := shortSymbols } }

theorem coff_requests_short : answer shortSetting .debugLines shortFile =
      (shortFile.coff.lines shortSetting).map .lines ∧
    answer shortSetting .symbols (after shortSetting [.symbols, .debugLines, .make] shortFile) =
      if .symbols = Request.debugLines ∧ .debugLines ∈ [Request.symbols, .debugLines, .make] then
        .ok (.lines (shortFile.coff.remembered shortSetting))
      else answer shortSetting .symbols shortFile := by
  have hopened : construct shortSetting.scn "ti" (some shortCoff) = .ok shortFile := rfl
  refine coff_requests hopened _ _ fun _ => ⟨rfl, ?_⟩
  change ∀ r ∈ shortSymbols, r.sectionNumber.toUInt16.toNat < 2 → 1 ≤ r.sectionNumber.toInt
  decide

example : (shortFile.coff.lines shortSetting).toOption.isNone := by decide +kernel

end Gelpp.Coffi
