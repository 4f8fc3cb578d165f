import Gelpp.Elf.Calm

namespace Gelpp.Elf

open FileM Effect

section
variable {E : Tables → Tables → Prop} {b : Source} {f g : File}

theorem Agree.source (h : Agree E b f g) : f.source = g.source := h.left.source.trans h.right.source.symm

structure Keeps (E : Tables → Tables → Prop) : Prop where
  syms : ∀ f g : File, E f.tables g.tables → f.syms = g.syms
  set : ∀ (f g : File) (t : SymbolTable), E f.tables g.tables →
    E { f with syms := some t }.tables { g with syms := some t }.tables

theorem Agree.syms (h : Agree E b f g) (hE : Keeps E) : f.syms = g.syms := hE.syms f g h.tables

theorem Agree.setSyms (h : Agree E b f g) (hE : Keeps E) (t : SymbolTable) :
    Agree E b { f with syms := some t } { g with syms := some t } :=
  ⟨⟨h.left.source, h.left.loaded⟩, ⟨h.right.source, h.right.loaded⟩, hE.set f g t h.tables⟩

theorem Alike.setSyms (h : Alike E b f g) (hE : Keeps E) (t : SymbolTable) :
    Alike E b { f with syms := some t } { g with syms := some t } :=
  ⟨h.toAgree.setSyms hE t, h.leftCalm, h.rightCalm⟩

theorem Loads.setSyms (h : Loads E b f g) (hE : Keeps E) (t : SymbolTable) :
    Loads E b { f with syms := some t } { g with syms := some t } :=
  ⟨h.toAlike.setSyms hE t, h.leftLoaded, h.rightLoaded⟩

theorem at_twin {α : Type} {E : File → File → Prop} {Q : α → File → File → Prop} (l : List α)
    (i : Int) (hQ : ∀ a, Q a f g) (hE : E f g) :
    Twin E Q ((at_ l i).run f) ((at_ l i).run g) := by
  unfold at_
  refine Twin.ite (fun _ => ?_) fun _ => .error hE
  cases l[i.toNat]? with
  | some a => exact .ok (hQ a)
  | none => exact .error hE

theorem stringAt_twin (offset : Nat) (sect : Int) : Named E b (stringAt offset sect) :=
  stringIn_twin (contentFor_twin 2) offset sect

theorem fillSymbol_twin (hE : Keeps E) (h : Loads E b f g) (mem entsize : Nat) (str : Int) (i : Nat) :
    Twin (Loads E b) (fun _ => Loads E b) ((fillSymbol mem entsize str i).run f)
      ((fillSymbol mem entsize str i).run g) := by
  have hsource := h.source
  have hhost : g.host = f.host := congrArg Source.host hsource.symm
  have hlayout : g.layout = f.layout := congrArg Source.layout hsource.symm
  have hdata : g.eiData = f.eiData := congrArg (fun b => b.h.ident.getD 5 0) hsource.symm
  rw [fillSymbol, get_bind, get_bind, hhost, hlayout, hdata, h.syms hE]
  refine Twin.bind (at_twin _ _ (fun _ => h) h) fun buf f1 g1 h1 => ?_
  refine Twin.bind (Twin.lift (Q := fun _ => Loads E b) (fun _ _ => h1) h1)
    fun mem' f2 g2 h2 => ?_
  rw [modify_bind, modify_bind]
  refine Twin.bind (Twin.lift (Q := fun _ => Loads E b) (fun _ _ => h2.setSyms hE _)
    (h2.setSyms hE _)) fun sym f3 g3 h3 => ?_
  refine Twin.bind (stringAt_twin sym.name str f3 g3 h3) fun name f4 g4 h4 => ?_
  rw [modify_run, modify_run, h4.syms hE]
  exact .ok (h4.setSyms hE _)

theorem fillSymbolTable_twin (hE : Keeps E) (h : Loads E b f g) (s : Shdr) :
    Twin (Loads E b) (fun _ => Loads E b) ((fillSymbolTable s).run f)
      ((fillSymbolTable s).run g) := by
  refine Twin.bind (readAll_twin h s.offset s.size) fun raw f1 g1 ⟨h1, _⟩ => ?_
  rw [get_bind, get_bind, modify_bind, modify_bind, h1.syms hE]
  refine Twin.bind (entries_twin (h1.setSyms hE _) (name_twin s) s) fun count f2 g2 ⟨h2, _⟩ => ?_
  exact Twin.forM (Loads E b) (S := Eq) (fun i j f3 g3 hij h3 => hij ▸ fillSymbol_twin hE h3 _ _ _ i)
    (List.forall₂_refl _) h2

theorem fillFrom_twin (hE : Keeps E) (h : Loads E b f g) {s t : Section} (hst : s.ptr = t.ptr) :
    Twin (Loads E b) (fun _ => Loads E b) ((fillFrom s).run f) ((fillFrom t).run g) := by
  rw [fillFrom, fillFrom, get_bind, get_bind, h.left.shdr h.leftLoaded, h.right.shdr h.rightLoaded,
    hst]
  refine Twin.bind (Twin.lift (Q := fun _ => Loads E b) (fun _ _ => h) h)
    fun sh f1 g1 h1 => ?_
  exact Twin.ite (fun _ => fillSymbolTable_twin hE h1 sh) fun _ => .ok h1

theorem Loads.sects (h : Loads E b f g) :
    List.Forall₂ (fun s t : Section => s.ptr = t.ptr) f.sects g.sects := by
  have hmap : f.sects.map Section.ptr = g.sects.map Section.ptr :=
    (h.left.ptrs h.leftLoaded).trans (h.right.ptrs h.rightLoaded).symm
  have hall : List.Forall₂ Eq (f.sects.map Section.ptr) (g.sects.map Section.ptr) :=
    hmap ▸ List.forall₂_refl _
  rwa [List.forall₂_map_left_iff, List.forall₂_map_right_iff] at hall

def fillSymbols : FileM SymbolTable := do
  let sects ← sections
  sects.forM fillFrom
  let f ← get
  return f.syms.getD {}

theorem fillSymbols_twin (hE : Keeps E) (h : Alike E b f g) :
    Twin (Alike E b) (fun t f' g' => Loads E b f' g' ∧ t = f'.syms.getD {})
      (fillSymbols.run f) (fillSymbols.run g) := by
  refine sections_twin h fun f1 g1 h1 => ?_
  refine Twin.mono (E := Loads E b) ?_ (fun _ _ h' => h'.toAlike) fun _ _ _ h' => h'
  refine Twin.bind (Twin.forM (Loads E b) (fun s t f2 g2 hst h2 => fillFrom_twin hE h2 hst)
    h1.sects h1) fun _ f2 g2 h2 => ?_
  rw [get_bind, get_bind, h2.syms hE]
  exact .ok ⟨h2, by rw [h2.syms hE]⟩

theorem symbols_run (hs : f.syms = none) :
    symbols.run f = fillSymbols.run { f with syms := some {} } := by
  rw [symbols, get_bind, hs]
  rfl

theorem keeps_eq : Keeps Eq where
  syms _ _ h := congrArg (fun x => x.2.2.2.1) h
  set _ _ t h := congrArg (fun x => (x.1, x.2.1, x.2.2.1, some t, x.2.2.2.2)) h

theorem symbols_twin (h : Agree Eq b f g) (hc : f.syms = none → f.Calm ∧ g.Calm) :
    Twin (Agree Eq b) (fun _ => Agree Eq b) (symbols.run f) (symbols.run g) := by
  cases hs : f.syms with
  | some table =>
    rw [symbols, get_bind, get_bind, ← h.syms keeps_eq, hs]
    exact .ok h
  | none =>
    obtain ⟨hf, hg⟩ := hc hs
    have hstart : Alike Eq b { f with syms := some {} } { g with syms := some {} } :=
      ⟨h.setSyms keeps_eq _, hf, hg⟩
    rw [symbols_run hs, symbols_run (h.syms keeps_eq ▸ hs)]
    exact Twin.mono (fillSymbols_twin keeps_eq hstart) (fun _ _ h' => h'.toAgree)
      fun _ _ _ h' => h'.1.toAgree

theorem alloc_twin {E : File → File → Prop} {Q : List UInt8 → File → File → Prop}
    (hs : f.source = g.source) (n : Nat) (hQ : ∀ buf, Q buf f g) (hE : E f g) :
    Twin E Q ((alloc n).run f) ((alloc n).run g) := by
  have hjunk : fresh f n = fresh g n := congrArg (fun b => b.fresh n) hs
  rw [alloc_run, alloc_run, hjunk]
  split
  · exact .ok (hQ _)
  · exact .error hE

theorem readAt_twin {E : File → File → Prop} {Q : List UInt8 → File → File → Prop}
    (hs : f.source = g.source) (hf : f.Calm) (hg : g.Calm) (pos size : Nat) (buf : List UInt8)
    (hQ : ∀ buf, Q buf (consulted f pos size) (consulted g pos size))
    (hE : E (consulted f pos size) (consulted g pos size)) :
    Twin E Q ((readAt pos size buf).run f) ((readAt pos size buf).run g) := by
  rw [readAt_calm hf, readAt_calm hg, hs]
  cases g.source.read pos size buf with
  | ok raw => exact .ok (hQ raw)
  | error e => exact .error hE

theorem Agree.setPhBuf (h : Agree Eq b f g) (buf : Option (List UInt8)) :
    Agree Eq b { f with phBuf := buf } { g with phBuf := buf } :=
  ⟨⟨h.left.source, h.left.loaded⟩, ⟨h.right.source, h.right.loaded⟩,
    congrArg (fun x => (x.1, buf, x.2.2)) h.tables⟩

def headersAt (h : Ehdr) : List ProgramHeader :=
  (List.range h.phnum).map fun i => { ptr := i * h.phentsize }

theorem Agree.setHeaders (h : Agree Eq b f g) (buf : Option (List UInt8)) :
    Agree Eq b { f with phBuf := buf, phs := headersAt f.h }
      { g with phBuf := buf, phs := headersAt g.h } := by
  have hh : headersAt f.h = headersAt g.h := congrArg (fun b => headersAt b.h) h.source
  have htables := congrArg (fun x => (x.1, buf, headersAt f.h, x.2.2.2)) h.tables
  exact ⟨⟨h.left.source, h.left.loaded⟩, ⟨h.right.source, h.right.loaded⟩,
    htables.trans (congrArg (fun phs => (g.phLoaded, buf, phs, g.tables.2.2.2)) hh)⟩

theorem Agree.ticked (h : Agree Eq b f g) (j k : List Asked) : Agree Eq b (ticked f j) (ticked g k) :=
  ⟨h.left.ticked j, h.right.ticked k, h.tables⟩

theorem loadProgramHeaders_twin (h : Agree Eq b f g) (hc : f.phBuf = none → f.Calm ∧ g.Calm) :
    Twin (Agree Eq b) (fun _ => Agree Eq b) (loadProgramHeaders.run f) (loadProgramHeaders.run g) := by
  have hbuf : f.phBuf = g.phBuf := congrArg (fun x => x.2.1) h.tables
  have hh : g.h = f.h := congrArg Source.h h.source.symm
  have hhost : g.host = f.host := congrArg Source.host h.source.symm
  have hlayout : g.layout = f.layout := congrArg Source.layout h.source.symm
  have hdata : g.eiData = f.eiData := congrArg (fun h : Ehdr => h.ident.getD 5 0) hh
  rw [loadProgramHeaders, get_bind, get_bind, ← hbuf]
  cases hp : f.phBuf with
  | some buf => exact .ok h
  | none =>
    obtain ⟨hf, hg⟩ := hc hp
    dsimp only
    rw [hh, hhost, hlayout, hdata]
    refine Twin.bind (Twin.lift (Q := fun _ f' g' => f' = f ∧ g' = g) (fun _ _ => ⟨rfl, rfl⟩) h)
      fun size f1 g1 ⟨hf1, hg1⟩ => ?_
    rw [hf1, hg1]
    refine Twin.bind (alloc_twin (Q := fun _ f' g' => f' = f ∧ g' = g) h.source size
      (fun _ => ⟨rfl, rfl⟩) h) fun buf f2 g2 ⟨hf2, hg2⟩ => ?_
    rw [hf2, hg2, modify_bind, modify_bind]
    have hset := h.setPhBuf (some buf)
    refine Twin.bind (readAt_twin (Q := fun _ => Agree Eq b) hset.source hf hg _ _ _
      (fun _ => hset.ticked _ _) (hset.ticked _ _)) fun raw f3 g3 h3 => ?_
    refine Twin.bind (Twin.lift (Q := fun _ => Agree Eq b) (fun _ _ => h3) h3) fun mem f4 g4 h4 => ?_
    exact .ok (h4.setHeaders (some mem))

theorem programHeaders_twin (h : Agree Eq b f g) (hc : f.phBuf = none → f.Calm ∧ g.Calm) :
    Twin (Agree Eq b) (fun phs f' g' => Agree Eq b f' g' ∧ phs = f'.phs)
      (programHeaders.run f) (programHeaders.run g) := by
  have hloaded : g.phLoaded = f.phLoaded := congrArg (fun x => x.1) h.tables.symm
  have hphs : g.phs = f.phs := congrArg (fun x => x.2.2.1) h.tables.symm
  rw [programHeaders, get_bind, get_bind, hloaded, hphs]
  refine Twin.ite (fun _ => .ok ⟨h, rfl⟩) fun _ => ?_
  refine Twin.bind (loadProgramHeaders_twin h hc) fun _ f1 g1 h1 => ?_
  have hphs1 : g1.phs = f1.phs := congrArg (fun x => x.2.2.1) h1.tables.symm
  have hset : Agree Eq b { f1 with phLoaded := true } { g1 with phLoaded := true } :=
    ⟨⟨h1.left.source, h1.left.loaded⟩, ⟨h1.right.source, h1.right.loaded⟩,
      congrArg (fun x => (true, x.2)) h1.tables⟩
  exact ⟨congrArg Except.ok hphs1, hset, rfl⟩

theorem Agree.phdr (h : Agree Eq b f g) (ptr : Nat) : f.phdr ptr = g.phdr ptr := by
  have hbuf : f.phBuf = g.phBuf := congrArg (fun x => x.2.1) h.tables
  have hhost : f.host = g.host := congrArg Source.host h.source
  have hlayout : f.layout = g.layout := congrArg Source.layout h.source
  rw [File.phdr, File.phdr, hbuf, hhost, hlayout]

theorem addSegment_twin (h : Agree Eq b f g) (i : Nat) : Twin (Agree Eq b) (fun _ => Agree Eq b)
    ((addSegment i).run f) ((addSegment i).run g) := by
  have hphs : g.phs = f.phs := congrArg (fun x => x.2.2.1) h.tables.symm
  rw [addSegment, get_bind, get_bind, hphs]
  refine Twin.bind (at_twin _ _ (fun _ => h) h) fun ph f1 g1 h1 => ?_
  have hphdr : g.phdr ph.ptr = f.phdr ph.ptr := (h.phdr ph.ptr).symm
  rw [hphdr]
  refine Twin.bind (Twin.lift (Q := fun _ => Agree Eq b) (fun _ _ => h1) h1) fun p f2 g2 h2 => ?_
  refine Twin.ite (fun _ => ?_) fun _ => .ok h2
  have hsegs : g2.segs = f2.segs := congrArg (fun x => x.2.2.2.2.1) h2.tables.symm
  rw [modify_run, modify_run, hsegs]
  exact .ok ⟨⟨h2.left.source, h2.left.loaded⟩, ⟨h2.right.source, h2.right.loaded⟩,
    congrArg (fun x => (x.1, x.2.1, x.2.2.1, x.2.2.2.1, f2.segs ++ [{ head := i }], x.2.2.2.2.2))
      h2.tables⟩

theorem initSegments_twin (h : Agree Eq b f g) (hc : f.phBuf = none → f.Calm ∧ g.Calm) :
    Twin (Agree Eq b) (fun _ => Agree Eq b) (initSegments.run f) (initSegments.run g) := by
  have hinit : g.segsInit = f.segsInit := congrArg (fun x => x.2.2.2.2.2) h.tables.symm
  rw [initSegments, get_bind, get_bind, hinit]
  refine Twin.ite (fun _ => .ok h) fun _ => ?_
  refine Twin.bind (programHeaders_twin h hc) fun phs f1 g1 ⟨h1, _⟩ => ?_
  refine Twin.bind (Twin.forM (Agree Eq b) (S := Eq)
    (fun i j f2 g2 hij h2 => hij ▸ addSegment_twin h2 i) (List.forall₂_refl _) h1)
    fun _ f2 g2 h2 => ?_
  exact .ok ⟨⟨h2.left.source, h2.left.loaded⟩, ⟨h2.right.source, h2.right.loaded⟩,
    congrArg (fun x => (x.1, x.2.1, x.2.2.1, x.2.2.2.1, x.2.2.2.2.1, true)) h2.tables⟩

theorem initSections_settles (h : Coherent b f) : ∃ r f', initSections.run f = (r, f') ∧
    Coherent b f' ∧ f'.tables = f.tables ∧ (∀ u, r = .ok u → f'.sectsLoaded = true) := by
  rw [initSections, get_bind]
  cases hl : f.sectsLoaded with
  | true => exact ⟨_, _, rfl, h, rfl, fun _ _ => hl⟩
  | false =>
    by_cases hs : Serves f
    · cases htable : b.sectionTable with
      | ok buf =>
        obtain ⟨k, hk⟩ := loadSections_ok hs (h.source ▸ htable)
        exact ⟨_, _, bind_of_ok hk, h.of_table htable k, rfl, fun _ _ => rfl⟩
      | error e =>
        obtain ⟨k, hk⟩ := loadSections_error hs (h.source ▸ htable)
        exact ⟨_, _, bind_of_error hk, h.ticked k, rfl, fun _ hu => by cases hu⟩
    · obtain ⟨e, k, hk⟩ := loadSections_unserved hs
      exact ⟨_, _, bind_of_error hk, h.ticked k, rfl, fun _ hu => by cases hu⟩

end

inductive Call where
  | programHeaders
  | sections
  | symbols
  | count
  | segment (i : Int)
  deriving DecidableEq, Repr

inductive Value where
  | headers (l : List (Res Phdr))
  | sections (l : List (Res Shdr))
  | symbols (t : SymbolTable)
  | count (n : Nat)
  | segment (p : Res Phdr)

def File.segmentHeader (f : File) (s : Segment) : Res Phdr :=
  match f.phs[s.head]? with
  | some h => f.phdr h.ptr
  | none => .error (.fault .index)

def answer : Call → FileM Value
  | .programHeaders => do
    let phs ← programHeaders
    let f ← get
    return .headers (phs.map fun h => f.phdr h.ptr)
  | .sections => do
    let sects ← sections
    let f ← get
    return .sections (sects.map fun s => f.shdr s.ptr)
  | .symbols => do return .symbols (← symbols)
  | .count => do return .count (← count)
  | .segment i => do
    let s ← segment i
    let f ← get
    return .segment (f.segmentHeader s)

def make (x : Call × (Nat → Bool)) (f : File) : Res Value × File :=
  (answer x.1).run { f with stream.fails := x.2, stream.count := 0, stream.asked := [] }

def results : List (Call × (Nat → Bool)) → File → List (Res Value)
  | [], _ => []
  | x :: xs, f => (make x f).1 :: results xs (make x f).2

def never : Nat → Bool := fun _ => false

def Spared (f : File) (x : Call × (Nat → Bool)) : Prop :=
  match x.1 with
  | .sections => True
  | .symbols => f.syms = none → x.2 = never
  | _ => f.phBuf = none → x.2 = never

def AllSpared : List (Call × (Nat → Bool)) → File → Prop
  | [], _ => True
  | x :: xs, f => Spared f x ∧ AllSpared xs (make x f).2

section
variable {b : Source} {f g : File}

theorem headers_twin (h : Agree Eq b f g) (hc : f.phBuf = none → f.Calm ∧ g.Calm) :
    Twin (Agree Eq b) (fun _ => Agree Eq b) ((answer .programHeaders).run f)
      ((answer .programHeaders).run g) := by
  refine Twin.bind (programHeaders_twin h hc) fun phs f1 g1 ⟨h1, _⟩ => ?_
  have hphdr : f1.phdr = g1.phdr := funext h1.phdr
  rw [get_bind, get_bind, hphdr]
  exact .ok h1

theorem count_twin (h : Agree Eq b f g) (hc : f.phBuf = none → f.Calm ∧ g.Calm) :
    Twin (Agree Eq b) (fun _ => Agree Eq b) ((answer .count).run f) ((answer .count).run g) := by
  have hcount : Twin (Agree Eq b) (fun _ => Agree Eq b) (count.run f) (count.run g) := by
    refine Twin.bind (initSegments_twin h hc) fun _ f1 g1 h1 => ?_
    have hsegs : g1.segs = f1.segs := congrArg (fun x => x.2.2.2.2.1) h1.tables.symm
    rw [get_bind, get_bind, hsegs]
    exact .ok h1
  exact Twin.bind hcount fun _ _ _ h1 => .ok h1

theorem segment_twin (h : Agree Eq b f g) (hc : f.phBuf = none → f.Calm ∧ g.Calm) (i : Int) :
    Twin (Agree Eq b) (fun _ => Agree Eq b) ((answer (.segment i)).run f)
      ((answer (.segment i)).run g) := by
  have hsegment : Twin (Agree Eq b) (fun _ => Agree Eq b) ((segment i).run f) ((segment i).run g) := by
    refine Twin.bind (initSegments_twin h hc) fun _ f1 g1 h1 => ?_
    have hsegs : g1.segs = f1.segs := congrArg (fun x => x.2.2.2.2.1) h1.tables.symm
    rw [get_bind, get_bind, hsegs]
    exact at_twin _ _ (fun _ => h1) h1
  refine Twin.bind hsegment fun s f1 g1 h1 => ?_
  have hphs : g1.phs = f1.phs := congrArg (fun x => x.2.2.1) h1.tables.symm
  have hhead : g1.segmentHeader s = f1.segmentHeader s := by
    rw [File.segmentHeader, File.segmentHeader, hphs]
    split
    · exact (h1.phdr _).symm
    · rfl
  rw [get_bind, get_bind, hhead]
  exact .ok h1

theorem sections_run {α : Type} {f' : File} {k : List Section → FileM α} {r : Res Unit}
    (h : initSections.run f = (r, f')) : (sections >>= k).run f =
      match r with
      | .ok _ => (k f'.sects).run f'
      | .error e => (.error e, f') := by
  rw [sections_bind]
  cases r with
  | ok u => rw [bind_of_ok h, get_bind]
  | error e => rw [bind_of_error h]

theorem sections_values (h : Coherent b f) (hl : f.sectsLoaded = true) :
    (f.sects.map fun s => f.shdr s.ptr) = b.sectionPtrs.map b.shdr := by
  rw [← h.ptrs hl, List.map_map]
  exact List.map_congr_left fun s _ => h.shdr hl s.ptr

theorem sections_make (h : Agree Eq b f g) (hg : g.Calm) :
    (∀ v, ((answer .sections).run f).1 = .ok v → ((answer .sections).run g).1 = .ok v) ∧
      Agree Eq b ((answer .sections).run f).2 ((answer .sections).run g).2 := by
  obtain ⟨r, f1, hf, hcf, htf, hlf⟩ := initSections_settles h.left
  obtain ⟨hgok, hgerror⟩ := initSections_calm h.right hg
  have hrunf := sections_run (k := fun sects => do
    let f ← get
    return Value.sections (sects.map fun s => f.shdr s.ptr)) hf
  change (answer .sections).run f = _ at hrunf
  cases htable : b.sectionTable with
  | ok buf =>
    obtain ⟨g1, hgrun, hcg, -, htg, hlg⟩ := hgok buf htable
    have hrung := sections_run (k := fun sects => do
      let f ← get
      return Value.sections (sects.map fun s => f.shdr s.ptr)) hgrun
    change (answer .sections).run g = _ at hrung
    have hagree : Agree Eq b f1 g1 := ⟨hcf, hcg, by rw [htf, htg, h.tables]⟩
    rw [hrunf, hrung]
    cases r with
    | ok u =>
      refine ⟨fun v hv => ?_, hagree⟩
      rw [← hv]
      exact congrArg (fun l => Except.ok (Value.sections l))
        ((sections_values hcg hlg).trans (sections_values hcf (hlf u rfl)).symm)
    | error e => exact ⟨fun v hv => (by cases hv), hagree⟩
  | error e =>
    obtain ⟨g1, hgrun, hcg, -, htg⟩ := hgerror e htable
    have hrung := sections_run (k := fun sects => do
      let f ← get
      return Value.sections (sects.map fun s => f.shdr s.ptr)) hgrun
    change (answer .sections).run g = _ at hrung
    have hagree : Agree Eq b f1 g1 := ⟨hcf, hcg, by rw [htf, htg, h.tables]⟩
    rw [hrunf, hrung]
    cases r with
    | ok u =>
      have hloaded := hcf.loaded (hlf u rfl)
      rw [hloaded.1] at htable
      cases htable
    | error e' => exact ⟨fun v hv => (by cases hv), hagree⟩

theorem Agree.begin (h : Agree Eq b f g) (fails fails' : Nat → Bool) :
    Agree Eq b { f with stream.fails := fails, stream.count := 0, stream.asked := [] }
      { g with stream.fails := fails', stream.count := 0, stream.asked := [] } :=
  ⟨⟨h.left.source, h.left.loaded⟩, ⟨h.right.source, h.right.loaded⟩, h.tables⟩

theorem of_twin {x y : Res Value × File} (h : Twin (Agree Eq b) (fun _ => Agree Eq b) x y) :
    (∀ v, x.1 = .ok v → y.1 = .ok v) ∧ Agree Eq b x.2 y.2 :=
  ⟨fun _ hv => h.result.symm.trans hv, h.states fun _ _ _ h' => h'⟩

theorem make_agree (h : Agree Eq b f g) {x : Call × (Nat → Bool)} (hs : Spared f x) :
    (∀ v, (make x f).1 = .ok v → (make (x.1, never) g).1 = .ok v) ∧
      Agree Eq b (make x f).2 (make (x.1, never) g).2 := by
  have hbegin := h.begin x.2 never
  obtain ⟨call, fails⟩ := x
  cases call with
  | programHeaders => exact of_twin (headers_twin hbegin fun hp => ⟨hs hp, rfl⟩)
  | sections => exact sections_make hbegin rfl
  | symbols =>
    refine of_twin (Twin.bind (symbols_twin hbegin fun hp => ⟨hs hp, rfl⟩) ?_)
    exact fun _ _ _ h1 => .ok h1
  | count => exact of_twin (count_twin hbegin fun hp => ⟨hs hp, rfl⟩)
  | segment i => exact of_twin (segment_twin hbegin (fun hp => ⟨hs hp, rfl⟩) i)

theorem results_agree (h : Agree Eq b f g) {xs : List (Call × (Nat → Bool))} (hs : AllSpared xs f)
    {i : Nat} {v : Value} (hv : (results xs f)[i]? = some (.ok v)) :
    (results (xs.map fun x => (x.1, never)) g)[i]? = some (.ok v) := by
  induction xs generalizing f g i with
  | nil => cases hv
  | cons x xs ih =>
    obtain ⟨hvalue, hagree⟩ := make_agree h hs.1
    rw [List.map_cons, results]
    rw [results] at hv
    cases i with
    | zero =>
      rw [List.getElem?_cons_zero, Option.some.injEq] at hv ⊢
      exact hvalue v hv
    | succ i =>
      rw [List.getElem?_cons_succ] at hv ⊢
      exact ih hagree hs.2 hv

end

structure Fresh (f : File) : Prop where
  phLoaded : f.phLoaded = false
  phBuf : f.phBuf = none
  phs : f.phs = []
  sectsLoaded : f.sectsLoaded = false
  sects : f.sects = []
  syms : f.syms = none
  segs : f.segs = []
  segsInit : f.segsInit = false

theorem Fresh.agree {f : File} (h : Fresh f) : Agree Eq f.source f f :=
  have hc : Coherent f.source f := ⟨rfl, fun hl => by rw [h.sectsLoaded] at hl; cases hl⟩
  ⟨hc, hc, rfl⟩

theorem failures_forgotten {f : File} (hf : Fresh f) {xs : List (Call × (Nat → Bool))}
    (hs : AllSpared xs f) {i : Nat} {v : Value} (hv : (results xs f)[i]? = some (.ok v)) :
    (results (xs.map fun x => (x.1, never)) f)[i]? = some (.ok v) :=
  results_agree hf.agree hs hv

def loneFile : File := opened .little [lonePhdr 2 2] [nullShdr] [7, 8]

def always : Nat → Bool := fun _ => true

theorem loneFile_fresh : Fresh loneFile := by constructor <;> decide +kernel

theorem failures_forgotten_sections :
    (results ([(.sections, always), (.sections, always), (.count, never)].map
      fun x : Call × (Nat → Bool) => (x.1, never)) loneFile)[2]? = some (.ok (.count 1)) :=
  @failures_forgotten loneFile loneFile_fresh
    [(.sections, always), (.sections, always), (.count, never)]
    ⟨trivial, trivial, fun _ => rfl, trivial⟩ _ _ rfl

-- After the failure there are no segments.
theorem failure_remembered : Fresh loneFile ∧
    (results [(.count, always), (.count, never)] loneFile)[1]? = some (.ok (.count 0)) ∧
    (results [(.count, never), (.count, never)] loneFile)[1]? = some (.ok (.count 1)) :=
  ⟨loneFile_fresh, rfl, rfl⟩

end Gelpp.Elf
