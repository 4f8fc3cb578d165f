import Gelpp.Bin.Opened

namespace Gelpp.SymCommand

open Effect Elf Manager

def shnUndef : Nat := 0
def shnAbs : Nat := 0xfff1
def shnCommon : Nat := 0xfff2

def sttFunc : Nat := 2

inductive SectionText where
  | undef
  | abs
  | common
  | number (n : Nat)
  | name (t : List UInt8)
  deriving DecidableEq, Repr

inductive Token where
  | section (name : List UInt8)
  | head
  | value (n : Nat)
  | size (n : Nat)
  | type (n : Nat)
  | shndx (s : SectionText)
  | name (t : List UInt8)
  | endl
  | error (arg message : String)
  deriving DecidableEq, Repr

abbrev SymM (α : Type) := Effect Stop (Printing File Token) α

def sectionIndex (shndx : Nat) : FileM SectionText :=
  if shndx = shnUndef then return .undef
  else if shndx = shnAbs then return .abs
  else if shndx = shnCommon then return .common
  else do
    let n ← FileM.countSections
    if n ≤ shndx then return .number shndx
    else return .name (← FileM.sectionName shndx)

def fetchSym (table : SymbolTable) (s : Symbol) : FileM Sym := do
  let f ← get
  lift (readSym f.host f.layout.sym (table.mems.getD s.mem []) s.ptr)

def elfType (y : Sym) : Nat := y.info % 16

section
variable (onlyFunctions : Bool) (order : List (List UInt8 × Symbol) → List (List UInt8 × Symbol))

-- The size is printed once more in the column of the binding.
def printSymbol (table : SymbolTable) (x : List UInt8 × Symbol) : SymM Unit := do
  let y ← onState (fetchSym table x.2)
  if onlyFunctions then
    if elfType y = sttFunc ∧ 0 < y.size then do
      print (.name x.1)
      print .endl
    else return ()
  else do
    print (.value y.value)
    print (.size y.size)
    print (.size y.size)
    print (.type (elfType y))
    let s ← onState (sectionIndex y.shndx)
    print (.shndx s)
    print (.name x.1)
    print .endl

def printHead (i : Nat) : SymM Unit :=
  if onlyFunctions then return ()
  else do
    let name ← onState (FileM.sectionName i)
    print (.section name)
    print .head

-- Each of these sections lists the symbols of the file, in the order of the hash map.
def printSection (i : Nat) : SymM Unit := do
  let h ← onState (FileM.shdrAt i)
  if h.type = shtSymtab ∨ h.type = shtDynamic then do
    printHead onlyFunctions i
    let table ← onState FileM.symbols
    (order table.map).forM (printSymbol onlyFunctions table)
  else return ()

def processELF : SymM Unit := do
  let n ← onState FileM.countSections
  (List.range n).forM (printSection onlyFunctions order)

def printGen (x : List UInt8 × Bool) : CommandM Token Unit :=
  if onlyFunctions ∧ ¬ x.2 then return ()
  else do
    print (.name x.1)
    print .endl

variable {γ : Type} (symbolsOf : γ → Res (List (List UInt8 × Bool))) (opened : String → Res (Opened γ))

-- symbols() of a PE-COFF file ends without a value.
def processOpened : Opened γ → CommandM Token Unit
  | .elf f => within f (processELF onlyFunctions order)
  | .coffi f => do
    let symbols ← lift (symbolsOf f)
    symbols.forM (printGen onlyFunctions)
  | .pecoff _ => raise (.fault .unset)

def processFile (arg : String) : CommandM Token Unit := do
  let file ← lift (opened arg)
  processOpened onlyFunctions order symbolsOf file

def attempt (arg : String) : CommandM Token Bool :=
  catching
    (do
      processFile onlyFunctions order symbolsOf opened arg
      return false)
    fun message => do
      print (.error arg message)
      return true

def processArgs : List String → CommandM Token Nat
  | [] => return 0
  | arg :: args => do
    let failed ← attempt onlyFunctions order symbolsOf opened arg
    if failed then return 2 else processArgs args

def run (args : List String) : CommandM Token Nat :=
  if args.isEmpty then return 1 else processArgs onlyFunctions order symbolsOf opened args

end

def shownIndex (d : Description) (shndx : Nat) : SectionText :=
  if shndx = shnUndef then .undef
  else if shndx = shnAbs then .abs
  else if shndx = shnCommon then .common
  else
    match d.sections[shndx]? with
    | some s => .name (d.text d.shstrndx s.name)
    | none => .number shndx

def shownSymbol (onlyFunctions : Bool) (d : Description) (x : List UInt8 × Sym) : List Token :=
  if onlyFunctions then if elfType x.2 = sttFunc ∧ 0 < x.2.size then [.name x.1, .endl] else []
  else [.value x.2.value, .size x.2.size, .size x.2.size, .type (elfType x.2),
    .shndx (shownIndex d x.2.shndx), .name x.1, .endl]

def shownSection (onlyFunctions : Bool) (d : Description) (symbols : List (List UInt8 × Sym))
    (s : SectionDesc) : List Token :=
  if s.type = shtSymtab ∨ s.type = shtDynamic then
    (if onlyFunctions then [] else [.section (d.text d.shstrndx s.name), .head]) ++
      symbols.flatMap (shownSymbol onlyFunctions d)
  else []

section
variable {b : Source} {k : Tabled b} {d : Description} {p : Places} {onlyFunctions : Bool}
  {order : List (List UInt8 × Symbol) → List (List UInt8 × Symbol)}

theorem sectionIndex_gives (h : Depicted b d p) (shndx : Nat) :
    Gives (Shown k) (sectionIndex shndx) (.ok (shownIndex d shndx)) := by
  rw [sectionIndex, shownIndex]
  split_ifs with hundef habs hcommon
  · exact Gives.pure _
  · exact Gives.pure _
  · exact Gives.pure _
  · refine (countSections_gives h).bind_ok ?_
    by_cases hlt : shndx < d.sections.length
    · have hs := List.getElem?_eq_getElem hlt
      rw [if_neg (Nat.not_le_of_lt hlt), hs]
      exact (sectionName_gives h hs).bind_ok (Gives.pure _)
    · rw [if_pos (Nat.le_of_not_lt hlt), List.getElem?_eq_none (Nat.le_of_not_lt hlt)]
      exact Gives.pure _

theorem symbols_gives : Gives (Shown k) FileM.symbols (.ok k.syms) := by
  intro f hf
  obtain ⟨g, hrun, hg, hl⟩ := symbols_settled hf.toSettled
  exact ⟨g, hrun, hg, hl⟩

def symAt (b : Source) (t : SymbolTable) (x : List UInt8 × Symbol) : Res Sym :=
  readSym b.host b.layout.sym (t.mems.getD x.2.mem []) x.2.ptr

theorem fetchSym_gives {t : SymbolTable} {x : List UInt8 × Symbol} :
    Gives (Shown k) (fetchSym t x.2) (symAt b t x) := by
  intro f hf
  have hhost : f.host = b.host := congrArg Source.host hf.coherent.source
  have hlayout : f.layout = b.layout := congrArg Source.layout hf.coherent.source
  refine ⟨f, ?_, hf⟩
  rw [fetchSym, get_bind, hhost, hlayout]
  rfl

theorem printSymbol_prints (h : Depicted b d p) {t : SymbolTable} {x : List UInt8 × Symbol} {y : Sym}
    (hy : symAt b t x = .ok y) :
    Prints (Shown k) (printSymbol onlyFunctions t x) (shownSymbol onlyFunctions d (x.1, y)) (.ok ()) := by
  have hfetch : Gives (Shown k) (fetchSym t x.2) (.ok y) := hy ▸ fetchSym_gives
  refine Prints.read hfetch ?_
  rw [shownSymbol]
  cases onlyFunctions with
  | true =>
    rw [if_pos rfl, if_pos rfl]
    split_ifs
    · exact Prints.print_bind _ (Prints.print _)
    · exact Prints.pure ()
  | false =>
    rw [if_neg Bool.false_ne_true, if_neg Bool.false_ne_true]
    refine Prints.print_bind _ (Prints.print_bind _ (Prints.print_bind _ (Prints.print_bind _ ?_)))
    refine Prints.read (sectionIndex_gives h _) ?_
    exact Prints.print_bind _ (Prints.print_bind _ (Prints.print _))

theorem ordered_symbols (hshows : Shows b k.syms d.symbols) (horder : (order k.syms.map).Perm k.syms.map) :
    ∃ symbols, symbols.Perm d.symbols ∧
      List.Forall₂ (fun x y => x.1 = y.1 ∧ symAt b k.syms x = .ok y.2) (order k.syms.map) symbols := by
  have hall : List.Forall₂ (fun x y => x.1 = y.1 ∧ symAt b k.syms x = .ok y.2) k.syms.map d.symbols := by
    rw [Shows, ← List.forall₂_eq_eq_eq, List.forall₂_map_left_iff, List.forall₂_map_right_iff] at hshows
    exact hshows.imp fun x y hxy => ⟨congrArg Prod.fst hxy, congrArg Prod.snd hxy⟩
  obtain ⟨symbols, hsymbols, hperm⟩ := List.perm_comp_forall₂ horder hall
  exact ⟨symbols, hperm, hsymbols⟩

theorem printHead_prints (h : Depicted b d p) {i : Nat} {s : SectionDesc} (hs : d.sections[i]? = some s) :
    Prints (Shown k) (printHead onlyFunctions i)
      (if onlyFunctions then [] else [.section (d.text d.shstrndx s.name), .head]) (.ok ()) := by
  cases onlyFunctions with
  | true => exact Prints.pure ()
  | false => exact Prints.read (sectionName_gives h hs) (Prints.print_bind _ (Prints.print _))

theorem printSection_prints (h : Depicted b d p) {symbols : List (List UInt8 × Sym)}
    (hsymbols : List.Forall₂ (fun x y => x.1 = y.1 ∧ symAt b k.syms x = .ok y.2) (order k.syms.map) symbols)
    {i : Nat} {s : SectionDesc} (hs : d.sections[i]? = some s) :
    Prints (Shown k) (printSection onlyFunctions order i) (shownSection onlyFunctions d symbols s)
      (.ok ()) := by
  refine Prints.read (shdrAt_gives h hs) ?_
  have htype : (s.header b.layout (p.content i)).type = s.type := rfl
  rw [shownSection, htype]
  by_cases hlists : s.type = shtSymtab ∨ s.type = shtDynamic
  · rw [if_pos hlists, if_pos hlists]
    refine (printHead_prints h hs).bind_ok ?_
    refine Prints.read symbols_gives (Prints.forM₂ ?_)
    refine hsymbols.imp fun x y hxy => ?_
    obtain ⟨name, y⟩ := y
    obtain ⟨rfl, hy⟩ := hxy
    exact printSymbol_prints h hy
  · rw [if_neg hlists, if_neg hlists]
    exact Prints.pure ()

theorem processELF_prints (h : Depicted b d p) {symbols : List (List UInt8 × Sym)}
    (hsymbols : List.Forall₂ (fun x y => x.1 = y.1 ∧ symAt b k.syms x = .ok y.2) (order k.syms.map) symbols) :
    Prints (Settled k) (processELF onlyFunctions order)
      (d.sections.flatMap (shownSection onlyFunctions d symbols)) (.ok ()) := by
  refine Prints.enter (fun f hf => countSections_first h hf) ?_ fun f hf => hf.toSettled
  exact Prints.forM₂ ((forall₂_range d.sections).imp fun i s hs => printSection_prints h hsymbols hs)

end

section
variable {γ : Type} {p : Platform} {coffi : Option (Res γ)} {disk : String → Except String Pecoff.Stream}
  {symbolsOf : γ → Res (List (List UInt8 × Bool))} {onlyFunctions : Bool}
  {order : List (List UInt8 × Symbol) → List (List UInt8 × Symbol)} {arg : String}

inductive Item where
  | elf (d : Description)
  | coffi (symbols : List (List UInt8 × Bool))

def Item.Stands (p : Platform) (coffi : Option (Res γ)) (disk : String → Except String Pecoff.Stream)
    (symbolsOf : γ → Res (List (List UInt8 × Bool))) (arg : String) : Item → Prop
  | .elf d => ∃ l places bytes, Holds p disk arg d l places bytes
  | .coffi symbols => ∃ g, openDisk p coffi disk arg = .ok (.coffi g) ∧ symbolsOf g = .ok symbols

def shownGen (onlyFunctions : Bool) (x : List UInt8 × Bool) : List Token :=
  if onlyFunctions ∧ ¬ x.2 then [] else [.name x.1, .endl]

def Item.Listed (onlyFunctions : Bool) : Item → List Token → Prop
  | .elf d, rows => ∃ symbols : List (List UInt8 × Sym), symbols.Perm d.symbols ∧
      rows = d.sections.flatMap (shownSection onlyFunctions d symbols)
  | .coffi symbols, rows => rows = symbols.flatMap (shownGen onlyFunctions)

theorem printGen_ends (x : List UInt8 × Bool) :
    Ends (printGen onlyFunctions x) (shownGen onlyFunctions x) (.ok ()) := by
  rw [printGen, shownGen]
  split_ifs
  · exact Prints.pure ()
  · exact Prints.print_bind _ (Prints.print _)

theorem file_ends (horder : ∀ l, (order l).Perm l) {x : Item} (h : x.Stands p coffi disk symbolsOf arg) :
    ∃ rows, x.Listed onlyFunctions rows ∧
      Ends (processFile onlyFunctions order symbolsOf (openDisk p coffi disk) arg) rows (.ok ()) := by
  cases x with
  | elf d =>
    obtain ⟨l, places, bytes, hholds⟩ := h
    obtain ⟨f, hopen, hfresh, hcalm, -, -, -, hdepicted⟩ := opened_described coffi hholds
    obtain ⟨k, hshows⟩ := hdepicted.tabled hfresh hcalm
    obtain ⟨symbols, hperm, hsymbols⟩ := ordered_symbols hshows (horder k.syms.map)
    refine ⟨_, ⟨symbols, hperm, rfl⟩, ?_⟩
    rw [processFile, hopen]
    exact Prints.within (hfresh.settled hcalm k) (processELF_prints hdepicted hsymbols)
  | coffi symbols =>
    obtain ⟨g, hopen, hsymbols⟩ := h
    refine ⟨_, rfl, ?_⟩
    have hends : Ends (processOpened onlyFunctions order symbolsOf (.coffi g))
        (symbols.flatMap (shownGen onlyFunctions)) (.ok ()) := by
      rw [processOpened, hsymbols]
      exact Prints.forM fun x _ => printGen_ends x
    rw [processFile, hopen]
    exact hends

theorem attempt_ends {rows : List Token}
    (h : Ends (processFile onlyFunctions order symbolsOf (openDisk p coffi disk) arg) rows (.ok ())) :
    Ends (attempt onlyFunctions order symbolsOf (openDisk p coffi disk) arg) rows (.ok false) :=
  catching_passed (h.returns fun _ => false) fun message he => by cases he

theorem attempt_refused {message : String} (h : openDisk p coffi disk arg = .error (.exception message)) :
    Ends (attempt onlyFunctions order symbolsOf (openDisk p coffi disk) arg) [.error arg message]
      (.ok true) := by
  have hraise : Ends (processFile onlyFunctions order symbolsOf (openDisk p coffi disk) arg) []
      (.error (.exception message)) := by
    rw [processFile, h]
    exact Prints.raise _
  exact catching_caught hraise.bind_error ((Prints.print _).returns fun _ => true)

theorem attempt_pecoff {f : Pecoff.File} (h : openDisk p coffi disk arg = .ok (.pecoff f)) :
    Ends (attempt onlyFunctions order symbolsOf (openDisk p coffi disk) arg) [] (.error (.fault .unset)) := by
  have hraise : Ends (processFile onlyFunctions order symbolsOf (openDisk p coffi disk) arg) []
      (.error (.fault .unset)) := by
    rw [processFile, h]
    exact Prints.raise _
  exact catching_passed hraise.bind_error fun message he => by cases he

theorem args_ends {files : List (String × Item)} {rows : List (List Token)}
    (h : List.Forall₂ (fun x r => Ends (processFile onlyFunctions order symbolsOf (openDisk p coffi disk) x.1)
      r (.ok ())) files rows) {rest : List String} {rows' : List Token} {r : Res Nat}
    (hrest : Ends (processArgs onlyFunctions order symbolsOf (openDisk p coffi disk) rest) rows' r) :
    Ends (processArgs onlyFunctions order symbolsOf (openDisk p coffi disk) (files.map Prod.fst ++ rest))
      (rows.flatten ++ rows') r := by
  induction h with
  | nil => exact hrest
  | cons hx _ ih =>
    rw [List.flatten_cons, List.append_assoc]
    exact (attempt_ends hx).bind_ok ih

theorem run_ends {args : List String} (hargs : args ≠ []) {rows : List Token} {r : Res Nat}
    (h : Ends (processArgs onlyFunctions order symbolsOf (openDisk p coffi disk) args) rows r) :
    (run onlyFunctions order symbolsOf (openDisk p coffi disk) args).run { state := () } =
      (r, { state := (), out := rows }) := by
  rw [run, if_neg (by simpa using hargs)]
  exact h.run

theorem sym_command (horder : ∀ l, (order l).Perm l) (onlyFunctions : Bool) {files : List (String × Item)}
    (h : ∀ x ∈ files, x.2.Stands p coffi disk symbolsOf x.1) :
    ∃ rows, List.Forall₂ (fun x r => x.2.Listed onlyFunctions r) files rows ∧
      (files ≠ [] → (run onlyFunctions order symbolsOf (openDisk p coffi disk) (files.map Prod.fst)).run
        { state := () } = (.ok 0, { state := (), out := rows.flatten })) ∧
      (∀ bad rest message, openDisk p coffi disk bad = .error (.exception message) →
        (run onlyFunctions order symbolsOf (openDisk p coffi disk) (files.map Prod.fst ++ bad :: rest)).run
          { state := () } = (.ok 2, { state := (), out := rows.flatten ++ [.error bad message] })) ∧
      ∀ pe f rest, openDisk p coffi disk pe = .ok (.pecoff f) →
        (run onlyFunctions order symbolsOf (openDisk p coffi disk) (files.map Prod.fst ++ pe :: rest)).run
          { state := () } = (.error (.fault .unset), { state := (), out := rows.flatten }) := by
  obtain ⟨rows, hlisted, hends⟩ : ∃ rows, List.Forall₂ (fun x r => x.2.Listed onlyFunctions r) files rows ∧
      List.Forall₂ (fun x r => Ends (processFile onlyFunctions order symbolsOf (openDisk p coffi disk) x.1)
        r (.ok ())) files rows := by
    induction files with
    | nil => exact ⟨[], .nil, .nil⟩
    | cons x files ih =>
      obtain ⟨hx, hfiles⟩ := List.forall_mem_cons.mp h
      obtain ⟨r, hr, hends⟩ := file_ends horder hx
      obtain ⟨rows, hrows, hall⟩ := ih hfiles
      exact ⟨r :: rows, .cons hr hrows, .cons hends hall⟩
  refine ⟨rows, hlisted, fun hne => ?_, fun bad rest message hbad => ?_, fun pe f rest hpe => ?_⟩
  · have hdone : Ends (processArgs onlyFunctions order symbolsOf (openDisk p coffi disk) []) [] (.ok 0) :=
      Prints.pure 0
    have hargs := args_ends hends hdone
    rw [List.append_nil, List.append_nil] at hargs
    exact run_ends (by simpa using hne) hargs
  · have hrefused : Ends (processArgs onlyFunctions order symbolsOf (openDisk p coffi disk) (bad :: rest))
        [.error bad message] (.ok 2) := (attempt_refused hbad).bind_ok (Prints.pure 2)
    exact run_ends (by simp) (args_ends hends hrefused)
  · have hfault : Ends (processArgs onlyFunctions order symbolsOf (openDisk p coffi disk) (pe :: rest)) []
        (.error (.fault .unset)) := (attempt_pecoff hpe).bind_error
    have hargs := args_ends hends hfault
    rw [List.append_nil] at hargs
    exact run_ends (by simp) hargs

end

def smallListing : List Token := [.section [97], .head, .value 7, .size 9, .size 9, .type 2,
  .shndx (.name [97]), .name [97], .endl]

theorem small_listed {rows : List Token} (h : (Item.elf smallDescription).Listed false rows) :
    rows = smallListing ++ smallListing := by
  obtain ⟨symbols, hperm, rfl⟩ := h
  have hone : smallDescription.symbols =
      [([97], { name := 1, value := 7, size := 9, info := 18, shndx := 1 })] := by
    decide
  rw [hone] at hperm
  rw [List.perm_singleton.mp hperm]
  decide

theorem sym_command_small :
    (run false id (fun _ => .ok []) (openDisk (γ := Unit) littlePlatform none smallDisk)
      ["wide", "lost"]).run { state := () } = (.ok 2, {
        state := ()
        out := smallListing ++ smallListing ++ [.error "lost" "No such file or directory"] }) := by
  have hstands : ∀ x ∈ [("wide", Item.elf smallDescription)], x.2.Stands (γ := Unit) littlePlatform none
      smallDisk (fun _ => .ok []) x.1 := by
    intro x hx
    rw [List.mem_singleton.mp hx]
    exact ⟨_, _, _, small_holds⟩
  have horder : ∀ l : List (List UInt8 × Symbol), (id l).Perm l := List.Perm.refl
  obtain ⟨rows, hlisted, -, hbad, -⟩ := sym_command horder false hstands
  obtain ⟨r, rest, hr, hrest, rfl⟩ := List.forall₂_cons_left_iff.mp hlisted
  rw [List.forall₂_nil_left_iff] at hrest
  have hrun := hbad "lost" [] "No such file or directory" rfl
  rw [hrest, small_listed hr, List.flatten_singleton, List.map_cons, List.map_nil,
    List.singleton_append] at hrun
  rw [hrun]

end Gelpp.SymCommand
