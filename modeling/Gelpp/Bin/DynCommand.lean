import Gelpp.Bin.Opened
import Gelpp.Elf.Link

namespace Gelpp.DynCommand

open Effect Elf Manager

def dtInitArray : Int := 25
def dtFiniArray : Int := 26
def dtInitArraysz : Int := 27
def dtFiniArraysz : Int := 28
def dtRunpath : Int := 29
def dtFlags : Int := 30
def dtPreinitArray : Int := 32
def dtPreinitArraysz : Int := 33
def dtSymtabShndx : Int := 34
def dtCount : Int := 35

def labels : List String := [
  "NULL", "NEEDED", "PLTRELSZ", "PLTGOT", "DT_HASH", "STRTAB", "SYMTAB", "RELA", "RELASZ", "RELAENT",
  "STRSZ", "SYMENT", "INIT", "FINI", "SONAME", "RPATH", "SYMBOLIC", "REL", "RELSZ", "RELENT", "PLTREL",
  "DEBUG", "TEXTREL", "JMPREL", "BIND_NOW", "INIT_ARRAY", "FINI_ARRAY", "INIT_ARRAYSZ",
  "FINI_ARRAYSZ", "RUNPATH", "FLAGS", "", "PREINIT_ARRAY", "PREINIT_ARRAYSZ", "SYMTAB_SHNDX"]

inductive Kind where
  | nothing
  | text
  | number
  | address
  | flags
  deriving DecidableEq, Repr

def kinds : List (Int × Kind) := [
  (dtNull, .nothing), (dtSymbolic, .nothing), (dtTextrel, .nothing), (dtBindNow, .nothing),
  (dtNeeded, .text), (dtSoname, .text), (dtRpath, .text), (dtRunpath, .text),
  (dtPltrelsz, .number), (dtRelasz, .number), (dtRelaent, .number), (dtStrsz, .number),
  (dtSyment, .number), (dtRelsz, .number), (dtRelent, .number), (dtPltrel, .number),
  (dtInitArraysz, .number), (dtFiniArraysz, .number), (dtPreinitArraysz, .number),
  (dtStrtab, .address), (dtPltgot, .address), (dtHash, .address), (dtSymtab, .address),
  (dtRela, .address), (dtInit, .address), (dtFini, .address), (dtRel, .address), (dtDebug, .address),
  (dtJmprel, .address), (dtInitArray, .address), (dtFiniArray, .address), (dtPreinitArray, .address),
  (dtSymtabShndx, .address), (dtFlags, .flags)]

def kindOf (tag : Int) : Kind := (kinds.lookup tag).getD .nothing

def dynFlags : List (Nat × String) :=
  [(0x1, "ORIGIN "), (0x2, "SYMBOLIC "), (0x4, "TEXTREL "), (0x8, "BIND_NOW "), (0x10, "STATIC_TLS ")]

inductive Token where
  | file (arg : String)
  | label (s : String)
  | raw (tag : Int)
  | text (t : List UInt8)
  | number (n : Nat)
  | address (n : Nat)
  | flag (s : String)
  | plugged (s : String)
  | endl
  | error (arg message : String)
  deriving DecidableEq, Repr

structure Plugin where
  outputDynTag : Int → String
  outputDynValue : Int → Nat → String

abbrev DynM (α : Type) := Effect Stop (Printing File Token) α

section
variable (plug : Option Plugin)

def printValue (link : Nat) (dyn : Dyn) : DynM Unit :=
  match kindOf dyn.tag with
  | .nothing => return ()
  | .text => do
    let t ← onState (FileM.stringAt dyn.val (UInt32.ofNat link).toInt32.toInt)
    print (.text t)
  | .number => print (.number dyn.val)
  | .address => print (.address dyn.val)
  | .flags => dynFlags.forM fun x => if dyn.val &&& x.1 ≠ 0 then print (.flag x.2) else return ()

def printUnknown (dyn : Dyn) : DynM Unit :=
  match plug with
  | some p => do
    print (.plugged (p.outputDynTag dyn.tag))
    print (.plugged (p.outputDynValue dyn.tag dyn.val))
    print .endl
  | none => do
    print (.raw dyn.tag)
    print (.address dyn.val)
    print .endl

def printKnown (link : Nat) (dyn : Dyn) : DynM Unit := do
  let label ← onState (FileM.at_ labels dyn.tag)
  print (.label label)
  printValue link dyn
  print .endl

def printDyn (link : Nat) (dyn : Dyn) : DynM Unit :=
  if dyn.tag = dtNull then return ()
  else if dtCount ≤ dyn.tag then printUnknown plug dyn
  else printKnown link dyn

def advance (it : DynIter) : FileM DynIter := do
  let f ← get
  lift (it.next f)

def forDyns (body : Dyn → DynM Unit) (last : DynIter) : Nat → DynIter → DynM Unit
  | 0, it => if it.equals last then return () else raise .steps
  | n + 1, it =>
    if it.equals last then return ()
    else do
      let d ← lift it.item
      body d
      let t ← onState (advance it)
      forDyns body last n t

def printSection (i : Nat) : DynM Unit := do
  let h ← onState (FileM.shdrAt i)
  if h.type = shtDynamic then do
    let (first, last) ← onState (FileM.dynsOf i)
    forDyns (printDyn plug h.link) last h.size first
  else return ()

def processELF : DynM Unit := do
  let n ← onState FileM.countSections
  (List.range n).forM (printSection plug)

end

def machineSlot : Slot := ⟨18, 2⟩

def machine (f : File) : Nat :=
  word (fileOrder f.host (f.stream.bytes.getD 5 0)) f.stream.bytes 0 machineSlot

-- `plugs` is what ArchPlugin::plug finds for machine(), which is a text for this number.
section
variable {γ : Type} (plugs : Nat → Option Plugin) (opened : String → Res (Opened γ))

def processOpened : Opened γ → CommandM Token Unit
  | .elf f => within f (processELF (plugs (machine f)))
  | _ => return ()

def printWhen (c : Bool) (t : Token) : CommandM Token Unit := if c then print t else return ()

def processFile (many : Bool) (arg : String) : CommandM Token Unit := do
  let file ← lift (opened arg)
  printWhen many (.file arg)
  processOpened plugs file
  printWhen many .endl

-- An error names the word of the command line that has the number of the argument.
def processArgs (argv : List String) (many : Bool) : Nat → List String → CommandM Token Unit
  | _, [] => return ()
  | i, arg :: args => do
    catching (processFile plugs opened many arg) fun message => print (.error (argv.getD i "") message)
    processArgs argv many (i + 1) args

def run (argv args : List String) : CommandM Token Nat := do
  processArgs plugs opened argv (1 < args.length) 0 args
  return 0

end

def entriesOf (s : SectionDesc) : List (Nat × Dyn) :=
  match s.body with
  | .dynamic dyns => dyns.map fun x => (s.link, x.cut)
  | _ => []

def dynEntries (d : Description) : List (Nat × Dyn) := d.sections.flatMap entriesOf

def shownValue (d : Description) (link : Nat) (dyn : Dyn) : List Token :=
  match kindOf dyn.tag with
  | .nothing => []
  | .text => [.text (d.text link dyn.val)]
  | .number => [.number dyn.val]
  | .address => [.address dyn.val]
  | .flags => dynFlags.flatMap fun x => if dyn.val &&& x.1 ≠ 0 then [.flag x.2] else []

def shownUnknown (plug : Option Plugin) (dyn : Dyn) : List Token :=
  match plug with
  | some p => [.plugged (p.outputDynTag dyn.tag), .plugged (p.outputDynValue dyn.tag dyn.val), .endl]
  | none => [.raw dyn.tag, .address dyn.val, .endl]

def shownDyn (plug : Option Plugin) (d : Description) (x : Nat × Dyn) : List Token :=
  if x.2.tag = dtNull then []
  else if dtCount ≤ x.2.tag then shownUnknown plug x.2
  else .label (labels.getD x.2.tag.toNat "") :: (shownValue d x.1 x.2 ++ [.endl])

def Readable (d : Description) (x : Nat × Dyn) : Prop :=
  kindOf x.2.tag = .text → HasText d.sections x.1 x.2.val

section
variable {b : Source} {k : Tabled b} {d : Description} {p : Places} {plug : Option Plugin}
  {link : Nat} {dyn : Dyn}

theorem hasText_link {off : Nat} (h : HasText d.sections link off) :
    (UInt32.ofNat link).toInt32.toInt = (link : Int) := by
  obtain ⟨s, -, -, hs, -⟩ := h
  have hlt := (List.getElem?_eq_some_iff.mp hs).1
  have hsections := d.sections_lt
  exact link_int (by omega)

theorem printValue_prints (h : Depicted b d p) (hread : Readable d (link, dyn)) :
    Prints (Shown k) (printValue link dyn) (shownValue d link dyn) (.ok ()) := by
  rw [printValue, shownValue]
  cases hkind : kindOf dyn.tag with
  | nothing => exact Prints.pure ()
  | text =>
    have htext := hread hkind
    rw [hasText_link htext]
    exact Prints.read (text_gives h htext) (Prints.print _)
  | number => exact Prints.print _
  | address => exact Prints.print _
  | flags =>
    refine Prints.forM fun x _ => ?_
    split
    · exact Prints.print _
    · exact Prints.pure ()

theorem printUnknown_prints : Prints (Shown k) (printUnknown plug dyn) (shownUnknown plug dyn) (.ok ()) := by
  cases plug with
  | some p => exact Prints.print_bind _ (Prints.print_bind _ (Prints.print _))
  | none => exact Prints.print_bind _ (Prints.print_bind _ (Prints.print _))

theorem label_gives (h0 : 0 ≤ dyn.tag) (hlt : dyn.tag < dtCount) :
    Gives (Shown k) (FileM.at_ labels dyn.tag) (.ok (labels.getD dyn.tag.toNat "")) := by
  have hlen : dyn.tag.toNat < labels.length := by
    change _ < 35
    have hcount : dyn.tag < 35 := hlt
    omega
  intro f hf
  refine ⟨f, ?_, hf⟩
  rw [at_some h0 (List.getElem?_eq_getElem hlen), List.getD_eq_getElem?_getD, List.getElem?_eq_getElem hlen]
  rfl

theorem printDyn_prints (h : Depicted b d p) (hread : Readable d (link, dyn)) (h0 : 0 ≤ dyn.tag) :
    Prints (Shown k) (printDyn plug link dyn) (shownDyn plug d (link, dyn)) (.ok ()) := by
  rw [printDyn, shownDyn]
  by_cases hnull : dyn.tag = dtNull
  · rw [if_pos hnull, if_pos hnull]
    exact Prints.pure ()
  rw [if_neg hnull, if_neg hnull]
  by_cases hcount : dtCount ≤ dyn.tag
  · rw [if_pos hcount, if_pos hcount]
    exact printUnknown_prints
  rw [if_neg hcount, if_neg hcount]
  refine Prints.read (label_gives h0 (by omega)) (Prints.print_bind _ ?_)
  exact (printValue_prints h hread).bind_ok (Prints.print _)

theorem printDyn_faults (h0 : ¬ 0 ≤ dyn.tag) :
    Prints (Shown k) (printDyn plug link dyn) [] (.error (.fault .index)) := by
  have hnull : dyn.tag ≠ dtNull := fun h => h0 (by rw [h]; decide)
  have hcount : ¬ dtCount ≤ dyn.tag := fun h => h0 (Int.le_trans (by decide) h)
  rw [printDyn, if_neg hnull, if_neg hcount]
  refine Prints.read_error fun f hf => ⟨f, ?_, hf⟩
  rw [FileM.at_, if_neg h0]
  rfl

def Indexed (x : Nat × Dyn) : Prop := 0 ≤ x.2.tag

instance : DecidablePred Indexed := fun _ => inferInstanceAs (Decidable (_ ≤ _))

theorem advance_run {f g : File} (h : f.source = g.source) (it : DynIter) :
    (advance it).run f = (it.next g, f) := by
  have hnext : it.next f = it.next g := by
    rw [DynIter.next, DynIter.next]
    exact congrArg (it.c.skip it.s >>= ·) (funext fun _ => fetch_congr (fetchDyn_congr h) _)
  rw [advance, get_bind, hnext]
  rfl

theorem forDyns_run {body : Dyn → DynM Unit} {last it : DynIter} {n : Nat} {f : File} {ds : List Dyn}
    (hf : f.source = b) (ht : Elf.traverse f last n it = .ok ds)
    (hbody : ∀ x ∈ ds, ∃ rows r, Prints (Shown k) (body x) rows r) {s : Printing File Token}
    (hs : Shown k s.state) : (forDyns body last n it).run s = (ds.forM body).run s := by
  induction n generalizing it ds s with
  | zero =>
    rw [Elf.traverse] at ht
    rw [forDyns]
    split at ht
    · next hlast =>
      cases ht
      rw [if_pos hlast]
      rfl
    · cases ht
  | succ n ih =>
    rw [Elf.traverse] at ht
    rw [forDyns]
    by_cases hlast : it.equals last = true
    · rw [if_pos hlast] at ht
      cases ht
      rw [if_pos hlast]
      rfl
    · rw [if_neg hlast] at ht
      obtain ⟨x, hitem, ht⟩ := Res.bind_ok.mp ht
      obtain ⟨next, hnext, ht⟩ := Res.bind_ok.mp ht
      obtain ⟨rest, hrest, ht⟩ := Res.bind_ok.mp ht
      cases ht
      obtain ⟨⟨rows, r, hx⟩, htail⟩ := List.forall_mem_cons.mp hbody
      obtain ⟨t, hrun, ht⟩ := hx s hs
      have hcons : (x :: rest).forM body = body x >>= fun _ => rest.forM body := rfl
      rw [if_neg hlast, hitem, lift_ok_bind, hcons]
      cases r with
      | error e => rw [bind_of_error hrun, bind_of_error hrun]
      | ok u =>
        rw [bind_of_ok hrun, bind_of_ok hrun]
        have hadvance : (onState (advance it)).run { state := t, out := s.out ++ rows } =
            (.ok next, ({ state := t, out := s.out ++ rows } : Printing File Token)) := by
          rw [onState_run, advance_run (ht.coherent.source.trans hf.symm), hnext]
        rw [bind_of_ok hadvance]
        exact ih hrest htail ht

theorem entries_read {i : Nat} {s : SectionDesc} (hread : ∀ x ∈ dynEntries d, Readable d x)
    (hs : d.sections[i]? = some s) : ∀ x ∈ entriesOf s, Readable d x :=
  fun x hx => hread x (List.mem_flatMap.mpr ⟨s, List.mem_of_getElem? hs, hx⟩)

theorem printDyns_prints (h : Depicted b d p) {l : List (Nat × Dyn)} (hread : ∀ x ∈ l, Readable d x) :
    Prints (Shown k) (l.forM fun x => printDyn plug x.1 x.2)
      ((l.takeWhile Indexed).flatMap (shownDyn plug d))
      (if ∀ x ∈ l, Indexed x then .ok () else .error (.fault .index)) :=
  Prints.forM_until (fun x hx h0 => printDyn_prints h (hread x hx) h0) fun _ _ h0 => printDyn_faults h0

theorem printSection_prints (h : Depicted b d p) (hread : ∀ x ∈ dynEntries d, Readable d x) {i : Nat}
    {s : SectionDesc} (hs : d.sections[i]? = some s) :
    Prints (Shown k) (printSection plug i) (((entriesOf s).takeWhile Indexed).flatMap (shownDyn plug d))
      (if ∀ x ∈ entriesOf s, Indexed x then .ok () else .error (.fault .index)) := by
  have hof := d.bodies s (List.mem_of_getElem? hs)
  refine Prints.read (shdrAt_gives h hs) ?_
  have hskip (hne : s.type ≠ shtDynamic) (hnil : entriesOf s = []) :
      Prints (Shown k) (if (s.header b.layout (p.content i)).type = shtDynamic then do
          let (first, last) ← onState (FileM.dynsOf i)
          forDyns (printDyn plug (s.header b.layout (p.content i)).link) last
            (s.header b.layout (p.content i)).size first
        else return ()) (((entriesOf s).takeWhile Indexed).flatMap (shownDyn plug d))
        (if ∀ x ∈ entriesOf s, Indexed x then .ok () else .error (.fault .index)) := by
    rw [if_neg (show ¬ (s.header b.layout (p.content i)).type = shtDynamic from hne), hnil,
      if_pos fun x hx => by cases hx]
    exact Prints.pure ()
  cases hb : s.body with
  | bits content entsize =>
    rw [hb] at hof
    exact hskip hof.2.2.1 (by rw [entriesOf, hb])
  | nobits size entsize =>
    rw [hb] at hof
    exact hskip (by rw [show s.type = shtNobits from hof]; decide) (by rw [entriesOf, hb])
  | symbols syms =>
    rw [hb] at hof
    refine hskip ?_ (by rw [entriesOf, hb])
    rcases hof with hty | hty <;> rw [hty] <;> decide
  | dynamic dyns =>
    rw [hb] at hof
    have hentries : entriesOf s = (dyns.map Dyn.cut).map fun x => (s.link, x) := by
      rw [entriesOf, hb, List.map_map]
      rfl
    have hread' := entries_read hread hs
    have hprints : Prints (Shown k) ((entriesOf s).forM fun x => printDyn plug x.1 x.2) _ _ :=
      printDyns_prints h hread'
    rw [if_pos (show (s.header b.layout (p.content i)).type = shtDynamic from hof)]
    have hfuel : dyns.length ≤ (s.header b.layout (p.content i)).size := by
      rw [SectionDesc.header, hb]
      exact Nat.le_mul_of_pos_right _ (dyn_slots h.layout).2.2
    intro t ht
    obtain ⟨f', hrun, hkin⟩ := readDyns_delivered h ht.sectioned hs hb hfuel
    obtain ⟨⟨first, last⟩, g, hrange, hrun⟩ := Effect.bind_ok.mp hrun
    rw [get_bind, lift_run] at hrun
    obtain ⟨htraverse, rfl⟩ := Prod.mk.inj hrun
    have hg := ht.kin hkin
    have hstate : (onState (FileM.dynsOf i)).run t =
        (.ok (first, last), ({ t with state := g } : Printing File Token)) := by
      rw [onState_run, hrange]
    rw [bind_of_ok hstate, forDyns_run hg.coherent.source htraverse (fun x hx => ?_) hg]
    · have hloop : (dyns.map Dyn.cut).forM (printDyn plug s.link) =
          (entriesOf s).forM fun x => printDyn plug x.1 x.2 := by
        rw [hentries]
        exact (forM_map (dyns.map Dyn.cut) (fun x => (s.link, x)) fun x => printDyn plug x.1 x.2).symm
      obtain ⟨u, hu, hshown⟩ := hprints { t with state := g } hg
      refine ⟨u, ?_, hshown⟩
      rw [← hu, ← hloop]
      rfl
    · by_cases h0 : 0 ≤ x.tag
      · refine ⟨_, _, printDyn_prints h (hread' (s.link, x) ?_) h0⟩
        rw [hentries]
        exact List.mem_map_of_mem hx
      · exact ⟨_, _, printDyn_faults h0⟩

theorem processELF_prints (h : Depicted b d p) (hread : ∀ x ∈ dynEntries d, Readable d x) :
    Prints (Settled k) (processELF plug) (((dynEntries d).takeWhile Indexed).flatMap (shownDyn plug d))
      (if ∀ x ∈ dynEntries d, Indexed x then .ok () else .error (.fault .index)) := by
  refine Prints.enter (fun f hf => countSections_first h hf) ?_ fun f hf => hf.toSettled
  exact Prints.forM_flat ((forall₂_range d.sections).imp fun i s hs => printSection_prints h hread hs)

end

section
variable {γ : Type} {p : Platform} {coffi : Option (Res γ)} {disk : String → Except String Pecoff.Stream}
  {plugs : Nat → Option Plugin} {argv : List String} {many : Bool} {arg : String}

inductive Item where
  | elf (d : Description) (machine : Nat)
  | other
  | refused (message : String)

def Item.Stands (p : Platform) (coffi : Option (Res γ)) (disk : String → Except String Pecoff.Stream)
    (arg : String) : Item → Prop
  | .elf d m => (∀ x ∈ dynEntries d, Readable d x) ∧ ∃ l places bytes, Holds p disk arg d l places bytes ∧
      word (fileOrder p.host (bytes.getD 5 0)) bytes 0 machineSlot = m
  | .other => ∃ file, openDisk p coffi disk arg = .ok file ∧ ∀ f, file ≠ .elf f
  | .refused message => openDisk p coffi disk arg = .error (.exception message)

def Item.AllIndexed : Item → Prop
  | .elf d _ => ∀ x ∈ dynEntries d, Indexed x
  | _ => True

def heading (many : Bool) (arg : String) : List Token := if many then [.file arg] else []

def blank (many : Bool) : List Token := if many then [.endl] else []

def shown (plugs : Nat → Option Plugin) (many : Bool) (word arg : String) : Item → List Token
  | .elf d m => heading many arg ++ ((dynEntries d).flatMap (shownDyn (plugs m) d) ++ blank many)
  | .other => heading many arg ++ blank many
  | .refused message => [.error word message]

def shownFrom (plugs : Nat → Option Plugin) (argv : List String) (many : Bool) :
    Nat → List (String × Item) → List Token
  | _, [] => []
  | i, x :: xs =>
    shown plugs many (argv.getD i "") x.1 x.2 ++ shownFrom plugs argv many (i + 1) xs

theorem when_ends (c : Bool) (t : Token) : Ends (printWhen c t) (if c then [t] else []) (.ok ()) := by
  cases c
  · exact Prints.pure ()
  · exact Prints.print t

theorem processFile_ends {file : Opened γ} (h : openDisk p coffi disk arg = .ok file) {rows : List Token}
    (hrows : Ends (processOpened plugs file) rows (.ok ())) :
    Ends (processFile plugs (openDisk p coffi disk) many arg) (heading many arg ++ (rows ++ blank many))
      (.ok ()) := by
  rw [processFile, h]
  exact (when_ends many _).bind_ok (hrows.bind_ok (when_ends many _))

theorem processFile_stops {file : Opened γ} (h : openDisk p coffi disk arg = .ok file) {rows : List Token}
    {e : Stop} (hrows : Ends (processOpened plugs file) rows (.error e)) :
    Ends (processFile plugs (openDisk p coffi disk) many arg) (heading many arg ++ rows) (.error e) := by
  rw [processFile, h]
  exact (when_ends many _).bind_ok hrows.bind_error

theorem elf_ends (plugs : Nat → Option Plugin) {d : Description} {m : Nat}
    (h : (Item.elf d m).Stands p coffi disk arg) :
    ∃ f, openDisk p coffi disk arg = .ok (.elf f) ∧
      Ends (processOpened (γ := γ) plugs (.elf f))
        (((dynEntries d).takeWhile Indexed).flatMap (shownDyn (plugs m) d))
        (if ∀ x ∈ dynEntries d, Indexed x then .ok () else .error (.fault .index)) := by
  obtain ⟨hread, l, places, bytes, hholds, rfl⟩ := h
  obtain ⟨f, hopen, hfresh, hcalm, hbytes, hhost, -, hdepicted⟩ := opened_described coffi hholds
  obtain ⟨k, -⟩ := hdepicted.tabled hfresh hcalm
  have hmachine : machine f = word (fileOrder p.host (bytes.getD 5 0)) bytes 0 machineSlot := by
    rw [machine, hbytes, hhost]
  refine ⟨f, hopen, ?_⟩
  rw [← hmachine]
  exact Prints.within (hfresh.settled hcalm k) (processELF_prints hdepicted hread)

theorem shown_ends (plugs : Nat → Option Plugin) {x : Item} (h : x.Stands p coffi disk arg)
    (hx : x.AllIndexed) (word : String) :
    Ends (catching (processFile plugs (openDisk p coffi disk) many arg) fun message =>
      print (.error word message)) (shown plugs many word arg x) (.ok ()) := by
  cases x with
  | elf d m =>
    obtain ⟨f, hopen, hends⟩ := elf_ends plugs h
    have hall : ∀ x ∈ dynEntries d, decide (Indexed x) = true := fun x hd => decide_eq_true (hx x hd)
    rw [if_pos (show ∀ x ∈ dynEntries d, Indexed x from hx),
      List.takeWhile_eq_self_iff.mpr hall] at hends
    exact catching_passed (processFile_ends hopen hends) fun message he => by cases he
  | other =>
    obtain ⟨file, hopen, hother⟩ := h
    have hnone : Ends (processOpened plugs file) [] (.ok ()) := by
      cases file with
      | elf f => exact absurd rfl (hother f)
      | coffi f => exact Prints.pure ()
      | pecoff f => exact Prints.pure ()
    exact catching_passed (processFile_ends hopen hnone) fun message he => by cases he
  | refused message =>
    have hopen : openDisk p coffi disk arg = .error (.exception message) := h
    have hraise : Ends (processFile plugs (openDisk p coffi disk) many arg) []
        (.error (.exception message)) := by
      rw [processFile, hopen]
      exact Prints.raise _
    exact catching_caught hraise (Prints.print _)

theorem args_ends (plugs : Nat → Option Plugin) (argv : List String) (many : Bool)
    {files : List (String × Item)} (h : ∀ x ∈ files, x.2.Stands p coffi disk x.1)
    (hx : ∀ x ∈ files, x.2.AllIndexed) (i : Nat) {rest : List String} {rows : List Token} {r : Res Unit}
    (hrest : Ends (processArgs plugs (openDisk p coffi disk) argv many (i + files.length) rest) rows r) :
    Ends (processArgs plugs (openDisk p coffi disk) argv many i (files.map Prod.fst ++ rest))
      (shownFrom plugs argv many i files ++ rows) r := by
  induction files generalizing i with
  | nil => exact hrest
  | cons x xs ih =>
    obtain ⟨hhead, htail⟩ := List.forall_mem_cons.mp h
    obtain ⟨hheadx, htailx⟩ := List.forall_mem_cons.mp hx
    have hnext : i + (x :: xs).length = i + 1 + xs.length := by
      rw [List.length_cons]
      omega
    rw [hnext] at hrest
    rw [shownFrom, List.append_assoc]
    exact (shown_ends plugs hhead hheadx _).bind_ok (ih htail htailx (i + 1) hrest)

theorem args_stop (plugs : Nat → Option Plugin) (argv : List String) (many : Bool) {file : Opened γ}
    (hopen : openDisk p coffi disk arg = .ok file) {rows : List Token} {kind : Fault}
    (hrows : Ends (processOpened plugs file) rows (.error (.fault kind))) (i : Nat) (rest : List String) :
    Ends (processArgs plugs (openDisk p coffi disk) argv many i (arg :: rest)) (heading many arg ++ rows)
      (.error (.fault kind)) :=
  (catching_passed (processFile_stops hopen hrows) fun message he => by cases he).bind_error

theorem dyn_command (plugs : Nat → Option Plugin) (argv : List String) {files : List (String × Item)}
    (h : ∀ x ∈ files, x.2.Stands p coffi disk x.1) (hx : ∀ x ∈ files, x.2.AllIndexed) :
    (run plugs (openDisk p coffi disk) argv (files.map Prod.fst)).run { state := () } =
      (.ok 0, { state := (), out := shownFrom plugs argv (1 < files.length) 0 files }) ∧
    ∀ bad d m rest, (Item.elf d m).Stands p coffi disk bad → ¬ (Item.elf d m).AllIndexed →
      (run plugs (openDisk p coffi disk) argv (files.map Prod.fst ++ bad :: rest)).run { state := () } =
        (.error (.fault .index), {
          state := ()
          out := shownFrom plugs argv (1 < files.length + 1 + rest.length) 0 files ++
            (heading (1 < files.length + 1 + rest.length) bad ++
              ((dynEntries d).takeWhile Indexed).flatMap (shownDyn (plugs m) d)) }) := by
  refine ⟨?_, fun bad d m rest hbad hnot => ?_⟩
  · have hnone : Ends (processArgs plugs (openDisk p coffi disk) argv (1 < files.length)
        (0 + files.length) []) [] (.ok ()) := Prints.pure ()
    have hargs := args_ends plugs argv (1 < files.length) h hx 0 hnone
    rw [List.append_nil, List.append_nil] at hargs
    rw [run, List.length_map]
    exact Ends.run (hargs.returns fun _ => 0)
  · obtain ⟨f, hopen, hends⟩ := elf_ends plugs hbad
    rw [if_neg (show ¬ ∀ x ∈ dynEntries d, Indexed x from hnot)] at hends
    have hlength : (files.map Prod.fst ++ bad :: rest).length = files.length + 1 + rest.length := by
      rw [List.length_append, List.length_map, List.length_cons]
      omega
    rw [run, hlength]
    have hstop := args_stop plugs argv (1 < files.length + 1 + rest.length) hopen hends
      (0 + files.length) rest
    exact Ends.run (args_ends plugs argv _ h hx 0 hstop).bind_error

end

theorem small_readable : ∀ x ∈ dynEntries smallDescription, Readable smallDescription x := by
  have hentries : dynEntries smallDescription = [(0, ⟨1, 2⟩)] := rfl
  rw [hentries]
  intro x hx hkind
  rw [List.mem_singleton.mp hx]
  exact ⟨_, _, _, rfl, rfl, by decide, by decide⟩

theorem small_indexed : ∀ x ∈ dynEntries smallDescription, Indexed x := by decide

theorem small_machine :
    word (fileOrder .little (small64.bytes.getD 5 0)) small64.bytes 0 machineSlot = 3 := by
  decide +kernel

def smallFiles : List (String × Item) :=
  [("wide", .elf smallDescription 3), ("lost", .refused "No such file or directory")]

theorem small_stands : ∀ x ∈ smallFiles,
    x.2.Stands (γ := Unit) littlePlatform none smallDisk x.1 := by
  rw [smallFiles, List.forall_mem_cons, List.forall_mem_cons]
  exact ⟨⟨small_readable, _, _, _, small_holds, small_machine⟩, rfl, fun x hx => by cases hx⟩

theorem smallFiles_indexed : ∀ x ∈ smallFiles, x.2.AllIndexed := by
  rw [smallFiles, List.forall_mem_cons, List.forall_mem_cons]
  exact ⟨small_indexed, trivial, fun x hx => by cases hx⟩

theorem small_shown : shownFrom (fun _ => none) ["gel-dyn", "wide", "lost"] true 0 smallFiles =
    [.file "wide", .label "NEEDED", .text [], .endl, .endl, .error "wide" "No such file or directory"] := by
  decide

-- The second file is not there, and the error names the first one.
theorem dyn_command_small :
    (run (fun _ => none) (openDisk (γ := Unit) littlePlatform none smallDisk)
      ["gel-dyn", "wide", "lost"] ["wide", "lost"]).run { state := () } =
        (.ok 0, {
          state := ()
          out := [.file "wide", .label "NEEDED", .text [], .endl, .endl,
            .error "wide" "No such file or directory"] }) := by
  have hargs : smallFiles.map Prod.fst = ["wide", "lost"] := rfl
  have hmany : decide (1 < smallFiles.length) = true := rfl
  have hrun := (dyn_command (fun _ => none) ["gel-dyn", "wide", "lost"] small_stands smallFiles_indexed).1
  rw [hargs, hmany, small_shown] at hrun
  exact hrun

end Gelpp.DynCommand
