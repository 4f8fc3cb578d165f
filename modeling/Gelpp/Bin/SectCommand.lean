import Gelpp.Bin.Opened
import Gelpp.Elf.Contains

namespace Gelpp.SectCommand

open Effect Elf Manager

def shfWrite : UInt32 := 1
def shfExecinstr : UInt32 := 4

def typeLabels : List String := [
  "SHT_NULL", "SHT_PROGBITS", "SHT_SYMTAB", "SHT_STRTAB", "SHT_RELA", "SHT_HASH", "SHT_DYNAMIC",
  "SHT_NOTE", "SHT_NOBITS", "SHT_REL", "SHT_SHLIB", "SHT_DYNSYM"]

inductive TypeText where
  | label (s : String)
  | number (n : Nat)
  deriving DecidableEq, Repr

def typeText (type : Nat) : TypeText :=
  match typeLabels[type]? with
  | some s => .label s
  | none => .number type

def hasFlag (h : Shdr) (flag : UInt32) : Bool := UInt32.ofNat h.flags &&& flag != 0

inductive Token where
  | titles
  | row (i : Nat) (type : TypeText) (write alloc exec : Bool) (addr size offset link : Nat)
  | general (i : Nat) (writable content executable : Bool) (base size offset : Nat)
  | name (t : List UInt8)
  | found (a : UInt64) (name : List UInt8)
  | error (message : String)
  deriving DecidableEq, Repr

abbrev SectM (α : Type) := Effect Stop (Printing File Token) α

def displaySection (i : Nat) : SectM Unit := do
  let h ← onState (FileM.shdrAt i)
  print (.row i (typeText h.type) (hasFlag h shfWrite) (hasFlag h shfAlloc) (hasFlag h shfExecinstr)
    h.addr h.size h.offset h.link)
  let name ← onState (FileM.sectionName i)
  print (.name name)

def findIn (a : UInt64) : List Nat → Bool → SectM Bool
  | [], found => return found
  | j :: js, found => do
    let h ← onState (FileM.shdrAt j)
    if hasFlag h shfAlloc ∧ h.contains a then do
      let name ← onState (FileM.sectionName j)
      print (.found a name)
      displaySection j
      findIn a js true
    else findIn a js found

-- The first section is not looked at.
def findSections (a : UInt64) : SectM Bool := do
  let n ← onState FileM.countSections
  findIn a ((List.range n).drop 1) false

def listSections : SectM Bool := do
  let n ← onState FileM.countSections
  print .titles
  (List.range n).forM displaySection
  return true

def processELF : Option UInt64 → SectM Bool
  | some a => findSections a
  | none => listSections

def displayGeneric (i : Nat) : SectM Unit := do
  let h ← onState (FileM.shdrAt i)
  print (.general i (hasFlag h shfWrite) (h.size ≠ 0) (hasFlag h shfExecinstr) h.addr h.size h.offset)
  let name ← onState (FileM.sectionName i)
  print (.name name)

def listGeneric : SectM Unit := do
  let n ← onState FileM.countSections
  (List.range n).forM displayGeneric

-- `find` is none where if(find), on the value of ELM's option, is false.
inductive Mode where
  | general
  | elf (find : Option UInt64)
  deriving DecidableEq, Repr

inductive Outcome where
  | done
  | failed
  | uncaught
  deriving DecidableEq, Repr

-- std::terminate for an exception that nothing catches.
inductive Exit where
  | code (n : Nat)
  | terminated
  deriving DecidableEq, Repr

section
variable {γ : Type} (openELF : String → Res File) (opened : String → Res (Opened γ))
  (sectionsOf : γ → Res (List Token))

-- `sectionsOf` is what the loop prints of a COFF file; a PE-COFF file has no section.
def processOpened : Opened γ → CommandM Token Unit
  | .elf f => within f listGeneric
  | .coffi f => do
    let rows ← lift (sectionsOf f)
    rows.forM print
  | .pecoff _ => return ()

def processFile (arg : String) : Mode → CommandM Token Bool
  | .general => do
    let file ← lift (opened arg)
    print .titles
    processOpened sectionsOf file
    return true
  | .elf find => do
    let f ← lift (openELF arg)
    within f (processELF find)

-- The exception for an address without a section is not a gel::Exception.
def attempt (mode : Mode) (arg : String) : CommandM Token Outcome :=
  catching
    (do
      let found ← processFile openELF opened sectionsOf arg mode
      return if found then .done else .uncaught)
    fun message => do
      print (.error message)
      return .failed

def processArgs (mode : Mode) : List String → CommandM Token Exit
  | [] => return .code 0
  | arg :: args => do
    let outcome ← attempt openELF opened sectionsOf mode arg
    if outcome = .done then processArgs mode args
    else if outcome = .failed then return .code 1
    else return .terminated

def run (mode : Mode) (args : List String) : CommandM Token Exit :=
  if args.isEmpty then return .code 1 else processArgs openELF opened sectionsOf mode args

end

def shownSection (d : Description) (l : Layout) (places : Places) (x : SectionDesc × Nat) : List Token :=
  let h := x.1.header l (places.content x.2)
  [.row x.2 (typeText h.type) (hasFlag h shfWrite) (hasFlag h shfAlloc) (hasFlag h shfExecinstr)
    h.addr h.size h.offset h.link, .name (d.text d.shstrndx x.1.name)]

def shownGeneric (d : Description) (l : Layout) (places : Places) (x : SectionDesc × Nat) : List Token :=
  let h := x.1.header l (places.content x.2)
  [.general x.2 (hasFlag h shfWrite) (h.size ≠ 0) (hasFlag h shfExecinstr) h.addr h.size h.offset,
    .name (d.text d.shstrndx x.1.name)]

def Reached (l : Layout) (a : UInt64) (x : SectionDesc × Nat) : Prop :=
  UInt32.ofNat x.1.flags &&& shfAlloc ≠ 0 ∧ x.1.addr % 2 ^ 64 ≤ a.toNat ∧
    a.toNat < (x.1.addr + x.1.body.size l) % 2 ^ 64

instance (l : Layout) (a : UInt64) : DecidablePred (Reached l a) := fun _ =>
  inferInstanceAs (Decidable (_ ∧ _))

def shownFound (d : Description) (l : Layout) (places : Places) (a : UInt64) (x : SectionDesc × Nat) :
    List Token := .found a (d.text d.shstrndx x.1.name) :: shownSection d l places x

theorem reached_iff {l : Layout} {a : UInt64} {s : SectionDesc} (i off : Nat) :
    hasFlag (s.header l off) shfAlloc ∧ (s.header l off).contains a ↔ Reached l a (s, i) := by
  have haddr : (UInt64.ofNat s.addr ≤ a) ↔ s.addr % 2 ^ 64 ≤ a.toNat := by
    rw [UInt64.le_iff_toNat_le, UInt64.toNat_ofNat']
  have hend : a < UInt64.ofNat s.addr + .ofNat (s.body.size l) ↔
      a.toNat < (s.addr + s.body.size l) % 2 ^ 64 := by
    rw [UInt64.lt_iff_toNat_lt, ← UInt64.ofNat_add, UInt64.toNat_ofNat']
  rw [Shdr.contains, Reached, hasFlag]
  simp only [Bool.and_eq_true, decide_eq_true_eq, bne_iff_ne]
  change _ ∧ (_ ∧ UInt64.ofNat s.addr ≤ a) ∧ a < UInt64.ofNat s.addr + .ofNat (s.body.size l) ↔ _
  rw [haddr, hend]
  tauto

section
variable {b : Source} {k : Tabled b} {d : Description} {p : Places} {a : UInt64}

def At (d : Description) (i : Nat) (x : SectionDesc × Nat) : Prop := d.sections[i]? = some x.1 ∧ x.2 = i

theorem indexed_sections (d : Description) :
    List.Forall₂ (At d) (List.range d.sections.length) d.sections.zipIdx := by
  rw [List.forall₂_iff_get]
  refine ⟨by rw [List.length_range, List.length_zipIdx], fun i hi hi' => ?_⟩
  have hlt : i < d.sections.length := by simpa using hi
  simp [At]

theorem displaySection_prints (h : Depicted b d p) {i : Nat} {x : SectionDesc × Nat} (hx : At d i x) :
    Prints (Shown k) (displaySection i) (shownSection d b.layout p x) (.ok ()) := by
  obtain ⟨hs, hi⟩ := hx
  refine Prints.read (shdrAt_gives h hs) ?_
  rw [shownSection, hi]
  exact Prints.print_bind _ (Prints.read (sectionName_gives h hs) (Prints.print _))

theorem displayGeneric_prints (h : Depicted b d p) {i : Nat} {x : SectionDesc × Nat} (hx : At d i x) :
    Prints (Shown k) (displayGeneric i) (shownGeneric d b.layout p x) (.ok ()) := by
  obtain ⟨hs, hi⟩ := hx
  refine Prints.read (shdrAt_gives h hs) ?_
  rw [shownGeneric, hi]
  exact Prints.print_bind _ (Prints.read (sectionName_gives h hs) (Prints.print _))

theorem findIn_prints (h : Depicted b d p) {is : List Nat} {xs : List (SectionDesc × Nat)}
    (hall : List.Forall₂ (At d) is xs) (found : Bool) :
    Prints (Shown k) (findIn a is found)
      ((xs.filter fun x => Reached b.layout a x).flatMap (shownFound d b.layout p a))
      (.ok (found || xs.any fun x => Reached b.layout a x)) := by
  induction hall generalizing found with
  | nil =>
    rw [List.any_nil, Bool.or_false]
    exact Prints.pure found
  | @cons i x is xs hx _ ih =>
    obtain ⟨hs, hi⟩ := hx
    rw [findIn]
    refine Prints.read (shdrAt_gives h hs) ?_
    have hreached := @reached_iff b.layout a x.1 x.2 (p.content i)
    by_cases hr : Reached b.layout a x
    · rw [if_pos (hreached.mpr hr),
        List.filter_cons_of_pos (p := fun x => decide (Reached b.layout a x)) (decide_eq_true hr),
        List.flatMap_cons, List.any_cons, decide_eq_true hr, Bool.true_or, Bool.or_true]
      have hrest := ih true
      rw [Bool.true_or] at hrest
      refine Prints.read (sectionName_gives h hs) (Prints.print_bind _ ?_)
      exact (displaySection_prints h ⟨hs, hi⟩).bind_ok hrest
    · rw [if_neg fun hc => hr (hreached.mp hc),
        List.filter_cons_of_neg (p := fun x => decide (Reached b.layout a x)) (by simpa using hr),
        List.any_cons, decide_eq_false hr, Bool.false_or]
      exact ih found

def shownFind (d : Description) (l : Layout) (places : Places) (a : UInt64) : List Token :=
  ((d.sections.zipIdx.drop 1).filter fun x => Reached l a x).flatMap (shownFound d l places a)

theorem findSections_prints (h : Depicted b d p) :
    Prints (Settled k) (findSections a) (shownFind d b.layout p a)
      (.ok (decide (∃ x ∈ d.sections.zipIdx.drop 1, Reached b.layout a x))) := by
  refine Prints.enter (fun f hf => countSections_first h hf) ?_ fun f hf => hf.toSettled
  have hfind := findIn_prints (a := a) (k := k) h (List.forall₂_drop 1 (indexed_sections d)) false
  have hany : (d.sections.zipIdx.drop 1).any (fun x => decide (Reached b.layout a x)) =
      decide (∃ x ∈ d.sections.zipIdx.drop 1, Reached b.layout a x) := by
    rw [Bool.eq_iff_iff]
    simp
  rwa [Bool.false_or, hany] at hfind

theorem listSections_prints (h : Depicted b d p) :
    Prints (Settled k) listSections (.titles :: d.sections.zipIdx.flatMap (shownSection d b.layout p))
      (.ok true) := by
  refine Prints.enter (fun f hf => countSections_first h hf) ?_ fun f hf => hf.toSettled
  have hrows : Prints (Shown k) ((List.range d.sections.length).forM displaySection)
      (d.sections.zipIdx.flatMap (shownSection d b.layout p)) (.ok ()) :=
    Prints.forM₂ ((indexed_sections d).imp fun i x hx => displaySection_prints h hx)
  exact Prints.print_bind _ (hrows.returns fun _ => true)

theorem listGeneric_prints (h : Depicted b d p) :
    Prints (Settled k) listGeneric (d.sections.zipIdx.flatMap (shownGeneric d b.layout p)) (.ok ()) := by
  refine Prints.enter (fun f hf => countSections_first h hf) ?_ fun f hf => hf.toSettled
  exact Prints.forM₂ ((indexed_sections d).imp fun i x hx => displayGeneric_prints h hx)

end

structure Item where
  d : Description
  layout : Layout
  places : Places

namespace Item

def Stands (p : Platform) (disk : String → Except String Pecoff.Stream) (arg : String) (x : Item) : Prop :=
  ∃ bytes, Holds p disk arg x.d x.layout x.places bytes

def Answers (x : Item) : Mode → Prop
  | .elf (some a) => ∃ y ∈ x.d.sections.zipIdx.drop 1, Reached x.layout a y
  | _ => True

def shown (x : Item) : Mode → List Token
  | .general => .titles :: x.d.sections.zipIdx.flatMap (shownGeneric x.d x.layout x.places)
  | .elf none => .titles :: x.d.sections.zipIdx.flatMap (shownSection x.d x.layout x.places)
  | .elf (some a) => shownFind x.d x.layout x.places a

end Item

section
variable {γ : Type} {p : Platform} {coffi : Option (Res γ)} {disk : String → Except String Pecoff.Stream}
  {sectionsOf : γ → Res (List Token)} {mode : Mode} {arg : String}

def Refuses (p : Platform) (coffi : Option (Res γ)) (disk : String → Except String Pecoff.Stream)
    (arg message : String) : Mode → Prop
  | .general => openDisk p coffi disk arg = .error (.exception message)
  | .elf _ => openELF p disk arg = .error (.exception message)

theorem elf_ends {x : Item} (h : x.Stands p disk arg) {find : Option UInt64} {rows : List Token} {r : Bool}
    (hrows : ∀ b (k : Tabled b), b.layout = x.layout → Depicted b x.d x.places →
      Prints (Settled k) (processELF find) rows (.ok r)) :
    Ends (processFile (openELF p disk) (openDisk p coffi disk) sectionsOf arg (.elf find)) rows (.ok r) := by
  obtain ⟨bytes, hholds⟩ := h
  obtain ⟨f, hopen, hfresh, hcalm, hlayout, hdepicted⟩ := openELF_described hholds
  obtain ⟨k, -⟩ := hdepicted.tabled hfresh hcalm
  rw [processFile, hopen]
  exact Prints.within (hfresh.settled hcalm k) (hrows _ k hlayout hdepicted)

theorem general_ends {x : Item} (h : x.Stands p disk arg) :
    Ends (processFile (openELF p disk) (openDisk p coffi disk) sectionsOf arg .general)
      (x.shown .general) (.ok true) := by
  obtain ⟨bytes, hholds⟩ := h
  obtain ⟨f, hopen, hfresh, hcalm, -, -, hlayout, hdepicted⟩ := opened_described coffi hholds
  obtain ⟨k, -⟩ := hdepicted.tabled hfresh hcalm
  rw [processFile, hopen]
  have hlist := listGeneric_prints (k := k) hdepicted
  rw [show f.source.layout = x.layout from hlayout] at hlist
  have hrows : Ends (processOpened sectionsOf (.elf f)) _ (.ok ()) :=
    Prints.within (hfresh.settled hcalm k) hlist
  exact Prints.lift_bind (Prints.print_bind _ (hrows.returns fun _ => true))

theorem file_ends {x : Item} (h : x.Stands p disk arg) (ha : x.Answers mode) :
    Ends (processFile (openELF p disk) (openDisk p coffi disk) sectionsOf arg mode) (x.shown mode)
      (.ok true) := by
  cases mode with
  | general => exact general_ends h
  | elf find =>
    refine elf_ends h fun b k hlayout hdepicted => ?_
    cases find with
    | none =>
      have hlist := listSections_prints (k := k) hdepicted
      rw [hlayout] at hlist
      exact hlist
    | some a =>
      have hfind := findSections_prints (a := a) (k := k) hdepicted
      rw [hlayout,
        decide_eq_true (show ∃ y ∈ x.d.sections.zipIdx.drop 1, Reached x.layout a y from ha)] at hfind
      exact hfind

theorem unfound_ends {x : Item} (h : x.Stands p disk arg) {a : UInt64} (ha : ¬ x.Answers (.elf (some a))) :
    Ends (processFile (openELF p disk) (openDisk p coffi disk) sectionsOf arg (.elf (some a))) []
      (.ok false) := by
  refine elf_ends h fun b k hlayout hdepicted => ?_
  have hnot : ¬ ∃ y ∈ x.d.sections.zipIdx.drop 1, Reached x.layout a y := ha
  have hnone : (x.d.sections.zipIdx.drop 1).filter (fun y => Reached x.layout a y) = [] := by
    rw [List.filter_eq_nil_iff]
    exact fun y hy hr => hnot ⟨y, hy, of_decide_eq_true hr⟩
  have hfind := findSections_prints (a := a) (k := k) hdepicted
  rw [hlayout, decide_eq_false hnot, shownFind, hnone] at hfind
  exact hfind

theorem refused_ends {message : String} (h : Refuses p coffi disk arg message mode) :
    Ends (processFile (openELF p disk) (openDisk p coffi disk) sectionsOf arg mode) []
      (.error (.exception message)) := by
  cases mode with
  | general =>
    rw [processFile, h]
    exact Prints.raise _
  | elf find =>
    rw [processFile, h]
    exact Prints.raise _

theorem args_ends {files : List (String × Item)} (h : ∀ x ∈ files, x.2.Stands p disk x.1)
    (ha : ∀ x ∈ files, x.2.Answers mode) {rest : List String} {rows : List Token} {r : Res Exit}
    (hrest : Ends (processArgs (openELF p disk) (openDisk p coffi disk) sectionsOf mode rest) rows r) :
    Ends (processArgs (openELF p disk) (openDisk p coffi disk) sectionsOf mode (files.map Prod.fst ++ rest))
      (files.flatMap (fun x => x.2.shown mode) ++ rows) r := by
  induction files with
  | nil => exact hrest
  | cons x xs ih =>
    obtain ⟨hx, hxs⟩ := List.forall_mem_cons.mp h
    obtain ⟨hax, haxs⟩ := List.forall_mem_cons.mp ha
    have hattempt : Ends (attempt (openELF p disk) (openDisk p coffi disk) sectionsOf mode x.1)
        (x.2.shown mode) (.ok .done) :=
      catching_passed
        ((file_ends hx hax).returns fun found => if found then Outcome.done else .uncaught)
        fun message he => by cases he
    rw [List.flatMap_cons, List.append_assoc]
    exact hattempt.bind_ok (ih hxs haxs)

theorem run_ends {args : List String} (hargs : args ≠ []) {rows : List Token} {r : Res Exit}
    (h : Ends (processArgs (openELF p disk) (openDisk p coffi disk) sectionsOf mode args) rows r) :
    (run (openELF p disk) (openDisk p coffi disk) sectionsOf mode args).run { state := () } =
      (r, { state := (), out := rows }) := by
  rw [run, if_neg (by simpa using hargs)]
  exact h.run

theorem sect_command (coffi : Option (Res γ)) (sectionsOf : γ → Res (List Token)) (mode : Mode)
    {files : List (String × Item)}
    (h : ∀ x ∈ files, x.2.Stands p disk x.1) (ha : ∀ x ∈ files, x.2.Answers mode) :
    (files ≠ [] → (run (openELF p disk) (openDisk p coffi disk) sectionsOf mode (files.map Prod.fst)).run
      { state := () } = (.ok (.code 0), { state := (), out := files.flatMap fun x => x.2.shown mode })) ∧
    (∀ bad rest message, Refuses p coffi disk bad message mode →
      (run (openELF p disk) (openDisk p coffi disk) sectionsOf mode (files.map Prod.fst ++ bad :: rest)).run
        { state := () } = (.ok (.code 1), {
          state := ()
          out := files.flatMap (fun x => x.2.shown mode) ++ [.error message] })) ∧
    ∀ lost (x : Item) rest, x.Stands p disk lost → ¬ x.Answers mode →
      (run (openELF p disk) (openDisk p coffi disk) sectionsOf mode (files.map Prod.fst ++ lost :: rest)).run
        { state := () } = (.ok .terminated, { state := (), out := files.flatMap fun x => x.2.shown mode }) := by
  refine ⟨fun hne => ?_, fun bad rest message hbad => ?_, fun lost x rest hx hnot => ?_⟩
  · have hdone : Ends (processArgs (openELF p disk) (openDisk p coffi disk) sectionsOf mode []) []
        (.ok (.code 0)) := Prints.pure _
    have hargs := args_ends h ha hdone
    rw [List.append_nil, List.append_nil] at hargs
    exact run_ends (by simpa using hne) hargs
  · have hfailed : Ends (attempt (openELF p disk) (openDisk p coffi disk) sectionsOf mode bad)
        [.error message] (.ok .failed) :=
      catching_caught (refused_ends hbad).bind_error ((Prints.print _).returns fun _ => Outcome.failed)
    have hended : Ends (processArgs (openELF p disk) (openDisk p coffi disk) sectionsOf mode (bad :: rest))
        [.error message] (.ok (.code 1)) := hfailed.bind_ok (Prints.pure _)
    exact run_ends (by simp) (args_ends h ha hended)
  · obtain ⟨a, rfl⟩ : ∃ a, mode = .elf (some a) := by
      rcases mode with _ | _ | a
      · exact absurd trivial hnot
      · exact absurd trivial hnot
      · exact ⟨a, rfl⟩
    have huncaught : Ends
        (attempt (openELF p disk) (openDisk p coffi disk) sectionsOf (.elf (some a)) lost) []
        (.ok .uncaught) :=
      catching_passed
        ((unfound_ends hx hnot).returns fun found => if found then Outcome.done else .uncaught)
        fun message he => by cases he
    have hended : Ends (processArgs (openELF p disk) (openDisk p coffi disk) sectionsOf (.elf (some a))
        (lost :: rest)) [] (.ok .terminated) := huncaught.bind_ok (Prints.pure _)
    have hargs := args_ends h ha hended
    rw [List.append_nil] at hargs
    exact run_ends (by simp) hargs

end

def smallItem : Item := ⟨smallDescription, elf64, smallPlaces true⟩

theorem smallItem_stands : smallItem.Stands littlePlatform smallDisk "wide" := ⟨_, small_holds⟩

theorem smallItem_answers : smallItem.Answers (.elf (some 10)) := by
  change ∃ y ∈ smallSections.zipIdx.drop 1, Reached elf64 10 y
  decide

theorem smallItem_unanswered : ¬ smallItem.Answers (.elf (some 100)) := by
  change ¬ ∃ y ∈ smallSections.zipIdx.drop 1, Reached elf64 100 y
  decide

theorem smallItem_shown : smallItem.shown (.elf (some 10)) =
    [.found 10 [97], .row 2 (.label "SHT_DYNAMIC") true true false 8 16 339 0, .name [97]] := by
  decide

theorem sect_command_small :
    (run (openELF littlePlatform smallDisk) (openDisk (γ := Unit) littlePlatform none smallDisk)
      (fun _ => .ok []) (.elf (some 10)) ["wide"]).run { state := () } = (.ok (.code 0), {
        state := ()
        out := [.found 10 [97], .row 2 (.label "SHT_DYNAMIC") true true false 8 16 339 0, .name [97]] }) ∧
    (run (openELF littlePlatform smallDisk) (openDisk (γ := Unit) littlePlatform none smallDisk)
      (fun _ => .ok []) (.elf (some 100)) ["wide"]).run { state := () } =
        (.ok .terminated, { state := (), out := [] }) := by
  have hstands : ∀ x ∈ [("wide", smallItem)], x.2.Stands littlePlatform smallDisk x.1 := by
    intro x hx
    rw [List.mem_singleton.mp hx]
    exact smallItem_stands
  have hanswers : ∀ x ∈ [("wide", smallItem)], x.2.Answers (.elf (some 10)) := by
    intro x hx
    rw [List.mem_singleton.mp hx]
    exact smallItem_answers
  have hnone : ∀ x ∈ ([] : List (String × Item)), x.2.Stands littlePlatform smallDisk x.1 :=
    List.forall_mem_nil _
  have hnone' : ∀ x ∈ ([] : List (String × Item)), x.2.Answers (.elf (some 100)) := List.forall_mem_nil _
  constructor
  · have hrun := (sect_command (none : Option (Res Unit)) (fun _ => .ok []) _ hstands hanswers).1
      (List.cons_ne_nil _ _)
    rw [List.flatMap_singleton, smallItem_shown, List.map_cons, List.map_nil] at hrun
    rw [hrun]
  · have hrun := (sect_command (none : Option (Res Unit)) (fun _ => .ok []) _ hnone hnone').2.2 "wide"
      smallItem [] smallItem_stands smallItem_unanswered
    rw [List.map_nil, List.nil_append, List.flatMap_nil] at hrun
    rw [hrun]

end Gelpp.SectCommand
