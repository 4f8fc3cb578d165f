import Gelpp.Elf.Contains
import Gelpp.Elf.Fixed
import Gelpp.Elf.SearchPath

namespace Gelpp

def ImageSegment.Spells (s : ImageSegment) (a : Nat) (text : List UInt8) : Prop :=
  s.base.toNat ≤ a ∧ 0 ∉ text ∧ ∃ rest, s.buf.drop (a - s.base.toNat) = text ++ 0 :: rest

namespace Elf

open Effect

def dtNull : Int := 0
def dtNeeded : Int := 1
def dtPltrelsz : Int := 2
def dtPltgot : Int := 3
def dtHash : Int := 4
def dtStrtab : Int := 5
def dtSymtab : Int := 6
def dtRela : Int := 7
def dtRelasz : Int := 8
def dtRelaent : Int := 9
def dtStrsz : Int := 10
def dtSyment : Int := 11
def dtInit : Int := 12
def dtFini : Int := 13
def dtSoname : Int := 14
def dtRpath : Int := 15
def dtSymbolic : Int := 16
def dtRel : Int := 17
def dtRelsz : Int := 18
def dtRelent : Int := 19
def dtPltrel : Int := 20
def dtDebug : Int := 21
def dtTextrel : Int := 22
def dtJmprel : Int := 23
def dtBindNow : Int := 24

inductive DynField where
  | pltrelsz
  | pltgot
  | hash
  | strtab
  | symtab
  | strsz
  | syment
  | init
  | fini
  | debug
  deriving DecidableEq, Repr

def DynField.tag : DynField → Int
  | pltrelsz => dtPltrelsz
  | pltgot => dtPltgot
  | hash => dtHash
  | strtab => dtStrtab
  | symtab => dtSymtab
  | strsz => dtStrsz
  | syment => dtSyment
  | init => dtInit
  | fini => dtFini
  | debug => dtDebug

-- A unit of the builder is known by its path; `needed` has none for a null pointer.
structure LinkUnit where
  name : SearchPath := []
  pltrelsz : UInt32 := 0
  pltgot : UInt32 := 0
  hash : UInt32 := 0
  strtab : UInt32 := 0
  symtab : UInt32 := 0
  strsz : UInt32 := 0
  syment : UInt32 := 0
  init : UInt32 := 0
  fini : UInt32 := 0
  debug : UInt32 := 0
  flags : UInt32 := 0
  needed : List (Option SearchPath) := []
  rpath : List SearchPath := []
  deriving DecidableEq, Repr

namespace LinkUnit

def SYMBOLIC : UInt32 := 0x01
def TEXTREL : UInt32 := 0x02
def BIND_NOW : UInt32 := 0x04

def get (u : LinkUnit) : DynField → UInt32
  | .pltrelsz => u.pltrelsz
  | .pltgot => u.pltgot
  | .hash => u.hash
  | .strtab => u.strtab
  | .symtab => u.symtab
  | .strsz => u.strsz
  | .syment => u.syment
  | .init => u.init
  | .fini => u.fini
  | .debug => u.debug

def set (u : LinkUnit) (v : UInt32) : DynField → LinkUnit
  | .pltrelsz => { u with pltrelsz := v }
  | .pltgot => { u with pltgot := v }
  | .hash => { u with hash := v }
  | .strtab => { u with strtab := v }
  | .symtab => { u with symtab := v }
  | .strsz => { u with strsz := v }
  | .syment => { u with syment := v }
  | .init => { u with init := v }
  | .fini => { u with fini := v }
  | .debug => { u with debug := v }

end LinkUnit

structure PathOps where
  absolute : SearchPath → SearchPath
  parent : SearchPath → SearchPath
  join : SearchPath → SearchPath → SearchPath

structure LinkBuilder where
  paths : PathOps
  isLinux : Bool := true
  lpaths : List SearchPath
  im : Gelpp.Image

inductive LinkWarning where
  | unknownEntry (tag : Int)
  | cannotExpand (s : List UInt8)
  deriving DecidableEq, Repr

inductive LinkRequest where
  | needed (name : List UInt8)
  | rpath (path : List UInt8)
  deriving DecidableEq, Repr

-- `mem` is the content of the program header, `off` the offset of the cursor on it and `units` the
-- keys of the units of the builder. `asked` is ghost.
structure Linking where
  unit : LinkUnit
  mem : List UInt8 := []
  off : Nat := 0
  units : List SearchPath := []
  warnings : List LinkWarning := []
  asked : List LinkRequest := []
  deriving DecidableEq, Repr

-- Elf32_Dyn as it is stored: the tag is an Elf32_Sword.
def storedDyn (host : ByteOrder) (mem : List UInt8) (entry : Nat) : Res Dyn := do
  let tag ← loadAt host mem entry elf32.dyn.tag
  let val ← loadAt host mem entry elf32.dyn.val
  return { tag := (UInt32.ofNat tag).toInt32.toInt, val }

namespace Linking

def avail (s : Linking) : Bool := decide ((s.off + elf32.dyn.size) % 2 ^ 64 ≤ s.mem.length)

def skip (s : Linking) : Linking :=
  if s.avail then { s with off := (s.off + elf32.dyn.size) % 2 ^ 64 } else s

def finish (s : Linking) : Linking := { s with off := s.mem.length }

def here (s : Linking) (host : ByteOrder) : Res Dyn :=
  if s.off < s.mem.length then storedDyn host s.mem s.off else .error (.fault .assertion)

def warn (s : Linking) (w : LinkWarning) : Linking := { s with warnings := s.warnings ++ [w] }

def ask (s : Linking) (r : LinkRequest) : Linking := { s with asked := s.asked ++ [r] }

end Linking

abbrev LinkM (α : Type) := Effect Stop Linking α

namespace LinkM

def scan (body : LinkM Unit) : Nat → LinkM Unit
  | 0 => do
    let s ← get
    if s.avail then raise .steps else return ()
  | n + 1 => do
    let s ← get
    if s.avail then do
      body
      modify Linking.skip
      scan body n
    else return ()

inductive Action where
  | finish
  | record (fd : DynField)
  | flag (bit : UInt32)
  | ignore
  | warn
  deriving DecidableEq, Repr

def cases : List (Int × Action) := [
  (dtNull, .finish), (dtNeeded, .ignore), (dtPltrelsz, .record .pltrelsz),
  (dtPltgot, .record .pltgot), (dtHash, .record .hash), (dtStrtab, .record .strtab),
  (dtSymtab, .record .symtab), (dtRela, .ignore), (dtRelasz, .ignore), (dtRelaent, .ignore),
  (dtStrsz, .record .strsz), (dtSyment, .record .syment), (dtInit, .record .init),
  (dtFini, .record .fini), (dtSoname, .ignore), (dtRpath, .ignore),
  (dtSymbolic, .flag LinkUnit.SYMBOLIC), (dtRel, .ignore), (dtRelsz, .ignore),
  (dtRelent, .ignore), (dtPltrel, .ignore), (dtDebug, .record .debug),
  (dtTextrel, .flag LinkUnit.TEXTREL), (dtJmprel, .ignore), (dtBindNow, .flag LinkUnit.BIND_NOW)]

def action (tag : Int) : Action := (cases.lookup tag).getD .warn

-- The tag is fixed in a variable that the switch does not test; the value is fixed in place.
def collect (f : File) : LinkM Unit := do
  let s ← get
  let e ← lift (s.here f.host)
  match action e.tag with
  | .finish => modify Linking.finish
  | .record fd =>
    let mem ← lift (fixAt f.host f.eiData s.off s.mem elf32.dyn.val)
    let val ← lift (loadAt f.host mem s.off elf32.dyn.val)
    modify fun s => { s with mem, unit := s.unit.set (.ofNat val) fd }
  | .flag bit => modify fun s => { s with unit := { s.unit with flags := s.unit.flags ||| bit } }
  | .ignore => return ()
  | .warn => modify fun s => s.warn (.unknownEntry e.tag)

end LinkM

def LinkUnit.getString (u : LinkUnit) (s : ImageSegment) (off : UInt32) : Res (List UInt8) :=
  if u.strsz ≤ off then .error (.exception "bad offset in DT_RPATH entry")
  else cstringAt s.buf (off.toUInt64 - s.base).toNat

namespace LinkM

def slash : UInt8 := 47

def origin : List UInt8 := text ['$', 'O', 'R', 'I', 'G', 'I', 'N']
def lib : List UInt8 := text ['$', 'L', 'I', 'B']
def bracedOrigin : List UInt8 := text ['$', '\x7b', 'O', 'R', 'I', 'G', 'I', 'N', '\x7d']
def bracedLib : List UInt8 := text ['$', '\x7b', 'L', 'I', 'B', '\x7d']

section
variable (b : LinkBuilder)

def expansion (s : List UInt8) (u : LinkUnit) : Option SearchPath :=
  let dir := text ['l', 'i', 'b']
  if ¬ b.isLinux then some s
  else if ¬ (text ['$']).isPrefixOf s then some s
  else if ¬ (text ['$', '\x7b']).isPrefixOf s then
    if origin.isPrefixOf s then some (b.paths.join (b.paths.parent u.name) (s.drop 7))
    else if lib.isPrefixOf s then some (b.paths.join dir (s.drop 4))
    else none
  else if bracedOrigin.isPrefixOf s then some (b.paths.join (b.paths.parent u.name) (s.drop 9))
  else if bracedLib.isPrefixOf s then some (b.paths.join dir (s.drop 6))
  else none

def expand (s : List UInt8) : LinkM SearchPath := do
  let st ← get
  match expansion b s st.unit with
  | some p => return p
  | none =>
    modify fun st => st.warn (.cannotExpand s)
    return s

def addRpath (s : List UInt8) : LinkM Unit := do
  let p ← expand b s
  modify fun st => { st with unit := { st.unit with rpath := st.unit.rpath ++ [p] } }

def addRpaths : List (List UInt8) → LinkM Unit
  | [] => return ()
  | s :: ss => do
    addRpath b s
    addRpaths ss

-- UnixBuilder::get, which does not return null.
def getUnit (p : SearchPath) : LinkM SearchPath := do
  let p := b.paths.absolute p
  modify fun st => if p ∈ st.units then st else { st with units := st.units ++ [p] }
  return p

-- So the first directory is the one that is taken.
def resolve (name : List UInt8) : LinkM (Option SearchPath) := do
  let st ← get
  if name.contains slash then return some (← getUnit b name)
  else
    match st.unit.rpath ++ b.lpaths with
    | p :: _ => return some (← getUnit b (b.paths.join p name))
    | [] => return none

def perform (f : File) (str : ImageSegment) : LinkM Unit := do
  let s ← get
  let e ← lift (s.here f.host)
  let off := fix32 f.eiData (.ofNat e.val)
  if e.tag = dtNull then modify Linking.finish
  else if e.tag = dtRpath then do
    let path ← lift (s.unit.getString str off)
    modify fun s => s.ask (.rpath path)
    let ss ← lift (UnixBuilder.splitPaths path)
    addRpaths b ss
  else if e.tag = dtNeeded then do
    let name ← lift (s.unit.getString str off)
    modify fun s => s.ask (.needed name)
    let u ← resolve b name
    modify fun s => { s with unit := { s.unit with needed := s.unit.needed ++ [u] } }
  else return ()

-- Unit::link, with the content of the PT_DYNAMIC header that load has recorded.
def link (f : File) (dyn : Option (List UInt8)) : LinkM Unit :=
  match dyn with
  | none => return ()
  | some content => do
    modify fun s => { s with mem := content, off := 0 }
    scan (collect f) content.length
    let s ← get
    match b.im.at_ s.unit.strtab.toUInt64 with
    | none => raise (.exception "STRTAB address not in loaded segments!")
    | some str =>
      modify fun s => { s with off := 0 }
      scan (perform b f str) content.length

end

end LinkM

def tableOf (read : Nat → Res Dyn) (content : List UInt8) : List Dyn :=
  ((List.range (content.length / elf32.dyn.size)).filterMap fun k =>
    (read (k * elf32.dyn.size)).toOption).takeWhile fun d => d.tag ≠ dtNull

def Dyn.fixVal (e : UInt8) (d : Dyn) : Dyn := { d with val := fixWidth e 4 d.val }

def decoded (f : File) (content : List UInt8) : List Dyn := tableOf (fetchDyn f content) content

def hostEntries (f : File) (content : List UInt8) : List Dyn :=
  (tableOf (storedDyn f.host content) content).map (Dyn.fixVal f.eiData)

def lastOf (tag : Int) (ds : List Dyn) : Nat :=
  ((ds.filter fun d => d.tag = tag).getLast?.map Dyn.val).getD 0

def flagOf (tag : Int) (bit : UInt32) (ds : List Dyn) : UInt32 :=
  if ds.any fun d => d.tag = tag then bit else 0

def flagsOf (ds : List Dyn) : UInt32 :=
  flagOf dtSymbolic LinkUnit.SYMBOLIC ds ||| flagOf dtTextrel LinkUnit.TEXTREL ds |||
    flagOf dtBindNow LinkUnit.BIND_NOW ds

structure LinkUnit.Records (u : LinkUnit) (ds : List Dyn) : Prop where
  fields : ∀ fd : DynField, (u.get fd).toNat = lastOf fd.tag ds
  flags : u.flags = flagsOf ds

def requests (ds : List Dyn) : List Dyn :=
  ds.filter fun d => d.tag = dtNeeded ∨ d.tag = dtRpath

def LinkRequest.of (d : Dyn) (text : List UInt8) : LinkRequest :=
  if d.tag = dtNeeded then .needed text else .rpath text

inductive Resolves (str : ImageSegment) (strtab strsz : Nat) :
    List Dyn → List LinkRequest → Res Unit → Prop where
  | done : Resolves str strtab strsz [] [] (.ok ())
  | refused {d : Dyn} {ds : List Dyn} {m : String} (h : strsz ≤ d.val) :
    Resolves str strtab strsz (d :: ds) [] (.error (.exception m))
  | served {d : Dyn} {ds : List Dyn} {s : List UInt8} {rs : List LinkRequest} {x : Res Unit}
    (h : d.val < strsz) (ht : str.Spells (strtab + d.val) s)
    (hs : Resolves str strtab strsz ds rs x) :
    Resolves str strtab strsz (d :: ds) (.of d s :: rs) x

structure Linked (im : Gelpp.Image) (ds : List Dyn) (r : Res Unit × Linking) : Prop where
  records : r.2.unit.Records ds
  held : ∀ str, im.at_ (.ofNat (lastOf dtStrtab ds)) = some str →
    Resolves str (lastOf dtStrtab ds) (lastOf dtStrsz ds) (requests ds) r.2.asked r.1
  unheld : im.at_ (.ofNat (lastOf dtStrtab ds)) = none →
    r.2.asked = [] ∧ ∃ m, r.1 = .error (.exception m)

inductive SameTexts (str : ImageSegment) (strtab strsz : Nat) : List Dyn → List Dyn → Prop where
  | done : SameTexts str strtab strsz [] []
  | refused {d d' : Dyn} {ds ds' : List Dyn} (h : strsz ≤ d.val) (h' : strsz ≤ d'.val) :
    SameTexts str strtab strsz (d :: ds) (d' :: ds')
  | served {d d' : Dyn} {ds ds' : List Dyn} {s : List UInt8} (h : d.val < strsz)
    (h' : d'.val < strsz) (hkind : d.tag = dtNeeded ↔ d'.tag = dtNeeded)
    (ht : cstringAt str.buf (UInt64.ofNat d.val - str.base).toNat = .ok s)
    (ht' : str.Spells (strtab + d'.val) s)
    (hs : SameTexts str strtab strsz ds ds') :
    SameTexts str strtab strsz (d :: ds) (d' :: ds')

-- The tags may be tested before they are decoded, and the texts are where they are read.
structure Linkable (im : Gelpp.Image) (ds ds' : List Dyn) : Prop where
  fields : ∀ fd : DynField, lastOf fd.tag ds = lastOf fd.tag ds'
  flags : flagsOf ds = flagsOf ds'
  texts : ∀ str, im.at_ (.ofNat (lastOf dtStrtab ds')) = some str →
    SameTexts str (lastOf dtStrtab ds') (lastOf dtStrsz ds') (requests ds) (requests ds')

namespace LinkUnit

variable {u : LinkUnit} {v : UInt32}

theorem get_set (u : LinkUnit) (v : UInt32) (fd fd' : DynField) :
    (u.set v fd).get fd' = if fd' = fd then v else u.get fd' := by
  cases fd <;> cases fd' <;> rfl

theorem set_flags (u : LinkUnit) (v : UInt32) (fd : DynField) : (u.set v fd).flags = u.flags := by
  cases fd <;> rfl

end LinkUnit

namespace LinkM

theorem action_tag (fd : DynField) : action fd.tag = .record fd := by
  cases fd <;> rfl

theorem cases_of_action {tag : Int} {a : Action} (h : action tag = a) (ha : a ≠ .warn) :
    (tag, a) ∈ cases := by
  rw [action] at h
  cases hlook : cases.lookup tag with
  | none =>
    rw [hlook] at h
    exact absurd h.symm ha
  | some a' =>
    rw [hlook] at h
    obtain ⟨l, l', heq, -⟩ := List.lookup_eq_some_iff.mp hlook
    rw [heq, ← h]
    simp

theorem tag_of_record {tag : Int} {fd : DynField} (h : action tag = .record fd) :
    tag = fd.tag := by
  have hmem := cases_of_action h nofun
  simp only [cases, List.mem_cons, Prod.mk.injEq, Action.record.injEq, reduceCtorEq, and_false,
    false_or, or_false, List.not_mem_nil] at hmem
  rcases hmem with ⟨rfl, rfl⟩ | ⟨rfl, rfl⟩ | ⟨rfl, rfl⟩ | ⟨rfl, rfl⟩ | ⟨rfl, rfl⟩ | ⟨rfl, rfl⟩ |
    ⟨rfl, rfl⟩ | ⟨rfl, rfl⟩ | ⟨rfl, rfl⟩ | ⟨rfl, rfl⟩ <;> rfl

theorem tag_of_flag {tag : Int} {bit : UInt32} (h : action tag = .flag bit) :
    tag = dtSymbolic ∧ bit = LinkUnit.SYMBOLIC ∨ tag = dtTextrel ∧ bit = LinkUnit.TEXTREL ∨
      tag = dtBindNow ∧ bit = LinkUnit.BIND_NOW := by
  have hmem := cases_of_action h nofun
  simpa only [cases, List.mem_cons, Prod.mk.injEq, Action.flag.injEq, reduceCtorEq, and_false,
    false_or, or_false, List.not_mem_nil] using hmem

theorem action_finish_iff {tag : Int} : action tag = .finish ↔ tag = dtNull := by
  constructor
  · intro h
    have hmem := cases_of_action h nofun
    simpa [cases] using hmem
  · rintro rfl
    rfl

def withEntry (u : LinkUnit) (d : Dyn) : LinkUnit :=
  match action d.tag with
  | .record fd => u.set (.ofNat d.val) fd
  | .flag bit => { u with flags := u.flags ||| bit }
  | _ => u

section
variable {u : LinkUnit} {d : Dyn} {ds : List Dyn}

theorem after_get (fd : DynField) :
    (withEntry u d).get fd = if d.tag = fd.tag then .ofNat d.val else u.get fd := by
  by_cases htag : d.tag = fd.tag
  · have haction : action d.tag = .record fd := htag ▸ action_tag fd
    rw [withEntry, haction, if_pos htag]
    exact (LinkUnit.get_set ..).trans (if_pos rfl)
  · rw [if_neg htag, withEntry]
    cases haction : action d.tag with
    | record fd' =>
      have hne : fd ≠ fd' := by
        rintro rfl
        exact htag (tag_of_record haction)
      exact (LinkUnit.get_set ..).trans (if_neg hne)
    | flag bit => cases fd <;> rfl
    | finish => rfl
    | ignore => rfl
    | warn => rfl

theorem lastOf_append (tag : Int) (ds : List Dyn) (d : Dyn) :
    lastOf tag (ds ++ [d]) = if d.tag = tag then d.val else lastOf tag ds := by
  by_cases htag : d.tag = tag
  · rw [if_pos htag, lastOf, List.filter_append, List.filter_cons_of_pos (by simpa using htag),
      List.filter_nil, List.getLast?_concat]
    rfl
  · rw [if_neg htag, lastOf, List.filter_append, List.filter_cons_of_neg (by simpa using htag),
      List.filter_nil, List.append_nil]
    rfl

-- The induction is from the right: the last entry of a tag wins.
theorem fold_get {name : SearchPath} (hval : ∀ d ∈ ds, d.val < 2 ^ 32) (fd : DynField) :
    ((ds.foldl withEntry { name }).get fd).toNat = lastOf fd.tag ds := by
  induction ds using List.reverseRecOn with
  | nil => cases fd <;> rfl
  | append_singleton ds d ih =>
    have hd : d.val < 2 ^ 32 := hval d (by simp)
    have hds := ih fun d' hd' => hval d' (List.mem_append_left _ hd')
    rw [List.foldl_append, List.foldl_cons, List.foldl_nil, after_get, lastOf_append]
    split
    · exact UInt32.toNat_ofNat_of_lt' hd
    · exact hds

theorem flagOf_append (tag : Int) (bit : UInt32) (ds : List Dyn) (d : Dyn) :
    flagOf tag bit (ds ++ [d]) = flagOf tag bit ds ||| if d.tag = tag then bit else 0 := by
  rw [flagOf, flagOf, List.any_append]
  by_cases htag : d.tag = tag <;> cases ds.any fun d => d.tag = tag <;> simp [htag]

def bitOf (tag : Int) : UInt32 :=
  (if tag = dtSymbolic then LinkUnit.SYMBOLIC else 0) |||
    (if tag = dtTextrel then LinkUnit.TEXTREL else 0) |||
    if tag = dtBindNow then LinkUnit.BIND_NOW else 0

theorem bitOf_flag {tag : Int} {bit : UInt32} (h : action tag = .flag bit) : bitOf tag = bit := by
  rcases tag_of_flag h with ⟨rfl, rfl⟩ | ⟨rfl, rfl⟩ | ⟨rfl, rfl⟩ <;> decide

theorem bitOf_other {tag : Int} (h : ∀ bit, action tag ≠ .flag bit) : bitOf tag = 0 := by
  have hne (tag' : Int) (bit : UInt32) (haction : action tag' = .flag bit) : tag ≠ tag' := by
    rintro rfl
    exact h bit haction
  rw [bitOf, if_neg (hne dtSymbolic _ rfl), if_neg (hne dtTextrel _ rfl), if_neg (hne dtBindNow _ rfl)]
  rfl

theorem after_flags (u : LinkUnit) (d : Dyn) :
    (withEntry u d).flags = u.flags ||| bitOf d.tag := by
  rw [withEntry]
  cases haction : action d.tag with
  | flag bit => rw [bitOf_flag haction]
  | record fd =>
    rw [bitOf_other (by simp [haction]), UInt32.or_zero]
    exact LinkUnit.set_flags ..
  | finish => rw [bitOf_other (by simp [haction]), UInt32.or_zero]
  | ignore => rw [bitOf_other (by simp [haction]), UInt32.or_zero]
  | warn => rw [bitOf_other (by simp [haction]), UInt32.or_zero]

theorem fold_flags {name : SearchPath} : (ds.foldl withEntry { name }).flags = flagsOf ds := by
  induction ds using List.reverseRecOn with
  | nil => rfl
  | append_singleton ds d ih =>
    rw [List.foldl_append, List.foldl_cons, List.foldl_nil, after_flags, ih, flagsOf, flagsOf,
      flagOf_append, flagOf_append, flagOf_append, bitOf]
    ac_rfl

end

end LinkM

end Elf

end Gelpp
