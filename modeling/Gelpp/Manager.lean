import Gelpp.Elf.Classes
import Gelpp.Elf.Strings
import Gelpp.Library.Effect
import Gelpp.Pecoff.Resume

namespace Gelpp.Manager

open Effect Pecoff

-- `junk` is what new memory and the arrays of a function hold, `scan` as in pecoff::File.
structure Platform where
  host : ByteOrder
  junk : Nat → UInt8
  scan : List UInt8 → Res UInt32

def Platform.memory (p : Platform) (n : Nat) : List UInt8 := (List.range n).map p.junk

inductive Opened (γ : Type) where
  | elf (f : Elf.File)
  | coffi (f : γ)
  | pecoff (f : Pecoff.File)

def matchesELF (magic : List UInt8) : Bool := magic.take 4 == Elf.elfMagic

def matchesCOFFI (magic : List UInt8) : Bool :=
  (magic.getD 0 0 == 0xc2 || magic.getD 0 0 == 0xc1) && magic.getD 1 0 == 0

def matchesPECOFF (magic : List UInt8) : Bool := magic.getD 0 0 == 0x4D && magic.getD 1 0 == 0x5A

def throw {α : Type} (message : String) : StreamM α := raise (.exception message)

-- A file moves its stream before each read.
def elfStream (s : Stream) : Elf.Stream where
  bytes := s.bytes
  fails := s.fails
  count := s.count
  lastErrorMessage := s.lastErrorMessage

def blankELF (p : Platform) (path : String) (l : Elf.Layout) (s : Stream) : Elf.File :=
  .blank l p.host path (elfStream s) p.junk

def newELF (p : Platform) (path : String) (l : Elf.Layout) (s : Stream) : Res Elf.File :=
  match Elf.FileM.construct.run (blankELF p path l s) with
  | (.ok _, f) => .ok f
  | (.error e, _) => .error e

def openELFFile (p : Platform) (path : String) : StreamM Elf.File := do
  let (bufs, buf) ← Stream.read (p.memory 16) 16
  let s ← get
  if bufs < 16 then throw "not an ELF file"
  else if ¬ matchesELF buf then throw "bad header in ELF"
  else if buf.getD 4 0 = 1 then lift (newELF p path Elf.elf32 s)
  else if buf.getD 4 0 = 2 then lift (newELF p path Elf.elf64 s)
  else throw ("unknown ELF class: " ++ hex (buf.getD 4 0).toNat)

def openPECOFFFile (p : Platform) : StreamM Pecoff.File := do
  let s ← get
  lift (Pecoff.File.construct p.junk p.scan s)

def unknownFormat (magic : List UInt8) : String :=
  "unknown executable format with magic: " ++ String.join (magic.map fun b => hex b.toNat)

section
variable {γ : Type}

def openPlain (p : Platform) (magic : List UInt8) : StreamM (Opened γ) :=
  if matchesPECOFF magic then do return .pecoff (← openPECOFFFile p)
  else throw (unknownFormat magic)

-- `coffi` is what the constructor of coffi::File makes of the path, in a library that is built with
-- COFFI. A failed read is not short, the size being unsigned.
def openStream (p : Platform) (coffi : Option (Res γ)) (path : String) : StreamM (Opened γ) := do
  let (size, magic) ← Stream.read (p.memory 4) 4
  let _ ← Stream.moveTo 0
  if 0 ≤ size ∧ size < 4 then throw "does not seem to be a binary!"
  else if matchesELF magic then do return .elf (← openELFFile p path)
  else
    match coffi with
    | some r => if matchesCOFFI magic then lift (r.map .coffi) else openPlain p magic
    | none => openPlain p magic

-- `disk` is the stream on the file, or the message of the system.
def openFile (p : Platform) (coffi : Option (Res γ)) (path : String) (disk : Except String Stream) :
    Res (Opened γ) :=
  match disk with
  | .ok s => ((openStream p coffi path).run s).1
  | .error message => .error (.exception message)

end

section
variable {A : Stop → Prop} {s : Stream} {mem : List UInt8} {len : Int}

end

def builtELF (p : Platform) (path : String) (l : Elf.Layout) (s : Stream) : Elf.File :=
  { Elf.consulted (blankELF p path l s) 0 l.ehdr.size with
    h := Elf.headerOf (Elf.fileOrder p.host (s.bytes.getD 5 0)) s.bytes l.ehdr }

structure HeaderFits (order : ByteOrder) (l : Elf.Layout) (bytes : List UInt8) : Prop where
  magic : Elf.cell bytes 0 4 = Elf.elfMagic
  eiClass : bytes.getD 4 0 = l.eiClass
  inside : l.ehdr.size ≤ bytes.length
  names : Elf.word order bytes 0 l.ehdr.shstrndx < Elf.word order bytes 0 l.ehdr.shnum

section
variable {p : Platform} {path : String} {l : Elf.Layout} {s : Stream}

open Elf (Serves consulted streamBytes)

theorem construct_served (hl : l = Elf.elf32 ∨ l = Elf.elf64) (hs : Serves (blankELF p path l s))
    (hin : l.ehdr.size ≤ s.bytes.length) : Elf.FileM.construct.run (blankELF p path l s) =
      if Elf.cell s.bytes 0 4 ≠ Elf.elfMagic then
        (.error (.exception "not an ELF file"), consulted (blankELF p path l s) 0 l.ehdr.size)
      else if s.bytes.getD 4 0 ≠ l.eiClass then
        (.error (.fault .assertion), consulted (blankELF p path l s) 0 l.ehdr.size)
      else if (builtELF p path l s).h.shnum ≤ (builtELF p path l s).h.shstrndx then
        (.error (.exception "malformed ELF"), consulted (blankELF p path l s) 0 l.ehdr.size)
      else (.ok (), builtELF p path l s) := by
  obtain ⟨hmin, hmax⟩ := Elf.ehdr_size hl
  have hdata : streamBytes (blankELF p path l s) 0 l.ehdr.size = Elf.cell s.bytes 0 l.ehdr.size := by
    rw [streamBytes, Nat.mod_eq_of_lt (by omega : l.ehdr.size < 2 ^ 32)]
    rfl
  have hlen : (Elf.cell s.bytes 0 l.ehdr.size).length = l.ehdr.size := Elf.cell_length (by omega)
  have hfresh := Elf.fresh_length (blankELF p path l s) l.ehdr.size
  have hread : (Elf.FileM.readAll 0 l.ehdr.size).run (blankELF p path l s) =
      (.ok (Elf.cell s.bytes 0 l.ehdr.size), consulted (blankELF p path l s) 0 l.ehdr.size) := by
    rw [Elf.FileM.readAll, bind_of_ok ((Elf.alloc_run _ _).trans (if_pos (by omega))),
      Elf.readAt_served hs, hdata, hlen, hfresh, if_neg (Nat.lt_irrefl _),
      if_neg (by rw [Nat.mod_eq_of_lt (by omega)]; simp), List.drop_eq_nil_of_le (by rw [hfresh]),
      List.append_nil]
  have htake : (Elf.cell s.bytes 0 l.ehdr.size).take 4 = Elf.cell s.bytes 0 4 := by
    rw [Elf.cell, Elf.cell, List.take_take, Nat.min_eq_left (by omega)]
  have hclass : (Elf.cell s.bytes 0 l.ehdr.size).getD 4 0 = s.bytes.getD 4 0 := by
    rw [List.getD_eq_getElem?_getD, List.getD_eq_getElem?_getD, Elf.cell, List.drop_zero,
      List.getElem?_take_of_lt (by omega)]
  have hehdr : Elf.readEhdr p.host l.ehdr (Elf.cell s.bytes 0 l.ehdr.size) =
      .ok (Elf.headerOf (Elf.fileOrder p.host (s.bytes.getD 5 0)) s.bytes l.ehdr) :=
    Elf.readEhdr_words hl hin rfl
  rw [Elf.FileM.construct, get_bind]
  change (Elf.FileM.readAll 0 l.ehdr.size >>= fun buf => if buf.take 4 ≠ Elf.elfMagic then _
    else if buf.getD 4 0 ≠ l.eiClass then _
    else lift (Elf.readEhdr p.host l.ehdr buf) >>= fun h => _).run _ = _
  rw [bind_of_ok hread, htake, hclass, hehdr]
  simp only [ite_run, lift_ok_bind]
  rfl

theorem construct_unread (hl : l = Elf.elf32 ∨ l = Elf.elf64)
    (h : ¬ (Serves (blankELF p path l s) ∧ l.ehdr.size ≤ s.bytes.length)) :
    ∃ m f, Elf.FileM.construct.run (blankELF p path l s) = (.error (.exception m), f) := by
  obtain ⟨hmin, hmax⟩ := Elf.ehdr_size hl
  have hread : ∃ m f, (Elf.FileM.readAll 0 l.ehdr.size).run (blankELF p path l s) =
      (.error (.exception m), f) := by
    rw [Elf.FileM.readAll, bind_of_ok ((Elf.alloc_run _ _).trans (if_pos (by omega)))]
    by_cases hs : Serves (blankELF p path l s)
    · have hshort : (streamBytes (blankELF p path l s) 0 l.ehdr.size).length < l.ehdr.size := by
        have hlt : s.bytes.length < l.ehdr.size := by
          by_contra hle
          exact h ⟨hs, Nat.le_of_not_lt hle⟩
        refine Nat.lt_of_le_of_lt ?_ hlt
        rw [streamBytes, List.length_take, List.length_drop]
        exact (Nat.min_le_right _ _).trans (Nat.sub_le _ _)
      rw [Elf.readAt_served hs, Elf.fresh_length, if_neg (by omega),
        if_pos (by rw [Nat.mod_eq_of_lt (by omega)]; omega)]
      exact ⟨_, _, rfl⟩
    · obtain ⟨m, hk⟩ := Elf.readAt_unserved hs 0 l.ehdr.size (Elf.fresh (blankELF p path l s) l.ehdr.size)
      exact ⟨m, _, hk⟩
  obtain ⟨m, f, hm⟩ := hread
  refine ⟨m, f, ?_⟩
  rw [Elf.FileM.construct, get_bind]
  exact bind_of_error hm

theorem newELF_iff (hl : l = Elf.elf32 ∨ l = Elf.elf64) (hc : s.Calm) {f : Elf.File} :
    newELF p path l s = .ok f ↔
      HeaderFits (Elf.fileOrder p.host (s.bytes.getD 5 0)) l s.bytes ∧ f = builtELF p path l s := by
  have hserves : Serves (blankELF p path l s) := by
    have hcalm : (blankELF p path l s).Calm := hc
    exact hcalm.serves
  constructor
  · intro h
    rw [newELF] at h
    by_cases hin : l.ehdr.size ≤ s.bytes.length
    · rw [construct_served hl hserves hin] at h
      split_ifs at h with hmagic hclass hnames
      · cases h
        exact ⟨⟨not_not.mp hmagic, not_not.mp hclass, hin, Nat.lt_of_not_le hnames⟩, rfl⟩
    · obtain ⟨m, g, hm⟩ := @construct_unread p path _ s hl fun h => hin h.2
      rw [hm] at h
      cases h
  · rintro ⟨hfits, rfl⟩
    have hnames : ¬ (builtELF p path l s).h.shnum ≤ (builtELF p path l s).h.shstrndx :=
      Nat.not_le_of_lt hfits.names
    rw [newELF, construct_served hl hserves hfits.inside, if_neg (not_not_intro hfits.magic),
      if_neg (not_not_intro hfits.eiClass), if_neg hnames]

theorem memory_length (p : Platform) (n : Nat) : (p.memory n).length = n := by
  rw [Platform.memory, List.length_map, List.length_range]

theorem memory_read (h : s.fails s.count = false) {n : Nat} (hn : n < 2 ^ 31) :
    (Stream.read (p.memory n) n).run s = (.ok (((cell s.bytes s.pos n).length : Int),
      cell s.bytes s.pos n ++ (p.memory n).drop (cell s.bytes s.pos n).length),
      s.moved (s.pos + (cell s.bytes s.pos n).length) 1) := by
  have hdata : InStream.delivered s.bytes s.pos n = cell s.bytes s.pos n :=
    delivered_small (by omega)
  have hlen : (cell s.bytes s.pos n).length ≤ n := List.length_take_le ..
  have hread : (Stream.read (p.memory n) n).run s = _ :=
    streamRead_fits h (by rw [hdata, memory_length]; exact hlen)
  rw [hdata, InStream.answer, toInt_small (by omega)] at hread
  exact hread

def elfAt (p : Platform) (path : String) (s : Stream) : Res Elf.File :=
  if s.fails s.count = true ∨ s.bytes.length < 16 then .error (.exception "not an ELF file")
  else if cell s.bytes 0 4 ≠ Elf.elfMagic then .error (.exception "bad header in ELF")
  else if s.bytes.getD 4 0 = 1 then newELF p path Elf.elf32 (s.moved 16 1)
  else if s.bytes.getD 4 0 = 2 then newELF p path Elf.elf64 (s.moved 16 1)
  else .error (.exception ("unknown ELF class: " ++ hex (s.bytes.getD 4 0).toNat))

theorem openELF_run (hpos : s.pos = 0) : ((openELFFile p path).run s).1 = elfAt p path s := by
  rw [openELFFile, elfAt]
  cases hfails : s.fails s.count with
  | true =>
    have hread := streamRead_failed hfails (p.memory 16) 16
    rw [if_pos (.inl rfl), bind_of_ok hread]
    rfl
  | false =>
    have hread : (Stream.read (p.memory 16) 16).run s =
        (.ok (((cell s.bytes 0 16).length : Int),
          cell s.bytes 0 16 ++ (p.memory 16).drop (cell s.bytes 0 16).length),
          s.moved (cell s.bytes 0 16).length 1) := by
      have hmemory := memory_read (p := p) (n := 16) hfails (by decide)
      rwa [hpos, Nat.zero_add] at hmemory
    by_cases hshort : s.bytes.length < 16
    · have hlen : (cell s.bytes 0 16).length < 16 := by
        rw [cell, List.length_take, List.length_drop]
        omega
      rw [if_pos (.inr hshort), bind_of_ok hread]
      dsimp only
      rw [get_bind, if_pos (by omega)]
      rfl
    · have hlen : (cell s.bytes 0 16).length = 16 := cell_length (by omega)
      have htake : (cell s.bytes 0 16).take 4 = cell s.bytes 0 4 := by
        rw [cell, cell, List.take_take, Nat.min_eq_left (by omega)]
      have hclass : (cell s.bytes 0 16).getD 4 0 = s.bytes.getD 4 0 := by
        rw [List.getD_eq_getElem?_getD, List.getD_eq_getElem?_getD, cell, List.drop_zero,
          List.getElem?_take_of_lt (by omega)]
      have hnot : ¬ (false = true ∨ s.bytes.length < 16) := by simpa using hshort
      rw [if_neg hnot, bind_of_ok hread]
      dsimp only
      rw [get_bind, hlen, List.drop_eq_nil_of_le (by rw [memory_length]), List.append_nil,
        if_neg (by omega), hclass, matchesELF, htake]
      simp only [ite_run, beq_iff_eq, lift_run]
      by_cases hmagic : cell s.bytes 0 4 = Elf.elfMagic
      · rw [if_neg (not_not_intro hmagic), if_neg (not_not_intro hmagic)]
        split_ifs <;> rfl
      · rw [if_pos hmagic, if_pos hmagic]
        rfl

end

section
variable {γ : Type} {p : Platform} {path : String} {s : Stream} {coffi : Option (Res γ)}

-- The four bytes that are looked at; after a failed read they are those of the stack.
def magicOf (p : Platform) (s : Stream) : List UInt8 :=
  if s.fails s.count = true then p.memory 4
  else cell s.bytes s.pos 4 ++ (p.memory 4).drop (cell s.bytes s.pos 4).length

def openAt (p : Platform) (coffi : Option (Res γ)) (path : String) (magic : List UInt8) (s : Stream) :
    Res (Opened γ) :=
  if matchesELF magic then (elfAt p path s).map .elf
  else
    match coffi with
    | some r => if matchesCOFFI magic then r.map .coffi else ((openPlain p magic).run s).1
    | none => ((openPlain p magic).run s).1

theorem wrap_run {α β : Type} (m : StreamM α) (g : α → β) (s : Stream) :
    ((m >>= fun a => pure (g a)).run s).1 = (m.run s).1.map g := by
  cases hrun : m.run s with
  | mk r t =>
    cases r with
    | ok a =>
      rw [bind_of_ok hrun]
      rfl
    | error e =>
      rw [bind_of_error hrun]
      rfl

theorem openStream_run (p : Platform) (coffi : Option (Res γ)) (path : String)
    (hreset : s.fails (s.count + 1) = false) : ((openStream p coffi path).run s).1 =
      if s.fails s.count = false ∧ (cell s.bytes s.pos 4).length < 4 then
        .error (.exception "does not seem to be a binary!")
      else openAt p coffi path (magicOf p s) (s.moved 0 2) := by
  have hmoved (pos : Nat) : (Stream.moveTo 0).run (s.moved pos 1) = (.ok true, s.moved 0 2) :=
    moveTo_served (s := s.moved pos 1) hreset 0
  have hread : ∃ pos, (Stream.read (p.memory 4) 4).run s =
      (.ok (if s.fails s.count = true then -1 else ((cell s.bytes s.pos 4).length : Int), magicOf p s),
        s.moved pos 1) := by
    rw [magicOf]
    cases hfails : s.fails s.count with
    | true => exact ⟨_, streamRead_failed hfails _ _⟩
    | false => exact ⟨_, memory_read hfails (by decide)⟩
  obtain ⟨pos, hread⟩ := hread
  have hshort : (0 ≤ (if s.fails s.count = true then -1 else ((cell s.bytes s.pos 4).length : Int)) ∧
      (if s.fails s.count = true then -1 else ((cell s.bytes s.pos 4).length : Int)) < 4) ↔
        s.fails s.count = false ∧ (cell s.bytes s.pos 4).length < 4 := by
    cases s.fails s.count with
    | true => simp
    | false => simp
  rw [openStream, bind_of_ok hread]
  dsimp only
  rw [bind_of_ok (hmoved pos), ite_run, if_congr hshort rfl rfl]
  by_cases h : s.fails s.count = false ∧ (cell s.bytes s.pos 4).length < 4
  · rw [if_pos h, if_pos h]
    rfl
  rw [if_neg h, if_neg h, ite_run]
  unfold openAt
  by_cases helf : matchesELF (magicOf p s) = true
  · rw [if_pos helf, if_pos helf, ← @openELF_run p path (s.moved 0 2) rfl]
    exact wrap_run _ _ _
  · rw [if_neg helf, if_neg helf]
    cases coffi with
    | none => rfl
    | some r =>
      dsimp only
      rw [ite_run]
      split <;> rfl

theorem magicOf_calm (hc : s.Calm) (hpos : s.pos = 0) (hlen : 4 ≤ s.bytes.length) :
    magicOf p s = cell s.bytes 0 4 := by
  have hfour : (cell s.bytes 0 4).length = 4 := cell_length (by omega)
  rw [magicOf, hc.served, if_neg Bool.false_ne_true, hpos, hfour,
    List.drop_eq_nil_of_le (by rw [memory_length]), List.append_nil]

theorem calm_open (p : Platform) (coffi : Option (Res γ)) (path : String) (hc : s.Calm)
    (hpos : s.pos = 0) (hlen : 4 ≤ s.bytes.length) : openFile p coffi path (.ok s) =
      openAt p coffi path (cell s.bytes 0 4) (s.moved 0 2) := by
  have hfour : (cell s.bytes 0 4).length = 4 := cell_length (by omega)
  rw [openFile, openStream_run p coffi path (congrFun hc _), hpos, hfour,
    if_neg (by simp), magicOf_calm hc hpos hlen]

theorem elfAt_class (hc : s.Calm) {l : Elf.Layout} (hl : l = Elf.elf32 ∨ l = Elf.elf64)
    (hmagic : cell s.bytes 0 4 = Elf.elfMagic) (hclass : s.bytes.getD 4 0 = l.eiClass)
    (hin : l.ehdr.size ≤ s.bytes.length) : elfAt p path s = newELF p path l (s.moved 16 1) := by
  have hsize := (Elf.ehdr_size hl).1
  have hread : ¬ (s.fails s.count = true ∨ s.bytes.length < 16) := by
    rw [hc.served]
    simp only [Bool.false_eq_true, false_or]
    omega
  rw [elfAt, if_neg hread, if_neg (not_not_intro hmagic), hclass]
  rcases hl with rfl | rfl
  · exact if_pos rfl
  · exact (if_neg (by decide)).trans (if_pos rfl)

theorem elfAt_iff (hc : s.Calm) {f : Elf.File} : elfAt p path s = .ok f ↔
    ∃ l, (l = Elf.elf32 ∨ l = Elf.elf64) ∧
      HeaderFits (Elf.fileOrder p.host (s.bytes.getD 5 0)) l s.bytes ∧
      f = builtELF p path l (s.moved 16 1) := by
  constructor
  · intro h
    rw [elfAt] at h
    split_ifs at h with hshort hmagic h1 h2
    · exact ⟨Elf.elf32, .inl rfl, (newELF_iff (s := s.moved 16 1) (.inl rfl) hc).mp h⟩
    · exact ⟨Elf.elf64, .inr rfl, (newELF_iff (s := s.moved 16 1) (.inr rfl) hc).mp h⟩
  · rintro ⟨l, hl, hfits, hf⟩
    rw [elfAt_class hc hl hfits.magic hfits.eiClass hfits.inside]
    exact (newELF_iff (s := s.moved 16 1) hl hc).mpr ⟨hfits, hf⟩

theorem elfAt_magic {f : Elf.File} (h : elfAt p path s = .ok f) : cell s.bytes 0 4 = Elf.elfMagic := by
  rw [elfAt] at h
  split_ifs at h with hshort hmagic
  · exact not_not.mp hmagic
  · exact not_not.mp hmagic

theorem openPlain_other (magic : List UInt8) (f : Elf.File) :
    ((openPlain (γ := γ) p magic).run s).1 ≠ .ok (.elf f) := by
  rw [openPlain]
  split_ifs
  · rw [wrap_run]
    cases ((openPECOFFFile p).run s).1 with
    | ok g => simp [Except.map]
    | error e => simp [Except.map]
  · intro h
    cases h

theorem openAt_other {magic : List UInt8} (h : ¬ matchesELF magic = true) (f : Elf.File) :
    openAt p coffi path magic s ≠ .ok (.elf f) := by
  unfold openAt
  rw [if_neg h]
  cases coffi with
  | none => exact openPlain_other magic f
  | some r =>
    dsimp only
    split_ifs
    · cases r with
      | ok g => simp [Except.map]
      | error e => simp [Except.map]
    · exact openPlain_other magic f

theorem opened_elf_iff (hc : s.Calm) (hpos : s.pos = 0) {f : Elf.File} :
    openFile p coffi path (.ok s) = .ok (.elf f) ↔ ∃ l, (l = Elf.elf32 ∨ l = Elf.elf64) ∧
      HeaderFits (Elf.fileOrder p.host (s.bytes.getD 5 0)) l s.bytes ∧
      f = builtELF p path l (s.moved 16 3) := by
  refine Iff.trans ?_ (elfAt_iff (s := s.moved 0 2) hc)
  by_cases hlen : 4 ≤ s.bytes.length
  · rw [calm_open p coffi path hc hpos hlen]
    by_cases helf : matchesELF (cell s.bytes 0 4) = true
    · unfold openAt
      rw [if_pos helf]
      cases elfAt p path (s.moved 0 2) with
      | ok g => simp [Except.map]
      | error e => simp [Except.map]
    · refine iff_of_false (openAt_other helf f) fun h => helf ?_
      have hmagic := elfAt_magic h
      rw [matchesELF, beq_iff_eq, ← hmagic, cell, cell, List.take_take]
      rfl
  · have hfour : (cell s.bytes 0 4).length < 4 := by
      rw [cell, List.length_take, List.length_drop]
      omega
    have hshort : (s.moved 0 2).bytes.length < 16 := by
      rw [moved_bytes]
      omega
    rw [openFile, openStream_run p coffi path (congrFun hc _), hpos, if_pos ⟨hc.served, hfour⟩, elfAt,
      if_pos (.inr hshort)]
    exact iff_of_false (fun h => by cases h) fun h => by cases h

theorem openPlain_pecoff (magic : List UInt8) (f : Pecoff.File) :
    ((openPlain (γ := γ) p magic).run s).1 = .ok (.pecoff f) ↔
      matchesPECOFF magic = true ∧ Pecoff.File.construct p.junk p.scan s = .ok f := by
  rw [openPlain]
  by_cases h : matchesPECOFF magic = true
  · rw [if_pos h, wrap_run, openPECOFFFile, get_bind, lift_run, and_iff_right h]
    cases Pecoff.File.construct p.junk p.scan s with
    | ok g => simp [Except.map]
    | error e => simp [Except.map]
  · rw [if_neg h]
    exact iff_of_false (fun hf => by cases hf) fun hf => h hf.1

def Reaches (coffi : Option (Res γ)) (magic : List UInt8) : Prop :=
  ¬ matchesELF magic = true ∧ (coffi.isSome → ¬ matchesCOFFI magic = true) ∧ matchesPECOFF magic = true

theorem openAt_pecoff (magic : List UInt8) (f : Pecoff.File) :
    openAt p coffi path magic s = .ok (.pecoff f) ↔
      Reaches coffi magic ∧ Pecoff.File.construct p.junk p.scan s = .ok f := by
  unfold openAt
  by_cases helf : matchesELF magic = true
  · rw [if_pos helf]
    refine iff_of_false ?_ fun h => h.1.1 helf
    cases elfAt p path s with
    | ok g => simp [Except.map]
    | error e => simp [Except.map]
  · rw [if_neg helf]
    cases coffi with
    | none =>
      rw [openPlain_pecoff]
      simp [Reaches, helf]
    | some r =>
      dsimp only
      by_cases hcoff : matchesCOFFI magic = true
      · rw [if_pos hcoff]
        refine iff_of_false ?_ fun h => h.1.2.1 rfl hcoff
        cases r with
        | ok g => simp [Except.map]
        | error e => simp [Except.map]
      · rw [if_neg hcoff, openPlain_pecoff]
        simp [Reaches, helf, hcoff]

theorem opened_iff (hc : s.Calm) (hpos : s.pos = 0) :
    (∀ f, openFile p coffi path (.ok s) = .ok (.elf f) ↔ ∃ l, (l = Elf.elf32 ∨ l = Elf.elf64) ∧
      HeaderFits (Elf.fileOrder p.host (s.bytes.getD 5 0)) l s.bytes ∧
      f = builtELF p path l (s.moved 16 3)) ∧
    ∀ f, openFile p coffi path (.ok s) = .ok (.pecoff f) ↔ 4 ≤ s.bytes.length ∧
      Reaches coffi (cell s.bytes 0 4) ∧
      Pecoff.File.construct p.junk p.scan (s.moved 0 2) = .ok f := by
  refine ⟨fun f => opened_elf_iff hc hpos, fun f => ?_⟩
  by_cases hlen : 4 ≤ s.bytes.length
  · rw [calm_open p coffi path hc hpos hlen, openAt_pecoff, and_iff_right hlen]
  · have hfour : (cell s.bytes 0 4).length < 4 := by
      rw [cell, List.length_take, List.length_drop]
      omega
    rw [openFile, openStream_run p coffi path (congrFun hc _), hpos, if_pos ⟨hc.served, hfour⟩]
    exact iff_of_false (fun h => by cases h) fun h => hlen h.1

theorem opened_iff_small :
    (∀ f, openFile (γ := Unit) ⟨.little, fun _ => 0, fun _ => .ok 0⟩ none "small"
        (.ok { bytes := Elf.small32.bytes }) = .ok (.elf f) ↔ ∃ l, (l = Elf.elf32 ∨ l = Elf.elf64) ∧
      HeaderFits (Elf.fileOrder .little 1) l Elf.small32.bytes ∧
      f = builtELF ⟨.little, fun _ => 0, fun _ => .ok 0⟩ "small" l
        { bytes := Elf.small32.bytes, pos := 16, count := 3 }) ∧
    ∀ f, openFile (γ := Unit) ⟨.little, fun _ => 0, fun _ => .ok 0⟩ none "small"
        (.ok { bytes := Elf.small32.bytes }) = .ok (.pecoff f) ↔ 4 ≤ Elf.small32.bytes.length ∧
      Reaches (γ := Unit) none (cell Elf.small32.bytes 0 4) ∧
      Pecoff.File.construct (fun _ => 0) (fun _ => .ok 0)
        { bytes := Elf.small32.bytes, count := 2 } = .ok f :=
  opened_iff (γ := Unit) (p := ⟨.little, fun _ => 0, fun _ => .ok 0⟩)
    (s := { bytes := Elf.small32.bytes }) rfl rfl

theorem opened_encodes {l : Elf.Layout} (hl : l = Elf.elf32 ∨ l = Elf.elf64) {eiData : UInt8}
    {d : Elf.Description} {places : Elf.Places} (hc : s.Calm) (hpos : s.pos = 0)
    (h : Elf.Encodes (Elf.fileOrder p.host eiData) s.bytes l eiData d places) :
    ∃ f, openFile p coffi path (.ok s) = .ok (.elf f) ∧ f = builtELF p path l (s.moved 16 3) ∧
      Elf.Fresh f ∧ f.Calm ∧ Elf.Depicted f.source d places := by
  have hsize := (Elf.ehdr_size hl).1
  have hinside := h.inside
  have hmagic : cell s.bytes 0 4 = Elf.elfMagic := h.magic
  have hstream : (elfStream (s.moved 16 3)).fails = fun _ => false := hc
  obtain ⟨f, hrun, hfresh, hcalm, -, hdepicted⟩ := Elf.construct_described hl hstream h path p.junk
  have hnew : newELF p path l (s.moved 16 3) = .ok f := by
    rw [newELF, blankELF, hrun]
  refine ⟨f, ?_, ((newELF_iff (s := s.moved 16 3) hl hc).mp hnew).2, hfresh, hcalm, hdepicted⟩
  rw [calm_open p coffi path hc hpos (by omega)]
  unfold openAt
  rw [if_pos (by rw [hmagic]; rfl), elfAt_class (s := s.moved 0 2) hc hl hmagic h.eiClass hinside,
    moved_moved, hnew]
  rfl

theorem open_described {l : Elf.Layout} (hl : l = Elf.elf32 ∨ l = Elf.elf64) {eiData : UInt8}
    {d : Elf.Description} {places : Elf.Places} (hc : s.Calm) (hpos : s.pos = 0)
    (h : Elf.Encodes (Elf.fileOrder p.host eiData) s.bytes l eiData d places) (rs : List Elf.Request) :
    ∃ f, openFile p coffi path (.ok s) = .ok (.elf f) ∧ f.layout = l ∧
      (Elf.FileM.observe.run (Elf.after rs f)).1 = .ok (d.view l) := by
  obtain ⟨f, hopen, hbuilt, hfresh, hcalm, hdepicted⟩ := @opened_encodes _ p path s coffi l hl _ _ _ hc hpos h
  obtain ⟨k, hshows⟩ := hdepicted.tabled hfresh hcalm
  have hsettled := (Elf.after_settled rs (hfresh.settled hcalm k)).1
  obtain ⟨g, hobserve⟩ := Elf.observe_run hdepicted hsettled hshows
  have hlayout : f.layout = l := by
    rw [hbuilt]
    rfl
  refine ⟨f, hopen, hlayout, ?_⟩
  rw [hobserve, ← hlayout]
  rfl

theorem open_described_small : ∃ f, openFile (γ := Unit) ⟨.little, fun _ => 0, fun _ => .ok 0⟩ none "wide"
    (.ok { bytes := Elf.small64.bytes }) = .ok (.elf f) ∧ f.layout = Elf.elf64 ∧
      (Elf.FileM.observe.run (Elf.after [.dyns] f)).1 = .ok (Elf.smallDescription.view Elf.elf64) :=
  open_described (p := ⟨.little, fun _ => 0, fun _ => .ok 0⟩) (s := { bytes := Elf.small64.bytes })
    (.inr rfl) rfl rfl Elf.small64_encodes [.dyns]

theorem four_of_length {l : List UInt8} (h : l.length = 4) : ∃ x y a b, l = [x, y, a, b] := by
  rcases l with _ | ⟨x, _ | ⟨y, _ | ⟨a, _ | ⟨b, _ | ⟨c, l⟩⟩⟩⟩⟩
  · cases h
  · cases h
  · cases h
  · cases h
  · exact ⟨x, y, a, b, rfl⟩
  · simp at h

theorem open_encoded {d : Pecoff.Description} {plus : Bool} {rest : List UInt8}
    (hstub : d.stub.take 2 = [0x4D, 0x5A]) (hsmall : 8 * d.directories.length < 2 ^ 31) :
    ∃ f, openFile p coffi path (.ok (d.stream plus rest)) = .ok (.pecoff f) ∧ Declared d plus f := by
  have hstublength := d.stub_length
  obtain ⟨after, hfront⟩ : ∃ after, (d.stream plus rest).bytes = d.stub ++ after := by
    rw [Description.stream, Description.encode, Description.front, List.append_assoc, List.append_assoc]
    exact ⟨_, rfl⟩
  have hlen : 4 ≤ (d.stream plus rest).bytes.length := by
    rw [hfront, List.length_append]
    omega
  obtain ⟨a, b, hmagic⟩ : ∃ a b, cell (d.stream plus rest).bytes 0 4 = [0x4D, 0x5A, a, b] := by
    have hstart : (cell (d.stream plus rest).bytes 0 4).take 2 = [0x4D, 0x5A] := by
      rw [← hstub, cell, List.drop_zero, List.take_take, hfront,
        List.take_append_of_le_length (by omega)]
      rfl
    obtain ⟨x, y, a, b, hfour⟩ := four_of_length (cell_length (by omega) :
      (cell (d.stream plus rest).bytes 0 4).length = 4)
    rw [hfour] at hstart
    obtain ⟨rfl, rfl⟩ : x = 0x4D ∧ y = 0x5A := by simpa using hstart
    exact ⟨a, b, hfour⟩
  obtain ⟨f, pos, k, hf, hdeclared, -⟩ := construct_encoded d plus rest hsmall p.junk p.scan
  have hresumed : Resumed (d.stream plus rest) ((d.stream plus rest).moved 0 2) := ⟨rfl, rfl, rfl, rfl, rfl⟩
  obtain ⟨u, -, hu⟩ := resumed_construct hresumed p.junk p.scan hf
  have hplain : ((openPlain (γ := γ) p [0x4D, 0x5A, a, b]).run ((d.stream plus rest).moved 0 2)).1 =
      .ok (.pecoff { f with stream := u }) := by
    have hmz : matchesPECOFF [0x4D, 0x5A, a, b] = true := rfl
    rw [openPlain, if_pos hmz, wrap_run, openPECOFFFile, get_bind, lift_run, hu]
    rfl
  refine ⟨{ f with stream := u }, ?_, hdeclared.coff, hdeclared.standard, hdeclared.windows,
    hdeclared.directories, hdeclared.sections, hdeclared.sects⟩
  rw [calm_open p coffi path (stream_calm d plus rest) rfl hlen, hmagic]
  cases coffi with
  | none => exact hplain
  | some r => exact hplain

theorem dosStub_length : (0x4D :: 0x5A :: List.replicate 58 (0x90 : UInt8)).length = 60 := rfl

theorem dosGap_lt : 64 + [0x0e, 0x1f, 0xcd, (0x21 : UInt8)].length < 2 ^ 32 := by decide

-- A stub that runs on behind its header, a directory and a section.
def dosImage : Pecoff.Description where
  stub := 0x4D :: 0x5A :: .replicate 58 0x90
  gap := [0x0e, 0x1f, 0xcd, 0x21]
  coff := ⟨Pecoff.magic, 0x14c, 1, 0x5f000000, 0x400, 3, 0, 0x102⟩
  standard := ⟨0, 14, 2, 512, 256, 128, 0x1000, 0x1000, 0x2000⟩
  windows := ⟨0x400000, 4096, 512, 6, 0, 1, 2, 6, 0, 0, 8192, 512, 0, 3, 0, 4096, 64, 4096, 64, 0, 1⟩
  directories := [⟨0x2000, 40⟩]
  sections := [⟨[46, 116, 101, 120, 116, 0, 0, 0], 2, 0x1000, 512, 512, 0, 0, 0, 0, 0x60000020⟩]
  stub_length := dosStub_length
  gap_lt := dosGap_lt
  numbers := rfl
  count := rfl
  names := by simp

theorem open_encoded_dos : ∃ f, openFile (γ := Unit) ⟨.little, fun _ => 0, fun _ => .ok 0⟩ none "a.exe"
    (.ok (dosImage.stream true [1, 2])) = .ok (.pecoff f) ∧ Declared dosImage true f :=
  open_encoded (p := ⟨.little, fun _ => 0, fun _ => .ok 0⟩) (d := dosImage) rfl (by decide)

end

end Gelpp.Manager
