import Gelpp.Elf.SymbolFile

namespace Gelpp.Elf

open FileM Effect

inductive SymbolType where
  | noType | otherType | func | data | label
  deriving DecidableEq, Repr

inductive SymbolBind where
  | noBind | otherBind | local_ | global | weak
  deriving DecidableEq, Repr

namespace Sym

variable (y : Sym)

def elfBind : Nat := y.info / 16

def elfType : Nat := y.info % 16

-- STT_OBJECT is 1 and STT_FUNC is 2.
def type : SymbolType :=
  match y.elfType with
  | 1 => .data
  | 2 => .func
  | _ => .otherType

-- STB_LOCAL is 0, STB_GLOBAL is 1 and STB_WEAK is 2.
def bind : SymbolBind :=
  match y.elfBind with
  | 0 => .local_
  | 1 => .global
  | 2 => .weak
  | _ => .otherBind

end Sym

structure Report where
  elfBind : Nat
  elfType : Nat
  shndx : Nat
  value : Nat
  size : Nat
  type : SymbolType
  bind : SymbolBind
  deriving DecidableEq, Repr

def Sym.report (y : Sym) : Report where
  elfBind := y.elfBind
  elfType := y.elfType
  shndx := y.shndx
  value := y.value
  size := y.size
  type := y.type
  bind := y.bind

-- They read the record that _info points to.
def File.report (f : File) (t : SymbolTable) (s : Symbol) : Res Report := do
  let y ← readSym f.host f.layout.sym (t.mems.getD s.mem []) s.ptr
  return y.report

def SymbolTable.get (t : SymbolTable) (name : List UInt8) : Option Symbol :=
  (t.map.find? fun x => x.1 == name).map Prod.snd

section
variable {α : Type} {n : List UInt8}

theorem putNamed_found (acc : List (List UInt8 × α)) (x : List UInt8 × α) :
    (putNamed acc x.1 x.2).find? (fun z => z.1 == n) = (x :: acc).find? fun z => z.1 == n := by
  by_cases hx : x.1 = n
  · rw [putNamed, List.find?_cons_of_pos (by simpa using hx), List.find?_cons_of_pos (by simpa using hx)]
  · rw [putNamed, List.find?_cons_of_neg (by simpa using hx), List.find?_cons_of_neg (by simpa using hx),
      List.find?_filter]
    congr 1
    funext z
    by_cases hz : z.1 = n
    · simp [hz, Ne.symm hx]
    · simp [hz]

theorem putAll_found (acc es : List (List UInt8 × α)) :
    (putAll acc es).find? (fun z => z.1 == n) = (es.reverse ++ acc).find? fun z => z.1 == n := by
  induction es generalizing acc with
  | nil => rfl
  | cons x es ih =>
    have hput : putAll acc (x :: es) = putAll (putNamed acc x.1 x.2) es := rfl
    rw [hput, ih, List.reverse_cons, List.append_assoc, List.find?_append, List.find?_append,
      putNamed_found]
    rfl

end

section
variable {b : Source} {f : File} {t : SymbolTable} {es : List (List UInt8 × Sym)} {n : List UInt8}

theorem Shows.found (h : Shows b t es) (n : List UInt8) :
    (t.map.find? fun x => x.1 == n).map (seen b t) =
      (es.find? fun x => x.1 == n).map fun x => (x.1, .ok x.2) := by
  have hfind := congrArg (List.find? fun x : List UInt8 × Res Sym => x.1 == n) h
  rwa [List.find?_map, List.find?_map] at hfind

theorem Shows.get_none (h : Shows b t es) : t.get n = none ↔ ∀ x ∈ es, x.1 ≠ n := by
  have hfound := h.found n
  rw [SymbolTable.get, Option.map_eq_none_iff, ← Option.map_eq_none_iff, hfound,
    Option.map_eq_none_iff, List.find?_eq_none]
  simp

theorem Shows.get_some (h : Shows b t es) {x : List UInt8 × Sym}
    (hx : es.find? (fun x => x.1 == n) = some x) (hf : f.source = b) :
    ∃ s, t.get n = some s ∧ f.report t s = .ok x.2.report := by
  have hfound := h.found n
  rw [hx] at hfound
  obtain ⟨z, hz, hseen⟩ := Option.map_eq_some_iff.mp hfound
  have hread : readSym b.host b.layout.sym (t.mems.getD z.2.mem []) z.2.ptr = .ok x.2 :=
    congrArg Prod.snd hseen
  have hhost : f.host = b.host := congrArg Source.host hf
  have hlayout : f.layout = b.layout := congrArg Source.layout hf
  refine ⟨z.2, ?_, ?_⟩
  · rw [SymbolTable.get, hz]
    rfl
  · rw [File.report, hhost, hlayout, hread]
    rfl

structure MapOf (f : File) (t : SymbolTable) (es : List (List UInt8 × Sym)) : Prop where
  keys : ∀ n, (∃ s, t.get n = some s) ↔ ∃ y, (n, y) ∈ es
  reports : ∀ n s, t.get n = some s → ∃ y, (n, y) ∈ es ∧ f.report t s = .ok y.report

theorem putAll_last (es : List (List UInt8 × Sym)) (n : List UInt8) :
    (putAll [] es).find? (fun x => x.1 == n) = es.reverse.find? fun x => x.1 == n := by
  rw [putAll_found, List.append_nil]

theorem Shows.mapOf (h : Shows b t (putAll [] es)) (hf : f.source = b) : MapOf f t es := by
  have hcases (n : List UInt8) : (t.get n = none ∧ ∀ x ∈ es, x.1 ≠ n) ∨
      ∃ s y, t.get n = some s ∧ (n, y) ∈ es ∧ f.report t s = .ok y.report := by
    cases hx : es.reverse.find? (fun x => x.1 == n) with
    | none =>
      refine .inl ⟨?_, ?_⟩
      · rw [h.get_none]
        rw [← putAll_last, List.find?_eq_none] at hx
        simpa using hx
      · rw [List.find?_eq_none] at hx
        simpa using hx
    | some x =>
      obtain ⟨s, hs, hreport⟩ := h.get_some (hx ▸ putAll_last es n) hf
      have hname : x.1 = n := by simpa using List.find?_some hx
      have hmem : x ∈ es := List.mem_reverse.mp (List.mem_of_find?_eq_some hx)
      exact .inr ⟨s, x.2, hs, hname ▸ hmem, hreport⟩
  constructor
  · intro n
    rcases hcases n with ⟨hnone, hno⟩ | ⟨s, y, hs, hy, -⟩
    · rw [hnone]
      exact iff_of_false nofun fun ⟨y, hy⟩ => hno _ hy rfl
    · exact iff_of_true ⟨s, hs⟩ ⟨y, hy⟩
  · intro n s hs
    rcases hcases n with ⟨hnone, -⟩ | ⟨s', y, hs', hy, hreport⟩
    · rw [hnone] at hs
      cases hs
    · rw [hs] at hs'
      cases hs'
      exact ⟨y, hy, hreport⟩

end

theorem symbol_map {l : Layout} (hl : l = elf32 ∨ l = elf64) {path : String} {stream : Stream}
    {junk : Nat → UInt8} (hc : stream.fails = fun _ => false) {f : File}
    (hopen : construct.run (File.blank l .little path stream junk) = (.ok (), f))
    {ess : List (List (List UInt8 × Sym))}
    (h : SymbolFile (dataOrder (stream.bytes.getD 5 0)) stream.bytes l ess)
    (hnear : Near (dataOrder (stream.bytes.getD 5 0)) stream.bytes l ess) :
    ∃ t f', symbols.run f = (.ok t, f') ∧ MapOf f' t ess.flatten := by
  have hrecorded := (legible_little hl hc hopen h hnear).recorded
  obtain ⟨t, f', hrun, hsource, hshows⟩ := hrecorded.symbols hl hc hopen
  exact ⟨t, f', hrun, hshows.mapOf hsource⟩

-- A name with a GLOBAL entry in the one table and a WEAK entry in the other one.
def pairSymbols : Stream where
  bytes := [0x7f, 0x45, 0x4c, 0x46, 1, 1, 1, 0, 0, 0, 0, 0, 0, 0, 0, 0] ++
    fields [(2, 2), (2, 3), (4, 1), (4, 0), (4, 0), (4, 52), (4, 0), (2, 52), (2, 32), (2, 0),
      (2, 40), (2, 3), (2, 0)] ++
    fields [(4, 0), (4, 3), (4, 0), (4, 0), (4, 172), (4, 3), (4, 0), (4, 0), (4, 1), (4, 0)] ++
    fields [(4, 0), (4, 2), (4, 0), (4, 0), (4, 175), (4, 16), (4, 0), (4, 0), (4, 4), (4, 16)] ++
    fields [(4, 0), (4, 11), (4, 0), (4, 0), (4, 191), (4, 16), (4, 0), (4, 0), (4, 4), (4, 16)] ++
    [0, 97, 0] ++ fields [(4, 1), (4, 7), (4, 9), (1, 18), (1, 0), (2, 1)] ++
    fields [(4, 1), (4, 8), (4, 9), (1, 34), (1, 0), (2, 1)]

def pairEntries : List (List (List UInt8 × Sym)) :=
  [[], [([97], { name := 1, value := 7, size := 9, info := 18, shndx := 1 })],
    [([97], { name := 1, value := 8, size := 9, info := 34, shndx := 1 })]]

theorem pairSymbols_name : NameAt .little pairSymbols.bytes elf32 3 0 1 [97] :=
  ⟨by decide, by decide +kernel, by decide +kernel, by decide +kernel, by decide +kernel, by decide⟩

theorem symbolsAt_single {order : ByteOrder} {bytes : List UInt8} {l : Layout} {count : Nat}
    {h : Shdr} {x : List UInt8 × Sym} (hsize : h.size = l.sym.size) (hentsize : h.entsize = l.sym.size)
    (hrecord : SymAt order bytes l.sym h.offset x.2)
    (hname : NameAt order bytes l count h.link x.2.name x.1) :
    SymbolsAt order bytes l count h [x] := by
  constructor
  · rw [hsize, List.length_singleton, Nat.one_mul]
  · exact hentsize
  · rintro (_ | j) y hy
    · cases hy
      rwa [Nat.zero_mul, Nat.add_zero]
    · cases hy
  · intro y hy
    rwa [List.mem_singleton.mp hy]

theorem pairSymbols_file : SymbolFile .little pairSymbols.bytes elf32 pairEntries where
  shentsize := by decide +kernel
  shnum := by decide +kernel
  inside := by decide +kernel
  sections := by
    rintro (_ | _ | _ | i) es hes
    · cases hes
      rw [if_neg (by decide +kernel)]
    · cases hes
      rw [if_pos (by decide +kernel)]
      apply symbolsAt_single
      · decide +kernel
      · decide +kernel
      · exact ⟨by decide +kernel, rfl, rfl, rfl, rfl, rfl⟩
      · exact pairSymbols_name
    · cases hes
      rw [if_pos (by decide +kernel)]
      apply symbolsAt_single
      · decide +kernel
      · decide +kernel
      · exact ⟨by decide +kernel, rfl, rfl, rfl, rfl, rfl⟩
      · exact pairSymbols_name
    · cases hes

theorem pairSymbols_near : Near .little pairSymbols.bytes elf32 pairEntries where
  table := by decide +kernel
  sections := by
    rintro (_ | _ | _ | i) es hes hne
    · cases hes
      exact absurd rfl hne
    · decide +kernel
    · decide +kernel
    · cases hes

def pairFile : File := File.blank elf32 .little "pair" pairSymbols fun _ => 0

theorem pairFile_opened : construct.run pairFile = (.ok (), (construct.run pairFile).2) := run_fst rfl

theorem symbol_map_pair : ∃ f t f', construct.run pairFile = (.ok (), f) ∧
    symbols.run f = (.ok t, f') ∧ MapOf f' t pairEntries.flatten := by
  obtain ⟨t, f', h⟩ := symbol_map (.inl rfl) rfl pairFile_opened pairSymbols_file pairSymbols_near
  exact ⟨_, t, f', pairFile_opened, h⟩

-- The only symbol table has its one entry, "a", behind 4 GiB. At its offset modulo 2^32 there is
-- an entry for "b".
def farHead : List UInt8 := [0x7f, 0x45, 0x4c, 0x46, 2, 1, 1, 0, 0, 0, 0, 0, 0, 0, 0, 0] ++
  fields [(2, 2), (2, 62), (4, 1), (8, 0), (8, 0), (8, 64), (4, 0), (2, 64), (2, 56), (2, 0),
    (2, 64), (2, 2), (2, 1)] ++
  fields [(4, 0), (4, 2), (8, 0), (8, 0), (8, 4294967493), (8, 24), (4, 1), (4, 0), (8, 8), (8, 24)] ++
  fields [(4, 0), (4, 3), (8, 0), (8, 0), (8, 192), (8, 5), (4, 0), (4, 0), (8, 1), (8, 0)] ++
  [0, 97, 0, 98, 0] ++ fields [(4, 3), (1, 18), (1, 0), (2, 1), (8, 7), (8, 9)]

def farRecord : List UInt8 := fields [(4, 1), (1, 18), (1, 0), (2, 1), (8, 7), (8, 9)]

def farSymbols : Stream where
  bytes := farHead ++ List.replicate 4294967272 0 ++ farRecord

def farEntries : List (List (List UInt8 × Sym)) :=
  [[([97], { name := 1, value := 7, size := 9, info := 18, shndx := 1 })], []]

theorem farSymbols_length : farSymbols.bytes.length = 4294967517 := by
  have hhead : farHead.length = 221 := rfl
  have hrecord : farRecord.length = 24 := rfl
  rw [farSymbols, List.length_append, List.length_append, List.length_replicate, hhead, hrecord]

theorem farSymbols_word (s : Slot) : word .little farSymbols.bytes 4294967493 s =
    word .little farRecord 0 s := by
  have hlen : (farHead ++ List.replicate 4294967272 0).length = 4294967493 := by
    rw [List.length_append, List.length_replicate]
    rfl
  rw [word, word, cell, cell, ← hlen, farSymbols, List.drop_length_add_append, Nat.zero_add]

theorem farSymbols_file : SymbolFile .little farSymbols.bytes elf64 farEntries where
  shentsize := by decide +kernel
  shnum := by decide +kernel
  inside := by
    rw [farSymbols_length]
    decide +kernel
  sections := by
    have hoffset : (sectionHeader .little farSymbols.bytes elf64 0).offset = 4294967493 := by
      decide +kernel
    have hlink : (sectionHeader .little farSymbols.bytes elf64 0).link = 1 := by decide +kernel
    rintro (_ | _ | i) es hes
    · cases hes
      rw [if_pos (by decide +kernel)]
      apply symbolsAt_single
      · decide +kernel
      · decide +kernel
      · rw [hoffset]
        refine ⟨?_, ?_, ?_, ?_, ?_, ?_⟩
        · rw [farSymbols_length]
          decide
        all_goals
          rw [farSymbols_word]
          rfl
      · rw [hlink]
        refine ⟨by decide, by decide +kernel, ?_, by decide +kernel, by decide +kernel, by decide⟩
        rw [farSymbols_length]
        decide +kernel
    · cases hes
      rw [if_neg (by decide +kernel)]
    · cases hes

def farTable : File := File.blank elf64 .little "far" farSymbols fun _ => 0

theorem symbol_map_far : ∃ f t f', construct.run farTable = (.ok (), f) ∧
    symbols.run f = (.ok t, f') ∧
    SymbolFile (dataOrder (farSymbols.bytes.getD 5 0)) farSymbols.bytes elf64 farEntries ∧
    ¬ MapOf f' t farEntries.flatten := by
  have hopen : (construct.run farTable).1.toOption.map (fun _ => true) = some true := by decide +kernel
  have hsymbols : (symbols.run (construct.run farTable).2).1.toOption.map (fun t => t.get [97]) =
      some none := by decide +kernel
  obtain ⟨_, hopen, -⟩ := Res.ok_of_map hopen
  obtain ⟨t, hsymbols, hget⟩ := Res.ok_of_map hsymbols
  have horder : dataOrder (farSymbols.bytes.getD 5 0) = .little := by decide +kernel
  refine ⟨_, t, _, run_fst hopen, run_fst hsymbols, horder ▸ farSymbols_file, fun h => ?_⟩
  obtain ⟨s, hs⟩ := (h.keys [97]).mpr ⟨_, List.mem_singleton_self _⟩
  rw [hget] at hs
  cases hs

end Gelpp.Elf
