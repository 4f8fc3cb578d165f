import Gelpp.Outcome
import Gelpp.Library.Effect
import Gelpp.Elf.SymbolMap

namespace Gelpp.Coffi

open Elf (SymbolType SymbolBind)

structure Styp where
  text : UInt32
  data : UInt32
  bss : UInt32
  copy : UInt32

inductive Architecture where
  | pe
  | ceva
  | ti
  deriving DecidableEq, Repr

structure Record where
  name : List UInt8
  value : UInt32
  sectionNumber : Int16
  type : UInt16
  storageClass : UInt8
  deriving DecidableEq

structure Reader where
  architecture : Architecture
  sections : List UInt32
  symbols : List Record

structure Symbol where
  name : List UInt8
  type : SymbolType
  bind : SymbolBind
  value : UInt32
  deriving DecidableEq

abbrev SymbolTable := List (List UInt8 × Symbol)

def SymbolTable.put (t : SymbolTable) (name : List UInt8) (s : Symbol) : SymbolTable :=
  (name, s) :: t.filter fun p => p.1 != name

structure File where
  reader : Reader
  symtab : Option SymbolTable := none

abbrev FileM := Effect Stop File

def sectionAt (sections : List UInt32) (i : Int) : Res UInt32 :=
  if 0 ≤ i then
    match sections[i.toNat]? with
    | some flags => .ok flags
    | none => .error (.fault .index)
  else .error (.fault .index)

-- The number is tested as a uint16, and used as it is.
def containingSection (sections : List UInt32) (k : Int16) : Res (Option UInt32) :=
  if k.toUInt16.toNat < sections.length then do
    let flags ← sectionAt sections (k.toInt - 1)
    return some flags
  else .ok none

section
variable (st : Styp)

def symbolType (r : Record) (flags : UInt32) : SymbolType :=
  if flags &&& (st.data ||| st.bss ||| st.copy) ≠ 0 then .data
  else if flags &&& st.text ≠ 0 then
    if r.type = 0 then .otherType
    else if r.storageClass &&& 4 ≠ 0 then .label
    else .func
  else .noType

def symbolOf (sections : List UInt32) (r : Record) : Res Symbol := do
  let containing ← containingSection sections r.sectionNumber
  let type := (containing.map (symbolType st r)).getD .noType
  return { name := r.name, type, bind := .global, value := r.value }

def FileM.addSymbol (r : Record) : FileM Unit := do
  let f ← Effect.get
  let s ← Effect.lift (symbolOf st f.reader.sections r)
  Effect.modify fun f => { f with symtab := f.symtab.map fun t => t.put r.name s }

def FileM.symbols : FileM SymbolTable := do
  let f ← Effect.get
  match f.symtab with
  | some t => return t
  | none =>
    Effect.modify fun f => { f with symtab := some [] }
    if f.reader.architecture ≠ .ti then Effect.raise (.fault .assertion)
    else
      f.reader.symbols.forM (FileM.addSymbol st)
      let f ← Effect.get
      return f.symtab.getD []

def classOf (sections : List UInt32) (r : Record) : SymbolType :=
  if 1 ≤ r.sectionNumber.toInt then
    ((sections[r.sectionNumber.toInt.toNat - 1]?).map (symbolType st r)).getD .noType
  else .noType

def classified (sections : List UInt32) (r : Record) : Symbol where
  name := r.name
  type := classOf st sections r
  bind := .global
  value := r.value

structure Classifies (rd : Reader) : Prop where
  each : ∀ r ∈ rd.symbols, symbolOf st rd.sections r = .ok (classified st rd.sections r)
  table : (FileM.symbols st).run { reader := rd } =
    (.ok (rd.symbols.foldl (fun t r => t.put r.name (classified st rd.sections r)) []), {
      reader := rd
      symtab := some (rd.symbols.foldl (fun t r => t.put r.name (classified st rd.sections r)) []) })

def Plain (flags : UInt32) : Prop :=
  flags &&& (st.data ||| st.bss ||| st.copy) = 0 ∧ flags &&& st.text = 0

instance (flags : UInt32) : Decidable (Plain st flags) := inferInstanceAs (Decidable (_ ∧ _))

structure Numbered (sections : List UInt32) (k : Int) : Prop where
  undefined : k = 0 → sections = []
  reserved : k < 0 → (sections.length : Int) ≤ 2 ^ 16 + k
  last : k = sections.length → ∀ flags ∈ sections.getLast?, Plain st flags

end

section
variable {st : Styp} {sections : List UInt32} {r : Record}

theorem toUInt16_toNat (k : Int16) :
    (k.toUInt16.toNat : Int) = if 0 ≤ k.toInt then k.toInt else k.toInt + 2 ^ 16 := by
  have hlt := k.toUInt16.toNat_lt
  have hcond : k.toInt = if 2 * k.toUInt16.toNat < 2 ^ 16 then (k.toUInt16.toNat : Int)
      else (k.toUInt16.toNat : Int) - (2 ^ 16 : Nat) := BitVec.toInt_eq_toNat_cond k.toBitVec
  rw [hcond]
  split <;> split <;> omega

theorem sectionAt_nonneg {n : Nat} : sectionAt sections n =
    match sections[n]? with
    | some flags => .ok flags
    | none => .error (.fault .index) :=
  if_pos (Int.natCast_nonneg n)

theorem sectionAt_neg {i : Int} (h : i < 0) : sectionAt sections i = .error (.fault .index) :=
  if_neg (by omega)

theorem symbolType_noType {flags : UInt32} :
    symbolType st r flags = .noType ↔ Plain st flags := by
  unfold symbolType Plain
  by_cases hdata : flags &&& (st.data ||| st.bss ||| st.copy) = 0
  · by_cases htext : flags &&& st.text = 0
    · simp [hdata, htext]
    · simp only [hdata, htext, ne_eq, not_true_eq_false, if_false, not_false_eq_true, if_true, and_false,
        iff_false]
      split
      · decide
      · split <;> decide
  · simp [hdata]

theorem symbolOf_ok {o : Option UInt32}
    (h : containingSection sections r.sectionNumber = .ok o) :
    symbolOf st sections r = .ok (classified st sections r) ↔
      (o.map (symbolType st r)).getD .noType = classOf st sections r := by
  rw [symbolOf, h, Res.ok_bind]
  constructor
  · intro heq
    exact congrArg Symbol.type (Except.ok.inj heq)
  · intro heq
    rw [heq]
    rfl

theorem symbolOf_error {e : Stop} (h : containingSection sections r.sectionNumber = .error e) :
    ¬ symbolOf st sections r = .ok (classified st sections r) := by
  rw [symbolOf, h]
  exact nofun

theorem classOf_unnumbered (hk : r.sectionNumber.toInt < 1) : classOf st sections r = .noType :=
  if_neg (by omega)

theorem classOf_numbered {n : Nat} (hk : r.sectionNumber.toInt = n + 1) :
    classOf st sections r = ((sections[n]?).map (symbolType st r)).getD .noType := by
  rw [classOf, hk, if_pos (by omega)]
  rfl

theorem symbolOf_within {n : Nat} (hk : r.sectionNumber.toInt = n + 1)
    (hlt : r.sectionNumber.toUInt16.toNat < sections.length) (hn : n < sections.length) :
    symbolOf st sections r = .ok (classified st sections r) := by
  have hget : sections[n]? = some (sections.get ⟨n, hn⟩) := List.getElem?_eq_getElem _
  have hfound : containingSection sections r.sectionNumber = .ok sections[n]? := by
    rw [containingSection, if_pos hlt, hk, Int.add_sub_cancel, sectionAt_nonneg, hget]
    rfl
  exact (symbolOf_ok hfound).mpr (classOf_numbered hk).symm

theorem not_symbolOf_before (hk : r.sectionNumber.toInt < 1)
    (hlt : r.sectionNumber.toUInt16.toNat < sections.length) :
    ¬ symbolOf st sections r = .ok (classified st sections r) := by
  apply symbolOf_error (e := .fault .index)
  rw [containingSection, if_pos hlt, sectionAt_neg (by omega)]
  rfl

theorem symbolOf_beyond_iff (hge : ¬ r.sectionNumber.toUInt16.toNat < sections.length) :
    symbolOf st sections r = .ok (classified st sections r) ↔ classOf st sections r = .noType :=
  (symbolOf_ok (if_neg hge)).trans eq_comm

theorem classOf_last_iff {n : Nat} (hk : r.sectionNumber.toInt = n + 1)
    (hn : n + 1 = sections.length) :
    classOf st sections r = .noType ↔ ∀ flags ∈ sections.getLast?, Plain st flags := by
  have hget : sections[n]? = sections.getLast? := by
    rw [List.getLast?_eq_getElem?, ← hn, Nat.add_sub_cancel]
  rw [classOf_numbered hk, hget]
  cases sections.getLast? with
  | none => simp
  | some flags => simp [symbolType_noType]

-- The cases are the sides of the two tests that the number is on.
theorem symbolOf_classified_iff : symbolOf st sections r = .ok (classified st sections r) ↔
    Numbered st sections r.sectionNumber.toInt := by
  have hword := toUInt16_toNat r.sectionNumber
  rcases lt_trichotomy r.sectionNumber.toInt 0 with hneg | hzero | hpos
  · rw [if_neg (by omega)] at hword
    by_cases hlt : r.sectionNumber.toUInt16.toNat < sections.length
    · refine iff_of_false (not_symbolOf_before (by omega) hlt) fun h => ?_
      have hle := h.reserved hneg
      omega
    · refine iff_of_true ((symbolOf_beyond_iff hlt).mpr (classOf_unnumbered (by omega))) ?_
      exact ⟨by omega, by omega, by omega⟩
  · rw [hzero, if_pos le_rfl] at hword
    by_cases hlt : r.sectionNumber.toUInt16.toNat < sections.length
    · refine iff_of_false (not_symbolOf_before (by omega) hlt) fun h => ?_
      rw [h.undefined hzero] at hlt
      exact Nat.not_lt_zero _ hlt
    · have hnil : sections = [] := List.eq_nil_of_length_eq_zero (by omega)
      refine iff_of_true ((symbolOf_beyond_iff hlt).mpr (classOf_unnumbered (by omega))) ?_
      rw [hnil]
      exact ⟨fun _ => rfl, by omega, fun _ => nofun⟩
  · rw [if_pos hpos.le] at hword
    obtain ⟨n, hk⟩ : ∃ n : Nat, r.sectionNumber.toInt = n + 1 :=
      ⟨r.sectionNumber.toInt.toNat - 1, by omega⟩
    by_cases hlt : r.sectionNumber.toUInt16.toNat < sections.length
    · exact iff_of_true (symbolOf_within hk hlt (by omega)) ⟨by omega, by omega, by omega⟩
    · rw [symbolOf_beyond_iff hlt]
      by_cases hlast : n + 1 = sections.length
      · rw [classOf_last_iff hk hlast]
        exact ⟨fun h => ⟨by omega, by omega, fun _ => h⟩, fun h => h.last (by omega)⟩
      · have hnone : sections[n]? = none := List.getElem?_eq_none (by omega)
        rw [classOf_numbered hk, hnone]
        exact iff_of_true rfl ⟨by omega, by omega, by omega⟩

theorem addSymbol_run {f : File} {t : SymbolTable} {s : Symbol} (hf : f.symtab = some t)
    (h : symbolOf st f.reader.sections r = .ok s) :
    (FileM.addSymbol st r).run f = (.ok (), { f with symtab := some (t.put r.name s) }) := by
  simp only [FileM.addSymbol, Effect.get_bind, h, Effect.lift_ok_bind, Effect.modify_run, hf,
    Option.map_some]

-- The induction is on the records: the table grows by one symbol for each.
theorem forM_addSymbol_run {rd : Reader} {made : Record → Symbol} {rs : List Record}
    (h : ∀ r ∈ rs, symbolOf st rd.sections r = .ok (made r)) (t : SymbolTable) :
    (rs.forM (FileM.addSymbol st)).run { reader := rd, symtab := some t } = (.ok (), {
      reader := rd
      symtab := some (rs.foldl (fun t r => t.put r.name (made r)) t) }) := by
  induction rs generalizing t with
  | nil => rfl
  | cons r rs ih =>
    obtain ⟨hr, hrs⟩ := List.forall_mem_cons.mp h
    have hcons : (r :: rs).forM (FileM.addSymbol st) =
        FileM.addSymbol st r >>= fun _ => rs.forM (FileM.addSymbol st) := rfl
    rw [hcons, Effect.bind_of_ok (addSymbol_run rfl hr)]
    exact ih hrs _

theorem symbols_run {rd : Reader} {made : Record → Symbol} (hti : rd.architecture = .ti)
    (h : ∀ r ∈ rd.symbols, symbolOf st rd.sections r = .ok (made r)) :
    (FileM.symbols st).run { reader := rd } =
      (.ok (rd.symbols.foldl (fun t r => t.put r.name (made r)) []), {
        reader := rd
        symtab := some (rd.symbols.foldl (fun t r => t.put r.name (made r)) []) }) := by
  have hloop := forM_addSymbol_run h []
  simp only [FileM.symbols, Effect.get_bind, Effect.modify_bind, Effect.ite_run, hti]
  rw [if_neg (by decide), Effect.bind_of_ok hloop]
  rfl

theorem symbols_classified_iff {rd : Reader} (hti : rd.architecture = .ti) :
    Classifies st rd ↔ ∀ r ∈ rd.symbols, Numbered st rd.sections r.sectionNumber.toInt := by
  constructor
  · intro h r hr
    exact symbolOf_classified_iff.mp (h.each r hr)
  · intro h
    have heach (r : Record) (hr : r ∈ rd.symbols) := symbolOf_classified_iff.mpr (h r hr)
    exact ⟨heach, symbols_run hti heach⟩

end

def styp : Styp := { text := 0x20, data := 0x40, bss := 0x80, copy := 0x10 }

def function (sectionNumber : Int16) : Record :=
  { name := [102], value := 0x100, sectionNumber, type := 0x20, storageClass := 2 }

theorem symbols_classified_first : Classifies styp
    { architecture := .ti, sections := [0x20, 0x40], symbols := [function 1, function (-1)] } := by
  refine (symbols_classified_iff rfl).mpr ?_
  simp only [List.forall_mem_cons]
  exact ⟨⟨by decide, by decide, by decide +kernel⟩, ⟨by decide, by decide, by decide +kernel⟩, nofun⟩

-- A function of the only section has no type, and an undefined one is looked for before it.
theorem last_and_undefined_missed :
    (¬ Classifies styp { architecture := .ti, sections := [0x20], symbols := [function 1] }) ∧
    ¬ Classifies styp { architecture := .ti, sections := [0x20], symbols := [function 0] } := by
  constructor
  · intro h
    exact absurd (h.each _ (List.mem_singleton_self _)) (by decide)
  · intro h
    exact absurd (h.each _ (List.mem_singleton_self _)) (by decide)

end Gelpp.Coffi
