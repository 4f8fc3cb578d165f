import Gelpp.Elf.Swaps
import Gelpp.Elf.Entries

namespace Gelpp.Elf

open FileM Effect

def lookup (sect : Int) : FileM (List UInt8) := do
  let sects ← sections
  if (sects.length : Int) ≤ sect then throw "strtab index out of bound"
  else sectionContent sect

section
variable {f g : File} {sect : Int} {buf : List UInt8}

theorem stringAt_lookup (offset : Nat) (sect : Int) (f : File) : (stringAt offset sect).run f =
    (lookup sect >>= fun buf => lift (cstringAt buf offset)).run f := by
  rw [lookup, bind_assoc_run, stringAt, stringIn]
  cases h : sections.run f with
  | mk r g =>
    cases r with
    | error e => rw [bind_of_error h, bind_of_error h]
    | ok sects =>
      rw [bind_of_ok h, bind_of_ok h]
      by_cases hle : (sects.length : Int) ≤ sect
      · rw [if_pos hle, if_pos hle]
        rfl
      · rw [if_neg hle, if_neg hle]

structure Found (f g : File) (sect : Int) (buf : List UInt8) : Prop where
  nonneg : 0 ≤ sect
  kept : ∃ s, g.sects[sect.toNat]? = some s ∧ s.buf = some buf
  loaded : g.sectsLoaded = true
  frame : g = { f with stream := g.stream, secBuf := g.secBuf, sects := g.sects, sectsLoaded := true }

theorem lift_ok {α : Type} {x : Res α} {a : α} (h : (lift x).run f = (.ok a, g)) : x = .ok a ∧ g = f := by
  cases h
  exact ⟨rfl, rfl⟩

theorem loadSections_frame (h : loadSections.run f = (.ok (), g)) :
    g = { f with stream := g.stream, secBuf := g.secBuf, sects := g.sects } := by
  rw [loadSections, get_bind] at h
  obtain ⟨size, f1, hsize, h⟩ := bind_ok.mp h
  obtain ⟨-, rfl⟩ := lift_ok hsize
  obtain ⟨raw, f2, halloc, h⟩ := bind_ok.mp h
  rw [alloc_run] at halloc
  split at halloc
  · cases halloc
    obtain ⟨buf, f3, hread, h⟩ := bind_ok.mp h
    obtain ⟨-, rfl⟩ := readAt_length hread
    obtain ⟨mem, f4, hfix, h⟩ := bind_ok.mp h
    obtain ⟨-, rfl⟩ := lift_ok hfix
    cases h
    rfl
  · cases halloc

theorem sections_frame {sects : List Section} (h : sections.run f = (.ok sects, g)) :
    sects = g.sects ∧ g.sectsLoaded = true ∧
      g = { f with stream := g.stream, secBuf := g.secBuf, sects := g.sects, sectsLoaded := true } := by
  obtain ⟨_, f1, hinit, h⟩ := bind_ok.mp h
  cases h
  rw [initSections, get_bind] at hinit
  cases hl : f.sectsLoaded with
  | true =>
    rw [hl] at hinit
    cases hinit
    exact ⟨rfl, hl, by rw [← hl]⟩
  | false =>
    rw [hl] at hinit
    obtain ⟨_, f2, hload, h⟩ := bind_ok.mp hinit
    have hframe := loadSections_frame hload
    cases h
    rw [hframe]
    exact ⟨rfl, rfl, rfl⟩

theorem sectionContent_found (hl : f.sectsLoaded = true)
    (h : (sectionContent sect).run f = (.ok buf, g)) : Found f g sect buf := by
  by_cases h0 : 0 ≤ sect ∧ ∃ s, f.sects[sect.toNat]? = some s
  · obtain ⟨h0, s, hs⟩ := h0
    rw [sectionContent, contentFor_run h0 hs] at h
    cases hb : s.buf with
    | some buf' =>
      rw [hb] at h
      cases h
      exact ⟨h0, ⟨s, hs, hb⟩, hl, by rw [← hl]⟩
    | none =>
      rw [hb] at h
      change (fillContent 1 sect s).run f = _ at h
      rw [fillContent, get_bind] at h
      obtain ⟨hdr, f1, hhdr, h⟩ := bind_ok.mp h
      obtain ⟨-, rfl⟩ := lift_ok hhdr
      obtain ⟨raw, f2, hread, h⟩ := bind_ok.mp h
      obtain ⟨-, -, rfl⟩ := readSection_length hread
      cases h
      refine ⟨h0, ⟨_, List.getElem?_set_self (List.getElem?_eq_some_iff.mp hs).1, rfl⟩, hl, ?_⟩
      rw [← hl]
      rfl
  · rw [not_and] at h0
    have hnone (h : 0 ≤ sect) : f.sects[sect.toNat]? = none := by
      rw [← Option.not_isSome_iff_eq_none, Option.isSome_iff_exists]
      exact h0 h
    rw [sectionContent, contentFor, get_bind, bind_of_error (at_none hnone f)] at h
    cases h

theorem lookup_found (h : (lookup sect).run f = (.ok buf, g)) : Found f g sect buf := by
  obtain ⟨sects, f1, hsects, h⟩ := bind_ok.mp h
  obtain ⟨rfl, hl, hframe⟩ := sections_frame hsects
  rw [ite_run] at h
  split at h
  · cases h
  · have hfound := sectionContent_found hl h
    refine ⟨hfound.nonneg, hfound.kept, hfound.loaded, ?_⟩
    rw [hfound.frame, hframe]

theorem Found.again (h : Found f g sect buf) (syms : Option SymbolTable) :
    (lookup sect).run { g with syms } = (.ok buf, { g with syms }) := by
  obtain ⟨s, hs, hb⟩ := h.kept
  have hlt := (List.getElem?_eq_some_iff.mp hs).1
  have hnonneg := h.nonneg
  have hcontent : (sectionContent sect).run { g with syms } = (.ok buf, { g with syms }) := by
    rw [sectionContent, contentFor_run (f := { g with syms }) hnonneg hs, hb]
  rw [lookup, sections_loaded (f := { g with syms }) _ h.loaded,
    if_neg (show ¬ (g.sects.length : Int) ≤ sect by omega), hcontent]

theorem listed_found (h : (lookup sect).run f = (.ok buf, g)) (offset : Nat) :
    Listed f (Spelled 2 offset sect) ↔ 0 ∈ buf.drop offset := by
  have hfound := lookup_found h
  obtain ⟨s, hs, hb⟩ := hfound.kept
  rw [← stringAt_wp, Wp.of_run (stringAt_lookup offset sect f), Wp.bind, Wp.of_ok h]
  exact cstringAt_wp fun text rest hnot heq => ⟨hnot, hfound.nonneg, s, buf, rest, hs, hb, heq⟩

theorem listed_lost {e : Stop} (h : (lookup sect).run f = (.error e, g)) (offset : Nat) :
    Listed f (Spelled 2 offset sect) ↔ Refusal e := by
  rw [← stringAt_wp, Wp.of_run (stringAt_lookup offset sect f), Wp.bind, Wp.of_error h]

end

section
variable {f g : File} {m e i n : Nat} {raw mem : List UInt8}

def symName (f : File) (raw : List UInt8) (e i : Nat) : Nat :=
  word (fileOrder f.host f.eiData) raw (i * e) f.layout.sym.name

structure Swept (f g : File) (m e n : Nat) (raw : List UInt8) : Prop where
  layout : g.layout = f.layout
  host : g.host = f.host
  header : g.h = f.h
  table : ∃ t mem, g.syms = some t ∧ t.mems[m]? = some mem ∧
    TableFixed f.host f.eiData f.layout.sym.fixes e n raw mem

theorem readSym_fixed (hl : f.layout = elf32 ∨ f.layout = elf64) (he : f.layout.sym.size ≤ e)
    (h : TableFixed f.host f.eiData f.layout.sym.fixes e n raw mem) (hn : n * e ≤ raw.length)
    (hi : i < n) : ∃ y, readSym f.host f.layout.sym mem (i * e) = .ok y ∧ y.name = symName f raw e i := by
  obtain ⟨hfit, hapart, hone, -⟩ := sym_info hl
  have hf := (sym_fixable hl).wider he
  exact ⟨_, readSym_loads (fun slot hslot => h.load_word hf hn hi hslot)
    (h.load_byte hf hn hi (hfit.trans he) hapart hone), rfl⟩

theorem fillSymbol_wp (str : Int) (hl : f.layout = elf32 ∨ f.layout = elf64) (he : f.layout.sym.size ≤ e)
    (hn : (n + 1) * e ≤ raw.length) (h : Swept f g m e n raw) {Q : Unit → File → Prop} :
    ∃ t, Swept f { g with syms := some t } m e (n + 1) raw ∧
      (Wp Refusal (fillSymbol m e str n) Q g ↔
        Wp Refusal (stringAt (symName f raw e n) str) (fun text g' => Q () { g' with
          syms := some ((g'.syms.getD {}).put text { mem := m, ptr := n * e }) })
          { g with syms := some t }) := by
  obtain ⟨t, mem, ht, hmem, hfixed⟩ := h.table
  obtain ⟨mem', hrow, hfixed'⟩ := hfixed.row ((sym_fixable hl).wider he) hn
  obtain ⟨y, hread, hy⟩ := readSym_fixed hl he hfixed' hn (Nat.lt_succ_self n)
  have hdata : g.eiData = f.eiData := congrArg (fun h : Ehdr => h.ident.getD 5 0) h.header
  rw [← h.layout, ← h.host, ← hdata] at hrow
  rw [← h.layout, ← h.host] at hread
  have hlt := (List.getElem?_eq_some_iff.mp hmem).1
  refine ⟨{ t with mems := t.mems.set m mem' }, ⟨h.layout, h.host, h.header, _, mem', rfl, ?_, hfixed'⟩, ?_⟩
  · exact List.getElem?_set_self hlt
  · rw [fillSymbol, Wp.bind, Wp.get, ht]
    dsimp only [Option.getD_some]
    rw [Wp.bind, Wp.of_ok (at_some (Int.natCast_nonneg m) hmem g), hrow, Wp.bind,
      Wp.of_ok (lift_run _ _), Wp.bind, Wp.modify, hread, Wp.bind, Wp.of_ok (lift_run _ _), Wp.bind, hy]
    exact Iff.rfl

theorem Swept.put (h : Swept f g m e n raw) {g' : File} (hframe : g' = { g with
      stream := g'.stream, secBuf := g'.secBuf, sects := g'.sects, sectsLoaded := true })
    (text : List UInt8) (s : Symbol) :
    Swept f { g' with syms := some ((g'.syms.getD {}).put text s) } m e n raw := by
  obtain ⟨t, mem, ht, hmem, hfixed⟩ := h.table
  have hsyms : g'.syms = some t := by rw [hframe, ← ht]
  refine ⟨?_, ?_, ?_, t.put text s, mem, ?_, hmem, hfixed⟩
  · rw [hframe]
    exact h.layout
  · rw [hframe]
    exact h.host
  · rw [hframe]
    exact h.header
  · rw [hsyms]
    rfl

theorem cstringAt_faults (buf : List UInt8) (offset : Nat) :
    Meets (¬ Refusal ·) (fun _ => 0 ∈ buf.drop offset) (cstringAt buf offset) := by
  by_cases h : (0 : UInt8) ∈ buf.drop offset
  · obtain ⟨text, rest, hrun, -⟩ := cstringAt_ended h
    rw [hrun]
    exact h
  · exact (cstringAt_endless h).post fun _ h => h.elim

theorem fillSymbols_wp (str : Int) (hl : f.layout = elf32 ∨ f.layout = elf64)
    (he : f.layout.sym.size ≤ e) {k : Nat} (hk : (n + k) * e ≤ raw.length) (h : Swept f g m e n raw)
    {P : File → Prop} (hP : ∀ g', Swept f g' m e (n + k) raw → P g') :
    Wp Refusal ((List.range' n k).forM (fillSymbol m e str)) (fun _ => P) g ↔
      ∀ j, n ≤ j → j < n + k → Listed g (Spelled 2 (symName f raw e j) str) := by
  induction k generalizing n g with
  | zero => exact iff_of_true (hP g h) fun j hle hlt => absurd hlt (by omega)
  | succ k ih =>
    have hcons : (List.range' n (k + 1)).forM (fillSymbol m e str) =
        (fillSymbol m e str n >>= fun _ => (List.range' (n + 1) k).forM (fillSymbol m e str)) := rfl
    have hrow : (n + 1) * e ≤ raw.length := (Nat.mul_le_mul_right e (by omega)).trans hk
    obtain ⟨t, hswept, hwp⟩ := fillSymbol_wp str hl he hrow h (Q := fun _ =>
      Wp Refusal ((List.range' (n + 1) k).forM (fillSymbol m e str)) (fun _ => P))
    rw [hcons, Wp.bind, hwp, Wp.of_run (stringAt_lookup _ _ _), Wp.bind]
    cases hlook : (lookup str).run { g with syms := some t } with
    | mk r g2 =>
      cases r with
      | error x =>
        have hlost (offset : Nat) : Listed g (Spelled 2 offset str) ↔ Refusal x := listed_lost hlook offset
        simp only [Wp.of_error hlook, hlost]
        exact ⟨fun hx j _ _ => hx, fun hx => hx n (Nat.le_refl n) (by omega)⟩
      | ok buf =>
        have hfound := lookup_found hlook
        have hlist (offset : Nat) : Listed g (Spelled 2 offset str) ↔ 0 ∈ buf.drop offset :=
          listed_found hlook offset
        rw [Wp.of_ok hlook, Wp.lift fun x hx => (cstringAt_faults _ _).of_error hx]
        simp only [hlist]
        have hrest (text : List UInt8) : Wp Refusal ((List.range' (n + 1) k).forM (fillSymbol m e str))
            (fun _ => P) { g2 with syms := some ((g2.syms.getD {}).put text { mem := m, ptr := n * e }) } ↔
              ∀ j, n + 1 ≤ j → j < n + (k + 1) → 0 ∈ buf.drop (symName f raw e j) := by
          have hagain := hfound.again (some ((g2.syms.getD {}).put text { mem := m, ptr := n * e }))
          have hsucc : n + 1 + k = n + (k + 1) := by rw [Nat.add_assoc, Nat.add_comm 1 k]
          have hih := ih (n := n + 1) (by rwa [hsucc])
            (hswept.put hfound.frame text { mem := m, ptr := n * e }) (by rwa [hsucc])
          rw [hsucc] at hih
          rw [hih]
          simp only [listed_found hagain]
        constructor
        · rintro ⟨text, hrun, hwp⟩ j hle hlt
          rcases Nat.eq_or_lt_of_le hle with rfl | hlt'
          · exact (cstringAt_faults _ _).of_ok hrun
          · exact (hrest text).mp hwp j hlt' hlt
        · intro hall
          obtain ⟨text, rest, hrun, -⟩ := cstringAt_ended (hall n (Nat.le_refl n) (by omega))
          exact ⟨text, hrun, (hrest text).mpr fun j hle hlt => hall j (by omega) hlt⟩

theorem row_inside {host : ByteOrder} {eiData : UInt8} {base : Nat} {slots : List Slot}
    {mem' : List UInt8} (h : slots.foldlM (fixAt host eiData base) mem = .ok mem') :
    ∀ s ∈ slots, base + s.off + s.width ≤ mem.length := by
  induction slots generalizing mem with
  | nil => exact nofun
  | cons s slots ih =>
    rw [List.foldlM_cons] at h
    obtain ⟨mem1, hfix, hrest⟩ := Res.bind_ok.mp h
    have hlen : mem1.length = mem.length := (fixAt_length s).of_ok hfix
    have hin : base + s.off + s.width ≤ mem.length := by
      by_contra hout
      rw [fixAt, loadAt, if_neg hout] at hfix
      cases hfix
    rw [List.forall_mem_cons]
    refine ⟨hin, fun t ht => ?_⟩
    rw [← hlen]
    exact ih hrest t ht

theorem row_faults {host : ByteOrder} {eiData : UInt8} (base : Nat) (slots : List Slot) :
    Meets (¬ Refusal ·) (fun _ => True) (slots.foldlM (fixAt host eiData base) mem) :=
  Meets.foldlM (fun _ => True) (fun _ s _ => fixAt_faults base s) trivial

theorem sym_filled {l : Layout} (hl : l = elf32 ∨ l = elf64) :
    ∃ s ∈ l.sym.fixes, s.off + s.width = l.sym.size := by
  rcases hl with rfl | rfl <;> decide

theorem readSym_faults {host : ByteOrder} (l : SymLayout) (ptr : Nat) :
    Meets (¬ Refusal ·) (fun _ => True) (readSym host l mem ptr) := by
  refine (loadAt_faults ptr l.name).bind fun _ _ => ?_
  refine (loadAt_faults ptr l.value).bind fun _ _ => ?_
  refine (loadAt_faults ptr l.bytes).bind fun _ _ => ?_
  refine (loadAt_faults ptr l.info).bind fun _ _ => ?_
  exact (loadAt_faults ptr l.shndx).bind fun _ _ => trivial

theorem at_faults {α : Type} (l : List α) (k : Int) {P : α → File → Prop} (hP : ∀ a, P a g) :
    Wp (¬ Refusal ·) (at_ l k) P g := by
  by_cases h : 0 ≤ k ∧ ∃ a, l[k.toNat]? = some a
  · obtain ⟨h0, a, ha⟩ := h
    rw [Wp.of_ok (at_some h0 ha g)]
    exact hP a
  · rw [not_and] at h
    have hnone (h0 : 0 ≤ k) : l[k.toNat]? = none := by
      rw [← Option.not_isSome_iff_eq_none, Option.isSome_iff_exists]
      exact h h0
    rw [Wp.of_error (at_none hnone g)]
    exact not_refusal_fault .index

def Present (sect : Int) (buf : List UInt8) (g : File) : Prop :=
  ∀ syms, (lookup sect).run { g with syms } = (.ok buf, { g with syms })

theorem fillSymbol_faults {sect : Int} {buf : List UInt8} (h : Present sect buf g) :
    Wp (¬ Refusal ·) (fillSymbol m e sect i) (fun _ => Present sect buf) g := by
  rw [fillSymbol, Wp.bind, Wp.get, Wp.bind]
  refine at_faults _ _ fun mem => ?_
  rw [Wp.bind, Wp.lift_cases]
  refine ⟨fun x hx => (row_faults _ _).of_error hx, fun mem' _ => ?_⟩
  rw [Wp.bind, Wp.modify, Wp.bind, Wp.lift_cases]
  refine ⟨fun x hx => (readSym_faults _ _).of_error hx, fun y _ => ?_⟩
  rw [Wp.bind, Wp.of_run (stringAt_lookup y.name sect _), Wp.bind, Wp.of_ok (h _), Wp.lift_cases]
  exact ⟨fun x hx => (cstringAt_faults buf y.name).of_error hx, fun text _ => h⟩

theorem fillSymbols_faults {sect : Int} {buf : List UInt8} {l : List Nat} (h : Present sect buf g) :
    Wp (¬ Refusal ·) (l.forM (fillSymbol m e sect)) (fun _ _ => True) g := by
  induction l generalizing g with
  | nil => trivial
  | cons i l ih =>
    have hcons : (i :: l).forM (fillSymbol m e sect) =
        (fillSymbol m e sect i >>= fun _ => l.forM (fillSymbol m e sect)) := rfl
    rw [hcons, Wp.bind]
    exact (fillSymbol_faults h).mono fun _ _ h' => ih h'

theorem answered_wp (f : File) (offset : Nat) (sect : Int) :
    Wp Refusal (stringAt offset sect) (fun _ _ => True) f ↔ Listed f (Spelled 2 offset sect) := by
  rw [Wp.of_run (stringAt_lookup offset sect f), Wp.bind]
  cases hlook : (lookup sect).run f with
  | mk r g =>
    cases r with
    | error e => rw [Wp.of_error hlook, listed_lost hlook]
    | ok buf =>
      rw [Wp.of_ok hlook, listed_found hlook, Wp.lift fun x hx => (cstringAt_faults _ _).of_error hx]
      constructor
      · rintro ⟨text, hrun, -⟩
        exact (cstringAt_faults _ _).of_ok hrun
      · intro h
        obtain ⟨text, rest, hrun, -⟩ := cstringAt_ended h
        exact ⟨text, hrun, trivial⟩

theorem fillSymbols_narrow (str : Int) (hl : f.layout = elf32 ∨ f.layout = elf64) {k : Nat}
    (h : Swept f g m f.layout.sym.size 0 raw) :
    Wp Refusal ((List.range' 0 (k + 1)).forM (fillSymbol m e str)) (fun _ _ => False) g ↔
      f.layout.sym.size ≤ raw.length ∧ ∀ offset, Listed g (Spelled 2 offset str) := by
  have hcons : (List.range' 0 (k + 1)).forM (fillSymbol m e str) =
      (fillSymbol m e str 0 >>= fun _ => (List.range' 1 k).forM (fillSymbol m e str)) := rfl
  -- The first record starts at 0 for any size of a record.
  have hfirst : fillSymbol m e str 0 = fillSymbol m f.layout.sym.size str 0 := by
    rw [fillSymbol, fillSymbol]
    simp only [Nat.zero_mul]
  rw [hcons, Wp.bind, hfirst]
  by_cases hle : f.layout.sym.size ≤ raw.length
  · rw [and_iff_right hle]
    obtain ⟨t, hswept, hwp⟩ := fillSymbol_wp str hl (Nat.le_refl _) (by omega) h (Q := fun _ =>
      Wp Refusal ((List.range' 1 k).forM (fillSymbol m e str)) (fun _ _ => False))
    rw [hwp, Wp.of_run (stringAt_lookup _ _ _), Wp.bind]
    cases hlook : (lookup str).run { g with syms := some t } with
    | mk r g2 =>
      cases r with
      | error x =>
        have hlost (offset : Nat) : Listed g (Spelled 2 offset str) ↔ Refusal x := listed_lost hlook offset
        simp only [Wp.of_error hlook, hlost, forall_const]
      | ok buf =>
        have hlist (offset : Nat) : Listed g (Spelled 2 offset str) ↔ 0 ∈ buf.drop offset :=
          listed_found hlook offset
        rw [Wp.of_ok hlook, Wp.lift fun x hx => (cstringAt_faults _ _).of_error hx]
        refine iff_of_false ?_ fun hall => ?_
        · rintro ⟨text, -, hrest⟩
          have hpresent : Present str buf g2 := (lookup_found hlook).again
          refine Wp.never (P := fun _ _ => True) ?_ hrest
          exact fillSymbols_faults hpresent
        · have hend := (hlist buf.length).mp (hall buf.length)
          rw [List.drop_length] at hend
          cases hend
  · refine iff_of_false ?_ fun hall => hle hall.1
    obtain ⟨t, mem, ht, hmem, hfixed⟩ := h.table
    rw [fillSymbol, Wp.bind, Wp.get, ht]
    dsimp only [Option.getD_some]
    rw [Wp.bind, Wp.of_ok (at_some (Int.natCast_nonneg m) hmem g), Wp.bind,
      Wp.lift fun x hx => (row_faults _ _).of_error hx, h.layout]
    rintro ⟨mem', hrow, -⟩
    obtain ⟨s, hs, hend⟩ := sym_filled hl
    have hin := row_inside hrow s hs
    rw [hfixed.length] at hin
    omega

end

section
variable (f : File) (h : Shdr)

def symCount : Nat := h.size / h.entsize

def sectionBytes : List UInt8 := taken f h.offset h.size (fresh f h.size)

def symLink : Int := (UInt32.ofNat h.link).toInt32.toInt

def SymbolsHeld (mem : List UInt8) : Prop :=
  h.entsize ≠ 0 ∧ (sectionBytes f h).length = h.size ∧
    Held f f.layout.sym.fixes f.layout.sym.size h.entsize (symCount h) (sectionBytes f h) mem

def ReadHeld : Prop := Wp Refusal (readSection (name h) h) (fun buf _ => SymbolsHeld f h buf) f

def FillHeld : Prop :=
  Wp Refusal (fillSymbolTable h) (fun _ g => ∃ t mem, g.syms = some t ∧
    t.mems[(f.syms.getD {}).mems.length]? = some mem ∧ SymbolsHeld f h mem) f

def Answered (offset : Nat) (sect : Int) : Prop :=
  Listed (consulted f h.offset h.size) (Spelled 2 offset sect)

def EntriesMeet (P : Prop) : Prop :=
  h.size < 2 ^ 63 ∧ (Short f h.offset h.size ∨ h.entsize ≠ 0 ∧
    if symCount h * h.entsize ≠ h.size then Answered f h h.name f.h.shstrndx else P)

def EntriesWide : Prop := h.size = 0 ∨ f.layout.sym.size ≤ h.entsize

def NamesAnswered : Prop :=
  h.size = 0 ∨ if f.layout.sym.size ≤ h.entsize then
    ∀ j < symCount h, Answered f h (symName f (sectionBytes f h) h.entsize j) (symLink h)
  else f.layout.sym.size ≤ h.size ∧ ∀ offset, Answered f h offset (symLink h)

variable {f h}

theorem name_wp (syms : Option SymbolTable) : Wp Refusal (name h) (fun _ _ => True)
    { consulted f h.offset h.size with syms } ↔ Answered f h h.name f.h.shstrndx := by
  rw [name, Wp.bind, Wp.get]
  exact answered_wp { consulted f h.offset h.size with syms } h.name f.h.shstrndx

theorem symCount_zero (hexact : symCount h * h.entsize = h.size) :
    symCount h = 0 ↔ h.size = 0 := by
  constructor
  · intro hcount
    rw [← hexact, hcount, Nat.zero_mul]
  · intro hsize
    rw [symCount, hsize, Nat.zero_div]

theorem entriesMeet_congr {P Q : Prop} (hlong : ¬ Short f h.offset h.size → h.entsize ≠ 0 →
    symCount h * h.entsize = h.size → (P ↔ Q)) : EntriesMeet f h P ↔ EntriesMeet f h Q := by
  rw [EntriesMeet, EntriesMeet]
  refine and_congr_right fun _ => ?_
  by_cases hshort : Short f h.offset h.size
  · exact iff_of_true (.inl hshort) (.inl hshort)
  rw [or_iff_right hshort, or_iff_right hshort]
  refine and_congr_right fun h0 => ?_
  by_cases hgarbage : symCount h * h.entsize ≠ h.size
  · rw [if_pos hgarbage, if_pos hgarbage]
  · rw [if_neg hgarbage, if_neg hgarbage]
    exact hlong hshort h0 (not_not.mp hgarbage)

theorem sectionBytes_length (hshort : ¬ Short f h.offset h.size) :
    (sectionBytes f h).length = h.size := taken_length (fresh_length f h.size) hshort

theorem held_fixed_iff (hl : f.layout = elf32 ∨ f.layout = elf64)
    (hshort : ¬ Short f h.offset h.size) (h0 : h.entsize ≠ 0)
    (hexact : symCount h * h.entsize = h.size) :
    (∃ mem, fixTable f.host f.eiData f.layout.sym.fixes h.entsize (symCount h) (sectionBytes f h) =
      .ok mem ∧ SymbolsHeld f h mem) ↔ EntriesWide f h := by
  have hlen := sectionBytes_length hshort
  rw [EntriesWide, ← symCount_zero hexact, ← held_iff (sym_fixable hl)
    (hlen.trans (hexact.symm.trans (Nat.mul_comm ..)))]
  exact exists_congr fun mem => and_congr_right fun _ => ⟨fun h => h.2.2, fun h => ⟨h0, hlen, h⟩⟩

theorem readHeld_iff (hl : f.layout = elf32 ∨ f.layout = elf64)
    (ht : h.type = shtSymtab ∨ h.type = shtDynsym) :
    ReadHeld f h ↔ EntriesMeet f h (EntriesWide f h) := by
  rw [← entriesMeet_congr (held_fixed_iff hl), ReadHeld, readSection_wp (name_wp f.syms), Yields, if_pos ht]
  rfl

-- The bytes are recorded before they are swapped.
def recorded (f : File) (h : Shdr) : File :=
  { consulted f h.offset h.size with syms := some { f.syms.getD {} with
    mems := (f.syms.getD {}).mems ++ [sectionBytes f h] } }

theorem fillHeld_meet : FillHeld f h ↔ EntriesMeet f h
    (Wp Refusal ((List.range (symCount h)).forM
      (fillSymbol (f.syms.getD {}).mems.length h.entsize (symLink h)))
      (fun _ g => ∃ t mem, g.syms = some t ∧ t.mems[(f.syms.getD {}).mems.length]? = some mem ∧
        SymbolsHeld f h mem) (recorded f h)) := by
  rw [FillHeld, fillSymbolTable, Wp.bind, readAll_wp, EntriesMeet]
  refine and_congr_right fun _ => or_congr_right ?_
  rw [Wp.bind, Wp.get, Wp.bind, Wp.modify, Wp.bind]
  exact entries_wp (f := recorded f h) (name_wp _)

theorem recorded_swept (f : File) (h : Shdr) (e : Nat) :
    Swept f (recorded f h) (f.syms.getD {}).mems.length e 0 (sectionBytes f h) := by
  refine ⟨rfl, rfl, rfl, _, sectionBytes f h, rfl, ?_, rfl, nofun, fun _ _ _ => rfl⟩
  rw [List.getElem?_append_right (Nat.le_refl _), Nat.sub_self]
  rfl

theorem swept_held (hl : f.layout = elf32 ∨ f.layout = elf64) (h0 : h.entsize ≠ 0)
    (hlen : (sectionBytes f h).length = h.size) (hexact : symCount h * h.entsize = h.size)
    (hwide : EntriesWide f h) {m : Nat} {g : File}
    (hg : Swept f g m h.entsize (0 + symCount h) (sectionBytes f h)) :
    ∃ t mem, g.syms = some t ∧ t.mems[m]? = some mem ∧ SymbolsHeld f h mem := by
  obtain ⟨t, mem, ht, hmem, hfixed⟩ := hg.table
  have hsize : (sectionBytes f h).length = h.entsize * symCount h := by
    rw [hlen, ← hexact, Nat.mul_comm]
  have hswapped : SwappedOnce f.layout.sym.fixes f.layout.sym.size h.entsize (symCount h)
      (sectionBytes f h).length := by
    rw [hsize, swappedOnce_iff (sym_fixable hl), symCount_zero hexact]
    exact hwide
  rw [Nat.zero_add] at hfixed
  exact ⟨t, mem, ht, hmem, h0, hlen, hsize, hswapped, hfixed⟩

theorem symbolsHeld_wide (hl : f.layout = elf32 ∨ f.layout = elf64)
    (hexact : symCount h * h.entsize = h.size) {mem : List UInt8} (hheld : SymbolsHeld f h mem) :
    EntriesWide f h := by
  have hswapped := hheld.2.2.swapped
  rwa [hheld.2.2.length, swappedOnce_iff (sym_fixable hl), symCount_zero hexact] at hswapped

theorem fillHeld_iff (hl : f.layout = elf32 ∨ f.layout = elf64) :
    FillHeld f h ↔ EntriesMeet f h (NamesAnswered f h) := by
  rw [fillHeld_meet]
  refine entriesMeet_congr fun hshort h0 hexact => ?_
  have hlen := sectionBytes_length hshort
  have hfull : (0 + symCount h) * h.entsize ≤ (sectionBytes f h).length := by
    rw [hlen, Nat.zero_add, hexact]
  rw [NamesAnswered, List.range_eq_range']
  by_cases hempty : h.size = 0
  · have hcount := (symCount_zero hexact).mpr hempty
    have hswept := recorded_swept f h h.entsize
    rw [hcount]
    refine iff_of_true ?_ (.inl hempty)
    refine swept_held hl h0 hlen hexact (.inl hempty) ?_
    rwa [hcount]
  rw [or_iff_right hempty]
  by_cases hle : f.layout.sym.size ≤ h.entsize
  · rw [if_pos hle, fillSymbols_wp _ hl hle hfull (recorded_swept f h h.entsize)
      fun g hg => swept_held hl h0 hlen hexact (.inr hle) hg]
    simp only [Nat.zero_le, forall_const, Nat.zero_add]
    rfl
  · rw [if_neg hle]
    obtain ⟨k, hk⟩ : ∃ k, symCount h = k + 1 :=
      Nat.exists_eq_succ_of_ne_zero fun hcount => hempty ((symCount_zero hexact).mp hcount)
    have hnarrow := fillSymbols_narrow (k := k) (m := (f.syms.getD {}).mems.length) (e := h.entsize)
      (symLink h) hl (recorded_swept f h f.layout.sym.size)
    rw [hlen] at hnarrow
    rw [hk]
    refine Iff.trans (Wp.congr fun _ g => iff_false_intro ?_) hnarrow
    rintro ⟨t, mem, -, -, hheld⟩
    exact (symbolsHeld_wide hl hexact hheld).elim hempty hle

theorem symbol_tables_iff (hl : f.layout = elf32 ∨ f.layout = elf64)
    (ht : h.type = shtSymtab ∨ h.type = shtDynsym) :
    (ReadHeld f h ↔ EntriesMeet f h (EntriesWide f h)) ∧
      (FillHeld f h ↔ EntriesMeet f h (NamesAnswered f h)) :=
  ⟨readHeld_iff hl ht, fillHeld_iff hl⟩

-- The only section is a symbol table of 16 bytes, which are the first ones of the file.
def loneSymbols (entsize : UInt8) : Stream where
  bytes := [0x7f, 0x45, 0x4c, 0x46, 1, 1, 1, 0, 0, 0, 0, 0, 0, 0, 0, 0] ++
    [2, 0, 3, 0, 1, 0, 0, 0, 0, 0, 0, 0, 0, 0, 0, 0, 52, 0, 0, 0, 0, 0, 0, 0, 52, 0, 32, 0, 0, 0,
      40, 0, 1, 0, 0, 0] ++
    [0, 0, 0, 0, 2, 0, 0, 0, 0, 0, 0, 0, 0, 0, 0, 0, 0, 0, 0, 0, 16, 0, 0, 0, 0, 0, 0, 0,
      0, 0, 0, 0, 0, 0, 0, 0, entsize, 0, 0, 0]

def symbolsFile (entsize : UInt8) : File :=
  File.blank elf32 .little "symbols" (loneSymbols entsize) fun _ => 0

theorem symbol_tables_one : ∃ f g h, construct.run (symbolsFile 16) = (.ok (), f) ∧
    initSections.run f = (.ok (), g) ∧ g.shdr 0 = .ok h ∧
      (ReadHeld g h ↔ EntriesMeet g h (EntriesWide g h)) ∧
        (FillHeld g h ↔ EntriesMeet g h (NamesAnswered g h)) :=
  ⟨_, _, _, rfl, rfl, rfl, symbol_tables_iff (.inl rfl) (.inl rfl)⟩

-- Entries of no bytes are divided by, entries of 8 bytes overlap and end behind the table.
theorem symbol_tables_overrun :
    (∃ f g h, construct.run (symbolsFile 0) = (.ok (), f) ∧ initSections.run f = (.ok (), g) ∧
      g.shdr 0 = .ok h ∧ h.type = shtSymtab ∧ ¬ ReadHeld g h ∧ ¬ FillHeld g h) ∧
    ∃ f g h, construct.run (symbolsFile 8) = (.ok (), f) ∧ initSections.run f = (.ok (), g) ∧
      g.shdr 0 = .ok h ∧ h.type = shtSymtab ∧ ¬ ReadHeld g h ∧ ¬ FillHeld g h := by
  refine ⟨⟨_, _, _, rfl, rfl, rfl, rfl, ?_, ?_⟩, ⟨_, _, _, rfl, rfl, rfl, rfl, ?_, ?_⟩⟩
  · exact fun h => not_refusal_fault .division h
  · exact fun h => not_refusal_fault .division h
  · exact fun h => not_refusal_fault .bounds h
  · exact fun h => not_refusal_fault .bounds h

end

end Gelpp.Elf
