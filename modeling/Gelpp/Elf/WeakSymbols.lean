import Gelpp.Elf.SymbolMap

namespace Gelpp.Elf

open FileM Effect

section
variable (es : List (List UInt8 × Sym)) (n : List UInt8)

def HasBind (k : SymbolBind) : Prop := ∃ y, (n, y) ∈ es ∧ y.bind = k

def LastOf (y : Sym) : Prop :=
  ∃ before after, es = before ++ (n, y) :: after ∧ ∀ x ∈ after, x.1 ≠ n

def WeakHidden (f : File) (t : SymbolTable) : Prop :=
  ∀ n, HasBind es n .weak → HasBind es n .global →
    ∃ s r, t.get n = some s ∧ f.report t s = .ok r ∧ r.bind ≠ .weak

def WeakEarlier : Prop :=
  ∀ n, HasBind es n .weak → HasBind es n .global → ∀ y, LastOf es n y → y.bind ≠ .weak

end

section
variable {b : Source} {f : File} {t : SymbolTable} {es : List (List UInt8 × Sym)} {n : List UInt8}

theorem find_last {x : List UInt8 × Sym} (h : es.reverse.find? (fun x => x.1 == n) = some x) :
    x.1 = n ∧ LastOf es n x.2 := by
  obtain ⟨hname, after, before, hsplit, hafter⟩ := List.find?_eq_some_iff_append.mp h
  have hn : x.1 = n := by simpa using hname
  refine ⟨hn, before.reverse, after.reverse, ?_, fun z hz => ?_⟩
  · have hreverse := congrArg List.reverse hsplit
    rw [List.reverse_reverse, List.reverse_append, List.reverse_cons, List.append_assoc] at hreverse
    rw [hreverse, ← hn]
    rfl
  · simpa using hafter z (List.mem_reverse.mp hz)

theorem LastOf.unique {y z : Sym} (hy : LastOf es n y)
    (hz : es.reverse.find? (fun x => x.1 == n) = some (n, z)) : y = z := by
  obtain ⟨before, after, rfl, hafter⟩ := hy
  have hnone : after.reverse.find? (fun x => x.1 == n) = none := by
    rw [List.find?_eq_none]
    intro x hx
    simpa using hafter x (List.mem_reverse.mp hx)
  rw [List.reverse_append, List.reverse_cons, List.append_assoc, List.find?_append, hnone,
    Option.none_or, List.singleton_append, List.find?_cons_of_pos (by simp)] at hz
  cases hz
  rfl

theorem Shows.get_last (h : Shows b t (putAll [] es)) (hf : f.source = b) {y : Sym} (hy : (n, y) ∈ es) :
    ∃ s z, t.get n = some s ∧ f.report t s = .ok z.report ∧ LastOf es n z ∧
      ∀ w, LastOf es n w → w = z := by
  cases hx : es.reverse.find? (fun x => x.1 == n) with
  | none =>
    rw [List.find?_eq_none] at hx
    exact absurd (hx _ (List.mem_reverse.mpr hy)) (by simp)
  | some x =>
    obtain ⟨hname, hlast⟩ := find_last hx
    obtain ⟨s, hs, hreport⟩ := h.get_some (hx ▸ putAll_last es n) hf
    refine ⟨s, x.2, hs, hreport, hlast, fun w hw => hw.unique ?_⟩
    rw [hx, ← hname]

theorem Shows.weak_iff (h : Shows b t (putAll [] es)) (hf : f.source = b) :
    WeakHidden es f t ↔ WeakEarlier es := by
  constructor
  · intro hhidden n hweak hglobal y hy
    obtain ⟨s, r, hs, hr, hne⟩ := hhidden n hweak hglobal
    obtain ⟨w, hw, -⟩ := hweak
    obtain ⟨s', z, hs', hz, -, hunique⟩ := h.get_last hf hw
    rw [hs] at hs'
    cases hs'
    rw [hr] at hz
    cases hz
    rw [hunique y hy]
    exact hne
  · intro hlast n hweak hglobal
    have hbefore := hlast n hweak hglobal
    obtain ⟨w, hw, -⟩ := hweak
    obtain ⟨s, z, hs, hz, hzlast, -⟩ := h.get_last hf hw
    exact ⟨s, z.report, hs, hz, hbefore z hzlast⟩

end

theorem weak_hidden_iff {l : Layout} (hl : l = elf32 ∨ l = elf64) {host : ByteOrder} {path : String}
    {stream : Stream} {junk : Nat → UInt8} (hc : stream.fails = fun _ => false) {f : File}
    (hopen : construct.run (File.blank l host path stream junk) = (.ok (), f))
    {ess : List (List (List UInt8 × Sym))} (h : Recorded f.source ess) :
    ∃ t f', symbols.run f = (.ok t, f') ∧
      (WeakHidden ess.flatten f' t ↔ WeakEarlier ess.flatten) := by
  obtain ⟨t, f', hrun, hsource, hshows⟩ := h.symbols hl hc hopen
  exact ⟨t, f', hrun, hshows.weak_iff hsource⟩

theorem pairFile_recorded : Recorded (construct.run pairFile).2.source pairEntries :=
  (legible_little (.inl rfl) rfl pairFile_opened pairSymbols_file pairSymbols_near).recorded

theorem weak_hidden_pair : ∃ f t f', construct.run pairFile = (.ok (), f) ∧
    symbols.run f = (.ok t, f') ∧
      (WeakHidden pairEntries.flatten f' t ↔ WeakEarlier pairEntries.flatten) := by
  obtain ⟨t, f', h⟩ := weak_hidden_iff (.inl rfl) rfl pairFile_opened pairFile_recorded
  exact ⟨_, t, f', pairFile_opened, h⟩

-- The WEAK entry replaces the GLOBAL one.
theorem weak_found : ∃ f t f', construct.run pairFile = (.ok (), f) ∧
    symbols.run f = (.ok t, f') ∧
      SymbolFile (dataOrder (pairSymbols.bytes.getD 5 0)) pairSymbols.bytes elf32 pairEntries ∧
        ¬ WeakHidden pairEntries.flatten f' t := by
  obtain ⟨t, f', hrun, hsource, hshows⟩ := pairFile_recorded.symbols (.inl rfl) rfl pairFile_opened
  refine ⟨_, t, f', pairFile_opened, hrun, pairSymbols_file, fun h => ?_⟩
  have hglobal : HasBind pairEntries.flatten [97] .global := ⟨_, .head _, rfl⟩
  have hweak : HasBind pairEntries.flatten [97] .weak := ⟨_, .tail _ (.head _), rfl⟩
  have hlast : LastOf pairEntries.flatten [97] { name := 1, value := 8, size := 9, info := 34, shndx := 1 } :=
    ⟨pairEntries.flatten.take 1, [], rfl, nofun⟩
  exact (hshows.weak_iff hsource).mp h [97] hweak hglobal _ hlast rfl

end Gelpp.Elf
