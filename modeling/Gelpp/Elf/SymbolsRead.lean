import Gelpp.Elf.Entries

namespace Gelpp.Elf

open FileM Effect

section
variable {b : Source} {d : Description} {p : Places} {f : File}

def Description.entries (d : Description) (s : SectionDesc) : List (List UInt8 × Sym) :=
  match s.body with
  | .symbols syms => syms.map fun y => (d.text s.link y.name, y)
  | _ => []

theorem symbols_entries (d : Description) :
    d.symbols = putAll [] (d.sections.map d.entries).flatten := by
  rw [Description.symbols, putAll, List.foldl_flatten, List.foldl_map]
  congr 1
  funext acc s
  rw [Description.recordAll, Description.entries]
  cases s.body with
  | symbols syms =>
    dsimp only
    rw [List.foldl_map]
  | bits content entsize => rfl
  | nobits size entsize => rfl
  | dynamic dyns => rfl

theorem Depicted.entriesIn (h : Depicted b d p) {i : Nat} {s : SectionDesc} {syms : List Sym}
    (hs : d.sections[i]? = some s) (hb : s.body = .symbols syms) :
    EntriesIn b (cell b.bytes (p.content i) (syms.length * b.layout.sym.size)) s.link
      (syms.map fun y => (d.text s.link y.name, y)) := by
  have hat := h.encodes.bodies i s hs
  rw [hb] at hat
  obtain ⟨hin, hsyms⟩ := hat
  constructor
  · rw [cell_length hin, List.length_map]
  · intro j x hx
    rw [List.getElem?_map] at hx
    obtain ⟨y, hy, rfl⟩ := Option.map_eq_some_iff.mp hx
    have hrow := row_le j syms.length b.layout.sym.size (List.getElem?_eq_some_iff.mp hy).1
    exact (hsyms j y hy).cell h.layout hin hrow
  · intro x hx
    obtain ⟨y, hy, rfl⟩ := List.mem_map.mp hx
    exact h.hasName (d.symbolNames s (List.mem_of_getElem? hs) syms hb y hy)

theorem Depicted.tabulated (h : Depicted b d p) {i : Nat} {s : SectionDesc} {syms : List Sym}
    (hs : d.sections[i]? = some s) (hb : s.body = .symbols syms) :
    Tabulated b (s.header b.layout (p.content i)) (syms.map fun y => (d.text s.link y.name, y)) := by
  have hat := h.encodes.bodies i s hs
  rw [hb] at hat
  have hsize : s.body.size b.layout = syms.length * b.layout.sym.size := by rw [hb]; rfl
  have hentsize : s.body.entsize b.layout = b.layout.sym.size := by rw [hb]; rfl
  have hraw := h.raw hs (hsize ▸ hat.1)
  refine ⟨⟨_, hraw, ?_⟩, ?_, hentsize, fun hne => ?_⟩
  · rw [hsize]
    exact h.entriesIn hs hb
  · rw [List.length_map]
    exact hsize
  · obtain ⟨y, hy⟩ := List.exists_mem_of_ne_nil syms fun hnil => hne (by rw [hnil]; rfl)
    obtain ⟨z, -, -, hz, -⟩ := d.symbolNames s (List.mem_of_getElem? hs) syms hb y hy
    have hlink := (List.getElem?_eq_some_iff.mp hz).1
    have hlt := d.sections_lt
    change s.link < 2 ^ 31
    omega

theorem Depicted.sectionEntries (h : Depicted b d p) {i : Nat} {s : SectionDesc}
    (hs : d.sections[i]? = some s) : SectionEntries b (i * b.layout.shdr.size) (d.entries s) := by
  have hof := d.bodies s (List.mem_of_getElem? hs)
  refine ⟨_, h.shdr hs, ?_⟩
  have htype : (s.header b.layout (p.content i)).type = s.type := rfl
  rw [htype, Description.entries]
  cases hb : s.body with
  | bits content entsize =>
    rw [hb] at hof
    exact (if_neg fun ht => ht.elim hof.1 hof.2.1).mpr rfl
  | nobits size entsize =>
    rw [hb] at hof
    rw [show s.type = shtNobits from hof]
    exact (if_neg (by decide)).mpr rfl
  | symbols syms =>
    rw [hb] at hof
    rw [if_pos (show s.type = shtSymtab ∨ s.type = shtDynsym from hof)]
    exact h.tabulated hs hb
  | dynamic dyns =>
    rw [hb] at hof
    rw [show s.type = shtDynamic from hof]
    exact (if_neg (by decide)).mpr rfl

theorem symbols_described (h : Depicted b d p) (hfresh : Fresh f) (hc : f.Calm)
    (hsource : f.source = b) : ∃ t f', symbols.run f = (.ok t, f') ∧ Shows b t d.symbols := by
  obtain ⟨mem, htable, -⟩ := h.sectionTable
  have hall : List.Forall₂ (SectionEntries b) b.sectionPtrs (d.sections.map d.entries) := by
    rw [List.forall₂_map_right_iff, Source.sectionPtrs, List.forall₂_map_left_iff, h.shentsize,
      List.forall₂_iff_get]
    refine ⟨by rw [List.length_range, h.shnum], fun i hi hi' => ?_⟩
    rw [List.get_eq_getElem, List.getElem_range]
    exact h.sectionEntries (List.getElem?_eq_getElem hi')
  obtain ⟨t, f', hrun, -, hshows⟩ := symbols_recorded h.layout hfresh hc hsource htable hall
  rw [symbols_entries]
  exact ⟨t, f', hrun, hshows⟩

end

end Gelpp.Elf
