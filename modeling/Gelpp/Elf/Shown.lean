import Gelpp.Elf.Classes
import Gelpp.Library.Printing

namespace Gelpp.Elf

open FileM Effect

namespace FileM

def shdrAt (i : Nat) : FileM Shdr := do
  let f ← get
  let s ← at_ f.sects i
  lift (f.shdr s.ptr)

def sectionName (i : Nat) : FileM (List UInt8) := do
  let h ← shdrAt i
  name h

end FileM

structure Shown {b : Source} (k : Tabled b) (f : File) : Prop extends Settled k f where
  loaded : f.sectsLoaded = true

theorem forall₂_range {α : Type} (l : List α) :
    List.Forall₂ (fun i a => l[i]? = some a) (List.range l.length) l := by
  rw [List.forall₂_iff_get]
  refine ⟨List.length_range, fun i hi hi' => ?_⟩
  rw [List.get_eq_getElem, List.getElem_range]
  exact List.getElem?_eq_getElem hi'

section
variable {b : Source} {k : Tabled b} {d : Description} {p : Places} {f f' : File} {i : Nat} {s : SectionDesc}

theorem Shown.sectioned (h : Shown k f) : Sectioned b f := ⟨h.coherent, h.calm, h.loaded⟩

theorem Shown.kin (h : Shown k f) (hkin : Kin b f f') : Shown k f' := ⟨h.toSettled.kin hkin, hkin.loaded⟩

theorem shown_gives {α : Type} {m : FileM α} {r : Res α}
    (h : ∀ f, Sectioned b f → ∃ f', m.run f = (r, f') ∧ Kin b f f') : Gives (Shown k) m r := by
  intro f hf
  obtain ⟨f', hrun, hkin⟩ := h f hf.sectioned
  exact ⟨f', hrun, hf.kin hkin⟩

theorem Sectioned.header_run (h : Depicted b d p) (hr : Sectioned b f) (hs : d.sections[i]? = some s) :
    (shdrAt i).run f = (.ok (s.header b.layout (p.content i)), f) := by
  obtain ⟨sec, hsec, hshdr⟩ := hr.shdr h hs
  rw [shdrAt, get_bind, bind_of_ok (at_some (Int.natCast_nonneg i) hsec f), hshdr]
  rfl

theorem shdrAt_gives (h : Depicted b d p) (hs : d.sections[i]? = some s) :
    Gives (Shown k) (shdrAt i) (.ok (s.header b.layout (p.content i))) :=
  shown_gives fun f hr => ⟨f, hr.header_run h hs, hr.kin⟩

theorem sectionName_gives (h : Depicted b d p) (hs : d.sections[i]? = some s) :
    Gives (Shown k) (sectionName i) (.ok (d.text d.shstrndx s.name)) :=
  shown_gives fun f hr => by
    obtain ⟨f', hname, hkin⟩ := name_read h hr hs
    refine ⟨f', ?_, hkin⟩
    rw [sectionName, bind_of_ok (hr.header_run h hs), hname]

theorem text_gives (h : Depicted b d p) {sect off : Nat} (ht : HasText d.sections sect off) :
    Gives (Shown k) (stringAt off (sect : Int)) (.ok (d.text sect off)) :=
  shown_gives fun _ hr => text_read h hr ht

theorem countSections_first (h : Depicted b d p) (hs : Settled k f) :
    ∃ g, countSections.run f = (.ok d.sections.length, g) ∧ Shown k g := by
  obtain ⟨g, hinit, hg, hl⟩ := initSections_settled hs
  have hr : Sectioned b g := ⟨hg.coherent, hg.calm, hl⟩
  refine ⟨g, ?_, hg, hl⟩
  rw [countSections, sections_bind, bind_of_ok hinit, get_bind, hr.length, h.shnum]
  rfl

theorem countSections_gives (h : Depicted b d p) : Gives (Shown k) countSections (.ok d.sections.length) := by
  intro f hf
  refine ⟨f, ?_, hf⟩
  rw [countSections, sections_loaded _ hf.loaded, hf.sectioned.length, h.shnum]
  rfl

end

end Gelpp.Elf
