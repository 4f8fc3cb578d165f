import Gelpp.Elf.DynsRange
import Gelpp.Elf.Remember

namespace Gelpp.Elf

open FileM Effect

namespace FileM

def countSections : FileM Nat := do
  let sects ← sections
  return sects.length

def findFrom (name : List UInt8) : Nat → List Section → FileM (Option Nat)
  | _, [] => return none
  | i, s :: sects => do
    let f ← get
    let h ← lift (f.shdr s.ptr)
    let text ← FileM.name h
    if text = name then return some i else findFrom name (i + 1) sects

def findSection (name : List UInt8) : FileM (Option Nat) := do
  let sects ← sections
  findFrom name 0 sects

end FileM

def dynamicFrom (f : File) : Nat → List Section → Res (Option Nat)
  | _, [] => .ok none
  | i, s :: sects => do
    let h ← f.shdr s.ptr
    if h.type = shtDynamic then return some i else dynamicFrom f (i + 1) sects

-- The sections are taken as they are, loaded or not.
def FileM.dyns : FileM (DynIter × DynIter) := do
  let f ← get
  match ← lift (dynamicFrom f 0 f.sects) with
  | some i => dynsOf i
  | none => fault .assertion

inductive Request where
  | call (c : Call)
  | countSections
  | findSection (name : List UInt8)
  | stringAt (offset : Nat) (sect : Int)
  | dyns
  deriving DecidableEq

inductive Reply where
  | value (v : Value)
  | count (n : Nat)
  | found (i : Option Nat)
  | text (t : List UInt8)
  | range (r : DynIter × DynIter)

def serve : Request → FileM Reply
  | .call c => do return .value (← answer c)
  | .countSections => do return .count (← countSections)
  | .findSection name => do return .found (← findSection name)
  | .stringAt offset sect => do return .text (← stringAt offset sect)
  | .dyns => do return .range (← dyns)

def reply (r : Request) (f : File) : Res Reply := ((serve r).run f).1

def after (rs : List Request) (f : File) : File := rs.foldl (fun f r => ((serve r).run f).2) f

namespace Request

def Loading : Request → Prop
  | call .sections => True
  | call .symbols => True
  | call _ => False
  | countSections => True
  | findSection _ => True
  | stringAt _ _ => True
  | dyns => False

instance : DecidablePred Loading := fun r => by
  cases r with
  | call c => cases c <;> unfold Loading <;> infer_instance
  | _ => unfold Loading; infer_instance

end Request

section
variable {E : Tables → Tables → Prop} {b : Source} {f g : File}

theorem findFrom_twin {name : List UInt8} {l l' : List Section}
    (hl : List.Forall₂ (fun s t : Section => s.ptr = t.ptr) l l') (h : Loads E b f g) (i : Nat) :
    Twin (Loads E b) (fun _ => Loads E b) ((findFrom name i l).run f)
      ((findFrom name i l').run g) := by
  induction hl generalizing f g i with
  | nil => exact .ok h
  | cons hst _ ih =>
    rw [findFrom, findFrom, get_bind, get_bind, h.left.shdr h.leftLoaded,
      h.right.shdr h.rightLoaded, hst]
    refine Twin.bind (Twin.lift (Q := fun _ => Loads E b) (fun _ _ => h) h)
      fun sh f1 g1 h1 => ?_
    refine Twin.bind (name_twin sh f1 g1 h1) fun text f2 g2 h2 => ?_
    exact Twin.ite (fun _ => .ok h2) fun _ => ih h2 (i + 1)

theorem dynamicFrom_congr (h : Loads E b f g) {l l' : List Section}
    (hl : List.Forall₂ (fun s t : Section => s.ptr = t.ptr) l l') (i : Nat) :
    dynamicFrom f i l = dynamicFrom g i l' := by
  induction hl generalizing i with
  | nil => rfl
  | cons hst _ ih =>
    rw [dynamicFrom, dynamicFrom, h.left.shdr h.leftLoaded, h.right.shdr h.rightLoaded, hst]
    simp only [ih]

theorem fetchDyn_congr (h : f.source = g.source) : fetchDyn f = fetchDyn g := by
  have hhost : f.host = g.host := congrArg Source.host h
  have hlayout : f.layout = g.layout := congrArg Source.layout h
  have hdata : f.eiData = g.eiData := congrArg (fun b => b.h.ident.getD 5 0) h
  funext mem entry
  rw [fetchDyn, fetchDyn, hhost, hlayout, hdata]

theorem bufferOf_congr (h : f.source = g.source) : bufferOf f = bufferOf g := by
  have hhost : f.host = g.host := congrArg Source.host h
  have hdata : f.eiData = g.eiData := congrArg (fun b => b.h.ident.getD 5 0) h
  have hdecoder : f.decoder = g.decoder := by rw [File.decoder, File.decoder, hhost, hdata]
  funext content
  rw [bufferOf, bufferOf, hdecoder]

theorem dynIter_twin (h : Loads E b f g) (i : Int) (ended : Bool) :
    Twin (Loads E b) (fun _ => Loads E b) ((dynIter i ended).run f) ((dynIter i ended).run g) := by
  rw [dynIter, get_bind, get_bind]
  rcases h.at_cases i with ⟨s, t, h0, hs, ht, hptr⟩ | ⟨hf, hg⟩
  · rw [bind_of_ok (at_some h0 hs f), bind_of_ok (at_some h0 ht g), h.left.shdr h.leftLoaded,
      h.right.shdr h.rightLoaded, hptr, bufferOf_congr h.source]
    refine Twin.bind (Twin.lift (Q := fun _ => Loads E b) (fun _ _ => h) h)
      fun sh f1 g1 h1 => ?_
    refine Twin.bind (contentFor_twin 2 i f1 g1 h1) fun content f2 g2 h2 => ?_
    refine Twin.bind (Twin.lift (Q := fun _ => Loads E b) (fun _ _ => h2) h2)
      fun buf f3 g3 h3 => ?_
    have hfetch (it : DynIter) : it.fetch f = it.fetch g :=
      fetch_congr (fetchDyn_congr h.source) it
    dsimp only
    rw [hfetch]
    refine Twin.ite (fun _ => .ok h3) fun _ => ?_
    exact Twin.lift (fun _ _ => h3) h3
  · rw [bind_of_error (hf f), bind_of_error (hg g)]
    exact .error h

theorem dyns_twin (h : Loads E b f g) :
    Twin (Loads E b) (fun _ => Loads E b) (dyns.run f) (dyns.run g) := by
  rw [dyns, get_bind, get_bind, dynamicFrom_congr h h.sects]
  refine Twin.bind (Twin.lift (Q := fun _ => Loads E b) (fun _ _ => h) h)
    fun o f1 g1 h1 => ?_
  cases o with
  | none => exact .error h1
  | some i =>
    refine Twin.bind (dynIter_twin h1 i false) fun first f2 g2 h2 => ?_
    exact Twin.bind (dynIter_twin h2 i true) fun last f3 g3 h3 => .ok h3

def Request.Sectional : Request → Prop
  | .call .sections => True
  | .call _ => False
  | _ => True

theorem sectional_twin {r : Request} (hr : r.Sectional) (h : Loads E b f g) :
    Twin (Loads E b) (fun _ => Loads E b) ((serve r).run f) ((serve r).run g) := by
  have hreturn {α : Type} {k : α → Reply} (a : α) (f' g' : File) (h' : Loads E b f' g') :
      Twin (Loads E b) (fun _ => Loads E b) ((pure (k a) : FileM Reply).run f')
        ((pure (k a) : FileM Reply).run g') := .ok h'
  cases r with
  | call c =>
    cases c with
    | sections =>
      have hsections : Twin (Loads E b) (fun _ => Loads E b) ((answer .sections).run f)
          ((answer .sections).run g) := by
        rw [answer, sections_loaded _ h.leftLoaded, sections_loaded _ h.rightLoaded, get_bind,
          get_bind, sections_values h.left h.leftLoaded, sections_values h.right h.rightLoaded]
        exact .ok h
      exact Twin.bind hsections hreturn
    | _ => exact hr.elim
  | countSections =>
    have hcount : Twin (Loads E b) (fun _ => Loads E b) (countSections.run f)
        (countSections.run g) := by
      rw [countSections, sections_loaded _ h.leftLoaded, sections_loaded _ h.rightLoaded, h.length]
      exact .ok h
    exact Twin.bind hcount hreturn
  | findSection name =>
    have hfind : Twin (Loads E b) (fun _ => Loads E b) ((findSection name).run f)
        ((findSection name).run g) := by
      rw [findSection, sections_loaded _ h.leftLoaded, sections_loaded _ h.rightLoaded]
      exact findFrom_twin h.sects h 0
    exact Twin.bind hfind hreturn
  | stringAt offset sect => exact Twin.bind (stringAt_twin offset sect f g h) hreturn
  | dyns => exact Twin.bind (dyns_twin h) hreturn

theorem bind_congr {α β : Type} {m : FileM α} (h : m.run f = m.run g) (k : α → FileM β) :
    (m >>= k).run f = (m >>= k).run g := by
  cases hm : m.run f with
  | mk r f' =>
    rw [hm] at h
    cases r with
    | ok a => rw [bind_of_ok hm, bind_of_ok h.symm]
    | error e => rw [bind_of_error hm, bind_of_error h.symm]

theorem sections_first {α : Type} {f1 : File} (hinit : initSections.run f = (.ok (), f1))
    (hl : f1.sectsLoaded = true) (k : List Section → FileM α) :
    (sections >>= k).run f = (sections >>= k).run f1 := by
  rw [sections_loaded k hl, sections_bind, bind_of_ok hinit, get_bind]

theorem serve_first {f1 : File} (hinit : initSections.run f = (.ok (), f1))
    (hl : f1.sectsLoaded = true) {r : Request} (hr : r.Sectional) (hne : r ≠ .dyns) :
    (serve r).run f = (serve r).run f1 := by
  cases r with
  | call c =>
    cases c with
    | sections => exact bind_congr (sections_first hinit hl _) _
    | _ => exact hr.elim
  | countSections => exact bind_congr (sections_first hinit hl _) _
  | findSection name => exact bind_congr (sections_first hinit hl _) _
  | stringAt offset sect => exact bind_congr (sections_first hinit hl _) _
  | dyns => exact absurd rfl hne

end

end Gelpp.Elf
