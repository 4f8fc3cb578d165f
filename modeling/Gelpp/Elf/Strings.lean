import Gelpp.Elf.DynsRange
import Gelpp.Elf.Remember
import Gelpp.Library.Weakest

namespace Gelpp.Elf

open FileM Effect

def Refusal (e : Stop) : Prop := ∃ m, e = .exception m

@[simp] theorem refusal_exception (m : String) : Refusal (.exception m) := ⟨m, rfl⟩

@[simp] theorem not_refusal_fault (k : Fault) : ¬ Refusal (.fault k) := nofun

@[simp] theorem not_refusal_badAlloc : ¬ Refusal .badAlloc := nofun

@[simp] theorem not_refusal_steps : ¬ Refusal .steps := nofun

section
variable {host : ByteOrder} {eiData : UInt8} {mem : List UInt8}

theorem loadAt_faults (base : Nat) (s : Slot) :
    Meets (¬ Refusal ·) (fun _ => True) (loadAt host mem base s) :=
  Meets.ite (fun _ => trivial) fun _ => not_refusal_fault .bounds

theorem fixAt_faults (base : Nat) (s : Slot) :
    Meets (¬ Refusal ·) (fun _ => True) (fixAt host eiData base mem s) :=
  (loadAt_faults base s).bind fun _ _ => trivial

theorem fixTable_faults (slots : List Slot) (entsize count : Nat) :
    Meets (¬ Refusal ·) (fun _ => True) (fixTable host eiData slots entsize count mem) := by
  refine Meets.foldlM (fun _ => True) (fun m i _ => ?_) trivial
  exact Meets.foldlM (fun _ => True) (fun m s _ => fixAt_faults _ s) trivial

theorem shdr_faults (f : File) (ptr : Nat) :
    Meets (¬ Refusal ·) (fun _ => True) (f.shdr ptr) := by
  let l := f.layout.shdr
  refine (loadAt_faults ptr l.name).bind fun _ _ => ?_
  refine (loadAt_faults ptr l.type).bind fun _ _ => ?_
  refine (loadAt_faults ptr l.flags).bind fun _ _ => ?_
  refine (loadAt_faults ptr l.addr).bind fun _ _ => ?_
  refine (loadAt_faults ptr l.offset).bind fun _ _ => ?_
  refine (loadAt_faults ptr l.bytes).bind fun _ _ => ?_
  refine (loadAt_faults ptr l.link).bind fun _ _ => ?_
  refine (loadAt_faults ptr l.info).bind fun _ _ => ?_
  refine (loadAt_faults ptr l.addralign).bind fun _ _ => ?_
  exact (loadAt_faults ptr l.entsize).bind fun _ _ => trivial

theorem product_faults (m n : Nat) : Meets (¬ Refusal ·) (fun _ => True) (product m n) :=
  Meets.ite (fun _ => trivial) fun _ => not_refusal_fault .overflow

end

section
variable {buf : List UInt8} {offset : Nat}

theorem cstringAt_ended (h : (0 : UInt8) ∈ buf.drop offset) :
    ∃ text rest, cstringAt buf offset = .ok text ∧ 0 ∉ text ∧ buf.drop offset = text ++ 0 :: rest := by
  have hlt : offset < buf.length := by
    by_contra hge
    rw [List.drop_of_length_le (Nat.le_of_not_lt hge)] at h
    cases h
  obtain ⟨text, rest, heq, hnot⟩ := List.eq_append_cons_of_mem h
  have htake : (buf.drop offset).takeWhile (· ≠ 0) = text := by
    have hall : ∀ a ∈ text, decide (a ≠ 0) = true := by
      intro a ha
      rw [decide_eq_true_eq]
      rintro rfl
      exact hnot ha
    rw [heq, List.takeWhile_append_of_pos hall]
    simp
  have hlen := congrArg List.length heq
  rw [List.length_drop, List.length_append, List.length_cons] at hlen
  refine ⟨text, rest, ?_, hnot, heq⟩
  rw [cstringAt, if_pos hlt, htake]
  exact if_pos (by omega)

theorem cstringAt_endless (h : (0 : UInt8) ∉ buf.drop offset) :
    Meets (¬ Refusal ·) (fun _ => False) (cstringAt buf offset) := by
  rw [cstringAt]
  refine Meets.ite (fun hlt => ?_) fun _ => not_refusal_fault .assertion
  have htake : (buf.drop offset).takeWhile (· ≠ 0) = buf.drop offset := by
    rw [List.takeWhile_eq_self_iff]
    intro a ha
    rw [decide_eq_true_eq]
    rintro rfl
    exact h ha
  rw [htake]
  refine Meets.ite (fun hin => ?_) fun _ => not_refusal_fault .bounds
  rw [List.length_drop] at hin
  omega

end

section
variable {f : File}

def Short (f : File) (pos size : Nat) : Prop :=
  Serves f → (streamBytes f pos size).length < size % 2 ^ 32

def taken (f : File) (pos size : Nat) (buf : List UInt8) : List UInt8 :=
  streamBytes f pos size ++ buf.drop (size % 2 ^ 32)

theorem readAt_wp {pos size : Nat} {buf : List UInt8} (hlen : buf.length = size)
    {P : List UInt8 → File → Prop} :
    Wp Refusal (readAt pos size buf) P f ↔
      Short f pos size ∨ P (taken f pos size buf) (consulted f pos size) := by
  by_cases hs : Serves f
  · have hle := streamBytes_length_le f pos size
    have hmod := Nat.mod_le size (2 ^ 32)
    have hrun := readAt_served hs pos size buf
    rw [if_neg (by omega)] at hrun
    by_cases hcut : (streamBytes f pos size).length = size % 2 ^ 32
    · rw [if_neg (not_not_intro hcut), hcut] at hrun
      have hshort : ¬ Short f pos size := fun h => by
        have hlt := h hs
        omega
      rw [Wp.of_ok hrun]
      exact (or_iff_right hshort).symm
    · rw [if_pos hcut] at hrun
      have hshort : Short f pos size := fun _ => by omega
      rw [Wp.of_error hrun]
      simp [hshort]
  · obtain ⟨m, hrun⟩ := readAt_unserved hs pos size buf
    have hshort : Short f pos size := fun h => absurd h hs
    rw [Wp.of_error hrun]
    simp [hshort]

theorem readAll_wp {pos size : Nat} {P : List UInt8 → File → Prop} :
    Wp Refusal (readAll pos size) P f ↔ size < 2 ^ 63 ∧
      (Short f pos size ∨ P (taken f pos size (fresh f size)) (consulted f pos size)) := by
  rw [readAll, Wp.bind]
  by_cases hlt : size < 2 ^ 63
  · rw [Wp.of_ok ((alloc_run f size).trans (if_pos hlt)), readAt_wp (fresh_length f size)]
    exact (and_iff_right hlt).symm
  · rw [Wp.of_error ((alloc_run f size).trans (if_neg hlt))]
    exact ⟨fun h => absurd h not_refusal_badAlloc, fun h => absurd h.1 hlt⟩

theorem loadSections_wp {P : File → Prop} :
    Wp Refusal loadSections (fun _ => P) f ↔
      ∃ size, product f.h.shentsize f.h.shnum = .ok size ∧ (Short f f.h.shoff size ∨
        ∃ mem, fixTable f.host f.eiData f.layout.shdr.fixes f.h.shentsize f.h.shnum
          (taken f f.h.shoff size (.replicate size 0)) = .ok mem ∧
          P { consulted f f.h.shoff size with
            secBuf := mem
            sects := (List.range f.h.shnum).map fun i => { ptr := i * f.h.shentsize } }) := by
  rw [loadSections, Wp.bind, Wp.get, Wp.bind, Wp.lift fun e he => (product_faults _ _).of_error he]
  refine exists_congr fun size => and_congr_right fun hsize => ?_
  have hlt := product_lt hsize
  rw [Wp.bind, Wp.of_ok ((alloc_run f size).trans (if_pos (by omega))), Wp.bind,
    readAt_wp List.length_replicate]
  refine or_congr_right ?_
  rw [Wp.bind, Wp.lift fun e he => (fixTable_faults _ _ _).of_error he]
  exact exists_congr fun mem => and_congr_right fun _ => Iff.rfl

def Listed (f : File) (P : File → Prop) : Prop :=
  if f.sectsLoaded then P f
  else ∃ size, product f.h.shentsize f.h.shnum = .ok size ∧
    (Short f f.h.shoff size ∨ ∃ mem,
      fixTable f.host f.eiData f.layout.shdr.fixes f.h.shentsize f.h.shnum
        (taken f f.h.shoff size (.replicate size 0)) = .ok mem ∧
      P { consulted f f.h.shoff size with
        secBuf := mem
        sects := (List.range f.h.shnum).map fun i => { ptr := i * f.h.shentsize }
        sectsLoaded := true })

theorem initSections_wp {P : File → Prop} :
    Wp Refusal initSections (fun _ => P) f ↔ Listed f P := by
  rw [initSections, Wp.bind, Wp.get, Listed]
  cases hl : f.sectsLoaded with
  | true => rfl
  | false =>
    simp only [Bool.false_eq_true, if_false]
    rw [Wp.bind, loadSections_wp]
    rfl

-- The section is refused, or its bytes meet `P`. Symbols with garbage behind them are refused once
-- the section is named.
def Yields (f : File) (named : Prop) (h : Shdr) (P : List UInt8 → Prop) : Prop :=
  h.size < 2 ^ 63 ∧ (Short f h.offset h.size ∨
    if h.type = shtSymtab ∨ h.type = shtDynsym then
      h.entsize ≠ 0 ∧
        if h.size / h.entsize * h.entsize ≠ h.size then named
        else ∃ buf, fixTable f.host f.eiData f.layout.sym.fixes h.entsize (h.size / h.entsize)
          (taken f h.offset h.size (fresh f h.size)) = .ok buf ∧ P buf
    else P (taken f h.offset h.size (fresh f h.size)))

theorem Yields.congr {named : Prop} {h : Shdr} {P Q : List UInt8 → Prop} (hPQ : ∀ buf, P buf ↔ Q buf) :
    Yields f named h P ↔ Yields f named h Q := by
  simp only [Yields, hPQ]

theorem entries_wp {name : FileM (List UInt8)} {named : Prop} {h : Shdr}
    (hname : Wp Refusal name (fun _ _ => True) f ↔ named) {P : Nat → File → Prop} :
    Wp Refusal (entries name h) P f ↔ h.entsize ≠ 0 ∧
      if h.size / h.entsize * h.entsize ≠ h.size then named else P (h.size / h.entsize) f := by
  rw [entries, Wp.ite]
  by_cases h0 : h.entsize = 0
  · rw [if_pos h0]
    exact ⟨fun hf => absurd hf (not_refusal_fault _), fun hf => absurd h0 hf.1⟩
  · rw [if_neg h0, and_iff_right h0, Wp.ite]
    by_cases hgarbage : h.size / h.entsize * h.entsize ≠ h.size
    · rw [if_pos hgarbage, if_pos hgarbage, Wp.bind, ← hname]
      exact Wp.congr fun text g => iff_of_true (refusal_exception _) trivial
    · rw [if_neg hgarbage, if_neg hgarbage, Wp.pure]

theorem readSection_wp {name : FileM (List UInt8)} {named : Prop} {h : Shdr}
    (hname : Wp Refusal name (fun _ _ => True) (consulted f h.offset h.size) ↔ named)
    {P : List UInt8 → File → Prop} :
    Wp Refusal (readSection name h) P f ↔ Yields f named h fun buf =>
      P buf (consulted f h.offset h.size) := by
  rw [readSection, Wp.bind, readAll_wp, Yields]
  refine and_congr_right fun _ => or_congr_right ?_
  rw [Wp.ite]
  by_cases ht : h.type = shtSymtab ∨ h.type = shtDynsym
  · rw [if_pos ht, if_pos ht, Wp.bind, entries_wp hname]
    refine and_congr_right fun _ => ?_
    by_cases hgarbage : h.size / h.entsize * h.entsize ≠ h.size
    · rw [if_pos hgarbage, if_pos hgarbage]
    · rw [if_neg hgarbage, if_neg hgarbage, Wp.bind, Wp.get]
      exact Wp.lift fun e he => (fixTable_faults _ _ _).of_error he
  · rw [if_neg ht, if_neg ht]
    rfl

def Spelled : Nat → Nat → Int → File → Prop
  | 0, _, sect, f => (f.sects.length : Int) ≤ sect
  | n + 1, offset, sect, f => (f.sects.length : Int) ≤ sect ∨ 0 ≤ sect ∧
    ∃ s, f.sects[sect.toNat]? = some s ∧
      match s.buf with
      | some buf => 0 ∈ buf.drop offset
      | none => ∃ h, f.shdr s.ptr = .ok h ∧
        Yields f (Spelled n h.name f.h.shstrndx (consulted f h.offset h.size)) h fun buf =>
          0 ∈ buf.drop offset

def Inside (offset : Nat) (sect : Int) (text : List UInt8) (f : File) : Prop :=
  0 ∉ text ∧ 0 ≤ sect ∧ ∃ s buf rest, f.sects[sect.toNat]? = some s ∧ s.buf = some buf ∧
    buf.drop offset = text ++ 0 :: rest

theorem content_wp {n : Nat} {i : Int} {P : List UInt8 → File → Prop} (h0 : 0 ≤ i) {s : Section}
    (hs : f.sects[i.toNat]? = some s) {named : Shdr → Prop} (hname : ∀ h,
      Wp Refusal (stringIn (contentFor n) h.name f.h.shstrndx) (fun _ _ => True)
        (consulted f h.offset h.size) ↔ named h) :
    Wp Refusal (contentFor (n + 1) i) P f ↔
      match s.buf with
      | some buf => P buf f
      | none => ∃ h, f.shdr s.ptr = .ok h ∧ Yields f (named h) h fun buf =>
        P buf { consulted f h.offset h.size with sects := f.sects.set i.toNat { s with buf := some buf } } := by
  rw [contentFor, Wp.bind, Wp.get, Wp.bind, Wp.of_ok (at_some h0 hs f)]
  cases s.buf with
  | some buf => rfl
  | none =>
    dsimp only
    rw [Wp.bind, Wp.lift fun e he => (shdr_faults f _).of_error he]
    refine exists_congr fun h => and_congr_right fun _ => ?_
    rw [Wp.bind, readSection_wp (hname h)]
    rfl

theorem cstringAt_wp {buf : List UInt8} {offset : Nat} {P : List UInt8 → File → Prop}
    (hP : ∀ text rest, 0 ∉ text → buf.drop offset = text ++ 0 :: rest → P text f) :
    Wp Refusal (lift (cstringAt buf offset)) P f ↔ 0 ∈ buf.drop offset := by
  by_cases h : (0 : UInt8) ∈ buf.drop offset
  · obtain ⟨text, rest, hrun, hnot, heq⟩ := cstringAt_ended h
    rw [hrun, Wp.of_ok (lift_run _ _)]
    exact iff_of_true (hP text rest hnot heq) h
  · have hfault := cstringAt_endless h
    cases hrun : cstringAt buf offset with
    | ok text => exact (hfault.of_ok hrun).elim
    | error e =>
      rw [Wp.of_error (lift_run _ _)]
      exact iff_of_false (hfault.of_error hrun) h

theorem stringIn_wp {n offset : Nat} {sect : Int} {P : List UInt8 → File → Prop}
    (hl : f.sectsLoaded = true) (hP : ∀ text g, Inside offset sect text g → P text g) :
    Wp Refusal (stringIn (contentFor n) offset sect) P f ↔ Spelled n offset sect f := by
  induction n generalizing offset sect P f with
  | zero =>
    rw [stringIn, Wp.of_run (sections_loaded _ hl), Wp.ite, Spelled]
    by_cases hle : (f.sects.length : Int) ≤ sect
    · rw [if_pos hle]
      exact iff_of_true (refusal_exception _) hle
    · rw [if_neg hle, Wp.bind, contentFor, Wp.raise]
      exact iff_of_false not_refusal_steps hle
  | succ n ih =>
    rw [stringIn, Wp.of_run (sections_loaded _ hl), Wp.ite, Spelled]
    by_cases hle : (f.sects.length : Int) ≤ sect
    · rw [if_pos hle]
      exact iff_of_true (refusal_exception _) (.inl hle)
    rw [if_neg hle, or_iff_right hle, Wp.bind]
    by_cases h0 : 0 ≤ sect
    · obtain ⟨s, hs⟩ : ∃ s, f.sects[sect.toNat]? = some s :=
        ⟨_, List.getElem?_eq_getElem (by omega)⟩
      have hname (h : Shdr) : Wp Refusal (stringIn (contentFor n) h.name f.h.shstrndx)
          (fun _ _ => True) (consulted f h.offset h.size) ↔
            Spelled n h.name f.h.shstrndx (consulted f h.offset h.size) :=
        ih (f := consulted f h.offset h.size) hl fun _ _ _ => trivial
      rw [content_wp h0 hs hname, and_iff_right h0]
      simp only [hs, Option.some.injEq, exists_eq_left']
      cases hb : s.buf with
      | some buf =>
        refine cstringAt_wp fun text rest hnot heq => hP text f ?_
        exact ⟨hnot, h0, s, buf, rest, hs, hb, heq⟩
      | none =>
        refine exists_congr fun h => and_congr_right fun _ => ?_
        refine Yields.congr fun buf => cstringAt_wp fun text rest hnot heq => hP text _ ?_
        exact ⟨hnot, h0, { s with buf := some buf }, buf, rest, List.getElem?_set_self (by omega),
          rfl, heq⟩
    · rw [contentFor, Wp.bind, Wp.get, Wp.bind, Wp.of_error (at_none (fun h => absurd h h0) f)]
      exact iff_of_false (not_refusal_fault _) fun h => h0 h.1

theorem Listed.congr {P Q : File → Prop} (h : ∀ g, g.sectsLoaded = true → (P g ↔ Q g)) :
    Listed f P ↔ Listed f Q := by
  unfold Listed
  split
  · next hl => exact h f hl
  · refine exists_congr fun size => and_congr_right fun _ => or_congr_right ?_
    exact exists_congr fun mem => and_congr_right fun _ => h _ rfl

theorem stringAt_wp {offset : Nat} {sect : Int} :
    Wp Refusal (stringAt offset sect) (Inside offset sect) f ↔
      Listed f (Spelled 2 offset sect) := by
  rw [stringAt, stringIn, Wp.of_run (sections_bind _), Wp.bind, initSections_wp]
  refine Listed.congr fun g hg => ?_
  have hin : Wp Refusal (stringAt offset sect) (Inside offset sect) g ↔ Spelled 2 offset sect g :=
    stringIn_wp hg fun _ _ h => h
  rw [stringAt, stringIn, Wp.of_run (sections_loaded _ hg)] at hin
  exact hin

def Answers (f : File) (offset : Nat) (sect : Int) : Prop :=
  (∃ text g, (stringAt offset sect).run f = (.ok text, g) ∧ Inside offset sect text g) ∨
  ∃ m g, (stringAt offset sect).run f = (.error (.exception m), g)

theorem string_answered_iff (f : File) (offset : Nat) (sect : Int) :
    Answers f offset sect ↔ Listed f (Spelled 2 offset sect) := by
  rw [← stringAt_wp, Answers]
  cases h : (stringAt offset sect).run f with
  | mk r g =>
    cases r with
    | ok text =>
      rw [Wp.of_ok h]
      simp
    | error e =>
      rw [Wp.of_error h]
      simp [Refusal]

end

theorem not_answers_of_fault {f g : File} {offset : Nat} {sect : Int} {k : Fault}
    (h : (stringAt offset sect).run f = (.error (.fault k), g)) : ¬ Answers f offset sect := by
  rintro (⟨text, g', hrun, -⟩ | ⟨m, g', hrun⟩)
  · rw [h] at hrun
    cases hrun
  · rw [h] at hrun
    cases hrun

-- The only section is a string table of three bytes, the text in it does not end.
def openText : Stream where
  bytes := [0x7f, 0x45, 0x4c, 0x46, 1, 1, 1, 0, 0, 0, 0, 0, 0, 0, 0, 0] ++
    [2, 0, 3, 0, 1, 0, 0, 0, 0, 0, 0, 0, 0, 0, 0, 0, 52, 0, 0, 0, 0, 0, 0, 0, 52, 0, 32, 0, 0, 0,
      40, 0, 1, 0, 0, 0] ++
    [0, 0, 0, 0, 3, 0, 0, 0, 0, 0, 0, 0, 0, 0, 0, 0, 92, 0, 0, 0, 3, 0, 0, 0, 0, 0, 0, 0,
      0, 0, 0, 0, 1, 0, 0, 0, 0, 0, 0, 0] ++
    [0, 97, 98]

theorem string_unanswered :
    ∃ f, construct.run (File.blank elf32 .little "text" openText fun _ => 0) = (.ok (), f) ∧
      ¬ Answers f 0 (UInt32.ofNat 0xffffffff).toInt32.toInt ∧ ¬ Answers f 3 0 ∧ ¬ Answers f 1 0 := by
  refine ⟨_, rfl, ?_, ?_, ?_⟩
  · exact not_answers_of_fault (k := .index) rfl
  · exact not_answers_of_fault (k := .assertion) rfl
  · exact not_answers_of_fault (k := .bounds) rfl

end Gelpp.Elf
