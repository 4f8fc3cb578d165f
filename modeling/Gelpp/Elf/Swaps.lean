import Gelpp.Elf.Depicted
import Gelpp.Elf.Strings

namespace Gelpp.Elf

open FileM Effect

def swaps (slots : List Slot) (entsize count : Nat) : List (Nat × Slot) :=
  (List.range count).flatMap fun i => slots.map fun s => (i * entsize, s)

def Away (x y : Nat × Slot) : Prop :=
  x.1 + x.2.off + x.2.width ≤ y.1 + y.2.off ∨ y.1 + y.2.off + y.2.width ≤ x.1 + x.2.off

structure SwappedOnce (slots : List Slot) (record entsize count size : Nat) : Prop where
  inside : ∀ i < count, i * entsize + record ≤ size
  once : (swaps slots entsize count).Pairwise Away

section
variable {host : ByteOrder} {eiData : UInt8} {slots : List Slot} {record entsize count : Nat}

theorem fixTable_swaps (mem : List UInt8) : fixTable host eiData slots entsize count mem =
    (swaps slots entsize count).foldlM (fun mem x => fixAt host eiData x.1 mem x.2) mem := by
  rw [fixTable, swaps]
  induction List.range count generalizing mem with
  | nil => rfl
  | cons i l ih =>
    rw [List.foldlM_cons, List.flatMap_cons, List.foldlM_append, List.foldlM_map]
    exact congrArg _ (funext ih)

theorem swappedOnce_iff (hf : Fixable slots record) :
    SwappedOnce slots record entsize count (entsize * count) ↔ count = 0 ∨ record ≤ entsize := by
  constructor
  · intro h
    cases count with
    | zero => exact .inl rfl
    | succ n =>
      have hlast := h.inside n (Nat.lt_succ_self n)
      rw [Nat.mul_succ, Nat.mul_comm] at hlast
      exact .inr (by omega)
  · rintro (rfl | hle)
    · exact ⟨nofun, .nil⟩
    · constructor
      · intro i hi
        have hrow := row_le i count entsize hi
        rw [Nat.mul_comm entsize]
        omega
      · rw [swaps, List.pairwise_flatMap]
        constructor
        · intro i _
          rw [List.pairwise_map]
          refine hf.apart.imp fun h => ?_
          unfold Slot.Apart at h
          unfold Away
          dsimp only
          omega
        · refine List.pairwise_lt_range.imp fun {i j} hij x hx y hy => ?_
          obtain ⟨s, hs, rfl⟩ := List.mem_map.mp hx
          obtain ⟨t, ht, rfl⟩ := List.mem_map.mp hy
          have hrow := row_le i j entsize hij
          have hfit := hf.fits s hs
          exact .inl (by dsimp only; omega)

theorem Fixable.wider (hf : Fixable slots record) (hle : record ≤ entsize) : Fixable slots entsize :=
  ⟨fun s hs => (hf.fits s hs).trans hle, hf.swapped, hf.apart⟩

end

section
variable {f : File}

theorem loadProgramHeaders_wp (hp : f.phBuf = none) {P : File → Prop} :
    Wp Refusal loadProgramHeaders (fun _ => P) f ↔
      ∃ size, product f.h.phentsize f.h.phnum = .ok size ∧ (Short f f.h.phoff size ∨
        ∃ mem, fixTable f.host f.eiData f.layout.phdr.fixes f.h.phentsize f.h.phnum
          (taken f f.h.phoff size (fresh f size)) = .ok mem ∧
          P { consulted f f.h.phoff size with phBuf := some mem, phs := headersAt f.h }) := by
  rw [loadProgramHeaders, Wp.bind, Wp.get, hp]
  dsimp only
  rw [Wp.bind, Wp.lift fun e he => (product_faults _ _).of_error he]
  refine exists_congr fun size => and_congr_right fun hsize => ?_
  have hlt := product_lt hsize
  rw [Wp.bind, Wp.of_ok ((alloc_run f size).trans (if_pos (by omega))), Wp.bind, Wp.modify, Wp.bind,
    readAt_wp (f := { f with phBuf := some (fresh f size) }) (fresh_length f size)]
  refine or_congr_right ?_
  rw [Wp.bind, Wp.lift fun e he => (fixTable_faults _ _ _).of_error he]
  exact exists_congr fun mem => and_congr_right fun _ => Iff.rfl

theorem taken_length {pos size : Nat} {buf : List UInt8} (hlen : buf.length = size)
    (hshort : ¬ Short f pos size) : (taken f pos size buf).length = size := by
  have hle := streamBytes_length_le f pos size
  have hmod := Nat.mod_le size (2 ^ 32)
  have hfull : ¬ (streamBytes f pos size).length < size % 2 ^ 32 := fun h => hshort fun _ => h
  rw [taken, List.length_append, List.length_drop]
  omega

theorem product_iff {m n size : Nat} : product m n = .ok size ↔ m * n < 2 ^ 31 ∧ m * n = size := by
  rw [product]
  by_cases h : m * n < 2 ^ 31
  · rw [if_pos h, and_iff_right h, Except.ok.injEq]
  · rw [if_neg h]
    exact iff_of_false nofun fun h' => h h'.1

structure Held (f : File) (slots : List Slot) (record entsize count : Nat) (raw mem : List UInt8) :
    Prop where
  length : raw.length = entsize * count
  swapped : SwappedOnce slots record entsize count raw.length
  fixed : TableFixed f.host f.eiData slots entsize count raw mem

theorem held_iff {slots : List Slot} {record entsize count : Nat} (hf : Fixable slots record)
    {raw : List UInt8} (hlen : raw.length = entsize * count) :
    (∃ mem, fixTable f.host f.eiData slots entsize count raw = .ok mem ∧
      Held f slots record entsize count raw mem) ↔ count = 0 ∨ record ≤ entsize := by
  constructor
  · rintro ⟨mem, -, hheld⟩
    have hswapped := hheld.swapped
    rw [hlen] at hswapped
    exact (swappedOnce_iff hf).mp hswapped
  · intro h
    have hswapped := (swappedOnce_iff hf).mpr h
    rw [← hlen] at hswapped
    rcases h with rfl | hle
    · exact ⟨raw, rfl, hlen, hswapped, rfl, nofun, fun _ _ _ => rfl⟩
    · obtain ⟨mem, hrun, hfixed⟩ : ∃ mem, fixTable f.host f.eiData slots entsize count raw = .ok mem ∧
          TableFixed f.host f.eiData slots entsize count raw mem :=
        fixTable_fixed (hf.wider hle) (by rw [hlen, Nat.mul_comm])
      exact ⟨mem, hrun, hlen, hswapped, hfixed⟩

def TableFits (f : File) (pos record entsize count : Nat) : Prop :=
  entsize * count < 2 ^ 31 ∧ (Short f pos (entsize * count) ∨ count = 0 ∨ record ≤ entsize)

theorem tableFits_iff {slots : List Slot} {record : Nat} (hf : Fixable slots record)
    (pos entsize count : Nat) {start : Nat → List UInt8} (hstart : ∀ n, (start n).length = n) :
    (∃ size, product entsize count = .ok size ∧ (Short f pos size ∨
      ∃ mem, fixTable f.host f.eiData slots entsize count (taken f pos size (start size)) = .ok mem ∧
        entsize * count < 2 ^ 31 ∧ Held f slots record entsize count
          (taken f pos (entsize * count) (start (entsize * count))) mem)) ↔
      TableFits f pos record entsize count := by
  simp only [product_iff, and_assoc, exists_and_left, exists_eq_left']
  refine and_congr_right fun hsmall => ?_
  by_cases hshort : Short f pos (entsize * count)
  · exact iff_of_true (.inl hshort) (.inl hshort)
  rw [or_iff_right hshort, or_iff_right hshort, ← held_iff (f := f) hf
    (taken_length (hstart (entsize * count)) hshort)]
  exact exists_congr fun mem => and_congr_right fun _ => and_iff_right hsmall

def HeadersHeld (f : File) : Prop :=
  Wp Refusal loadProgramHeaders (fun _ g => ∃ mem, g.phBuf = some mem ∧
    f.h.phentsize * f.h.phnum < 2 ^ 31 ∧
    Held f f.layout.phdr.fixes f.layout.phdr.size f.h.phentsize f.h.phnum
      (taken f f.h.phoff (f.h.phentsize * f.h.phnum) (fresh f (f.h.phentsize * f.h.phnum))) mem) f

def SectionsHeld (f : File) : Prop :=
  Wp Refusal loadSections (fun _ g => f.h.shentsize * f.h.shnum < 2 ^ 31 ∧
    Held f f.layout.shdr.fixes f.layout.shdr.size f.h.shentsize f.h.shnum
      (taken f f.h.shoff (f.h.shentsize * f.h.shnum) (.replicate (f.h.shentsize * f.h.shnum) 0))
      g.secBuf) f

theorem header_tables_iff (hl : f.layout = elf32 ∨ f.layout = elf64) (hp : f.phBuf = none) :
    (HeadersHeld f ↔ TableFits f f.h.phoff f.layout.phdr.size f.h.phentsize f.h.phnum) ∧
      (SectionsHeld f ↔ TableFits f f.h.shoff f.layout.shdr.size f.h.shentsize f.h.shnum) := by
  constructor
  · rw [HeadersHeld, loadProgramHeaders_wp hp, ← tableFits_iff (phdr_fixable hl) _ _ _ (fresh_length f)]
    simp
  · rw [SectionsHeld, loadSections_wp,
      ← tableFits_iff (shdr_fixable hl) _ _ _ fun _ => List.length_replicate]

theorem header_tables_text :
    ∃ f, construct.run (File.blank elf32 .little "text" openText fun _ => 0) = (.ok (), f) ∧
      (HeadersHeld f ↔ TableFits f f.h.phoff f.layout.phdr.size f.h.phentsize f.h.phnum) ∧
      (SectionsHeld f ↔ TableFits f f.h.shoff f.layout.shdr.size f.h.shentsize f.h.shnum) :=
  ⟨_, rfl, header_tables_iff (.inl rfl) rfl⟩

-- Two program headers of 16 bytes each: the fields of the second one end behind the table.
def narrowTable : Stream where
  bytes := [0x7f, 0x45, 0x4c, 0x46, 1, 1, 1, 0, 0, 0, 0, 0, 0, 0, 0, 0] ++
    [2, 0, 3, 0, 1, 0, 0, 0, 0, 0, 0, 0, 52, 0, 0, 0, 52, 0, 0, 0, 0, 0, 0, 0, 52, 0, 16, 0, 2, 0,
      16, 0, 2, 0, 0, 0] ++ .replicate 32 0

theorem header_tables_overrun :
    ∃ f, construct.run (File.blank elf32 .little "narrow" narrowTable fun _ => 0) = (.ok (), f) ∧
      ¬ HeadersHeld f ∧ ¬ SectionsHeld f := by
  refine ⟨_, rfl, ?_, ?_⟩
  · exact fun h => not_refusal_fault .bounds h
  · exact fun h => not_refusal_fault .bounds h

end

end Gelpp.Elf
