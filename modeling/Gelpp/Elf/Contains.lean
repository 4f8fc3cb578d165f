import Gelpp.Image
import Gelpp.Elf.Load

section
variable {α : Type} {p q : α → Bool}

theorem List.find?_weaker (hpq : ∀ x, q x → p x) (l : List α) :
    l.find? p = l.find? q ↔
      ∀ pre x post, l = pre ++ x :: post → p x → ¬ q x → ∃ y ∈ pre, q y := by
  induction l with
  | nil => simp
  | cons y l ih =>
    by_cases hq : q y
    · rw [List.find?_cons_of_pos (hpq y hq), List.find?_cons_of_pos hq]
      refine iff_of_true rfl fun pre x post heq hp hnot => ?_
      cases pre with
      | nil =>
        cases heq
        exact absurd hq hnot
      | cons z pre =>
        cases heq
        exact ⟨y, List.mem_cons_self .., hq⟩
    rw [List.find?_cons_of_neg hq]
    by_cases hp : p y
    · rw [List.find?_cons_of_pos hp]
      refine iff_of_false (fun heq => ?_) fun h => ?_
      · exact hq (List.find?_some heq.symm)
      · obtain ⟨z, hz, -⟩ := h [] y l rfl hp hq
        cases hz
    · rw [List.find?_cons_of_neg hp, ih]
      constructor
      · intro h pre x post heq hpx hqx
        cases pre with
        | nil =>
          cases heq
          exact absurd hpx hp
        | cons z pre =>
          cases heq
          obtain ⟨w, hw, hqw⟩ := h pre x post rfl hpx hqx
          exact ⟨w, List.mem_cons_of_mem _ hw, hqw⟩
      · intro h pre x post heq hpx hqx
        obtain ⟨w, hw, hqw⟩ := h (y :: pre) x post (congrArg (y :: ·) heq) hpx hqx
        rcases List.mem_cons.mp hw with rfl | hw
        · exact absurd hqw hq
        · exact ⟨w, hw, hqw⟩

end

namespace Gelpp

structure Range where
  addr : UInt64
  size : UInt64
  deriving DecidableEq, Repr

namespace Range

def base (r : Range) : UInt64 := r.addr
def top (r : Range) : UInt64 := r.addr + r.size
def last (r : Range) : UInt64 := r.top - 1
def contains (r : Range) (a : UInt64) : Bool := decide (r.addr ≤ a) && decide (a ≤ r.last)

end Range

def ImageSegment.range (s : ImageSegment) : Range := ⟨s.base, .ofNat s.size⟩

def Image.at_ (im : Image) (a : UInt64) : Option ImageSegment :=
  im.segs.find? fun s => s.range.contains a

namespace Elf

def shfAlloc : UInt32 := 2

def Phdr.contains (p : Phdr) (a : UInt64) : Bool :=
  decide (UInt64.ofNat p.vaddr ≤ a) && decide (a < .ofNat p.vaddr + .ofNat p.memsz)

-- flags() of both classes has 32 bits.
def Shdr.contains (s : Shdr) (a : UInt64) : Bool :=
  (.ofNat s.flags &&& shfAlloc != 0) && decide (UInt64.ofNat s.addr ≤ a) &&
    decide (a < .ofNat s.addr + .ofNat s.size)

end Elf

def Covers (base size : Nat) (a : UInt64) : Prop := base ≤ a.toNat ∧ a.toNat < base + size

instance (base size : Nat) (a : UInt64) : Decidable (Covers base size a) :=
  inferInstanceAs (Decidable (_ ∧ _))

structure Region (base size : Nat) : Prop where
  base_lt : base < 2 ^ 64
  size_lt : size < 2 ^ 64
  ends : base + size ≤ 2 ^ 64

def ImageSegment.Covers (s : ImageSegment) (a : UInt64) : Prop := Gelpp.Covers s.base.toNat s.size a

instance (s : ImageSegment) (a : UInt64) : Decidable (s.Covers a) :=
  inferInstanceAs (Decidable (Gelpp.Covers ..))

section
variable {r : Range} {a : UInt64} {base size : Nat}

theorem last_toNat (h : r.addr.toNat + r.size.toNat ≤ 2 ^ 64) :
    r.last.toNat = if r.addr.toNat + r.size.toNat = 0 then 2 ^ 64 - 1
      else r.addr.toNat + r.size.toNat - 1 := by
  simp only [Range.last, Range.top, UInt64.toNat_sub, UInt64.toNat_add, UInt64.toNat_one]
  split <;> omega

theorem Range.contains_iff (h : r.addr.toNat + r.size.toNat ≤ 2 ^ 64) :
    r.contains a = true ↔
      Covers r.addr.toNat r.size.toNat a ∨ r.addr.toNat = 0 ∧ r.size.toNat = 0 := by
  have hlt := a.toNat_lt
  rw [Range.contains, Bool.and_eq_true, decide_eq_true_eq, decide_eq_true_eq,
    UInt64.le_iff_toNat_le, UInt64.le_iff_toNat_le, last_toNat h, Covers]
  split <;> omega

theorem below_end_iff (h : Region base size) :
    UInt64.ofNat base ≤ a ∧ a < .ofNat base + .ofNat size ↔
      Covers base size a ∧ base + size < 2 ^ 64 := by
  have hbase : (UInt64.ofNat base).toNat = base := UInt64.toNat_ofNat_of_lt h.base_lt
  have hsize : (UInt64.ofNat size).toNat = size := UInt64.toNat_ofNat_of_lt h.size_lt
  have hends := h.ends
  rw [UInt64.le_iff_toNat_le, UInt64.lt_iff_toNat_lt, UInt64.toNat_add, hbase, hsize, Covers]
  omega

end

namespace Elf

variable {a : UInt64}

theorem Phdr.contains_iff {p : Phdr} (h : Region p.vaddr p.memsz) :
    p.contains a = true ↔ Covers p.vaddr p.memsz a ∧ p.vaddr + p.memsz < 2 ^ 64 := by
  rw [Phdr.contains, Bool.and_eq_true, decide_eq_true_eq, decide_eq_true_eq, below_end_iff h]

def Shdr.Allocated (s : Shdr) : Prop := UInt32.ofNat s.flags &&& shfAlloc ≠ 0

instance (s : Shdr) : Decidable s.Allocated := inferInstanceAs (Decidable (_ ≠ _))

theorem Shdr.contains_iff {s : Shdr} (halloc : s.Allocated) (h : Region s.addr s.size) :
    s.contains a = true ↔ Covers s.addr s.size a ∧ s.addr + s.size < 2 ^ 64 := by
  have hflags : (UInt32.ofNat s.flags &&& shfAlloc != 0) = true := bne_iff_ne.mpr halloc
  rw [Shdr.contains, hflags, Bool.true_and, Bool.and_eq_true, decide_eq_true_eq, decide_eq_true_eq,
    below_end_iff h]

end Elf

section
variable {a : UInt64}

theorem ImageSegment.contains_iff {s : ImageSegment} (h : Region s.base.toNat s.size) :
    s.range.contains a = true ↔ s.Covers a ∨ s.base.toNat = 0 ∧ s.size = 0 := by
  have hsize : (UInt64.ofNat s.size).toNat = s.size := UInt64.toNat_ofNat_of_lt h.size_lt
  have hcontains := Range.contains_iff (r := s.range) (a := a) (by
    rw [ImageSegment.range, hsize]
    exact h.ends)
  rwa [ImageSegment.range, hsize] at hcontains

theorem Image.at_iff {im : Image} (h : ∀ s ∈ im.segs, Region s.base.toNat s.size) :
    im.at_ a = im.segs.find? (fun s => decide (s.Covers a)) ↔
      ∀ pre s post, im.segs = pre ++ s :: post → s.base.toNat = 0 → s.size = 0 →
        ∃ t ∈ pre, t.Covers a := by
  have hsame : im.at_ a = im.segs.find? fun s =>
      decide (s.Covers a ∨ s.base.toNat = 0 ∧ s.size = 0) := by
    refine List.find?_congr fun s hs => ?_
    rw [Bool.eq_iff_iff, decide_eq_true_eq]
    exact ImageSegment.contains_iff (h s hs)
  rw [hsame, List.find?_weaker fun s hs => by simpa using .inl (of_decide_eq_true hs)]
  refine forall₃_congr fun pre s post => forall_congr' fun _ => ?_
  simp only [decide_eq_true_eq]
  constructor
  · intro hfind hbase hsize
    refine hfind (.inr ⟨hbase, hsize⟩) fun hcov => ?_
    unfold ImageSegment.Covers Covers at hcov
    omega
  · intro hfind hp hnot
    obtain ⟨hbase, hsize⟩ := hp.resolve_left hnot
    exact hfind hbase hsize

end

open Elf in
theorem contains_exact (r : Range) (p : Phdr) (s : Shdr) (im : Image) (a : UInt64)
    (hr : r.addr.toNat + r.size.toNat ≤ 2 ^ 64) (hp : Region p.vaddr p.memsz) (halloc : s.Allocated)
    (hs : Region s.addr s.size) (him : ∀ s ∈ im.segs, Region s.base.toNat s.size) :
    ((r.contains a = true ↔ Covers r.addr.toNat r.size.toNat a) ↔ r.addr ≠ 0 ∨ r.size ≠ 0) ∧
    ((p.contains a = true ↔ Covers p.vaddr p.memsz a) ↔
      p.vaddr + p.memsz < 2 ^ 64 ∨ a.toNat < p.vaddr) ∧
    ((s.contains a = true ↔ Covers s.addr s.size a) ↔
      s.addr + s.size < 2 ^ 64 ∨ a.toNat < s.addr) ∧
    (im.at_ a = im.segs.find? (fun s => decide (s.Covers a)) ↔
      ∀ pre s post, im.segs = pre ++ s :: post → s.base.toNat = 0 → s.size = 0 →
        ∃ t ∈ pre, t.Covers a) := by
  have hlt := a.toNat_lt
  refine ⟨?_, ?_, ?_, Image.at_iff him⟩
  · have h0 : r.addr ≠ 0 ↔ r.addr.toNat ≠ 0 := by rw [Ne, ← UInt64.toNat_inj]; rfl
    have h1 : r.size ≠ 0 ↔ r.size.toNat ≠ 0 := by rw [Ne, ← UInt64.toNat_inj]; rfl
    rw [Range.contains_iff hr, h0, h1, Covers]
    omega
  · have hends := hp.ends
    rw [Phdr.contains_iff hp, Covers]
    omega
  · have hends := hs.ends
    rw [Shdr.contains_iff halloc hs, Covers]
    omega

def lastPage : Elf.Phdr where
  type := Elf.ptLoad
  flags := 0
  offset := 0
  vaddr := 2 ^ 64 - 4096
  paddr := 0
  filesz := 0
  memsz := 4096
  align := 4096

def lastSection : Elf.Shdr where
  name := 0
  type := 1
  flags := 2
  addr := 2 ^ 64 - 4096
  offset := 0
  size := 4096
  link := 0
  info := 0
  addralign := 0
  entsize := 0

def emptyFirst : Image where
  segs := [⟨"data", 0, [], 0⟩, ⟨"code", 4, [7, 8], 0⟩]

theorem contains_exact_ends :
    (((Range.mk 4 0).contains 5 = true ↔ Covers (UInt64.toNat 4) (UInt64.toNat 0) 5) ↔
      (4 : UInt64) ≠ 0 ∨ (0 : UInt64) ≠ 0) ∧
    ((lastPage.contains 5 = true ↔ Covers lastPage.vaddr lastPage.memsz 5) ↔
      lastPage.vaddr + lastPage.memsz < 2 ^ 64 ∨ UInt64.toNat 5 < lastPage.vaddr) ∧
    ((lastSection.contains 5 = true ↔ Covers lastSection.addr lastSection.size 5) ↔
      lastSection.addr + lastSection.size < 2 ^ 64 ∨ UInt64.toNat 5 < lastSection.addr) ∧
    (emptyFirst.at_ 5 = emptyFirst.segs.find? (fun s => decide (s.Covers 5)) ↔
      ∀ pre s post, emptyFirst.segs = pre ++ s :: post → s.base.toNat = 0 → s.size = 0 →
        ∃ t ∈ pre, t.Covers 5) := by
  refine contains_exact ⟨4, 0⟩ lastPage lastSection emptyFirst 5 (by decide) ?_ (by decide) ?_ ?_
  · exact ⟨by decide, by decide, by decide⟩
  · exact ⟨by decide, by decide, by decide⟩
  · intro s hs
    simp only [emptyFirst, List.mem_cons, List.not_mem_nil, or_false] at hs
    rcases hs with rfl | rfl <;> exact ⟨by decide, by decide, by decide⟩

theorem contains_inexact :
    ((Range.mk 0 0).contains 5 = true ∧ ¬ Covers 0 0 5) ∧
    (lastPage.contains (-1) = false ∧ Covers lastPage.vaddr lastPage.memsz (-1)) ∧
    (lastSection.contains (-1) = false ∧ Covers lastSection.addr lastSection.size (-1)) ∧
    emptyFirst.at_ 5 ≠ emptyFirst.segs.find? (fun s => decide (s.Covers 5)) := by
  refine ⟨?_, ?_, ?_, ?_⟩ <;> decide

end Gelpp
