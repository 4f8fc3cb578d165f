import Gelpp.Elf.Strings

namespace Gelpp.Elf

open FileM Effect

section
variable (f : File) (pos size : Nat) (buf : List UInt8)

def Asked.Whole : Asked → Prop
  | .moveTo p => p.toNat = pos
  | .read n => n.toNat = size

def Copied (buf' : List UInt8) : Prop :=
  (cell f.stream.bytes pos size).length = size ∧ buf' = cell f.stream.bytes pos size ++ buf.drop size

-- They are read so by `m`, or a gel::Exception is thrown, and nothing is reduced on the way to the
-- stream.
structure Obtains (m : FileM (List UInt8)) : Prop where
  bytes : Wp Refusal m (fun buf' _ => Copied f pos size buf buf') f
  whole : ∀ ops, (m.run f).2.stream.asked = f.stream.asked ++ ops → ∀ op ∈ ops, op.Whole pos size

-- The size is not given to a stream that does not move.
structure Placeable : Prop where
  place : pos < 2 ^ 32
  count : f.stream.fails f.stream.count = false → size < 2 ^ 32
  room : Serves f → (cell f.stream.bytes pos size).length ≤ buf.length

end

section
variable {f : File} {pos size : Nat} {buf : List UInt8}

theorem streamBytes_small (hpos : pos < 2 ^ 32) (hsize : size < 2 ^ 32) :
    streamBytes f pos size = cell f.stream.bytes pos size := by
  rw [streamBytes, Nat.mod_eq_of_lt hpos, Nat.mod_eq_of_lt hsize]
  rfl

theorem readAt_asked : ((readAt pos size buf).run f).2 = ticked f (reached f pos size) := by
  by_cases hs : Serves f
  · have hreached : reached f pos size = asks pos size := if_neg (ne_true_of_eq_false hs.1)
    rw [readAt_served hs, hreached]
    split
    · rfl
    split
    · rfl
    · rfl
  · obtain ⟨m, hrun⟩ := readAt_unserved hs pos size buf
    rw [hrun]

theorem reached_whole : (∀ op ∈ reached f pos size, op.Whole pos size) ↔
    pos < 2 ^ 32 ∧ (f.stream.fails f.stream.count = false → size < 2 ^ 32) := by
  rw [reached]
  cases f.stream.fails f.stream.count with
  | true => simp [Asked.Whole]
  | false => simp [asks, Asked.Whole]

theorem readAt_bytes (hpos : pos < 2 ^ 32)
    (hsize : f.stream.fails f.stream.count = false → size < 2 ^ 32) :
    Wp Refusal (readAt pos size buf) (fun buf' _ => Copied f pos size buf buf') f ↔
      (Serves f → (cell f.stream.bytes pos size).length ≤ buf.length) := by
  by_cases hs : Serves f
  · have hsmall := hsize hs.1
    have hrun := readAt_served hs pos size buf
    have hle := streamBytes_length_le f pos size
    rw [streamBytes_small hpos hsmall, Nat.mod_eq_of_lt hsmall] at hrun hle
    rw [forall_prop_of_true hs]
    by_cases hlong : buf.length < (cell f.stream.bytes pos size).length
    · rw [if_pos hlong] at hrun
      rw [Wp.of_error hrun]
      exact iff_of_false (not_refusal_fault .bounds) (Nat.not_le_of_lt hlong)
    rw [if_neg hlong] at hrun
    refine iff_of_true ?_ (Nat.le_of_not_lt hlong)
    by_cases hcut : (cell f.stream.bytes pos size).length = size
    · rw [if_neg (not_not_intro hcut), hcut] at hrun
      rw [Wp.of_ok hrun]
      exact ⟨hcut, rfl⟩
    · rw [if_pos hcut] at hrun
      rw [Wp.of_error hrun]
      exact refusal_exception _
  · obtain ⟨m, hrun⟩ := readAt_unserved hs pos size buf
    rw [Wp.of_error hrun]
    exact iff_of_true (refusal_exception m) fun h => absurd h hs

theorem readAt_reads : Obtains f pos size buf (readAt pos size buf) ↔ Placeable f pos size buf := by
  constructor
  · rintro ⟨hbytes, hwhole⟩
    have hasked := hwhole (reached f pos size) (by rw [readAt_asked]; rfl)
    obtain ⟨hpos, hsize⟩ := reached_whole.mp hasked
    exact ⟨hpos, hsize, (readAt_bytes hpos hsize).mp hbytes⟩
  · rintro ⟨hpos, hsize, hroom⟩
    refine ⟨(readAt_bytes hpos hsize).mpr hroom, fun ops hops => ?_⟩
    rw [readAt_asked] at hops
    obtain rfl : reached f pos size = ops := List.append_cancel_left hops
    exact reached_whole.mpr ⟨hpos, hsize⟩

theorem readInit_reads (p : Phdr) (buf : List UInt8) :
    Obtains f p.offset p.filesz buf (readInit p buf) ↔
      p.filesz = 0 ∨ Placeable f p.offset p.filesz buf := by
  by_cases h0 : p.filesz = 0
  · have hrun : (readInit p buf).run f = (.ok buf, f) := by
      rw [readInit, if_neg (not_not_intro h0)]
      rfl
    refine iff_of_true ⟨?_, fun ops hops => ?_⟩ (.inl h0)
    · rw [Wp.of_ok hrun, Copied, h0]
      rw [cell, List.take_zero]
      exact ⟨rfl, rfl⟩
    · rw [hrun] at hops
      obtain rfl : [] = ops := List.append_cancel_left ((List.append_nil _).trans hops)
      exact fun _ h => by cases h
  · rw [or_iff_right h0, readInit, if_pos h0]
    exact readAt_reads

theorem obtains_congr {m n : FileM (List UInt8)} (h : m.run f = n.run f) :
    Obtains f pos size buf m ↔ Obtains f pos size buf n := by
  constructor
  · exact fun ⟨hbytes, hwhole⟩ => ⟨(Wp.of_run h).mp hbytes, h ▸ hwhole⟩
  · exact fun ⟨hbytes, hwhole⟩ => ⟨(Wp.of_run h).mpr hbytes, h ▸ hwhole⟩

theorem readAll_reads : Obtains f pos size (fresh f size) (readAll pos size) ↔
    size < 2 ^ 63 ∧ Placeable f pos size (fresh f size) := by
  by_cases hlt : size < 2 ^ 63
  · have halloc := (alloc_run f size).trans (if_pos hlt)
    have hrun : (readAll pos size).run f = (readAt pos size (fresh f size)).run f := by
      rw [readAll, bind_of_ok halloc]
    rw [obtains_congr hrun, and_iff_right hlt, readAt_reads]
  · refine iff_of_false (fun h => ?_) fun h => hlt h.1
    have hbytes := h.bytes
    rw [readAll, Wp.bind, Wp.of_error ((alloc_run f size).trans (if_neg hlt))] at hbytes
    exact not_refusal_badAlloc hbytes

theorem placement_iff (f : File) :
    (∀ p buf, Obtains f p.offset p.filesz buf (readInit p buf) ↔
      p.filesz = 0 ∨ Placeable f p.offset p.filesz buf) ∧
    (∀ h : Shdr, Obtains f h.offset h.size (fresh f h.size) (readAll h.offset h.size) ↔
      h.size < 2 ^ 63 ∧ Placeable f h.offset h.size (fresh f h.size)) ∧
    (∀ size, product f.h.phentsize f.h.phnum = .ok size →
      (Obtains f f.h.phoff size (fresh f size) (readAt f.h.phoff size (fresh f size)) ↔
        Placeable f f.h.phoff size (fresh f size))) ∧
    ∀ size, product f.h.shentsize f.h.shnum = .ok size →
      (Obtains f f.h.shoff size (.replicate size 0) (readAt f.h.shoff size (.replicate size 0)) ↔
        Placeable f f.h.shoff size (.replicate size 0)) :=
  ⟨readInit_reads, fun _ => readAll_reads, fun _ _ => readAt_reads, fun _ _ => readAt_reads⟩

-- The only section has four bytes at the offset 2^32.
def farSection : Stream where
  bytes := [0x7f, 0x45, 0x4c, 0x46, 2, 1, 1, 0, 0, 0, 0, 0, 0, 0, 0, 0] ++
    [2, 0, 62, 0, 1, 0, 0, 0] ++ .replicate 16 0 ++ [64, 0, 0, 0, 0, 0, 0, 0] ++
    [0, 0, 0, 0, 64, 0, 56, 0, 0, 0, 64, 0, 1, 0, 0, 0] ++
    [0, 0, 0, 0, 1, 0, 0, 0] ++ .replicate 16 0 ++ [0, 0, 0, 0, 1, 0, 0, 0] ++
    [4, 0, 0, 0, 0, 0, 0, 0] ++ .replicate 24 0

def farFile : File := File.blank elf64 .little "far" farSection fun _ => 0

theorem placement_table : ∃ f, construct.run farFile = (.ok (), f) ∧
    (Obtains f f.h.shoff 64 (.replicate 64 0) (readAt f.h.shoff 64 (.replicate 64 0)) ↔
      Placeable f f.h.shoff 64 (.replicate 64 0)) :=
  ⟨_, rfl, (placement_iff _).2.2.2 64 rfl⟩

-- The first bytes of the file are read in place of bytes that it does not have.
theorem placement_wrapped : ∃ f g h, construct.run farFile = (.ok (), f) ∧
    initSections.run f = (.ok (), g) ∧ g.layout = elf64 ∧ g.shdr 0 = .ok h ∧
      ¬ Obtains g h.offset h.size (fresh g h.size) (readAll h.offset h.size) := by
  refine ⟨_, _, _, rfl, rfl, rfl, rfl, fun h => ?_⟩
  have hlen : (cell farSection.bytes 4294967296 4).length = 4 := And.left h.bytes
  rw [cell, List.length_take, List.length_drop] at hlen
  have hfile : farSection.bytes.length = 128 := rfl
  omega

end

end Gelpp.Elf
