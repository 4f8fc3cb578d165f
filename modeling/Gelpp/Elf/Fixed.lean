import Gelpp.Elf.Dyns

namespace Gelpp.Elf

def Slot.Apart (s t : Slot) : Prop := s.off + s.width ≤ t.off ∨ t.off + t.width ≤ s.off

instance (s t : Slot) : Decidable (s.Apart t) := inferInstanceAs (Decidable (_ ∨ _))

def Slot.Swapped (s : Slot) : Prop := s.width = 2 ∨ s.width = 4 ∨ s.width = 8

instance (s : Slot) : Decidable s.Swapped := inferInstanceAs (Decidable (_ ∨ _ ∨ _))

section
variable {mem : List UInt8} {host : ByteOrder} {base v : Nat} {s : Slot}

theorem storeAt_length (h : base + s.off + s.width ≤ mem.length) :
    (storeAt host mem base s v).length = mem.length := by
  simp only [storeAt, List.length_append, List.length_take, List.length_drop, ByteOrder.bytes_length]
  omega

theorem cell_storeAt (h : base + s.off + s.width ≤ mem.length) :
    cell (storeAt host mem base s v) (base + s.off) s.width = host.bytes s.width v := by
  have hlen : (mem.take (base + s.off)).length = base + s.off := by
    rw [List.length_take]
    omega
  rw [cell, storeAt, List.append_assoc, List.drop_left' hlen, List.take_left']
  exact host.bytes_length s.width v

theorem cell_storeAt_apart {off width : Nat} (h : base + s.off + s.width ≤ mem.length)
    (hapart : off + width ≤ base + s.off ∨ base + s.off + s.width ≤ off) :
    cell (storeAt host mem base s v) off width = cell mem off width := by
  have hlen : (mem.take (base + s.off)).length = base + s.off := by
    rw [List.length_take]
    omega
  have hmid : (mem.take (base + s.off) ++ host.bytes s.width v).length = base + s.off + s.width := by
    rw [List.length_append, hlen, ByteOrder.bytes_length]
  rw [cell, cell, storeAt]
  rcases hapart with hbefore | hafter
  · rw [List.append_assoc, List.drop_append_of_le_length (by omega),
      List.take_append_of_le_length (by rw [List.length_drop]; omega), List.drop_take,
      List.take_take, Nat.min_eq_left (by omega)]
  · obtain ⟨d, rfl⟩ := Nat.exists_eq_add_of_le hafter
    rw [← List.drop_drop, List.drop_left' hmid, List.drop_drop]

end

section
variable {host : ByteOrder} {eiData : UInt8} {raw mem : List UInt8}

structure RowFixed (host : ByteOrder) (eiData : UInt8) (base : Nat) (k : List Slot)
    (raw mem : List UInt8) : Prop where
  length : mem.length = raw.length
  done : ∀ s ∈ k, cell mem (base + s.off) s.width =
    host.bytes s.width ((fileOrder host eiData).value (cell raw (base + s.off) s.width))
  frame : ∀ off width, (∀ s ∈ k, off + width ≤ base + s.off ∨ base + s.off + s.width ≤ off) →
    cell mem off width = cell raw off width

variable {base : Nat} {k : List Slot}

theorem RowFixed.start (mem : List UInt8) : RowFixed host eiData base [] mem mem :=
  ⟨rfl, nofun, fun _ _ _ => rfl⟩

theorem RowFixed.fix {s : Slot} (h : RowFixed host eiData base k raw mem)
    (hle : base + s.off + s.width ≤ raw.length) (hs : s.Swapped) (hk : ∀ t ∈ k, t.Apart s) :
    ∃ mem', fixAt host eiData base mem s = .ok mem' ∧
      RowFixed host eiData base (k ++ [s]) raw mem' := by
  have hin : base + s.off + s.width ≤ mem.length := by
    rw [h.length]
    exact hle
  have hraw : cell mem (base + s.off) s.width = cell raw (base + s.off) s.width := by
    apply h.frame
    intro t ht
    have hapart := hk t ht
    unfold Slot.Apart at hapart
    omega
  refine ⟨storeAt host mem base s
    ((fileOrder host eiData).value (cell raw (base + s.off) s.width)), ?_, ?_, ?_, ?_⟩
  · rw [fixAt, loadAt_some host hin, Res.ok_bind, hraw, fixWidth_value host eiData hs (cell_length hle)]
    rfl
  · rw [storeAt_length hin, h.length]
  · intro t ht
    rcases List.mem_append.mp ht with ht | ht
    · rw [cell_storeAt_apart hin, h.done t ht]
      have hapart := hk t ht
      unfold Slot.Apart at hapart
      omega
    · rw [List.mem_singleton.mp ht, cell_storeAt hin]
  · intro off width hapart
    rw [cell_storeAt_apart hin (hapart s (List.mem_append_right _ (List.mem_singleton_self s)))]
    exact h.frame off width fun t ht => hapart t (List.mem_append_left _ ht)

theorem RowFixed.run {slots : List Slot} (h : RowFixed host eiData base k raw mem)
    (hle : ∀ s ∈ slots, base + s.off + s.width ≤ raw.length) (hs : ∀ s ∈ slots, s.Swapped)
    (hk : (k ++ slots).Pairwise Slot.Apart) :
    ∃ mem', slots.foldlM (fixAt host eiData base) mem = .ok mem' ∧
      RowFixed host eiData base (k ++ slots) raw mem' := by
  induction slots generalizing k mem with
  | nil =>
    rw [List.append_nil]
    exact ⟨mem, rfl, h⟩
  | cons s slots ih =>
    have hcross := (List.pairwise_append.mp hk).2.2
    obtain ⟨mem1, hfix, h1⟩ := h.fix (hle s (List.mem_cons_self ..)) (hs s (List.mem_cons_self ..))
      fun t ht => hcross t ht s (List.mem_cons_self ..)
    have happend : k ++ s :: slots = k ++ [s] ++ slots := by rw [List.append_assoc]; rfl
    rw [happend] at hk ⊢
    obtain ⟨mem2, hrun, h2⟩ := ih h1 (fun t ht => hle t (List.mem_cons_of_mem _ ht))
      (fun t ht => hs t (List.mem_cons_of_mem _ ht)) hk
    refine ⟨mem2, ?_, h2⟩
    rw [List.foldlM_cons, hfix, Res.ok_bind, hrun]

structure Fixable (slots : List Slot) (entsize : Nat) : Prop where
  fits : ∀ s ∈ slots, s.off + s.width ≤ entsize
  swapped : ∀ s ∈ slots, s.Swapped
  apart : slots.Pairwise Slot.Apart

structure TableFixed (host : ByteOrder) (eiData : UInt8) (slots : List Slot) (entsize n : Nat)
    (raw mem : List UInt8) : Prop where
  length : mem.length = raw.length
  done : ∀ i < n, ∀ s ∈ slots, cell mem (i * entsize + s.off) s.width =
    host.bytes s.width ((fileOrder host eiData).value (cell raw (i * entsize + s.off) s.width))
  frame : ∀ off width, (∀ i < n, ∀ s ∈ slots,
    off + width ≤ i * entsize + s.off ∨ i * entsize + s.off + s.width ≤ off) →
    cell mem off width = cell raw off width

variable {slots : List Slot} {entsize n : Nat}

theorem row_le (i j e : Nat) (h : i < j) : i * e + e ≤ j * e := by
  rw [← Nat.succ_mul]
  exact Nat.mul_le_mul_right e h

theorem TableFixed.row (hf : Fixable slots entsize)
    (h : TableFixed host eiData slots entsize n raw mem) (hn : (n + 1) * entsize ≤ raw.length) :
    ∃ mem', slots.foldlM (fixAt host eiData (n * entsize)) mem = .ok mem' ∧
      TableFixed host eiData slots entsize (n + 1) raw mem' := by
  rw [Nat.succ_mul] at hn
  have hle : ∀ s ∈ slots, n * entsize + s.off + s.width ≤ mem.length := by
    intro s hs
    have hfit := hf.fits s hs
    rw [h.length]
    omega
  have hstart : RowFixed host eiData (n * entsize) [] mem mem := RowFixed.start mem
  obtain ⟨mem', hrun, hrow⟩ := hstart.run hle hf.swapped hf.apart
  rw [List.nil_append] at hrow
  have hearlier {i : Nat} (hi : i < n) {s t : Slot} (hs : s ∈ slots) :
      i * entsize + s.off + s.width ≤ n * entsize + t.off := by
    have hfit := hf.fits s hs
    have hstep := row_le i n entsize hi
    omega
  refine ⟨mem', hrun, hrow.length.trans h.length, fun i hi s hs => ?_, fun off width hout => ?_⟩
  · rcases Nat.lt_succ_iff_lt_or_eq.mp hi with hi | rfl
    · rw [hrow.frame _ _ fun t _ => .inl (hearlier hi hs), h.done i hi s hs]
    · rw [hrow.done s hs, h.frame _ _ fun j hj t ht => .inr (hearlier hj ht)]
  · rw [hrow.frame _ _ fun s hs => hout n (Nat.lt_succ_self n) s hs]
    exact h.frame off width fun i hi => hout i (Nat.lt_succ_of_lt hi)

theorem fixTable_fixed (hf : Fixable slots entsize) (hn : n * entsize ≤ raw.length) :
    ∃ mem, fixTable host eiData slots entsize n raw = .ok mem ∧
      TableFixed host eiData slots entsize n raw mem := by
  induction n with
  | zero => exact ⟨raw, rfl, rfl, nofun, fun _ _ _ => rfl⟩
  | succ n ih =>
    obtain ⟨mem, hrun, h⟩ := ih ((Nat.mul_le_mul_right entsize (Nat.le_succ n)).trans hn)
    obtain ⟨mem', hrow, h'⟩ := h.row hf hn
    refine ⟨mem', ?_, h'⟩
    rw [fixTable, List.range_succ, List.foldlM_append]
    change fixTable host eiData slots entsize n raw >>= _ = _
    rw [hrun, Res.ok_bind, List.foldlM_cons, hrow]
    rfl

theorem TableFixed.load (hf : Fixable slots entsize)
    (h : TableFixed host eiData slots entsize n raw mem) {i : Nat} (hi : i < n) {s : Slot}
    (hs : s ∈ slots) (hn : n * entsize ≤ raw.length) : loadAt host mem (i * entsize) s =
      .ok ((fileOrder host eiData).value (cell raw (i * entsize + s.off) s.width)) := by
  have hfit := hf.fits s hs
  have hstep := row_le i n entsize hi
  have hlen : (cell raw (i * entsize + s.off) s.width).length = s.width :=
    cell_length (by omega)
  have hlt := (fileOrder host eiData).value_lt (cell raw (i * entsize + s.off) s.width)
  rw [hlen] at hlt
  rw [loadAt_some host (by rw [h.length]; omega), h.done i hi s hs, host.value_bytes hlt]

theorem TableFixed.load_apart (hf : Fixable slots entsize)
    (h : TableFixed host eiData slots entsize n raw mem) {i : Nat} (hi : i < n) {s : Slot}
    (hfit : s.off + s.width ≤ entsize) (hs : ∀ t ∈ slots, t.Apart s)
    (hn : n * entsize ≤ raw.length) :
    loadAt host mem (i * entsize) s = .ok (host.value (cell raw (i * entsize + s.off) s.width)) := by
  have hstep := row_le i n entsize hi
  rw [loadAt_some host (by rw [h.length]; omega)]
  rw [h.frame]
  intro j hj t ht
  have hfit' := hf.fits t ht
  rcases Nat.lt_trichotomy i j with hij | rfl | hji
  · have hrow := row_le i j entsize hij
    omega
  · have hapart := hs t ht
    unfold Slot.Apart at hapart
    omega
  · have hrow := row_le j i entsize hji
    omega

end

end Gelpp.Elf
