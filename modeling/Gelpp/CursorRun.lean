import Gelpp.RoundTrip
import Gelpp.Elf.Notes

namespace Gelpp

-- The operations that move a cursor. `read` of a text is that of a cstring, and a cstring and a
-- string are written in the same way.
inductive Operation where
  | skip (s : UInt64)
  | move (o : UInt64)
  | read (k : Kind)
  | readString
  | readBlock (size : UInt64)
  | write (x : Item)

-- What an operation returns and where it leaves the cursor. It touches the bytes of the buffer from
-- the offset to `touched`.
structure Effected where
  done : Bool
  c : Cursor
  touched : Nat

def Kind.size : Kind → Nat
  | u8 => 1
  | i8 => 1
  | u16 => 2
  | i16 => 2
  | u32 => 4
  | i32 => 4
  | u64 => 8
  | i64 => 8
  | text => 1

namespace Cursor

def refused (c : Cursor) : Effected := { done := false, c, touched := c.off }

def perform (c : Cursor) : Operation → Res Effected
  | .skip s => do
    match ← c.skip s.toNat with
    | some d => return { done := true, c := d, touched := c.off }
    | none => return c.refused
  | .move o => do
    match ← c.move o.toNat with
    | some d => return { done := true, c := d, touched := c.off }
    | none => return c.refused
  | .read .text => do
    match ← c.readCString with
    | .absent => return c.refused
    | .unterminated d => return { done := false, c := d, touched := d.off }
    | .found _ d => return { done := true, c := d, touched := d.off }
  | .read k => do
    match ← c.readItem k with
    | some (_, d) => return { done := true, c := d, touched := d.off }
    | none => return c.refused
  | .readString => do
    -- string(r) copies r up to its NUL, which is past the end where the scan found none.
    match ← c.readCString with
    | .absent => return { done := true, c, touched := c.off }
    | .unterminated d => return { done := true, c := d, touched := d.buf.size + 1 }
    | .found _ d => return { done := true, c := d, touched := d.off }
  | .readBlock size => do
    match ← c.readBlock size.toNat with
    | some (_, d) => return { done := true, c := d, touched := c.off }
    | none => return c.refused
  | .write x =>
    match c.write x with
    | some d => return { done := true, c := d, touched := c.off + x.size }
    | none => return c.refused

def stringSize (c : Cursor) : Option Nat :=
  if 0 ∈ c.rest then some ((c.rest.takeWhile (· ≠ 0)).length + 1) else none

-- How many bytes an operation needs. No number is enough for a string that does not end.
def needs (c : Cursor) : Operation → Option Nat
  | .skip s => some s.toNat
  | .move _ => some 0
  | .read .text => c.stringSize
  | .read k => some k.size
  | .readString => c.stringSize
  | .readBlock size => some size.toNat
  | .write x => some x.size

def Fits (c : Cursor) (op : Operation) : Prop :=
  ∃ n, c.needs op = some n ∧ c.off + n ≤ c.buf.size

def Moves : Operation → Prop
  | .move _ => True
  | _ => False

structure Kept (c : Cursor) (op : Operation) (e : Effected) : Prop where
  inside : e.c.off ≤ e.c.buf.size
  size : e.c.buf.size = c.buf.size
  touched : e.touched ≤ c.buf.size
  refused : e.done = false → e.c.off = c.off
  answer : ¬ Moves op → (e.done = true ↔ c.Fits op)
  advanced : ¬ Moves op → e.done = true → ∃ n, c.needs op = some n ∧ e.c.off = c.off + n

def Safe (c : Cursor) (op : Operation) : Prop := ∃ e, c.perform op = .ok e ∧ Kept c op e

def Regular (c : Cursor) : Operation → Prop
  | .skip s => c.off + s.toNat < 2 ^ 64
  | .read .text => c.rest = [] ∨ 0 ∈ c.rest
  | .readString => 0 ∈ c.rest
  | .readBlock size => c.off + size.toNat < 2 ^ 64 ∧ (size = 0 → c.off < c.buf.size)
  | .write (.text s) => c.buf.size < c.off + (s.length + 1)
  | _ => True

def Along (P : Cursor → Operation → Prop) : Cursor → List Operation → Prop
  | _, [] => True
  | c, op :: ops => P c op ∧ ∀ e, c.perform op = .ok e → Along P e.c ops

section
variable {c d : Cursor} {op : Operation} {n t : Nat}

theorem kept_refused (hfit : ¬ c.Fits op) : Kept c op c.refused where
  inside := c.off_le
  size := rfl
  touched := c.off_le
  refused _ := rfl
  answer _ := iff_of_false Bool.false_ne_true hfit
  advanced _ h := by cases h

theorem kept_done (hneed : c.needs op = some n) (hfit : c.off + n ≤ c.buf.size)
    (hoff : d.off = c.off + n) (hsize : d.buf.size = c.buf.size) (ht : t ≤ c.buf.size) :
    Kept c op { done := true, c := d, touched := t } where
  inside := d.off_le
  size := hsize
  touched := ht
  refused h := by cases h
  answer _ := iff_of_true rfl ⟨n, hneed, hfit⟩
  advanced _ _ := ⟨n, hneed, hoff⟩

theorem not_fits (hneed : c.needs op = some n) (h : c.buf.size < c.off + n) : ¬ c.Fits op := by
  rintro ⟨m, hm, hle⟩
  rw [hneed] at hm
  cases hm
  omega

theorem safe_iff {e : Effected} (h : c.perform op = .ok e) : Safe c op ↔ Kept c op e := by
  constructor
  · rintro ⟨e', he', hkept⟩
    rw [h] at he'
    cases he'
    exact hkept
  · exact fun hkept => ⟨e, h, hkept⟩

theorem skip_safe_iff {s : UInt64} (hf : c.buf.fence = none) :
    Safe c (.skip s) ↔ c.off + s.toNat < 2 ^ 64 := by
  have hle := c.off_le
  have hlt := c.size_lt
  have hs := s.toNat_lt
  by_cases hwrap : c.off + s.toNat < 2 ^ 64
  · by_cases hfit : c.off + s.toNat ≤ c.buf.size
    · have hrun : c.perform (.skip s) =
          .ok { done := true, c := c.forward s.toNat, touched := c.off } := by
        rw [perform, skip_forward hf hfit]
        rfl
      rw [safe_iff hrun]
      exact iff_of_true (kept_done rfl hfit (forward_off hfit) rfl hle) hwrap
    · have hrun : c.perform (.skip s) = .ok c.refused := by
        rw [perform, skip_refused hf hwrap (Nat.lt_of_not_le hfit)]
        rfl
      rw [safe_iff hrun]
      exact iff_of_true (kept_refused (not_fits rfl (Nat.lt_of_not_le hfit))) hwrap
  · have ha : c.avail s.toNat := by
      unfold avail
      omega
    have hrun : c.perform (.skip s) =
        .ok { done := true, c := c.advance s.toNat ha, touched := c.off } := by
      rw [perform, skip, Buffer.demand_unfenced hf, Res.ok_bind, dif_pos ha]
      rfl
    rw [safe_iff hrun]
    refine iff_of_false (fun hkept => ?_) hwrap
    obtain ⟨m, hm, hfit⟩ := (hkept.answer id).mp rfl
    cases hm
    omega

theorem move_safe (hf : c.buf.fence = none) (o : UInt64) : Safe c (.move o) := by
  have hle := c.off_le
  by_cases ho : o.toNat ≤ c.buf.size
  · refine ⟨{ done := true, c := ⟨c.buf, o.toNat, ho⟩, touched := c.off }, ?_, ?_⟩
    · rw [perform, move_some hf ho]
      rfl
    · exact ⟨ho, rfl, hle, fun h => (by cases h), fun h => absurd trivial h,
        fun h => absurd trivial h⟩
  · refine ⟨c.refused, ?_, ?_⟩
    · rw [perform, move_none hf (Nat.lt_of_not_le ho)]
      rfl
    · exact ⟨hle, rfl, hle, fun _ => rfl, fun h => absurd trivial h, fun h => absurd trivial h⟩

theorem perform_word {α : Type} {k : Kind} {get : Buffer → Nat → α} {f : α → Item}
    (hf : c.buf.fence = none) (hk : k ≠ .text) (hread : c.readItem k = readAs f (c.read k.size get)) :
    Safe c (.read k) := by
  have hrun : c.perform (.read k) = (do
      match ← c.readItem k with
      | some (_, d) => return { done := true, c := d, touched := d.off }
      | none => return c.refused) := by
    cases k with
    | text => exact absurd rfl hk
    | _ => rfl
  have hneed : c.needs (.read k) = some k.size := by
    cases k with
    | text => exact absurd rfl hk
    | _ => rfl
  have hsize : k.size ≤ 8 := by cases k <;> decide
  by_cases hfit : c.off + k.size ≤ c.buf.size
  · rw [hread, readAs_some f hf hfit] at hrun
    exact ⟨_, hrun, kept_done hneed hfit (forward_off hfit) rfl (forward_off hfit ▸ hfit)⟩
  · have hlt := Nat.lt_of_not_le hfit
    rw [hread, readAs, read_none hf (by omega) hlt] at hrun
    exact ⟨_, hrun, kept_refused (not_fits hneed hlt)⟩

theorem word_safe (hf : c.buf.fence = none) {k : Kind} (hk : k ≠ .text) : Safe c (.read k) := by
  cases k with
  | text => exact absurd rfl hk
  | _ => exact perform_word hf hk rfl

theorem readCString_cases (hf : c.buf.fence = none) :
    (c.rest = [] ∧ c.readCString = .ok .absent) ∨
    (c.rest ≠ [] ∧ 0 ∉ c.rest ∧ c.readCString = .ok (.unterminated (c.forward c.rest.length))) ∨
    (0 ∈ c.rest ∧ ∃ chars, c.readCString = .ok (.found chars (c.forward (chars.length + 1))) ∧
      c.stringSize = some (chars.length + 1) ∧ c.off + (chars.length + 1) ≤ c.buf.size) := by
  have hlen := c.rest_length
  have hle := c.off_le
  rw [readCString]
  simp only [Buffer.demand_unfenced hf, Res.ok_bind]
  by_cases hnil : c.rest = []
  · exact .inl ⟨hnil, if_pos hnil⟩
  by_cases hzero : 0 ∈ c.rest
  · have hlt := (takeWhile_length_lt_iff c.rest).mpr hzero
    refine .inr (.inr ⟨hzero, c.rest.takeWhile (· ≠ 0), ?_, if_pos hzero, by omega⟩)
    rw [if_neg hnil, if_neg hlt.ne]
    rfl
  · have hall : c.rest.takeWhile (· ≠ 0) = c.rest := by
      refine List.takeWhile_eq_self_iff.mpr fun b hb => decide_eq_true ?_
      rintro rfl
      exact hzero hb
    refine .inr (.inl ⟨hnil, hzero, ?_⟩)
    rw [if_neg hnil, hall, if_pos rfl]
    rfl

theorem stringSize_none (h : 0 ∉ c.rest) : c.stringSize = none := if_neg h

theorem cstring_safe_iff (hf : c.buf.fence = none) :
    Safe c (.read .text) ↔ c.rest = [] ∨ 0 ∈ c.rest := by
  have hlen := c.rest_length
  have hle := c.off_le
  rcases readCString_cases hf with
    ⟨hnil, hread⟩ | ⟨hnil, hzero, hread⟩ | ⟨hzero, chars, hread, hs, hfit⟩
  · have hrun : c.perform (.read .text) = .ok c.refused := by
      rw [perform, hread]
      rfl
    rw [safe_iff hrun]
    refine iff_of_true (kept_refused ?_) (.inl hnil)
    rintro ⟨n, hn, -⟩
    rw [needs, stringSize_none (by rw [hnil]; exact List.not_mem_nil)] at hn
    cases hn
  · have hrun : c.perform (.read .text) = .ok {
        done := false, c := c.forward c.rest.length, touched := (c.forward c.rest.length).off } := by
      rw [perform, hread]
      rfl
    rw [safe_iff hrun]
    refine iff_of_false (fun hkept => ?_) (not_or.mpr ⟨hnil, hzero⟩)
    have hpos := List.length_pos_of_ne_nil hnil
    have hoff := hkept.refused rfl
    rw [forward_off (by omega)] at hoff
    omega
  · have hrun : c.perform (.read .text) = .ok {
        done := true, c := c.forward (chars.length + 1)
        touched := (c.forward (chars.length + 1)).off } := by
      rw [perform, hread]
      rfl
    rw [safe_iff hrun]
    exact iff_of_true (kept_done hs hfit (forward_off hfit) rfl (forward_off hfit ▸ hfit))
      (.inr hzero)

theorem string_safe_iff (hf : c.buf.fence = none) : Safe c .readString ↔ 0 ∈ c.rest := by
  have hunfit (hzero : 0 ∉ c.rest) : ¬ c.Fits .readString := by
    rintro ⟨n, hn, -⟩
    rw [needs, stringSize_none hzero] at hn
    cases hn
  rcases readCString_cases hf with
    ⟨hnil, hread⟩ | ⟨hnil, hzero, hread⟩ | ⟨hzero, chars, hread, hs, hfit⟩
  · have hzero : 0 ∉ c.rest := by
      rw [hnil]
      exact List.not_mem_nil
    have hrun : c.perform .readString = .ok { done := true, c, touched := c.off } := by
      rw [perform, hread]
      rfl
    rw [safe_iff hrun]
    exact iff_of_false (fun hkept => hunfit hzero ((hkept.answer id).mp rfl)) hzero
  · have hrun : c.perform .readString = .ok {
        done := true, c := c.forward c.rest.length
        touched := (c.forward c.rest.length).buf.size + 1 } := by
      rw [perform, hread]
      rfl
    rw [safe_iff hrun]
    exact iff_of_false (fun hkept => hunfit hzero ((hkept.answer id).mp rfl)) hzero
  · have hrun : c.perform .readString = .ok {
        done := true, c := c.forward (chars.length + 1)
        touched := (c.forward (chars.length + 1)).off } := by
      rw [perform, hread]
      rfl
    rw [safe_iff hrun]
    exact iff_of_true (kept_done hs hfit (forward_off hfit) rfl (forward_off hfit ▸ hfit)) hzero

theorem block_safe_iff (hf : c.buf.fence = none) {size : UInt64} :
    Safe c (.readBlock size) ↔
      c.off + size.toNat < 2 ^ 64 ∧ (size = 0 → c.off < c.buf.size) := by
  have hle := c.off_le
  have hlt := c.size_lt
  have hs := size.toNat_lt
  by_cases ha : c.avail size.toNat
  · by_cases hin : c.off < c.buf.size
    · have hrun : c.perform (.readBlock size) =
          .ok { done := true, c := c.advance size.toNat ha, touched := c.off } := by
        rw [perform, readBlock, dif_pos ha, here, Buffer.demand_unfenced hf, Res.ok_bind, if_pos hin]
        rfl
      rw [safe_iff hrun]
      by_cases hfit : c.off + size.toNat ≤ c.buf.size
      · refine iff_of_true (kept_done rfl hfit ?_ rfl hle) ⟨by omega, fun _ => hin⟩
        rw [advance_eq hfit, forward_off hfit]
      · refine iff_of_false (fun hkept => ?_) fun h => ?_
        · obtain ⟨m, hm, hmfit⟩ := (hkept.answer id).mp rfl
          cases hm
          exact hfit hmfit
        · exact not_avail h.1 (Nat.lt_of_not_le hfit) ha
    · have hrun : c.perform (.readBlock size) = .error (.fault .assertion) := by
        rw [perform, readBlock, dif_pos ha, here, Buffer.demand_unfenced hf, Res.ok_bind, if_neg hin]
        rfl
      refine iff_of_false ?_ fun h => ?_
      · rintro ⟨e, he, -⟩
        rw [hrun] at he
        cases he
      · have hpos : size ≠ 0 := fun h0 => hin (h.2 h0)
        have hne : size.toNat ≠ 0 := fun h0 => hpos (UInt64.toNat_inj.mp h0)
        exact not_avail h.1 (by omega) ha
  · have hrun : c.perform (.readBlock size) = .ok c.refused := by
      rw [perform, readBlock, dif_neg ha]
      rfl
    have hunfit : ¬ c.off + size.toNat ≤ c.buf.size := fun hfit => ha (avail_of_le hfit)
    rw [safe_iff hrun]
    refine iff_of_true (kept_refused (not_fits rfl (Nat.lt_of_not_le hunfit))) ⟨?_, fun h0 => ?_⟩
    · unfold avail at ha
      omega
    · rw [h0] at hunfit
      exact absurd hle hunfit

theorem write_safe_iff {x : Item} :
    Safe c (.write x) ↔ (x.Integer ∨ c.buf.size < c.off + x.size) := by
  have hle := c.off_le
  by_cases hfit : c.off + x.size ≤ c.buf.size
  · have hput : c.off + (x.bytes c.buf.decoder.host).length ≤ c.buf.size := by
      rwa [Item.bytes_length]
    have hsome : c.write x = some _ := if_pos hfit
    have hrun : c.perform (.write x) = .ok {
        done := true
        c := c.put (x.bytes c.buf.decoder.host) x.advance (x.advance_le_bytes _)
        touched := c.off + x.size } := by
      rw [perform, hsome]
      rfl
    have hoff : (c.put (x.bytes c.buf.decoder.host) x.advance (x.advance_le_bytes _)).off =
        c.off + x.advance := put_off hput
    rw [safe_iff hrun]
    constructor
    · intro hkept
      obtain ⟨n, hn, hadv⟩ := hkept.advanced id rfl
      cases hn
      refine .inl (Item.integer_of_advance ?_)
      dsimp only at hadv
      omega
    · rintro (hx | hlt)
      · refine kept_done rfl hfit (hoff.trans (by rw [Item.advance_integer hx])) ?_ hfit
        rw [put, dif_pos hput]
        exact Buffer.set_size hput
      · omega
  · have hrun : c.perform (.write x) = .ok c.refused := by
      rw [perform, write, if_neg hfit]
      rfl
    rw [safe_iff hrun]
    have hlt := Nat.lt_of_not_le hfit
    exact iff_of_true (kept_refused (not_fits rfl hlt)) (.inr hlt)

theorem safe_iff_regular (hf : c.buf.fence = none) (op : Operation) :
    Safe c op ↔ Regular c op := by
  cases op with
  | skip s => exact skip_safe_iff hf
  | move o => exact iff_of_true (move_safe hf o) trivial
  | read k =>
    by_cases hk : k = .text
    · rw [hk]
      exact cstring_safe_iff hf
    · refine iff_of_true (word_safe hf hk) ?_
      cases k with
      | text => exact absurd rfl hk
      | _ => trivial
  | readString => exact string_safe_iff hf
  | readBlock size => exact block_safe_iff hf
  | write x =>
    rw [write_safe_iff]
    cases x with
    | text s => exact or_iff_right id
    | _ => exact iff_of_true (.inl trivial) trivial

end

theorem perform_fence {c : Cursor} {op : Operation} (hf : c.buf.fence = none) :
    Meets (fun _ => True) (fun e => e.c.buf.fence = none) (c.perform op) := by
  have hany {α : Type} (x : Res α) : Meets (fun _ => True) (fun _ => True) x := by
    cases x <;> trivial
  cases op with
  | skip s =>
    refine (skip_meets hf).bind fun o ho => ?_
    cases o with
    | none => exact hf
    | some d => exact (congrArg Buffer.fence (ho d rfl).1).trans hf
  | move o =>
    rw [perform]
    by_cases ho : o.toNat ≤ c.buf.size
    · rw [move_some hf ho]
      exact hf
    · rw [move_none hf (Nat.lt_of_not_le ho)]
      exact hf
  | read k =>
    cases k with
    | text =>
      rw [perform]
      rcases readCString_cases hf with ⟨-, hread⟩ | ⟨-, -, hread⟩ | ⟨-, chars, hread, -, -⟩ <;>
        · rw [hread]
          exact hf
    | _ =>
      refine (hany _).exact_bind fun o ho _ => ?_
      cases o with
      | none => exact hf
      | some r => exact (congrArg Buffer.fence (readItem_off hf ho).1).trans hf
  | readString =>
    rw [perform]
    rcases readCString_cases hf with ⟨-, hread⟩ | ⟨-, -, hread⟩ | ⟨-, chars, hread, -, -⟩ <;>
      · rw [hread]
        exact hf
  | readBlock size =>
    rw [perform, readBlock]
    split
    · rw [bind_assoc]
      exact (hany _).bind fun _ _ => hf
    · exact hf
  | write x =>
    rw [perform, write]
    by_cases hfit : c.off + x.size ≤ c.buf.size
    · rw [if_pos hfit]
      exact (put_fence _ _ _ (x.advance_le_bytes _)).trans hf
    · rw [if_neg hfit]
      exact hf

theorem along_congr {P Q : Cursor → Operation → Prop}
    (h : ∀ c op, c.buf.fence = none → (P c op ↔ Q c op)) (ops : List Operation) {c : Cursor}
    (hf : c.buf.fence = none) : Along P c ops ↔ Along Q c ops := by
  induction ops generalizing c with
  | nil => exact Iff.rfl
  | cons op ops ih =>
    refine and_congr (h c op hf) (forall_congr' fun e => imp_congr_right fun he => ?_)
    exact ih ((perform_fence hf).of_ok he)

theorem cursor_safe_iff {c : Cursor} (hf : c.buf.fence = none) (ops : List Operation) :
    Along Safe c ops ↔ Along Regular c ops :=
  along_congr (fun _ op hd => safe_iff_regular hd op) ops hf

theorem cursor_safe_words :
    Along Safe (.start (blank Elf.elfData2LSB)) [.skip 2, .read .u16, .move 0, .write (.u8 5)] := by
  refine (cursor_safe_iff rfl _).mpr ⟨(by decide : 0 + 2 < 2 ^ 64), fun _ _ => ?_⟩
  exact ⟨trivial, fun _ _ => ⟨trivial, fun _ _ => ⟨trivial, fun _ _ => trivial⟩⟩⟩

-- The sum of 1 and 2^64 - 1 is 0, so the skip is done and goes back to the start.
theorem skip_goes_back :
    ¬ Along Safe (.start (blank Elf.elfData2LSB)) [.move 1, .skip 0xFFFFFFFFFFFFFFFF] := by
  intro h
  have hmoved := h.2 { done := true, c := ⟨blank Elf.elfData2LSB, 1, by decide⟩, touched := 0 } rfl
  have hskip := (skip_safe_iff rfl).mp hmoved.1
  exact absurd hskip (by decide)

end Cursor

end Gelpp
