import Gelpp.Dwarf.Within
import Gelpp.Library.Echo

namespace Gelpp

structure Window where
  start : Nat
  place : Nat
  length : Nat

structure Views (w : Window) (F B : Buffer) : Prop where
  fence : F.fence = some w.start
  size : F.size = w.start + w.length
  free : B.fence = none
  room : w.place + w.length ≤ B.size
  bytes : (B.bytes.drop w.place).take w.length = F.bytes.drop w.start
  decoder : B.decoder = F.decoder
  before : w.place ≤ w.start

structure Sees (w : Window) (c d : Cursor) : Prop extends Views w c.buf d.buf where
  inside : w.start ≤ c.off
  shift : d.off + w.start = c.off + w.place

-- Only a `loose` reading may ask for a byte that is not in the window.
def Barred (loose : Prop) (e : Stop) : Prop := loose ∧ e = .outside

namespace Buffer

variable {b : Buffer} {f lo hi : Nat}

theorem demand_inside (hf : b.fence = some f) (hlo : f ≤ lo) (hhi : hi ≤ b.size) :
    b.demand lo hi = .ok () := by
  rw [demand, hf]
  exact if_pos ⟨hlo, hhi⟩

theorem demand_outside (hf : b.fence = some f) (h : ¬ (f ≤ lo ∧ hi ≤ b.size)) :
    b.demand lo hi = .error .outside := by
  rw [demand, hf]
  exact if_neg h

theorem getU8_slice (b : Buffer) (off : Nat) : b.getU8 off = (b.slice off 1).headD 0 := by
  rw [getU8, slice, List.getD_eq_getElem?_getD, ← List.head?_drop]
  cases b.bytes.drop off <;> rfl

end Buffer

section
variable {w : Window} {F B : Buffer}

theorem Views.slice (h : Views w F B) {o o' k : Nat} (hlo : w.start ≤ o)
    (hhi : o + k ≤ w.start + w.length) (ho : o' + w.start = o + w.place) :
    B.slice o' k = F.slice o k := by
  obtain ⟨j, rfl⟩ := Nat.exists_eq_add_of_le hlo
  obtain rfl : o' = w.place + j := by omega
  rw [Buffer.slice, Buffer.slice, ← List.drop_drop, ← List.drop_drop, ← h.bytes, List.drop_take,
    List.take_take, Nat.min_eq_left (by omega)]

variable {c d : Cursor}

theorem Sees.off_le (h : Sees w c d) : c.off ≤ w.start + w.length := by
  rw [← h.size]
  exact c.off_le

theorem Sees.room_le (h : Sees w c d) : w.start + w.length - c.off ≤ d.buf.size - d.off := by
  have hle := h.off_le
  have hroom := h.room
  have hshift := h.shift
  omega

theorem Sees.place (h : Sees w c d) {c' d' : Cursor} (hc : c'.buf = c.buf) (hd : d'.buf = d.buf)
    (hlo : w.start ≤ c'.off) (hshift : d'.off + w.start = c'.off + w.place) : Sees w c' d' := by
  refine ⟨?_, hlo, hshift⟩
  rw [hc, hd]
  exact h.toViews

theorem Sees.forward (h : Sees w c d) {k : Nat} (hk : c.off + k ≤ c.buf.size) :
    Sees w (c.forward k) (d.forward k) := by
  have hroom := h.room
  have hsize := h.size
  have hshift := h.shift
  have hin := h.inside
  refine h.place rfl rfl ?_ ?_
  · rw [Cursor.forward_off hk]
    omega
  · rw [Cursor.forward_off hk, Cursor.forward_off (by omega)]
    omega

variable {α : Type} {k : Nat} {get : Buffer → Nat → α} {loose : Prop}

theorem stopped_outside {β γ : Type} {p : Prop} {R : β → γ → Prop} {y : Res γ} (hin : loose ∨ p)
    (hp : ¬ p) : Echo (Barred loose) R (.error .outside) y :=
  .stopped ⟨hin.resolve_right hp, rfl⟩

def Finds (w : Window) (x y : Option (α × Cursor)) : Prop :=
  ∃ v c d, x = some (v, c) ∧ y = some (v, d) ∧ Sees w c d

theorem Sees.read (h : Sees w c d) (hin : loose ∨ d.off + k ≤ w.place + w.length)
    (hget : ∀ o o', w.start ≤ o → o + k ≤ w.start + w.length →
      o' + w.start = o + w.place → get d.buf o' = get c.buf o) :
    Echo (Barred loose) (Finds w) (c.read k get) (d.read k get) := by
  have hshift := h.shift
  have hroom := h.room
  have hstart := h.inside
  have hsize := h.size
  by_cases hle : c.off + k ≤ c.buf.size
  · rw [Cursor.read, Buffer.demand_inside h.fence hstart hle, Res.ok_bind,
      dif_pos (Cursor.avail_of_le hle), Cursor.advance_eq hle, Cursor.read_some h.free (by omega)]
    refine .ok ⟨_, _, _, rfl, ?_, h.forward hle⟩
    rw [hget c.off d.off hstart (by omega) hshift]
  · rw [Cursor.read, Buffer.demand_outside h.fence fun hd => hle hd.2]
    exact stopped_outside hin (by omega)

theorem Sees.readU8 (h : Sees w c d) (hin : loose ∨ d.off + 1 ≤ w.place + w.length) :
    Echo (Barred loose) (Finds w) c.readU8 d.readU8 :=
  h.read hin fun o o' hlo hhi ho => by
    rw [Buffer.getU8_slice, Buffer.getU8_slice, h.slice hlo hhi ho]

theorem Sees.readI8 (h : Sees w c d) (hin : loose ∨ d.off + 1 ≤ w.place + w.length) :
    Echo (Barred loose) (Finds w) c.readI8 d.readI8 :=
  h.read hin fun o o' hlo hhi ho => by
    rw [Buffer.getI8, Buffer.getI8, Buffer.getU8_slice, Buffer.getU8_slice, h.slice hlo hhi ho]

theorem Sees.readU16 (h : Sees w c d) (hin : loose ∨ d.off + 2 ≤ w.place + w.length) :
    Echo (Barred loose) (Finds w) c.readU16 d.readU16 :=
  h.read hin fun o o' hlo hhi ho => by rw [Buffer.getU16, Buffer.getU16, h.slice hlo hhi ho, h.decoder]

theorem Sees.readU32 (h : Sees w c d) (hin : loose ∨ d.off + 4 ≤ w.place + w.length) :
    Echo (Barred loose) (Finds w) c.readU32 d.readU32 :=
  h.read hin fun o o' hlo hhi ho => by rw [Buffer.getU32, Buffer.getU32, h.slice hlo hhi ho, h.decoder]

theorem Sees.readU64 (h : Sees w c d) (hin : loose ∨ d.off + 8 ≤ w.place + w.length) :
    Echo (Barred loose) (Finds w) c.readU64 d.readU64 :=
  h.read hin fun o o' hlo hhi ho => by rw [Buffer.getU64, Buffer.getU64, h.slice hlo hhi ho, h.decoder]

theorem Cursor.forward_left (c : Cursor) (n e : Nat) : (c.forward n).left e = (c.left e).drop n := by
  rw [left, left, forward_rest, List.drop_take]
  by_cases h : c.off + n ≤ c.buf.size
  · rw [forward_off h, Nat.sub_add_eq]
  · have hlen := c.rest_length
    rw [List.drop_eq_nil_of_le (by omega), List.take_nil, List.take_nil]

structure Aims (w : Window) (o o' : Nat) : Prop where
  shift : w.start ≤ o → o ≤ w.start + w.length → o' + w.start = o + w.place
  same : w.place = w.start → o' = o

def Lands (w : Window) (o' : Nat) : Prop :=
  w.place = w.start ∧ w.place ≤ o' ∧ o' ≤ w.place + w.length

theorem Sees.aims (h : Sees w c d) (k : Nat) :
    Aims w ((c.off + k) % 2 ^ 64) ((d.off + k) % 2 ^ 64) := by
  have hsize := h.size
  have hlt := c.size_lt
  have hshift := h.shift
  have hbefore := h.before
  exact ⟨fun _ _ => by omega, fun _ => by omega⟩

theorem Sees.move (h : Sees w c d) {o o' : Nat} (ho : Aims w o o') (hin : loose ∨ Lands w o') :
    Echo (Barred loose) (fun x y => ∃ c' d', x = some c' ∧ y = some d' ∧ Sees w c' d') (c.move o)
      (d.move o') := by
  have hroom := h.room
  have hsize := h.size
  by_cases ho' : w.start ≤ o ∧ o ≤ c.buf.size
  · obtain ⟨hlo, hhi⟩ := ho'
    have hshift := ho.shift hlo (by omega)
    rw [Cursor.move, Buffer.demand_inside h.fence hlo hhi, Res.ok_bind, dif_pos hhi,
      Cursor.move_some h.free (by omega)]
    exact .ok ⟨_, _, rfl, rfl, h.place rfl rfl hlo hshift⟩
  · rw [Cursor.move, Buffer.demand_outside h.fence ho']
    refine stopped_outside hin fun hl => ho' ?_
    obtain ⟨hplace, hlo, hhi⟩ := hl
    have hsame := ho.same hplace
    omega

theorem Sees.skip (h : Sees w c d) {k : Nat}
    (hin : loose ∨ w.start ≤ (c.off + k) % 2 ^ 64 ∧ (c.off + k) % 2 ^ 64 ≤ w.start + w.length) :
    Echo (Barred loose) (fun x y => ∃ c' d', x = some c' ∧ y = some d' ∧ Sees w c' d' ∧
      c'.off = (c.off + k) % 2 ^ 64) (c.skip k) (d.skip k) := by
  have hroom := h.room
  have hsize := h.size
  by_cases hk : w.start ≤ (c.off + k) % 2 ^ 64 ∧ (c.off + k) % 2 ^ 64 ≤ c.buf.size
  · obtain ⟨hlo, hhi⟩ := hk
    have hshift := (h.aims k).shift hlo (by omega)
    have havail : d.avail k := by
      rw [Cursor.avail]
      omega
    rw [Cursor.skip, Buffer.demand_inside h.fence hlo hhi, Res.ok_bind, Cursor.skip,
      Buffer.demand_unfenced h.free, Res.ok_bind, dif_pos (show c.avail k from hhi), dif_pos havail]
    exact .ok ⟨_, _, rfl, rfl, h.place rfl rfl hlo hshift, rfl⟩
  · rw [Cursor.skip, Buffer.demand_outside h.fence hk]
    exact stopped_outside hin (by rwa [hsize] at hk)

theorem Sees.here (h : Sees w c d) (hin : loose ∨ d.off < w.place + w.length) :
    Echo (Barred loose) (fun o o' => o = c.off ∧ o' = d.off ∧ c.off < w.start + w.length) c.here
      d.here := by
  have hroom := h.room
  have hsize := h.size
  have hshift := h.shift
  by_cases hlt : c.off < c.buf.size
  · rw [Cursor.here, Buffer.demand_inside h.fence h.inside hlt, Res.ok_bind, if_pos hlt, Cursor.here,
      Buffer.demand_unfenced h.free, Res.ok_bind, if_pos (by omega)]
    exact .ok ⟨rfl, rfl, by omega⟩
  · rw [Cursor.here, Buffer.demand_outside h.fence fun hd => hlt hd.2]
    exact stopped_outside hin (by omega)

theorem Sees.left (h : Sees w c d) : d.left (w.place + w.length) = c.rest := by
  obtain ⟨j, hj⟩ := Nat.exists_eq_add_of_le h.inside
  have hshift := h.shift
  have hd : d.off = w.place + j := by omega
  rw [Cursor.left, Cursor.rest, Cursor.rest, hj, hd, Nat.add_sub_add_left, ← List.drop_drop,
    ← List.drop_drop, ← h.bytes, List.drop_take]

theorem Sees.rest (h : Sees w c d) : ∃ more, d.rest = c.rest ++ more :=
  ⟨d.rest.drop (w.place + w.length - d.off), by rw [← h.left, Cursor.left, List.take_append_drop]⟩

theorem Sees.readCString (h : Sees w c d) (hin : loose ∨ 0 ∈ d.left (w.place + w.length)) :
    Echo (Barred loose)
      (fun x y => ∃ chars c' d', x = .found chars c' ∧ y = .found chars d' ∧ Sees w c' d')
      c.readCString d.readCString := by
  rw [h.left] at hin
  by_cases hnul : (0 : UInt8) ∈ c.rest
  · obtain ⟨text, tail, hc, hnot⟩ := List.eq_append_cons_of_mem hnul
    obtain ⟨more, hd⟩ := h.rest
    have hle : c.off + (text.length + 1) ≤ c.buf.size := by
      have hsplit : c.rest = (text ++ [0]) ++ tail := by rw [hc, List.append_assoc]; rfl
      simpa using Cursor.off_add_le hsplit
    have hfound : c.readCString = .ok (.found text (c.forward (text.length + 1))) := by
      rw [Cursor.readCString, hc, Dwarf.takeWhile_text hnot,
        Buffer.demand_inside h.fence h.inside (by omega), Res.ok_bind, if_neg (by simp),
        if_neg (by simp)]
      rfl
    have hrest : d.rest = text ++ 0 :: (tail ++ more) := by
      rw [hd, hc, List.append_assoc, List.cons_append]
    rw [hfound, Dwarf.readCString_found h.free hnot hrest]
    exact .ok ⟨text, _, _, rfl, rfl, h.forward hle⟩
  · have hall : c.rest.takeWhile (· ≠ 0) = c.rest := by
      rw [List.takeWhile_eq_self_iff]
      intro a ha
      rw [decide_eq_true_eq]
      rintro rfl
      exact hnul ha
    have hlen := c.rest_length
    have hle := c.off_le
    rw [Cursor.readCString, hall, Buffer.demand_outside h.fence fun hd => by omega]
    exact stopped_outside hin hnul

end

namespace Dwarf

open Leb128 (Ended number afterNumber)

variable {loose : Prop} {w : Window} {c d : Cursor}

def Alike {α : Type} (w : Window) (x y : α × Cursor) : Prop := y.1 = x.1 ∧ Sees w x.2 y.2

theorem errorIf_echo {α : Type} {x y : Option (α × Cursor)} (h : Finds w x y) :
    Echo (Barred loose) (Alike w) (errorIf x) (errorIf y) := by
  obtain ⟨v, c, d, rfl, rfl, hcd⟩ := h
  exact .ok ⟨rfl, hcd⟩

structure LebAlike (loose : Prop) (w : Window) (s t : LebState) : Prop where
  c : Sees w s.c t.c
  r : t.r = s.r
  p : t.p = s.p
  more : t.more = s.more
  ends : loose ∨ (t.more = true → Ended (t.c.left (w.place + w.length)))

theorem left_cons {b : UInt8} {bs : List UInt8} {e : Nat} (h : d.left e = b :: bs) :
    d.off + 1 ≤ e ∧ ∃ tail, d.rest = b :: tail ∧ (d.forward 1).left e = bs := by
  have hafter : (d.forward 1).left e = bs := by
    rw [Cursor.forward_left, h]
    rfl
  have hlen : 1 ≤ e - d.off := by
    have := congrArg List.length h
    rw [Cursor.left, List.length_take, List.length_cons] at this
    omega
  refine ⟨by omega, d.rest.drop 1, ?_, hafter⟩
  rw [Cursor.left] at h
  cases hrest : d.rest with
  | nil =>
    rw [hrest, List.take_nil] at h
    cases h
  | cons b' tail =>
    rw [hrest, List.take_cons (by omega), List.cons.injEq] at h
    rw [h.1]
    rfl

theorem offsetSize_pos (is64 : Bool) : 0 < offsetSize is64 := by cases is64 <;> decide

theorem left_room {n e : Nat} (hn : 0 < n) (h : n ≤ (d.left e).length) : d.off + n ≤ e := by
  have hle := h.trans (List.length_take_le _ _)
  omega

theorem readLEB128U_left {e : Nat} {v : UInt64} {d' : Cursor} (hf : d.buf.fence = none)
    (he : Ended (d.left e)) (h : readLEB128U d = .ok (v, d')) :
    v = firstU (d.left e) ∧ d'.left e = afterNumber (d.left e) ∧
      d'.off = d.off + (number (d.left e)).length := by
  have hsplit := (List.take_append_drop (e - d.off) d.rest).symm
  have hnumber : number d.rest = number (d.left e) := by
    rw [hsplit]
    change number (d.left e ++ _) = _
    rw [← Leb128.number_append (d.left e), List.append_assoc, (Leb128.number_terminated he).number,
      Leb128.number_append]
  obtain ⟨-, hr⟩ := readLEB128U_ok hf h
  rw [Prod.mk.injEq] at hr
  obtain ⟨rfl, rfl⟩ := hr
  rw [hnumber]
  refine ⟨by rw [firstU, hnumber]; rfl, ?_, ?_⟩
  · rw [Cursor.forward_left]
    nth_rewrite 2 [← Leb128.number_append (d.left e)]
    exact List.drop_left
  · have happend : d.rest = number (d.left e) ++ afterNumber d.rest := by
      rw [← hnumber, Leb128.number_append]
    exact Cursor.forward_off (Cursor.off_add_le happend)

theorem lebBody_echo {s t : LebState} (h : LebAlike loose w s t) (hm : t.more = true) :
    Echo (Barred loose) (LebAlike loose w) (lebBody s) (lebBody t) := by
  have hcons : loose ∨ ∃ b bs, t.c.left (w.place + w.length) = b :: bs ∧ Ended (b :: bs) :=
    h.ends.imp_right fun he => by
      cases hleft : t.c.left (w.place + w.length) with
      | nil =>
        have hended := he hm
        simp [hleft, Ended] at hended
      | cons b bs => exact ⟨b, bs, rfl, hleft ▸ he hm⟩
  have hin : loose ∨ t.c.off + 1 ≤ w.place + w.length := by
    rcases hcons with hl | ⟨b, bs, hleft, -⟩
    · exact .inl hl
    · exact .inr (left_cons hleft).1
  refine (h.c.readU8 hin).exact_bind fun x y _ hy hxy => (errorIf_echo hxy).exact_bind ?_
  rintro ⟨b, c⟩ ⟨b', d⟩ - hb ⟨rfl, hcd⟩
  refine Echo.ite (by rw [h.p]) (fun _ => .error _) fun _ => .ok ⟨hcd, ?_, ?_, rfl, ?_⟩
  · rw [h.r, h.p]
  · rw [h.p]
  · refine hcons.imp_right fun hex hmore => ?_
    obtain ⟨a, bs, hleft, hended⟩ := hex
    obtain ⟨-, tail, hrest, hafter⟩ := left_cons hleft
    rw [Cursor.readU8_rest h.c.free hrest] at hy
    cases hy
    cases hb
    dsimp only at hmore ⊢
    rw [high_bit, decide_eq_true_eq] at hmore
    rw [hafter]
    exact (Leb128.ended_cons_of_le hmore).mp hended

theorem readLEB128_echo (h : Sees w c d) (hin : loose ∨ Ended (d.left (w.place + w.length))) :
    Echo (Barred loose) (LebAlike loose w) (readLEB128 c) (readLEB128 d) := by
  have hsize := h.size
  refine Echo.run (fun s => w.start + w.length - s.c.off) (fun _ _ hst => hst.more.symm)
    (fun s t _ hm hst => ?_) ?_ ?_ ⟨h, rfl, rfl, rfl, hin.imp_right fun he _ => he⟩
  · refine ((lebBody_echo hst hm).meets (lebBody_meets hst.c.free)).mono fun u v huv =>
      ⟨huv.1, ?_⟩
    have hoff := huv.2.off
    have hshift := hst.c.shift
    have hshift' := huv.1.c.shift
    have hle := huv.1.c.off_le
    omega
  · dsimp only
    omega
  · have hroom := h.room_le
    omega

theorem readLEB128U_echo (h : Sees w c d) (hin : loose ∨ Ended (d.left (w.place + w.length))) :
    Echo (Barred loose) (Alike w) (readLEB128U c) (readLEB128U d) :=
  (readLEB128_echo h hin).bind fun _ _ hst => .ok ⟨hst.r, hst.c⟩

theorem readLEB128S_echo (h : Sees w c d) (hin : loose ∨ Ended (d.left (w.place + w.length))) :
    Echo (Barred loose) (Alike w) (readLEB128S c) (readLEB128S d) :=
  (readLEB128_echo h hin).bind fun _ _ hst => .ok ⟨by rw [hst.r, hst.p], hst.c⟩

theorem readAddress_echo {is64 : Bool} (h : Sees w c d)
    (hin : loose ∨ d.off + offsetSize is64 ≤ w.place + w.length) :
    Echo (Barred loose) (Alike w) (readAddress is64 c) (readAddress is64 d) := by
  cases is64 with
  | true => exact (h.readU64 hin).bind fun x y hxy => errorIf_echo hxy
  | false =>
    refine Echo.bind (h.readU32 hin) fun x y hxy => (errorIf_echo hxy).bind ?_
    rintro ⟨a, c⟩ ⟨a', d⟩ ⟨rfl, hcd⟩
    exact .ok ⟨rfl, hcd⟩

theorem readHeaderLength_echo {is64 : Bool} (h : Sees w c d)
    (hin : loose ∨ d.off + offsetSize is64 ≤ w.place + w.length) :
    Echo (Barred loose) (Alike w) (readHeaderLength is64 c) (readHeaderLength is64 d) := by
  cases is64 with
  | true =>
    refine Echo.bind (h.readU64 hin) ?_
    rintro x y ⟨v, c, d, rfl, rfl, hcd⟩
    exact .ok ⟨rfl, hcd⟩
  | false =>
    refine Echo.bind (h.readU32 hin) ?_
    rintro x y ⟨v, c, d, rfl, rfl, hcd⟩
    exact .ok ⟨rfl, hcd⟩

theorem readUnitLength_echo (h : Sees w c d)
    (hin : loose ∨ ∃ v, readUnitLength d = .ok v ∧ v.2.2.off ≤ w.place + w.length) :
    Echo (Barred loose) (fun x y => y.1 = x.1 ∧ Alike w x.2 y.2) (readUnitLength c)
      (readUnitLength d) := by
  have h4 : loose ∨ d.off + 4 ≤ w.place + w.length := hin.imp_right fun ⟨v, hv, hle⟩ => by
    have hoff := ((readUnitLength_meets (A := Any) (fun _ => trivial) h.free).of_ok hv).off
    omega
  refine (h.readU32 h4).exact_bind fun x y _ hy hxy => (errorIf_echo hxy).exact_bind ?_
  rintro ⟨l, c⟩ ⟨l', d'⟩ - hb ⟨rfl, hcd⟩
  refine Echo.ite Iff.rfl (fun _ => .ok ⟨rfl, rfl, hcd⟩) fun hl => ?_
  have h8 : loose ∨ d'.off + 8 ≤ w.place + w.length := hin.imp_right fun ⟨v, hv, hle⟩ => by
    rw [readUnitLength, hy, Res.ok_bind, hb, Res.ok_bind] at hv
    dsimp only at hv hl
    rw [if_neg hl, ← bind_assoc] at hv
    obtain ⟨r, hr, hv⟩ := Res.bind_ok.mp hv
    cases hv
    have hoff := ((Cursor.readOrRaise_meets (A := Any) (fun _ => trivial) hcd.free (by omega)).of_ok hr).off
    dsimp only at hle hoff
    omega
  refine (hcd.readU64 h8).bind fun x y hxy => (errorIf_echo hxy).bind ?_
  rintro ⟨l, c⟩ ⟨l', d⟩ ⟨rfl, hcd⟩
  exact .ok ⟨rfl, rfl, hcd⟩

theorem readName_echo (h : Sees w c d) (hin : loose ∨ 0 ∈ d.left (w.place + w.length)) :
    Echo (Barred loose) (Alike w) (readName c) (readName d) := by
  refine (h.readCString hin).bind ?_
  rintro x y ⟨chars, c, d, rfl, rfl, hcd⟩
  exact .ok ⟨rfl, hcd⟩

theorem readInto_echo {old : CString} (h : Sees w c d)
    (hin : loose ∨ 0 ∈ d.left (w.place + w.length)) :
    Echo (Barred loose) (Alike w) (readInto c old) (readInto d old) := by
  refine (h.readCString hin).bind ?_
  rintro x y ⟨chars, c, d, rfl, rfl, hcd⟩
  exact .ok ⟨rfl, hcd⟩

def Shelved (c d : Cursor) : Prop := Views ⟨0, 0, d.buf.size⟩ c.buf d.buf

theorem readSect_echo {offset : UInt64} {old : CString} (h : Shelved c d)
    (hin : loose ∨ SectHas d offset) :
    Echo (Barred loose) (fun x y => y.1 = x.1 ∧ Shelved x.2 y.2) (readSect c offset old)
      (readSect d offset old) := by
  have hsize : c.buf.size = 0 + d.buf.size := h.size
  by_cases ho : offset.toNat ≤ c.buf.size
  · have ho' : offset.toNat ≤ d.buf.size := by omega
    rw [readSect, Cursor.move, Buffer.demand_inside h.fence (Nat.zero_le _) ho, Res.ok_bind,
      dif_pos ho, readSect, Cursor.move_some h.free ho']
    have hsees : Sees ⟨0, 0, d.buf.size⟩ { c with off := offset.toNat, off_le := ho }
        { d with off := offset.toNat, off_le := ho' } := ⟨h, Nat.zero_le _, rfl⟩
    have hnul : loose ∨ 0 ∈ Cursor.left { d with off := offset.toNat, off_le := ho' } (0 + d.buf.size) :=
      hin.imp_right fun hs => by
        rw [Cursor.left, List.take_of_length_le (by rw [Cursor.rest_length]; dsimp only; omega)]
        exact hs.2
    refine ((readInto_echo hsees hnul).meets (readInto_meets (A := Any) h.free)).mono
      fun x y hread => ?_
    obtain ⟨hxy, hpast⟩ := hread
    refine ⟨hxy.1, ?_⟩
    rw [Shelved, hpast.buf]
    exact hpast.buf ▸ hxy.2.toViews
  · rw [readSect, Cursor.move, Buffer.demand_outside h.fence fun hd => ho hd.2]
    exact stopped_outside hin fun hs => ho (by have := hs.1; omega)

end Dwarf

end Gelpp
