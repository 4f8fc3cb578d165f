import Gelpp.Consume
import Gelpp.Elf.Endian

namespace Gelpp

-- read(size, buf): the pointer to the block is the offset of its first byte.
def Cursor.readBlock (n : Nat) (c : Cursor) : Res (Option (Nat × Cursor)) :=
  if h : c.avail n then do
    let p ← c.here
    return some (p, c.advance n h)
  else return none

namespace Elf

def ptNote : Nat := 4

structure NoteIter where
  c : Cursor
  name : Nat := 0
  descsz : UInt32 := 0
  desc : Option Nat := none
  type : UInt32 := 0

namespace NoteIter

def ended (it : NoteIter) : Bool := it.desc.isNone

def malformed {α : Type} : Res α := .error (.exception "malformed note entry")

def word (c : Cursor) : Res (UInt32 × Cursor) := do
  match ← c.readU32 with
  | some r => return r
  | none => .error (.fault .unset)

def blocks (namesz descsz type : UInt32) (c : Cursor) : Res NoteIter := do
  match ← c.readBlock namesz.toNat with
  | none => malformed
  | some (name, c) =>
    match ← c.readBlock descsz.toNat with
    | none => malformed
    | some (desc, c) => return { c, name, descsz, desc := some desc, type }

def next (it : NoteIter) : Res NoteIter :=
  if it.c.ended then .ok { it with desc := none }
  else if it.c.avail 12 then do
    let (namesz, c) ← word it.c
    let (descsz, c) ← word c
    let (type, c) ← word c
    blocks namesz descsz type c
  else malformed

-- `type` is the one of the program header and `content` its bytes.
def make (type : Nat) (content : Buffer) : Res NoteIter :=
  if type = ptNote then next { c := .start content } else .error (.fault .assertion)

end NoteIter

structure NoteView where
  name : CString
  type : UInt32
  descsz : UInt32
  desc : List UInt8
  deriving DecidableEq

def textAt (b : Buffer) (p : Nat) : CString :=
  let chars := (b.bytes.drop p).takeWhile (· ≠ 0)
  if chars.length = (b.bytes.drop p).length then .wild else .text chars

namespace NoteIter

def item (it : NoteIter) : NoteView where
  name := textAt it.c.buf it.name
  type := it.type
  descsz := it.descsz
  desc := it.c.buf.slice (it.desc.getD 0) it.descsz.toNat

def collect : Nat → NoteIter → Res (List NoteView)
  | 0, it => if it.ended then .ok [] else .error .steps
  | n + 1, it =>
    if it.ended then .ok []
    else do
      let t ← it.next
      let notes ← collect n t
      return it.item :: notes

end NoteIter

def readNotes (fuel type : Nat) (content : Buffer) : Res (List NoteView) := do
  let it ← NoteIter.make type content
  it.collect fuel

structure Note where
  text : List UInt8
  type : UInt32
  desc : List UInt8
  text_nul : ∀ b ∈ text, b ≠ 0
  text_lt : text.length + 1 < 2 ^ 32
  desc_lt : desc.length < 2 ^ 32

def padding (n : Nat) : List UInt8 := .replicate ((4 - n % 4) % 4) 0

namespace Note

def name (n : Note) : List UInt8 := n.text ++ [0]

def header (o : ByteOrder) (n : Note) : List UInt8 :=
  o.bytes 4 n.name.length ++ o.bytes 4 n.desc.length ++ o.bytes 4 n.type.toNat

def body (n : Note) : List UInt8 := padding n.name.length ++ n.desc ++ padding n.desc.length

def encode (o : ByteOrder) (n : Note) : List UInt8 := n.header o ++ n.name ++ n.body

def view (n : Note) : NoteView where
  name := .text n.text
  type := n.type
  descsz := .ofNat n.desc.length
  desc := n.desc

def shape (n : Note) : Nat × Nat := (n.name.length, n.desc.length)

end Note

def encodeNotes (o : ByteOrder) (notes : List Note) : List UInt8 := notes.flatMap (Note.encode o)

def NotesRead (d : Decoder) (notes : List Note) : Prop :=
  ∀ b : Buffer, b.decoder = d → b.fence = none → b.bytes = encodeNotes d.order notes →
    ∃ k, ∀ fuel, k ≤ fuel → readNotes fuel ptNote b = .ok (notes.map Note.view)

def Packed : List (Nat × Nat) → Prop
  | [] => True
  | (name, desc) :: shapes => 4 ∣ name ∧ 4 ∣ desc ∧ (shapes = [] → desc ≠ 0) ∧ Packed shapes

section
variable {it : NoteIter} {c : Cursor} {bs tail : List UInt8}

theorem readBlock_rest (hf : c.buf.fence = none) (h : c.rest = bs ++ tail) (hne : bs ++ tail ≠ []) :
    c.readBlock bs.length = .ok (some (c.off, c.forward bs.length)) := by
  have hle := Cursor.off_add_le h
  have hlt := c.size_lt
  have hrest := c.rest_length
  have hpos : 0 < (bs ++ tail).length := List.length_pos_of_ne_nil hne
  rw [h] at hrest
  have hin : c.off < c.buf.size := by omega
  rw [Cursor.readBlock, dif_pos (Cursor.avail_of_le hle), Cursor.here, Buffer.demand_unfenced hf,
    Res.ok_bind, if_pos hin, Cursor.advance_eq hle]
  rfl

theorem readBlock_short {n : Nat} (hn : n < 2 ^ 32) (h : c.rest.length < n) :
    c.readBlock n = .ok none := by
  have hrest := c.rest_length
  have hle := c.off_le
  have hlt := c.size_lt
  rw [Cursor.readBlock, dif_neg (Cursor.not_avail (by omega) (by omega))]
  rfl

theorem readBlock_end (hf : c.buf.fence = none) (h : c.rest = []) :
    c.readBlock 0 = .error (.fault .assertion) := by
  have hrest := c.rest_length
  have hle := c.off_le
  have hlt := c.size_lt
  rw [h, List.length_nil] at hrest
  have hin : ¬ c.off < c.buf.size := by omega
  rw [Cursor.readBlock, dif_pos (Cursor.avail_of_le (n := 0) hle), Cursor.here,
    Buffer.demand_unfenced hf, Res.ok_bind,
    if_neg hin]
  rfl

theorem next_end (h : it.c.rest = []) : it.next = .ok { it with desc := none } := by
  have hrest := it.c.rest_length
  rw [h, List.length_nil] at hrest
  have hended : it.c.ended = true := by
    rw [Cursor.ended, decide_eq_true_eq]
    omega
  rw [NoteIter.next, if_pos hended]

theorem next_short (hne : it.c.rest ≠ []) (h : it.c.rest.length < 12) :
    it.next = NoteIter.malformed := by
  have hrest := it.c.rest_length
  have hle := it.c.off_le
  have hlt := it.c.size_lt
  have hpos := List.length_pos_of_ne_nil hne
  have hended : ¬ it.c.ended = true := by
    rw [Cursor.ended, decide_eq_true_eq]
    omega
  rw [NoteIter.next, if_neg hended, if_neg (Cursor.not_avail (by omega) (by omega))]

theorem word_rest (hf : c.buf.fence = none) (h : c.rest = bs ++ tail) (hlen : bs.length = 4) :
    ∃ v : UInt32, v.toNat = c.buf.decoder.order.value bs ∧
      NoteIter.word c = .ok (v, c.forward 4) := by
  obtain ⟨v, hv, hread⟩ := Cursor.readU32_rest hf h hlen
  refine ⟨v, hv, ?_⟩
  rw [NoteIter.word, hread, hlen]
  rfl

theorem next_words {w1 w2 w3 : List UInt8} (hf : it.c.buf.fence = none)
    (h : it.c.rest = w1 ++ (w2 ++ (w3 ++ tail))) (h1 : w1.length = 4) (h2 : w2.length = 4)
    (h3 : w3.length = 4) :
    ∃ namesz descsz type : UInt32, namesz.toNat = it.c.buf.decoder.order.value w1 ∧
      descsz.toNat = it.c.buf.decoder.order.value w2 ∧
      type.toNat = it.c.buf.decoder.order.value w3 ∧
      it.next = NoteIter.blocks namesz descsz type (it.c.forward 12) ∧
      (it.c.forward 12).rest = tail := by
  have hrest := it.c.rest_length
  have hle := it.c.off_le
  have hlt := it.c.size_lt
  rw [h] at hrest
  simp only [List.length_append, h1, h2, h3] at hrest
  have hended : ¬ it.c.ended = true := by
    rw [Cursor.ended, decide_eq_true_eq]
    omega
  have havail : it.c.avail 12 := Cursor.avail_of_le (by omega)
  have hrest1 := Cursor.forward_tail h
  rw [h1] at hrest1
  have hrest2 := Cursor.forward_tail hrest1
  rw [h2, Cursor.forward_forward] at hrest2
  have hrest3 := Cursor.forward_tail hrest2
  rw [h3, Cursor.forward_forward] at hrest3
  obtain ⟨namesz, hn, hread1⟩ := word_rest hf h h1
  obtain ⟨descsz, hd, hread2⟩ := word_rest (c := it.c.forward 4) hf hrest1 h2
  obtain ⟨type, ht, hread3⟩ := word_rest (c := it.c.forward (4 + 4)) hf hrest2 h3
  refine ⟨namesz, descsz, type, hn, hd, ht, ?_, hrest3⟩
  rw [Cursor.forward_forward] at hread2 hread3
  rw [NoteIter.next, if_neg hended, if_pos havail, hread1, Res.ok_bind]
  dsimp only
  rw [hread2, Res.ok_bind]
  dsimp only
  rw [hread3]
  rfl

theorem textAt_nul {text : List UInt8} (hnul : ∀ b ∈ text, b ≠ 0) (h : c.rest = text ++ 0 :: tail) :
    textAt c.buf c.off = .text text := by
  have htake : c.rest.takeWhile (· ≠ 0) = text := by
    rw [h, List.takeWhile_append_of_pos (fun b hb => by simpa using hnul b hb)]
    simp
  have hshort : ¬ text.length = c.rest.length := by
    rw [h, List.length_append, List.length_cons]
    omega
  change (if (c.rest.takeWhile (· ≠ 0)).length = c.rest.length then CString.wild
    else .text (c.rest.takeWhile (· ≠ 0))) = _
  rw [htake, if_neg hshort]

theorem Note.name_length (n : Note) : n.name.length = n.text.length + 1 := by
  rw [Note.name, List.length_append, List.length_singleton]

theorem Note.header_length (o : ByteOrder) (n : Note) : (n.header o).length = 12 := by
  simp [Note.header]

theorem Note.desc_le_body (n : Note) : n.desc.length ≤ n.body.length := by
  simp only [Note.body, List.length_append]
  omega

theorem word_value (o : ByteOrder) {v : UInt32} {m : Nat} (hm : m < 2 ^ 32)
    (h : v.toNat = o.value (o.bytes 4 m)) : v = .ofNat m := by
  apply UInt32.toNat_inj.mp
  rw [h, ByteOrder.value_bytes o (by omega), UInt32.toNat_ofNat', Nat.mod_eq_of_lt hm]

theorem next_header {n : Note} (hf : it.c.buf.fence = none)
    (h : it.c.rest = n.encode it.c.buf.decoder.order ++ tail) :
    it.next = NoteIter.blocks (.ofNat n.name.length) (.ofNat n.desc.length) n.type (it.c.forward 12) ∧
      (it.c.forward 12).rest = n.name ++ (n.body ++ tail) := by
  simp only [Note.encode, Note.header, List.append_assoc] at h
  obtain ⟨namesz, descsz, type, hn, hd, ht, hnext, hrest⟩ :=
    next_words hf h (ByteOrder.bytes_length _ _ _) (ByteOrder.bytes_length _ _ _)
      (ByteOrder.bytes_length _ _ _)
  have hnlt : n.name.length < 2 ^ 32 := by
    rw [n.name_length]
    exact n.text_lt
  have htype : type = n.type := by
    rw [word_value _ n.type.toNat_lt ht, UInt32.ofNat_toNat]
  rw [hnext, word_value _ hnlt hn, word_value _ n.desc_lt hd, htype]
  exact ⟨rfl, hrest⟩

theorem next_note {n : Note} (hf : it.c.buf.fence = none)
    (h : it.c.rest = n.encode it.c.buf.decoder.order ++ tail) :
    (n.body ++ tail = [] → it.next = .error (.fault .assertion)) ∧
    (n.body ++ tail ≠ [] → ∃ t, it.next = .ok t ∧ t.ended = false ∧ t.c.buf = it.c.buf ∧
      t.c.rest = (n.body ++ tail).drop n.desc.length ∧
      t.item = { n.view with desc := (n.body ++ tail).take n.desc.length }) := by
  obtain ⟨hnext, hrest⟩ := next_header hf h
  have hnlen : (UInt32.ofNat n.name.length).toNat = n.name.length := by
    apply UInt32.toNat_ofNat_of_lt'
    rw [n.name_length]
    exact n.text_lt
  have hdlen : (UInt32.ofNat n.desc.length).toNat = n.desc.length :=
    UInt32.toNat_ofNat_of_lt' n.desc_lt
  have hf12 : (it.c.forward 12).buf.fence = none := hf
  have hne : n.name ++ (n.body ++ tail) ≠ [] := by simp [Note.name]
  have hname := readBlock_rest hf12 hrest hne
  have hafter := Cursor.forward_tail hrest
  rw [hnext, NoteIter.blocks, hnlen, hname]
  have hf13 : ((it.c.forward 12).forward n.name.length).buf.fence = none := hf
  constructor
  · intro hempty
    have hd0 : n.desc.length = 0 := by
      have := n.desc_le_body
      rw [List.append_eq_nil_iff.mp hempty |>.1] at this
      simpa using this
    rw [Res.ok_bind]
    dsimp only
    rw [hdlen, hd0, readBlock_end hf13 (hafter.trans hempty)]
    rfl
  · intro hnonempty
    have hlen : ((n.body ++ tail).take n.desc.length).length = n.desc.length := by
      have := n.desc_le_body
      rw [List.length_take, List.length_append]
      omega
    have hsplit := hafter.trans (List.take_append_drop n.desc.length _).symm
    have hdesc := readBlock_rest hf13 hsplit (by rwa [List.take_append_drop])
    have hslice := Cursor.slice_rest hsplit
    rw [hlen] at hdesc hslice
    have hdrop := Cursor.forward_tail hsplit
    rw [hlen] at hdrop
    have hzero : (it.c.forward 12).rest = n.text ++ 0 :: (n.body ++ tail) := by
      rw [hrest, Note.name, List.append_assoc]
      rfl
    have htext : textAt it.c.buf (it.c.forward 12).off = .text n.text :=
      textAt_nul n.text_nul hzero
    change it.c.buf.slice ((it.c.forward 12).forward n.name.length).off n.desc.length = _ at hslice
    refine ⟨{
      c := ((it.c.forward 12).forward n.name.length).forward n.desc.length
      name := (it.c.forward 12).off
      descsz := .ofNat n.desc.length
      desc := some ((it.c.forward 12).forward n.name.length).off
      type := n.type }, ?_, rfl, rfl, hdrop, ?_⟩
    · rw [Res.ok_bind]
      dsimp only
      rw [hdlen, hdesc]
      rfl
    · change NoteView.mk (textAt it.c.buf (it.c.forward 12).off) n.type (.ofNat n.desc.length)
        (it.c.buf.slice ((it.c.forward 12).forward n.name.length).off
          (UInt32.ofNat n.desc.length).toNat) = _
      rw [htext, hdlen, hslice]
      rfl

end

end Elf

end Gelpp
