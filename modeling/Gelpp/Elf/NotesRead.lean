import Gelpp.Elf.Notes

namespace Gelpp.Elf

section
variable {it : NoteIter} {o : ByteOrder} {n : Note} {notes : List Note}

theorem padding_eq_nil {m : Nat} (h : 4 ∣ m) : padding m = [] := by
  obtain ⟨k, rfl⟩ := h
  rw [padding, Nat.mul_mod_right]
  rfl

theorem padding_length (m : Nat) : (padding m).length = (4 - m % 4) % 4 := List.length_replicate

theorem Note.body_packed (hname : 4 ∣ n.name.length) (hdesc : 4 ∣ n.desc.length) :
    n.body = n.desc := by
  rw [Note.body, padding_eq_nil hname, padding_eq_nil hdesc, List.append_nil, List.nil_append]

theorem Note.encode_ne_nil (o : ByteOrder) (n : Note) : n.encode o ≠ [] := by
  intro h
  have hlen := congrArg List.length h
  simp only [Note.encode, List.length_append, n.header_length o, List.length_nil] at hlen
  omega

theorem encodeNotes_cons (o : ByteOrder) (n : Note) (notes : List Note) :
    encodeNotes o (n :: notes) = n.encode o ++ encodeNotes o notes := List.flatMap_cons

theorem collect_packed (hf : it.c.buf.fence = none) (hp : Packed (notes.map Note.shape))
    (h : it.c.rest = encodeNotes it.c.buf.decoder.order notes) {fuel : Nat}
    (hfuel : notes.length ≤ fuel) :
    (it.next >>= fun t => t.collect fuel) = .ok (notes.map Note.view) := by
  induction notes generalizing it fuel with
  | nil =>
    rw [next_end h]
    cases fuel <;> rfl
  | cons n notes ih =>
    obtain ⟨hname, hdesc, hlast, hp⟩ := hp
    rw [encodeNotes_cons] at h
    have hbody : n.body = n.desc := Note.body_packed hname hdesc
    have hne : n.body ++ encodeNotes it.c.buf.decoder.order notes ≠ [] := by
      intro hnil
      obtain ⟨hd, hnotes⟩ := List.append_eq_nil_iff.mp hnil
      cases notes with
      | nil =>
        refine hlast rfl ?_
        rw [← hbody, hd]
        rfl
      | cons m notes =>
        rw [encodeNotes_cons] at hnotes
        exact m.encode_ne_nil _ (List.append_eq_nil_iff.mp hnotes).1
    obtain ⟨t, ht, hended, hbuf, hrest, hitem⟩ := (next_note hf h).2 hne
    rw [hbody, List.drop_left] at hrest
    rw [hbody, List.take_left] at hitem
    rw [List.length_cons] at hfuel
    obtain ⟨k, rfl⟩ : ∃ k, fuel = k + 1 := ⟨fuel - 1, by omega⟩
    have hnext : (t.next >>= fun u => u.collect k) = .ok (notes.map Note.view) :=
      ih (by rw [hbuf, hf]) hp (by rw [hrest, hbuf]) (by omega)
    rw [ht, Res.ok_bind, NoteIter.collect, hended, if_neg Bool.false_ne_true]
    cases hn : t.next with
    | error e =>
      rw [hn] at hnext
      cases hnext
    | ok u =>
      rw [hn, Res.ok_bind] at hnext
      rw [Res.ok_bind, hnext, hitem]
      rfl

theorem readNotes_eq (fuel : Nat) (b : Buffer) : readNotes fuel ptNote b =
    (NoteIter.next { c := .start b } >>= fun t => t.collect fuel) := by
  rw [readNotes, NoteIter.make, if_pos rfl]

theorem notesRead_of_packed {d : Decoder} (hp : Packed (notes.map Note.shape)) :
    NotesRead d notes := by
  rintro b rfl hf hbytes
  refine ⟨notes.length, fun fuel hfuel => ?_⟩
  rw [readNotes_eq]
  have hrest : (Cursor.start b).rest = encodeNotes b.decoder.order notes := hbytes
  exact collect_packed hf hp hrest hfuel

-- Notes of the same lengths whose misread is visible: no byte of a descriptor is a padding, and a
-- type that is read a little too early is another one.
def spoil (o : ByteOrder) (n : Note) : Note where
  text := .replicate n.text.length 65
  type := .ofNat (o.value [1, 2, 2, 2])
  desc := .replicate n.desc.length 255
  text_nul b hb := by
    rw [List.eq_of_mem_replicate hb]
    decide
  text_lt := by
    rw [List.length_replicate]
    exact n.text_lt
  desc_lt := by
    rw [List.length_replicate]
    exact n.desc_lt

theorem spoil_shape (o : ByteOrder) (n : Note) : (spoil o n).shape = n.shape := by
  simp [Note.shape, Note.name, spoil]

theorem spoil_type (o : ByteOrder) (n : Note) :
    o.bytes 4 (spoil o n).type.toNat = [1, 2, 2, 2] := by
  have hlt : o.value [1, 2, 2, 2] < 2 ^ 32 := o.value_lt [1, 2, 2, 2]
  have htype : (spoil o n).type.toNat = o.value [1, 2, 2, 2] := by
    rw [spoil, UInt32.toNat_ofNat', Nat.mod_eq_of_lt hlt]
  rw [htype]
  exact o.bytes_value [1, 2, 2, 2]

theorem collect_cons {fuel : Nat} {v : NoteView} {vs : List NoteView}
    (h : it.collect fuel = .ok (v :: vs)) :
    ∃ k, it.item = v ∧ (it.next >>= fun t => t.collect k) = .ok vs := by
  cases fuel with
  | zero =>
    rw [NoteIter.collect] at h
    split at h <;> cases h
  | succ k =>
    rw [NoteIter.collect] at h
    split at h
    · cases h
    · obtain ⟨t, ht, h⟩ := Res.bind_ok.mp h
      obtain ⟨ws, hws, h⟩ := Res.bind_ok.mp h
      cases h
      refine ⟨k, rfl, ?_⟩
      rw [ht, Res.ok_bind, hws]

theorem blocks_type {namesz descsz type : UInt32} {c : Cursor} {t : NoteIter}
    (h : NoteIter.blocks namesz descsz type c = .ok t) : t.type = type := by
  rw [NoteIter.blocks] at h
  obtain ⟨r, hr, h⟩ := Res.bind_ok.mp h
  cases r with
  | none => cases h
  | some r =>
    obtain ⟨q, hq, h⟩ := Res.bind_ok.mp h
    cases q with
    | none => cases h
    | some q =>
      cases h
      rfl

theorem four_bytes {w : List UInt8} (h : w.length = 4) : ∃ a b c d, w = [a, b, c, d] := by
  match w, h with
  | [a, b, c, d], _ => exact ⟨a, b, c, d, rfl⟩

theorem shifted_words {w1 w2 tail : List UInt8} {p : Nat} (hpos : 1 ≤ p) (hle : p ≤ 3)
    (h1 : w1.length = 4) (h2 : w2.length = 4) :
    ∃ v1 v2 v3 rest : List UInt8, List.replicate p 0 ++ (w1 ++ (w2 ++ ([1, 2, 2, 2] ++ tail))) =
      v1 ++ (v2 ++ (v3 ++ rest)) ∧ v1.length = 4 ∧ v2.length = 4 ∧ v3.length = 4 ∧
      v3 ≠ [1, 2, 2, 2] := by
  obtain ⟨a, b, c, d, rfl⟩ := four_bytes h1
  obtain ⟨e, f, g, h, rfl⟩ := four_bytes h2
  obtain rfl | rfl | rfl : p = 1 ∨ p = 2 ∨ p = 3 := by omega
  · exact ⟨[0, a, b, c], [d, e, f, g], [h, 1, 2, 2], 2 :: tail, rfl, rfl, rfl, rfl, by simp⟩
  · exact ⟨[0, 0, a, b], [c, d, e, f], [g, h, 1, 2], 2 :: 2 :: tail, rfl, rfl, rfl, rfl, by simp⟩
  · exact ⟨[0, 0, 0, a], [b, c, d, e], [f, g, h, 1], 2 :: 2 :: 2 :: tail, rfl, rfl, rfl, rfl, by simp⟩

theorem next_shifted {tail : List UInt8} {p : Nat} {t : NoteIter} (hpos : 1 ≤ p) (hle : p ≤ 3)
    (hf : it.c.buf.fence = none)
    (h : it.c.rest = List.replicate p 0 ++ ((spoil it.c.buf.decoder.order n).encode
      it.c.buf.decoder.order ++ tail)) (ht : it.next = .ok t) :
    t.item.type ≠ (spoil it.c.buf.decoder.order n).type := by
  simp only [Note.encode, Note.header, List.append_assoc, spoil_type] at h
  obtain ⟨v1, v2, v3, rest, hwords, h1, h2, h3, hne⟩ := shifted_words hpos hle
    (ByteOrder.bytes_length _ _ _) (ByteOrder.bytes_length _ _ _)
  rw [hwords] at h
  obtain ⟨namesz, descsz, type, -, -, htype, hnext, -⟩ := next_words hf h h1 h2 h3
  rw [hnext] at ht
  have hread : t.item.type = type := blocks_type ht
  intro heq
  apply hne
  have hbytes := spoil_type it.c.buf.decoder.order n
  rw [← heq, hread, htype] at hbytes
  rw [← hbytes, ← h3, ByteOrder.bytes_value]

theorem shifted_lost {p fuel : Nat} (hpos : 1 ≤ p) (hle : p ≤ 3) (hf : it.c.buf.fence = none)
    (h : it.c.rest = List.replicate p 0 ++ encodeNotes it.c.buf.decoder.order
      (notes.map (spoil it.c.buf.decoder.order))) :
    (it.next >>= fun t => t.collect fuel) ≠
      .ok ((notes.map (spoil it.c.buf.decoder.order)).map Note.view) := by
  intro hrun
  cases notes with
  | nil =>
    have hlen : it.c.rest.length = p := by
      rw [h]
      simp [encodeNotes]
    have hne : it.c.rest ≠ [] := List.ne_nil_of_length_pos (by omega)
    rw [next_short hne (by omega)] at hrun
    cases hrun
  | cons n notes =>
    rw [List.map_cons, encodeNotes_cons] at h
    obtain ⟨t, ht, hcollect⟩ := Res.bind_ok.mp hrun
    obtain ⟨k, hitem, -⟩ := collect_cons hcollect
    exact next_shifted hpos hle hf h ht (congrArg NoteView.type hitem)

theorem padding_of_not_dvd {m : Nat} (h : ¬ 4 ∣ m) :
    ∃ p, 1 ≤ p ∧ p ≤ 3 ∧ padding m = .replicate p 0 :=
  ⟨(4 - m % 4) % 4, by omega, by omega, rfl⟩

theorem spoil_padding {tail : List UInt8} (hpack : ¬ (4 ∣ n.name.length ∧ 4 ∣ n.desc.length))
    (htake : ((spoil o n).body ++ tail).take (spoil o n).desc.length = (spoil o n).desc) :
    ∃ p, 1 ≤ p ∧ p ≤ 3 ∧
      ((spoil o n).body ++ tail).drop (spoil o n).desc.length = .replicate p 0 ++ tail := by
  have hshape := spoil_shape o n
  rw [Note.shape, Note.shape, Prod.mk.injEq] at hshape
  obtain ⟨hname, hdesc⟩ := hshape
  rw [← hname, ← hdesc] at hpack
  by_cases h1 : 4 ∣ (spoil o n).name.length
  · obtain ⟨p, hpos, hle, hpad⟩ := padding_of_not_dvd fun h2 => hpack ⟨h1, h2⟩
    refine ⟨p, hpos, hle, ?_⟩
    rw [Note.body, padding_eq_nil h1, List.nil_append, hpad, List.append_assoc, List.drop_left]
  · obtain ⟨p, hpos, hle, hpad⟩ := padding_of_not_dvd h1
    have hempty : n.desc.length = 0 := by
      by_contra hd
      obtain ⟨k, hk⟩ := Nat.exists_eq_succ_of_ne_zero hd
      obtain ⟨q, hq⟩ := Nat.exists_eq_succ_of_ne_zero (Nat.one_le_iff_ne_zero.mp hpos)
      rw [Note.body, hpad, hq, hdesc, hk] at htake
      simp [spoil, hk, List.replicate_succ] at htake
    refine ⟨p, hpos, hle, ?_⟩
    rw [Note.body, hpad, hdesc, hempty]
    simp [spoil, hempty, padding]

theorem not_packed_cons {shape : Nat × Nat} {shapes : List (Nat × Nat)}
    (h : ¬ Packed (shape :: shapes)) (hpack : 4 ∣ shape.1 ∧ 4 ∣ shape.2) :
    (shapes = [] ∧ shape.2 = 0) ∨ ¬ Packed shapes := by
  by_cases hs : Packed shapes
  · left
    by_contra hn
    exact h ⟨hpack.1, hpack.2, fun he hd => hn ⟨he, hd⟩, hs⟩
  · exact .inr hs

theorem spoiled_lost (hf : it.c.buf.fence = none) (hp : ¬ Packed (notes.map Note.shape))
    (h : it.c.rest = encodeNotes it.c.buf.decoder.order
      (notes.map (spoil it.c.buf.decoder.order))) (fuel : Nat) :
    (it.next >>= fun t => t.collect fuel) ≠
      .ok ((notes.map (spoil it.c.buf.decoder.order)).map Note.view) := by
  induction notes generalizing it fuel with
  | nil => exact absurd trivial hp
  | cons n notes ih =>
    intro hrun
    rw [List.map_cons, encodeNotes_cons] at h
    obtain ⟨hnil, hcons⟩ := next_note hf h
    by_cases hbody : (spoil it.c.buf.decoder.order n).body ++ encodeNotes it.c.buf.decoder.order
        (notes.map (spoil it.c.buf.decoder.order)) = []
    · rw [hnil hbody] at hrun
      cases hrun
    obtain ⟨t, ht, -, hbuf, hrest, hitem⟩ := hcons hbody
    rw [ht, Res.ok_bind] at hrun
    obtain ⟨k, hview, hrun⟩ := collect_cons hrun
    rw [hitem] at hview
    have htake := congrArg NoteView.desc hview
    dsimp only [Note.view] at htake
    by_cases hpack : 4 ∣ n.name.length ∧ 4 ∣ n.desc.length
    · have hshape := spoil_shape it.c.buf.decoder.order n
      rw [Note.shape, Note.shape, Prod.mk.injEq] at hshape
      obtain ⟨hname, hdesc⟩ := hshape
      have hpacked := Note.body_packed (hname.symm ▸ hpack.1) (hdesc.symm ▸ hpack.2)
      rcases not_packed_cons hp hpack with ⟨hlast, hd⟩ | hp
      · apply hbody
        have hnotes : notes = [] := List.map_eq_nil_iff.mp hlast
        have hd' : (spoil it.c.buf.decoder.order n).desc = [] :=
          List.length_eq_zero_iff.mp (hdesc.trans hd)
        rw [hpacked, hd', hnotes]
        rfl
      · rw [hpacked, List.drop_left, ← hbuf] at hrest
        rw [← hbuf] at hrun
        exact ih (by rw [hbuf, hf]) hp hrest k hrun
    · obtain ⟨p, hpos, hle, hdrop⟩ := spoil_padding hpack htake
      rw [hdrop, ← hbuf] at hrest
      rw [← hbuf] at hrun
      exact shifted_lost hpos hle (by rw [hbuf, hf]) hrest hrun

theorem Note.encode_length (o : ByteOrder) (n : Note) :
    (n.encode o).length = 12 + (n.shape.1 + (4 - n.shape.1 % 4) % 4) +
      (n.shape.2 + (4 - n.shape.2 % 4) % 4) := by
  simp only [Note.encode, Note.body, List.length_append, n.header_length o, padding_length,
    Note.shape]
  omega

theorem encodeNotes_length (o : ByteOrder) {notes notes' : List Note}
    (h : notes.map Note.shape = notes'.map Note.shape) :
    (encodeNotes o notes).length = (encodeNotes o notes').length := by
  induction notes generalizing notes' with
  | nil =>
    cases notes' with
    | nil => rfl
    | cons n' notes' => cases h
  | cons n notes ih =>
    cases notes' with
    | nil => cases h
    | cons n' notes' =>
      rw [List.map_cons, List.map_cons, List.cons.injEq] at h
      rw [encodeNotes_cons, encodeNotes_cons, List.length_append, List.length_append, ih h.2,
        n.encode_length, n'.encode_length, h.1]

theorem packed_iff {d : Decoder} (hsize : (encodeNotes d.order notes).length < 2 ^ 63) :
    (∀ notes', notes'.map Note.shape = notes.map Note.shape → NotesRead d notes') ↔
      Packed (notes.map Note.shape) := by
  constructor
  · intro hread
    by_contra hp
    have hshape : (notes.map (spoil d.order)).map Note.shape = notes.map Note.shape := by
      rw [List.map_map]
      exact List.map_congr_left fun n _ => spoil_shape d.order n
    let b : Buffer := {
      decoder := d
      bytes := encodeNotes d.order (notes.map (spoil d.order))
      size_lt := by rwa [encodeNotes_length d.order hshape] }
    obtain ⟨k, hk⟩ := hread _ hshape b rfl rfl rfl
    have hrun := hk k (Nat.le_refl k)
    rw [readNotes_eq] at hrun
    exact spoiled_lost rfl hp rfl k hrun
  · intro hp notes' hshape
    exact notesRead_of_packed (hshape ▸ hp)

end

def Cut (c : Cursor) : Prop :=
  ∃ w1 w2 w3 tail : List UInt8, c.rest = w1 ++ (w2 ++ (w3 ++ tail)) ∧ w1.length = 4 ∧
    w2.length = 4 ∧ w3.length = 4 ∧ (c.buf.decoder.order.value w1 = 0 ∧ tail = [] ∨
      c.buf.decoder.order.value w2 = 0 ∧ tail.length = c.buf.decoder.order.value w1)

def NoteStep (c c' : Cursor) : Prop :=
  ∃ it t : NoteIter, it.c = c ∧ it.next = .ok t ∧ t.ended = false ∧ t.c = c'

def NoteAt (b : Buffer) (c : Cursor) : Prop := Relation.ReflTransGen NoteStep (.start b) c

def InSegment (t : NoteIter) : Prop :=
  ∃ p, t.desc = some p ∧ t.name ≤ p ∧ p + t.descsz.toNat ≤ t.c.buf.size

def Finishes (x : Nat → Res (List NoteView)) : Prop :=
  (∃ notes k, ∀ fuel, k ≤ fuel → x fuel = .ok notes) ∨
    ∃ m k, ∀ fuel, k ≤ fuel → x fuel = .error (.exception m)

section
variable {it t : NoteIter} {b : Buffer} {c : Cursor}

theorem readBlock_cases {n : Nat} (hf : c.buf.fence = none) (hn : n < 2 ^ 32) :
    (n = 0 ∧ c.rest = [] ∧ c.readBlock n = .error (.fault .assertion)) ∨
    (c.rest.length < n ∧ c.readBlock n = .ok none) ∨
    (¬ (n = 0 ∧ c.rest = []) ∧ c.readBlock n = .ok (some (c.off, c.forward n)) ∧
      (c.forward n).rest.length + n = c.rest.length) := by
  by_cases hend : n = 0 ∧ c.rest = []
  · obtain ⟨rfl, hrest⟩ := hend
    exact .inl ⟨rfl, hrest, readBlock_end hf hrest⟩
  · right
    by_cases hlt : c.rest.length < n
    · exact .inl ⟨hlt, readBlock_short hn hlt⟩
    · right
      have hlen : (c.rest.take n).length = n := by
        rw [List.length_take]
        omega
      have hsplit := (List.take_append_drop n c.rest).symm
      have hne : c.rest.take n ++ c.rest.drop n ≠ [] := by
        rw [List.take_append_drop]
        intro hnil
        rw [hnil, List.length_nil] at hlt
        exact hend ⟨by omega, hnil⟩
      have hread := readBlock_rest hf hsplit hne
      rw [hlen] at hread
      refine ⟨hend, hread, ?_⟩
      rw [Cursor.forward_rest, List.length_drop]
      omega

theorem split_words {bs : List UInt8} (h : 12 ≤ bs.length) :
    ∃ w1 w2 w3 tail : List UInt8, bs = w1 ++ (w2 ++ (w3 ++ tail)) ∧ w1.length = 4 ∧
      w2.length = 4 ∧ w3.length = 4 := by
  refine ⟨bs.take 4, (bs.drop 4).take 4, (bs.drop 8).take 4, bs.drop 12, ?_, ?_, ?_, ?_⟩
  · have h1 := List.take_append_drop 4 bs
    have h2 := List.take_append_drop 4 (bs.drop 4)
    have h3 := List.take_append_drop 4 (bs.drop 8)
    rw [List.drop_drop] at h2 h3
    rw [h3, h2, h1]
  · rw [List.length_take]
    omega
  · rw [List.length_take, List.length_drop]
    omega
  · rw [List.length_take, List.length_drop]
    omega

theorem next_cut (hf : it.c.buf.fence = none) (h : Cut it.c) :
    it.next = .error (.fault .assertion) := by
  obtain ⟨w1, w2, w3, tail, hrest, h1, h2, h3, hcut⟩ := h
  obtain ⟨namesz, descsz, type, hn, hd, -, hnext, htail⟩ := next_words hf hrest h1 h2 h3
  rw [← hn, ← hd] at hcut
  have hf12 : (it.c.forward 12).buf.fence = none := hf
  rw [hnext, NoteIter.blocks]
  rcases readBlock_cases hf12 namesz.toNat_lt with ⟨-, -, hr⟩ | ⟨hlt, -⟩ | ⟨hne, hr, hlen⟩
  · rw [hr]
    rfl
  · rw [htail] at hlt
    rcases hcut with ⟨h0, -⟩ | ⟨-, heq⟩ <;> omega
  · rw [htail] at hne hlen
    have hdesc : descsz.toNat = 0 ∧ ((it.c.forward 12).forward namesz.toNat).rest = [] := by
      rcases hcut with ⟨h0, hnil⟩ | ⟨h0, heq⟩
      · exact absurd ⟨h0, hnil⟩ hne
      · exact ⟨h0, List.length_eq_zero_iff.mp (by omega)⟩
    have hf13 : ((it.c.forward 12).forward namesz.toNat).buf.fence = none := hf
    rw [hr, Res.ok_bind]
    dsimp only
    rw [hdesc.1, readBlock_end hf13 hdesc.2]
    rfl

theorem next_whole (hf : it.c.buf.fence = none) (hne : it.c.rest ≠ []) (h : ¬ Cut it.c) :
    it.next = NoteIter.malformed ∨ ∃ t, it.next = .ok t ∧ t.ended = false ∧ t.c.buf = it.c.buf ∧
      t.c.rest.length < it.c.rest.length ∧ InSegment t := by
  by_cases hshort : it.c.rest.length < 12
  · exact .inl (next_short hne hshort)
  obtain ⟨w1, w2, w3, tail, hrest, h1, h2, h3⟩ := split_words (Nat.le_of_not_lt hshort)
  obtain ⟨namesz, descsz, type, hn, hd, -, hnext, htail⟩ := next_words hf hrest h1 h2 h3
  have hlen := congrArg List.length hrest
  simp only [List.length_append, h1, h2, h3] at hlen
  have hf12 : (it.c.forward 12).buf.fence = none := hf
  rw [hnext, NoteIter.blocks]
  rcases readBlock_cases hf12 namesz.toNat_lt with ⟨h0, hnil, -⟩ | ⟨-, hr⟩ | ⟨-, hr, hlen13⟩
  · refine absurd ⟨w1, w2, w3, tail, hrest, h1, h2, h3, .inl ⟨hn ▸ h0, ?_⟩⟩ h
    rw [← htail, hnil]
  · left
    rw [hr]
    rfl
  · rw [htail] at hlen13
    rw [hr, Res.ok_bind]
    dsimp only
    have hf13 : ((it.c.forward 12).forward namesz.toNat).buf.fence = none := hf
    rcases readBlock_cases hf13 descsz.toNat_lt with ⟨h0, hnil, -⟩ | ⟨-, hr⟩ | ⟨-, hr, hlen14⟩
    · refine absurd ⟨w1, w2, w3, tail, hrest, h1, h2, h3, .inr ⟨hd ▸ h0, ?_⟩⟩ h
      rw [hnil, List.length_nil] at hlen13
      omega
    · left
      rw [hr]
      rfl
    · right
      rw [hr]
      have hin := ((it.c.forward 12).forward namesz.toNat).rest_length
      have hle := ((it.c.forward 12).forward namesz.toNat).off_le
      have hup := Cursor.off_le_forward (it.c.forward 12) namesz.toNat
      refine ⟨_, rfl, rfl, rfl, ?_, _, rfl, hup, ?_⟩
      · dsimp only
        omega
      · dsimp only [Cursor.forward_buf] at hin hle hlen14 ⊢
        omega

theorem next_congr {it' : NoteIter} (hc : it'.c = it.c) (ht : it.next = .ok t)
    (hended : t.ended = false) : it'.next = .ok t := by
  rw [NoteIter.next] at ht ⊢
  rw [hc]
  split at ht
  · cases ht
    cases hended
  · next hnot =>
    rw [if_neg hnot]
    exact ht

theorem collect_step {k : Nat} (hended : t.ended = false) : t.collect (k + 1) =
    (t.next >>= fun u => u.collect k) >>= fun notes => .ok (t.item :: notes) := by
  rw [NoteIter.collect, hended, if_neg Bool.false_ne_true, bind_assoc]
  rfl

theorem finishes_whole {n : Nat} (hf : b.fence = none) (h : ∀ c, NoteAt b c → ¬ Cut c)
    (hbuf : it.c.buf = b) (hat : NoteAt b it.c) (hn : it.c.rest.length ≤ n) :
    Finishes fun fuel => it.next >>= fun t => t.collect fuel := by
  induction n generalizing it with
  | zero =>
    have hnil : it.c.rest = [] := List.length_eq_zero_iff.mp (Nat.le_zero.mp hn)
    refine .inl ⟨[], 0, fun fuel _ => ?_⟩
    rw [next_end hnil]
    cases fuel <;> rfl
  | succ n ih =>
    by_cases hnil : it.c.rest = []
    · refine .inl ⟨[], 0, fun fuel _ => ?_⟩
      rw [next_end hnil]
      cases fuel <;> rfl
    rcases next_whole (hbuf ▸ hf) hnil (h it.c hat) with hbad | ⟨t, ht, hended, htbuf, hlen, -⟩
    · refine .inr ⟨"malformed note entry", 0, fun fuel _ => ?_⟩
      rw [hbad]
      rfl
    have hat' : NoteAt b t.c := hat.tail ⟨it, t, rfl, ht, hended, rfl⟩
    rcases ih (htbuf.trans hbuf) hat' (by omega) with ⟨notes, k, hk⟩ | ⟨m, k, hk⟩
    · refine .inl ⟨t.item :: notes, k + 1, fun fuel hfuel => ?_⟩
      obtain ⟨j, rfl⟩ : ∃ j, fuel = j + 1 := ⟨fuel - 1, by omega⟩
      have hrun := hk j (by omega)
      dsimp only at hrun ⊢
      rw [ht, Res.ok_bind, collect_step hended, hrun]
      rfl
    · refine .inr ⟨m, k + 1, fun fuel hfuel => ?_⟩
      obtain ⟨j, rfl⟩ : ∃ j, fuel = j + 1 := ⟨fuel - 1, by omega⟩
      have hrun := hk j (by omega)
      dsimp only at hrun ⊢
      rw [ht, Res.ok_bind, collect_step hended, hrun]
      rfl

theorem next_proceeds {it t : NoteIter} (hf : it.c.buf.fence = none) (ht : it.next = .ok t)
    (hended : t.ended = false) : t.c.buf = it.c.buf ∧ InSegment t := by
  by_cases hnil : it.c.rest = []
  · rw [next_end hnil] at ht
    cases ht
    cases hended
  by_cases hcut : Cut it.c
  · rw [next_cut hf hcut] at ht
    cases ht
  rcases next_whole hf hnil hcut with hbad | ⟨u, hu, -, hbuf, -, hin⟩
  · rw [hbad] at ht
    cases ht
  · rw [hu] at ht
    cases ht
    exact ⟨hbuf, hin⟩

theorem noteStep_buf {c' : Cursor} (hf : c.buf.fence = none) (h : NoteStep c c') :
    c'.buf = c.buf := by
  obtain ⟨it, t, rfl, ht, hended, rfl⟩ := h
  exact (next_proceeds hf ht hended).1

theorem noteAt_buf (hf : b.fence = none) (h : NoteAt b c) : c.buf = b := by
  induction h with
  | refl => rfl
  | tail _ hstep ih => exact (noteStep_buf (by rw [ih, hf]) hstep).trans ih

theorem cut_faults {c₀ : Cursor} (hf : c.buf.fence = none)
    (h : Relation.ReflTransGen NoteStep c₀ c) (hcut : Cut c) :
    ∃ k, ∀ it : NoteIter, it.c = c₀ → ∀ fuel, k ≤ fuel →
      (it.next >>= fun t => t.collect fuel) = .error (.fault .assertion) := by
  induction h using Relation.ReflTransGen.head_induction_on with
  | refl =>
    refine ⟨0, ?_⟩
    rintro it rfl fuel -
    rw [next_cut hf hcut]
    rfl
  | head hstep _ ih =>
    obtain ⟨it, t, rfl, ht, hended, rfl⟩ := hstep
    obtain ⟨k, hk⟩ := ih
    refine ⟨k + 1, fun it' hc fuel hfuel => ?_⟩
    obtain ⟨j, rfl⟩ : ∃ j, fuel = j + 1 := ⟨fuel - 1, by omega⟩
    rw [next_congr hc ht hended, Res.ok_bind, collect_step hended, hk t rfl j (by omega)]
    rfl

theorem finishes_iff (hf : b.fence = none) :
    Finishes (fun fuel => readNotes fuel ptNote b) ↔ ∀ c, NoteAt b c → ¬ Cut c := by
  have heq : (fun fuel => readNotes fuel ptNote b) =
      fun fuel => NoteIter.next { c := .start b } >>= fun t => t.collect fuel :=
    funext fun fuel => readNotes_eq fuel b
  rw [heq]
  constructor
  · intro hfin c hat hcut
    obtain ⟨k, hk⟩ := cut_faults (by rw [noteAt_buf hf hat, hf]) hat hcut
    rcases hfin with ⟨notes, j, hj⟩ | ⟨m, j, hj⟩
    · have hrun := hj (max j k) (Nat.le_max_left j k)
      dsimp only at hrun
      rw [hk { c := .start b } rfl (max j k) (Nat.le_max_right j k)] at hrun
      cases hrun
    · have hrun := hj (max j k) (Nat.le_max_left j k)
      dsimp only at hrun
      rw [hk { c := .start b } rfl (max j k) (Nat.le_max_right j k)] at hrun
      cases hrun
  · intro h
    exact finishes_whole hf h rfl .refl (Nat.le_refl _)

end

theorem next_inSegment {b : Buffer} {it t : NoteIter} (hf : b.fence = none) (hat : NoteAt b it.c)
    (ht : it.next = .ok t) (hended : t.ended = false) : t.c.buf = b ∧ InSegment t := by
  have hbuf := noteAt_buf hf hat
  obtain ⟨hsame, hin⟩ := next_proceeds (by rw [hbuf, hf]) ht hended
  exact ⟨hsame.trans hbuf, hin⟩

theorem notes_read_iff {d : Decoder} {notes : List Note} {b : Buffer}
    (hsize : (encodeNotes d.order notes).length < 2 ^ 63) (hf : b.fence = none) :
    ((∀ notes', notes'.map Note.shape = notes.map Note.shape → NotesRead d notes') ↔
      Packed (notes.map Note.shape)) ∧
    (Finishes (fun fuel => readNotes fuel ptNote b) ↔ ∀ c, NoteAt b c → ¬ Cut c) ∧
    ∀ it t : NoteIter, NoteAt b it.c → it.next = .ok t → t.ended = false →
      t.c.buf = b ∧ InSegment t :=
  ⟨packed_iff hsize, finishes_iff hf, fun _ _ => next_inSegment hf⟩

def littleDecoder : Decoder := decoder .little elfData2LSB

-- The build id of the GNU tools is such a note.
def gnuNote : Note where
  text := [71, 78, 85]
  type := 3
  desc := [222, 173, 190, 239]
  text_nul := by simp
  text_lt := by decide
  desc_lt := by decide

def coreNote : Note where
  text := [67, 79, 82, 69]
  type := 1
  desc := [1, 2, 3, 4]
  text_nul := by simp
  text_lt := by decide
  desc_lt := by decide

def littleBuffer (bytes : List UInt8) (h : bytes.length < 2 ^ 63) : Buffer :=
  { decoder := littleDecoder, bytes, size_lt := h }

-- The header of a note of type 7 with no name and no descriptor.
def bareHeader : Buffer := littleBuffer [0, 0, 0, 0, 0, 0, 0, 0, 7, 0, 0, 0] (by decide)

theorem notes_read_gnu :
    ((∀ notes', notes'.map Note.shape = [gnuNote].map Note.shape → NotesRead littleDecoder notes') ↔
      Packed ([gnuNote].map Note.shape)) ∧
    (Finishes (fun fuel => readNotes fuel ptNote bareHeader) ↔ ∀ c, NoteAt bareHeader c → ¬ Cut c) ∧
    ∀ it t : NoteIter, NoteAt bareHeader it.c → it.next = .ok t → t.ended = false →
      t.c.buf = bareHeader ∧ InSegment t :=
  notes_read_iff (by decide) rfl

-- Five bytes of name and three of padding.
theorem core_note_lost :
    ¬ NotesRead littleDecoder [coreNote] ∧ ¬ Finishes (fun fuel => readNotes fuel ptNote bareHeader) := by
  constructor
  · intro h
    obtain ⟨k, hk⟩ := h (littleBuffer (encodeNotes .little [coreNote]) (by decide)) rfl rfl rfl
    have hrun := hk (k + 2) (Nat.le_add_right k 2)
    cases hrun
  · rintro (⟨notes, k, hk⟩ | ⟨m, k, hk⟩)
    · cases hk k (Nat.le_refl k)
    · cases hk k (Nat.le_refl k)

end Gelpp.Elf
