import Gelpp.Elf.Load

namespace Gelpp.Elf

open FileM

section
variable (f : File)

def fresh (n : Nat) : List UInt8 := (List.range n).map f.junk

@[simp] theorem fresh_length (n : Nat) : (fresh f n).length = n := by
  simp [fresh]

def ticked (ops : List Asked) : File :=
  { f with stream.count := f.stream.count + ops.length, stream.asked := f.stream.asked ++ ops }

def asks (pos size : Nat) : List Asked := [.moveTo (.ofNat pos), .read (.ofNat size)]

def consulted (pos size : Nat) : File := ticked f (asks pos size)

def Serves : Prop :=
  f.stream.fails f.stream.count = false ∧ f.stream.fails (f.stream.count + 1) = false

instance : Decidable (Serves f) := by
  unfold Serves
  infer_instance

def streamBytes (pos size : Nat) : List UInt8 :=
  (f.stream.bytes.drop (pos % 2 ^ 32)).take (size % 2 ^ 32)

theorem streamBytes_length_le (pos size : Nat) : (streamBytes f pos size).length ≤ size % 2 ^ 32 :=
  List.length_take_le _ _

variable {f}

theorem tick_run (op : Asked) :
    (tick op).run f = (.ok (f.stream.fails f.stream.count), ticked f [op]) := rfl

@[simp] theorem ticked_nil : ticked f [] = f := by
  simp only [ticked, List.length_nil, Nat.add_zero, List.append_nil]

theorem ticked_ticked (ops more : List Asked) : ticked (ticked f ops) more = ticked f (ops ++ more) := by
  simp only [ticked, List.length_append, List.append_assoc, Nat.add_assoc]

theorem streamBytes_delivered (pos size : Nat) :
    InStream.delivered f.stream.bytes (UInt32.ofNat pos).toNat (toInt (UInt32.ofNat size).toNat) =
      streamBytes f pos size := by
  rw [InStream.delivered, count_toInt, UInt32.toNat_ofNat', UInt32.toNat_ofNat', Nat.mod_mod,
    streamBytes]

theorem answered_iff (pos size : Nat) :
    UInt32.ofInt (InStream.answer (streamBytes f pos size)) ≠ .ofNat size ↔
      (streamBytes f pos size).length ≠ size % 2 ^ 32 := by
  have hlen := streamBytes_length_le f pos size
  have hlt := Nat.mod_lt size (Nat.two_pow_pos 32)
  rw [InStream.answer, ofInt_toInt, ne_eq, ← UInt32.toNat_inj, UInt32.toNat_ofNat',
    UInt32.toNat_ofNat', Nat.mod_eq_of_lt (by omega)]

theorem readAt_served (hs : Serves f) (pos size : Nat) (buf : List UInt8) :
    (readAt pos size buf).run f =
      if buf.length < (streamBytes f pos size).length then (.error (.fault .bounds), consulted f pos size)
      else if (streamBytes f pos size).length ≠ size % 2 ^ 32 then
        (.error (.exception (cannotRead f (size % 2 ^ 32))), consulted f pos size)
      else (.ok (streamBytes f pos size ++ buf.drop (streamBytes f pos size).length),
        consulted f pos size) := by
  have hmove : (tick (.moveTo (.ofNat pos))).run f = (.ok false, ticked f [.moveTo (.ofNat pos)]) := by
    rw [tick_run, hs.1]
  have hread : (tick (.read (.ofNat size))).run (ticked f [.moveTo (.ofNat pos)]) =
      (.ok false, consulted f pos size) := by
    rw [tick_run, ticked_ticked]
    exact Prod.ext (congrArg Except.ok hs.2) rfl
  rw [readAt, Effect.get_bind, Effect.bind_of_ok hmove, if_neg (by simp), FileM.read, Effect.get_bind,
    Effect.bind_of_ok hread, if_neg (by simp)]
  dsimp only
  rw [streamBytes_delivered, Effect.ite_run, Effect.ite_run]
  simp only [answered_iff, UInt32.toNat_ofNat']
  rfl

-- When the move fails the size is not given to the stream.
def reached (f : File) (pos size : Nat) : List Asked :=
  if f.stream.fails f.stream.count then [.moveTo (.ofNat pos)] else asks pos size

theorem readAt_unserved (hs : ¬ Serves f) (pos size : Nat) (buf : List UInt8) :
    ∃ m, (readAt pos size buf).run f = (.error (.exception m), ticked f (reached f pos size)) := by
  rw [reached]
  cases h0 : f.stream.fails f.stream.count with
  | true =>
    have hmove : (tick (.moveTo (.ofNat pos))).run f = (.ok true, ticked f [.moveTo (.ofNat pos)]) := by
      rw [tick_run, h0]
    rw [readAt, Effect.get_bind, Effect.bind_of_ok hmove]
    exact ⟨_, rfl⟩
  | false =>
    have h1 : f.stream.fails (f.stream.count + 1) = true := by simpa [Serves, h0] using hs
    have hmove : (tick (.moveTo (.ofNat pos))).run f = (.ok false, ticked f [.moveTo (.ofNat pos)]) := by
      rw [tick_run, h0]
    have hread : (tick (.read (.ofNat size))).run (ticked f [.moveTo (.ofNat pos)]) =
        (.ok true, ticked f (asks pos size)) := by
      rw [tick_run, ticked_ticked]
      exact Prod.ext (congrArg Except.ok h1) rfl
    rw [readAt, Effect.get_bind, Effect.bind_of_ok hmove, if_neg (by simp), FileM.read,
      Effect.get_bind, Effect.bind_of_ok hread]
    exact ⟨_, rfl⟩

theorem readAt_length {g : File} {pos size : Nat} {buf raw : List UInt8}
    (h : (readAt pos size buf).run f = (.ok raw, g)) :
    raw.length = buf.length ∧ g = consulted f pos size := by
  by_cases hs : Serves f
  · rw [readAt_served hs] at h
    split at h
    · cases h
    · next hfits =>
      split at h
      · cases h
      · cases h
        refine ⟨?_, rfl⟩
        rw [List.length_append, List.length_drop]
        omega
  · obtain ⟨m, hk⟩ := readAt_unserved hs pos size buf
    rw [hk] at h
    cases h

end

def delivered (f : File) (p : Phdr) : Nat :=
  if Serves f ∧ p.filesz ≠ 0 then (streamBytes f p.offset p.filesz).length else 0

theorem readInit_bounds (f : File) (p : Phdr) (buf : List UInt8) :
    ((readInit p buf).run f).1 = .error (.fault .bounds) ↔ buf.length < delivered f p := by
  by_cases h0 : p.filesz = 0
  · simp [readInit, delivered, h0]
  by_cases hs : Serves f
  · rw [readInit, if_pos h0, readAt_served hs, delivered, if_pos (And.intro hs h0)]
    by_cases hb : buf.length < (streamBytes f p.offset p.filesz).length
    · simp [hb]
    · rw [if_neg hb]
      split <;> simp [hb]
  · obtain ⟨m, hread⟩ := readAt_unserved hs p.offset p.filesz buf
    rw [readInit, if_pos h0, hread, delivered, if_neg (fun h => hs h.1)]
    simp

theorem alloc_run (f : File) (n : Nat) :
    (alloc n).run f = if n < 2 ^ 63 then (.ok (fresh f n), f) else (.error .badAlloc, f) := by
  rw [alloc, Effect.get_bind, Effect.ite_run]
  rfl

theorem readBuf_bounds (f : File) (p : Phdr) :
    ((readBuf p).run f).1 = .error (.fault .bounds) ↔ p.memsz < delivered f p := by
  by_cases hm : p.memsz < 2 ^ 63
  · have halloc := (alloc_run f p.memsz).trans (if_pos hm)
    have hinit := readInit_bounds f p (fresh f p.memsz)
    rw [fresh_length] at hinit
    rw [readBuf, Effect.bind_of_ok halloc, ← hinit]
    cases h : (readInit p (fresh f p.memsz)).run f with
    | mk r g =>
      cases r with
      | ok buf => simp [Effect.bind_of_ok h]
      | error e => rw [Effect.bind_of_error h]
  · have halloc := (alloc_run f p.memsz).trans (if_neg hm)
    have hlen := streamBytes_length_le f p.offset p.filesz
    have hd : delivered f p < 2 ^ 32 := by
      unfold delivered
      split <;> omega
    rw [readBuf, Effect.bind_of_error halloc]
    simp only [Except.error.injEq, reduceCtorEq, false_iff]
    omega

theorem readInit_served {f : File} (hs : Serves f) {p : Phdr}
    (hin : p.offset + p.filesz ≤ f.stream.bytes.length) (ho : p.offset < 2 ^ 31)
    (hz : p.filesz < 2 ^ 31) {buf : List UInt8} (hb : p.filesz ≤ buf.length) :
    ∃ g, (readInit p buf).run f =
      (.ok ((f.stream.bytes.drop p.offset).take p.filesz ++ buf.drop p.filesz), g) ∧
      g.phs = f.phs := by
  by_cases h0 : p.filesz = 0
  · refine ⟨f, ?_, rfl⟩
    rw [readInit, if_neg (not_not_intro h0), h0]
    rfl
  · have hbytes : streamBytes f p.offset p.filesz =
        (f.stream.bytes.drop p.offset).take p.filesz := by
      rw [streamBytes, Nat.mod_eq_of_lt (by omega), Nat.mod_eq_of_lt (by omega)]
    have hlen : ((f.stream.bytes.drop p.offset).take p.filesz).length = p.filesz := by
      rw [List.length_take, List.length_drop]
      omega
    refine ⟨consulted f p.offset p.filesz, ?_, rfl⟩
    rw [readInit, if_pos h0, readAt_served hs, hbytes, hlen, if_neg (by omega),
      if_neg (by omega)]

def zeroedInit (f : File) (p : Phdr) : List UInt8 :=
  zeroFill p ((f.stream.bytes.drop p.offset).take p.filesz ++ (fresh f p.memsz).drop p.filesz)

structure Placed (f : File) (p : Phdr) : Prop where
  fits : p.filesz ≤ p.memsz
  inside : p.offset + p.filesz ≤ f.stream.bytes.length
  offset_lt : p.offset < 2 ^ 31
  memsz_lt : p.memsz < 2 ^ 31
  served : Serves f

theorem content_first {f g : File} {i ptr : Nat} {p : Phdr} {buf : List UInt8}
    (hi : f.phs[i]? = some { ptr }) (hp : f.phdr ptr = .ok p)
    (hb : (readBuf p).run f = (.ok buf, g)) :
    (content i).run f = (.ok buf, { g with phs := g.phs.set i { ptr, buf := some buf } }) := by
  have hat : (at_ f.phs i).run f = (.ok { ptr }, f) := by simp [at_, hi]
  rw [content, Effect.get_bind, Effect.bind_of_ok hat]
  simp only [hp, Effect.lift_ok_bind]
  rw [Effect.bind_of_ok hb]
  rfl

theorem content_error {f g : File} {i ptr : Nat} {p : Phdr} {e : Stop}
    (hi : f.phs[i]? = some { ptr }) (hp : f.phdr ptr = .ok p)
    (hb : (readBuf p).run f = (.error e, g)) : (content i).run f = (.error e, g) := by
  have hat : (at_ f.phs i).run f = (.ok { ptr }, f) := by simp [at_, hi]
  rw [content, Effect.get_bind, Effect.bind_of_ok hat]
  simp only [hp, Effect.lift_ok_bind]
  rw [Effect.bind_of_error hb]

theorem content_again {f : File} {i ptr : Nat} {buf : List UInt8}
    (hi : f.phs[i]? = some { ptr, buf := some buf }) : (content i).run f = (.ok buf, f) := by
  have hat : (at_ f.phs i).run f = (.ok { ptr, buf := some buf }, f) := by simp [at_, hi]
  rw [content, Effect.get_bind, Effect.bind_of_ok hat]
  rfl

theorem content_placed {f : File} {i ptr : Nat} {p : Phdr} (hi : f.phs[i]? = some { ptr })
    (hp : f.phdr ptr = .ok p) (h : Placed f p) :
    ∃ g, (content i).run f = (.ok (zeroedInit f p), g) ∧
      (content i).run g = (.ok (zeroedInit f p), g) := by
  have hfits := h.fits
  have hlt := h.memsz_lt
  have hlen : p.filesz ≤ (fresh f p.memsz).length := by simpa using hfits
  obtain ⟨g, hinit, hphs⟩ := readInit_served h.served h.inside h.offset_lt (by omega) hlen
  have halloc := (alloc_run f p.memsz).trans (if_pos (by omega))
  have hbuf : (readBuf p).run f = (.ok (zeroedInit f p), g) := by
    rw [readBuf, Effect.bind_of_ok halloc, Effect.bind_of_ok hinit]
    rfl
  have hil : i < g.phs.length := by
    rw [hphs]
    exact (List.getElem?_eq_some_iff.mp hi).1
  refine ⟨_, content_first hi hp hbuf, ?_⟩
  exact content_again (List.getElem?_set_self hil : _ = some { ptr, buf := some (zeroedInit f p) })

structure Image (f : File) (p : Phdr) (buf : List UInt8) : Prop where
  length : buf.length = p.memsz
  init : ∀ j, j < p.filesz → buf[j]? = f.stream.bytes[p.offset + j]?
  fill : ∀ j, p.filesz ≤ j → j < p.memsz → buf[j]? = some 0

theorem image_whole {f : File} {p : Phdr} (h : Placed f p) (hz : p.filesz = p.memsz) :
    Image f p (zeroedInit f p) := by
  have hin := h.inside
  have hlen : ((f.stream.bytes.drop p.offset).take p.filesz).length = p.memsz := by
    rw [List.length_take, List.length_drop]
    omega
  have heq : zeroedInit f p = (f.stream.bytes.drop p.offset).take p.filesz := by
    have hdrop : (fresh f p.memsz).drop p.filesz = [] := List.drop_of_length_le (by simp [hz])
    rw [zeroedInit, zeroFill, if_neg (by omega), hdrop, List.append_nil]
  refine ⟨by rw [heq, hlen], fun j hj => ?_, fun j _ _ => by omega⟩
  rw [heq, List.getElem?_take, if_pos hj, List.getElem?_drop]

theorem image_empty {f : File} {p : Phdr} (hz : p.filesz = 0) : Image f p (zeroedInit f p) := by
  have heq : zeroedInit f p = List.replicate p.memsz 0 := by
    unfold zeroedInit zeroFill
    rw [hz, List.take_zero, List.nil_append, List.drop_zero, Nat.sub_zero,
      List.drop_of_length_le (by simp), List.append_nil]
    split
    · rfl
    · next h => simp [fresh, Nat.eq_zero_of_not_pos h]
  refine ⟨by simp [heq], fun j hj => by omega, fun j _ hj => ?_⟩
  rw [heq, List.getElem?_replicate, if_pos hj]

theorem last_byte {f : File} {p : Phdr} (h : Placed f p) (h0 : 0 < p.filesz)
    (hz : p.filesz < p.memsz) : (zeroedInit f p)[p.memsz - 1]? = some (f.junk (p.memsz - 1)) := by
  have hin := h.inside
  have hlen : ((f.stream.bytes.drop p.offset).take p.filesz).length = p.filesz := by
    rw [List.length_take, List.length_drop]
    omega
  rw [zeroedInit, zeroFill, if_pos hz, List.getElem?_append_right (by simp; omega),
    List.length_replicate, List.getElem?_drop, List.getElem?_append_right (by omega), hlen,
    List.getElem?_drop]
  have hidx : p.filesz + (p.memsz - p.filesz + (p.memsz - 1 - (p.memsz - p.filesz)) - p.filesz) =
      p.memsz - 1 := by omega
  rw [hidx, fresh, List.getElem?_map, List.getElem?_range (by omega)]
  rfl

def ContentRight (f : File) (i : Nat) (p : Phdr) : Prop :=
  ∃ g buf, (content i).run f = (.ok buf, g) ∧ (content i).run g = (.ok buf, g) ∧ Image f p buf

def StaysInside (f : File) (i : Nat) : Prop :=
  ((content i).run f).1 ≠ .error (.fault .bounds)

def File.withJunk (f : File) (junk : Nat → UInt8) : File := { f with junk }

theorem contentRight_iff {f : File} {i ptr : Nat} {p : Phdr} (hi : f.phs[i]? = some { ptr })
    (hp : f.phdr ptr = .ok p) (h : Placed f p) :
    ContentRight f i p ↔ Image f p (zeroedInit f p) := by
  obtain ⟨g, hfirst, hagain⟩ := content_placed hi hp h
  constructor
  · rintro ⟨g', buf, hrun, -, himage⟩
    rw [hfirst] at hrun
    cases hrun
    exact himage
  · exact fun himage => ⟨g, _, hfirst, hagain, himage⟩

theorem staysInside_iff {f : File} {i ptr : Nat} {p : Phdr} (hi : f.phs[i]? = some { ptr })
    (hp : f.phdr ptr = .ok p) : StaysInside f i ↔ delivered f p ≤ p.memsz := by
  have hbounds := readBuf_bounds f p
  rw [← Nat.not_lt, ← hbounds, StaysInside]
  cases h : (readBuf p).run f with
  | mk r g =>
    cases r with
    | ok buf => simp [content_first hi hp h]
    | error e => rw [content_error hi hp h]

theorem withJunk_phs (f : File) (junk : Nat → UInt8) : (f.withJunk junk).phs = f.phs := rfl

theorem withJunk_phdr (f : File) (junk : Nat → UInt8) (ptr : Nat) :
    (f.withJunk junk).phdr ptr = f.phdr ptr := rfl

theorem withJunk_delivered (f : File) (junk : Nat → UInt8) (p : Phdr) :
    delivered (f.withJunk junk) p = delivered f p := rfl

theorem content_image_iff {f : File} {i ptr : Nat} {p : Phdr} (hi : f.phs[i]? = some { ptr })
    (hp : f.phdr ptr = .ok p) :
    (∀ junk, (Placed f p → ContentRight (f.withJunk junk) i p) ∧
      StaysInside (f.withJunk junk) i) ↔
    (Placed f p → p.filesz = 0 ∨ p.filesz = p.memsz) ∧ delivered f p ≤ p.memsz := by
  constructor
  · intro h
    refine ⟨fun hplaced => ?_, (staysInside_iff hi hp).mp (h f.junk).2⟩
    have hfits := hplaced.fits
    by_contra hne
    have hplaced' : Placed (f.withJunk fun _ => 1) p := { hplaced with }
    have hright := (h fun _ => 1).1 hplaced
    rw [← withJunk_phs f fun _ => 1] at hi
    rw [← withJunk_phdr f fun _ => 1] at hp
    have himage := (contentRight_iff hi hp hplaced').mp hright
    have hlast := himage.fill (p.memsz - 1) (by omega) (by omega)
    rw [last_byte hplaced' (by omega) (by omega)] at hlast
    simp [File.withJunk] at hlast
  · rintro ⟨hz, hd⟩ junk
    rw [← withJunk_phs f junk] at hi
    rw [← withJunk_phdr f junk] at hp
    rw [← withJunk_delivered f junk] at hd
    refine ⟨fun hplaced => ?_, (staysInside_iff hi hp).mpr hd⟩
    have hplaced' : Placed (f.withJunk junk) p := { hplaced with }
    refine (contentRight_iff hi hp hplaced').mpr ?_
    rcases hz hplaced with hz | hz
    · exact image_empty hz
    · exact image_whole hplaced' hz

def phdrBytes (order : ByteOrder) (p : Phdr) : List UInt8 :=
  [p.type, p.offset, p.vaddr, p.paddr, p.filesz, p.memsz, p.flags, p.align].flatMap (order.bytes 4)

def shdrBytes (order : ByteOrder) (h : Shdr) : List UInt8 :=
  [h.name, h.type, h.flags, h.addr, h.offset, h.size, h.link, h.info, h.addralign, h.entsize].flatMap
    (order.bytes 4)

def wholeFile (order : ByteOrder) (ph : List Phdr) (sh : List Shdr) (rest : List UInt8) :
    List UInt8 :=
  [0x7f, 0x45, 0x4c, 0x46, 1, if order = .little then 1 else 2, 1, 0, 0, 0, 0, 0, 0, 0, 0, 0] ++
    [2, 3].flatMap (order.bytes 2) ++ [1, 0, 52, 52 + 32 * ph.length, 0].flatMap (order.bytes 4) ++
    [52, 32, ph.length, 40, sh.length, 0].flatMap (order.bytes 2) ++
    ph.flatMap (phdrBytes order) ++ sh.flatMap (shdrBytes order) ++ rest

def opened (order : ByteOrder) (ph : List Phdr) (sh : List Shdr) (rest : List UInt8) : File :=
  (construct.run (.blank elf32 .little "lone" { bytes := wholeFile order ph sh rest } fun _ => 1)).2

def nullShdr : Shdr := ⟨0, 0, 0, 0, 0, 0, 0, 0, 0, 0⟩

def loneShdr (size entsize : Nat) : Shdr where
  name := 0
  type := 6
  flags := 0
  addr := 0
  offset := 92
  size := size
  link := 0
  info := 0
  addralign := 4
  entsize := entsize

def lonePhdr (filesz memsz : Nat) : Phdr where
  type := 1
  flags := 4
  offset := 124
  vaddr := 0
  paddr := 0
  filesz := filesz
  memsz := memsz
  align := 4

def loneSegment (filesz memsz : Nat) (data : List UInt8) : File :=
  (programHeaders.run (opened .little [lonePhdr filesz memsz] [nullShdr] data)).2

theorem content_image_whole :
    (∀ junk, (Placed (loneSegment 2 2 [7, 8]) (lonePhdr 2 2) →
      ContentRight ((loneSegment 2 2 [7, 8]).withJunk junk) 0 (lonePhdr 2 2)) ∧
      StaysInside ((loneSegment 2 2 [7, 8]).withJunk junk) 0) ↔
    (Placed (loneSegment 2 2 [7, 8]) (lonePhdr 2 2) →
      (lonePhdr 2 2).filesz = 0 ∨ (lonePhdr 2 2).filesz = (lonePhdr 2 2).memsz) ∧
      delivered (loneSegment 2 2 [7, 8]) (lonePhdr 2 2) ≤ (lonePhdr 2 2).memsz :=
  content_image_iff (by decide +kernel)
    (by decide +kernel : (loneSegment 2 2 [7, 8]).phdr 0 = .ok (lonePhdr 2 2))

-- With a bss the initialised data are lost; with more bytes in the file than in memory the read
-- leaves the allocation.
theorem content_spoiled :
    ((loneSegment 2 4 [7, 8]).phs[0]? = some { ptr := 0 } ∧
      (loneSegment 2 4 [7, 8]).phdr 0 = .ok (lonePhdr 2 4) ∧
      Placed (loneSegment 2 4 [7, 8]) (lonePhdr 2 4) ∧
      ¬ ContentRight (loneSegment 2 4 [7, 8]) 0 (lonePhdr 2 4)) ∧
    ((loneSegment 2 1 [7, 8]).phs[0]? = some { ptr := 0 } ∧
      (loneSegment 2 1 [7, 8]).phdr 0 = .ok (lonePhdr 2 1) ∧
      ¬ StaysInside (loneSegment 2 1 [7, 8]) 0) := by
  have hphs4 : (loneSegment 2 4 [7, 8]).phs[0]? = some { ptr := 0 } := by decide +kernel
  have hphs1 : (loneSegment 2 1 [7, 8]).phs[0]? = some { ptr := 0 } := by decide +kernel
  have hbss : (loneSegment 2 4 [7, 8]).phdr 0 = .ok (lonePhdr 2 4) := by decide +kernel
  have hshort : (loneSegment 2 1 [7, 8]).phdr 0 = .ok (lonePhdr 2 1) := by decide +kernel
  have hplaced : Placed (loneSegment 2 4 [7, 8]) (lonePhdr 2 4) :=
    ⟨by decide +kernel, by decide +kernel, by decide +kernel, by decide +kernel, by decide +kernel⟩
  refine ⟨⟨hphs4, hbss, hplaced, fun h => ?_⟩, hphs1, hshort, fun h => ?_⟩
  · have himage := (contentRight_iff (hphs4) hbss hplaced).mp h
    exact absurd (himage.init 0 (by decide +kernel)) (by decide +kernel)
  · exact absurd ((staysInside_iff (hphs1) hshort).mp h) (by decide +kernel)

end Gelpp.Elf
