import Gelpp.Dwarf.Encoding
import Gelpp.Library.Concat

namespace Gelpp.Dwarf

open Leb128 (unsigned)

inductive PathForm where
  | string
  | strp
  | lineStrp
  deriving DecidableEq, Repr

inductive Field where
  | path
  | directoryIndex
  | md5
  deriving DecidableEq, Repr

structure Stored where
  text : List UInt8
  offset : Nat

structure Entry where
  name : Stored
  index : Nat
  digest : List UInt8
  digest_length : digest.length = 16

structure Tables where
  dirForm : PathForm
  dirs : List Stored
  form : PathForm
  fields : List Field
  files : List Entry
  fields_nodup : fields.Nodup
  path_mem : .path ∈ fields
  index_mem : .directoryIndex ∈ fields
  named : ∀ e ∈ files, e.name.text ≠ []
  index_lt : ∀ e ∈ files, e.index < dirs.length

def PathForm.code : PathForm → Nat
  | .string => 0x08
  | .strp => 0x0e
  | .lineStrp => 0x1f

def Field.contentType : Field → Nat
  | .path => 0x1
  | .directoryIndex => 0x2
  | .md5 => 0x5

def Field.formatCode (form : PathForm) : Field → Nat
  | .path => form.code
  | .directoryIndex => 0x0f
  | .md5 => 0x1e

def EncodesU (v : Nat) (bs : List UInt8) : Prop := Operand bs ∧ unsigned bs = v

def offsetSize (is64 : Bool) : Nat := if is64 then 8 else 4

def EncodesPath (is64 : Bool) (order : ByteOrder) (form : PathForm) (p : Stored) (bs : List UInt8) :
    Prop :=
  match form with
  | .string => 0 ∉ p.text ∧ bs = p.text ++ [0]
  | _ => bs.length = offsetSize is64 ∧ order.value bs = p.offset

def EncodesFormat (p : Nat × Nat) (bs : List UInt8) : Prop :=
  ∃ us vs, bs = us ++ vs ∧ EncodesU p.1 us ∧ EncodesU p.2 vs

def EncodesField (is64 : Bool) (order : ByteOrder) (form : PathForm) (e : Entry) (k : Field)
    (bs : List UInt8) : Prop :=
  match k with
  | .path => EncodesPath is64 order form e.name bs
  | .directoryIndex => EncodesU e.index bs
  | .md5 => bs = e.digest

namespace Tables

variable (t : Tables)

def formats : List (Nat × Nat) := t.fields.map fun k => (k.contentType, k.formatCode t.form)

def EncodesDirs (is64 : Bool) (order : ByteOrder) (bs : List UInt8) : Prop :=
  ∃ format count entries, bs = 1 :: (format ++ (count ++ entries)) ∧
    EncodesFormat (Field.path.contentType, t.dirForm.code) format ∧ EncodesU t.dirs.length count ∧
    Concat (EncodesPath is64 order t.dirForm) t.dirs entries

def EncodesFiles (is64 : Bool) (order : ByteOrder) (bs : List UInt8) : Prop :=
  ∃ formats count entries, bs = .ofNat t.fields.length :: (formats ++ (count ++ entries)) ∧
    Concat EncodesFormat t.formats formats ∧ EncodesU t.files.length count ∧
    Concat (fun e => Concat (EncodesField is64 order t.form e) t.fields) t.files entries

def directory (k : Nat) : Path := (t.dirs.map Stored.text).getD k []

def seeded (k : Nat) : Path := ([46] :: t.dirs.map Stored.text).getD k []

end Tables

def PathForm.sect (dl : DebugLine) : PathForm → Option Buffer
  | .string => none
  | .strp => some dl.strSect.buf
  | .lineStrp => some dl.lineStrSect.buf

def Located (sect : Option Buffer) (p : Stored) : Prop :=
  ∀ b, sect = some b → 0 ∉ p.text ∧ ∃ tail, b.bytes.drop p.offset = p.text ++ 0 :: tail

def Astray (sect : Option Buffer) (p : Stored) : Prop := ∃ b, sect = some b ∧ b.size ≤ p.offset

namespace Tables

def InRange (t : Tables) (dl : DebugLine) : Prop :=
  (∀ d ∈ t.dirs, Located (t.dirForm.sect dl) d) ∧ ∀ e ∈ t.files, Located (t.form.sect dl) e.name

def Astray (t : Tables) (dl : DebugLine) : Prop :=
  (∃ d ∈ t.dirs, Dwarf.Astray (t.dirForm.sect dl) d) ∨
    ∃ e ∈ t.files, Dwarf.Astray (t.form.sect dl) e.name

end Tables

structure AtTables (s : Reader) (t : Tables) (dirBytes fileBytes : List UInt8) : Prop extends s.Plain where
  version : s.sm.version = 5
  fresh : s.sm.includeDirectories = [.text [46]]
  files : s.cu.files = []
  dirTable : t.EncodesDirs s.dl.is64 s.c.buf.decoder.order dirBytes
  fileTable : t.EncodesFiles s.dl.is64 s.c.buf.decoder.order fileBytes
  rest : ∃ tail, s.c.rest = dirBytes ++ (fileBytes ++ tail)

def Reader.paths (s : Reader) : List (Option Path) :=
  s.cu.files.map fun i => (s.dl.files[i]?).map File.path

section
variable (join : Path → Path → Path)

structure TablesRead (s u : Reader) (t : Tables) (n : Nat) : Prop where
  buf : u.c.buf = s.c.buf
  off : u.c.off = s.c.off + n
  paths : u.paths = t.files.map fun e => some (join (t.directory e.index) e.name.text)

def Tables.Decode (s : Reader) (t : Tables) (n : Nat) : Prop :=
  (t.InRange s.dl → ∃ u, (readDir s >>= readFile join) = .ok u ∧ TablesRead join s u t n) ∧
  (t.Astray s.dl → ∃ message, (readDir s >>= readFile join) = .error (.exception message))

end

theorem EncodesU.read {v : Nat} {bs tail : List UInt8} {c : Cursor} (h : EncodesU v bs)
    (hf : c.buf.fence = none) (hrest : c.rest = bs ++ tail) :
    readLEB128U c = .ok (.ofNat v, c.forward bs.length) := by
  rw [← h.2]
  exact h.1.readU hf hrest

theorem EncodesU.byte {b : UInt8} (h : b.toNat < 128) : EncodesU b.toNat [b] :=
  ⟨⟨.last h, by simp⟩, by simp [Leb128.digit, Nat.mod_eq_of_lt h]⟩

theorem EncodesU.length_pos {v : Nat} {bs : List UInt8} (h : EncodesU v bs) : 0 < bs.length :=
  h.1.terminated.length_pos

theorem Located.not_astray {o : Option Buffer} {p : Stored} (h : Located o p) : ¬ Astray o p := by
  rintro ⟨b, ho, hle⟩
  obtain ⟨-, tail, hdrop⟩ := h b ho
  rw [List.drop_eq_nil_of_le hle] at hdrop
  exact List.cons_ne_nil _ _ (List.append_eq_nil_iff.mp hdrop.symm).2

theorem Tables.InRange.not_astray {t : Tables} {dl : DebugLine} (h : t.InRange dl) : ¬ t.Astray dl := by
  rintro (⟨d, hd, hd'⟩ | ⟨e, he, he'⟩)
  · exact (h.1 d hd).not_astray hd'
  · exact (h.2 e he).not_astray he'

end Gelpp.Dwarf
