import Gelpp.Consume
import Gelpp.Elf.Calm

namespace Gelpp

def Cursor.finish (c : Cursor) : Cursor := { c with off := c.buf.size, off_le := Nat.le_refl _ }

namespace Elf

open FileM Effect

-- `tag` is an int and `val` a t::uint64.
structure Dyn where
  tag : Int
  val : Nat
  deriving DecidableEq, Repr

def fetchDyn (f : File) (mem : List UInt8) (entry : Nat) : Res Dyn := do
  let l := f.layout.dyn
  let tag ← loadAt f.host mem entry l.tag
  let val ← loadAt f.host mem entry l.val
  return {
    tag := (UInt32.ofNat (fixWidth f.eiData l.tag.width tag)).toInt32.toInt
    val := fixWidth f.eiData l.val.width val }

structure DynIter where
  s : Nat
  c : Cursor
  d : Option Dyn := none

namespace DynIter

def fetch (f : File) (it : DynIter) : Res DynIter :=
  if it.c.ended then .ok it
  else do
    let p ← it.c.here
    let d ← fetchDyn f it.c.buf.bytes p
    return { it with d := some d }

def next (f : File) (it : DynIter) : Res DynIter := do
  let c ← it.c.skip it.s
  fetch f { it with c := c.getD it.c }

def item (it : DynIter) : Res Dyn :=
  match it.d with
  | some d => .ok d
  | none => .error (.fault .unset)

-- Both iterators of a range point into the buffer that the section keeps.
def equals (it jt : DynIter) : Bool := it.c.off == jt.c.off && it.c.buf.size == jt.c.buf.size

end DynIter

-- A block that was allocated is smaller than that.
def bufferOf (f : File) (content : List UInt8) : Res Buffer :=
  if h : content.length < 2 ^ 63 then .ok { decoder := f.decoder, bytes := content, size_lt := h }
  else .error .badAlloc

namespace FileM

def dynIter (i : Int) (ended : Bool) : FileM DynIter := do
  let f ← get
  let s ← at_ f.sects i
  let h ← lift (f.shdr s.ptr)
  let content ← sectionContent i
  let b ← lift (bufferOf f content)
  let it : DynIter := { s := h.entsize, c := .start b }
  if ended then return { it with c := it.c.finish } else lift (it.fetch f)

def dynsOf (i : Int) : FileM (DynIter × DynIter) := do
  let first ← dynIter i false
  let last ← dynIter i true
  return (first, last)

end FileM

def traverse (f : File) (last : DynIter) : Nat → DynIter → Res (List Dyn)
  | 0, it => if it.equals last then .ok [] else .error .steps
  | n + 1, it =>
    if it.equals last then .ok []
    else do
      let d ← it.item
      let t ← it.next f
      let ds ← traverse f last n t
      return d :: ds

def FileM.readDyns (fuel : Nat) (i : Int) : FileM (List Dyn) := do
  let (first, last) ← dynsOf i
  let f ← get
  lift (traverse f last fuel first)

def dynAt (f : File) (mem : List UInt8) (off : Nat) : Dyn where
  tag := Int.bmod (f.decoder.order.value (cell mem (off + f.layout.dyn.tag.off)
    f.layout.dyn.tag.width)) (256 ^ f.layout.dyn.tag.width)
  val := f.decoder.order.value (cell mem (off + f.layout.dyn.val.off) f.layout.dyn.val.width)

def Dyn.cut (d : Dyn) : Dyn := { d with tag := Int.bmod d.tag (2 ^ 32) }

def records (f : File) (buf : List UInt8) (entsize from_ count : Nat) : List Dyn :=
  (List.range' from_ count).map fun k => dynAt f buf (k * entsize)

section
variable {f : File} {mem : List UInt8} {entry : Nat}

theorem cell_length {off width : Nat} (h : off + width ≤ mem.length) :
    (cell mem off width).length = width := by
  rw [cell, List.length_take, List.length_drop]
  omega

theorem fixWidth_value (host : ByteOrder) (eiData : UInt8) {width : Nat} {bs : List UInt8}
    (hw : width = 2 ∨ width = 4 ∨ width = 8) (h : bs.length = width) :
    fixWidth eiData width (host.value bs) = (fileOrder host eiData).value bs := by
  rcases hw with rfl | rfl | rfl
  · exact (Elf.decoder host eiData).fix16_load bs h
  · exact (Elf.decoder host eiData).fix32_load bs h
  · exact (Elf.decoder host eiData).fix64_load bs h

theorem loadAt_some (host : ByteOrder) {s : Slot} (h : entry + s.off + s.width ≤ mem.length) :
    loadAt host mem entry s = .ok (host.value (cell mem (entry + s.off) s.width)) := if_pos h

theorem toInt32_bmod (v : Nat) : (UInt32.ofNat v).toInt32.toInt = Int.bmod v (2 ^ 32) := by
  exact BitVec.toInt_ofNat' v

theorem fetchDyn_some (hl : f.layout = elf32 ∨ f.layout = elf64)
    (h : entry + f.layout.dyn.size ≤ mem.length) :
    fetchDyn f mem entry = .ok (dynAt f mem entry).cut := by
  have htag : f.layout.dyn.tag.width = 4 ∨ f.layout.dyn.tag.width = 8 := by
    rcases hl with hl | hl <;> simp [hl, elf32, elf64]
  have hval : f.layout.dyn.val.width = 4 ∨ f.layout.dyn.val.width = 8 := by
    rcases hl with hl | hl <;> simp [hl, elf32, elf64]
  have hlast : f.layout.dyn.val.off + f.layout.dyn.val.width = f.layout.dyn.size := by
    rcases hl with hl | hl <;> simp [hl, elf32, elf64]
  have hfirst : f.layout.dyn.tag.off + f.layout.dyn.tag.width ≤ f.layout.dyn.size := by
    rcases hl with hl | hl <;> simp [hl, elf32, elf64]
  have hdvd : (2 ^ 32 : Nat) ∣ 256 ^ f.layout.dyn.tag.width := by
    rcases htag with hw | hw <;> rw [hw] <;> decide
  have ht : entry + f.layout.dyn.tag.off + f.layout.dyn.tag.width ≤ mem.length := by omega
  have hv : entry + f.layout.dyn.val.off + f.layout.dyn.val.width ≤ mem.length := by omega
  rw [fetchDyn, loadAt_some f.host ht, Res.ok_bind, loadAt_some f.host hv, Res.ok_bind,
    fixWidth_value _ _ (.inr htag) (cell_length ht), fixWidth_value _ _ (.inr hval) (cell_length hv),
    toInt32_bmod, dynAt, Dyn.cut, Int.bmod_bmod_of_dvd hdvd]
  rfl

theorem fetchDyn_fault {A : Stop → Prop} (hA : A (.fault .bounds)) :
    Meets A (fun _ => True) (fetchDyn f mem entry) := by
  have hload (s : Slot) : Meets A (fun _ => True) (loadAt f.host mem entry s) :=
    Meets.ite (fun _ => trivial) fun _ => hA
  exact (hload _).bind fun _ _ => (hload _).bind fun _ _ => trivial

end

structure Stands (it : DynIter) (b : Buffer) (e k : Nat) : Prop where
  buf : it.c.buf = b
  s : it.s = e
  off : it.c.off = k * e

def begun (b : Buffer) (e : Nat) : DynIter := { s := e, c := .start b }

def finished (b : Buffer) (e : Nat) : DynIter := { s := e, c := (Cursor.start b).finish }

section
variable {f : File} {b : Buffer} {e k : Nat} {it t : DynIter}

theorem begun_stands (b : Buffer) (e : Nat) : Stands (begun b e) b e 0 :=
  ⟨rfl, rfl, by simp [begun, Cursor.start]⟩

theorem equals_finished (h : Stands it b e k) : it.equals (finished b e) = true ↔ k * e = b.size := by
  rw [DynIter.equals, h.buf, h.off, Bool.and_eq_true, beq_iff_eq, beq_iff_eq]
  exact and_iff_left rfl

theorem fetch_ended (h : Stands it b e k) (hk : k * e = b.size) : it.fetch f = .ok it := by
  have hended : it.c.ended = true := by
    rw [Cursor.ended, decide_eq_true_eq, h.off, h.buf, hk]
  rw [DynIter.fetch, if_pos hended]

theorem here_stands (hf : b.fence = none) (h : Stands it b e k) (hk : k * e < b.size) :
    it.c.ended = false ∧ it.c.here = .ok (k * e) := by
  constructor
  · rw [Cursor.ended, h.off, h.buf]
    exact decide_eq_false (Nat.not_le_of_lt hk)
  · rw [Cursor.here, Buffer.demand_unfenced (h.buf ▸ hf), Res.ok_bind, h.off, h.buf, if_pos hk]
    rfl

theorem fetch_some (hl : f.layout = elf32 ∨ f.layout = elf64) (hf : b.fence = none)
    (h : Stands it b e k) (hk : k * e < b.size) (hin : k * e + f.layout.dyn.size ≤ b.size) :
    it.fetch f = .ok { it with d := some (dynAt f b.bytes (k * e)).cut } := by
  obtain ⟨hended, hhere⟩ := here_stands hf h hk
  rw [DynIter.fetch, hended, if_neg Bool.false_ne_true, hhere, Res.ok_bind, h.buf,
    fetchDyn_some hl hin]
  rfl

theorem fetch_meets {A : Stop → Prop} (hA : A (.fault .bounds)) (hf : b.fence = none)
    (h : Stands it b e k) (hk : k * e < b.size) :
    Meets A (fun t => Stands t b e k ∧ t.d.isSome) (it.fetch f) := by
  obtain ⟨hended, hhere⟩ := here_stands hf h hk
  rw [DynIter.fetch, hended, if_neg Bool.false_ne_true, hhere, Res.ok_bind]
  exact (fetchDyn_fault hA).bind fun d _ => ⟨⟨h.buf, h.s, h.off⟩, rfl⟩

theorem next_forward (hf : b.fence = none) (h : Stands it b e k) (hk : (k + 1) * e ≤ b.size) :
    ∃ u, Stands u b e (k + 1) ∧ it.next f = u.fetch f := by
  have hsum : it.c.off + it.s = (k + 1) * e := by rw [h.off, h.s, Nat.succ_mul]
  have hin : it.c.off + it.s ≤ it.c.buf.size := by rw [hsum, h.buf]; exact hk
  refine ⟨{ it with c := it.c.forward it.s }, ⟨h.buf, h.s, ?_⟩, ?_⟩
  · rw [← hsum]
    exact Cursor.forward_off hin
  · rw [DynIter.next, Cursor.skip_forward (h.buf ▸ hf) hin]
    rfl

theorem next_refused (hf : b.fence = none) (he : e < 2 ^ 64) (h : Stands it b e k)
    (hlt : k * e < b.size) (hk : b.size < (k + 1) * e) : it.next f = it.fetch f := by
  have hsum : it.c.off + it.s = (k + 1) * e := by rw [h.off, h.s, Nat.succ_mul]
  have hsize := b.size_lt
  have hwrap : (k + 1) * e < 2 ^ 64 := by
    cases k with
    | zero => rwa [Nat.zero_add, Nat.one_mul]
    | succ k =>
      have hle : e ≤ (k + 1) * e := Nat.le_mul_of_pos_left e (Nat.succ_pos k)
      have hbytes : b.size < 2 ^ 63 := hsize
      rw [Nat.succ_mul]
      omega
  have hskip : it.c.skip it.s = .ok none :=
    Cursor.skip_refused (h.buf ▸ hf) (by rw [hsum]; exact hwrap) (by rw [hsum, h.buf]; exact hk)
  rw [DynIter.next, hskip]
  rfl

theorem traverse_ended (h : Stands it b e k) (hk : k * e = b.size) (fuel : Nat) :
    traverse f (finished b e) fuel it = .ok [] := by
  have hequals := (equals_finished h).mpr hk
  cases fuel <;> rw [traverse, if_pos hequals]

theorem traverse_whole (hl : f.layout = elf32 ∨ f.layout = elf64) (hf : b.fence = none)
    (he : f.layout.dyn.size ≤ e) (hpos : 0 < e) {n fuel : Nat} (hn : (k + n) * e = b.size)
    (hfuel : n ≤ fuel) (h : Stands it b e k) :
    (it.fetch f >>= traverse f (finished b e) fuel) =
      .ok ((records f b.bytes e k n).map Dyn.cut) := by
  induction n generalizing it k fuel with
  | zero =>
    rw [fetch_ended h hn, Res.ok_bind, traverse_ended h hn]
    rfl
  | succ n ih =>
    obtain ⟨j, rfl⟩ := Nat.exists_eq_add_of_le' hfuel
    have hstep : (k + 1) * e ≤ b.size := by
      rw [← hn]
      exact Nat.mul_le_mul_right e (by omega)
    have hlt : k * e < b.size := by
      rw [Nat.succ_mul] at hstep
      omega
    have hin : k * e + f.layout.dyn.size ≤ b.size := by
      rw [Nat.succ_mul] at hstep
      omega
    let t : DynIter := { it with d := some (dynAt f b.bytes (k * e)).cut }
    have ht : Stands t b e k := ⟨h.buf, h.s, h.off⟩
    have hne : ¬ t.equals (finished b e) = true := by
      rw [equals_finished ht]
      omega
    obtain ⟨u, hu, hnext⟩ := next_forward (f := f) hf ht hstep
    have hcount : (k + 1 + n) * e = b.size := by
      rw [← hn]
      congr 1
      omega
    have hrun := ih hcount (Nat.le_add_left n j) hu
    rw [fetch_some hl hf h hlt hin, Res.ok_bind]
    change traverse f (finished b e) (j + n + 1) t = _
    rw [traverse, if_neg hne]
    change (t.next f >>= fun u => traverse f (finished b e) (j + n) u >>= fun ds => _) = _
    rw [← bind_assoc, hnext, hrun]
    rfl

theorem traverse_endless (hf : b.fence = none) (he : e < 2 ^ 64) (hdvd : ¬ e ∣ b.size) {fuel : Nat}
    {ds : List Dyn} (h : Stands it b e k) (hk : k * e < b.size) :
    traverse f (finished b e) fuel it ≠ .ok ds := by
  have hne : ¬ it.equals (finished b e) = true := by
    rw [equals_finished h]
    omega
  induction fuel generalizing it k ds with
  | zero =>
    rw [traverse, if_neg hne]
    simp
  | succ fuel ih =>
    intro hrun
    rw [traverse, if_neg hne] at hrun
    obtain ⟨d, -, hrun⟩ := Res.bind_ok.mp hrun
    obtain ⟨t, ht, hrun⟩ := Res.bind_ok.mp hrun
    obtain ⟨ds', hds, -⟩ := Res.bind_ok.mp hrun
    have hstands : ∃ j, Stands t b e j ∧ j * e < b.size := by
      by_cases hle : (k + 1) * e ≤ b.size
      · have hlt : (k + 1) * e < b.size :=
          Nat.lt_of_le_of_ne hle fun heq => hdvd ⟨k + 1, by rw [← heq, Nat.mul_comm]⟩
        obtain ⟨u, hu, hnext⟩ := next_forward (f := f) hf h hle
        have hmeets := fetch_meets (f := f) (A := fun _ => True) trivial hf hu hlt
        exact ⟨k + 1, (hmeets.of_ok (hnext ▸ ht)).1, hlt⟩
      · have hnext := next_refused (f := f) hf he h hk (Nat.lt_of_not_le hle)
        have hmeets := fetch_meets (f := f) (A := fun _ => True) trivial hf h hk
        exact ⟨k, (hmeets.of_ok (hnext ▸ ht)).1, hk⟩
    obtain ⟨j, hj, hlt⟩ := hstands
    have hne' : ¬ t.equals (finished b e) = true := by
      rw [equals_finished hj]
      omega
    exact ih hj hlt hne' hds

def Skipped (x : Res (List Dyn)) : Prop := x = .ok [] ∨ ∃ m, x = .error (.exception m)

def Raised (e : Stop) : Prop := ∃ m, e = .exception m

theorem not_raised (k : Fault) : ¬ Raised (.fault k) := by
  rintro ⟨m, hm⟩
  cases hm

theorem fetch_unraised (hf : b.fence = none) (hbuf : it.c.buf = b) :
    Meets (fun e => ¬ Raised e) (fun t => t.c.buf = b) (it.fetch f) := by
  have hhere : Meets (fun e => ¬ Raised e) (fun _ => True) it.c.here := by
    rw [Cursor.here, Buffer.demand_unfenced (hbuf ▸ hf), Res.ok_bind]
    exact Meets.ite (fun _ => trivial) fun _ => not_raised _
  refine Meets.ite (fun _ => hbuf) fun _ => hhere.bind fun p _ => ?_
  exact (fetchDyn_fault (not_raised _)).bind fun d _ => hbuf

theorem next_unraised (hf : b.fence = none) (hbuf : it.c.buf = b) :
    Meets (fun e => ¬ Raised e) (fun t => t.c.buf = b) (it.next f) := by
  have hskip : Meets (fun e => ¬ Raised e) (fun o => ∀ c, o = some c → c.buf = b)
      (it.c.skip it.s) :=
    (Cursor.skip_meets (hbuf ▸ hf)).post fun o ho c hc => (ho c hc).1.trans hbuf
  refine hskip.bind fun o ho => fetch_unraised hf ?_
  cases o with
  | none => exact hbuf
  | some c => exact ho c rfl

theorem traverse_unraised {fuel : Nat} (hf : b.fence = none) (hbuf : it.c.buf = b) :
    Meets (fun e => ¬ Raised e) (fun _ => True) (traverse f (finished b e) fuel it) := by
  induction fuel generalizing it with
  | zero =>
    refine Meets.ite (fun _ => trivial) fun _ => ?_
    rintro ⟨m, hm⟩
    cases hm
  | succ fuel ih =>
    have hitem : Meets (fun e => ¬ Raised e) (fun _ => True) it.item := by
      rw [DynIter.item]
      cases it.d with
      | none => exact not_raised _
      | some d => trivial
    refine Meets.ite (fun _ => trivial) fun _ => hitem.bind fun d _ => ?_
    exact (next_unraised hf hbuf).bind fun t ht => (ih ht).bind fun ds _ => trivial

theorem short_not_skipped {fuel : Nat} (hf : b.fence = none) (hpos : 0 < b.size) :
    ¬ Skipped ((begun b e).fetch f >>= traverse f (finished b e) fuel) := by
  have h := begun_stands b e
  have hlt : 0 * e < b.size := by rwa [Nat.zero_mul]
  have hfirst : Meets (fun e => ¬ Raised e) _ ((begun b e).fetch f) :=
    fetch_meets (not_raised _) hf h hlt
  rintro (hrun | ⟨m, hrun⟩)
  · obtain ⟨t, ht, hrun⟩ := Res.bind_ok.mp hrun
    have hne : ¬ t.equals (finished b e) = true := by
      rw [equals_finished (hfirst.of_ok ht).1]
      exact Nat.ne_of_lt hlt
    cases fuel with
    | zero =>
      rw [traverse, if_neg hne] at hrun
      cases hrun
    | succ fuel =>
      rw [traverse, if_neg hne] at hrun
      obtain ⟨d, -, hrun⟩ := Res.bind_ok.mp hrun
      obtain ⟨u, -, hrun⟩ := Res.bind_ok.mp hrun
      obtain ⟨ds, -, hrun⟩ := Res.bind_ok.mp hrun
      cases hrun
  · have hmeets : Meets (fun e => ¬ Raised e) (fun _ => True)
        ((begun b e).fetch f >>= traverse f (finished b e) fuel) :=
      hfirst.bind fun t ht => traverse_unraised hf ht.1.buf
    exact hmeets.of_error hrun ⟨m, rfl⟩

theorem cut_eq_iff {d : Dyn} : d.cut = d ↔ -2 ^ 31 ≤ d.tag ∧ d.tag < 2 ^ 31 := by
  have hiff : d.cut = d ↔ Int.bmod d.tag (2 ^ 32) = d.tag := by
    constructor
    · exact congrArg Dyn.tag
    · intro h
      rw [Dyn.cut, h]
  have hle := Int.le_bmod (x := d.tag) (m := 2 ^ 32) (by decide)
  have hlt := Int.bmod_lt (x := d.tag) (m := 2 ^ 32) (by decide)
  rw [hiff]
  constructor
  · intro h
    rw [h] at hle hlt
    omega
  · intro h
    apply Int.bmod_eq_of_le <;> omega

end

end Elf

end Gelpp
