import Gelpp.Outcome
import Gelpp.Library.Effect

namespace Gelpp

open Effect

structure SegmentOps (σ : Type) where
  name : Effect Stop σ String
  loadAddress : Effect Stop σ UInt64
  size : Effect Stop σ Nat
  isExecutable : Effect Stop σ Bool
  isWritable : Effect Stop σ Bool
  hasContent : Effect Stop σ Bool
  buffer : Effect Stop σ (Option (List UInt8))

structure FileOps (σ : Type) where
  count : Effect Stop σ Nat
  segment : Nat → Effect Stop σ (SegmentOps σ)

structure ImageSegment where
  name : String
  base : UInt64
  buf : List UInt8
  flags : UInt32
  deriving DecidableEq, Repr

structure Image where
  segs : List ImageSegment := []
  deriving DecidableEq, Repr

namespace ImageSegment

def WRITABLE : UInt32 := 0x01
def EXECUTABLE : UInt32 := 0x02
def READABLE : UInt32 := 0x04
def CONTENT : UInt32 := 0x08
def TO_FREE : UInt32 := 0x20

def isWritable (s : ImageSegment) : Bool := s.flags &&& WRITABLE != 0
def isExecutable (s : ImageSegment) : Bool := s.flags &&& EXECUTABLE != 0
def isReadable (s : ImageSegment) : Bool := s.flags &&& READABLE != 0
def hasContent (s : ImageSegment) : Bool := s.flags &&& CONTENT != 0
def size (s : ImageSegment) : Nat := s.buf.length

-- new t::uint8[n]: what the memory holds is not specified.
def allocate (junk : Nat → UInt8) (n : Nat) : Res (List UInt8) :=
  if n < 2 ^ 63 then .ok ((List.range n).map junk) else .error .badAlloc

-- array::copy(mem, src, n), with the n bytes of src.
def copy (mem src : List UInt8) : Res (List UInt8) :=
  if src.length ≤ mem.length then .ok (src ++ mem.drop src.length) else .error (.fault .bounds)

-- array::clear(mem + off, n)
def clear (mem : List UInt8) (off n : Nat) : Res (List UInt8) :=
  if off + n ≤ mem.length then .ok (mem.take off ++ List.replicate n 0 ++ mem.drop (off + n))
  else .error (.fault .bounds)

def load (mem sbuf : List UInt8) (content : Bool) (size : Nat) : Res (List UInt8) := do
  let mem ← if content then copy mem sbuf else .ok mem
  let used := if content then sbuf.length else 0
  if used < size then clear mem used (size - used) else return mem

def segmentFlags (writable executable : Bool) : UInt32 :=
  let flags := TO_FREE
  let flags := if writable then flags ||| WRITABLE else flags
  if executable then flags ||| EXECUTABLE else flags

-- size() is asked for once. An empty name stays empty: the default one is given to the parameter.
def ofSegment {σ : Type} (junk : Nat → UInt8) (segment : SegmentOps σ) (addr : UInt64)
    (name : String) : Effect Stop σ ImageSegment := do
  let writable ← segment.isWritable
  let executable ← segment.isExecutable
  match ← segment.buffer with
  | none => raise (.fault .assertion)
  | some sbuf =>
    let size ← segment.size
    let mem ← lift (allocate junk size)
    let content ← segment.hasContent
    let buf ← lift (load mem sbuf content size)
    return { name, base := addr, buf, flags := segmentFlags writable executable }

end ImageSegment

def Image.add (im : Image) (s : ImageSegment) : Image := { im with segs := im.segs ++ [s] }

namespace SimpleBuilder

variable {σ : Type}

def addSegment (junk : Nat → UInt8) (prog : FileOps σ) (im : Image) (i : Nat) :
    Effect Stop σ Image := do
  let seg ← prog.segment i
  let size ← seg.size
  if size = 0 then return im
  else
    match ← seg.buffer with
    | none => return im
    | some _ =>
      let addr ← seg.loadAddress
      let name ← seg.name
      let s ← ImageSegment.ofSegment junk seg addr name
      return im.add s

def build (junk : Nat → UInt8) (prog : FileOps σ) : Effect Stop σ Image := do
  let n ← prog.count
  (List.range n).foldlM (addSegment junk prog) {}

end SimpleBuilder

structure SegmentView where
  name : String
  loadAddress : UInt64
  size : Nat
  executable : Bool
  writable : Bool
  content : Bool
  buffer : Option (List UInt8)

namespace SegmentView

def Kept (v : SegmentView) : Prop := v.size ≠ 0 ∧ v.buffer.isSome

instance : DecidablePred Kept := fun v => by
  unfold Kept
  infer_instance

def byte (v : SegmentView) (i : Nat) : UInt8 :=
  if v.content then (v.buffer.getD []).getD i 0 else 0

end SegmentView

structure Described {σ : Type} (I : σ → Prop) (seg : SegmentOps σ) (v : SegmentView) : Prop where
  name : Gives I seg.name (.ok v.name)
  loadAddress : Gives I seg.loadAddress (.ok v.loadAddress)
  size : Gives I seg.size (.ok v.size)
  isExecutable : Gives I seg.isExecutable (.ok v.executable)
  isWritable : Gives I seg.isWritable (.ok v.writable)
  hasContent : Gives I seg.hasContent (.ok v.content)
  buffer : Gives I seg.buffer (.ok v.buffer)

structure Lists {σ : Type} (I : σ → Prop) (prog : FileOps σ) (views : List SegmentView) : Prop where
  count : Gives I prog.count (.ok views.length)
  segment : ∀ i v, views[i]? = some v →
    ∃ seg, Gives I (prog.segment i) (.ok seg) ∧ Described I seg v

structure Images (v : SegmentView) (s : ImageSegment) : Prop where
  name : s.name = v.name
  base : s.base = v.loadAddress
  size : s.size = v.size
  writable : s.isWritable = v.writable
  executable : s.isExecutable = v.executable
  bytes : ∀ i < v.size, s.buf[i]? = some (v.byte i)

namespace SegmentView

def initial (v : SegmentView) : List UInt8 := if v.content then v.buffer.getD [] else []

def filled (v : SegmentView) : List UInt8 :=
  v.initial ++ List.replicate (v.size - v.initial.length) 0

def image (v : SegmentView) : ImageSegment where
  name := v.name
  base := v.loadAddress
  buf := v.filled
  flags := ImageSegment.segmentFlags v.writable v.executable

end SegmentView

theorem segmentFlags_writable (w x : Bool) :
    (ImageSegment.segmentFlags w x &&& ImageSegment.WRITABLE != 0) = w := by
  cases w <;> cases x <;> decide

theorem segmentFlags_executable (w x : Bool) :
    (ImageSegment.segmentFlags w x &&& ImageSegment.EXECUTABLE != 0) = x := by
  cases w <;> cases x <;> decide

section
variable {v : SegmentView}

theorem initial_length_le (hfit : ∀ buf, v.buffer = some buf → buf.length ≤ v.size) :
    v.initial.length ≤ v.size := by
  rw [SegmentView.initial]
  split
  · cases hb : v.buffer with
    | none => exact Nat.zero_le _
    | some buf => exact hfit buf hb
  · exact Nat.zero_le _

theorem filled_get {i : Nat} (hi : i < v.size) : v.filled[i]? = some (v.byte i) := by
  have hbyte : v.byte i = v.initial.getD i 0 := by
    rw [SegmentView.byte, SegmentView.initial]
    split <;> rfl
  rw [hbyte, SegmentView.filled, List.getD_eq_getElem?_getD]
  by_cases hin : i < v.initial.length
  · rw [List.getElem?_append_left hin, List.getElem?_eq_getElem hin]
    rfl
  · rw [List.getElem?_append_right (Nat.le_of_not_lt hin), List.getElem?_replicate,
      if_pos (by omega), List.getElem?_eq_none (Nat.le_of_not_lt hin)]
    rfl

theorem image_images (hfit : ∀ buf, v.buffer = some buf → buf.length ≤ v.size) :
    Images v v.image where
  name := rfl
  base := rfl
  size := by
    have hle := initial_length_le hfit
    simp only [ImageSegment.size, SegmentView.image, SegmentView.filled, List.length_append,
      List.length_replicate]
    omega
  writable := segmentFlags_writable _ _
  executable := segmentFlags_executable _ _
  bytes _ hi := filled_get hi

theorem clear_rest {mem : List UInt8} {off n : Nat} (h : off + n = mem.length) :
    ImageSegment.clear mem off n = .ok (mem.take off ++ List.replicate n 0) := by
  rw [ImageSegment.clear, if_pos (Nat.le_of_eq h), h, List.drop_length, List.append_nil]

theorem load_fits {mem sbuf : List UInt8} (hsbuf : v.buffer = some sbuf)
    (hmem : mem.length = v.size) (hfit : sbuf.length ≤ v.size) :
    ImageSegment.load mem sbuf v.content v.size = .ok v.filled := by
  rw [ImageSegment.load, SegmentView.filled, SegmentView.initial, hsbuf, Option.getD_some]
  cases v.content with
  | true =>
    have hcopy : ImageSegment.copy mem sbuf = .ok (sbuf ++ mem.drop sbuf.length) :=
      if_pos (hmem ▸ hfit)
    rw [if_pos rfl, hcopy, Res.ok_bind, if_pos rfl, if_pos rfl]
    dsimp only
    by_cases hlt : sbuf.length < v.size
    · rw [if_pos hlt, clear_rest (by rw [List.length_append, List.length_drop]; omega),
        List.take_left]
    · rw [if_neg hlt, List.drop_eq_nil_of_le (by omega), List.append_nil,
        show v.size - sbuf.length = 0 by omega, List.replicate_zero, List.append_nil]
      rfl
  | false =>
    rw [if_neg Bool.false_ne_true, Res.ok_bind, if_neg Bool.false_ne_true,
      if_neg Bool.false_ne_true]
    dsimp only
    by_cases hlt : 0 < v.size
    · rw [if_pos hlt, clear_rest (by omega)]
      rfl
    · have hnil : mem = [] := List.length_eq_zero_iff.mp (by omega)
      rw [if_neg hlt, hnil, show v.size - ([] : List UInt8).length = 0 from Nat.eq_zero_of_not_pos hlt]
      rfl

open SimpleBuilder

variable {σ : Type} {I : σ → Prop} {seg : SegmentOps σ} {prog : FileOps σ} {views : List SegmentView}
variable {junk : Nat → UInt8}

def allocated (v : SegmentView) : Res ImageSegment :=
  if v.size < 2 ^ 63 then .ok v.image else .error .badAlloc

theorem ofSegment_gives (junk : Nat → UInt8) (hd : Described I seg v) {sbuf : List UInt8}
    (hsbuf : v.buffer = some sbuf)
    (hfit : sbuf.length ≤ v.size) :
    Gives I (ImageSegment.ofSegment junk seg v.loadAddress v.name) (allocated v) := by
  have hbuffer := hd.buffer
  rw [hsbuf] at hbuffer
  refine hd.isWritable.bind_ok (hd.isExecutable.bind_ok (hbuffer.bind_ok (hd.size.bind_ok ?_)))
  rw [allocated, ImageSegment.allocate]
  by_cases hlt : v.size < 2 ^ 63
  · rw [if_pos hlt, if_pos hlt]
    have hmem : ((List.range v.size).map junk).length = v.size := by
      rw [List.length_map, List.length_range]
    refine (Gives.lift _).bind_ok (hd.hasContent.bind_ok ?_)
    rw [load_fits hsbuf hmem hfit]
    exact (Gives.lift _).bind_ok (Gives.pure _)
  · rw [if_neg hlt, if_neg hlt]
    exact (Gives.lift _).bind_error

def addView (im : Image) (v : SegmentView) : Res Image :=
  if v.Kept then (allocated v).map im.add else .ok im

theorem addSegment_gives {i : Nat} (hi : Gives I (prog.segment i) (.ok seg)) (hd : Described I seg v)
    (hfit : ∀ buf, v.buffer = some buf → buf.length ≤ v.size) (im : Image) :
    Gives I (addSegment junk prog im i) (addView im v) := by
  refine hi.bind_ok (hd.size.bind_ok ?_)
  rw [addView]
  by_cases hsize : v.size = 0
  · rw [if_pos hsize, if_neg fun hk => hk.1 hsize]
    exact Gives.pure im
  rw [if_neg hsize]
  have hbuffer := hd.buffer
  refine hbuffer.bind_ok ?_
  cases hb : v.buffer with
  | none =>
    rw [if_neg fun hk => by
      have hsome := hk.2
      rw [hb] at hsome
      cases hsome]
    exact Gives.pure im
  | some sbuf =>
    rw [if_pos ⟨hsize, by rw [hb]; rfl⟩]
    refine hd.loadAddress.bind_ok (hd.name.bind_ok ?_)
    have hof := ofSegment_gives junk hd hb (hfit sbuf hb)
    rw [allocated] at hof ⊢
    split at hof
    · next hlt =>
      rw [if_pos hlt]
      exact hof.bind_ok (Gives.pure _)
    · next hlt =>
      rw [if_neg hlt]
      exact hof.bind_error

theorem addViews_ok {l : List SegmentView} (hsize : ∀ v ∈ l, v.Kept → v.size < 2 ^ 63) (im : Image) :
    l.foldlM addView im = .ok { segs := im.segs ++ (l.filter (·.Kept)).map SegmentView.image } := by
  induction l generalizing im with
  | nil => simp [pure, Except.pure]
  | cons v l ih =>
    rw [List.foldlM_cons, addView]
    by_cases hk : v.Kept
    · have hlt := hsize v (List.mem_cons_self ..) hk
      rw [if_pos hk, allocated, if_pos hlt]
      change l.foldlM addView (im.add v.image) = _
      rw [ih fun w hw => hsize w (List.mem_cons_of_mem _ hw), List.filter_cons_of_pos (by simpa using hk),
        List.map_cons, Image.add, List.append_assoc]
      rfl
    · rw [if_neg hk, Res.ok_bind, ih fun w hw => hsize w (List.mem_cons_of_mem _ hw),
        List.filter_cons_of_neg (by simpa using hk)]

theorem addViews_error {l : List SegmentView} (hsize : ∃ v ∈ l, v.Kept ∧ 2 ^ 63 ≤ v.size)
    (im : Image) : l.foldlM addView im = .error .badAlloc := by
  induction l generalizing im with
  | nil => simp at hsize
  | cons v l ih =>
    rw [List.foldlM_cons, addView]
    by_cases hk : v.Kept
    · rw [if_pos hk, allocated]
      by_cases hlt : v.size < 2 ^ 63
      · rw [if_pos hlt]
        obtain ⟨w, hw, hkw, hle⟩ := hsize
        rcases List.mem_cons.mp hw with rfl | hw
        · omega
        · exact ih ⟨w, hw, hkw, hle⟩ _
      · rw [if_neg hlt]
        rfl
    · rw [if_neg hk]
      obtain ⟨w, hw, hkw, hle⟩ := hsize
      rcases List.mem_cons.mp hw with rfl | hw
      · exact absurd hkw hk
      · exact ih ⟨w, hw, hkw, hle⟩ _

theorem addSegments_gives (hl : Lists I prog views)
    (hfit : ∀ v ∈ views, ∀ buf, v.buffer = some buf → buf.length ≤ v.size) {l : List SegmentView}
    {k : Nat} (hk : ∀ i v, l[i]? = some v → views[k + i]? = some v) (im : Image) :
    Gives I ((List.range' k l.length).foldlM (addSegment junk prog) im) (l.foldlM addView im) := by
  induction l generalizing k im with
  | nil => exact Gives.pure im
  | cons v l ih =>
    rw [List.length_cons, List.range'_succ, List.foldlM_cons, List.foldlM_cons]
    have hv : views[k]? = some v := hk 0 v rfl
    obtain ⟨seg, hi, hd⟩ := hl.segment k v hv
    refine (addSegment_gives hi hd (hfit v (List.mem_of_getElem? hv)) im).bind fun im' => ?_
    refine ih (fun i w hw => ?_) im'
    rw [Nat.add_assoc, Nat.add_comm 1 i]
    exact hk (i + 1) w (by simpa using hw)

theorem build_gives (junk : Nat → UInt8) (hl : Lists I prog views)
    (hfit : ∀ v ∈ views, ∀ buf, v.buffer = some buf → buf.length ≤ v.size) :
    Gives I (build junk prog) (views.foldlM addView {}) := by
  refine hl.count.bind_ok ?_
  rw [List.range_eq_range']
  exact addSegments_gives hl hfit (fun i v hv => by rwa [Nat.zero_add]) {}

theorem simple_image (hl : Lists I prog views)
    (hfit : ∀ v ∈ views, ∀ buf, v.buffer = some buf → buf.length ≤ v.size) :
    ((∀ v ∈ views, v.Kept → v.size < 2 ^ 63) → ∃ im, Gives I (build junk prog) (.ok im) ∧
      List.Forall₂ Images (views.filter (·.Kept)) im.segs) ∧
    ((∃ v ∈ views, v.Kept ∧ 2 ^ 63 ≤ v.size) →
      Gives I (build junk prog) (.error .badAlloc)) := by
  have hbuild := build_gives junk hl hfit
  constructor
  · intro hsize
    rw [addViews_ok hsize] at hbuild
    refine ⟨_, hbuild, ?_⟩
    rw [List.nil_append, List.forall₂_map_right_iff, List.forall₂_same]
    exact fun v hv => image_images (hfit v (List.mem_of_mem_filter hv))
  · intro hsize
    rwa [addViews_error hsize] at hbuild

end

def SegmentView.ops (σ : Type) (v : SegmentView) : SegmentOps σ where
  name := pure v.name
  loadAddress := pure v.loadAddress
  size := pure v.size
  isExecutable := pure v.executable
  isWritable := pure v.writable
  hasContent := pure v.content
  buffer := pure v.buffer

def memoryFile (σ : Type) (views : List SegmentView) : FileOps σ where
  count := pure views.length
  segment i :=
    match views[i]? with
    | some v => pure (v.ops σ)
    | none => raise (.fault .index)

theorem memoryFile_lists {σ : Type} (I : σ → Prop) (views : List SegmentView) :
    Lists I (memoryFile σ views) views where
  count := Gives.pure _
  segment i v hv := by
    refine ⟨v.ops σ, ?_, ⟨Gives.pure _, Gives.pure _, Gives.pure _, Gives.pure _, Gives.pure _,
      Gives.pure _, Gives.pure _⟩⟩
    rw [memoryFile]
    dsimp only
    rw [hv]
    exact Gives.pure _

def codeView : SegmentView where
  name := "code"
  loadAddress := 0x8000
  size := 4
  executable := true
  writable := false
  content := true
  buffer := some [7, 8]

def emptyView : SegmentView := { codeView with size := 0, buffer := some [] }

def nullView : SegmentView := { codeView with buffer := none }

theorem simple_image_code :
    ((∀ v ∈ [codeView, emptyView, nullView], v.Kept → v.size < 2 ^ 63) → ∃ im,
      Gives (fun _ => True) (SimpleBuilder.build (fun _ => 1) (memoryFile Unit [codeView, emptyView, nullView]))
        (.ok im) ∧
      List.Forall₂ Images ([codeView, emptyView, nullView].filter (·.Kept)) im.segs) ∧
    ((∃ v ∈ [codeView, emptyView, nullView], v.Kept ∧ 2 ^ 63 ≤ v.size) →
      Gives (fun _ => True) (SimpleBuilder.build (fun _ => 1) (memoryFile Unit [codeView, emptyView, nullView]))
        (.error .badAlloc)) := by
  refine simple_image (memoryFile_lists _ _) fun v hv buf hbuf => ?_
  simp only [List.mem_cons, List.not_mem_nil, or_false] at hv
  rcases hv with rfl | rfl | rfl <;> cases hbuf <;> decide

end Gelpp
