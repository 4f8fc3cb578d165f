import Gelpp.Cursor

namespace Gelpp

namespace Buffer

theorem set_size_lt {b : Buffer} {off : Nat} {bs : List UInt8} (h : off + bs.length ≤ b.size) :
    (b.bytes.take off ++ bs ++ b.bytes.drop (off + bs.length)).length < 2 ^ 63 := by
  have hlt := b.size_lt
  rw [size] at h
  simp only [List.length_append, List.length_take, List.length_drop]
  omega

def set (b : Buffer) (off : Nat) (bs : List UInt8) (h : off + bs.length ≤ b.size) : Buffer :=
  { b with
    bytes := b.bytes.take off ++ bs ++ b.bytes.drop (off + bs.length)
    size_lt := set_size_lt h }

theorem set_size {b : Buffer} {off : Nat} {bs : List UInt8} (h : off + bs.length ≤ b.size) :
    (b.set off bs h).size = b.size := by
  rw [size] at h
  simp only [size, set, List.length_append, List.length_take, List.length_drop]
  omega

end Buffer

namespace Cursor

-- c.write(v) with its result ignored. The cursor goes `n` bytes further.
def put (c : Cursor) (bs : List UInt8) (n : Nat) (hn : n ≤ bs.length) : Cursor :=
  if h : c.off + bs.length ≤ c.buf.size then {
    buf := c.buf.set c.off bs h
    off := c.off + n
    off_le := by
      rw [Buffer.set_size]
      omega }
  else c

def writeU32 (v : UInt32) (c : Cursor) : Cursor :=
  c.put (c.buf.decoder.host.bytes 4 v.toNat) 4 (by rw [ByteOrder.bytes_length])

-- The NUL is stored, but the cursor is left on it.
def writeCString (s : List UInt8) (c : Cursor) : Cursor :=
  c.put (s ++ [0]) s.length (by simp)

structure Split (d : Decoder) (c : Cursor) (pre post : List UInt8) : Prop where
  decoder : c.buf.decoder = d
  bytes : c.buf.bytes = pre ++ post
  off : c.off = pre.length

section
variable {d : Decoder} {c : Cursor} {pre post bs : List UInt8}

theorem Split.put {n : Nat} (h : Split d c pre post) (hn : n ≤ bs.length)
    (hfit : bs.length ≤ post.length) :
    Split d (c.put bs n hn) (pre ++ bs.take n) (bs.drop n ++ post.drop bs.length) := by
  have hsize : c.buf.size = pre.length + post.length := by
    rw [Buffer.size, h.bytes, List.length_append]
  have hin : c.off + bs.length ≤ c.buf.size := by
    rw [hsize, h.off]
    omega
  rw [Cursor.put, dif_pos hin]
  refine ⟨h.decoder, ?_, ?_⟩
  · have hdrop : (pre ++ post).drop (pre.length + bs.length) = post.drop bs.length := by
      rw [← List.drop_drop, List.drop_left]
    dsimp only [Buffer.set]
    rw [h.bytes, h.off, List.take_left, hdrop]
    calc pre ++ bs ++ post.drop bs.length
        = pre ++ (bs.take n ++ bs.drop n) ++ post.drop bs.length := by rw [List.take_append_drop]
      _ = pre ++ bs.take n ++ (bs.drop n ++ post.drop bs.length) := by
        simp only [List.append_assoc]
  · rw [List.length_append, List.length_take_of_le hn, ← h.off]

theorem Split.writeU32 (h : Split d c pre post) (v : UInt32) (hfit : 4 ≤ post.length) :
    Split d (c.writeU32 v) (pre ++ d.host.bytes 4 v.toNat) (post.drop 4) := by
  have hlen : (d.host.bytes 4 v.toNat).length = 4 := ByteOrder.bytes_length _ _ _
  have hn : 4 ≤ (d.host.bytes 4 v.toNat).length := hlen.ge
  have hput := h.put hn (by omega)
  rw [hlen, List.take_of_length_le hlen.le, List.drop_of_length_le hlen.le, List.nil_append] at hput
  rw [Cursor.writeU32]
  simp only [h.decoder]
  exact hput

theorem Split.writeCString (h : Split d c pre post) (s : List UInt8)
    (hfit : s.length + 1 ≤ post.length) :
    Split d (c.writeCString s) (pre ++ s) (0 :: post.drop (s.length + 1)) := by
  have hlen : (s ++ [0]).length = s.length + 1 := by simp
  have hn : s.length ≤ (s ++ [0]).length := by omega
  have hput := h.put hn (by omega)
  rwa [hlen, List.take_left, List.drop_left] at hput

theorem Split.writeWords (h : Split d c pre post) (vs : List UInt32)
    (hfit : 4 * vs.length ≤ post.length) :
    Split d (vs.foldl (fun c v => c.writeU32 v) c)
      (pre ++ vs.flatMap fun v => d.host.bytes 4 v.toNat) (post.drop (4 * vs.length)) := by
  induction vs generalizing c pre post with
  | nil => simpa using h
  | cons v vs ih =>
    rw [List.length_cons] at hfit
    have hv := ih (h.writeU32 v (by omega)) (by rw [List.length_drop]; omega)
    rw [List.drop_drop, List.append_assoc] at hv
    rw [List.foldl_cons, List.flatMap_cons, List.length_cons]
    rwa [Nat.mul_succ, Nat.add_comm]

-- Each string overwrites the NUL of the one before it.
theorem Split.writeStrings {s : List UInt8} (ss : List (List UInt8)) (h : Split d c pre post)
    (hfit : (s :: ss).flatten.length + 1 ≤ post.length) :
    Split d ((s :: ss).foldl (fun c s => c.writeCString s) c) (pre ++ (s :: ss).flatten)
      (0 :: post.drop ((s :: ss).flatten.length + 1)) := by
  induction ss generalizing c pre post s with
  | nil =>
    rw [List.flatten_cons, List.flatten_nil, List.append_nil] at hfit ⊢
    exact h.writeCString s hfit
  | cons t ts ih =>
    rw [List.flatten_cons, List.length_append] at hfit
    have hs := h.writeCString s (by omega)
    have hrest := ih (s := t) hs (by rw [List.length_cons, List.length_drop]; omega)
    rw [List.drop_succ_cons, List.drop_drop, List.append_assoc] at hrest
    rw [List.foldl_cons, List.flatten_cons, List.length_append]
    rwa [show s.length + (t :: ts).flatten.length + 1 =
      s.length + 1 + (t :: ts).flatten.length by omega]

end

end Cursor

end Gelpp
