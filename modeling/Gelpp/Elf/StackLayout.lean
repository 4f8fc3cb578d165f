import Gelpp.Elf.Stack

namespace Gelpp.Elf

def addresses (p : Nat) : List (List UInt8) → List Nat
  | [] => []
  | text :: texts => p :: addresses (p + (text.length + 1)) texts

def terminated (texts : List (List UInt8)) : List UInt8 := texts.flatMap (· ++ [0])

def auxWords (a : Auxiliary) : List Nat := [a.type.toNat, a.val.toNat]

structure StringAt (s : Stack) (text : List UInt8) (p : Nat) : Prop where
  lower : s.addr.toNat ≤ p
  bytes : s.buf.slice (p - s.addr.toNat) (text.length + 1) = text ++ [0]

def Reads (s : Stack) (words : List Nat) : Prop :=
  ∀ i w, words[i]? = some w → s.sp.toNat - s.addr.toNat + 4 * i + 4 ≤ s.buf.size ∧
    (s.buf.getU32 (s.sp.toNat - s.addr.toNat + 4 * i)).toNat = w

def stackWords (params : Parameter) (uparams : UnixParameter) (sp : Nat) (argv envp : List Nat) :
    List Nat :=
  [params.arg.length, sp + 12, sp + 12 + 4 * (params.arg.length + 1)] ++ (argv ++ 0 :: (envp ++ 0 ::
    (uparams.auxv.flatMap auxWords ++ [0])))

structure InitialStack (params : Parameter) (uparams : UnixParameter) (s : Stack) : Prop where
  layout : ∃ argv envp, List.Forall₂ (StringAt s) params.arg argv ∧
    List.Forall₂ (StringAt s) params.env envp ∧
    Reads s (stackWords params uparams s.sp.toNat argv envp)

theorem terminated_length (texts : List (List UInt8)) :
    (terminated texts).length = texts.flatten.length + texts.length := by
  induction texts with
  | nil => rfl
  | cons text texts ih =>
    simp only [terminated, List.flatMap_cons, List.flatten_cons, List.length_append,
      List.length_cons, List.length_nil] at ih ⊢
    omega

theorem addLength_sum {texts : List (List UInt8)} {s t : Nat}
    (h : texts.foldlM addLength s = (.ok t : Res Nat)) : t = s + (terminated texts).length := by
  induction texts generalizing s with
  | nil =>
    cases h
    rfl
  | cons text texts ih =>
    rw [List.foldlM_cons] at h
    obtain ⟨u, hu, h⟩ := Res.bind_ok.mp h
    obtain ⟨v, hv, hu⟩ := Res.bind_ok.mp hu
    have hveq : v = text.length + 1 := by
      unfold asInt at hv
      split at hv <;> cases hv
      rfl
    cases hu
    rw [ih h, hveq, terminated, terminated, List.flatMap_cons, List.length_append,
      List.length_append, List.length_singleton, Nat.add_assoc]

theorem asInt_ok {n v : Nat} (h : asInt n = .ok v) : v = n ∧ n < 2 ^ 31 := by
  unfold asInt at h
  split at h <;> cases h
  exact ⟨rfl, ‹_›⟩

section
variable {params : Parameter} {uparams : UnixParameter} {z : StackSizes}

def wordCount (params : Parameter) (uparams : UnixParameter) : Nat :=
  3 + (params.arg.length + 1) + (params.env.length + 1) + (2 * uparams.auxv.length + 1)

structure Sized (params : Parameter) (uparams : UnixParameter) (z : StackSizes) : Prop where
  argA : z.argA = 12
  envA : z.envA = 12 + 4 * (params.arg.length + 1)
  argS : z.argS = 4 * wordCount params uparams
  envS : z.envS = z.argS + (terminated params.arg).length
  isize : z.envS + (terminated params.env).length ≤ z.isize
  args : params.arg.length + 1 < 2 ^ 31

theorem sized_of_ok (h : stackSizes params uparams = .ok z) : Sized params uparams z := by
  unfold stackSizes at h
  obtain ⟨a, ha, h⟩ := Res.bind_ok.mp h
  obtain ⟨b, hb, h⟩ := Res.bind_ok.mp h
  obtain ⟨c, hc, h⟩ := Res.bind_ok.mp h
  obtain ⟨envS, henv, h⟩ := Res.bind_ok.mp h
  obtain ⟨s, hs, h⟩ := Res.bind_ok.mp h
  obtain ⟨rfl, hlt⟩ := asInt_ok ha
  obtain ⟨rfl, -⟩ := asInt_ok hb
  obtain ⟨rfl, -⟩ := asInt_ok hc
  have henv := addLength_sum henv
  have hs := addLength_sum hs
  cases h
  refine ⟨rfl, ?_, ?_, henv, ?_, hlt⟩
  · dsimp only
    omega
  · dsimp only [wordCount]
    omega
  · dsimp only
    omega

def pointerWords (p : UInt32) : List (List UInt8) → List UInt32
  | [] => []
  | text :: texts => p :: pointerWords (p + .ofNat (text.length + 1)) texts

def writtenWords (params : Parameter) (uparams : UnixParameter) (z : StackSizes) (sp : UInt64) :
    List UInt32 :=
  [.ofNat params.arg.length, (sp + .ofNat z.argA).toUInt32, (sp + .ofNat z.envA).toUInt32] ++
    (pointerWords (sp + .ofNat z.argS).toUInt32 params.arg ++ 0 ::
      (pointerWords (sp + .ofNat z.envS).toUInt32 params.env ++ 0 ::
        (uparams.auxv.flatMap (fun a => [a.type, a.val]) ++ [0])))

theorem foldl_writePointer (texts : List (List UInt8)) (c : Cursor) (p : UInt32) :
    (texts.foldl writePointer (c, p)).1 = (pointerWords p texts).foldl (fun c v => c.writeU32 v) c := by
  induction texts generalizing c p with
  | nil => rfl
  | cons text texts ih => exact ih _ _

theorem foldl_writeAuxiliary (auxv : List Auxiliary) (c : Cursor) :
    auxv.foldl writeAuxiliary c =
      (auxv.flatMap fun a => [a.type, a.val]).foldl (fun c v => c.writeU32 v) c := by
  induction auxv generalizing c with
  | nil => rfl
  | cons a auxv ih => exact ih _

theorem fillStack_eq (sp : UInt64) (c : Cursor) : fillStack params uparams z sp c =
    (params.arg ++ params.env).foldl (fun c text => c.writeCString text)
      ((writtenWords params uparams z sp).foldl (fun c v => c.writeU32 v) c) := by
  simp only [fillStack, writtenWords, foldl_writePointer, foldl_writeAuxiliary, List.foldl_append,
    List.foldl_cons, List.foldl_nil]

theorem pointerWords_toNat {p : UInt32} {texts : List (List UInt8)}
    (h : p.toNat + (terminated texts).length ≤ 2 ^ 32) :
    (pointerWords p texts).map UInt32.toNat = addresses p.toNat texts := by
  induction texts generalizing p with
  | nil => rfl
  | cons text texts ih =>
    rw [terminated_length] at h ih
    rw [List.flatten_cons, List.length_append, List.length_cons] at h
    rw [pointerWords, List.map_cons, addresses]
    cases texts with
    | nil => rfl
    | cons t ts =>
      rw [List.length_cons] at h
      have hnext : (p + .ofNat (text.length + 1)).toNat = p.toNat + (text.length + 1) := by
        rw [UInt32.toNat_add, UInt32.toNat_ofNat', Nat.add_mod_mod, Nat.mod_eq_of_lt (by omega)]
      rw [← hnext]
      congr 1
      refine ih ?_
      rw [hnext, List.length_cons]
      omega

theorem sum_toNat {sp : UInt64} {n : Nat} (h : sp.toNat + n < 2 ^ 32) :
    (sp + .ofNat n).toUInt32.toNat = sp.toNat + n := by
  rw [UInt64.toNat_toUInt32, UInt64.toNat_add, UInt64.toNat_ofNat']
  omega

theorem pointers_toNat (sp : UInt64) (n : Nat) (texts : List (List UInt8))
    (h : sp.toNat + n + (terminated texts).length ≤ 2 ^ 32) :
    (pointerWords (sp + .ofNat n).toUInt32 texts).map UInt32.toNat =
      addresses (sp.toNat + n) texts := by
  cases texts with
  | nil => rfl
  | cons text texts =>
    have hpos : 0 < (terminated (text :: texts)).length := by
      rw [terminated_length, List.length_cons]
      omega
    have hsum : (sp + .ofNat n).toUInt32.toNat = sp.toNat + n := sum_toNat (by omega)
    rw [pointerWords_toNat (by rw [hsum]; exact h), hsum]

theorem writtenWords_toNat {sp : UInt64} (hz : Sized params uparams z)
    (h : sp.toNat + z.isize ≤ 2 ^ 32) : (writtenWords params uparams z sp).map UInt32.toNat =
      stackWords params uparams sp.toNat (addresses (sp.toNat + z.argS) params.arg)
        (addresses (sp.toNat + z.envS) params.env) := by
  have hargS := hz.argS
  have henvS := hz.envS
  have hisize := hz.isize
  have hargs := hz.args
  have hA := hz.argA
  have hE := hz.envA
  have hcount : (UInt32.ofNat params.arg.length).toNat = params.arg.length := by
    rw [UInt32.toNat_ofNat', Nat.mod_eq_of_lt (by omega)]
  have hargv : (sp + .ofNat z.argA).toUInt32.toNat = sp.toNat + 12 := by
    rw [sum_toNat (by rw [wordCount] at hargS; omega), hA]
  have henvp : (sp + .ofNat z.envA).toUInt32.toNat =
      sp.toNat + 12 + 4 * (params.arg.length + 1) := by
    rw [sum_toNat (by rw [wordCount] at hargS; omega), hE, Nat.add_assoc]
  have haux : (uparams.auxv.flatMap fun a => [a.type, a.val]).map UInt32.toNat =
      uparams.auxv.flatMap auxWords := by
    rw [List.map_flatMap]
    rfl
  simp only [writtenWords, stackWords, List.map_append, List.map_cons, List.map_nil, hcount, hargv,
    henvp, haux, pointers_toNat sp z.argS params.arg (by omega),
    pointers_toNat sp z.envS params.env (by omega), UInt32.toNat_zero]

theorem pointerWords_length (p : UInt32) (texts : List (List UInt8)) :
    (pointerWords p texts).length = texts.length := by
  induction texts generalizing p with
  | nil => rfl
  | cons text texts ih => rw [pointerWords, List.length_cons, ih, List.length_cons]

theorem writtenWords_length (sp : UInt64) :
    (writtenWords params uparams z sp).length = wordCount params uparams := by
  have haux : (uparams.auxv.flatMap fun a => [a.type, a.val]).length = 2 * uparams.auxv.length := by
    induction uparams.auxv with
    | nil => rfl
    | cons a auxv ih =>
      rw [List.flatMap_cons, List.length_append, ih, List.length_cons, List.length_cons,
        List.length_cons, List.length_nil]
      omega
  simp only [writtenWords, List.length_append, List.length_cons, List.length_nil,
    pointerWords_length, haux, wordCount]
  omega

def stackBytes (host : ByteOrder) (params : Parameter) (words : List UInt32) (rest : List UInt8) :
    List UInt8 :=
  words.flatMap (fun v => host.bytes 4 v.toNat) ++ match params.arg ++ params.env with
    | [] => rest
    | text :: texts => (text :: texts).flatten ++ 0 :: rest.drop ((text :: texts).flatten.length + 1)

theorem fillStack_bytes {d : Decoder} (sp : UInt64) {c : Cursor} {pre post : List UInt8}
    (hz : Sized params uparams z) (hc : c.Split d pre post) (hpost : z.isize ≤ post.length) :
    (fillStack params uparams z sp c).buf.decoder = d ∧
      (fillStack params uparams z sp c).buf.bytes = pre ++ stackBytes d.host params
        (writtenWords params uparams z sp) (post.drop z.argS) := by
  have hlen : (writtenWords params uparams z sp).length = wordCount params uparams :=
    writtenWords_length sp
  have hargS := hz.argS
  have henvS := hz.envS
  have hisize := hz.isize
  rw [terminated_length] at henvS hisize
  have hwords := hc.writeWords (writtenWords params uparams z sp) (by rw [hlen]; omega)
  rw [hlen, ← hargS] at hwords
  rw [fillStack_eq, stackBytes]
  cases htexts : params.arg ++ params.env with
  | nil => exact ⟨hwords.decoder, by rw [List.foldl_nil, hwords.bytes, List.append_assoc]⟩
  | cons text texts =>
    have hflat : (text :: texts).flatten.length =
        params.arg.flatten.length + params.env.flatten.length := by
      rw [← htexts, List.flatten_append, List.length_append]
    have hcount : (text :: texts).length = params.arg.length + params.env.length := by
      rw [← htexts, List.length_append]
    rw [List.length_cons] at hcount
    have hstrings := hwords.writeStrings texts (s := text)
      (by rw [hflat, List.length_drop]; omega)
    refine ⟨hstrings.decoder, ?_⟩
    rw [hstrings.bytes]
    simp only [List.append_assoc]

structure Below (params : Parameter) : Prop where
  size : params.stackSize.toNat ≤ (stackTop params).toNat
  top : (stackTop params).toNat ≤ 2 ^ 32

structure Built (prog : File) (params : Parameter) (uparams : UnixParameter) (z : StackSizes)
    (s : Stack) : Prop where
  sized : Sized params uparams z
  sp : s.sp.toNat + z.isize ≤ 2 ^ 32
  start : ∃ start, params.stackSize.toNat = start + z.isize ∧ s.sp.toNat = s.addr.toNat + start ∧
    s.buf.bytes = (fresh prog params.stackSize.toNat).take start ++
      stackBytes prog.host params (writtenWords params uparams z s.sp)
        ((fresh prog params.stackSize.toNat).drop (start + z.argS))
  decoder : s.buf.decoder = prog.decoder

theorem skip_start {b : Buffer} (hf : b.fence = none) {n : Nat} (hn : n ≤ b.size) :
    ∃ c, (Cursor.start b).skip n = .ok (some c) ∧
      c.Split b.decoder (b.bytes.take n) (b.bytes.drop n) := by
  have hlt := b.size_lt
  rw [Buffer.size] at hn
  have hmod : (0 + n) % 2 ^ 64 = n := by omega
  have havail : (Cursor.start b).avail n := by
    change (0 + n) % 2 ^ 64 ≤ b.bytes.length
    rw [hmod]
    exact hn
  refine ⟨(Cursor.start b).advance n havail, ?_, rfl, (List.take_append_drop n b.bytes).symm, ?_⟩
  · rw [Cursor.skip]
    change b.demand _ _ >>= _ = _
    rw [Buffer.demand_unfenced hf, Res.ok_bind, dif_pos havail]
    rfl
  · rw [List.length_take_of_le hn]
    exact hmod

structure Buildable (params : Parameter) (uparams : UnixParameter) (z : StackSizes) : Prop where
  alloc : uparams.stackAlloc = true
  sizes : stackSizes params uparams = .ok z
  isize : z.isize ≤ params.stackSize.toNat
  memory : params.stackSize.toNat < 2 ^ 63

theorem buildable_of_ok {prog : File} {s : Stack}
    (h : buildStack prog params uparams = .ok (some s)) : ∃ z, Buildable params uparams z := by
  unfold buildStack at h
  split at h
  · next halloc =>
    obtain ⟨z, hz, h⟩ := Res.bind_ok.mp h
    dsimp only at h
    split at h
    · cases h
    · next hsize =>
      split at h
      · next hlt => exact ⟨z, halloc, hz, by omega, hlt⟩
      · cases h
  · cases h

theorem buildStack_built (prog : File) (hb : Below params) (h : Buildable params uparams z) :
    ∃ s, buildStack prog params uparams = .ok (some s) ∧ Built prog params uparams z s := by
  have hsized := sized_of_ok h.sizes
  have hisize := h.isize
  have htop := hb.top
  have hsize := hb.size
  obtain ⟨start, hstart⟩ : ∃ start, params.stackSize.toNat = start + z.isize :=
    ⟨params.stackSize.toNat - z.isize, by omega⟩
  have hsub : params.stackSize.toNat - z.isize = start := by omega
  have haddr : (stackTop params - params.stackSize).toNat =
      (stackTop params).toNat - params.stackSize.toNat :=
    UInt64.toNat_sub_of_le _ _ (UInt64.le_iff_toNat_le.mpr hb.size)
  have hsp : (stackTop params - params.stackSize + params.stackSize - .ofNat z.isize).toNat =
      (stackTop params).toNat - z.isize := by
    rw [UInt64.sub_add_cancel, UInt64.toNat_sub_of_le, UInt64.toNat_ofNat']
    · omega
    · rw [UInt64.le_iff_toNat_le, UInt64.toNat_ofNat']
      omega
  let b : Buffer := {
    decoder := prog.decoder
    bytes := fresh prog params.stackSize.toNat
    size_lt := by
      rw [fresh_length]
      exact h.memory }
  obtain ⟨c, hskip, hc⟩ := skip_start (b := b) rfl (n := start)
    (by rw [Buffer.size, fresh_length]; omega)
  obtain ⟨hdec, hbytes⟩ := fillStack_bytes
    (stackTop params - params.stackSize + params.stackSize - .ofNat z.isize) hsized hc
    (by rw [List.length_drop, fresh_length]; omega)
  rw [List.drop_drop] at hbytes
  refine ⟨⟨_, stackTop params - params.stackSize, _⟩, ?_, hsized, ?_,
    ⟨start, hstart, ?_, hbytes⟩, hdec⟩
  · rw [buildStack, if_pos h.alloc, h.sizes, Res.ok_bind]
    dsimp only
    rw [if_neg (by omega), dif_pos h.memory, hsub, hskip]
    rfl
  · dsimp only
    rw [hsp]
    omega
  · dsimp only
    rw [hsp, haddr]
    omega

theorem Built.of_ok {prog : File} {s : Stack} (hb : Below params)
    (h : buildStack prog params uparams = .ok (some s)) : ∃ z, Built prog params uparams z s := by
  obtain ⟨z, hz⟩ := buildable_of_ok h
  obtain ⟨t, ht, hbuilt⟩ := buildStack_built prog hb hz
  rw [h] at ht
  cases ht
  exact ⟨z, hbuilt⟩

theorem flatMap_word {f : UInt32 → List UInt8} (hf : ∀ v, (f v).length = 4) {words : List UInt32}
    {i : Nat} {w : UInt32} (h : words[i]? = some w) (tail : List UInt8) :
    ((words.flatMap f ++ tail).drop (4 * i)).take 4 = f w := by
  induction words generalizing i with
  | nil => cases h
  | cons v words ih =>
    rw [List.flatMap_cons, List.append_assoc]
    cases i with
    | zero =>
      obtain rfl : v = w := by simpa using h
      rw [Nat.mul_zero, List.drop_zero, ← hf v, List.take_left]
    | succ i =>
      rw [List.getElem?_cons_succ] at h
      rw [Nat.mul_succ, Nat.add_comm, ← List.drop_drop, List.drop_left' (hf v)]
      exact ih h

theorem Built.word {prog : File} {s : Stack} (hb : Built prog params uparams z s) {i : Nat}
    {w : UInt32} (h : (writtenWords params uparams z s.sp)[i]? = some w) :
    s.sp.toNat - s.addr.toNat + 4 * i + 4 ≤ s.buf.size ∧
      (s.buf.getU32 (s.sp.toNat - s.addr.toNat + 4 * i)).toNat =
        prog.decoder.order.value (prog.host.bytes 4 w.toNat) := by
  obtain ⟨start, hstart, hsp, hbytes⟩ := hb.start
  have hoff : s.sp.toNat - s.addr.toNat = start := by omega
  have hpre : ((fresh prog params.stackSize.toNat).take start).length = start := by
    rw [List.length_take, fresh_length]
    omega
  have hlen (v : UInt32) : (prog.host.bytes 4 v.toNat).length = 4 := ByteOrder.bytes_length _ _ _
  have hslice : s.buf.slice (start + 4 * i) 4 = prog.host.bytes 4 w.toNat := by
    rw [Buffer.slice, hbytes, ← List.drop_drop, List.drop_left' hpre, stackBytes]
    exact flatMap_word hlen h _
  have hfix := s.buf.decoder.fix32_load (prog.host.bytes 4 w.toNat) (hlen w)
  refine ⟨?_, ?_⟩
  · have hslice := congrArg List.length hslice
    rw [hlen, Buffer.slice, List.length_take, List.length_drop] at hslice
    rw [hoff, Buffer.size]
    omega
  · rw [hoff, Buffer.getU32, hslice]
    have hhost : s.buf.decoder.host = prog.host := by
      rw [hb.decoder]
      rfl
    rw [hhost] at hfix ⊢
    rw [hfix, hb.decoder]

theorem reads_unique {s : Stack} {ws ws' : List Nat} (h : Reads s ws) (h' : Reads s ws')
    (hlen : ws.length = ws'.length) : ws = ws' := by
  refine List.ext_getElem hlen fun i hi hi' => ?_
  have h1 := (h i _ (List.getElem?_eq_getElem hi)).2
  have h2 := (h' i _ (List.getElem?_eq_getElem hi')).2
  rw [← h1, ← h2]

theorem addresses_length (p : Nat) (texts : List (List UInt8)) :
    (addresses p texts).length = texts.length := by
  induction texts generalizing p with
  | nil => rfl
  | cons text texts ih => rw [addresses, List.length_cons, ih, List.length_cons]

theorem stackWords_inj {sp : Nat} {argv argv' envp envp' : List Nat}
    (hargv : argv.length = argv'.length) (henvp : envp.length = envp'.length)
    (h : stackWords params uparams sp argv envp = stackWords params uparams sp argv' envp') :
    argv = argv' ∧ envp = envp' := by
  obtain ⟨h1, h2⟩ := List.append_inj (List.append_cancel_left h) hargv
  exact ⟨h1, (List.append_inj (List.cons.inj h2).2 henvp).1⟩

theorem Built.reads {prog : File} {s : Stack} (hb : Built prog params uparams z s)
    (ho : prog.decoder.order = prog.host) : Reads s (stackWords params uparams s.sp.toNat
      (addresses (s.sp.toNat + z.argS) params.arg) (addresses (s.sp.toNat + z.envS) params.env)) := by
  intro i w hw
  rw [← writtenWords_toNat hb.sized hb.sp, List.getElem?_map, Option.map_eq_some_iff] at hw
  obtain ⟨v, hv, rfl⟩ := hw
  obtain ⟨hin, hval⟩ := hb.word hv
  refine ⟨hin, hval.trans ?_⟩
  rw [ho, ByteOrder.value_bytes]
  exact v.toNat_lt

theorem palindrome {bs : List UInt8} (hlen : bs.length = 4)
    (h : ByteOrder.littleValue bs.reverse = ByteOrder.littleValue bs) :
    257 ∣ ByteOrder.littleValue bs := by
  obtain ⟨a, b, c, d, rfl⟩ : ∃ a b c d, bs = [a, b, c, d] := by
    match bs, hlen with
    | [a, b, c, d], _ => exact ⟨a, b, c, d, rfl⟩
  have ha := a.toNat_lt
  have hb := b.toNat_lt
  have hc := c.toNat_lt
  have hd := d.toNat_lt
  simp only [List.reverse_cons, List.reverse_nil, List.nil_append, List.cons_append,
    ByteOrder.littleValue_cons, ByteOrder.littleValue_nil] at h ⊢
  omega

theorem palindrome_word {o : ByteOrder} {v : UInt32}
    (h : o.other.value (o.bytes 4 v.toNat) = v.toNat) : 257 ∣ v.toNat := by
  have hlen : (o.bytes 4 v.toNat).length = 4 := ByteOrder.bytes_length _ _ _
  have hval : o.value (o.bytes 4 v.toNat) = v.toNat := ByteOrder.value_bytes o v.toNat_lt
  generalize o.bytes 4 v.toNat = bs at h hlen hval
  cases o with
  | little =>
    rw [← hval]
    exact palindrome hlen (h.trans hval.symm)
  | big =>
    rw [← h]
    exact palindrome hlen (hval.trans h.symm)

theorem Built.order {prog : File} {s : Stack} {argv envp : List Nat}
    (hb : Built prog params uparams z s)
    (h : Reads s (stackWords params uparams s.sp.toNat argv envp)) :
    prog.eiData = elfData2LSB := by
  by_contra hne
  have ho : prog.decoder.order = prog.host.other := if_neg hne
  have hwritten := writtenWords_toNat hb.sized hb.sp
  have hword {i w : Nat} (hi : i < 3)
      (hw : (stackWords params uparams s.sp.toNat argv envp)[i]? = some w) : 257 ∣ w := by
    have hsame : (stackWords params uparams s.sp.toNat argv envp)[i]? =
        ((writtenWords params uparams z s.sp).map UInt32.toNat)[i]? := by
      rw [hwritten, stackWords, stackWords, List.getElem?_append_left hi,
        List.getElem?_append_left hi]
    rw [hsame, List.getElem?_map, Option.map_eq_some_iff] at hw
    obtain ⟨v, hv, rfl⟩ := hw
    have hread := (hb.word hv).2
    rw [(h i _ (hsame.trans (by rw [List.getElem?_map, hv]; rfl))).2, ho] at hread
    exact palindrome_word hread.symm
  have h0 : 257 ∣ params.arg.length := hword (i := 0) (by omega) rfl
  have h1 : 257 ∣ s.sp.toNat + 12 := hword (i := 1) (by omega) rfl
  have h2 : 257 ∣ s.sp.toNat + 12 + 4 * (params.arg.length + 1) := hword (i := 2) (by omega) rfl
  omega

theorem slice_append {b : Buffer} {off : Nat} {xs ys : List UInt8} :
    b.slice off (xs.length + ys.length) = xs ++ ys ↔
      b.slice off xs.length = xs ∧ b.slice (off + xs.length) ys.length = ys := by
  have hsplit : b.slice off (xs.length + ys.length) =
      b.slice off xs.length ++ b.slice (off + xs.length) ys.length := by
    rw [Buffer.slice, List.take_add, List.drop_drop]
    rfl
  rw [hsplit]
  constructor
  · intro h
    have hlen := congrArg List.length h
    have h1 : (b.slice off xs.length).length ≤ xs.length := List.length_take_le _ _
    have h2 : (b.slice (off + xs.length) ys.length).length ≤ ys.length := List.length_take_le _ _
    rw [List.length_append, List.length_append] at hlen
    exact List.append_inj h (by omega)
  · rintro ⟨h1, h2⟩
    rw [h1, h2]

theorem strings_iff {s : Stack} {texts : List (List UInt8)} {off : Nat} :
    List.Forall₂ (StringAt s) texts (addresses (s.addr.toNat + off) texts) ↔
      s.buf.slice off (terminated texts).length = terminated texts := by
  induction texts generalizing off with
  | nil => simp [addresses, terminated, Buffer.slice]
  | cons text texts ih =>
    have hcons : terminated (text :: texts) = (text ++ [0]) ++ terminated texts := rfl
    have hlen : (text ++ [0]).length = text.length + 1 := by simp
    rw [addresses, List.forall₂_cons, hcons, List.length_append, slice_append, hlen,
      Nat.add_assoc s.addr.toNat, ih]
    refine and_congr_left fun _ => ⟨fun h => ?_, fun h => ⟨Nat.le_add_right _ _, ?_⟩⟩
    · have hbytes := h.bytes
      rwa [Nat.add_sub_cancel_left] at hbytes
    · rwa [Nat.add_sub_cancel_left]

def stringBytes (rest : List UInt8) : List (List UInt8) → List UInt8
  | [] => rest
  | text :: texts => (text :: texts).flatten ++ 0 :: rest.drop ((text :: texts).flatten.length + 1)

theorem stackBytes_drop (host : ByteOrder) {words : List UInt32} {rest : List UInt8} {n : Nat}
    (hn : n = 4 * words.length) :
    (stackBytes host params words rest).drop n = stringBytes rest (params.arg ++ params.env) := by
  have hlen : (words.flatMap fun v => host.bytes 4 v.toNat).length = n := by
    rw [hn]
    clear hn
    induction words with
    | nil => rfl
    | cons v words ih =>
      rw [List.flatMap_cons, List.length_append, ByteOrder.bytes_length, ih, List.length_cons]
      omega
  rw [stackBytes, List.drop_left' hlen]
  cases params.arg ++ params.env <;> rfl

def StringsStored (params : Parameter) (z : StackSizes) (s : Stack) : Prop :=
  List.Forall₂ (StringAt s) params.arg (addresses (s.sp.toNat + z.argS) params.arg) ∧
    List.Forall₂ (StringAt s) params.env (addresses (s.sp.toNat + z.envS) params.env)

theorem Built.stringsStored {prog : File} {s : Stack} (hb : Built prog params uparams z s) :
    ∃ rest, rest.length + z.argS = z.isize ∧
      (∀ b, (∀ i, prog.junk i = b) → ∀ b' ∈ rest, b' = b) ∧
      (StringsStored params z s ↔
        (stringBytes rest (params.arg ++ params.env)).take
          (terminated (params.arg ++ params.env)).length = terminated (params.arg ++ params.env)) := by
  obtain ⟨start, hstart, hsp, hbytes⟩ := hb.start
  have hargS := hb.sized.argS
  have henvS := hb.sized.envS
  have hisize := hb.sized.isize
  have hpre : ((fresh prog params.stackSize.toNat).take start).length = start := by
    rw [List.length_take, fresh_length]
    omega
  have hargs : s.sp.toNat + z.argS = s.addr.toNat + (start + z.argS) := by omega
  have henvs : s.sp.toNat + z.envS =
      s.addr.toNat + (start + z.argS + (terminated params.arg).length) := by omega
  have happend : terminated (params.arg ++ params.env) =
      terminated params.arg ++ terminated params.env := List.flatMap_append
  refine ⟨(fresh prog params.stackSize.toNat).drop (start + z.argS), ?_, ?_, ?_⟩
  · rw [List.length_drop, fresh_length]
    omega
  · intro b hjunk b' hb'
    obtain ⟨i, -, rfl⟩ := List.mem_map.mp (List.mem_of_mem_drop hb')
    exact hjunk i
  · rw [StringsStored, hargs, henvs, strings_iff, strings_iff, ← slice_append, ← List.length_append,
      ← happend, Buffer.slice, hbytes, ← List.drop_drop, List.drop_left' hpre,
      stackBytes_drop prog.host (by rw [writtenWords_length, hargS])]

theorem stringBytes_single (rest : List UInt8) {texts : List (List UInt8)} (h : texts.length ≤ 1) :
    (stringBytes rest texts).take (terminated texts).length = terminated texts := by
  match texts, h with
  | [], _ => rfl
  | [text], _ =>
    have hterm : terminated [text] = text ++ [0] := List.append_nil _
    rw [stringBytes, List.flatten_cons, List.flatten_nil, List.append_nil, List.append_cons, hterm,
      List.take_left]

theorem terminated_ends {texts : List (List UInt8)} (h : texts ≠ []) :
    ∃ init, terminated texts = init ++ [0] := by
  rcases List.eq_nil_or_concat texts with rfl | ⟨ts, t, rfl⟩
  · exact absurd rfl h
  · refine ⟨terminated ts ++ t, ?_⟩
    rw [List.append_assoc, terminated, List.concat_eq_append, List.flatMap_append,
      List.flatMap_singleton]
    rfl

theorem stringBytes_many {rest : List UInt8} {texts : List (List UInt8)} (h : 2 ≤ texts.length)
    (hfit : (terminated texts).length ≤ rest.length) (hjunk : ∀ b ∈ rest, b = 1) :
    (stringBytes rest texts).take (terminated texts).length ≠ terminated texts := by
  obtain ⟨text, texts, rfl⟩ := List.exists_cons_of_length_pos (by omega : 0 < texts.length)
  obtain ⟨init, hinit⟩ := terminated_ends (List.cons_ne_nil text texts)
  intro heq
  have hlen := terminated_length (text :: texts)
  have hsucc := congrArg List.length hinit
  rw [List.length_append, List.length_singleton] at hsucc
  have hnul : (terminated (text :: texts))[init.length]? = some 0 := by
    rw [hinit, List.getElem?_concat_length]
  have hrest : (stringBytes rest (text :: texts))[init.length]? = rest[init.length]? := by
    rw [stringBytes, List.getElem?_append_right (by omega)]
    obtain ⟨k, hk⟩ : ∃ k, init.length - (text :: texts).flatten.length = k + 1 :=
      ⟨init.length - (text :: texts).flatten.length - 1, by omega⟩
    rw [hk, List.getElem?_cons_succ, List.getElem?_drop]
    congr 1
    omega
  have hin : init.length < rest.length := by omega
  rw [← heq, List.getElem?_take_of_lt (by omega), hrest, List.getElem?_eq_getElem hin] at hnul
  have hone := hjunk _ (List.getElem_mem hin)
  rw [Option.some.inj hnul] at hone
  cases hone

theorem Built.unique {prog : File} {s : Stack} {argv envp : List Nat}
    (hb : Built prog params uparams z s) (ho : prog.eiData = elfData2LSB)
    (hargv : List.Forall₂ (StringAt s) params.arg argv)
    (henvp : List.Forall₂ (StringAt s) params.env envp)
    (h : Reads s (stackWords params uparams s.sp.toNat argv envp)) : StringsStored params z s := by
  have hreads := hb.reads (if_pos ho)
  have hargs := (addresses_length (s.sp.toNat + z.argS) params.arg).trans hargv.length_eq
  have henvs := (addresses_length (s.sp.toNat + z.envS) params.env).trans henvp.length_eq
  have hlen : (stackWords params uparams s.sp.toNat argv envp).length =
      (stackWords params uparams s.sp.toNat (addresses (s.sp.toNat + z.argS) params.arg)
        (addresses (s.sp.toNat + z.envS) params.env)).length := by
    simp only [stackWords, List.length_append, List.length_cons, hargs, henvs]
  obtain ⟨rfl, rfl⟩ := stackWords_inj hargs.symm henvs.symm (reads_unique h hreads hlen)
  exact ⟨hargv, henvp⟩

theorem initial_stack_iff {prog : File} (hb : Below params)
    (hbuilt : ∃ s, buildStack prog params uparams = .ok (some s)) :
    (∀ junk s, buildStack (prog.withJunk junk) params uparams = .ok (some s) →
      InitialStack params uparams s) ↔
      prog.eiData = elfData2LSB ∧ params.arg.length + params.env.length ≤ 1 := by
  obtain ⟨s₀, hs₀⟩ := hbuilt
  obtain ⟨z, hz⟩ := buildable_of_ok hs₀
  constructor
  · intro h
    obtain ⟨s, hs, hbuilt⟩ := buildStack_built (prog.withJunk fun _ => 1) hb hz
    obtain ⟨argv, envp, hargv, henvp, hreads⟩ := (h _ s hs).layout
    have ho : prog.eiData = elfData2LSB := hbuilt.order hreads
    refine ⟨ho, ?_⟩
    by_contra hmany
    obtain ⟨rest, hlen, hjunk, hiff⟩ := hbuilt.stringsStored
    have hstored := hiff.mp (hbuilt.unique ho hargv henvp hreads)
    have henvS := hbuilt.sized.envS
    have hisize := hbuilt.sized.isize
    have hterm : (terminated (params.arg ++ params.env)).length =
        (terminated params.arg).length + (terminated params.env).length := by
      rw [terminated, List.flatMap_append, List.length_append]
      rfl
    exact stringBytes_many (by rw [List.length_append]; omega) (by rw [hterm]; omega)
      (hjunk 1 fun _ => rfl) hstored
  · rintro ⟨ho, hfew⟩ junk s hs
    obtain ⟨z', hbuilt⟩ := Built.of_ok hb hs
    obtain ⟨rest, -, -, hiff⟩ := hbuilt.stringsStored
    have hstored := hiff.mpr (stringBytes_single rest (by rwa [List.length_append]))
    exact ⟨_, _, hstored.1, hstored.2, hbuilt.reads (if_pos ho)⟩

end

def smallStack (arg : List (List UInt8)) : UnixParameter := { arg, stackSize := 64 }

theorem smallStack_below (arg : List (List UInt8)) : Below (smallStack arg).toParameter :=
  ⟨(by decide : (64 : UInt64).toNat ≤ (0x80000000 : UInt64).toNat),
    (by decide : (0x80000000 : UInt64).toNat ≤ 2 ^ 32)⟩

theorem initial_stack_oneArgument :
    (∀ junk s, buildStack ((loneSegment 2 2 [7, 8]).withJunk junk) (smallStack [[97]]).toParameter
      (smallStack [[97]]) = .ok (some s) →
      InitialStack (smallStack [[97]]).toParameter (smallStack [[97]]) s) ↔
    (loneSegment 2 2 [7, 8]).eiData = elfData2LSB ∧
      (smallStack [[97]]).arg.length + (smallStack [[97]]).env.length ≤ 1 := by
  have hbuild : Buildable (smallStack [[97]]).toParameter (smallStack [[97]])
      { argA := 12, envA := 20, argS := 28, envS := 30, isize := 32 } :=
    ⟨rfl, rfl, by decide, by decide⟩
  obtain ⟨s, hs, -⟩ := buildStack_built (loneSegment 2 2 [7, 8]) (smallStack_below _) hbuild
  exact initial_stack_iff (smallStack_below _) ⟨s, hs⟩

def bigEndian : File := opened .big [lonePhdr 2 2] [nullShdr] [7, 8]

-- The arguments a and b; no argument for a big-endian program.
theorem initial_stack_lost :
    (∃ s, buildStack (loneSegment 2 2 [7, 8]) (smallStack [[97], [98]]).toParameter
      (smallStack [[97], [98]]) = .ok (some s) ∧
      ¬ InitialStack (smallStack [[97], [98]]).toParameter (smallStack [[97], [98]]) s) ∧
    ∃ s, buildStack bigEndian (smallStack []).toParameter
      (smallStack []) = .ok (some s) ∧
      ¬ InitialStack (smallStack []).toParameter (smallStack []) s := by
  have htwo : Buildable (smallStack [[97], [98]]).toParameter (smallStack [[97], [98]])
      { argA := 12, envA := 24, argS := 32, envS := 36, isize := 36 } :=
    ⟨rfl, rfl, by decide, by decide⟩
  have hnone : Buildable (smallStack []).toParameter (smallStack [])
      { argA := 12, envA := 16, argS := 24, envS := 24, isize := 24 } :=
    ⟨rfl, rfl, by decide, by decide⟩
  constructor
  · obtain ⟨s, hs, hbuilt⟩ :=
      buildStack_built (loneSegment 2 2 [7, 8]) (smallStack_below _) htwo
    refine ⟨s, hs, fun hinit => ?_⟩
    obtain ⟨argv, envp, hargv, henvp, hreads⟩ := hinit.layout
    obtain ⟨rest, hlen, hjunk, hiff⟩ := hbuilt.stringsStored
    have hstored := hiff.mp (hbuilt.unique rfl hargv henvp hreads)
    have hrest : (terminated [[97], [98]]).length ≤ rest.length :=
      Nat.le_of_eq (Nat.add_right_cancel hlen).symm
    have hmany : 2 ≤ [[(97 : UInt8)], [98]].length := Nat.le_refl 2
    exact stringBytes_many hmany hrest (hjunk 1 fun _ => rfl) hstored
  · obtain ⟨s, hs, hbuilt⟩ :=
      buildStack_built bigEndian (smallStack_below _) hnone
    refine ⟨s, hs, fun hinit => ?_⟩
    obtain ⟨argv, envp, -, -, hreads⟩ := hinit.layout
    exact absurd (hbuilt.order hreads) (by decide)

end Gelpp.Elf
