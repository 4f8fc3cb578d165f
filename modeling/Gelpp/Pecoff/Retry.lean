import Gelpp.Pecoff.Remember

namespace Gelpp.Pecoff

open FileM Effect

inductive Call where
  | buffer (i : Nat)
  | name (i : Nat)
  deriving DecidableEq, Repr

def answer : Call → FileM (List UInt8)
  | .buffer i => buffer i
  | .name i => name i

def File.begin (f : File) (fails : Nat → Bool) : File :=
  { f with stream.fails := fails, stream.count := 0 }

def make (x : Call × (Nat → Bool)) (f : File) : Res (List UInt8) × File :=
  (answer x.1).run (f.begin x.2)

def results : List (Call × (Nat → Bool)) → File → List (Res (List UInt8))
  | [], _ => []
  | x :: xs, f => (make x f).1 :: results xs (make x f).2

def after (xs : List (Call × (Nat → Bool))) (f : File) : File :=
  xs.foldl (fun f x => (make x f).2) f

def never : Nat → Bool := fun _ => false

-- The state in which a call begins: it has what it reads, or finds this out before it keeps it.
def Spared (f : File) (call : Call) : Prop :=
  match call with
  | .name i => ∀ s, f.sects[i]? = some s → f.Looks s →
    f.Unread ∨ f.lookedBody.isSome ∧ f.lookedBody = f.body
  | .buffer i => ∀ s, f.sects[i]? = some s → s.buf = none → s.hd.sizeOfRawData ≠ 0 →
    if f.Fails 0 then f.Looks s → f.stuck.Unread
    else ¬ f.Fails 1 ∧ f.RawOk s.hd

def AllSpared : List (Call × (Nat → Bool)) → File → Prop
  | [], _ => True
  | x :: xs, f => Spared (f.begin x.2) x.1 ∧ AllSpared xs (make x f).2

def File.bufs (f : File) : List (Option (List UInt8)) := f.sects.map Section.buf

def caches (f : File) : List (Option (List UInt8)) × Option (List UInt8) := (f.bufs, f.stringTable)

def Forgotten (xs : List (Call × (Nat → Bool))) (f : File) : Prop :=
  (∀ (k : Nat) (v : List UInt8), (results xs f)[k]? = some (.ok v) →
    (results (xs.map fun x => (x.1, never)) f)[k]? = some (.ok v)) ∧
  ∀ pre x post m, xs = pre ++ x :: post → (make x (after pre f)).1 = .error (.exception m) →
    caches (make x (after pre f)).2 = caches (after pre f)

structure Holds (b : File) (P : Section → Prop) (Q : Option (List UInt8) → Prop) (f : File) : Prop where
  unchanged : Unchanged b f
  sects : ∀ s ∈ f.sects, P s
  table : Q f.stringTable

structure Exact (b : File) (s : Section) : Prop where
  name : s.name ≠ [] → b.text s.hd = some s.name
  buf : ∀ c, s.buf = some c → b.RawOk s.hd ∧ c = b.kept s.hd

structure Sound (b : File) (s : Section) : Prop where
  name : ∀ text, b.text s.hd = some text → s.name = [] ∨ s.name = text
  buf : b.RawOk s.hd → s.buf = none ∨ s.buf = some (b.kept s.hd)

abbrev File.Clean (b : File) : File → Prop :=
  Holds b (Exact b) fun table => ∀ t, table = some t → b.body = some t

abbrev File.Whole (b : File) : File → Prop :=
  Holds b (Sound b) fun table => ∀ body, b.body = some body → table = none ∨ table = some body

def Fewer (l l' : List (Option (List UInt8))) : Prop :=
  ∀ (j : Nat) (c : List UInt8), l[j]? = some (some c) → ∃ c', l'[j]? = some (some c')

structure Agrees (b f g : File) : Prop where
  clean : b.Clean f
  whole : b.Whole g
  fewer : Fewer f.bufs g.bufs

structure Matched (b f : File) (x y : Res (List UInt8) × File) : Prop where
  value : ∀ v, x.1 = .ok v → y.1 = .ok v
  agrees : Agrees b x.2 y.2
  thrown : ∀ m, x.1 = .error (.exception m) → caches x.2 = caches f

section
variable {b f g : File} {i : Nat} {s t : Section} {P : Section → Prop}
  {Q : Option (List UInt8) → Prop}

theorem map_set_same {α β : Type} (h : α → β) {l : List α} {a a' : α} (hl : l[i]? = some a)
    (ha : h a' = h a) : (l.set i a').map h = l.map h := by
  obtain ⟨hi, hget⟩ := List.getElem?_eq_some_iff.mp hl
  rw [List.map_set, ha, ← hget, ← List.map_set, List.set_getElem_self]

theorem Holds.store (h : Holds b P Q f) (hs : f.sects[i]? = some s) (hhd : t.hd = s.hd) (ht : P t) :
    Holds b P Q (f.store i t) := by
  constructor
  · constructor
    · exact h.unchanged.headers
    · exact h.unchanged.junk
    · exact h.unchanged.scan
    · exact h.unchanged.bytes
    · exact (map_set_same Section.hd hs hhd).trans h.unchanged.sects
  · intro s' hs'
    rcases List.mem_or_eq_of_mem_set hs' with hmem | rfl
    · exact h.sects s' hmem
    · exact ht
  · exact h.table

theorem Holds.tabled (h : Holds b P Q f) {u : Stream} (hbytes : u.bytes = f.stream.bytes)
    (size : UInt32) {table : Option (List UInt8)} (htable : Q table) :
    Holds b P Q (f.tabled u size table) := by
  constructor
  · exact { h.unchanged with bytes := hbytes.trans h.unchanged.bytes }
  · exact h.sects
  · exact htable

theorem Holds.begin (h : Holds b P Q f) (fails : Nat → Bool) : Holds b P Q (f.begin fails) := by
  exact ⟨{ h.unchanged with }, h.sects, h.table⟩

theorem Unchanged.same (hf : Unchanged b f) (hg : Unchanged b g) (hs : f.sects[i]? = some s) :
    ∃ t, g.sects[i]? = some t ∧ t.hd = s.hd := by
  have hhd : (g.sects.map Section.hd)[i]? = some s.hd := by
    rw [hg.sects, ← hf.sects, List.getElem?_map, hs]
    rfl
  rw [List.getElem?_map] at hhd
  exact Option.map_eq_some_iff.mp hhd

theorem Holds.named (h : Holds b P Q f) (hs : f.sects[i]? = some s) {x : File} {kept : List UInt8}
    {table : Option (List UInt8)}
    (hx : ∃ u size, x = (f.store i { s with name := kept }).tabled u size table ∧
      u.bytes = f.stream.bytes)
    (hkept : P { s with name := kept }) (htable : Q table) :
    Holds b P Q x ∧ x.bufs = f.bufs ∧ x.stringTable = table := by
  obtain ⟨u, size, rfl, hbytes⟩ := hx
  refine ⟨(h.store (t := { s with name := kept }) hs rfl hkept).tabled hbytes size htable, ?_, rfl⟩
  exact map_set_same Section.buf hs rfl

theorem Holds.buffered (h : Holds b P Q f) (hs : f.sects[i]? = some s) {u : Stream}
    (hbytes : u.bytes = f.stream.bytes) {buf : Option (List UInt8)} (hbuf : P { s with buf }) :
    Holds b P Q (f.buffered i s buf u) :=
  (h.store (t := { s with buf }) hs rfl hbuf).tabled hbytes f.stringTableSize h.table

theorem bufs_buffered (f : File) (i : Nat) (s : Section) (buf : Option (List UInt8)) (u : Stream) :
    (f.buffered i s buf u).bufs = f.bufs.set i buf := List.map_set

theorem mem_sects (hs : f.sects[i]? = some s) : s ∈ f.sects := List.mem_of_getElem? hs

theorem fewer_fill {l l' : List (Option (List UInt8))} (h : Fewer l l') (i : Nat) (c : List UInt8) :
    Fewer l (l'.set i (some c)) := by
  intro j d hj
  obtain ⟨d', hd'⟩ := h j d hj
  rw [List.getElem?_set]
  by_cases hij : i = j
  · subst hij
    obtain ⟨hlt, -⟩ := List.getElem?_eq_some_iff.mp hd'
    rw [if_pos rfl, if_pos hlt]
    exact ⟨c, rfl⟩
  · rw [if_neg hij]
    exact ⟨d', hd'⟩

theorem fewer_both {l l' : List (Option (List UInt8))} (h : Fewer l l') (hi : i < l'.length)
    (c c' : List UInt8) : Fewer (l.set i (some c)) (l'.set i (some c')) := by
  intro j d hj
  by_cases hij : i = j
  · subst hij
    rw [List.getElem?_set, if_pos rfl, if_pos hi]
    exact ⟨c', rfl⟩
  · rw [List.getElem?_set, if_neg hij] at hj ⊢
    exact h j d hj

theorem rawOk_zero {hd : SectionHeader} (h : hd.sizeOfRawData = 0) : b.RawOk hd := by
  rw [File.RawOk, File.raw, h]
  exact ⟨by decide, .inr rfl⟩

theorem buffer_filled (ht : g.sects[i]? = some t) (h : b.Whole g) (hc : g.stream.Calm) :
    ∃ c, ((buffer i).run g).2.bufs = g.bufs.set i (some c) ∧ b.Whole ((buffer i).run g).2 ∧
      (b.RawOk t.hd → (t.buf.isSome → ((buffer i).run g).1 = .ok (b.kept t.hd)) ∧
        ∀ v, b.outcome t.hd = .ok v → ((buffer i).run g).1 = .ok v) := by
  have hsound := h.sects t (mem_sects ht)
  cases hbuf : t.buf with
  | some c =>
    rw [buffer_again ht hbuf]
    refine ⟨c, ?_, h, fun hraw => ?_⟩
    · obtain ⟨hi, hget⟩ := List.getElem?_eq_some_iff.mp ht
      rw [File.bufs, ← hbuf, ← hget, ← List.map_set, List.set_getElem_self]
    · have hkept := hsound.buf hraw
      rw [hbuf] at hkept
      cases hkept.resolve_left nofun
      exact ⟨fun _ => rfl, fun v hv => congrArg Except.ok (outcome_ok hv).symm⟩
  | none =>
    by_cases hraw : b.RawOk t.hd
    · obtain ⟨u, hrun, hbytes⟩ := buffer_read ht hbuf ((h.unchanged.rawOk t.hd).mpr hraw)
        fun _ => ⟨calm_served hc 0, calm_served hc 1⟩
      rw [h.unchanged.outcome, h.unchanged.kept] at hrun
      rw [hrun]
      refine ⟨_, bufs_buffered .., h.buffered ht hbytes ⟨hsound.name, fun _ => .inr rfl⟩, fun _ => ?_⟩
      exact ⟨nofun, fun v hv => hv⟩
    · obtain ⟨r, buf, u, hrun, hbytes⟩ := buffer_frame ht hbuf (fun hz => hraw (rawOk_zero hz))
        (calm_served hc 0)
      rw [hrun]
      refine ⟨buf, bufs_buffered .., h.buffered ht hbytes ⟨hsound.name, ?_⟩, ?_⟩
      · exact fun h => absurd h hraw
      · exact fun h => absurd h hraw

theorem answer_missing (hs : f.sects[i]? = none) :
    (name i).run f = (.error (.fault .index), f) ∧ (buffer i).run f = (.error (.fault .index), f) := by
  have hat : (at_ f.sects i).run f = (.error (.fault .index), f) := by
    rw [at_, hs]
    rfl
  rw [name, buffer, get_bind, get_bind]
  exact ⟨bind_of_error hat, bind_of_error hat⟩

theorem Unchanged.missing (hf : Unchanged b f) (hg : Unchanged b g) (hs : f.sects[i]? = none) :
    g.sects[i]? = none := by
  cases ht : g.sects[i]? with
  | none => rfl
  | some t =>
    obtain ⟨s, hs', -⟩ := hg.same hf ht
    rw [hs] at hs'
    cases hs'

theorem matched_missing {e : Stop} (h : Agrees b f g) : Matched b f (.error e, f) (.error e, g) :=
  ⟨nofun, h, fun _ _ => rfl⟩

theorem name_matched (h : Agrees b f g) (hc : g.stream.Calm) (hspared : Spared f (.name i)) :
    Matched b f ((name i).run f) ((name i).run g) := by
  cases hs : f.sects[i]? with
  | none =>
    rw [(answer_missing hs).1, (answer_missing (h.clean.unchanged.missing h.whole.unchanged hs)).1]
    exact matched_missing h
  | some s =>
    obtain ⟨t, ht, hhd⟩ := h.clean.unchanged.same h.whole.unchanged hs
    have hexact := h.clean.sects s (mem_sects hs)
    have hsound := h.whole.sects t (mem_sects ht)
    obtain ⟨kept, table, hn⟩ := name_named hs h.clean.unchanged h.clean.table hexact.name
      (hspared s hs)
    obtain ⟨kept', table', ha⟩ := name_answered ht h.whole.unchanged hc h.whole.table hsound.name
    obtain ⟨hclean, hbufs, htable⟩ := h.clean.named hs hn.state ⟨hn.own, hexact.buf⟩ hn.known
    obtain ⟨hwhole, hbufs', -⟩ := h.whole.named ht ha.state ⟨ha.own, hsound.buf⟩ ha.known
    constructor
    · intro v hv
      obtain ⟨text, htext, rfl⟩ := hn.value v hv
      exact ha.value text (hhd ▸ htext)
    · exact ⟨hclean, hwhole, by rw [hbufs, hbufs']; exact h.fewer⟩
    · intro m hm
      exact Prod.ext hbufs (htable.trans (hn.thrown m hm))

theorem buffer_partner (h : Agrees b f g) (hc : g.stream.Calm) (hs : f.sects[i]? = some s) :
    ∃ c, ((buffer i).run g).2.bufs = g.bufs.set i (some c) ∧ i < g.bufs.length ∧
      b.Whole ((buffer i).run g).2 ∧
      (b.RawOk s.hd → (s.buf.isSome → ((buffer i).run g).1 = .ok (b.kept s.hd)) ∧
        ∀ v, b.outcome s.hd = .ok v → ((buffer i).run g).1 = .ok v) := by
  obtain ⟨t, ht, hhd⟩ := h.clean.unchanged.same h.whole.unchanged hs
  obtain ⟨c, hbufs, hwhole, hvalue⟩ := buffer_filled ht h.whole hc
  rw [hhd] at hvalue
  refine ⟨c, hbufs, ?_, hwhole, fun hraw => ⟨fun hsome => ?_, (hvalue hraw).2⟩⟩
  · obtain ⟨hi, -⟩ := List.getElem?_eq_some_iff.mp ht
    rwa [File.bufs, List.length_map]
  · obtain ⟨d, hbuf⟩ := Option.isSome_iff_exists.mp hsome
    have hf : f.bufs[i]? = some (some d) := by
      rw [File.bufs, List.getElem?_map, hs, Option.map_some, hbuf]
    obtain ⟨d', hg⟩ := h.fewer i d hf
    rw [File.bufs, List.getElem?_map, ht, Option.map_some, Option.some_inj] at hg
    exact (hvalue hraw).1 (Option.isSome_iff_exists.mpr ⟨d', hg⟩)

theorem buffer_again_matched (h : Agrees b f g) (hc : g.stream.Calm) (hs : f.sects[i]? = some s)
    {c : List UInt8} (hbuf : s.buf = some c) :
    Matched b f ((buffer i).run f) ((buffer i).run g) := by
  obtain ⟨hraw, rfl⟩ := (h.clean.sects s (mem_sects hs)).buf c hbuf
  obtain ⟨c, hbufs, -, hwhole, hvalue⟩ := buffer_partner h hc hs
  rw [buffer_again hs hbuf]
  constructor
  · rintro v ⟨⟩
    exact (hvalue hraw).1 (Option.isSome_iff_exists.mpr ⟨_, hbuf⟩)
  · exact ⟨h.clean, hwhole, hbufs ▸ fewer_fill h.fewer i c⟩
  · exact fun _ _ => rfl

theorem buffer_unmoved_matched (h : Agrees b f g) (hc : g.stream.Calm) (hs : f.sects[i]? = some s)
    (hbuf : s.buf = none) (hzero : s.hd.sizeOfRawData ≠ 0) (h0 : f.Fails 0)
    (hspared : f.Looks s → f.stuck.Unread) :
    Matched b f ((buffer i).run f) ((buffer i).run g) := by
  have hexact := h.clean.sects s (mem_sects hs)
  obtain ⟨c, hbufs, -, hwhole, -⟩ := buffer_partner h hc hs
  obtain ⟨e, hrun⟩ := buffer_unmoved hs hbuf hzero h0
  have hmoved : b.Clean f.stuck :=
    h.clean.tabled (u := f.stream.moved f.stream.pos 1) rfl f.stringTableSize h.clean.table
  obtain ⟨kept, table, hn⟩ := name_named (f := f.stuck) hs hmoved.unchanged hmoved.table hexact.name
    fun hlooks => .inl (hspared hlooks)
  obtain ⟨hclean, hsame, htable⟩ := hmoved.named hs hn.state ⟨hn.own, hexact.buf⟩ hn.known
  have hfewer : Fewer ((name i).run f.stuck).2.bufs g.bufs := by
    rw [hsame]
    exact h.fewer
  rw [hrun]
  constructor
  · nofun
  · exact ⟨hclean, hwhole, hbufs ▸ fewer_fill hfewer i c⟩
  · exact fun _ _ => Prod.ext hsame (htable.trans (hn.unread hspared))

theorem buffer_read_matched (h : Agrees b f g) (hc : g.stream.Calm) (hs : f.sects[i]? = some s)
    (hbuf : s.buf = none) (hraw : f.RawOk s.hd)
    (hserved : s.hd.sizeOfRawData ≠ 0 → ¬ f.Fails 0 ∧ ¬ f.Fails 1) :
    Matched b f ((buffer i).run f) ((buffer i).run g) := by
  have hexact := h.clean.sects s (mem_sects hs)
  have hown := (h.clean.unchanged.rawOk s.hd).mp hraw
  obtain ⟨c, hbufs, hi, hwhole, hvalue⟩ := buffer_partner h hc hs
  obtain ⟨u, hrun, hbytes⟩ := buffer_read hs hbuf hraw hserved
  rw [h.clean.unchanged.outcome, h.clean.unchanged.kept] at hrun
  rw [hrun]
  constructor
  · exact (hvalue hown).2
  · refine ⟨h.clean.buffered hs hbytes ⟨hexact.name, ?_⟩, hwhole, ?_⟩
    · rintro _ ⟨⟩
      exact ⟨hown, rfl⟩
    · rw [bufs_buffered, hbufs]
      exact fewer_both h.fewer hi _ c
  · exact fun m hm => absurd hm (outcome_unthrown b s.hd m)

theorem buffer_matched (h : Agrees b f g) (hc : g.stream.Calm) (hspared : Spared f (.buffer i)) :
    Matched b f ((buffer i).run f) ((buffer i).run g) := by
  cases hs : f.sects[i]? with
  | none =>
    rw [(answer_missing hs).2, (answer_missing (h.clean.unchanged.missing h.whole.unchanged hs)).2]
    exact matched_missing h
  | some s =>
    cases hbuf : s.buf with
    | some c => exact buffer_again_matched h hc hs hbuf
    | none =>
      by_cases hzero : s.hd.sizeOfRawData = 0
      · exact buffer_read_matched h hc hs hbuf (rawOk_zero hzero) fun hz => absurd hzero hz
      · have hstep := hspared s hs hbuf hzero
        by_cases h0 : f.Fails 0
        · rw [if_pos h0] at hstep
          exact buffer_unmoved_matched h hc hs hbuf hzero h0 hstep
        · rw [if_neg h0] at hstep
          exact buffer_read_matched h hc hs hbuf hstep.2 fun _ => ⟨h0, hstep.1⟩

theorem make_matched (h : Agrees b f g) (x : Call × (Nat → Bool))
    (hspared : Spared (f.begin x.2) x.1) : Matched b f (make x f) (make (x.1, never) g) := by
  have hbegin : Agrees b (f.begin x.2) (g.begin never) :=
    ⟨h.clean.begin x.2, h.whole.begin never, h.fewer⟩
  obtain ⟨call, fails⟩ := x
  cases call with
  | name i =>
    obtain ⟨hvalue, hagrees, hthrown⟩ := name_matched hbegin rfl hspared
    exact ⟨hvalue, hagrees, hthrown⟩
  | buffer i =>
    obtain ⟨hvalue, hagrees, hthrown⟩ := buffer_matched hbegin rfl hspared
    exact ⟨hvalue, hagrees, hthrown⟩

theorem results_agree {xs : List (Call × (Nat → Bool))} (h : Agrees b f g) (hs : AllSpared xs f)
    {k : Nat} {v : List UInt8} (hv : (results xs f)[k]? = some (.ok v)) :
    (results (xs.map fun x => (x.1, never)) g)[k]? = some (.ok v) := by
  induction xs generalizing f g k with
  | nil => exact hv
  | cons x xs ih =>
    have hx := make_matched h x hs.1
    cases k with
    | zero =>
      rw [results, List.getElem?_cons_zero, Option.some_inj] at hv
      rw [List.map_cons, results, List.getElem?_cons_zero, hx.value v hv]
    | succ k =>
      rw [results, List.getElem?_cons_succ] at hv
      exact ih hx.agrees hs.2 hv

theorem thrown_caches {xs pre post : List (Call × (Nat → Bool))} {x : Call × (Nat → Bool)}
    (h : Agrees b f g) (hs : AllSpared xs f) (hxs : xs = pre ++ x :: post) {m : String}
    (hm : (make x (after pre f)).1 = .error (.exception m)) :
    caches (make x (after pre f)).2 = caches (after pre f) := by
  induction pre generalizing f g xs with
  | nil =>
    subst hxs
    exact (make_matched h x hs.1).thrown m hm
  | cons y pre ih =>
    subst hxs
    exact ih (make_matched h y hs.1).agrees hs.2 rfl hm

variable {junk : Nat → UInt8} {scan : List UInt8 → Res UInt32} {stream : Stream}

theorem construct_fresh (hf : File.construct junk scan stream = .ok f) :
    f.stringTable = none ∧ ∀ s ∈ f.sects, s.name = [] ∧ s.buf = none := by
  rw [File.construct] at hf
  split at hf
  · cases hf
    refine ⟨rfl, fun s hs => ?_⟩
    obtain ⟨hd, -, rfl⟩ := List.mem_map.mp hs
    exact ⟨rfl, rfl⟩
  · cases hf

theorem construct_agrees (hf : File.construct junk scan stream = .ok f) : Agrees f f f := by
  obtain ⟨htable, hsects⟩ := construct_fresh hf
  constructor
  · refine ⟨⟨rfl, rfl, rfl, rfl, rfl⟩, fun s hs => ?_, ?_⟩
    · obtain ⟨hname, hbuf⟩ := hsects s hs
      exact ⟨fun h => absurd hname h, by rw [hbuf]; nofun⟩
    · rw [htable]
      nofun
  · refine ⟨⟨rfl, rfl, rfl, rfl, rfl⟩, fun s hs => ?_, fun _ _ => .inl htable⟩
    obtain ⟨hname, hbuf⟩ := hsects s hs
    exact ⟨fun _ _ => .inl hname, fun _ => .inl hbuf⟩
  · exact fun j c hj => ⟨c, hj⟩

theorem forgotten_of_spared {xs : List (Call × (Nat → Bool))}
    (hf : File.construct junk scan stream = .ok f) (hs : AllSpared xs f) : Forgotten xs f := by
  have h := construct_agrees hf
  constructor
  · exact fun k v hv => results_agree h hs hv
  · exact fun pre x post m hxs hm => thrown_caches h hs hxs hm

def failsOnce (call : Call) (k : Nat) : List (Call × (Nat → Bool)) :=
  [(call, fun j => j == k), (call, never)]

theorem forgotten_once : ∃ f,
    File.construct (fun _ => 1) (fun _ => .ok 0) (imageStream [] 2 2 (.replicate 8 7)) = .ok f ∧
      AllSpared (failsOnce (.buffer 0) 0) f ∧ Forgotten (failsOnce (.buffer 0) 0) f := by
  obtain ⟨f, hrun, hc, hbytes, hs⟩ := image_file 2 2 (.replicate 8 7)
  have hraw : ∀ g : File, g.stream.bytes = f.stream.bytes → g.RawOk (imageHeader 2 2) := by
    intro g hg
    rw [File.RawOk, File.raw, hg, hbytes]
    decide +kernel
  have h0 : Spared (f.begin fun j => j == 0) (.buffer 0) := by
    intro s hs' hbuf hzero
    cases hs.symm.trans hs'
    rw [if_pos (by rfl)]
    rintro ⟨-, hslash, -⟩
    exact absurd hslash (by decide +kernel)
  have hmade := make_matched (construct_agrees hrun) (.buffer 0, fun j => j == 0) h0
  have hspared : AllSpared (failsOnce (.buffer 0) 0) f := by
    refine ⟨h0, ?_, trivial⟩
    intro s hs' hbuf hzero
    have hunchanged := hmade.agrees.clean.unchanged
    obtain ⟨t, ht, hhd⟩ := hunchanged.same ⟨rfl, rfl, rfl, rfl, rfl⟩ hs'
    cases hs.symm.trans ht
    have hcalm (k : Nat) (g : File) : ¬ (g.begin never).Fails k := calm_served (f := g.begin never) rfl k
    rw [if_neg (hcalm 0 _), ← hhd]
    exact ⟨hcalm 1 _, hraw _ hunchanged.bytes⟩
  exact ⟨f, hrun, hspared, forgotten_of_spared hrun hspared⟩

theorem not_forgotten {xs : List (Call × (Nat → Bool))} {f : File} {k : Nat} {v w : List UInt8}
    (hv : (results xs f)[k]? = some (.ok v))
    (hw : (results (xs.map fun x => (x.1, never)) f)[k]? = some (.ok w)) (hne : v ≠ w) :
    ¬ Forgotten xs f := by
  intro h
  have heq := (h.1 k v hv).symm.trans hw
  cases heq
  exact hne rfl

def Answers (r : Res File) (xs : List (Call × (Nat → Bool))) (v w : List UInt8) : Prop :=
  ∃ f, r = .ok f ∧ (results xs f)[1]? = some (.ok v) ∧
    (results (xs.map fun x => (x.1, never)) f)[1]? = some (.ok w)

instance (r : Res File) (xs : List (Call × (Nat → Bool))) (v w : List UInt8) :
    Decidable (Answers r xs v w) :=
  match r with
  | .error _ => isFalse fun ⟨_, hf, _⟩ => nomatch hf
  | .ok f => decidable_of_iff ((results xs f)[1]? = some (.ok v) ∧
      (results (xs.map fun x => (x.1, never)) f)[1]? = some (.ok w))
      ⟨fun h => ⟨f, rfl, h⟩, fun ⟨_, hf, h⟩ => Except.ok.inj hf ▸ h⟩

-- The memory is kept as it was allocated.
theorem failures_kept :
    (∃ f, File.construct (fun _ => 1) (fun _ => .ok 0) (imageStream [] 2 2 (.replicate 8 7)) = .ok f ∧
      ¬ Forgotten (failsOnce (.buffer 0) 1) f) ∧
    ∃ f, File.construct (fun k => if k = 0 then 98 else 0) scanDecimal
        ((namedImage [47, 52, 0, 0, 0, 0, 0, 0] rfl).stream false [6, 0, 0, 0, 97, 0]) = .ok f ∧
      ¬ Forgotten (failsOnce (.name 0) 2) f := by
  constructor
  · have h : Answers (File.construct (fun _ => 1) (fun _ => .ok 0) (imageStream [] 2 2 (.replicate 8 7)))
        (failsOnce (.buffer 0) 1) [1, 1] [7, 7] := by decide +kernel
    obtain ⟨f, hf, hv, hw⟩ := h
    exact ⟨f, hf, not_forgotten hv hw (by decide)⟩
  · have h : Answers (File.construct (fun k => if k = 0 then 98 else 0) scanDecimal
        ((namedImage [47, 52, 0, 0, 0, 0, 0, 0] rfl).stream false [6, 0, 0, 0, 97, 0]))
        (failsOnce (.name 0) 2) [98] [97] := by decide +kernel
    obtain ⟨f, hf, hv, hw⟩ := h
    exact ⟨f, hf, not_forgotten hv hw (by decide)⟩

end

end Gelpp.Pecoff
