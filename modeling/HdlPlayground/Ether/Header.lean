import Mathlib.Data.List.Infix
import HdlPlayground.Ether.Rtl

/-!
# Frames and their headers

What is sent: filler, preamble, start delimiter, the body and its checksum. The extractor
finds the delimiter and shifts the header into its registers, whatever frames of before
have left in them.
-/
namespace HdlPlayground.Ether

open Lib

/-- `crc32_of` of the testbench. -/
def crc32Of (bytes : List (BitVec 8)) : BitVec 32 := ~~~bytes.foldl crc32Next CRC32_INIT

def macBytes (x : BitVec 48) : List (BitVec 8) :=
  [x.extractLsb' 40 8, x.extractLsb' 32 8, x.extractLsb' 24 8, x.extractLsb' 16 8,
    x.extractLsb' 8 8, x.extractLsb' 0 8]

def wordBytes (x : BitVec 16) : List (BitVec 8) := [x.extractLsb' 8 8, x.extractLsb' 0 8]

/-- The checksum goes out lowest byte first. -/
def fcsBytes (x : BitVec 32) : List (BitVec 8) :=
  [x.extractLsb' 0 8, x.extractLsb' 8 8, x.extractLsb' 16 8, x.extractLsb' 24 8]

structure Frame where
  filler : List (BitVec 8)
  preamble : Nat
  dstMac : BitVec 48
  srcMac : BitVec 48
  tag : Option (BitVec 16)
  type : BitVec 16
  rest : List (BitVec 8)

namespace Frame

variable (f : Frame)

def tagBytes : List (BitVec 8) :=
  match f.tag with
  | none => []
  | some tci => [0x81, 0x00] ++ wordBytes tci

def head : List (BitVec 8) :=
  macBytes f.dstMac ++ (macBytes f.srcMac ++ (f.tagBytes ++ wordBytes f.type))

/-- What follows the header: the rest of the body and the checksum. -/
def tail : List (BitVec 8) := f.rest ++ fcsBytes (crc32Of (f.head ++ f.rest))

def wire : List (BitVec 8) :=
  f.filler ++ (.replicate f.preamble PREAMBLE_BYTE ++ (SFD_BYTE :: (f.head ++ f.tail)))

/-- The bytes after the type field, cut to the length field when it is one. -/
def cut (bytes : List (BitVec 8)) : List (BitVec 8) :=
  if f.type ≤ MAX_LEN_FIELD then bytes.take f.type.toNat else bytes

/-- A frame on its own: no preamble in the filler, not too long, and no part of it that
passes for the whole. -/
structure Proper : Prop where
  filler : PREAMBLE_BYTE ∉ f.filler
  preamble : 4 ≤ f.preamble
  type : f.tag = none → f.type ≠ VLAN_TPID
  size : f.head.length + f.tail.length ≤ 1522
  whole : ∀ q, q <+: f.tail → q ≠ [] → q ≠ f.tail →
    (f.head ++ q).foldl crc32Next CRC32_INIT ≠ CRC32_RESIDUE

end Frame

/-! ## Bytes into the extractor -/

/-- A cycle with a byte. -/
def Bench.feed (b : Bench) (d : BitVec 8) : Bench := b.posedge {} (.ofByte d)

def Bench.feeds (b : Bench) (ds : List (BitVec 8)) : Bench := ds.foldl Bench.feed b

namespace Bench

variable {b : Bench} {s : Regs}

theorem feeds_eq_run (ds : List (BitVec 8)) : b.feeds ds = b.run {} (ds.map Inputs.ofByte) := by
  rw [run, List.foldl_map]
  rfl

theorem feeds_cons (d : BitVec 8) (ds : List (BitVec 8)) :
    b.feeds (d :: ds) = (b.feed d).feeds ds := rfl

theorem feeds_append (ds es : List (BitVec 8)) : b.feeds (ds ++ es) = (b.feeds ds).feeds es :=
  List.foldl_append

theorem byte_out (hs : s.state ≠ .payload) (d : BitVec 8) (p : Params) :
    (s.byte d p).out = s.out := by
  unfold Regs.byte
  split
  · unfold Regs.hunt
    split
    · rfl
    · split
      · split <;> rfl
      · rfl
  · unfold Regs.dstByte Regs.header
    split <;> rfl
  · unfold Regs.srcByte Regs.header
    split <;> rfl
  · unfold Regs.typeByte
    dsimp only
    split
    · split <;> rfl
    · rfl
  · unfold Regs.vlanByte Regs.header
    split <;> rfl
  · next h => exact absurd h hs

/-- Before the payload the monitor sees nothing. -/
theorem feed_quiet (hs : b.regs.state ≠ .payload) (d : BitVec 8) :
    b.feed d = ⟨b.regs.lower.byte d {}, b.monitor⟩ := by
  have hpos : b.regs.posedge {} (.ofByte d) = b.regs.lower.byte d {} := rfl
  have hout := byte_out (s := b.regs.lower) hs d {}
  rw [feed, posedge, hpos, Monitor.sample, hout]
  rfl

/-! ## Hunting -/

/-- Between frames. -/
structure Hunting (b : Bench) : Prop where
  state : b.regs.state = .hunt
  preCnt : b.regs.preCnt = 0

theorem feed_hunt (hs : b.regs.state = .hunt) (d : BitVec 8) :
    b.feed d = ⟨b.regs.lower.hunt d {}, b.monitor⟩ := by
  rw [feed_quiet (by rw [hs]; decide), Regs.byte, show b.regs.lower.state = .hunt from hs]

theorem Hunting.filler {ds : List (BitVec 8)} (h : Hunting b) (hd : PREAMBLE_BYTE ∉ ds) :
    Hunting (b.feeds ds) ∧ (b.feeds ds).monitor = b.monitor := by
  induction ds generalizing b with
  | nil => exact ⟨h, rfl⟩
  | cons d ds ih =>
    have hne : d ≠ PREAMBLE_BYTE := fun he => hd (he ▸ List.mem_cons_self)
    have hpre : b.regs.lower.preCnt = 0 := h.preCnt
    have hstep : b.feed d = ⟨{ b.regs.lower with preCnt := 0 }, b.monitor⟩ := by
      rw [feed_hunt h.state, Regs.hunt, if_neg (by rw [hpre]; simp), if_neg hne]
    rw [feeds_cons, hstep]
    exact ih ⟨h.state, rfl⟩ fun hm => hd (List.mem_cons_of_mem d hm)

theorem Hunting.preamble (h : Hunting b) (k : Nat) :
    (b.feeds (.replicate k PREAMBLE_BYTE)).regs.state = .hunt ∧
      (b.feeds (.replicate k PREAMBLE_BYTE)).regs.preCnt = BitVec.ofNat 3 (min k 7) ∧
      (b.feeds (.replicate k PREAMBLE_BYTE)).monitor = b.monitor := by
  induction k with
  | zero => exact ⟨h.state, h.preCnt, rfl⟩
  | succ k ih =>
    obtain ⟨hs, hp, hm⟩ := ih
    rw [List.replicate_succ', feeds_append]
    generalize b.feeds (.replicate k PREAMBLE_BYTE) = c at hs hp hm
    have hp' : c.regs.lower.preCnt = BitVec.ofNat 3 (min k 7) := hp
    have hstep : c.feeds [PREAMBLE_BYTE] = ⟨c.regs.lower.hunt PREAMBLE_BYTE {}, c.monitor⟩ :=
      feed_hunt hs PREAMBLE_BYTE
    rw [hstep, Regs.hunt, if_neg (fun hc => absurd hc.1 (by decide)), if_pos rfl]
    by_cases hk : k < 7
    · rw [hp', if_pos]
      · refine ⟨hs, ?_, hm⟩
        show BitVec.ofNat 3 (min k 7) + 1 = _
        rw [Nat.min_eq_left (by omega), Nat.min_eq_left (by omega)]
        exact (BitVec.ofNat_add k 1).symm
      · rw [Nat.min_eq_left (by omega)]
        intro heq
        have : (BitVec.ofNat 3 k).toNat = 7 := congrArg BitVec.toNat heq
        rw [BitVec.toNat_ofNat] at this
        omega
    · have hmin : min k 7 = 7 := by omega
      rw [hp', hmin, if_neg (by decide)]
      refine ⟨hs, ?_, hm⟩
      show c.regs.lower.preCnt = _
      rw [hp', hmin, show min (k + 1) 7 = 7 by omega]

/-- What the delimiter sets up, and what is left of the past. -/
def opened (s : Regs) : Regs :=
  { s with
    state := .dst, hdrCnt := 0, frameBytes := 0, plCnt := 0, dlyCnt := 0, crc := CRC32_INIT
    vlanSeen := false, lenMode := false, preCnt := 0 }

theorem Hunting.delimiter (h : Hunting b) {ds : List (BitVec 8)} (hd : PREAMBLE_BYTE ∉ ds) {k : Nat}
    (hk : 4 ≤ k) :
    ∃ s, s.lower = s ∧
      b.feeds (ds ++ (.replicate k PREAMBLE_BYTE ++ [SFD_BYTE])) = ⟨opened s, b.monitor⟩ := by
  obtain ⟨hf, hm⟩ := h.filler hd
  obtain ⟨hs, hp, hm'⟩ := hf.preamble k
  rw [feeds_append, feeds_append]
  generalize (b.feeds ds).feeds (.replicate k PREAMBLE_BYTE) = c at hs hp hm'
  have hle : (4 : BitVec 3) ≤ c.regs.lower.preCnt := by
    rw [show c.regs.lower.preCnt = _ from hp, BitVec.le_def, BitVec.toNat_ofNat]
    show 4 ≤ min k 7 % 8
    omega
  have hstep : c.feeds [SFD_BYTE] = ⟨c.regs.lower.hunt SFD_BYTE {}, c.monitor⟩ :=
    feed_hunt hs SFD_BYTE
  refine ⟨c.regs.lower, rfl, ?_⟩
  rw [hstep, Regs.hunt, if_pos ⟨rfl, hle⟩, hm', hm]
  rfl

/-! ## The header -/

theorem shiftIn_toNat {n : Nat} (sr : BitVec (n + 8)) (d : BitVec 8) :
    (shiftIn sr d).toNat = sr.toNat % 2 ^ n * 256 + d.toNat := by
  rw [shiftIn, BitVec.toNat_append, ← Nat.shiftLeft_add_eq_or_of_lt d.isLt, Nat.shiftLeft_eq,
    BitVec.extractLsb'_toNat, Nat.shiftRight_zero]

/-- Six bytes fill a register with the address they spell. -/
theorem mac_shifted (sr x : BitVec 48) : (macBytes x).foldl shiftIn sr = x := by
  apply BitVec.eq_of_toNat_eq
  have hx := x.isLt
  simp only [macBytes, List.foldl_cons, List.foldl_nil, shiftIn_toNat, BitVec.extractLsb'_toNat,
    Nat.shiftRight_eq_div_pow]
  omega

theorem word_shifted (sr x : BitVec 16) : (wordBytes x).foldl shiftIn sr = x := by
  apply BitVec.eq_of_toNat_eq
  have hx := x.isLt
  simp only [wordBytes, List.foldl_cons, List.foldl_nil, shiftIn_toNat, BitVec.extractLsb'_toNat,
    Nat.shiftRight_eq_div_pow]
  omega

theorem foldl_counter {u : Regs → BitVec 8 → Regs}
    (hu : ∀ s d h t,
      u { s with hdrCnt := h, state := t } d = { u s d with hdrCnt := h, state := t })
    (ds : List (BitVec 8)) (h : BitVec 4) (t : StateE) :
    ds.foldl u { s with hdrCnt := h, state := t } =
      { ds.foldl u s with hdrCnt := h, state := t } := by
  induction ds generalizing s with
  | nil => rfl
  | cons d ds ih =>
    rw [List.foldl_cons, List.foldl_cons, hu]
    exact ih

/-- A field of the header: the counter goes from zero to `n` while `u` does the work. -/
theorem feeds_header (S next : StateE) (n : Nat) (u : Regs → BitVec 8 → Regs)
    (hbyte : ∀ s d, s.state = S → s.byte d {} = (u s d).header (BitVec.ofNat 4 n) next)
    (hu : ∀ s d h t,
      u { s with hdrCnt := h, state := t } d = { u s d with hdrCnt := h, state := t })
    (hl : ∀ s d, s.lower = s → (u s d).lower = u s d) (hS : S ≠ .payload) (hn : n < 15)
    {ds : List (BitVec 8)} {i : Nat} (hlen : i + ds.length = n + 1) (hne : ds ≠ []) {m : Monitor}
    (hs : s.state = S) (hh : s.hdrCnt = BitVec.ofNat 4 i) (hlow : s.lower = s) :
    (⟨s, m⟩ : Bench).feeds ds = ⟨{ ds.foldl u s with hdrCnt := 0, state := next }, m⟩ := by
  induction ds generalizing s i with
  | nil => exact absurd rfl hne
  | cons d ds ih =>
    have hsame : u s d = { u s d with hdrCnt := s.hdrCnt, state := s.state } :=
      hu s d s.hdrCnt s.state
    have hcnt : (u s d).hdrCnt = BitVec.ofNat 4 i := by rw [hsame]; exact hh
    have hstate : (u s d).state = S := by rw [hsame]; exact hs
    have hfeed : (⟨s, m⟩ : Bench).feed d = ⟨(u s d).header (BitVec.ofNat 4 n) next, m⟩ := by
      rw [feed_quiet (by rw [hs]; exact hS), hlow, hbyte s d hs]
    rw [List.length_cons] at hlen
    rw [feeds_cons, hfeed, Regs.header, hcnt]
    cases ds with
    | nil =>
      rw [List.length_nil] at hlen
      rw [show n = i by omega, if_pos rfl]
      rfl
    | cons e ds =>
      have hne' : ¬ BitVec.ofNat 4 i = BitVec.ofNat 4 n := by
        intro heq
        have := congrArg BitVec.toNat heq
        rw [BitVec.toNat_ofNat, BitVec.toNat_ofNat] at this
        rw [List.length_cons] at hlen
        omega
      have hlow' : Regs.lower { u s d with hdrCnt := BitVec.ofNat 4 i + 1 } =
          { u s d with hdrCnt := BitVec.ofNat 4 i + 1 } := by
        show ({ (u s d).lower with hdrCnt := BitVec.ofNat 4 i + 1 } : Regs) = _
        rw [hl s d hlow]
      have hfold := foldl_counter (s := u s d) hu (e :: ds) (BitVec.ofNat 4 i + 1) (u s d).state
      rw [if_neg hne',
        ih (s := { u s d with hdrCnt := BitVec.ofNat 4 i + 1 }) (i := i + 1) (by omega)
        (List.cons_ne_nil _ _) hstate (BitVec.ofNat_add i 1).symm hlow']
      show (⟨{ (e :: ds).foldl u { u s d with hdrCnt := _, state := (u s d).state } with
        hdrCnt := 0, state := next }, m⟩ : Bench) = _
      rw [hfold]
      rfl

/-- What the bytes of a field do to the CRC and the length. -/
def advanced (s : Regs) (ds : List (BitVec 8)) : Regs :=
  { s with
    crc := ds.foldl crc32Next s.crc
    frameBytes := s.frameBytes + BitVec.ofNat 16 ds.length }

theorem advanced_cons (s : Regs) (d : BitVec 8) (ds : List (BitVec 8)) :
    advanced (s.advance d) ds = advanced s (d :: ds) := by
  have hlen : s.frameBytesNxt + BitVec.ofNat 16 ds.length =
      s.frameBytes + BitVec.ofNat 16 (d :: ds).length := by
    rw [List.length_cons, Nat.add_comm, BitVec.ofNat_add, ← BitVec.add_assoc]
    rfl
  show ({ s with crc := _, frameBytes := s.frameBytesNxt + _ } : Regs) = _
  rw [hlen]
  rfl

theorem foldl_dst (s : Regs) (ds : List (BitVec 8)) :
    ds.foldl (fun s d => { s.advance d with dstSr := shiftIn s.dstSr d }) s =
      { advanced s ds with dstSr := ds.foldl shiftIn s.dstSr } := by
  induction ds generalizing s with
  | nil =>
    show s = { s with crc := _, frameBytes := s.frameBytes + 0#16 }
    rw [BitVec.add_zero]
    rfl
  | cons d ds ih =>
    rw [List.foldl_cons, ih, ← advanced_cons]
    rfl

theorem feeds_dst {m : Monitor} (hs : s.state = .dst) (hh : s.hdrCnt = 0) (hlow : s.lower = s)
    (x : BitVec 48) : (⟨s, m⟩ : Bench).feeds (macBytes x) =
      ⟨{ advanced s (macBytes x) with dstSr := x, state := .src, hdrCnt := 0 }, m⟩ := by
  rw [feeds_header .dst .src 5 (fun s d => { s.advance d with dstSr := shiftIn s.dstSr d }) ?_
    (fun _ _ _ _ => rfl) ?_ (by decide) (by decide) (i := 0) rfl
    (show macBytes x ≠ [] from List.cons_ne_nil _ _) hs hh hlow, foldl_dst, mac_shifted]
  · intro s d hs
    rw [Regs.byte, hs]
    rfl
  · intro s d hs
    show ({ s.lower.advance d with dstSr := _ } : Regs) = _
    rw [hs]

theorem foldl_src (s : Regs) (ds : List (BitVec 8)) :
    ds.foldl (fun s d => { s.advance d with srcSr := shiftIn s.srcSr d }) s =
      { advanced s ds with srcSr := ds.foldl shiftIn s.srcSr } := by
  induction ds generalizing s with
  | nil =>
    show s = { s with crc := _, frameBytes := s.frameBytes + 0#16 }
    rw [BitVec.add_zero]
    rfl
  | cons d ds ih =>
    rw [List.foldl_cons, ih, ← advanced_cons]
    rfl

theorem feeds_src {m : Monitor} (hs : s.state = .src) (hh : s.hdrCnt = 0) (hlow : s.lower = s)
    (x : BitVec 48) : (⟨s, m⟩ : Bench).feeds (macBytes x) =
      ⟨{ advanced s (macBytes x) with srcSr := x, state := .type, hdrCnt := 0 }, m⟩ := by
  rw [feeds_header .src .type 5 (fun s d => { s.advance d with srcSr := shiftIn s.srcSr d }) ?_
    (fun _ _ _ _ => rfl) ?_ (by decide) (by decide) (i := 0) rfl
    (show macBytes x ≠ [] from List.cons_ne_nil _ _) hs hh hlow, foldl_src, mac_shifted]
  · intro s d hs
    rw [Regs.byte, hs]
    rfl
  · intro s d hs
    show ({ s.lower.advance d with srcSr := _ } : Regs) = _
    rw [hs]

theorem foldl_vlan (s : Regs) (ds : List (BitVec 8)) :
    ds.foldl (fun s d => { s.advance d with tciSr := shiftIn s.tciSr d }) s =
      { advanced s ds with tciSr := ds.foldl shiftIn s.tciSr } := by
  induction ds generalizing s with
  | nil =>
    show s = { s with crc := _, frameBytes := s.frameBytes + 0#16 }
    rw [BitVec.add_zero]
    rfl
  | cons d ds ih =>
    rw [List.foldl_cons, ih, ← advanced_cons]
    rfl

theorem feeds_vlan {m : Monitor} (hs : s.state = .vlan) (hh : s.hdrCnt = 0) (hlow : s.lower = s)
    (x : BitVec 16) : (⟨s, m⟩ : Bench).feeds (wordBytes x) =
      ⟨{ advanced s (wordBytes x) with tciSr := x, state := .type, hdrCnt := 0 }, m⟩ := by
  rw [feeds_header .vlan .type 1 (fun s d => { s.advance d with tciSr := shiftIn s.tciSr d }) ?_
    (fun _ _ _ _ => rfl) ?_ (by decide) (by decide) (i := 0) rfl
    (show wordBytes x ≠ [] from List.cons_ne_nil _ _) hs hh hlow, foldl_vlan, word_shifted]
  · intro s d hs
    rw [Regs.byte, hs]
    rfl
  · intro s d hs
    show ({ s.lower.advance d with tciSr := _ } : Regs) = _
    rw [hs]

/-- After the first byte of a type field. -/
def halfType (s : Regs) (d : BitVec 8) : Regs :=
  { s.advance d with typeSr := s.typeNxt d, hdrCnt := 1 }

theorem typeByte_last {d : BitVec 8} {x : BitVec 16} (hh : s.hdrCnt = 1) (hx : s.typeNxt d = x) :
    s.typeByte d = if !s.vlanSeen && x = VLAN_TPID then
      { s.advance d with typeSr := x, hdrCnt := 0, vlanSeen := true, state := .vlan }
    else
      { s.advance d with
        typeSr := x, hdrCnt := 0, state := .payload, lenMode := x ≤ MAX_LEN_FIELD,
        lenField := x } := by
  subst hx
  rw [Regs.typeByte, if_pos hh]

/-- The two bytes of a type field: a first tag, or the type the payload follows. -/
theorem feeds_type {m : Monitor} (hs : s.state = .type) (hh : s.hdrCnt = 0) (hlow : s.lower = s)
    (x : BitVec 16) : (⟨s, m⟩ : Bench).feeds (wordBytes x) =
      ⟨if !s.vlanSeen && x = VLAN_TPID then
          { advanced s (wordBytes x) with
            typeSr := x, hdrCnt := 0, vlanSeen := true, state := .vlan }
        else
          { advanced s (wordBytes x) with
            typeSr := x, hdrCnt := 0, state := .payload, lenMode := x ≤ MAX_LEN_FIELD,
            lenField := x },
        m⟩ := by
  have hfeed (t : Regs) (ht : t.state = .type) (hl : t.lower = t) (d : BitVec 8) :
      (⟨t, m⟩ : Bench).feed d = ⟨t.typeByte d, m⟩ := by
    rw [feed_quiet (by rw [ht]; decide), hl, Regs.byte, ht]
  have hfirst : s.typeByte (x.extractLsb' 8 8) = halfType s (x.extractLsb' 8 8) := by
    rw [Regs.typeByte, if_neg (by rw [hh]; decide), hh]
    rfl
  have hlow' : (halfType s (x.extractLsb' 8 8)).lower = halfType s (x.extractLsb' 8 8) := by
    show halfType s.lower _ = _
    rw [hlow]
  have hx : (halfType s (x.extractLsb' 8 8)).typeNxt (x.extractLsb' 0 8) = x :=
    word_shifted s.typeSr x
  have hadv : (halfType s (x.extractLsb' 8 8)).advance (x.extractLsb' 0 8) =
      { advanced s (wordBytes x) with typeSr := s.typeNxt (x.extractLsb' 8 8), hdrCnt := 1 } := by
    rw [wordBytes, ← advanced_cons]
    rfl
  show ((⟨s, m⟩ : Bench).feed _).feed _ = _
  rw [hfeed s hs hlow, hfirst, hfeed (halfType s _) hs hlow', typeByte_last rfl hx, hadv]
  rfl

/-! ## The whole header -/

/-- The registers hold the header of the frame. -/
structure Knows (f : Frame) (s : Regs) : Prop where
  lenMode : s.lenMode = (f.type ≤ MAX_LEN_FIELD : Bool)
  lenField : s.lenField = f.type
  vlanSeen : s.vlanSeen = f.tag.isSome
  dstSr : s.dstSr = f.dstMac
  srcSr : s.srcSr = f.srcMac
  typeSr : s.typeSr = f.type
  tciSr : ∀ tci, f.tag = some tci → s.tciSr = tci

/-- The header of the frame has been read, and nothing more. -/
structure Opens (f : Frame) (s : Regs) : Prop where
  state : s.state = .payload
  crc : s.crc = f.head.foldl crc32Next CRC32_INIT
  frameBytes : s.frameBytes = BitVec.ofNat 16 f.head.length
  plCnt : s.plCnt = 0
  dlyCnt : s.dlyCnt = 0
  knows : Knows f s

/-- The header has been read up to a type field. -/
structure AtType (f : Frame) (q : List (BitVec 8)) (s : Regs) : Prop where
  state : s.state = .type
  hdrCnt : s.hdrCnt = 0
  low : s.lower = s
  crc : s.crc = q.foldl crc32Next CRC32_INIT
  frameBytes : s.frameBytes = BitVec.ofNat 16 q.length
  plCnt : s.plCnt = 0
  dlyCnt : s.dlyCnt = 0
  dstSr : s.dstSr = f.dstMac
  srcSr : s.srcSr = f.srcMac

theorem advanced_crc {q ds : List (BitVec 8)} (h : s.crc = q.foldl crc32Next CRC32_INIT) :
    (advanced s ds).crc = (q ++ ds).foldl crc32Next CRC32_INIT := by
  rw [List.foldl_append, ← h]
  rfl

theorem advanced_frameBytes {q ds : List (BitVec 8)} (h : s.frameBytes = BitVec.ofNat 16 q.length) :
    (advanced s ds).frameBytes = BitVec.ofNat 16 (q ++ ds).length := by
  rw [List.length_append, BitVec.ofNat_add, ← h]
  rfl

theorem advanced_low {ds : List (BitVec 8)} (h : s.lower = s) :
    (advanced s ds).lower = advanced s ds := by
  show advanced s.lower ds = _
  rw [h]

theorem feeds_addresses {f : Frame} {m : Monitor} (hlow : s.lower = s) :
    ∃ t, (⟨opened s, m⟩ : Bench).feeds (macBytes f.dstMac ++ macBytes f.srcMac) = ⟨t, m⟩ ∧
      AtType f (macBytes f.dstMac ++ macBytes f.srcMac) t ∧ t.vlanSeen = false := by
  have hopen : (opened s).lower = opened s := by
    show opened s.lower = _
    rw [hlow]
  have hdst := feeds_dst (m := m) (s := opened s) rfl rfl hopen f.dstMac
  obtain ⟨t, ht⟩ : ∃ t, t = { advanced (opened s) (macBytes f.dstMac) with
    dstSr := f.dstMac, state := StateE.src, hdrCnt := 0 } := ⟨_, rfl⟩
  rw [← ht] at hdst
  have htlow : t.lower = t := by
    rw [ht]
    show ({ (advanced (opened s) _).lower with dstSr := _, state := _, hdrCnt := _ } : Regs) = _
    rw [advanced_low hopen]
  have hsrc := feeds_src (m := m) (s := t) (by rw [ht]) (by rw [ht]) htlow f.srcMac
  refine ⟨_, by rw [feeds_append, hdst, hsrc], ⟨rfl, rfl, ?_, ?_, ?_, ?_, ?_, ?_, rfl⟩, ?_⟩
  · show ({ (advanced t _).lower with srcSr := _, state := _, hdrCnt := _ } : Regs) = _
    rw [advanced_low htlow]
  · apply advanced_crc
    rw [ht]
    rfl
  · apply advanced_frameBytes
    rw [ht]
    rfl
  · show t.plCnt = 0
    rw [ht]
    rfl
  · show t.dlyCnt = 0
    rw [ht]
    rfl
  · show t.dstSr = f.dstMac
    rw [ht]
  · show t.vlanSeen = false
    rw [ht]
    rfl

/-- A tag, which only the first type field can be. -/
theorem feeds_tag {f : Frame} {m : Monitor} {q : List (BitVec 8)} (h : AtType f q s)
    (hv : s.vlanSeen = false) (tci : BitVec 16) :
    ∃ t, (⟨s, m⟩ : Bench).feeds (wordBytes VLAN_TPID ++ wordBytes tci) = ⟨t, m⟩ ∧
      AtType f (q ++ (wordBytes VLAN_TPID ++ wordBytes tci)) t ∧ t.vlanSeen = true ∧
      t.tciSr = tci := by
  have htag := feeds_type (m := m) h.state h.hdrCnt h.low VLAN_TPID
  rw [if_pos (by rw [hv]; decide)] at htag
  obtain ⟨t, ht⟩ : ∃ t, t = { advanced s (wordBytes VLAN_TPID) with
    typeSr := VLAN_TPID, hdrCnt := 0, vlanSeen := true, state := StateE.vlan } := ⟨_, rfl⟩
  rw [← ht] at htag
  have htlow : t.lower = t := by
    rw [ht]
    show ({ (advanced s _).lower with
      typeSr := _, hdrCnt := _, vlanSeen := _, state := _ } : Regs) = _
    rw [advanced_low h.low]
  have hvlan := feeds_vlan (m := m) (s := t) (by rw [ht]) (by rw [ht]) htlow tci
  refine ⟨_, by rw [feeds_append, htag, hvlan], ⟨rfl, rfl, ?_, ?_, ?_, ?_, ?_, ?_, ?_⟩, ?_, rfl⟩
  · show ({ (advanced t _).lower with tciSr := _, state := _, hdrCnt := _ } : Regs) = _
    rw [advanced_low htlow]
  · rw [← List.append_assoc]
    apply advanced_crc
    rw [ht]
    exact advanced_crc h.crc
  · rw [← List.append_assoc]
    apply advanced_frameBytes
    rw [ht]
    exact advanced_frameBytes h.frameBytes
  · show t.plCnt = 0
    rw [ht]
    exact h.plCnt
  · show t.dlyCnt = 0
    rw [ht]
    exact h.dlyCnt
  · show t.dstSr = f.dstMac
    rw [ht]
    exact h.dstSr
  · show t.srcSr = f.srcMac
    rw [ht]
    exact h.srcSr
  · show t.vlanSeen = true
    rw [ht]

theorem feeds_last_type {f : Frame} {m : Monitor} {q : List (BitVec 8)} (h : AtType f q s)
    (hq : f.head = q ++ wordBytes f.type) (hv : s.vlanSeen = f.tag.isSome)
    (htci : ∀ tci, f.tag = some tci → s.tciSr = tci) (hf : f.tag = none → f.type ≠ VLAN_TPID) :
    ∃ t, (⟨s, m⟩ : Bench).feeds (wordBytes f.type) = ⟨t, m⟩ ∧ Opens f t := by
  refine ⟨_, feeds_type h.state h.hdrCnt h.low f.type, ?_⟩
  have hlast : ¬ (!s.vlanSeen && decide (f.type = VLAN_TPID)) = true := by
    rw [hv]
    cases ht : f.tag with
    | none => simpa using hf ht
    | some tci => simp
  rw [if_neg hlast]
  exact
    { state := rfl
      crc := by
        rw [hq]
        exact advanced_crc h.crc
      frameBytes := by
        rw [hq]
        exact advanced_frameBytes h.frameBytes
      plCnt := h.plCnt
      dlyCnt := h.dlyCnt
      knows := ⟨rfl, rfl, hv, h.dstSr, h.srcSr, rfl, htci⟩ }

/-- The header of a frame opens it, whatever the registers held. -/
theorem feeds_head {f : Frame} (hf : f.tag = none → f.type ≠ VLAN_TPID) {m : Monitor}
    (hlow : s.lower = s) :
    ∃ t, (⟨opened s, m⟩ : Bench).feeds f.head = ⟨t, m⟩ ∧ Opens f t := by
  obtain ⟨t, ht, hat, hv⟩ := feeds_addresses (f := f) (m := m) hlow
  have hhead :
      f.head = macBytes f.dstMac ++ macBytes f.srcMac ++ (f.tagBytes ++ wordBytes f.type) := by
    rw [Frame.head, List.append_assoc]
  cases htag : f.tag with
  | none =>
    have hnil : f.tagBytes = [] := by rw [Frame.tagBytes, htag]
    rw [hnil, List.nil_append] at hhead
    obtain ⟨u, hu, ho⟩ := feeds_last_type (m := m) hat hhead (by rw [hv, htag]; rfl)
      (fun _ htci => by rw [htag] at htci; cases htci) hf
    exact ⟨u, by rw [hhead, feeds_append, ht, hu], ho⟩
  | some tci =>
    have hbytes : f.tagBytes = wordBytes VLAN_TPID ++ wordBytes tci := by
      rw [Frame.tagBytes, htag]
      rfl
    rw [hbytes] at hhead
    obtain ⟨u, hu, hat', hv', htci⟩ := feeds_tag (m := m) hat hv tci
    rw [← List.append_assoc] at hhead
    obtain ⟨w, hw, ho⟩ := feeds_last_type (m := m) hat' hhead (by rw [hv', htag]; rfl)
      (fun x hx => by rw [htag] at hx; rw [htci, Option.some.inj hx]) hf
    exact ⟨w, by rw [hhead, feeds_append, feeds_append, ht, hu, hw], ho⟩

end Bench

end HdlPlayground.Ether
