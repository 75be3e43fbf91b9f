import HdlPlayground.Ether.Header

/-!
# Extraction

After the header every byte goes into the holdback, and the oldest of four falls out as
payload. The CRC register meets the residue with the last byte of the checksum: the
payload has then been streamed, and the result is published.
-/
namespace HdlPlayground.Ether

open Lib

namespace Bench

variable {b : Bench} {s : Regs} {f : Frame} {q : List (BitVec 8)}

/-! ## The checksum -/

theorem crc32Next_eq (c : BitVec 32) (d : BitVec 8) : crc32Next c d = Crc.byte CRC32_POLY c d := by
  have hz : (0#24 ++ d : BitVec 32) = d.setWidth 32 := by
    apply BitVec.eq_of_toNat_eq
    have hd := d.isLt
    show (0#24 ++ d).toNat = _
    rw [BitVec.toNat_append, BitVec.toNat_setWidth]
    simp
    omega
  show (Crc.bit CRC32_POLY)^[8] (c ^^^ (0#24 ++ d)) = (Crc.bit CRC32_POLY)^[8] (c ^^^ d.setWidth 32)
  rw [← hz]

theorem foldl_crc (c : BitVec 32) (ds : List (BitVec 8)) :
    ds.foldl crc32Next c = Crc.bytes CRC32_POLY c ds := by
  have : crc32Next = Crc.byte CRC32_POLY := by
    funext c d
    exact crc32Next_eq c d
  rw [this]
  rfl

theorem fcsBytes_eq (x : BitVec 32) : fcsBytes x = Crc.littleEndian 4 x := by
  have h8 (k : Nat) : x.extractLsb' k 8 = (x >>> k).setWidth 8 := by
    apply BitVec.eq_of_toNat_eq
    rw [BitVec.extractLsb'_toNat, BitVec.toNat_setWidth, BitVec.toNat_ushiftRight]
  simp only [fcsBytes, Crc.littleEndian, h8, ← BitVec.shiftRight_add]
  rfl

/-- The body and its checksum bring the register to the residue. -/
theorem crc_whole (f : Frame) : (f.head ++ f.tail).foldl crc32Next CRC32_INIT = CRC32_RESIDUE := by
  rw [Frame.tail, ← List.append_assoc, List.foldl_append, crc32Of, foldl_crc _ (fcsBytes _),
    fcsBytes_eq, Crc.residue CRC32_POLY rfl]
  decide +kernel

/-! ## The holdback -/

/-- The payload streamed when these bytes have followed the header: all but the last four,
cut to the length. -/
def emittedOf (f : Frame) (q : List (BitVec 8)) : List (BitVec 8) := f.cut (q.take (q.length - 4))

theorem emittedOf_length_le (f : Frame) (q : List (BitVec 8)) :
    (emittedOf f q).length ≤ q.length := by
  unfold emittedOf Frame.cut
  split
  · rw [List.length_take, List.length_take]
    omega
  · rw [List.length_take]
    omega

/-- A byte more leaves four behind the oldest one held. -/
theorem take_concat (h : 4 ≤ q.length) (d : BitVec 8) : ∃ x, q.reverse[3]? = some x ∧
    (q ++ [d]).take ((q ++ [d]).length - 4) = q.take (q.length - 4) ++ [x] := by
  refine ⟨q.get ⟨q.length - 4, by omega⟩, ?_, ?_⟩
  · rw [List.getElem?_reverse (by omega), List.getElem?_eq_getElem (by omega)]
    exact congrArg some (congrArg q.get (Fin.ext (Nat.sub_sub q.length 1 3)))
  · have hlen : (q ++ [d]).length - 4 = q.length - 4 + 1 := by
      rw [List.length_append, List.length_singleton]
      omega
    rw [hlen, List.take_append_of_le_length (by omega), List.take_add_one,
      List.getElem?_eq_getElem (by omega)]
    rfl

theorem cut_concat (l : List (BitVec 8)) (x : BitVec 8) : f.cut (l ++ [x]) =
    if f.type ≤ MAX_LEN_FIELD ∧ f.type.toNat ≤ l.length then f.cut l else f.cut l ++ [x] := by
  unfold Frame.cut
  by_cases hm : f.type ≤ MAX_LEN_FIELD
  · rw [if_pos hm, if_pos hm]
    by_cases hn : f.type.toNat ≤ l.length
    · rw [if_pos ⟨hm, hn⟩, List.take_append_of_le_length hn]
    · have hlen : (l ++ [x]).length ≤ f.type.toNat := by
        rw [List.length_append, List.length_singleton]
        omega
      rw [if_neg (fun h => hn h.2), List.take_of_length_le hlen, List.take_of_length_le (by omega)]
  · rw [if_neg hm, if_neg hm, if_neg (fun h => hm h.1)]

/-- Bytes have followed the header, and the frame is not yet complete. -/
structure Streams (f : Frame) (q : List (BitVec 8)) (rs : List Report) (b : Bench) : Prop where
  state : b.regs.state = .payload
  crc : b.regs.crc = (f.head ++ q).foldl crc32Next CRC32_INIT
  frameBytes : b.regs.frameBytes = BitVec.ofNat 16 (f.head.length + q.length)
  plCnt : b.regs.plCnt = BitVec.ofNat 16 (emittedOf f q).length
  dlyCnt : b.regs.dlyCnt = BitVec.ofNat 3 (min 4 q.length)
  dly : ∀ i x, i < 4 → q.reverse[i]? = some x → b.regs.dly.extractLsb' (8 * i) 8 = x
  knows : Knows f b.regs
  monitor : b.monitor = ⟨emittedOf f q, rs⟩

theorem Opens.streams {m : Monitor} (h : Opens f s) (hm : m.gotPayload = []) :
    Streams f [] m.reports ⟨s, m⟩ where
  state := h.state
  crc := by rw [List.append_nil]; exact h.crc
  frameBytes := h.frameBytes
  plCnt := by
    rw [emittedOf, List.take_nil, Frame.cut, List.take_nil, ite_self]
    exact h.plCnt
  dlyCnt := h.dlyCnt
  dly := fun i x _ hx => by cases hx
  knows := h.knows
  monitor := by
    rw [emittedOf, List.take_nil, Frame.cut, List.take_nil, ite_self, ← hm]

theorem dly_shifted {x : BitVec 8} (h : ∀ i x, i < 4 → q.reverse[i]? = some x →
    s.dly.extractLsb' (8 * i) 8 = x) (d : BitVec 8) {i : Nat} (hi : i < 4)
    (hx : (q ++ [d]).reverse[i]? = some x) : (shiftIn s.dly d).extractLsb' (8 * i) 8 = x := by
  rw [List.reverse_append, List.reverse_singleton, List.singleton_append] at hx
  have hd := d.isLt
  apply BitVec.eq_of_toNat_eq
  rw [BitVec.extractLsb'_toNat, shiftIn_toNat, Nat.shiftRight_eq_div_pow]
  cases i with
  | zero =>
    rw [List.getElem?_cons_zero] at hx
    rw [← Option.some.inj hx]
    omega
  | succ i =>
    rw [List.getElem?_cons_succ] at hx
    have hold := congrArg BitVec.toNat (h i x (by omega) hx)
    rw [BitVec.extractLsb'_toNat, Nat.shiftRight_eq_div_pow] at hold
    rw [← hold]
    rcases (show i = 0 ∨ i = 1 ∨ i = 2 by omega) with rfl | rfl | rfl <;> omega

/-- A byte leaves the holdback when it is full and the length is not exhausted. -/
theorem Streams.plEmit {rs : List Report} (h : Streams f q rs b) (hlen : q.length ≤ 1522) :
    b.regs.plEmit = true ↔
      4 ≤ q.length ∧ ¬ (f.type ≤ MAX_LEN_FIELD ∧ f.type.toNat ≤ q.length - 4) := by
  have hfull : (b.regs.dlyCnt = BitVec.ofNat 3 FCS_BYTES) ↔ 4 ≤ q.length := by
    rw [h.dlyCnt]
    constructor
    · intro heq
      have : (BitVec.ofNat 3 (min 4 q.length)).toNat = 4 := congrArg BitVec.toNat heq
      rw [BitVec.toNat_ofNat] at this
      omega
    · intro hq
      rw [Nat.min_eq_left hq]
  have hle := emittedOf_length_le f q
  have hcut : f.type ≤ MAX_LEN_FIELD →
      (f.type ≤ BitVec.ofNat 16 (emittedOf f q).length ↔ f.type.toNat ≤ q.length - 4) := by
    intro hm
    rw [BitVec.le_def, BitVec.toNat_ofNat, Nat.mod_eq_of_lt (by omega), emittedOf, Frame.cut,
      if_pos hm, List.length_take, List.length_take]
    omega
  rw [Regs.plEmit, h.state, h.knows.lenMode, h.knows.lenField, h.plCnt, Bool.and_eq_true,
    Bool.and_eq_true, Bool.not_eq_true', ← Bool.not_eq_true, Bool.and_eq_true, decide_eq_true_eq,
    decide_eq_true_eq, decide_eq_true_eq, decide_eq_true_eq, hfull]
  constructor
  · rintro ⟨⟨-, hq⟩, hn⟩
    exact ⟨hq, fun hc => hn ⟨hc.1, (hcut hc.1).mpr hc.2⟩⟩
  · rintro ⟨hq, hn⟩
    exact ⟨⟨rfl, hq⟩, fun hc => hn ⟨hc.1, (hcut hc.1).mp hc.2⟩⟩

theorem Streams.emitted {rs : List Report} (h : Streams f q rs b) (hlen : q.length ≤ 1522)
    (d : BitVec 8) : emittedOf f (q ++ [d]) =
      if b.regs.plEmit then emittedOf f q ++ [b.regs.dly.extractLsb' 24 8] else emittedOf f q := by
  by_cases hq : 4 ≤ q.length
  · obtain ⟨x, hx, htake⟩ := take_concat hq d
    have hdly := h.dly 3 x (by decide) hx
    rw [emittedOf, htake, cut_concat, List.length_take, Nat.min_eq_left (by omega)]
    by_cases hc : f.type ≤ MAX_LEN_FIELD ∧ f.type.toNat ≤ q.length - 4
    · rw [if_pos hc, if_neg fun he => ((h.plEmit hlen).mp he).2 hc]
      rfl
    · rw [if_neg hc, if_pos ((h.plEmit hlen).mpr ⟨hq, hc⟩), ← hdly]
      rfl
  · rw [if_neg fun he => hq ((h.plEmit hlen).mp he).1, emittedOf, emittedOf, List.length_append,
      List.length_singleton, show q.length + 1 - 4 = 0 by omega, show q.length - 4 = 0 by omega]
    rfl

/-! ## A byte of the payload -/

theorem Streams.plCntNxt {rs : List Report} (h : Streams f q rs b) (hlen : q.length ≤ 1522)
    (d : BitVec 8) : b.regs.plCntNxt = BitVec.ofNat 16 (emittedOf f (q ++ [d])).length := by
  rw [Regs.plCntNxt, h.plCnt, h.emitted hlen]
  split
  · rw [List.length_append, List.length_singleton, BitVec.ofNat_add]
    rfl
  · exact BitVec.add_zero _

theorem crc_concat (f : Frame) (q : List (BitVec 8)) (d : BitVec 8) :
    (f.head ++ (q ++ [d])).foldl crc32Next CRC32_INIT =
      crc32Next ((f.head ++ q).foldl crc32Next CRC32_INIT) d := by
  rw [← List.append_assoc, List.foldl_append]
  rfl

/-- The count of the bytes held, up to four. -/
theorem dlyCnt_concat {c : BitVec 3} {n : Nat} (h : c = BitVec.ofNat 3 (min 4 n)) :
    (if c ≠ BitVec.ofNat 3 FCS_BYTES then c + 1 else c) = BitVec.ofNat 3 (min 4 (n + 1)) := by
  subst h
  by_cases hn : n < 4
  · rw [if_pos, Nat.min_eq_right (by omega), Nat.min_eq_right (by omega), BitVec.ofNat_add]
    · rfl
    · intro heq
      have : (BitVec.ofNat 3 (min 4 n)).toNat = 4 := congrArg BitVec.toNat heq
      rw [BitVec.toNat_ofNat] at this
      omega
  · rw [Nat.min_eq_left (by omega), Nat.min_eq_left (by omega)]
    decide

theorem Streams.crcHit {rs : List Report} (h : Streams f q rs b) (d : BitVec 8) :
    b.regs.crcHit d =
      decide ((f.head ++ (q ++ [d])).foldl crc32Next CRC32_INIT = CRC32_RESIDUE) := by
  rw [Regs.crcHit, h.state, Regs.crcNxt, h.crc, crc_concat]
  rfl

theorem Streams.frameBytesNxt {rs : List Report} (h : Streams f q rs b) (d : BitVec 8) :
    b.regs.frameBytesNxt = BitVec.ofNat 16 (f.head.length + (q ++ [d]).length) := by
  rw [Regs.frameBytesNxt, h.frameBytes, List.length_append, List.length_singleton, ← Nat.add_assoc,
    BitVec.ofNat_add _ 1]
  rfl

theorem Streams.oversizeW {rs : List Report} (h : Streams f q rs b)
    (hlen : f.head.length + q.length < 1522) : b.regs.oversizeW {} = false := by
  have hle : ¬ BitVec.ofNat 16 1522 < b.regs.frameBytesNxt := by
    rw [h.frameBytesNxt 0, BitVec.lt_def, BitVec.toNat_ofNat, BitVec.toNat_ofNat,
      List.length_append, List.length_singleton]
    omega
  rw [Regs.oversizeW, decide_eq_false hle, Bool.and_false]

/-- What the report of a frame says, where this payload has been streamed and the frame had
this many bytes. -/
structure Reports (f : Frame) (pl : List (BitVec 8)) (n : Nat) (r : Report) : Prop where
  dstMac : r.dstMac = f.dstMac
  srcMac : r.srcMac = f.srcMac
  ethertype : r.ethertype = f.type
  vlanValid : r.vlanValid = f.tag.isSome
  vlanTci : ∀ tci, f.tag = some tci → r.vlanTci = tci
  fcsOk : r.fcsOk = true
  errOversize : r.errOversize = false
  errRunt : r.errRunt = decide (n < 64)
  payload : r.payload = pl
  payloadBytes : r.payloadBytes.toNat = pl.length

theorem feed_payload (hs : b.regs.state = .payload) (d : BitVec 8) :
    b.feed d =
      ⟨b.regs.lower.payloadByte d {}, b.monitor.sample (b.regs.lower.payloadByte d {}).out⟩ := by
  have hpos : b.regs.posedge {} (.ofByte d) = b.regs.lower.payloadByte d {} := by
    show b.regs.lower.byte d {} = _
    rw [Regs.byte, show b.regs.lower.state = .payload from hs]
  rw [feed, posedge, hpos]

/-- The payload the monitor has after the byte. -/
theorem Streams.got {rs : List Report} (h : Streams f q rs b) (hlen : q.length ≤ 1522)
    (d : BitVec 8) :
    (if (b.regs.lower.emitted d b.regs.lower.out).plValid then
        b.monitor.gotPayload ++ [(b.regs.lower.emitted d b.regs.lower.out).plData]
      else b.monitor.gotPayload) = emittedOf f (q ++ [d]) := by
  rw [h.emitted hlen, h.monitor, Regs.emitted, show b.regs.lower.plEmit = b.regs.plEmit from rfl]
  by_cases he : b.regs.plEmit = true
  · rw [if_pos he, if_pos he]
    rfl
  · rw [if_neg he, if_neg he]
    rfl

/-- Until the checksum is met the byte joins the others. -/
theorem Streams.more {rs : List Report} (h : Streams f q rs b) {d : BitVec 8}
    (hlen : f.head.length + q.length < 1522)
    (hmiss : (f.head ++ (q ++ [d])).foldl crc32Next CRC32_INIT ≠ CRC32_RESIDUE) :
    Streams f (q ++ [d]) rs (b.feed d) := by
  have hgot := h.got (by omega) d
  have hout : b.regs.lower.payloadByte d {} =
      { b.regs.lower.advance d with
        dly := shiftIn b.regs.dly d
        dlyCnt :=
          if b.regs.dlyCnt ≠ BitVec.ofNat 3 FCS_BYTES then b.regs.dlyCnt + 1 else b.regs.dlyCnt
        plCnt := b.regs.plCntNxt
        out := b.regs.lower.emitted d b.regs.lower.out } := by
    have hcond : ¬ (b.regs.crcHit d || b.regs.oversizeW {}) = true := by
      rw [h.crcHit, h.oversizeW hlen, decide_eq_false hmiss]
      decide
    rw [Regs.payloadByte]
    exact if_neg hcond
  have hvalid : (b.regs.lower.emitted d b.regs.lower.out).valid = false := by
    unfold Regs.emitted
    split <;> rfl
  rw [feed_payload h.state, hout]
  exact
    { state := h.state
      crc := by
        show b.regs.crcNxt d = _
        rw [Regs.crcNxt, h.crc, crc_concat]
      frameBytes := h.frameBytesNxt d
      plCnt := h.plCntNxt (by omega) d
      dlyCnt := by
        rw [List.length_append, List.length_singleton]
        exact dlyCnt_concat h.dlyCnt
      dly := fun i x hi hx => dly_shifted h.dly d hi hx
      knows := ⟨h.knows.lenMode, h.knows.lenField, h.knows.vlanSeen, h.knows.dstSr, h.knows.srcSr,
        h.knows.typeSr, h.knows.tciSr⟩
      monitor := by
        show b.monitor.sample (b.regs.lower.emitted d b.regs.lower.out) = _
        rw [Monitor.sample, hgot, hvalid, h.monitor]
        rfl }

/-- With the last byte of the checksum the result is published. -/
theorem Streams.done {rs : List Report} (h : Streams f q rs b) {d : BitVec 8}
    (hlen : f.head.length + q.length < 1522)
    (hhit : (f.head ++ (q ++ [d])).foldl crc32Next CRC32_INIT = CRC32_RESIDUE) :
    Hunting (b.feed d) ∧ ∃ r, (b.feed d).monitor = ⟨[], rs ++ [r]⟩ ∧
      Reports f (emittedOf f (q ++ [d])) (f.head.length + (q ++ [d]).length) r := by
  have hgot := h.got (by omega) d
  have hcrc : b.regs.crcHit d = true := by
    rw [h.crcHit, hhit]
    decide
  obtain ⟨t, ht⟩ : ∃ t : Regs, t = { b.regs.lower.advance d with
      dly := shiftIn b.regs.dly d
      dlyCnt :=
        if b.regs.dlyCnt ≠ BitVec.ofNat 3 FCS_BYTES then b.regs.dlyCnt + 1 else b.regs.dlyCnt
      plCnt := b.regs.plCntNxt
      out := b.regs.lower.emitted d b.regs.lower.out } := ⟨_, rfl⟩
  have hout : b.regs.lower.payloadByte d {} =
      { t with out := b.regs.lower.publish d {} t.out, state := .hunt, preCnt := 0 } := by
    rw [ht, Regs.payloadByte]
    exact if_pos (by rw [show b.regs.lower.crcHit d = b.regs.crcHit d from rfl, hcrc, Bool.true_or])
  have hle := emittedOf_length_le f (q ++ [d])
  rw [List.length_append, List.length_singleton] at hle
  rw [feed_payload h.state, hout]
  refine ⟨⟨rfl, rfl⟩, (b.regs.lower.publish d {} t.out).report (emittedOf f (q ++ [d])), ?_, ?_⟩
  · show b.monitor.sample (b.regs.lower.publish d {} t.out) = _
    have hpl : (b.regs.lower.publish d {} t.out).plValid = t.out.plValid := rfl
    have hpd : (b.regs.lower.publish d {} t.out).plData = t.out.plData := rfl
    rw [Monitor.sample, hpl, hpd, ht, hgot, h.monitor]
    rfl
  · exact
      { dstMac := h.knows.dstSr
        srcMac := h.knows.srcSr
        ethertype := h.knows.typeSr
        vlanValid := h.knows.vlanSeen
        vlanTci := h.knows.tciSr
        fcsOk := hcrc
        errOversize := by
          show (!b.regs.crcHit d) = false
          rw [hcrc]
          rfl
        errRunt := by
          show (b.regs.crcHit d && decide (b.regs.frameBytesNxt < BitVec.ofNat 16 64)) = _
          rw [hcrc, h.frameBytesNxt d, Bool.true_and]
          apply decide_eq_decide.mpr
          rw [BitVec.lt_def, BitVec.toNat_ofNat, BitVec.toNat_ofNat, Nat.mod_eq_of_lt]
          rw [List.length_append, List.length_singleton]
          omega
        payload := rfl
        payloadBytes := by
          show b.regs.plCntNxt.toNat = _
          rw [h.plCntNxt (by omega) d, BitVec.toNat_ofNat, Nat.mod_eq_of_lt (by omega)] }

/-! ## Frames -/

/-- The bytes that are left of a frame complete it. -/
theorem Streams.feeds {rs : List Report} {ds : List (BitVec 8)} (hf : f.Proper)
    (h : Streams f q rs b)
    (hq : q ++ ds = f.tail) (hne : ds ≠ []) :
    Hunting (b.feeds ds) ∧ ∃ r, (b.feeds ds).monitor = ⟨[], rs ++ [r]⟩ ∧
      Reports f (emittedOf f f.tail) (f.head.length + f.tail.length) r := by
  induction ds generalizing q b with
  | nil => exact absurd rfl hne
  | cons d ds ih =>
    have hsplit : (q ++ [d]) ++ ds = f.tail := by
      rw [← hq, List.append_assoc]
      rfl
    have hlen : f.head.length + q.length < 1522 := by
      have := hf.size
      rw [← hq, List.length_append, List.length_cons] at this
      omega
    rw [feeds_cons]
    cases ds with
    | nil =>
      rw [List.append_nil] at hsplit
      rw [← hsplit]
      exact h.done hlen (by rw [hsplit]; exact crc_whole f)
    | cons e ds =>
      have hmiss := hf.whole (q ++ [d]) ⟨e :: ds, hsplit⟩ (by simp) fun heq => by
        rw [heq] at hsplit
        exact absurd (List.append_right_eq_self.mp hsplit) (List.cons_ne_nil e ds)
      exact ih (h.more hlen hmiss) hsplit (List.cons_ne_nil e ds)

theorem emittedOf_tail (f : Frame) : emittedOf f f.tail = f.cut f.rest := by
  have hlen : f.tail.length - 4 = f.rest.length := by
    rw [Frame.tail, List.length_append]
    rfl
  rw [emittedOf, hlen, Frame.tail, List.take_left]

end Bench

/-- The report of a whole frame. -/
def Frame.Reported (f : Frame) (r : Report) : Prop :=
  Bench.Reports f (f.cut f.rest) (f.head.length + f.tail.length) r

namespace Bench

variable {b b' : Bench} {f : Frame}

theorem Hunting.frame (hf : f.Proper) (h : Hunting b) (hg : b.monitor.gotPayload = []) :
    Hunting (b.feeds f.wire) ∧ ∃ r, (b.feeds f.wire).monitor = ⟨[], b.monitor.reports ++ [r]⟩ ∧
      f.Reported r := by
  obtain ⟨s, hlow, hopen⟩ := h.delimiter hf.filler hf.preamble
  obtain ⟨t, ht, ho⟩ := feeds_head (m := b.monitor) hf.type hlow
  have hwire : f.wire = (f.filler ++ (.replicate f.preamble PREAMBLE_BYTE ++ [SFD_BYTE])) ++
      (f.head ++ f.tail) := by
    rw [Frame.wire, List.append_assoc, List.append_assoc]
    rfl
  have htail : f.tail ≠ [] := by
    rw [Frame.tail]
    exact List.append_ne_nil_of_right_ne_nil _ (List.cons_ne_nil _ _)
  have hdone := (ho.streams hg).feeds hf (List.nil_append _) htail
  rw [emittedOf_tail] at hdone
  rw [hwire, feeds_append, feeds_append, hopen, ht]
  exact hdone

theorem Hunting.frames {frames : List Frame} (hf : ∀ f ∈ frames, f.Proper) (h : Hunting b)
    (hg : b.monitor.gotPayload = []) :
    ∃ rs, (b.feeds (frames.flatMap Frame.wire)).monitor = ⟨[], b.monitor.reports ++ rs⟩ ∧
      List.Forall₂ Frame.Reported frames rs := by
  induction frames generalizing b with
  | nil =>
    refine ⟨[], ?_, .nil⟩
    rw [List.append_nil, ← hg]
    rfl
  | cons f frames ih =>
    obtain ⟨hh, r, hm, hr⟩ := h.frame (hf f List.mem_cons_self) hg
    obtain ⟨rs, hms, hrs⟩ := ih (fun g hg => hf g (List.mem_cons_of_mem f hg)) hh (by rw [hm])
    refine ⟨r :: rs, ?_, .cons hr hrs⟩
    rw [List.flatMap_cons, feeds_append, hms, hm, List.append_assoc]
    rfl

end Bench

/-- Whatever the frames and wherever the producer idles, every frame is extracted, once and in
order. -/
theorem frames_extracted (s : Regs) (frames : List Frame) (is : List Inputs)
    (hf : ∀ f ∈ frames, f.Proper) (hr : ∀ i ∈ is, i.rst = false)
    (hw : is.filterMap Inputs.byte = frames.flatMap Frame.wire) :
    ∃ rs, (Bench.run {} ⟨s.posedge {} { rst := true }, {}⟩ is).monitor = ⟨[], rs⟩ ∧
      List.Forall₂ Frame.Reported frames rs := by
  have hidle := Bench.run_idle (p := {}) (b := ⟨s.posedge {} { rst := true }, {}⟩) ⟨rfl, rfl⟩ hr
  have hstart : Bench.Hunting ⟨s.posedge {} { rst := true }, {}⟩ := ⟨rfl, rfl⟩
  obtain ⟨rs, hm, hrs⟩ := hstart.frames hf rfl
  refine ⟨rs, ?_, hrs⟩
  rw [hidle.2, hw, ← Bench.feeds_eq_run, hm]
  rfl

/-- A padded frame with a length field. -/
def paddedFrame : Frame where
  filler := [0xD5, 0]
  preamble := 5
  dstMac := 0x0102030405FF
  srcMac := 0xAABBCCDDEEFF
  tag := none
  type := 1
  rest := [7, 0]

theorem paddedFrame_proper : paddedFrame.Proper where
  filler := by decide
  preamble := by decide
  type := by decide
  size := by decide +kernel
  whole := by
    have hall : ∀ n ∈ List.range 6, n ≠ 0 →
        (paddedFrame.head ++ paddedFrame.tail.take n).foldl crc32Next CRC32_INIT ≠
          CRC32_RESIDUE := by
      decide +kernel
    have hlen : paddedFrame.tail.length = 6 := by decide +kernel
    intro q hq hne hneq
    have hlt : q.length < 6 := by
      have hle := hq.length_le
      refine lt_of_le_of_ne (hlen ▸ hle) fun heq => hneq (hq.eq_of_length (heq.trans hlen.symm))
    have hmiss :=
      hall q.length (List.mem_range.mpr hlt) fun h0 => hne (List.eq_nil_of_length_eq_zero h0)
    rw [← List.prefix_iff_eq_take.mp hq] at hmiss
    exact hmiss

theorem paddedFrame_extracted :
    ∃ rs, (Bench.run {} ⟨Regs.posedge {} {} { rst := true }, {}⟩
        ({ data := 0x55 } ::
          ([paddedFrame, paddedFrame].flatMap Frame.wire).map Inputs.ofByte)).monitor =
          ⟨[], rs⟩ ∧
      List.Forall₂ Frame.Reported [paddedFrame, paddedFrame] rs := by
  refine frames_extracted {} [paddedFrame, paddedFrame] _ ?_ ?_ ?_
  · intro f hf
    have : f = paddedFrame := by simpa using hf
    rw [this]
    exact paddedFrame_proper
  · intro i hi
    rcases List.mem_cons.mp hi with rfl | hi
    · rfl
    · obtain ⟨d, -, rfl⟩ := List.mem_map.mp hi
      rfl
  · rw [List.filterMap_cons_none rfl, List.filterMap_map]
    exact List.filterMap_some

end HdlPlayground.Ether
