import HdlPlayground.Ether.Extraction

/-!
# Any stream of bytes

What the extractor does with bytes that need not be frames. A watch beside it keeps the
bytes taken since the start delimiter, the locks and the result pulses, and the payload
beats since the last pulse. One invariant ties the counters, the holdback and the marking of
the last beat to it.
-/
namespace HdlPlayground.Ether

/-- A start delimiter is honoured, or a result is published. -/
inductive Mark where
  | lock
  | pulse
deriving DecidableEq

/-- The extractor, with what it has been seen to do. -/
structure Watch where
  regs : Regs
  body : List (BitVec 8) := []
  marks : List Mark := []
  beats : List Bool := []

namespace Watch

/-- A clock cycle. The beats are the `o_pl_last` of the cycles with `o_pl_valid` since the
last `o_valid` pulse, the cycle of a pulse counted. -/
def posedge (w : Watch) (p : Params) (i : Inputs) : Watch :=
  let s := w.regs.posedge p i
  if i.rst then { regs := s }
  else
    { regs := s
      body :=
        if i.valid then if w.regs.state = .hunt then [] else w.body ++ [i.data] else w.body
      marks := w.marks ++ (if w.regs.state = .hunt ∧ s.state ≠ .hunt then [.lock] else []) ++
        if s.out.valid then [.pulse] else []
      beats := (if w.regs.out.valid then [] else w.beats) ++
        if s.out.plValid then [s.out.plLast] else [] }

def run (p : Params) (w : Watch) (is : List Inputs) : Watch := is.foldl (fun w i => w.posedge p i) w

variable {w : Watch}

/-! ## The invariant -/

/-- Where in its frame the parser stands. -/
def Placed (s : Regs) (n : Nat) : Prop :=
  match s.state with
  | .hunt => True
  | .dst => s.vlanSeen = false ∧ n = 0 + s.hdrCnt.toNat ∧ s.hdrCnt.toNat ≤ 5
  | .src => s.vlanSeen = false ∧ n = 6 + s.hdrCnt.toNat ∧ s.hdrCnt.toNat ≤ 5
  | .type => n = (if s.vlanSeen then 16 else 12) + s.hdrCnt.toNat ∧ s.hdrCnt.toNat ≤ 1
  | .vlan => s.vlanSeen = true ∧ n = 14 + s.hdrCnt.toNat ∧ s.hdrCnt.toNat ≤ 1
  | .payload => 14 ≤ n ∧ n ≤ 1522

/-- The beats of a payload: the last is marked when the length field is reached. -/
structure Streamed (s : Regs) (beats : List Bool) : Prop where
  count : s.plCnt.toNat = beats.length
  limit : s.lenMode = true → s.plCnt ≤ s.lenField
  held : s.dlyCnt.toNat ≤ 4
  full : beats ≠ [] → s.dlyCnt.toNat = 4
  last : beats = [] ∨ s.lenMode = true ∧ s.plCnt = s.lenField ∧
      (∃ bs, beats = bs ++ [true] ∧ true ∉ bs) ∨
    (s.lenMode = true → s.plCnt ≠ s.lenField) ∧ true ∉ beats

/-- Between the start delimiter and the result. -/
structure InFrame (w : Watch) : Prop where
  quiet : w.regs.out.valid = false
  crc : w.regs.crc = w.body.foldl crc32Next CRC32_INIT
  count : w.regs.frameBytes.toNat = w.body.length
  place : Placed w.regs w.body.length
  fewer : w.beats.length ≤ w.body.length
  header : w.regs.state ≠ .payload → w.beats = [] ∧ w.regs.lenMode = false
  streamed : Streamed w.regs w.beats

/-- What a result says of the beats since the result before. -/
structure Told (o : Outputs) (beats : List Bool) : Prop where
  bytes : beats.length = o.payloadBytes.toNat
  once : beats.count true ≤ 1
  last : o.fcsOk = true → 0 < o.payloadBytes.toNat → ∃ bs, beats = bs ++ [true] ∧ true ∉ bs

/-- Locks and results take turns. -/
def Alternates (marks : List Mark) (hunting : Bool) : Prop :=
  ∃ n, marks = (List.replicate n [.lock, .pulse]).flatten ++ if hunting then [] else [.lock]

structure Sane (w : Watch) : Prop where
  body : w.body.length ≤ 1523
  frameBytes : w.regs.frameBytes.toNat ≤ 1523
  plCnt : w.regs.plCnt.toNat ≤ 1523
  dlyCnt : w.regs.dlyCnt.toNat ≤ 4
  turns : Alternates w.marks (w.regs.state = .hunt)
  told : w.regs.out.valid = true → Told w.regs.out w.beats
  idle : w.regs.state = .hunt → w.regs.out.valid = false → w.beats = []
  inFrame : w.regs.state ≠ .hunt → InFrame w

/-! ## Idle cycles -/

theorem posedge_idle (p : Params) {i : Inputs} (hr : i.rst = false) (hv : i.valid = false) :
    w.posedge p i = { w with
      regs := w.regs.lower, beats := if w.regs.out.valid then [] else w.beats } := by
  have hreg : w.regs.posedge p i = w.regs.lower := by
    rw [Regs.posedge, hr, hv]
    rfl
  have hstate : w.regs.lower.state = w.regs.state := rfl
  have hlow : w.regs.lower.out.valid = false ∧ w.regs.lower.out.plValid = false := ⟨rfl, rfl⟩
  rw [posedge, hreg, hr, hv]
  simp [hstate, hlow]

/-- A byte finds what an idle cycle before it would have left. -/
theorem posedge_after_idle (p : Params) {i : Inputs} (hr : i.rst = false) :
    (w.posedge p {}).posedge p i = w.posedge p i := by
  rw [posedge_idle (i := {}) p rfl rfl]
  have hreg : w.regs.lower.posedge p i = w.regs.posedge p i := rfl
  have hvalid : w.regs.lower.out.valid = false := rfl
  simp only [posedge, hreg, hr, hvalid]
  rfl

theorem Sane.rest (h : Sane w) : Sane { w with
    regs := w.regs.lower, beats := if w.regs.out.valid then [] else w.beats } := by
  refine ⟨h.body, h.frameBytes, h.plCnt, h.dlyCnt, h.turns, fun hv => ?_, fun hs _ => ?_,
    fun hs => ?_⟩
  · cases hv
  · cases hv : w.regs.out.valid with
    | true => rfl
    | false => exact h.idle hs hv
  · obtain ⟨hq, hcrc, hcount, hplace, hfewer, hheader, hstr⟩ := h.inFrame hs
    rw [hq]
    exact ⟨rfl, hcrc, hcount, hplace, hfewer, hheader,
      ⟨hstr.count, hstr.limit, hstr.held, hstr.full, hstr.last⟩⟩

/-! ## Bytes -/

/-- The pulses are low. -/
def Quiet (s : Regs) : Prop := s.lower = s

theorem posedge_byte {i : Inputs} (p : Params) (hq : Quiet w.regs) (hr : i.rst = false)
    (hv : i.valid = true) : w.posedge p i =
      { regs := w.regs.byte i.data p
        body := if w.regs.state = .hunt then [] else w.body ++ [i.data]
        marks := w.marks ++
          (if w.regs.state = .hunt ∧ (w.regs.byte i.data p).state ≠ .hunt then [.lock] else []) ++
          if (w.regs.byte i.data p).out.valid then [.pulse] else []
        beats := w.beats ++
          if (w.regs.byte i.data p).out.plValid then [(w.regs.byte i.data p).out.plLast]
            else [] } := by
  have hreg : w.regs.posedge p i = w.regs.byte i.data p := by
    rw [Regs.posedge, hr, hv, hq]
    rfl
  have hvalid : w.regs.out.valid = false := by
    rw [← hq]
    rfl
  simp [posedge, hreg, hr, hv, hvalid]

theorem Quiet.out {s : Regs} (h : Quiet s) :
    s.out.valid = false ∧ s.out.plValid = false ∧ s.out.plLast = false := by
  rw [← h]
  exact ⟨rfl, rfl, rfl⟩

theorem Alternates.lock {marks : List Mark} (h : Alternates marks true) :
    Alternates (marks ++ [.lock]) false := by
  obtain ⟨n, rfl⟩ := h
  exact ⟨n, by simp⟩

theorem Alternates.pulse {marks : List Mark} (h : Alternates marks false) :
    Alternates (marks ++ [.pulse]) true := by
  obtain ⟨n, rfl⟩ := h
  refine ⟨n + 1, ?_⟩
  rw [List.replicate_succ', List.flatten_append]
  simp

/-- A byte outside a frame. -/
theorem Sane.hunting (h : Sane w) (hq : Quiet w.regs) (hs : w.regs.state = .hunt) (p : Params)
    {i : Inputs} (hr : i.rst = false) (hv : i.valid = true) : Sane (w.posedge p i) := by
  obtain ⟨hvalid, hpl, -⟩ := hq.out
  have hbeats := h.idle hs hvalid
  have hturns : Alternates w.marks true := by simpa [hs] using h.turns
  have hbyte : w.regs.byte i.data p = w.regs.hunt i.data p := by rw [Regs.byte, hs]
  have hout : (w.regs.hunt i.data p).out = w.regs.out := by
    rw [Regs.hunt]
    split_ifs <;> rfl
  rw [posedge_byte p hq hr hv, if_pos hs, hbyte, hout, hvalid, hpl, hbeats]
  by_cases hlock : i.data = SFD_BYTE ∧ BitVec.ofNat 3 p.minPreambleLen ≤ w.regs.preCnt
  · have hnew : w.regs.hunt i.data p = { w.regs with
        state := .dst, hdrCnt := 0, frameBytes := 0, plCnt := 0, dlyCnt := 0, crc := CRC32_INIT
        vlanSeen := false, lenMode := false, preCnt := 0 } := by
      rw [Regs.hunt, if_pos hlock]
    rw [hnew]
    refine ⟨Nat.zero_le _, Nat.zero_le _, Nat.zero_le _, Nat.zero_le _, ?_, ?_, ?_, fun _ => ?_⟩
    · simpa [hs] using hturns.lock
    · simp [hvalid]
    · simp
    · refine ⟨hvalid, rfl, rfl, ⟨rfl, rfl, Nat.zero_le _⟩, Nat.zero_le _, fun _ => ⟨rfl, rfl⟩, ?_⟩
      exact ⟨rfl, by simp, Nat.zero_le _, by simp, Or.inl rfl⟩
  · have hnew : ∃ c, w.regs.hunt i.data p = { w.regs with preCnt := c } := by
      rw [Regs.hunt, if_neg hlock]
      split_ifs
      · exact ⟨_, rfl⟩
      · exact ⟨_, rfl⟩
      · exact ⟨_, rfl⟩
    obtain ⟨c, hc⟩ := hnew
    rw [hc]
    refine ⟨Nat.zero_le _, h.frameBytes, h.plCnt, h.dlyCnt, ?_, ?_, ?_, fun hx => absurd hs hx⟩
    · simpa [hs] using hturns
    · simp [hvalid]
    · simp

/-- What every byte of a header does. -/
structure Heads (s : Regs) (d : BitVec 8) (t : Regs) (n : Nat) : Prop where
  out : t.out = s.out
  crc : t.crc = s.crcNxt d
  frameBytes : t.frameBytes = s.frameBytesNxt
  plCnt : t.plCnt = s.plCnt
  dlyCnt : t.dlyCnt = s.dlyCnt
  inside : t.state ≠ .hunt
  place : Placed t (n + 1)
  lenMode : t.state ≠ .payload → t.lenMode = s.lenMode

theorem Placed.le {s : Regs} {n : Nat} (h : Placed s n) (hs : s.state ≠ .hunt) : n ≤ 1522 := by
  rw [Placed] at h
  split at h
  · contradiction
  · omega
  · omega
  · split at h <;> omega
  · omega
  · exact h.2

theorem Sane.heads (h : Sane w) (hq : Quiet w.regs) (hs : w.regs.state ≠ .hunt)
    (hp : w.regs.state ≠ .payload) (p : Params) {i : Inputs} (hr : i.rst = false)
    (hv : i.valid = true) (ht : Heads w.regs i.data (w.regs.byte i.data p) w.body.length) :
    Sane (w.posedge p i) := by
  obtain ⟨hvalid, hpl, -⟩ := hq.out
  have hin := h.inFrame hs
  obtain ⟨hbeats, hmode⟩ := hin.header hp
  have hturns : Alternates w.marks false := by simpa [hs] using h.turns
  have hlen := hin.place.le hs
  have hfull := ht.place.le ht.inside
  have hzero : w.regs.plCnt.toNat = 0 := by rw [hin.streamed.count, hbeats]; rfl
  have hcount : (w.regs.byte i.data p).frameBytes.toNat = w.body.length + 1 := by
    rw [ht.frameBytes, Regs.frameBytesNxt, BitVec.toNat_add, hin.count]
    exact Nat.mod_eq_of_lt (show w.body.length + 1 < 65536 by omega)
  rw [posedge_byte p hq hr hv, if_neg hs, ht.out, hvalid, hpl, hbeats]
  refine ⟨?_, ?_, ?_, ?_, ?_, ?_, ?_, fun _ => ?_⟩
  · rw [List.length_append, List.length_singleton]
    omega
  · show (w.regs.byte i.data p).frameBytes.toNat ≤ 1523
    omega
  · show (w.regs.byte i.data p).plCnt.toNat ≤ 1523
    rw [ht.plCnt]
    exact h.plCnt
  · show (w.regs.byte i.data p).dlyCnt.toNat ≤ 4
    rw [ht.dlyCnt]
    exact h.dlyCnt
  · simpa [hs, ht.inside] using hturns
  · simp [ht.out, hvalid]
  · simp
  · refine ⟨by rw [ht.out]; exact hvalid, ?_, ?_, ?_, Nat.zero_le _, fun hx => ⟨rfl, ?_⟩, ?_⟩
    · rw [ht.crc, Regs.crcNxt, hin.crc, List.foldl_concat]
    · rw [hcount, List.length_append, List.length_singleton]
    · rw [List.length_append, List.length_singleton]
      exact ht.place
    · rw [ht.lenMode hx]
      exact hmode
    · refine ⟨by rw [ht.plCnt]; exact hzero, fun _ => ?_, ?_, by simp, Or.inl rfl⟩
      · rw [BitVec.le_def, ht.plCnt, hzero]
        exact Nat.zero_le _
      · rw [ht.dlyCnt]
        exact h.dlyCnt

/-- The next byte of a field. -/
theorem heads_field {s t : Regs} {d : BitVec 8} {c : BitVec 4} {next : StateE} {start n : Nat}
    (hout : t.out = s.out) (hcrc : t.crc = s.crcNxt d) (hframe : t.frameBytes = s.frameBytesNxt)
    (hpl : t.plCnt = s.plCnt) (hdly : t.dlyCnt = s.dlyCnt) (hmode : t.lenMode = s.lenMode)
    (hcnt : t.hdrCnt = s.hdrCnt) (hin : t.state ≠ .hunt) (hnext : next ≠ .hunt)
    (hc : c.toNat ≤ 5) (hn : n = start + s.hdrCnt.toNat) (hle : s.hdrCnt.toNat ≤ c.toNat)
    (hmore : ∀ k : BitVec 4, k.toNat ≤ c.toNat → Placed { t with hdrCnt := k } (start + k.toNat))
    (hlast : Placed { t with hdrCnt := 0, state := next } (start + c.toNat + 1)) :
    Heads s d (t.header c next) n := by
  rw [Regs.header, hcnt]
  by_cases hk : s.hdrCnt = c
  · rw [if_pos hk]
    refine ⟨hout, hcrc, hframe, hpl, hdly, hnext, ?_, fun _ => hmode⟩
    rw [hn, hk]
    exact hlast
  · rw [if_neg hk]
    have hlt : s.hdrCnt.toNat ≠ c.toNat := fun he => hk (BitVec.eq_of_toNat_eq he)
    have hadd : (s.hdrCnt + 1).toNat = s.hdrCnt.toNat + 1 := by
      rw [BitVec.toNat_add]
      exact Nat.mod_eq_of_lt (show s.hdrCnt.toNat + 1 < 16 by omega)
    refine ⟨hout, hcrc, hframe, hpl, hdly, hin, ?_, fun _ => hmode⟩
    have hplace := hmore (s.hdrCnt + 1) (by omega)
    rw [hadd, ← Nat.add_assoc, ← hn] at hplace
    exact hplace

theorem heads_dst {s : Regs} {n : Nat} (hs : s.state = .dst) (h : Placed s n) (d : BitVec 8) :
    Heads s d (s.dstByte d) n := by
  simp only [Placed, hs] at h
  obtain ⟨hv, hn, hle⟩ := h
  refine heads_field rfl rfl rfl rfl rfl rfl rfl ?_ (by decide) (by decide) hn hle ?_ ?_
  · show s.state ≠ _
    rw [hs]
    decide
  · intro k hk
    simp only [Placed, Regs.advance, hs]
    exact ⟨hv, trivial, hk⟩
  · simp only [Placed, Regs.advance, hv]
    decide

theorem heads_src {s : Regs} {n : Nat} (hs : s.state = .src) (h : Placed s n) (d : BitVec 8) :
    Heads s d (s.srcByte d) n := by
  simp only [Placed, hs] at h
  obtain ⟨hv, hn, hle⟩ := h
  refine heads_field rfl rfl rfl rfl rfl rfl rfl ?_ (by decide) (by decide) hn hle ?_ ?_
  · show s.state ≠ _
    rw [hs]
    decide
  · intro k hk
    simp only [Placed, Regs.advance, hs]
    exact ⟨hv, trivial, hk⟩
  · simp only [Placed, Regs.advance, hv]
    decide

theorem heads_vlan {s : Regs} {n : Nat} (hs : s.state = .vlan) (h : Placed s n) (d : BitVec 8) :
    Heads s d (s.vlanByte d) n := by
  simp only [Placed, hs] at h
  obtain ⟨hv, hn, hle⟩ := h
  refine heads_field rfl rfl rfl rfl rfl rfl rfl ?_ (by decide) (by decide) hn hle ?_ ?_
  · show s.state ≠ _
    rw [hs]
    decide
  · intro k hk
    simp only [Placed, Regs.advance, hs]
    exact ⟨hv, trivial, hk⟩
  · simp only [Placed, Regs.advance, hv]
    decide

theorem heads_type {s : Regs} {n : Nat} (hs : s.state = .type) (h : Placed s n) (d : BitVec 8) :
    Heads s d (s.typeByte d) n := by
  simp only [Placed, hs] at h
  obtain ⟨hn, hle⟩ := h
  rw [Regs.typeByte]
  by_cases hk : s.hdrCnt = 1
  · have hk1 : s.hdrCnt.toNat = 1 := by rw [hk]; rfl
    rw [if_pos hk]
    split_ifs with hv
    · refine ⟨rfl, rfl, rfl, rfl, rfl, StateE.noConfusion, ?_, fun _ => rfl⟩
      have hseen : s.vlanSeen = false := by
        simp only [Bool.and_eq_true, Bool.not_eq_true'] at hv
        exact hv.1
      rw [hseen] at hn
      refine ⟨rfl, ?_, Nat.zero_le _⟩
      show n + 1 = 14 + 0
      simp at hn
      omega
    · refine ⟨rfl, rfl, rfl, rfl, rfl, StateE.noConfusion, ?_, fun hx => absurd rfl hx⟩
      show 14 ≤ n + 1 ∧ n + 1 ≤ 1522
      split at hn <;> omega
  · have hk0 : s.hdrCnt.toNat = 0 := by
      have hne : s.hdrCnt.toNat ≠ 1 := fun he => hk (BitVec.eq_of_toNat_eq he)
      omega
    have h0 : s.hdrCnt = 0 := BitVec.eq_of_toNat_eq hk0
    rw [if_neg hk]
    refine ⟨rfl, rfl, rfl, rfl, rfl, ?_, ?_, fun _ => rfl⟩
    · show s.state ≠ _
      rw [hs]
      decide
    · simp only [Placed, Regs.advance, hs, hn, h0]
      exact ⟨rfl, by decide⟩

/-- A byte of the header. -/
theorem Sane.header (h : Sane w) (hq : Quiet w.regs) (hs : w.regs.state ≠ .hunt)
    (hp : w.regs.state ≠ .payload) (p : Params) {i : Inputs} (hr : i.rst = false)
    (hv : i.valid = true) : Sane (w.posedge p i) := by
  have hplace := (h.inFrame hs).place
  apply h.heads hq hs hp p hr hv
  rw [Regs.byte]
  cases hst : w.regs.state with
  | hunt => exact absurd hst hs
  | dst => exact heads_dst hst hplace i.data
  | src => exact heads_src hst hplace i.data
  | type => exact heads_type hst hplace i.data
  | vlan => exact heads_vlan hst hplace i.data
  | payload => exact absurd hst hp

/-! ## The payload -/

/-- The beats after a byte of the payload. -/
def beatsNxt (s : Regs) (d : BitVec 8) (beats : List Bool) : List Bool :=
  beats ++ if s.plEmit then [s.plLastW d] else []

section Payload

variable {s : Regs} {d : BitVec 8} {beats : List Bool}

theorem Streamed.unmarked (h : Streamed s beats) (hm : s.lenMode = true → s.plCnt ≠ s.lenField) :
    true ∉ beats := by
  rcases h.last with h0 | ⟨hmode, heq, -⟩ | ⟨-, hn⟩
  · simp [h0]
  · exact absurd heq (hm hmode)
  · exact hn

/-- A byte leaves the holdback only while the payload is short of its length. -/
theorem Streamed.emits (h : Streamed s beats) (hlen : beats.length ≤ 1522)
    (he : s.plEmit = true) : s.dlyCnt.toNat = 4 ∧ s.plCntNxt.toNat = s.plCnt.toNat + 1 ∧
      (s.lenMode = true → s.plCnt.toNat < s.lenField.toNat) ∧ true ∉ beats := by
  have hone : s.plCntNxt.toNat = s.plCnt.toNat + 1 := by
    have hcount := h.count
    rw [Regs.plCntNxt, he, if_pos rfl, BitVec.toNat_add]
    exact Nat.mod_eq_of_lt (show s.plCnt.toNat + 1 < 65536 by omega)
  simp only [Regs.plEmit, Bool.and_eq_true, decide_eq_true_eq, Bool.not_eq_true',
    Bool.and_eq_false_iff, decide_eq_false_iff_not, BitVec.not_le] at he
  obtain ⟨⟨-, hdly⟩, hmode⟩ := he
  have hlt : s.lenMode = true → s.plCnt.toNat < s.lenField.toNat := by
    intro hm
    rcases hmode with hf | hlt
    · rw [hm] at hf
      cases hf
    · exact BitVec.lt_def.mp hlt
  refine ⟨by rw [hdly]; rfl, hone, hlt, h.unmarked fun hm heq => ?_⟩
  have := hlt hm
  rw [heq] at this
  exact absurd this (Nat.lt_irrefl _)

theorem Streamed.stays (d : BitVec 8) (beats : List Bool) (he : s.plEmit = false) :
    s.plCntNxt = s.plCnt ∧ beatsNxt s d beats = beats := by
  constructor
  · rw [Regs.plCntNxt, he, if_neg (by simp)]
    exact BitVec.add_zero _
  · rw [beatsNxt, he, if_neg (by simp), List.append_nil]

theorem Streamed.count_next (h : Streamed s beats) (hlen : beats.length ≤ 1522) :
    s.plCntNxt.toNat = (beatsNxt s d beats).length := by
  cases he : s.plEmit with
  | true =>
    rw [(h.emits hlen he).2.1, h.count, beatsNxt, he, if_pos rfl, List.length_append]
    rfl
  | false =>
    obtain ⟨hc, hb⟩ := Streamed.stays d beats he
    rw [hc, hb, h.count]

theorem Streamed.limit_next (h : Streamed s beats) (hlen : beats.length ≤ 1522)
    (hm : s.lenMode = true) : s.plCntNxt ≤ s.lenField := by
  cases he : s.plEmit with
  | true =>
    obtain ⟨-, hone, hlt, -⟩ := h.emits hlen he
    rw [BitVec.le_def, hone]
    exact hlt hm
  | false =>
    rw [(Streamed.stays 0 beats he).1]
    exact h.limit hm

theorem Streamed.full_next (h : Streamed s beats) (hlen : beats.length ≤ 1522)
    (hb : beatsNxt s d beats ≠ []) : s.dlyCnt.toNat = 4 := by
  cases he : s.plEmit with
  | true => exact (h.emits hlen he).1
  | false =>
    rw [(Streamed.stays d beats he).2] at hb
    exact h.full hb

/-- At most the last beat is marked. -/
theorem Streamed.once_next (h : Streamed s beats) (hlen : beats.length ≤ 1522) :
    (beatsNxt s d beats).count true ≤ 1 := by
  cases he : s.plEmit with
  | true =>
    rw [beatsNxt, he, if_pos rfl, List.count_append,
      List.count_eq_zero.mpr (h.emits hlen he).2.2.2, Nat.zero_add]
    exact List.count_le_length
  | false =>
    rw [(Streamed.stays d beats he).2]
    rcases h.last with h0 | ⟨-, -, bs, h1, h2⟩ | ⟨-, hn⟩
    · simp [h0]
    · rw [h1, List.count_append, List.count_eq_zero.mpr h2, Nat.zero_add]
      exact List.count_le_length
    · rw [List.count_eq_zero.mpr hn]
      exact Nat.zero_le _

/-- When the checksum is met and something has been streamed, the last beat is marked. -/
theorem Streamed.last_hit (h : Streamed s beats) (hlen : beats.length ≤ 1522)
    (hs : s.state = .payload) (hhit : s.crcHit d = true) (hb : beatsNxt s d beats ≠ []) :
    ∃ bs, beatsNxt s d beats = bs ++ [true] ∧ true ∉ bs := by
  cases he : s.plEmit with
  | true =>
    refine ⟨beats, ?_, (h.emits hlen he).2.2.2⟩
    rw [beatsNxt, he, if_pos rfl, Regs.plLastW, hhit, Bool.true_or]
  | false =>
    -- the holdback is full, so that only the length field has kept the byte back
    have hfull := h.full_next hlen hb
    rw [(Streamed.stays d beats he).2] at hb ⊢
    have hdly : s.dlyCnt = BitVec.ofNat 3 FCS_BYTES := BitVec.eq_of_toNat_eq hfull
    simp only [Regs.plEmit, hs, hdly, decide_true, Bool.true_and, Bool.not_eq_false',
      Bool.and_eq_true, decide_eq_true_eq] at he
    obtain ⟨hmode, hle⟩ := he
    have heq : s.plCnt = s.lenField := BitVec.le_antisymm (h.limit hmode) hle
    rcases h.last with h0 | ⟨-, -, hlast⟩ | ⟨hne, -⟩
    · exact absurd h0 hb
    · exact hlast
    · exact absurd heq (hne hmode)

/-- The marking as the frame goes on. -/
theorem Streamed.last_next (h : Streamed s beats) (hlen : beats.length ≤ 1522)
    (hhit : s.crcHit d = false) : beatsNxt s d beats = [] ∨
      s.lenMode = true ∧ s.plCntNxt = s.lenField ∧
        (∃ bs, beatsNxt s d beats = bs ++ [true] ∧ true ∉ bs) ∨
      (s.lenMode = true → s.plCntNxt ≠ s.lenField) ∧ true ∉ beatsNxt s d beats := by
  cases he : s.plEmit with
  | true =>
    have hn := (h.emits hlen he).2.2.2
    rw [beatsNxt, he, if_pos rfl, Regs.plLastW, hhit, Bool.false_or]
    apply Or.inr
    by_cases hm : s.lenMode = true ∧ s.plCntNxt = s.lenField
    · refine Or.inl ⟨hm.1, hm.2, beats, ?_, hn⟩
      simp [hm.1, hm.2]
    · refine Or.inr ⟨fun hmode heq => hm ⟨hmode, heq⟩, ?_⟩
      have hlast : (s.lenMode && decide (s.plCntNxt = s.lenField)) = false := by
        simpa using hm
      rw [hlast]
      simpa using hn
  | false =>
    obtain ⟨hc, hb⟩ := Streamed.stays d beats he
    rw [hc, hb]
    exact h.last

end Payload

theorem payloadByte_beats {s : Regs} (hq : Quiet s) (d : BitVec 8) (p : Params)
    (beats : List Bool) :
    (beats ++ if (s.payloadByte d p).out.plValid then [(s.payloadByte d p).out.plLast] else []) =
      beatsNxt s d beats := by
  obtain ⟨-, hpl, hlast⟩ := hq.out
  have hout : (s.payloadByte d p).out.plValid = s.plEmit ∧
      (s.plEmit = true → (s.payloadByte d p).out.plLast = s.plLastW d) := by
    cases he : s.plEmit <;> rw [Regs.payloadByte] <;> split_ifs <;>
      simp [Regs.publish, Regs.emitted, he, hpl]
  rw [beatsNxt, hout.1]
  cases he : s.plEmit with
  | true => rw [if_pos rfl, if_pos rfl, hout.2 he]
  | false => rfl

/-- A byte of the payload, and with it perhaps the result. -/
theorem Sane.payload (h : Sane w) (hq : Quiet w.regs) (hs : w.regs.state = .payload) (m k : Nat)
    {i : Inputs} (hr : i.rst = false) (hv : i.valid = true) :
    Sane (w.posedge ⟨1522, m, k⟩ i) := by
  obtain ⟨hvalid, -, -⟩ := hq.out
  have hne : w.regs.state ≠ .hunt := by simp [hs]
  have hin := h.inFrame hne
  have hstr := hin.streamed
  have hplace : 14 ≤ w.body.length ∧ w.body.length ≤ 1522 := by
    have hp := hin.place
    rwa [Placed, hs] at hp
  have hlen : w.beats.length ≤ 1522 := Nat.le_trans hin.fewer hplace.2
  have hturns : Alternates w.marks false := by simpa [hs] using h.turns
  have hframe : w.regs.frameBytesNxt.toNat = w.body.length + 1 := by
    rw [Regs.frameBytesNxt, BitVec.toNat_add, hin.count]
    exact Nat.mod_eq_of_lt (show w.body.length + 1 < 65536 by omega)
  have hcnt := hstr.count_next (d := i.data) hlen
  have hfew : (beatsNxt w.regs i.data w.beats).length ≤ w.body.length + 1 := by
    have hle : (beatsNxt w.regs i.data w.beats).length ≤ w.beats.length + 1 := by
      rw [beatsNxt, List.length_append]
      split <;> simp
    exact Nat.le_trans hle (Nat.succ_le_succ hin.fewer)
  have hdly : (if w.regs.dlyCnt ≠ BitVec.ofNat 3 FCS_BYTES then w.regs.dlyCnt + 1
      else w.regs.dlyCnt).toNat = min 4 (w.regs.dlyCnt.toNat + 1) := by
    have hle := hstr.held
    split_ifs with h4
    · have hne4 : w.regs.dlyCnt.toNat ≠ 4 := fun he => h4 (BitVec.eq_of_toNat_eq he)
      rw [BitVec.toNat_add]
      show (w.regs.dlyCnt.toNat + 1) % 8 = _
      omega
    · rw [not_not.mp h4]
      rfl
  have hbyte : w.regs.byte i.data ⟨1522, m, k⟩ = w.regs.payloadByte i.data ⟨1522, m, k⟩ := by
    rw [Regs.byte, hs]
  have hover : w.regs.oversizeW ⟨1522, m, k⟩ = true ↔ 1522 < w.body.length + 1 := by
    rw [Regs.oversizeW, Bool.and_eq_true, decide_eq_true_eq, decide_eq_true_eq, BitVec.lt_def,
      hframe]
    exact ⟨fun hx => hx.2, fun hx => ⟨hne, hx⟩⟩
  rw [posedge_byte _ hq hr hv, if_neg hne, hbyte, payloadByte_beats hq]
  by_cases hclose : (w.regs.crcHit i.data || w.regs.oversizeW ⟨1522, m, k⟩) = true
  · -- the result is published
    rw [Regs.payloadByte, if_pos hclose]
    refine ⟨?_, ?_, ?_, ?_, ?_, fun _ => ⟨?_, ?_, fun hok hpos => ?_⟩, fun _ hx => ?_,
      fun hx => absurd rfl hx⟩
    · rw [List.length_append, List.length_singleton]
      omega
    · show w.regs.frameBytesNxt.toNat ≤ 1523
      omega
    · show w.regs.plCntNxt.toNat ≤ 1523
      omega
    · show (if w.regs.dlyCnt ≠ BitVec.ofNat 3 FCS_BYTES then w.regs.dlyCnt + 1
        else w.regs.dlyCnt).toNat ≤ 4
      omega
    · simpa [hs, Regs.publish] using hturns.pulse
    · exact hcnt.symm
    · exact hstr.once_next hlen
    · refine hstr.last_hit hlen hs hok fun hnil => ?_
      have hz : w.regs.plCntNxt.toNat = 0 := by rw [hcnt, hnil]; rfl
      exact absurd hz (Nat.ne_of_gt hpos)
    · cases hx
  · -- the frame goes on
    rw [Regs.payloadByte, if_neg hclose]
    have hhit : w.regs.crcHit i.data = false := by
      cases hx : w.regs.crcHit i.data with
      | true => exact absurd (by rw [hx, Bool.true_or]) hclose
      | false => rfl
    have hsize : w.body.length + 1 ≤ 1522 := by
      by_contra hx
      exact hclose (by rw [hover.mpr (by omega), Bool.or_true])
    have hlow : (w.regs.emitted i.data w.regs.out).valid = false := by
      rw [Regs.emitted]
      split_ifs
      · exact hvalid
      · exact hvalid
    refine ⟨?_, ?_, ?_, ?_, ?_, fun hx => ?_, fun hx => ?_, fun _ => ?_⟩
    · rw [List.length_append, List.length_singleton]
      omega
    · show w.regs.frameBytesNxt.toNat ≤ 1523
      omega
    · show w.regs.plCntNxt.toNat ≤ 1523
      omega
    · show (if w.regs.dlyCnt ≠ BitVec.ofNat 3 FCS_BYTES then w.regs.dlyCnt + 1
        else w.regs.dlyCnt).toNat ≤ 4
      omega
    · simpa [hs, hlow, Regs.advance] using hturns
    · rw [hlow] at hx
      cases hx
    · exact absurd hx hne
    · refine ⟨hlow, ?_, ?_, ?_, ?_, fun hx => absurd hs hx, ?_, ?_, ?_, ?_, ?_⟩
      · show w.regs.crcNxt i.data = _
        rw [Regs.crcNxt, hin.crc, List.foldl_concat]
      · show w.regs.frameBytesNxt.toNat = _
        rw [hframe, List.length_append, List.length_singleton]
      · rw [List.length_append, List.length_singleton]
        simp only [Placed, Regs.advance, hs]
        omega
      · rw [List.length_append, List.length_singleton]
        exact hfew
      · exact hcnt
      · exact fun hm => hstr.limit_next hlen hm
      · show (if w.regs.dlyCnt ≠ BitVec.ofNat 3 FCS_BYTES then w.regs.dlyCnt + 1
          else w.regs.dlyCnt).toNat ≤ 4
        omega
      · intro hb
        have hfull := hstr.full_next hlen hb
        show (if w.regs.dlyCnt ≠ BitVec.ofNat 3 FCS_BYTES then w.regs.dlyCnt + 1
          else w.regs.dlyCnt).toNat = 4
        omega
      · exact hstr.last_next hlen hhit

/-! ## Runs -/

theorem Sane.posedge (h : Sane w) {i : Inputs} (hr : i.rst = false) : Sane (w.posedge {} i) := by
  cases hv : i.valid with
  | false =>
    rw [posedge_idle {} hr hv]
    exact h.rest
  | true =>
    have h' : Sane (w.posedge {} {}) := by
      rw [posedge_idle (i := {}) {} rfl rfl]
      exact h.rest
    have hq : Quiet (w.posedge {} {}).regs := by
      rw [posedge_idle (i := {}) {} rfl rfl]
      rfl
    rw [← posedge_after_idle {} hr]
    by_cases hs : (w.posedge {} {}).regs.state = .hunt
    · exact h'.hunting hq hs {} hr hv
    · by_cases hp : (w.posedge {} {}).regs.state = .payload
      · exact h'.payload hq hp 64 4 hr hv
      · exact h'.header hq hs hp {} hr hv

theorem Sane.run {is : List Inputs} (h : Sane w) (hr : ∀ i ∈ is, i.rst = false) :
    Sane (w.run {} is) := by
  induction is generalizing w with
  | nil => exact h
  | cons i is ih =>
    exact ih (h.posedge (hr i List.mem_cons_self)) fun j hj => hr j (List.mem_cons_of_mem i hj)

theorem sane_reset (w : Watch) (p : Params) {i : Inputs} (hr : i.rst = true) :
    Sane (w.posedge p i) := by
  have hw : w.posedge p i = { regs := {} } := by
    rw [Watch.posedge, Regs.posedge, hr]
    rfl
  rw [hw]
  refine ⟨Nat.zero_le _, Nat.zero_le _, Nat.zero_le _, Nat.zero_le _, ⟨0, rfl⟩, ?_, fun _ _ => rfl,
    fun hx => absurd rfl hx⟩
  intro hx
  cases hx

end Watch

open Watch

/-- After a reset, on any bytes: a frame takes at most 1523 of them, the counters count it
without wrapping, every lock has its one result before the next, and a result agrees with the
beats since the one before. -/
theorem stream_robust (w₀ : Watch) (i₀ : Inputs) (is : List Inputs) (h₀ : i₀.rst = true)
    (hr : ∀ i ∈ is, i.rst = false) :
    let w := (w₀.posedge {} i₀).run {} is
    w.body.length ≤ 1523 ∧
      (w.regs.state ≠ .hunt →
        w.regs.frameBytes.toNat = w.body.length ∧ w.regs.plCnt.toNat = w.beats.length) ∧
      w.regs.frameBytes.toNat ≤ 1523 ∧ w.regs.plCnt.toNat ≤ 1523 ∧ w.regs.dlyCnt.toNat ≤ 4 ∧
      Alternates w.marks (w.regs.state = .hunt) ∧
      (w.regs.out.valid = true → Told w.regs.out w.beats) := by
  have h := (sane_reset w₀ {} h₀).run hr
  refine ⟨h.body, fun hs => ?_, h.frameBytes, h.plCnt, h.dlyCnt, h.turns, h.told⟩
  have hin := h.inFrame hs
  exact ⟨hin.count, hin.streamed.count⟩

/-- The padded frame twice. -/
def twoFrames : List Inputs := ([paddedFrame, paddedFrame].flatMap Frame.wire).map .ofByte

theorem twoFrames_rst : ∀ i ∈ twoFrames, i.rst = false := by
  intro i hi
  obtain ⟨d, -, rfl⟩ := List.mem_map.mp hi
  rfl

/-- The extractor after a reset, watched from there. -/
abbrev watched (is : List Inputs) : Watch :=
  (Watch.posedge ⟨{}, [], [], []⟩ {} { rst := true }).run {} is

/-- Each is locked on and reported, and the second report says what has been seen of it. -/
theorem stream_robust_frames : Alternates (watched twoFrames).marks true ∧
    (watched twoFrames).marks = [.lock, .pulse, .lock, .pulse] ∧
    (watched twoFrames).regs.out.fcsOk = true ∧ Told (watched twoFrames).regs.out [true] := by
  have h : (watched twoFrames).regs.state = .hunt ∧
      (watched twoFrames).marks = [.lock, .pulse, .lock, .pulse] ∧
      (watched twoFrames).beats = [true] ∧ (watched twoFrames).regs.out.valid = true ∧
      (watched twoFrames).regs.out.fcsOk = true := by
    decide +kernel
  obtain ⟨hs, hm, hb, hv, hf⟩ := h
  have hrobust (is : List Inputs) (hr : ∀ i ∈ is, i.rst = false) :
      Alternates (watched is).marks ((watched is).regs.state = .hunt) ∧
        ((watched is).regs.out.valid = true → Told (watched is).regs.out (watched is).beats) :=
    (stream_robust ⟨{}, [], [], []⟩ { rst := true } is rfl hr).2.2.2.2.2
  obtain ⟨hhunt, hbeats⟩ := hrobust twoFrames twoFrames_rst
  have hbeats := hbeats hv
  rw [hb] at hbeats
  rw [hs] at hhunt
  exact ⟨by simpa using hhunt, hm, hf, hbeats⟩

/-! ## The checksum -/

open Lib in
/-- The register meets the residue after its own complement, lowest byte first, and after no
other four bytes. -/
theorem residue_fcs (c : BitVec 32) {ds : List (BitVec 8)} (hl : ds.length = 4) :
    ds.foldl crc32Next c = CRC32_RESIDUE ↔ ds = fcsBytes (~~~c) := by
  have hres : CRC32_RESIDUE = Crc.bits CRC32_POLY 32 (BitVec.allOnes 32) := by decide +kernel
  rw [Bench.foldl_crc, Bench.fcsBytes_eq, hres]
  exact Crc.residue_iff CRC32_POLY (by decide) (n := 4) rfl c hl

/-- So it meets the residue exactly at a checksum of what came before. -/
theorem residue_suffix {ds : List (BitVec 8)} (hl : 4 ≤ ds.length) :
    ds.foldl crc32Next CRC32_INIT = CRC32_RESIDUE ↔ ∃ m, ds = m ++ fcsBytes (crc32Of m) := by
  constructor
  · intro h
    refine ⟨ds.take (ds.length - 4), ?_⟩
    have hlen : (ds.drop (ds.length - 4)).length = 4 := by
      rw [List.length_drop]
      omega
    have hsplit := List.take_append_drop (ds.length - 4) ds
    rw [← hsplit, List.foldl_append, residue_fcs _ hlen] at h
    rw [crc32Of, ← h, hsplit]
  · rintro ⟨m, rfl⟩
    rw [List.foldl_append, residue_fcs _ rfl]
    rfl

/-- The residue identifies the checksum, for messages of any length; and the test that
closes a frame holds exactly when the last four bytes since the start delimiter are the
checksum of all before them. -/
theorem fcs_exact :
    (∀ (m : List (BitVec 8)) (f₀ f₁ f₂ f₃ : BitVec 8),
      (m ++ [f₀, f₁, f₂, f₃]).foldl crc32Next CRC32_INIT = CRC32_RESIDUE ↔
        [f₀, f₁, f₂, f₃] = fcsBytes (~~~m.foldl crc32Next CRC32_INIT)) ∧
    (∀ (w₀ : Watch) (i₀ : Inputs) (is : List Inputs) (d : BitVec 8), i₀.rst = true →
      (∀ i ∈ is, i.rst = false) →
      let w := (w₀.posedge {} i₀).run {} is
      w.regs.state = .payload →
        (w.regs.crcHit d = true ↔ ∃ m, w.body ++ [d] = m ++ fcsBytes (crc32Of m))) := by
  constructor
  · intro m f₀ f₁ f₂ f₃
    rw [List.foldl_append]
    exact residue_fcs _ rfl
  · intro w₀ i₀ is d h₀ hr w hs
    have hin : InFrame w := ((sane_reset w₀ {} h₀).run hr).inFrame (by rw [hs]; decide)
    have hplace : 14 ≤ w.body.length ∧ w.body.length ≤ 1522 := by
      have hp := hin.place
      rwa [Placed, hs] at hp
    have hlen : 4 ≤ (w.body ++ [d]).length := by
      rw [List.length_append, List.length_singleton]
      exact Nat.le_trans (by decide) (Nat.le_succ_of_le hplace.1)
    rw [← residue_suffix hlen, List.foldl_concat, ← hin.crc, Regs.crcHit, Regs.crcNxt]
    simp [hs]

/-- Before the last byte of a frame, that byte closes it and no other would. -/
theorem fcs_exact_last : ∃ w : Watch, w = watched twoFrames.dropLast ∧ w.regs.state = .payload ∧
    (∃ m, w.body ++ [239] = m ++ fcsBytes (crc32Of m)) ∧
    ¬ ∃ m, w.body ++ [238] = m ++ fcsBytes (crc32Of m) := by
  have h : (watched twoFrames.dropLast).regs.state = .payload ∧
      (watched twoFrames.dropLast).regs.crcHit 239 = true ∧
      (watched twoFrames.dropLast).regs.crcHit 238 = false := by
    decide +kernel
  obtain ⟨hs, hhit, hmiss⟩ := h
  have hexact (d : BitVec 8) := fcs_exact.2 ⟨{}, [], [], []⟩ { rst := true } twoFrames.dropLast d
    rfl (fun i hi => twoFrames_rst i (List.mem_of_mem_dropLast hi)) hs
  refine ⟨_, rfl, hs, (hexact 239).mp hhit, fun hm => ?_⟩
  have := (hexact 238).mpr hm
  rw [hmiss] at this
  cases this

end HdlPlayground.Ether
