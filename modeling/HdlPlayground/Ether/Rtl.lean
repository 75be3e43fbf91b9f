import HdlPlayground.Lib.Crc

/-!
# The Ethernet frame extractor

`rtl/ether.sv` register by register. `posedge` is the `always_ff` block: what it reads are
the values before the edge, and a later assignment to a register wins.
-/
namespace HdlPlayground.Ether

open Lib

structure Params where
  maxFrameBytes : Nat := 1522
  minFrameBytes : Nat := 64
  minPreambleLen : Nat := 4

abbrev PREAMBLE_BYTE : BitVec 8 := 0x55
abbrev SFD_BYTE : BitVec 8 := 0xD5
abbrev VLAN_TPID : BitVec 16 := 0x8100
abbrev MAX_LEN_FIELD : BitVec 16 := 1500
abbrev FCS_BYTES : Nat := 4
abbrev CRC32_INIT : BitVec 32 := 0xFFFFFFFF
abbrev CRC32_RESIDUE : BitVec 32 := 0xDEBB20E3
abbrev CRC32_POLY : BitVec 32 := 0xEDB88320

/-- `state_e`. -/
inductive StateE where
  | hunt
  | dst
  | src
  | type
  | vlan
  | payload
deriving DecidableEq, Repr

/-- The output registers. -/
structure Outputs where
  plValid : Bool := false
  plData : BitVec 8 := 0
  plLast : Bool := false
  valid : Bool := false
  dstMac : BitVec 48 := 0
  srcMac : BitVec 48 := 0
  ethertype : BitVec 16 := 0
  payloadBytes : BitVec 16 := 0
  vlanValid : Bool := false
  vlanTci : BitVec 16 := 0
  fcsOk : Bool := false
  errRunt : Bool := false
  errOversize : Bool := false
deriving DecidableEq

structure Regs where
  state : StateE := .hunt
  crc : BitVec 32 := CRC32_INIT
  preCnt : BitVec 3 := 0
  hdrCnt : BitVec 4 := 0
  frameBytes : BitVec 16 := 0
  plCnt : BitVec 16 := 0
  dly : BitVec 32 := 0
  dlyCnt : BitVec 3 := 0
  lenMode : Bool := false
  lenField : BitVec 16 := 0
  vlanSeen : Bool := false
  dstSr : BitVec 48 := 0
  srcSr : BitVec 48 := 0
  typeSr : BitVec 16 := 0
  tciSr : BitVec 16 := 0
  out : Outputs := {}
deriving DecidableEq

structure Inputs where
  rst : Bool := false
  valid : Bool := false
  data : BitVec 8 := 0

/-- `crc32_next`: one byte into the register. -/
def crc32Next (crcIn : BitVec 32) (data : BitVec 8) : BitVec 32 :=
  (fun c : BitVec 32 => if c.getLsbD 0 then (c >>> 1) ^^^ CRC32_POLY else c >>> 1)^[8]
    (crcIn ^^^ (0#24 ++ data))

/-- `{sr[n-1:0], d}`: a byte goes in at the low end. -/
def shiftIn {n : Nat} (sr : BitVec (n + 8)) (d : BitVec 8) : BitVec (n + 8) :=
  sr.extractLsb' 0 n ++ d

namespace Regs

/-! ## Wires -/

variable (s : Regs) (d : BitVec 8)

def crcNxt : BitVec 32 := crc32Next s.crc d

def crcHit : Bool := s.state = .payload && s.crcNxt d = CRC32_RESIDUE

def typeNxt : BitVec 16 := shiftIn s.typeSr d

def frameBytesNxt : BitVec 16 := s.frameBytes + 1

def plEmit : Bool :=
  s.state = .payload && s.dlyCnt = BitVec.ofNat 3 FCS_BYTES && !(s.lenMode && s.lenField ≤ s.plCnt)

def plCntNxt : BitVec 16 := s.plCnt + if s.plEmit then 1 else 0

def plLastW : Bool := s.crcHit d || (s.lenMode && s.plCntNxt = s.lenField)

def oversizeW (p : Params) : Bool :=
  s.state ≠ .hunt && BitVec.ofNat 16 p.maxFrameBytes < s.frameBytesNxt

/-! ## The states -/

/-- Every byte of a frame advances the CRC and the length. -/
def advance : Regs := { s with crc := s.crcNxt d, frameBytes := s.frameBytesNxt }

def hunt (p : Params) : Regs :=
  if d = SFD_BYTE ∧ BitVec.ofNat 3 p.minPreambleLen ≤ s.preCnt then
    { s with
      state := .dst, hdrCnt := 0, frameBytes := 0, plCnt := 0, dlyCnt := 0, crc := CRC32_INIT
      vlanSeen := false, lenMode := false, preCnt := 0 }
  else if d = PREAMBLE_BYTE then
    if s.preCnt ≠ 7 then { s with preCnt := s.preCnt + 1 } else s
  else { s with preCnt := 0 }

/-- The next byte of a field of `n + 1` bytes; the last one leads on to `next`. -/
def header (n : BitVec 4) (next : StateE) : Regs :=
  if s.hdrCnt = n then { s with hdrCnt := 0, state := next } else { s with hdrCnt := s.hdrCnt + 1 }

def dstByte : Regs := { s.advance d with dstSr := shiftIn s.dstSr d }.header 5 .src

def srcByte : Regs := { s.advance d with srcSr := shiftIn s.srcSr d }.header 5 .type

def typeByte : Regs :=
  let t := { s.advance d with typeSr := s.typeNxt d }
  if s.hdrCnt = 1 then
    if !s.vlanSeen && s.typeNxt d = VLAN_TPID then
      { t with hdrCnt := 0, vlanSeen := true, state := .vlan }
    else
      { t with
        hdrCnt := 0, state := .payload, lenMode := s.typeNxt d ≤ MAX_LEN_FIELD
        lenField := s.typeNxt d }
  else { t with hdrCnt := s.hdrCnt + 1 }

def vlanByte : Regs := { s.advance d with tciSr := shiftIn s.tciSr d }.header 1 .type

/-- The result of an extraction. -/
def publish (p : Params) (o : Outputs) : Outputs :=
  { o with
    valid := true
    dstMac := s.dstSr
    srcMac := s.srcSr
    ethertype := s.typeSr
    vlanValid := s.vlanSeen
    vlanTci := s.tciSr
    payloadBytes := s.plCntNxt
    fcsOk := s.crcHit d
    errOversize := !s.crcHit d
    errRunt := s.crcHit d && s.frameBytesNxt < BitVec.ofNat 16 p.minFrameBytes }

/-- The byte that leaves the holdback, if one does. -/
def emitted (o : Outputs) : Outputs :=
  if s.plEmit then
    { o with plValid := true, plData := s.dly.extractLsb' 24 8, plLast := s.plLastW d }
  else o

def payloadByte (p : Params) : Regs :=
  let t :=
    { s.advance d with
      dly := shiftIn s.dly d
      dlyCnt := if s.dlyCnt ≠ BitVec.ofNat 3 FCS_BYTES then s.dlyCnt + 1 else s.dlyCnt
      plCnt := s.plCntNxt
      out := s.emitted d s.out }
  if s.crcHit d || s.oversizeW p then
    { t with out := s.publish d p t.out, state := .hunt, preCnt := 0 }
  else t

/-- The byte `i_data` of a cycle with `i_valid`. -/
def byte (p : Params) : Regs :=
  match s.state with
  | .hunt => s.hunt d p
  | .dst => s.dstByte d
  | .src => s.srcByte d
  | .type => s.typeByte d
  | .vlan => s.vlanByte d
  | .payload => s.payloadByte d p

/-- The pulses default low. -/
def lower : Regs :=
  { s with out := { s.out with valid := false, plValid := false, plLast := false } }

def posedge (p : Params) (i : Inputs) : Regs :=
  if i.rst then {} else if i.valid then s.lower.byte i.data p else s.lower

end Regs

/-! ## What is seen outside -/

/-- The outputs at an `o_valid` pulse, with the payload streamed since the one before. -/
structure Report where
  dstMac : BitVec 48
  srcMac : BitVec 48
  ethertype : BitVec 16
  payloadBytes : BitVec 16
  vlanValid : Bool
  vlanTci : BitVec 16
  fcsOk : Bool
  errRunt : Bool
  errOversize : Bool
  payload : List (BitVec 8)
deriving DecidableEq

def Outputs.report (o : Outputs) (payload : List (BitVec 8)) : Report where
  dstMac := o.dstMac
  srcMac := o.srcMac
  ethertype := o.ethertype
  payloadBytes := o.payloadBytes
  vlanValid := o.vlanValid
  vlanTci := o.vlanTci
  fcsOk := o.fcsOk
  errRunt := o.errRunt
  errOversize := o.errOversize
  payload := payload

/-- `monitor_loop` of the testbench: the payload collected, and the frames reported. -/
structure Monitor where
  gotPayload : List (BitVec 8) := []
  reports : List Report := []

def Monitor.sample (m : Monitor) (o : Outputs) : Monitor :=
  let got := if o.plValid then m.gotPayload ++ [o.plData] else m.gotPayload
  if o.valid then ⟨[], m.reports ++ [o.report got]⟩ else ⟨got, m.reports⟩

/-- The module under a monitor. -/
structure Bench where
  regs : Regs
  monitor : Monitor := {}

def Bench.posedge (b : Bench) (p : Params) (i : Inputs) : Bench where
  regs := b.regs.posedge p i
  monitor := b.monitor.sample (b.regs.posedge p i).out

def Bench.run (p : Params) (b : Bench) (is : List Inputs) : Bench :=
  is.foldl (fun b i => b.posedge p i) b

/-! ## Bytes and idle cycles -/

/-- The byte a cycle presents, if any. -/
def Inputs.byte (i : Inputs) : Option (BitVec 8) := if i.valid then some i.data else none

/-- A cycle that presents a byte. -/
def Inputs.ofByte (d : BitVec 8) : Inputs := { valid := true, data := d }

namespace Bench

variable {p : Params} {b b' : Bench}

/-- Benches that differ in the pulses at most. -/
def Alike (b b' : Bench) : Prop := b.regs.lower = b'.regs.lower ∧ b.monitor = b'.monitor

theorem Alike.posedge (h : Alike b b') (i : Inputs) : b.posedge p i = b'.posedge p i := by
  obtain ⟨regs, monitor⟩ := b
  obtain ⟨regs', monitor'⟩ := b'
  obtain ⟨hr, rfl⟩ := h
  have hpos : regs.posedge p i = regs'.posedge p i := by
    unfold Regs.posedge
    rw [hr]
  rw [posedge, posedge, hpos]

/-- An idle cycle lowers the pulses and nothing else. -/
theorem posedge_idle {i : Inputs} (hr : i.rst = false) (hv : i.valid = false) :
    Alike (b.posedge p i) b := by
  have hreg : b.regs.posedge p i = b.regs.lower := by
    rw [Regs.posedge, hr, hv]
    rfl
  refine ⟨?_, ?_⟩
  · show (b.regs.posedge p i).lower = _
    rw [hreg]
    rfl
  · show b.monitor.sample (b.regs.posedge p i).out = _
    rw [hreg]
    rfl

/-- Idle cycles do not matter, wherever they stand. -/
theorem run_idle {is : List Inputs} (h : Alike b b') (hr : ∀ i ∈ is, i.rst = false) :
    Alike (b.run p is) (b'.run p ((is.filterMap Inputs.byte).map Inputs.ofByte)) := by
  induction is generalizing b b' with
  | nil => exact h
  | cons i is ih =>
    have hri := hr i List.mem_cons_self
    have hrs : ∀ j ∈ is, j.rst = false := fun j hj => hr j (List.mem_cons_of_mem i hj)
    cases hv : i.valid with
    | false =>
      have hnone : i.byte = none := by rw [Inputs.byte, hv]; rfl
      rw [List.filterMap_cons_none hnone]
      have hidle := posedge_idle (b := b) (p := p) hri hv
      exact ih ⟨hidle.1.trans h.1, hidle.2.trans h.2⟩ hrs
    | true =>
      have hsome : i.byte = some i.data := by rw [Inputs.byte, hv]; rfl
      have hi : i = Inputs.ofByte i.data := by
        obtain ⟨rst, valid, data⟩ := i
        obtain rfl : rst = false := hri
        obtain rfl : valid = true := hv
        rfl
      rw [List.filterMap_cons_some hsome]
      have hstep : b.posedge p i = b'.posedge p (.ofByte i.data) := by
        rw [← hi]
        exact h.posedge i
      have halike : Alike (b.posedge p i) (b'.posedge p (.ofByte i.data)) := by
        rw [hstep]
        exact ⟨rfl, rfl⟩
      exact ih halike hrs

end Bench

end HdlPlayground.Ether
