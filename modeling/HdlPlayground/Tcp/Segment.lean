import HdlPlayground.Tcp.Seqnum

/-!
# TCP segment and wire codec

`core/segment.py`. The flag byte is a record of its eight bits; sequence and
acknowledgement numbers are integers, the other header fields naturals, and
`build` masks each field to its wire width as the source does. `struct.pack`
raises on an MSS or window-scale value that does not fit its option field.
-/
namespace HdlPlayground.Tcp

structure Flags where
  fin : Bool := false
  syn : Bool := false
  rst : Bool := false
  psh : Bool := false
  ack : Bool := false
  urg : Bool := false
  ece : Bool := false
  cwr : Bool := false
deriving DecidableEq, Repr

namespace Flags

def toByte (f : Flags) : Nat :=
  f.fin.toNat + 2 * f.syn.toNat + 4 * f.rst.toNat + 8 * f.psh.toNat + 16 * f.ack.toNat +
    32 * f.urg.toNat + 64 * f.ece.toNat + 128 * f.cwr.toNat

def ofByte (n : Nat) : Flags where
  fin := n.testBit 0
  syn := n.testBit 1
  rst := n.testBit 2
  psh := n.testBit 3
  ack := n.testBit 4
  urg := n.testBit 5
  ece := n.testBit 6
  cwr := n.testBit 7

theorem toByte_lt (f : Flags) : f.toByte < 256 := by
  have h (b : Bool) : b.toNat ≤ 1 := Bool.toNat_le b
  have := h f.fin; have := h f.syn; have := h f.rst; have := h f.psh
  have := h f.ack; have := h f.urg; have := h f.ece; have := h f.cwr
  simp only [toByte]
  omega

theorem ofByte_toByte (f : Flags) : ofByte f.toByte = f := by
  obtain ⟨fin, syn, rst, psh, ack, urg, ece, cwr⟩ := f
  cases fin <;> cases syn <;> cases rst <;> cases psh <;> cases ack <;> cases urg <;>
    cases ece <;> cases cwr <;> rfl

end Flags

/-- TCP option kinds. -/
abbrev OPT_EOL : Nat := 0
abbrev OPT_NOP : Nat := 1
abbrev OPT_MSS : Nat := 2
abbrev OPT_WSCALE : Nat := 3

structure TcpSegment where
  srcPort : Nat := 0
  dstPort : Nat := 0
  seq : Int := 0
  ack : Int := 0
  flags : Flags := {}
  window : Nat := 0
  checksum : Nat := 0
  urgentPtr : Nat := 0
  payload : List UInt8 := []
  mss : Option Nat := none
  wscale : Option Nat := none
  rawOptions : List UInt8 := []
deriving DecidableEq, Repr

/-! ## Big-endian fields -/

def be16 (n : Nat) : List UInt8 := [UInt8.ofNat (n / 256), UInt8.ofNat n]

def be32 (n : Nat) : List UInt8 := be16 (n / 65536) ++ be16 n

def u8 (data : List UInt8) (i : Nat) : Nat := (data.getD i 0).toNat

def u16 (data : List UInt8) (i : Nat) : Nat := u8 data i * 256 + u8 data (i + 1)

def u32 (data : List UInt8) (i : Nat) : Nat := u16 data i * 65536 + u16 data (i + 2)

namespace TcpSegment

def syn (s : TcpSegment) : Bool := s.flags.syn
def fin (s : TcpSegment) : Bool := s.flags.fin
def rst (s : TcpSegment) : Bool := s.flags.rst
def ackFlag (s : TcpSegment) : Bool := s.flags.ack

/-- Length in sequence space: data + 1 for SYN + 1 for FIN. -/
def segLen (s : TcpSegment) : Nat := s.payload.length + s.syn.toNat + s.fin.toNat

/-! ## Codec -/

def buildOptions (s : TcpSegment) : Except String (List UInt8) := do
  let mss ← match s.mss with
    | none => pure []
    | some m =>
      if 65535 < m then throw "struct.error"
      else pure ([UInt8.ofNat OPT_MSS, 4] ++ be16 m)
  let wscale ← match s.wscale with
    | none => pure []
    | some w =>
      if 255 < w then throw "struct.error" else pure [UInt8.ofNat OPT_WSCALE, 3, UInt8.ofNat w]
  let opts := mss ++ wscale ++ s.rawOptions
  return opts ++ List.replicate ((4 - opts.length % 4) % 4) (UInt8.ofNat OPT_NOP)

def build (s : TcpSegment) : Except String (List UInt8) := do
  let opts ← s.buildOptions
  let dataOffset := (20 + opts.length) / 4
  let offsetByte := dataOffset % 16 * 16
  let header := be16 (s.srcPort % 65536) ++ be16 (s.dstPort % 65536) ++
    be32 (s.seq % MOD).toNat ++ be32 (s.ack % MOD).toNat ++
    [UInt8.ofNat offsetByte, UInt8.ofNat s.flags.toByte] ++
    be16 (s.window % 65536) ++ be16 (s.checksum % 65536) ++ be16 (s.urgentPtr % 65536)
  return header ++ opts ++ s.payload

/-- The option scan; `fuel` bounds the number of options by the number of bytes. -/
def parseOptionsLoop : Nat → List UInt8 → TcpSegment → TcpSegment
  | 0, _, s => s
  | _ + 1, [], s => s
  | fuel + 1, kind :: rest, s =>
    if kind.toNat = OPT_EOL then s
    else if kind.toNat = OPT_NOP then parseOptionsLoop fuel rest s
    else
      match rest with
      | [] => s
      | len :: tail =>
        if len.toNat < 2 ∨ tail.length + 2 < len.toNat then s
        else
          let body := tail.take (len.toNat - 2)
          let s :=
            if kind.toNat = OPT_MSS ∧ len.toNat = 4 then { s with mss := some (u16 body 0) }
            else if kind.toNat = OPT_WSCALE ∧ len.toNat = 3 then
              { s with wscale := some (u8 body 0) }
            else { s with rawOptions := s.rawOptions ++ kind :: len :: body }
          parseOptionsLoop fuel (tail.drop (len.toNat - 2)) s

def parseOptions (s : TcpSegment) (optBytes : List UInt8) : TcpSegment :=
  parseOptionsLoop optBytes.length optBytes s

def parse (data : List UInt8) : Except String TcpSegment :=
  if data.length < 20 then throw "TCP segment shorter than 20 bytes"
  else
    let dataOffset := u8 data 12 / 16
    let hdrLen := dataOffset * 4
    if hdrLen < 20 ∨ data.length < hdrLen then throw s!"bad data offset {dataOffset}"
    else
      let optBytes := (data.take hdrLen).drop 20
      let seg : TcpSegment :=
        { srcPort := u16 data 0
          dstPort := u16 data 2
          seq := u32 data 4
          ack := u32 data 8
          flags := Flags.ofByte (u8 data 13)
          window := u16 data 14
          checksum := u16 data 16
          urgentPtr := u16 data 18
          payload := data.drop hdrLen }
      pure (seg.parseOptions optBytes)

/-! ## What a parsed segment looks like -/

/-- Header fields in their wire ranges. -/
structure Fits (s : TcpSegment) : Prop where
  seq : 0 ≤ s.seq ∧ s.seq < 4294967296
  ack : 0 ≤ s.ack ∧ s.ack < 4294967296
  window : s.window < 65536

theorem u16_lt (data : List UInt8) (i : Nat) : u16 data i < 65536 := by
  have h (j : Nat) : u8 data j < 256 := (data.getD j 0).toNat_lt
  have h1 := h i
  have h2 := h (i + 1)
  simp only [u16]
  omega

theorem u32_lt (data : List UInt8) (i : Nat) : u32 data i < 4294967296 := by
  have h1 := u16_lt data i
  have h2 := u16_lt data (i + 2)
  simp only [u32]
  omega

/-- The option scan leaves the header fields alone. -/
theorem Fits.parseOptionsLoop {s : TcpSegment} (h : s.Fits) (fuel : Nat) (opts : List UInt8) :
    (TcpSegment.parseOptionsLoop fuel opts s).Fits := by
  induction fuel generalizing opts s with
  | zero => exact h
  | succ fuel ih =>
    cases opts with
    | nil => exact h
    | cons kind rest =>
      unfold TcpSegment.parseOptionsLoop
      split
      · exact h
      · split
        · exact ih h rest
        · cases rest with
          | nil => exact h
          | cons len tail =>
            dsimp only
            split
            · exact h
            · refine ih ?_ _
              split
              · exact ⟨h.seq, h.ack, h.window⟩
              · split
                · exact ⟨h.seq, h.ack, h.window⟩
                · exact ⟨h.seq, h.ack, h.window⟩

/-- Only the decoded options change, the header fields and the payload do not. -/
theorem parseOptionsLoop_header (fuel : Nat) (opts : List UInt8) (s : TcpSegment) :
    ∃ m w r, TcpSegment.parseOptionsLoop fuel opts s =
      { s with mss := m, wscale := w, rawOptions := r } := by
  induction fuel generalizing opts s with
  | zero => exact ⟨s.mss, s.wscale, s.rawOptions, rfl⟩
  | succ fuel ih =>
    cases opts with
    | nil => exact ⟨s.mss, s.wscale, s.rawOptions, rfl⟩
    | cons kind rest =>
      unfold TcpSegment.parseOptionsLoop
      split
      · exact ⟨s.mss, s.wscale, s.rawOptions, rfl⟩
      · split
        · exact ih rest s
        · cases rest with
          | nil => exact ⟨s.mss, s.wscale, s.rawOptions, rfl⟩
          | cons len tail =>
            dsimp only
            split
            · exact ⟨s.mss, s.wscale, s.rawOptions, rfl⟩
            · split
              · exact ih _ { s with mss := _ }
              · split
                · exact ih _ { s with wscale := _ }
                · exact ih _ { s with rawOptions := _ }

theorem fits_of_parse {data : List UInt8} {s : TcpSegment} (h : parse data = .ok s) : s.Fits := by
  unfold parse at h
  split at h
  · cases h
  · dsimp only at h
    split at h
    · cases h
    · obtain rfl := Except.ok.inj h
      have h4 := u32_lt data 4
      have h8 := u32_lt data 8
      refine Fits.parseOptionsLoop ⟨?_, ?_, u16_lt data 14⟩ _ _
      · dsimp only
        omega
      · dsimp only
        omega

/-! ## What survives the wire -/

/-- The segment with every header field reduced to its wire width. -/
def onWire (s : TcpSegment) : TcpSegment :=
  { s with
    srcPort := s.srcPort % 65536
    dstPort := s.dstPort % 65536
    seq := s.seq % MOD
    ack := s.ack % MOD
    window := s.window % 65536
    checksum := s.checksum % 65536
    urgentPtr := s.urgentPtr % 65536 }

/-- The fixed header that `build` writes. -/
def header (s : TcpSegment) (offsetByte : Nat) : List UInt8 :=
  be16 (s.srcPort % 65536) ++ be16 (s.dstPort % 65536) ++
    be32 (s.seq % MOD).toNat ++ be32 (s.ack % MOD).toNat ++
    [UInt8.ofNat offsetByte, UInt8.ofNat s.flags.toByte] ++
    be16 (s.window % 65536) ++ be16 (s.checksum % 65536) ++ be16 (s.urgentPtr % 65536)

def mssOption : Option Nat → List UInt8
  | none => []
  | some m => [UInt8.ofNat OPT_MSS, 4] ++ be16 m

/-- The segments an engine builds: no option but an MSS that fits its field. -/
structure Plain (s : TcpSegment) : Prop where
  mss : ∀ m, s.mss = some m → m ≤ 65535
  wscale : s.wscale = none
  rawOptions : s.rawOptions = []

/-- The octets of a plain segment. -/
def image (s : TcpSegment) : List UInt8 :=
  s.header ((20 + (mssOption s.mss).length) / 4 % 16 * 16) ++ mssOption s.mss ++ s.payload

theorem Plain.build {s : TcpSegment} (h : s.Plain) : s.build = .ok s.image := by
  unfold TcpSegment.build buildOptions
  rw [h.wscale, h.rawOptions]
  cases hm : s.mss with
  | none => simp only [image, hm]; rfl
  | some m =>
    have := h.mss m hm
    simp only [if_neg (show ¬ 65535 < m by omega), image, hm]
    simp [mssOption, be16, header]
    rfl

theorem u16_fields (n : Nat) : n % 65536 / 256 % 256 * 256 + n % 256 = n % 65536 := by
  omega

theorem u32_fields (x : Int) :
    (max (x % MOD) 0 / 65536 / 256 % 256 * 256 + max (x % MOD) 0 / 65536 % 256) * 65536 +
      (max (x % MOD) 0 / 256 % 256 * 256 + max (x % MOD) 0 % 256) = x % MOD := by
  unfold MOD
  omega

/-- Decoding undoes encoding, up to the width of the header fields. -/
theorem Plain.parse {s : TcpSegment} (h : s.Plain) : TcpSegment.parse s.image = .ok s.onWire := by
  have hb : s.flags.toByte % 256 = s.flags.toByte := Nat.mod_eq_of_lt s.flags.toByte_lt
  rw [image]
  cases hm : s.mss with
  | none =>
    simp only [TcpSegment.parse, header, be16, be32, mssOption, u32, u16, u8, List.cons_append,
      List.nil_append, List.append_nil, List.length_cons, List.length_nil]
    simp
    rw [if_neg (by omega), if_neg (by omega)]
    simp only [u16_fields, u32_fields, hb, Flags.ofByte_toByte, onWire, hm, h.wscale,
      h.rawOptions]
    rfl
  | some m =>
    have hm' := h.mss m hm
    have hm2 : m / 256 % 256 * 256 + m % 256 = m := by omega
    simp only [TcpSegment.parse, header, be16, be32, mssOption, u32, u16, u8, List.cons_append,
      List.nil_append, List.length_cons, List.length_nil]
    simp
    rw [if_neg (by omega), if_neg (by omega)]
    simp only [u16_fields, u32_fields, hb, Flags.ofByte_toByte, onWire, hm, h.wscale,
      h.rawOptions, parseOptions, List.length_cons]
    simp [parseOptionsLoop, u16, u8, hm2]
    rfl

end TcpSegment

end HdlPlayground.Tcp
