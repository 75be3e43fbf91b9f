import Mathlib.Order.Basic
import Mathlib.Tactic.SplitIfs
import HdlPlayground.Tcp.Segment

/-!
# TCP options on the wire

An option is a kind, a length and a body. The scan of `_parse_options` takes them one at a
time, skips the padding, and stops where an option does not fit. What it keeps is written
back by `_build_options` in a fixed order, so the second scan finds what the first one kept.
-/
namespace HdlPlayground.Tcp

/-- An option that carries a length. -/
structure TcpOption where
  kind : UInt8
  body : List UInt8
  listed : kind.toNat ≠ OPT_EOL ∧ kind.toNat ≠ OPT_NOP
  short : body.length + 2 ≤ 255

namespace TcpOption

def octets (o : TcpOption) : List UInt8 := o.kind :: UInt8.ofNat (o.body.length + 2) :: o.body

@[simp] theorem length_octets (o : TcpOption) : o.octets.length = o.body.length + 2 := rfl

theorem length_toNat (o : TcpOption) :
    (UInt8.ofNat (o.body.length + 2)).toNat = o.body.length + 2 := by
  have h := o.short
  rw [UInt8.toNat_ofNat']
  omega

/-- An option that is decoded: an MSS or a window scale of the right length. -/
def Decoded (o : TcpOption) : Prop :=
  (o.kind.toNat = OPT_MSS ∧ o.body.length = 2) ∨ (o.kind.toNat = OPT_WSCALE ∧ o.body.length = 1)

end TcpOption

namespace TcpSegment

variable {s t : TcpSegment} {opts rest : List UInt8}

/-- What the scan does with an option. -/
def takeOption (s : TcpSegment) (o : TcpOption) : TcpSegment :=
  if o.kind.toNat = OPT_MSS ∧ o.body.length = 2 then { s with mss := some (u16 o.body 0) }
  else if o.kind.toNat = OPT_WSCALE ∧ o.body.length = 1 then
    { s with wscale := some (u8 o.body 0) }
  else { s with rawOptions := s.rawOptions ++ o.octets }

/-! ## The scan -/

/-- There is fuel for every byte, so more of it changes nothing. -/
theorem parseOptionsLoop_fuel {n m : Nat} (hn : opts.length ≤ n) (hm : opts.length ≤ m) :
    parseOptionsLoop n opts s = parseOptionsLoop m opts s := by
  induction n generalizing m opts s with
  | zero =>
    obtain rfl := List.length_eq_zero_iff.mp (Nat.le_zero.mp hn)
    cases m <;> rfl
  | succ n ih =>
    cases opts with
    | nil => cases m <;> rfl
    | cons kind rest =>
      cases m with
      | zero => simp at hm
      | succ m =>
        have hn' : rest.length ≤ n := Nat.succ_le_succ_iff.mp hn
        have hm' : rest.length ≤ m := Nat.succ_le_succ_iff.mp hm
        unfold parseOptionsLoop
        split
        · rfl
        · split
          · exact ih hn' hm'
          · cases rest with
            | nil => rfl
            | cons len tail =>
              rw [List.length_cons] at hn' hm'
              dsimp only
              split
              · rfl
              · apply ih
                · rw [List.length_drop]; omega
                · rw [List.length_drop]; omega

theorem parseOptionsLoop_eq {n : Nat} (hn : opts.length ≤ n) :
    parseOptionsLoop n opts s = s.parseOptions opts :=
  parseOptionsLoop_fuel hn (Nat.le_refl _)

theorem parseOptions_nop : s.parseOptions (UInt8.ofNat OPT_NOP :: rest) = s.parseOptions rest := by
  show parseOptionsLoop (rest.length + 1) (UInt8.ofNat OPT_NOP :: rest) s = _
  unfold parseOptionsLoop
  rw [if_neg (by decide), if_pos (by decide)]
  rfl

theorem parseOptions_padding (n : Nat) :
    s.parseOptions (List.replicate n (UInt8.ofNat OPT_NOP)) = s := by
  induction n with
  | zero => rfl
  | succ n ih =>
    rw [List.replicate_succ, parseOptions_nop]
    exact ih

/-- An option at the front is taken. -/
theorem parseOptions_octets (o : TcpOption) :
    s.parseOptions (o.octets ++ rest) = (s.takeOption o).parseOptions rest := by
  have hl := o.length_toNat
  have hlen : ((o.octets ++ rest).length) = (o.body ++ rest).length + 1 + 1 := rfl
  show parseOptionsLoop (o.octets ++ rest).length
    (o.kind :: UInt8.ofNat (o.body.length + 2) :: (o.body ++ rest)) s = _
  rw [hlen]
  unfold parseOptionsLoop
  rw [if_neg o.listed.1, if_neg o.listed.2]
  dsimp only
  rw [hl, if_neg (by rw [List.length_append]; omega)]
  have htake : (o.body ++ rest).take (o.body.length + 2 - 2) = o.body := by
    rw [Nat.add_sub_cancel, List.take_left]
  have hdrop : (o.body ++ rest).drop (o.body.length + 2 - 2) = rest := by
    rw [Nat.add_sub_cancel, List.drop_left]
  rw [htake, hdrop, parseOptionsLoop_eq (by rw [List.length_append]; omega), takeOption]
  congr 1
  have h2 : o.body.length + 2 = 4 ↔ o.body.length = 2 := by omega
  have h3 : o.body.length + 2 = 3 ↔ o.body.length = 1 := by omega
  simp only [h2, h3]
  rfl

/-- The scan stops, skips a byte of padding, or takes an option. -/
theorem parseOptions_cases (s : TcpSegment) (opts : List UInt8) :
    s.parseOptions opts = s ∨
    (∃ rest, rest.length < opts.length ∧ s.parseOptions opts = s.parseOptions rest) ∨
    ∃ (o : TcpOption) (rest : List UInt8), opts = o.octets ++ rest := by
  cases opts with
  | nil => exact Or.inl rfl
  | cons kind rest =>
    by_cases he : kind.toNat = OPT_EOL
    · apply Or.inl
      show parseOptionsLoop (rest.length + 1) (kind :: rest) s = s
      unfold parseOptionsLoop
      rw [if_pos he]
    by_cases hp : kind.toNat = OPT_NOP
    · refine Or.inr (Or.inl ⟨rest, Nat.lt_succ_self _, ?_⟩)
      show parseOptionsLoop (rest.length + 1) (kind :: rest) s = _
      unfold parseOptionsLoop
      rw [if_neg he, if_pos hp]
      rfl
    cases rest with
    | nil =>
      apply Or.inl
      show parseOptionsLoop (0 + 1) [kind] s = s
      unfold parseOptionsLoop
      rw [if_neg he, if_neg hp]
    | cons len tail =>
      by_cases hl : len.toNat < 2 ∨ tail.length + 2 < len.toNat
      · apply Or.inl
        show parseOptionsLoop (tail.length + 1 + 1) (kind :: len :: tail) s = s
        unfold parseOptionsLoop
        rw [if_neg he, if_neg hp]
        dsimp only
        rw [if_pos hl]
      · have hb : (tail.take (len.toNat - 2)).length + 2 = len.toNat := by
          rw [List.length_take]
          omega
        have hlt := len.toNat_lt
        refine Or.inr (Or.inr ⟨⟨kind, tail.take (len.toNat - 2), ⟨he, hp⟩, by omega⟩,
          tail.drop (len.toNat - 2), ?_⟩)
        show kind :: len :: tail = kind :: UInt8.ofNat ((tail.take (len.toNat - 2)).length + 2) ::
          (tail.take (len.toNat - 2) ++ tail.drop (len.toNat - 2))
        rw [hb, UInt8.ofNat_toNat, List.take_append_drop]

/-- So the scan takes some options, that lie one after another in what is scanned. -/
theorem parseOptions_taken (s : TcpSegment) (opts : List UInt8) : ∃ os : List TcpOption,
    s.parseOptions opts = os.foldl takeOption s ∧
    (os.flatMap TcpOption.octets).length ≤ opts.length := by
  induction hn : opts.length using Nat.strongRecOn generalizing s opts with
  | ind n ih =>
    rcases parseOptions_cases s opts with h | ⟨rest, hlt, h⟩ | ⟨o, rest, rfl⟩
    · exact ⟨[], h, by simp⟩
    · obtain ⟨os, h', hle⟩ := ih rest.length (by omega) s rest rfl
      exact ⟨os, by rw [h, h'], by omega⟩
    · rw [List.length_append, o.length_octets] at hn
      obtain ⟨os, h', hle⟩ := ih rest.length (by omega) (s.takeOption o) rest rfl
      refine ⟨o :: os, by rw [parseOptions_octets, h', List.foldl_cons], ?_⟩
      rw [List.flatMap_cons, List.length_append, o.length_octets]
      omega

/-! ## What a scan keeps -/

/-- The bytes of the options, without the padding. -/
def optionBytes (s : TcpSegment) : Nat :=
  (if s.mss.isSome then 4 else 0) + (if s.wscale.isSome then 3 else 0) + s.rawOptions.length

/-- The decoded options fit their fields, and the others are a list of options. -/
structure Tidy (s : TcpSegment) : Prop where
  mss : ∀ m ∈ s.mss, m ≤ 65535
  wscale : ∀ w ∈ s.wscale, w ≤ 255
  raw : ∃ os : List TcpOption, (∀ o ∈ os, ¬ o.Decoded) ∧ s.rawOptions = os.flatMap TcpOption.octets

theorem Tidy.takeOption (h : s.Tidy) (o : TcpOption) : (s.takeOption o).Tidy := by
  unfold TcpSegment.takeOption
  split_ifs with hm hw
  · refine ⟨fun m hm => ?_, h.wscale, h.raw⟩
    obtain rfl := Option.some.inj hm
    have := u16_lt o.body 0
    omega
  · refine ⟨h.mss, fun w hw => ?_, h.raw⟩
    obtain rfl := Option.some.inj hw
    have : u8 o.body 0 < 256 := (o.body.getD 0 0).toNat_lt
    omega
  · obtain ⟨os, hos, hraw⟩ := h.raw
    refine ⟨h.mss, h.wscale, os ++ [o], fun p hp => ?_, by simp [hraw]⟩
    rcases List.mem_append.mp hp with hp | hp
    · exact hos p hp
    · obtain rfl := List.mem_singleton.mp hp
      rintro (hd | hd)
      · exact hm hd
      · exact hw hd

theorem takeOption_bytes (s : TcpSegment) (o : TcpOption) :
    (s.takeOption o).optionBytes ≤ s.optionBytes + o.octets.length := by
  have hl := o.length_octets
  unfold TcpSegment.takeOption
  split_ifs with hm hw
  · simp only [optionBytes, Option.isSome_some, if_true]
    split <;> omega
  · simp only [optionBytes, Option.isSome_some, if_true]
    split <;> omega
  · simp only [optionBytes, List.length_append]
    omega

theorem Tidy.taken (h : s.Tidy) (os : List TcpOption) : (os.foldl TcpSegment.takeOption s).Tidy ∧
    (os.foldl TcpSegment.takeOption s).optionBytes ≤
      s.optionBytes + (os.flatMap TcpOption.octets).length := by
  induction os generalizing s with
  | nil => exact ⟨h, Nat.le_refl _⟩
  | cons o os ih =>
    obtain ⟨ht, hle⟩ := ih (h.takeOption o)
    have := takeOption_bytes s o
    rw [List.flatMap_cons, List.length_append]
    exact ⟨ht, by rw [List.foldl_cons]; omega⟩

/-! ## What is written back -/

def wscaleOption : Option Nat → List UInt8
  | none => []
  | some w => [UInt8.ofNat OPT_WSCALE, 3, UInt8.ofNat w]

/-- The option field of a segment. -/
def optionField (s : TcpSegment) : List UInt8 :=
  let opts := mssOption s.mss ++ wscaleOption s.wscale ++ s.rawOptions
  opts ++ List.replicate ((4 - opts.length % 4) % 4) (UInt8.ofNat OPT_NOP)

/-- The data offset that `build` writes, in four bits. -/
def dataOffset (s : TcpSegment) : Nat := (20 + s.optionField.length) / 4 % 16

/-- The octets of a segment. -/
def octets (s : TcpSegment) : List UInt8 :=
  s.header (s.dataOffset * 16) ++ s.optionField ++ s.payload

/-- A decoded option that does not fit its field: `struct.pack` raises. -/
def PackFails (s : TcpSegment) : Prop := (∃ m ∈ s.mss, 65535 < m) ∨ ∃ w ∈ s.wscale, 255 < w

theorem length_optionField (s : TcpSegment) :
    s.optionField.length = (s.optionBytes + 3) / 4 * 4 := by
  have hm : (mssOption s.mss).length = if s.mss.isSome then 4 else 0 := by
    cases s.mss <;> rfl
  have hw : (wscaleOption s.wscale).length = if s.wscale.isSome then 3 else 0 := by
    cases s.wscale <;> rfl
  have hlen :
      (mssOption s.mss ++ wscaleOption s.wscale ++ s.rawOptions).length = s.optionBytes := by
    rw [List.length_append, List.length_append, hm, hw, optionBytes]
  show (_ ++ List.replicate _ _ : List UInt8).length = _
  rw [List.length_append, List.length_replicate, hlen]
  omega

theorem buildOptions_ok (h : ¬ s.PackFails) : s.buildOptions = .ok s.optionField := by
  have hm : ∀ m, s.mss = some m → ¬ 65535 < m := fun m hm hlt => h (Or.inl ⟨m, hm, hlt⟩)
  have hw : ∀ w, s.wscale = some w → ¬ 255 < w := fun w hw hlt => h (Or.inr ⟨w, hw, hlt⟩)
  unfold buildOptions optionField
  cases hms : s.mss with
  | none =>
    cases hws : s.wscale with
    | none => rfl
    | some w => simp only [if_neg (hw w hws)]; rfl
  | some m =>
    simp only [if_neg (hm m hms)]
    cases hws : s.wscale with
    | none => rfl
    | some w => simp only [if_neg (hw w hws)]; rfl

theorem buildOptions_raises (h : s.PackFails) : ∃ msg, s.buildOptions = .error msg := by
  unfold buildOptions
  rcases h with ⟨m, hm, hlt⟩ | ⟨w, hw, hlt⟩
  · rw [Option.mem_def.mp hm]
    simp only [if_pos hlt]
    exact ⟨_, rfl⟩
  · rw [Option.mem_def.mp hw]
    simp only [if_pos hlt]
    cases s.mss with
    | none => exact ⟨_, rfl⟩
    | some m =>
      by_cases hm : 65535 < m
      · simp only [if_pos hm]
        exact ⟨_, rfl⟩
      · simp only [if_neg hm]
        exact ⟨_, rfl⟩

theorem build_ok (h : ¬ s.PackFails) : s.build = .ok s.octets := by
  unfold build
  rw [buildOptions_ok h]
  rfl

theorem build_raises (h : s.PackFails) : ∃ msg, s.build = .error msg := by
  obtain ⟨msg, hmsg⟩ := buildOptions_raises h
  refine ⟨msg, ?_⟩
  unfold build
  rw [hmsg]
  rfl

theorem Tidy.packs (h : s.Tidy) : ¬ s.PackFails := by
  rintro (⟨m, hm, hlt⟩ | ⟨w, hw, hlt⟩)
  · exact absurd (h.mss m hm) (Nat.not_le.mpr hlt)
  · exact absurd (h.wscale w hw) (Nat.not_le.mpr hlt)

/-! ## What is read back -/

/-- The segment as the header alone gives it. -/
def headerOnly (s : TcpSegment) (payload : List UInt8) : TcpSegment :=
  { s.onWire with payload := payload, mss := none, wscale := none, rawOptions := [] }

theorem length_header (s : TcpSegment) (n : Nat) : (s.header n).length = 20 := rfl

theorem u8_header {i : Nat} (h : i < 20) (s : TcpSegment) (n : Nat) (rest : List UInt8) :
    u8 (s.header n ++ rest) i = u8 (s.header n) i := by
  rw [u8, u8, List.getD_eq_getElem?_getD, List.getD_eq_getElem?_getD,
    List.getElem?_append_left (by rw [length_header]; exact h)]

theorem u16_header {i : Nat} (h : i + 1 < 20) (s : TcpSegment) (n : Nat) (rest : List UInt8) :
    u16 (s.header n ++ rest) i = u16 (s.header n) i := by
  rw [u16, u16, u8_header (by omega), u8_header h]

theorem u32_header {i : Nat} (h : i + 3 < 20) (s : TcpSegment) (n : Nat) (rest : List UInt8) :
    u32 (s.header n ++ rest) i = u32 (s.header n) i := by
  rw [u32, u32, u16_header (by omega), u16_header (by omega)]

/-- The data offset divides what follows the header into options and payload. -/
theorem parse_header (s : TcpSegment) {k : Nat} (hk : k < 16) (rest : List UInt8) :
    parse (s.header (k * 16) ++ rest) =
      if k * 4 < 20 ∨ 20 + rest.length < k * 4 then .error s!"bad data offset {k}"
      else .ok ((s.headerOnly (rest.drop (k * 4 - 20))).parseOptions (rest.take (k * 4 - 20))) := by
  have hb : s.flags.toByte % 256 = s.flags.toByte := Nat.mod_eq_of_lt s.flags.toByte_lt
  have hlen : (s.header (k * 16) ++ rest).length = 20 + rest.length := by
    rw [List.length_append, length_header]
  have hoff : u8 (s.header (k * 16) ++ rest) 12 / 16 = k := by
    rw [u8_header (by decide)]
    show (UInt8.ofNat (k * 16)).toNat / 16 = k
    rw [UInt8.toNat_ofNat']
    omega
  have hdrop : (s.header (k * 16) ++ rest).drop 20 = rest := List.drop_left' (length_header s _)
  unfold parse
  rw [hlen, hoff, if_neg (by omega)]
  dsimp only
  split_ifs with h
  · rfl
  · have htail : (s.header (k * 16) ++ rest).drop (k * 4) = rest.drop (k * 4 - 20) := by
      rw [← hdrop, List.drop_drop, hdrop]
      congr 1
      omega
    have hopts : ((s.header (k * 16) ++ rest).take (k * 4)).drop 20 = rest.take (k * 4 - 20) := by
      rw [List.drop_take, hdrop]
    rw [htail, hopts]
    have hfields : headerOnly s (rest.drop (k * 4 - 20)) =
        { srcPort := u16 (s.header (k * 16) ++ rest) 0
          dstPort := u16 (s.header (k * 16) ++ rest) 2
          seq := u32 (s.header (k * 16) ++ rest) 4
          ack := u32 (s.header (k * 16) ++ rest) 8
          flags := Flags.ofByte (u8 (s.header (k * 16) ++ rest) 13)
          window := u16 (s.header (k * 16) ++ rest) 14
          checksum := u16 (s.header (k * 16) ++ rest) 16
          urgentPtr := u16 (s.header (k * 16) ++ rest) 18
          payload := rest.drop (k * 4 - 20) } := by
      rw [u16_header (by decide), u16_header (by decide), u32_header (by decide),
        u32_header (by decide), u8_header (by decide), u16_header (by decide),
        u16_header (by decide), u16_header (by decide)]
      simp only [headerOnly, onWire, header, be16, be32, u32, u16, u8, List.cons_append,
        List.nil_append]
      simp [hb, Flags.ofByte_toByte]
      simp only [u16_fields, u32_fields, true_and]
    rw [hfields]
    rfl

theorem parseOptions_list (os : List TcpOption) :
    s.parseOptions (os.flatMap TcpOption.octets ++ rest) =
      (os.foldl takeOption s).parseOptions rest := by
  induction os generalizing s with
  | nil => rfl
  | cons o os ih =>
    rw [List.flatMap_cons, List.append_assoc, parseOptions_octets, ih]
    rfl

/-- Options that are not decoded are kept as they are. -/
theorem foldl_undecoded {os : List TcpOption} (h : ∀ o ∈ os, ¬ o.Decoded) :
    os.foldl takeOption s =
      { s with rawOptions := s.rawOptions ++ os.flatMap TcpOption.octets } := by
  induction os generalizing s with
  | nil => simp
  | cons o os ih =>
    have ho := h o List.mem_cons_self
    have htake : s.takeOption o = { s with rawOptions := s.rawOptions ++ o.octets } := by
      rw [takeOption, if_neg (fun hm => ho (Or.inl hm)), if_neg (fun hw => ho (Or.inr hw))]
    rw [List.foldl_cons, htake, ih fun p hp => h p (List.mem_cons_of_mem _ hp)]
    simp

/-- The MSS option of `_build_options`. -/
def mssOf (m : Nat) : TcpOption := ⟨UInt8.ofNat OPT_MSS, be16 m, by decide, by simp [be16]⟩

def wscaleOf (w : Nat) : TcpOption := ⟨UInt8.ofNat OPT_WSCALE, [UInt8.ofNat w], by decide, by simp⟩

theorem takeOption_mss {m : Nat} (h : m ≤ 65535) :
    s.takeOption (mssOf m) = { s with mss := some m } := by
  have hu : u16 (be16 m) 0 = m := by
    show (UInt8.ofNat (m / 256)).toNat * 256 + (UInt8.ofNat m).toNat = m
    rw [UInt8.toNat_ofNat', UInt8.toNat_ofNat']
    omega
  rw [takeOption, if_pos ⟨rfl, rfl⟩]
  show { s with mss := some (u16 (be16 m) 0) } = _
  rw [hu]

theorem takeOption_wscale {w : Nat} (h : w ≤ 255) :
    s.takeOption (wscaleOf w) = { s with wscale := some w } := by
  have hu : u8 [UInt8.ofNat w] 0 = w := by
    show (UInt8.ofNat w).toNat = w
    rw [UInt8.toNat_ofNat']
    omega
  have hne : ¬ ((wscaleOf w).kind.toNat = OPT_MSS ∧ (wscaleOf w).body.length = 2) :=
    fun h => absurd h.2 (by simp [wscaleOf])
  rw [takeOption, if_neg hne, if_pos ⟨rfl, rfl⟩]
  show { s with wscale := some (u8 [UInt8.ofNat w] 0) } = _
  rw [hu]

theorem parseOptions_mss {m : Option Nat} (hm : ∀ x ∈ m, x ≤ 65535) (hs : s.mss = none) :
    s.parseOptions (mssOption m ++ rest) = { s with mss := m }.parseOptions rest := by
  cases m with
  | none =>
    have heq : { s with mss := none } = s := by rw [← hs]
    rw [heq]
    rfl
  | some m =>
    rw [show mssOption (some m) = (mssOf m).octets from rfl, parseOptions_octets,
      takeOption_mss (hm m rfl)]

theorem parseOptions_wscale {w : Option Nat} (hw : ∀ x ∈ w, x ≤ 255) (hs : s.wscale = none) :
    s.parseOptions (wscaleOption w ++ rest) = { s with wscale := w }.parseOptions rest := by
  cases w with
  | none =>
    have heq : { s with wscale := none } = s := by rw [← hs]
    rw [heq]
    rfl
  | some w =>
    rw [show wscaleOption (some w) = (wscaleOf w).octets from rfl, parseOptions_octets,
      takeOption_wscale (hw w rfl)]

/-- The scan of an option field gives back what it was written from. -/
theorem Tidy.field (h : s.Tidy) (hm : t.mss = none) (hw : t.wscale = none)
    (hr : t.rawOptions = []) :
    t.parseOptions s.optionField =
      { t with mss := s.mss, wscale := s.wscale, rawOptions := s.rawOptions } := by
  obtain ⟨os, hos, hraw⟩ := h.raw
  have hfield : s.optionField = mssOption s.mss ++ (wscaleOption s.wscale ++
      (os.flatMap TcpOption.octets ++ List.replicate
        ((4 - (mssOption s.mss ++ wscaleOption s.wscale ++ s.rawOptions).length % 4) % 4)
        (UInt8.ofNat OPT_NOP))) := by
    rw [← hraw]
    simp only [optionField, List.append_assoc]
  rw [hfield, parseOptions_mss h.mss hm,
    parseOptions_wscale (s := { t with mss := s.mss }) h.wscale hw,
    parseOptions_list, parseOptions_padding, foldl_undecoded hos, ← hraw]
  simp [hr]

/-! ## Round trips -/

/-- Every header field fits its wire width. -/
structure HeaderFits (s : TcpSegment) : Prop where
  srcPort : s.srcPort < 65536
  dstPort : s.dstPort < 65536
  seq : 0 ≤ s.seq ∧ s.seq < 4294967296
  ack : 0 ≤ s.ack ∧ s.ack < 4294967296
  window : s.window < 65536
  checksum : s.checksum < 65536
  urgentPtr : s.urgentPtr < 65536

theorem HeaderFits.onWire (h : s.HeaderFits) : s.onWire = s := by
  have h1 := h.seq
  have h2 := h.ack
  have hseq : s.seq % MOD = s.seq := Int.emod_eq_of_lt h1.1 h1.2
  have hack : s.ack % MOD = s.ack := Int.emod_eq_of_lt h2.1 h2.2
  rw [TcpSegment.onWire, Nat.mod_eq_of_lt h.srcPort, Nat.mod_eq_of_lt h.dstPort, hseq, hack,
    Nat.mod_eq_of_lt h.window, Nat.mod_eq_of_lt h.checksum, Nat.mod_eq_of_lt h.urgentPtr]

theorem dataOffset_lt (s : TcpSegment) : s.dataOffset < 16 := Nat.mod_lt _ (by decide)

/-- What `parse` makes of the octets of a segment. -/
theorem parse_octets (s : TcpSegment) : parse s.octets =
    if s.dataOffset * 4 < 20 ∨ 20 + (s.optionField ++ s.payload).length < s.dataOffset * 4 then
      .error s!"bad data offset {s.dataOffset}"
    else .ok
      ((s.headerOnly ((s.optionField ++ s.payload).drop (s.dataOffset * 4 - 20))).parseOptions
      ((s.optionField ++ s.payload).take (s.dataOffset * 4 - 20))) := by
  rw [octets, List.append_assoc, parse_header s s.dataOffset_lt]

theorem dataOffset_of_le (h : s.optionBytes ≤ 40) :
    s.dataOffset * 4 = 20 + s.optionField.length := by
  have hlen := s.length_optionField
  rw [dataOffset, hlen]
  omega

/-- Options of up to forty bytes come back. -/
theorem Tidy.parse_octets (h : s.Tidy) (hf : s.HeaderFits) (hle : s.optionBytes ≤ 40) :
    parse s.octets = .ok s := by
  have hoff := dataOffset_of_le hle
  have hsub : 20 + s.optionField.length - 20 = s.optionField.length :=
    Nat.add_sub_cancel_left _ _
  rw [TcpSegment.parse_octets, hoff, if_neg, hsub, List.drop_left, List.take_left,
    h.field rfl rfl rfl, headerOnly, hf.onWire]
  rw [List.length_append]
  omega

/-- With more, the data offset wraps, and the options do not end where they should. -/
theorem parse_octets_wrapped (s : TcpSegment) (h : 40 < s.optionBytes) :
    parse s.octets ≠ .ok s := by
  have hlen := s.length_optionField
  have hlt : s.dataOffset * 4 < 20 + s.optionField.length := by
    have := s.dataOffset_lt
    omega
  rw [TcpSegment.parse_octets]
  split_ifs with hb
  · nofun
  · intro heq
    -- the payload read back is longer than the one written
    have hp := congrArg TcpSegment.payload (Except.ok.inj heq)
    obtain ⟨m, w, r, hk⟩ := parseOptionsLoop_header
      ((s.optionField ++ s.payload).take (s.dataOffset * 4 - 20)).length
      ((s.optionField ++ s.payload).take (s.dataOffset * 4 - 20))
      (s.headerOnly ((s.optionField ++ s.payload).drop (s.dataOffset * 4 - 20)))
    rw [parseOptions, hk] at hp
    have hl := congrArg List.length hp
    simp only [headerOnly, List.length_drop, List.length_append] at hl
    omega

theorem HeaderFits.options (h : s.HeaderFits) (m w : Option Nat) (r : List UInt8) :
    HeaderFits { s with mss := m, wscale := w, rawOptions := r } :=
  ⟨h.srcPort, h.dstPort, h.seq, h.ack, h.window, h.checksum, h.urgentPtr⟩

/-- What `parse` reads before it comes to the options. -/
def fieldsOf (x : List UInt8) : TcpSegment where
  srcPort := u16 x 0
  dstPort := u16 x 2
  seq := u32 x 4
  ack := u32 x 8
  flags := Flags.ofByte (u8 x 13)
  window := u16 x 14
  checksum := u16 x 16
  urgentPtr := u16 x 18
  payload := x.drop (u8 x 12 / 16 * 4)

theorem fieldsOf_tidy (x : List UInt8) : (fieldsOf x).Tidy :=
  ⟨fun m hm => (by cases hm), fun w hw => (by cases hw), [], fun o ho => (by cases ho), rfl⟩

theorem fieldsOf_fits (x : List UInt8) : (fieldsOf x).HeaderFits := by
  have h4 := u32_lt x 4
  have h8 := u32_lt x 8
  refine ⟨u16_lt _ _, u16_lt _ _, ?_, ?_, u16_lt _ _, u16_lt _ _, u16_lt _ _⟩
  · show 0 ≤ (u32 x 4 : Int) ∧ (u32 x 4 : Int) < 4294967296
    omega
  · show 0 ≤ (u32 x 8 : Int) ∧ (u32 x 8 : Int) < 4294967296
    omega

/-- What is parsed is tidy, and its options fit the header. -/
theorem tidy_of_parse {x : List UInt8} (h : parse x = .ok s) :
    s.Tidy ∧ s.HeaderFits ∧ s.optionBytes ≤ 40 := by
  unfold parse at h
  dsimp only at h
  split_ifs at h
  have h12 : u8 x 12 < 256 := (x.getD 12 0).toNat_lt
  obtain ⟨os, hos, hle⟩ := parseOptions_taken (fieldsOf x) ((x.take (u8 x 12 / 16 * 4)).drop 20)
  obtain ⟨m, w, r, hk⟩ := parseOptionsLoop_header
    ((x.take (u8 x 12 / 16 * 4)).drop 20).length ((x.take (u8 x 12 / 16 * 4)).drop 20) (fieldsOf x)
  have hs : s = (fieldsOf x).parseOptions ((x.take (u8 x 12 / 16 * 4)).drop 20) :=
    (Except.ok.inj h).symm
  refine ⟨?_, ?_, ?_⟩
  · rw [hs, hos]
    exact ((fieldsOf_tidy x).taken os).1
  · rw [hs, parseOptions, hk]
    exact (fieldsOf_fits x).options m w r
  · have hbytes := ((fieldsOf_tidy x).taken os).2
    have h0 : (fieldsOf x).optionBytes = 0 := rfl
    rw [List.length_drop, List.length_take] at hle
    rw [hs, hos]
    omega

/-- Encoding what has been decoded raises nothing, fits the data offset, and decodes to the
same segment. -/
theorem parse_build_parse (x : List UInt8) (s : TcpSegment) (h : parse x = .ok s) :
    ∃ opts b, s.buildOptions = .ok opts ∧ (20 + opts.length) % 4 = 0 ∧
      (20 + opts.length) / 4 ≤ 15 ∧ s.build = .ok b ∧ parse b = .ok s := by
  obtain ⟨ht, hf, hle⟩ := tidy_of_parse h
  have hlen := s.length_optionField
  refine ⟨s.optionField, s.octets, buildOptions_ok ht.packs, ?_, ?_, build_ok ht.packs,
    ht.parse_octets hf hle⟩
  · omega
  · omega

/-- An MSS of the wrong length, padding, two window scales and an unknown option; the last
option is cut off. -/
def untidyOctets : List UInt8 :=
  [0, 80, 3, 232, 0, 0, 3, 232, 0, 0, 0, 101, 160, 18, 255, 255, 0, 7, 0, 0,
    2, 3, 9, 1, 3, 3, 7, 3, 3, 8, 8, 4, 1, 2, 1, 5, 20, 1, 1, 1, 42]

theorem untidyOctets_rebuilt : ∃ s opts b, parse untidyOctets = .ok s ∧ s.wscale = some 8 ∧
    s.rawOptions = [2, 3, 9, 8, 4, 1, 2] ∧ s.buildOptions = .ok opts ∧ (20 + opts.length) % 4 = 0 ∧
      (20 + opts.length) / 4 ≤ 15 ∧ s.build = .ok b ∧ parse b = .ok s := by
  have hp : ∃ s, parse untidyOctets = .ok s ∧ s.wscale = some 8 ∧
      s.rawOptions = [2, 3, 9, 8, 4, 1, 2] := ⟨_, rfl, by decide, by decide⟩
  obtain ⟨s, hs, hw, hr⟩ := hp
  obtain ⟨opts, b, h⟩ := parse_build_parse untidyOctets s hs
  exact ⟨s, opts, b, hs, hw, hr, h⟩

/-- Either `build` raises, or what it produces gives the segment back. -/
def Faithful (s : TcpSegment) : Prop := ∀ b, s.build = .ok b → parse b = .ok s

/-- Encoding is faithful as long as the options fit the forty bytes that the data offset
can describe. -/
theorem faithful_iff (s : TcpSegment) (os : List TcpOption) (hf : s.HeaderFits)
    (hos : ∀ o ∈ os, o.kind.toNat ≠ OPT_MSS ∧ o.kind.toNat ≠ OPT_WSCALE)
    (hraw : s.rawOptions = os.flatMap TcpOption.octets) :
    s.Faithful ↔ s.PackFails ∨ s.optionBytes ≤ 40 := by
  by_cases hp : s.PackFails
  · obtain ⟨msg, hb⟩ := build_raises hp
    refine ⟨fun _ => Or.inl hp, fun _ b h => ?_⟩
    rw [hb] at h
    cases h
  have ht : s.Tidy := by
    refine ⟨fun m hm => ?_, fun w hw => ?_, os, fun o ho => ?_, hraw⟩
    · exact Nat.not_lt.mp fun hlt => hp (Or.inl ⟨m, hm, hlt⟩)
    · exact Nat.not_lt.mp fun hlt => hp (Or.inr ⟨w, hw, hlt⟩)
    · rintro (hd | hd)
      · exact (hos o ho).1 hd.1
      · exact (hos o ho).2 hd.1
  constructor
  · intro h
    refine Or.inr (Nat.not_lt.mp fun hlt => ?_)
    exact parse_octets_wrapped s hlt (h s.octets (build_ok hp))
  · rintro (h | hle) b hb
    · exact absurd h hp
    · rw [build_ok hp] at hb
      obtain rfl := Except.ok.inj hb
      exact ht.parse_octets hf hle

/-- An experimental option of four bytes. -/
def experimental : TcpOption := ⟨253, [0, 0], by decide, by decide⟩

/-- A segment with some of them. -/
def experiments (n : Nat) : TcpSegment :=
  { srcPort := 1000, dstPort := 80,
    rawOptions := (List.replicate n experimental).flatMap TcpOption.octets }

/-- Eleven of them do not fit: the data offset is written as zero. -/
theorem experiments_lost : ∃ b, (experiments 11).build = .ok b ∧ ¬ (experiments 11).Faithful ∧
    parse b = .error "bad data offset 0" := by
  refine ⟨_, rfl, fun h => ?_, rfl⟩
  have := h _ rfl
  cases this

theorem experiments_kept : (experiments 10).Faithful ↔
    (experiments 10).PackFails ∨ (experiments 10).optionBytes ≤ 40 := by
  refine faithful_iff (experiments 10) (List.replicate 10 experimental) ?_ ?_ rfl
  · exact ⟨by decide, by decide, by decide, by decide, by decide, by decide, by decide⟩
  · intro o ho
    obtain rfl := List.eq_of_mem_replicate ho
    decide

end TcpSegment

end HdlPlayground.Tcp
