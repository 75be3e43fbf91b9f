import HdlPlayground.Lib.Framing
import HdlPlayground.Lib.Machine
import HdlPlayground.Cosim.Item

/-!
# The co-simulation transport

One direction of the testbench: `send_segment` hands an item to the sequencer, the driver
puts its bytes on the wires, one a clock, and the monitor of the far side collects and
relays them. The signals are driven and sampled on the same clock edge, so the monitor
sees what was driven one edge before. The wires start at rest, as the driver sets them
before the first edge.
-/
namespace HdlPlayground.Cosim

open Tcp Lib

/-! ## Driver, monitor and link -/

/-- `tx_valid`, `tx_data` and `tx_last`, which are the far side's `rx_valid` and so on. -/
structure Wires where
  valid : Bool := false
  data : UInt8 := 0
  last : Bool := false

/-- Where `tcp_driver.run_phase` waits: for an item, for a clock edge with these bytes still
to be driven, or for the edges of the gap after them. -/
inductive DriverPc where
  | getNextItem
  | driving (req : TcpItem) (bytes : List UInt8)
  | gap (req : TcpItem) (cycles : Nat)

structure Driver where
  pc : DriverPc := .getNextItem
  ap : List TcpItem := []

/-- A clock edge in `tcp_driver.run_phase`. -/
def Driver.posedge (d : Driver) (w : Wires) (interSegGap : Nat) : Driver × Wires :=
  match d.pc with
  | .getNextItem => (d, w)
  | .driving req (b :: bytes) => ({ d with pc := .driving req bytes }, ⟨true, b, bytes.isEmpty⟩)
  | .driving req [] => ({ d with pc := .gap req interSegGap }, {})
  | .gap req cycles => ({ d with pc := .gap req (cycles - 1) }, w)

structure Monitor where
  bytes : List UInt8 := []
  inSeg : Bool := false
  ap : List TcpItem := []
  relayed : List (List UInt8) := []
  errors : Nat := 0

/-- The segment collected at `rx_last`. -/
def Monitor.segment (m : Monitor) : Monitor :=
  if m.bytes.length < 20 then { m with errors := m.errors + 1 }
  else
    let (item, ok) := TcpItem.fromBytes {} m.bytes
    if !ok then { m with errors := m.errors + 1 }
    else { m with ap := m.ap ++ [item], relayed := m.relayed ++ [m.bytes] }

/-- A clock edge in `tcp_monitor.run_phase`. -/
def Monitor.posedge (m : Monitor) (w : Wires) : Monitor :=
  if w.valid then
    let m := { m with bytes := m.bytes ++ [w.data], inSeg := true }
    if w.last then { m.segment with bytes := [], inSeg := false } else m
  else if w.last && !m.inSeg then { m with errors := m.errors + 1 }
  else m

structure Link where
  queue : List TcpItem := []
  driver : Driver := {}
  wires : Wires := {}
  monitor : Monitor := {}

namespace Link

/-- After the gap the item is published and done. -/
def itemDone (l : Link) : Link :=
  match l.driver.pc with
  | .gap req 0 => { l with driver := { pc := .getNextItem, ap := l.driver.ap ++ [req] } }
  | _ => l

def getNextItem (l : Link) : Link :=
  match l.driver.pc, l.queue with
  | .getNextItem, req :: queue =>
    { l with queue := queue, driver := { l.driver with pc := .driving req req.toBytes } }
  | _, _ => l

/-- What the driver does before the next edge. -/
def settle (l : Link) : Link := l.itemDone.getNextItem

def posedge (l : Link) (interSegGap : Nat) : Link :=
  let (driver, wires) := l.driver.posedge l.wires interSegGap
  settle { l with driver := driver, wires := wires, monitor := l.monitor.posedge l.wires }

def put (l : Link) (req : TcpItem) : Link := settle { l with queue := l.queue ++ [req] }

/-- `compare_stream` of the scoreboard: the items driven against the items observed. -/
def mismatches (l : Link) : Nat :=
  (l.driver.ap.zip l.monitor.ap).countP fun p => p.1.toBytes != p.2.toBytes

def errors (l : Link) : Nat := l.monitor.errors + l.mismatches

end Link

inductive LinkAction where
  | send (segBytes : List UInt8)
  | posedge

/-- Segments are sent at any time; the driver takes them one by one. -/
def linkMachine (t : FieldTransport) (interSegGap : Nat) : Machine Link LinkAction where
  step
    | l, .send segBytes => (applySegment segBytes).map fun v => l.put (t.unpack v)
    | l, .posedge => some (l.posedge interSegGap)

def LinkAction.sent : LinkAction → Option (List UInt8)
  | .send segBytes => some segBytes
  | .posedge => none

/-! ## What is on its way -/

def Wires.beats (w : Wires) : List (Beat UInt8) := if w.valid then [⟨w.data, w.last⟩] else []

def Driver.beats (d : Driver) : List (Beat UInt8) :=
  match d.pc with
  | .driving _ bytes => frame bytes
  | _ => []

/-- The item that is not done. -/
def Driver.current (d : Driver) : List TcpItem :=
  match d.pc with
  | .driving req _ => [req]
  | .gap req _ => [req]
  | .getNextItem => []

/-- A segment that the monitor takes and the codec keeps. -/
def Sound (b : List UInt8) : Prop := TcpItem.WellFormed b ∧ TcpItem.ReservedZero b

theorem Sound.ne_nil {b : List UInt8} (h : Sound b) : b ≠ [] := by
  rintro rfl
  have := h.1.1
  simp at this

/-- The monitor has collected what a deframer has, and found no fault. -/
structure Monitor.Follows (m : Monitor) (d : Deframer UInt8) : Prop where
  bytes : m.bytes = d.held
  inSeg : m.inSeg = !d.held.isEmpty
  relayed : m.relayed = d.frames
  ap : m.ap.map TcpItem.toBytes = d.frames
  errors : m.errors = 0

/-- Every beat of the items sent has been sampled, is on the wires, or is still to go out. -/
structure Link.Carries (l : Link) (items : List TcpItem) : Prop where
  sampled : ∃ seen, l.monitor.Follows (Deframer.run {} seen) ∧
    seen ++ l.wires.beats ++ l.driver.beats ++ l.queue.flatMap (fun t => frame t.toBytes) =
      items.flatMap fun t => frame t.toBytes
  items : l.driver.ap ++ l.driver.current ++ l.queue = items
  last : l.wires.valid = false → l.wires.last = false
  idle : (∀ req bytes, l.driver.pc ≠ .driving req bytes) → l.wires.valid = false

/-! ## One clock edge -/

theorem Monitor.segment_sound {m : Monitor} {d : Deframer UInt8} {b : List UInt8}
    (h : m.bytes = b) (hs : Sound b) (hr : m.relayed = d.frames)
    (ha : m.ap.map TcpItem.toBytes = d.frames) (he : m.errors = 0) :
    m.segment.relayed = d.frames ++ [b] ∧
      m.segment.ap.map TcpItem.toBytes = d.frames ++ [b] ∧ m.segment.errors = 0 := by
  have hlen : ¬ m.bytes.length < 20 := by
    rw [h]
    exact Nat.not_lt.mpr hs.1.1
  obtain ⟨hok, hbytes⟩ := TcpItem.fromBytes_toBytes {} hs.1 hs.2
  rw [← h] at hok hbytes
  have hseg : m.segment = { m with
      ap := m.ap ++ [(TcpItem.fromBytes {} m.bytes).1], relayed := m.relayed ++ [m.bytes] } := by
    rw [segment, if_neg hlen]
    dsimp only
    rw [hok]
    rfl
  rw [hseg]
  refine ⟨by rw [hr, h], ?_, he⟩
  rw [List.map_append, ha, List.map_cons, hbytes, h]
  rfl

/-- Sampling a beat is what the deframer does, where the segment it completes is sound. -/
theorem Monitor.Follows.posedge {m : Monitor} {d : Deframer UInt8} {w : Wires} (h : m.Follows d)
    (hl : w.valid = false → w.last = false)
    (hs : ∀ b ∈ (d.run w.beats).frames, Sound b) : (m.posedge w).Follows (d.run w.beats) := by
  unfold Monitor.posedge
  unfold Wires.beats at hs ⊢
  cases hv : w.valid with
  | false =>
    rw [hl hv]
    exact h
  | true =>
    rw [hv] at hs
    simp only [if_true] at hs ⊢
    cases hlast : w.last with
    | false =>
      exact ⟨by rw [h.bytes]; rfl, by simp [Deframer.run, Deframer.beat], h.relayed, h.ap, h.errors⟩
    | true =>
      rw [hlast] at hs
      have hrun : Deframer.run d [⟨w.data, true⟩] = ⟨[], d.frames ++ [d.held ++ [w.data]]⟩ := rfl
      rw [hrun] at hs ⊢
      have hsound : Sound (d.held ++ [w.data]) :=
        hs _ (List.mem_append_right _ (List.mem_singleton_self _))
      obtain ⟨h1, h2, h3⟩ := Monitor.segment_sound
        (m := { m with bytes := m.bytes ++ [w.data], inSeg := true }) (d := d)
        (congrArg (· ++ [w.data]) h.bytes) hsound h.relayed h.ap h.errors
      exact ⟨rfl, rfl, h1, h2, h3⟩

/-- The driver puts on the wires what it has to send, beat by beat. -/
theorem Driver.posedge_beats {d : Driver} {w : Wires} (n : Nat)
    (hidle : (∀ req bytes, d.pc ≠ .driving req bytes) → w.valid = false) :
    (d.posedge w n).2.beats ++ (d.posedge w n).1.beats = d.beats := by
  unfold Driver.posedge
  cases hpc : d.pc with
  | getNextItem =>
    simp [Wires.beats, Driver.beats, hpc, hidle (by simp [hpc])]
  | gap req cycles =>
    simp [Wires.beats, Driver.beats, hpc, hidle (by simp [hpc])]
  | driving req bytes =>
    cases bytes with
    | nil => simp [Wires.beats, Driver.beats, hpc, frame]
    | cons b bytes => simp [Wires.beats, Driver.beats, hpc, frame]

theorem Driver.posedge_current (d : Driver) (w : Wires) (n : Nat) :
    (d.posedge w n).1.ap = d.ap ∧ (d.posedge w n).1.current = d.current := by
  unfold Driver.posedge
  cases hpc : d.pc with
  | getNextItem => exact ⟨rfl, rfl⟩
  | gap req cycles => exact ⟨rfl, by simp [Driver.current, hpc]⟩
  | driving req bytes =>
    cases bytes with
    | nil => exact ⟨rfl, by simp [Driver.current, hpc]⟩
    | cons b bytes => exact ⟨rfl, by simp [Driver.current, hpc]⟩

theorem Driver.posedge_wires {d : Driver} {w : Wires} (n : Nat)
    (hlast : w.valid = false → w.last = false)
    (hidle : (∀ req bytes, d.pc ≠ .driving req bytes) → w.valid = false) :
    ((d.posedge w n).2.valid = false → (d.posedge w n).2.last = false) ∧
      ((∀ req bytes, (d.posedge w n).1.pc ≠ .driving req bytes) →
        (d.posedge w n).2.valid = false) := by
  unfold Driver.posedge
  cases hpc : d.pc with
  | getNextItem => exact ⟨hlast, fun _ => hidle (by simp [hpc])⟩
  | gap req cycles => exact ⟨hlast, fun _ => hidle (by simp [hpc])⟩
  | driving req bytes =>
    cases bytes with
    | nil => exact ⟨fun _ => rfl, fun _ => rfl⟩
    | cons b bytes => exact ⟨fun hv => Bool.noConfusion hv, fun hd => absurd rfl (hd req bytes)⟩

namespace Link

variable {l : Link} {items : List TcpItem}

theorem Carries.itemDone (h : l.Carries items) : l.itemDone.Carries items := by
  unfold Link.itemDone
  split
  · next req hpc =>
    obtain ⟨⟨seen, hf, hb⟩, hi, hl, hid⟩ := h
    have hv := hid (by simp [hpc])
    refine ⟨⟨seen, hf, ?_⟩, ?_, hl, fun _ => hv⟩
    · simpa [Driver.beats, hpc] using hb
    · simpa [Driver.current, hpc] using hi
  · exact h

theorem Carries.getNextItem (h : l.Carries items) : l.getNextItem.Carries items := by
  unfold Link.getNextItem
  split
  · next req queue hpc hq =>
    obtain ⟨⟨seen, hf, hb⟩, hi, hl, hid⟩ := h
    have hv := hid (by simp [hpc])
    refine ⟨⟨seen, hf, ?_⟩, ?_, hl, fun _ => hv⟩
    · simpa [Driver.beats, hpc, hq] using hb
    · simpa [Driver.current, hpc, hq] using hi
  · exact h

theorem Carries.settle (h : l.Carries items) : l.settle.Carries items := h.itemDone.getNextItem

/-- The segments complete so far are among the items sent. -/
theorem frames_sound {seen rest : List (Beat UInt8)} (hs : ∀ t ∈ items, Sound t.toBytes)
    (hb : seen ++ rest = items.flatMap fun t => frame t.toBytes) :
    (Deframer.run {} seen).frames <+: items.map TcpItem.toBytes ∧
      ∀ b ∈ (Deframer.run {} seen).frames, Sound b := by
  have hne : ∀ b ∈ items.map TcpItem.toBytes, Sound b := by
    intro b hb
    obtain ⟨t, ht, rfl⟩ := List.mem_map.mp hb
    exact hs t ht
  have hcut : seen ++ rest = (items.map TcpItem.toBytes).flatMap frame := by
    rw [hb, List.flatMap_map]
  have hpre := Deframer.frames_prefix (fun b hb => (hne b hb).ne_nil) hcut
  exact ⟨hpre, fun b hb => hne b (hpre.subset hb)⟩

theorem Carries.posedge (h : l.Carries items) (hs : ∀ t ∈ items, Sound t.toBytes) (n : Nat) :
    (l.posedge n).Carries items := by
  obtain ⟨⟨seen, hf, hb⟩, hi, hl, hid⟩ := h
  obtain ⟨hlast', hidle'⟩ := Driver.posedge_wires n hl hid
  obtain ⟨hap, hcur⟩ := Driver.posedge_current l.driver l.wires n
  have hbeats := Driver.posedge_beats n hid
  have hcut : (seen ++ l.wires.beats) ++
      (l.driver.beats ++ l.queue.flatMap fun t => frame t.toBytes) =
        items.flatMap fun t => frame t.toBytes := by
    rw [← hb, List.append_assoc _ l.driver.beats]
  have hsound := (frames_sound hs hcut).2
  rw [Deframer.run_append] at hsound
  have hf' := hf.posedge hl hsound
  rw [← Deframer.run_append] at hf'
  have hstep : l.posedge n = Link.settle { l with
      driver := (l.driver.posedge l.wires n).1, wires := (l.driver.posedge l.wires n).2,
      monitor := l.monitor.posedge l.wires } := rfl
  rw [hstep]
  generalize l.driver.posedge l.wires n = p at *
  refine Carries.settle ⟨⟨seen ++ l.wires.beats, hf', ?_⟩, ?_, hlast', hidle'⟩
  · rw [← hcut, ← hbeats, List.append_assoc _ p.2.beats,
      ← List.append_assoc _ _ (l.queue.flatMap _), List.append_assoc]
  · show p.1.ap ++ p.1.current ++ l.queue = items
    rw [hap, hcur, hi]

theorem Carries.put (h : l.Carries items) (req : TcpItem) :
    (l.put req).Carries (items ++ [req]) := by
  obtain ⟨⟨seen, hf, hb⟩, hi, hl, hid⟩ := h
  refine Carries.settle ⟨⟨seen, hf, ?_⟩, ?_, hl, hid⟩
  · simp only [List.flatMap_append]
    rw [← hb]
    simp only [List.append_assoc]
  · rw [← hi]
    simp only [List.append_assoc]

/-! ## How long it takes -/

/-- The edges an item takes from its first byte to the end of its gap. -/
def duration (n : Nat) (t : TcpItem) : Nat := t.toBytes.length + 1 + n

/-- The edges until the driver is done with every item. -/
def work (l : Link) (n : Nat) : Nat :=
  (match l.driver.pc with
    | .getNextItem => 0
    | .driving _ bytes => bytes.length + 1 + n
    | .gap _ cycles => cycles) + l.queue.foldr (fun t k => duration n t + k) 0

/-- The driver waits for a clock edge, or for an item and there is none. -/
structure Settled (l : Link) : Prop where
  queue : l.driver.pc = .getNextItem → l.queue = []
  gap : ∀ req, l.driver.pc ≠ .gap req 0

theorem settle_settled (l : Link) : l.settle.Settled := by
  obtain ⟨queue, ⟨pc, ap⟩, wires, monitor⟩ := l
  cases pc with
  | driving req bytes => exact ⟨nofun, nofun⟩
  | getNextItem =>
    cases queue with
    | nil => exact ⟨fun _ => rfl, nofun⟩
    | cons req queue => exact ⟨nofun, nofun⟩
  | gap req cycles =>
    cases cycles with
    | succ k => exact ⟨nofun, nofun⟩
    | zero =>
      cases queue with
      | nil => exact ⟨fun _ => rfl, nofun⟩
      | cons req queue => exact ⟨nofun, nofun⟩

theorem settle_work (l : Link) (n : Nat) : l.settle.work n = l.work n := by
  obtain ⟨queue, ⟨pc, ap⟩, wires, monitor⟩ := l
  cases pc with
  | driving req bytes => rfl
  | getNextItem =>
    cases queue with
    | nil => rfl
    | cons req queue =>
      show req.toBytes.length + 1 + n + queue.foldr (fun t k => duration n t + k) 0 = _
      simp [work, duration]
  | gap req cycles =>
    cases cycles with
    | succ k => rfl
    | zero =>
      cases queue with
      | nil => rfl
      | cons req queue =>
        show req.toBytes.length + 1 + n + queue.foldr (fun t k => duration n t + k) 0 = _
        simp [work, duration]

/-- Every edge brings the driver one step further. -/
theorem posedge_work (h : l.Settled) (n : Nat) : (l.posedge n).work n = l.work n - 1 := by
  obtain ⟨queue, ⟨pc, ap⟩, wires, monitor⟩ := l
  rw [posedge, settle_work]
  cases pc with
  | getNextItem =>
    obtain rfl : queue = [] := h.queue rfl
    rfl
  | driving req bytes =>
    cases bytes with
    | nil =>
      simp only [Driver.posedge, work, List.length_nil]
      omega
    | cons b bytes =>
      simp only [Driver.posedge, work, List.length_cons]
      omega
  | gap req cycles =>
    have hpos : cycles ≠ 0 := fun h0 => h.gap req (by rw [h0])
    simp only [Driver.posedge, work]
    omega

/-- A link with no work left has delivered every segment. -/
theorem Carries.delivered (h : l.Carries items) (hs : ∀ t ∈ items, Sound t.toBytes)
    (hset : l.Settled) {n : Nat} (hw : l.work n = 0) :
    l.monitor.relayed = items.map TcpItem.toBytes := by
  obtain ⟨⟨seen, hf, hb⟩, -, -, hid⟩ := h
  obtain ⟨queue, ⟨pc, ap⟩, wires, monitor⟩ := l
  have hpc : pc = .getNextItem := by
    cases pc with
    | getNextItem => rfl
    | driving req bytes =>
      simp only [work] at hw
      omega
    | gap req cycles =>
      simp only [work] at hw
      obtain rfl : cycles = 0 := by omega
      exact absurd rfl (hset.gap req)
  subst hpc
  have hq : queue = [] := hset.queue rfl
  have hv : wires.valid = false := hid (fun _ _ hc => by cases hc)
  subst hq
  simp only [Wires.beats, Driver.beats, hv, Bool.false_eq_true, if_false, List.append_nil,
    List.flatMap_nil] at hb
  have hne : ∀ b ∈ items.map TcpItem.toBytes, b ≠ [] := by
    intro b hb
    obtain ⟨t, ht, rfl⟩ := List.mem_map.mp hb
    exact (hs t ht).ne_nil
  have hall := Deframer.run_frames (d := {}) hne rfl
  rw [List.flatMap_map, ← hb] at hall
  rw [hf.relayed, hall]
  rfl

/-! ## No error -/

/-- Two cuts of one list agree as far as both go. -/
theorem zip_agree {xs ys : List TcpItem} {bs : List (List UInt8)}
    (hx : xs.map TcpItem.toBytes <+: bs) (hy : ys.map TcpItem.toBytes <+: bs) :
    (xs.zip ys).countP (fun p => p.1.toBytes != p.2.toBytes) = 0 := by
  induction xs generalizing ys bs with
  | nil => rfl
  | cons x xs ih =>
    cases ys with
    | nil => rfl
    | cons y ys =>
      obtain ⟨u, rfl⟩ := hx
      obtain ⟨heq, hy⟩ := List.cons_prefix_cons.mp hy
      rw [List.zip_cons_cons, List.countP_cons_of_neg (by simp [heq])]
      exact ih (List.prefix_append _ _) hy

theorem Carries.errors (h : l.Carries items) (hs : ∀ t ∈ items, Sound t.toBytes) :
    l.errors = 0 ∧ l.monitor.relayed <+: items.map TcpItem.toBytes := by
  obtain ⟨⟨seen, hf, hb⟩, hi, -, -⟩ := h
  rw [List.append_assoc, List.append_assoc] at hb
  have hpre := (frames_sound hs hb).1
  have hdriven : l.driver.ap.map TcpItem.toBytes <+: items.map TcpItem.toBytes := by
    rw [← hi, List.append_assoc, List.map_append]
    exact List.prefix_append _ _
  constructor
  · rw [Link.errors, hf.errors, mismatches, zip_agree hdriven (by rw [hf.ap]; exact hpre)]
  · rw [hf.relayed]
    exact hpre

/-! ## Runs -/

theorem carries_start : Carries {} [] where
  sampled := ⟨[], ⟨rfl, rfl, rfl, rfl, rfl⟩, rfl⟩
  items := rfl
  last := fun _ => rfl
  idle := fun _ => rfl

theorem settled_start : Settled {} := ⟨fun _ => rfl, nofun⟩

variable {t : FieldTransport} {n : Nat}

/-- A segment that the codec keeps arrives in the item as it is. -/
theorem unpack_toBytes (ht : t.Lossless) {b : List UInt8} (hs : Sound b) :
    (t.unpack (TcpItem.splitOf b)).toBytes = b :=
  TcpItem.toBytes_of_values hs.1 hs.2 (ht _ (TcpItem.splitOf_inRange b))

theorem Carries.step {a : LinkAction} (ht : t.Lossless) (h : l.Carries items)
    (hs : ∀ i ∈ items, Sound i.toBytes) (ha : ∀ b, a.sent = some b → Sound b) :
    ∃ l' new, (linkMachine t n).step l a = some l' ∧ l'.Carries (items ++ new) ∧ l'.Settled ∧
      (∀ i ∈ items ++ new, Sound i.toBytes) ∧ new.map TcpItem.toBytes = a.sent.toList := by
  cases a with
  | posedge =>
    refine ⟨_, [], rfl, ?_, settle_settled _, ?_, rfl⟩
    · rw [List.append_nil]
      exact h.posedge hs n
    · rw [List.append_nil]
      exact hs
  | send b =>
    have hb := ha b rfl
    have hbytes := unpack_toBytes ht hb
    refine ⟨_, [t.unpack (TcpItem.splitOf b)], ?_, h.put _, settle_settled _, ?_, ?_⟩
    · simp only [linkMachine, TcpItem.applySegment_eq hb.1, Option.map_some]
    · intro i hi
      rcases List.mem_append.mp hi with hi | hi
      · exact hs i hi
      · rw [List.mem_singleton.mp hi, hbytes]
        exact hb
    · rw [List.map_cons, hbytes]
      rfl

/-- Whatever the segments and whenever they are sent, the link carries them. -/
theorem Carries.run {as : List LinkAction} (ht : t.Lossless) (h : l.Carries items)
    (hset : l.Settled) (hs : ∀ i ∈ items, Sound i.toBytes)
    (ha : ∀ b ∈ as.filterMap LinkAction.sent, Sound b) :
    ∃ l' new, (linkMachine t n).run l as = some l' ∧ l'.Carries (items ++ new) ∧ l'.Settled ∧
      (∀ i ∈ items ++ new, Sound i.toBytes) ∧
      new.map TcpItem.toBytes = as.filterMap LinkAction.sent := by
  induction as generalizing l items with
  | nil =>
    refine ⟨l, [], rfl, ?_, hset, ?_, rfl⟩
    · rw [List.append_nil]
      exact h
    · rw [List.append_nil]
      exact hs
  | cons a as ih =>
    have hfm : (a :: as).filterMap LinkAction.sent =
        a.sent.toList ++ as.filterMap LinkAction.sent := by
      cases a <;> rfl
    rw [hfm] at ha ⊢
    obtain ⟨l1, new1, hstep, h1, hset1, hs1, hnew1⟩ := h.step (n := n) ht hs
      fun b hb => ha b (List.mem_append_left _ (by rw [hb]; exact List.mem_singleton_self b))
    obtain ⟨l2, new2, hrun, h2, hset2, hs2, hnew2⟩ := ih h1 hset1 hs1
      fun b hb => ha b (List.mem_append_right _ hb)
    rw [List.append_assoc] at h2 hs2
    refine ⟨l2, new1 ++ new2, ?_, h2, hset2, hs2, ?_⟩
    · rw [Machine.run_cons, hstep]
      exact hrun
    · rw [List.map_append, hnew1, hnew2]

/-- Once nothing more is sent, the work left bounds the edges until all is delivered. -/
theorem Carries.edges (h : l.Carries items) (hset : l.Settled)
    (hs : ∀ i ∈ items, Sound i.toBytes) (k : Nat) (hk : l.work n ≤ k) :
    ∃ l', (linkMachine t n).run l (List.replicate k .posedge) = some l' ∧
      l'.monitor.relayed = items.map TcpItem.toBytes ∧ l'.errors = 0 := by
  induction k generalizing l with
  | zero =>
    exact ⟨l, rfl, h.delivered hs hset (Nat.le_zero.mp hk), (h.errors hs).1⟩
  | succ k ih =>
    have hw : (l.posedge n).work n ≤ k := by
      rw [posedge_work hset]
      omega
    obtain ⟨l', hrun, hrest⟩ := ih (h.posedge hs n) (settle_settled _) hw
    exact ⟨l', hrun, hrest⟩

end Link

/-- The transport relays the segments sent, in order and without an error, and the item's decoder
is the segment parser's. -/
theorem transport_identity (t : FieldTransport) (ht : t.Lossless) (interSegGap : Nat)
    (segs : List (List UInt8))
    (hsegs : ∀ b ∈ segs, (∃ p, TcpSegment.parse b = .ok p) ∧ TcpItem.ReservedZero b) :
    (∀ as, as.filterMap LinkAction.sent = segs →
      ∃ l, (linkMachine t interSegGap).run {} as = some l ∧ l.errors = 0 ∧
        l.monitor.relayed <+: segs ∧
        ∃ n, ∀ k, n ≤ k → ∃ l',
        (linkMachine t interSegGap).run l (.replicate k .posedge) = some l' ∧
          l'.monitor.relayed = segs ∧ l'.errors = 0) ∧
      ∀ (item : TcpItem) (b : List UInt8),
        ((item.fromBytes b).2 = true ↔ ∃ p, TcpSegment.parse b = .ok p) ∧
          ∀ p, TcpSegment.parse b = .ok p → (item.fromBytes b).1.Agrees p := by
  constructor
  · intro as has
    have hsound : ∀ b ∈ as.filterMap LinkAction.sent, Sound b := by
      intro b hb
      rw [has] at hb
      exact ⟨(TcpItem.parse_accepts b).mp (hsegs b hb).1, (hsegs b hb).2⟩
    obtain ⟨l, items, hrun, hc, hset, hs, hitems⟩ := Link.carries_start.run (n := interSegGap) ht
      Link.settled_start (fun _ hi => by cases hi) hsound
    rw [List.nil_append] at hc hs
    rw [has] at hitems
    obtain ⟨herr, hpre⟩ := hc.errors hs
    rw [hitems] at hpre
    refine ⟨l, hrun, herr, hpre, l.work interSegGap, fun k hk => ?_⟩
    obtain ⟨l', hrun', hrel, herr'⟩ := hc.edges (t := t) hset hs k hk
    rw [hitems] at hrel
    exact ⟨l', hrun', hrel, herr'⟩
  · intro item b
    refine ⟨?_, fun p hp => TcpItem.fromBytes_agrees item hp⟩
    rw [TcpItem.fromBytes_accepts, TcpItem.parse_accepts]

/-- Each field takes its low bits. -/
def lowBits : FieldTransport where
  unpack v :=
    { srcPort := .ofNat 16 v.srcPort, dstPort := .ofNat 16 v.dstPort, seqNum := .ofNat 32 v.seqNum
      ackNum := .ofNat 32 v.ackNum, flags := .ofNat 8 v.flags, window := .ofNat 16 v.window
      checksum := .ofNat 16 v.checksum, urgentPtr := .ofNat 16 v.urgentPtr
      options := v.options, payload := v.payload }

theorem lowBits_lossless : lowBits.Lossless := by
  intro v hv
  obtain ⟨h1, h2, h3, h4, h5, h6, h7, h8⟩ := hv
  simp only [lowBits, TcpItem.values, BitVec.toNat_ofNat]
  rw [Nat.mod_eq_of_lt h1, Nat.mod_eq_of_lt h2, Nat.mod_eq_of_lt h3, Nat.mod_eq_of_lt h4,
    Nat.mod_eq_of_lt h5, Nat.mod_eq_of_lt h6, Nat.mod_eq_of_lt h7, Nat.mod_eq_of_lt h8]

/-- A SYN with an MSS option, and one byte of text. -/
def synWithText : List UInt8 :=
  [0, 80, 3, 232, 0, 0, 3, 233, 0, 0, 0, 101, 96, 2, 255, 255, 0, 0, 0, 0, 2, 4, 5, 180, 7]

theorem synWithText_relayed :
    ∃ l l' n, (linkMachine lowBits 1).run {} [.send synWithText] = some l ∧
      (linkMachine lowBits 1).run l (.replicate n .posedge) = some l' ∧
      l'.monitor.relayed = [synWithText] ∧ l'.errors = 0 := by
  have hs : ∀ b ∈ [synWithText], (∃ p, TcpSegment.parse b = .ok p) ∧ TcpItem.ReservedZero b := by
    intro b hb
    rw [List.mem_singleton.mp hb, TcpItem.parse_accepts]
    exact ⟨⟨by decide, by decide, by decide⟩, by rw [TcpItem.ReservedZero]; decide⟩
  obtain ⟨l, hrun, -, -, n, hall⟩ :=
    (transport_identity lowBits lowBits_lossless 1 [synWithText] hs).1 [.send synWithText] rfl
  obtain ⟨l', hrun', hrel, herr⟩ := hall n (Nat.le_refl n)
  exact ⟨l, l', n, hrun, hrun', hrel, herr⟩

end HdlPlayground.Cosim
