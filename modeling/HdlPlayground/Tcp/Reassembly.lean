import HdlPlayground.Lib.Reassembly
import HdlPlayground.Tcp.Traces

/-!
# The receive side as a reassembly buffer

RCV.NXT, the reassembly queue and what has been delivered are a buffer of pieces, with
positions counted from a base. As long as the pieces lie within half the sequence space
the comparisons of the engine are those of the buffer, so the merge loop settles it.
-/
namespace HdlPlayground.Tcp

/-! ## Sequence numbers by their offset -/

theorem add_add (x i j : Int) : add (add x i) j = add x (i + j) := by
  simp only [add_def]
  omega

theorem sub_add_add {x i j : Int} (h0 : j ≤ i) (h1 : i < j + 4294967296) :
    sub (add x i) (add x j) = i - j := by
  simp only [add_def, sub_def]
  omega

theorem seqLeq_add_add {x i j : Int} (hi : i < j + 2147483648) (hj : j ≤ i + 2147483648) :
    seqLeq (add x i) (add x j) = decide (i ≤ j) := by
  rw [Bool.eq_iff_iff, seqLeq_iff, decide_eq_true_eq]
  simp only [add_def]
  omega

theorem seqLt_add_add {x i j : Int} (hi : i < j + 2147483648) (hj : j ≤ i + 2147483648) :
    seqLt (add x i) (add x j) = decide (i < j) := by
  rw [Bool.eq_iff_iff, seqLt_iff, decide_eq_true_eq]
  simp only [add_def]
  omega

theorem seqGt_add_add {x i j : Int} (hi : i < j + 2147483648) (hj : j < i + 2147483648) :
    seqGt (add x i) (add x j) = decide (j < i) := by
  rw [Bool.eq_iff_iff, seqGt_iff, decide_eq_true_eq]
  simp only [add_def]
  omega

theorem add_inj {x i j : Int} (hi : i < j + 4294967296) (hj : j < i + 4294967296) :
    add x i = add x j ↔ i = j := by
  simp only [add_def]
  omega

open Lib (Piece Buffer)

/-- The bytes a call of the sink passes on. -/
def Event.bytes : Event → List UInt8
  | .deliver data => data
  | _ => []

/-- An entry of the queue is a piece, by its offset from `base`. -/
def Places (base : Int) (x : OooEntry) (p : Piece UInt8) : Prop :=
  x.seq = add base p.start ∧ x.data = p.data

namespace TcpEngine

variable {e f : TcpEngine} {base lo hi : Int} {old buf : List UInt8} {b : Buffer UInt8}

/-- What has been delivered so far. -/
def delivered (e : TcpEngine) : List UInt8 := e.env.log.flatMap Event.bytes

/-- Events without text add nothing to what has been delivered. -/
theorem Logs.delivered (h : Logs (fun ev => ev.bytes = []) e f) : f.delivered = e.delivered := by
  obtain ⟨evs, hl, hev⟩ := h
  rw [TcpEngine.delivered, hl, List.flatMap_append, List.flatMap_eq_nil_iff.mpr hev,
    List.append_nil]
  rfl

/-- The receive side is the buffer, after what was delivered and buffered before. -/
structure Mirrors (base : Int) (old buf : List UInt8) (e : TcpEngine) (b : Buffer UInt8) :
    Prop where
  next : e.tcb.rcvNxt = add base b.next
  held : List.Forall₂ (Places base) e.buf.ooo b.held
  out : e.delivered = old ++ b.out
  recvBuf : e.buf.recvBuf = if e.conf.onData then buf else buf ++ b.out

/-- Inside the bounds an entry is mergeable when its piece is ripe. -/
theorem Mirrors.mergeable (h : Mirrors base old buf e b) (hw : b.Within lo hi)
    (hlt : hi < lo + 2147483648) {x : OooEntry} {p : Piece UInt8} (hx : Places base x p)
    (hp : lo ≤ p.start ∧ p.stop ≤ hi) : e.mergeable x = b.ripe p := by
  obtain ⟨hseq, hdata⟩ := hx
  have hfront := hw.front
  have hle := p.start_le_stop
  have hend : add x.seq x.data.length = add base p.stop := by
    rw [hseq, hdata, add_add]
    rfl
  rw [TcpEngine.mergeable, Buffer.ripe, hend, hseq, h.next,
    seqLeq_add_add (by omega) (by omega), seqLeq_add_add (by omega) (by omega),
    seqGt_add_add (by omega) (by omega), Bool.eq_iff_iff]
  simp only [Bool.or_eq_true, Bool.and_eq_true, decide_eq_true_eq]
  omega

@[simp] theorem markSeen_delivered (flags : Flags) : (e.markSeen flags).delivered = e.delivered :=
  rfl

@[simp] theorem advanceRcvNxt_delivered (n : Nat) : (e.advanceRcvNxt n).delivered = e.delivered :=
  rfl

theorem deliver_delivered (data : List UInt8) :
    (e.deliver data).delivered = e.delivered ++ data := by
  simp [delivered, Event.bytes]

theorem deliver_recvBuf (data : List UInt8) :
    (e.deliver data).buf.recvBuf =
      if e.conf.onData then e.buf.recvBuf else e.buf.recvBuf ++ data := by
  unfold deliver
  dsimp only
  cases h : e.conf.onData with
  | true => rw [if_pos (by exact h)]; rfl
  | false => rw [if_neg (by show ¬ e.conf.onData = true; simp [h])]; rfl

/-- Delivering the rest of a piece takes it. -/
theorem Mirrors.deliver (h : Mirrors base old buf e b) {p : Piece UInt8} {n : Nat} (flags : Flags)
    (hs : b.next < p.stop) (hn : (n : Int) = b.next - p.start) :
    Mirrors base old buf
      (((e.deliver (p.data.drop n)).advanceRcvNxt (p.data.drop n).length).markSeen flags)
      (b.take p) := by
  have htake : b.take p =
      { b with next := p.stop, out := b.out ++ p.data.drop (b.next - p.start).toNat } :=
    if_neg (not_le.mpr hs)
  have hnat : (b.next - p.start).toNat = n := by omega
  rw [hnat] at htake
  rw [htake]
  constructor
  · show add (e.deliver (p.data.drop n)).tcb.rcvNxt _ = add base p.stop
    rw [deliver_tcb, h.next, add_add]
    congr 1
    simp only [Piece.stop, List.length_drop] at hs ⊢
    omega
  · show List.Forall₂ _ (e.deliver (p.data.drop n)).buf.ooo b.held
    rw [deliver_ooo]
    exact h.held
  · rw [markSeen_delivered, advanceRcvNxt_delivered, deliver_delivered, h.out, List.append_assoc]
  · show (e.deliver (p.data.drop n)).buf.recvBuf =
        if (e.deliver (p.data.drop n)).conf.onData then buf
      else buf ++ (b.out ++ p.data.drop n)
    rw [deliver_recvBuf, deliver_conf, h.recvBuf]
    split
    · rfl
    · rw [List.append_assoc]

/-- One pass of the merge loop takes one ripe piece. -/
theorem Mirrors.mergeEntry {q : List (Piece UInt8)} {ooo : List OooEntry} {x : OooEntry}
    {p : Piece UInt8} (h : Mirrors base old buf e b) (hq : List.Forall₂ (Places base) ooo q)
    (hw : b.Within lo hi) (hlt : hi < lo + 2147483648) (hx : Places base x p)
    (hp : lo ≤ p.start ∧ p.stop ≤ hi) (hr : p.start ≤ b.next) :
    Mirrors base old buf (TcpEngine.mergeEntry { e with buf := { e.buf with ooo := ooo } } x)
      ({ b with held := q }.take p) := by
  obtain ⟨hseq, hdata⟩ := hx
  have hfront := hw.front
  have hle := p.start_le_stop
  have h' : Mirrors base old buf { e with buf := { e.buf with ooo := ooo } } { b with held := q } :=
    ⟨h.next, hq, h.out, h.recvBuf⟩
  have hend : add x.seq x.data.length = add base p.stop := by
    rw [hseq, hdata, add_add]
    rfl
  have hsub : sub e.tcb.rcvNxt x.seq = b.next - p.start := by
    rw [h.next, hseq]
    exact sub_add_add hr (by omega)
  rw [TcpEngine.mergeEntry]
  dsimp only
  rw [hend, h.next, seqLeq_add_add (by omega) (by omega), ← h.next, hsub, hdata]
  by_cases hs : p.stop ≤ b.next
  · rw [if_pos (by simpa using hs), Buffer.take, if_pos hs]
    exact h'
  · rw [if_neg (by simpa using hs), if_neg]
    · exact h'.deliver x.flags (not_le.mp hs)
        (by show ((b.next - p.start).toNat : Int) = b.next - p.start; omega)
    · intro hnil
      have := congrArg List.length hnil
      simp only [List.length_drop, List.length_nil] at this
      simp only [Piece.stop, not_le] at hs
      omega

/-- The merge loop settles the buffer. -/
theorem Mirrors.mergeLoop (h : Mirrors base old buf e b) (hw : b.Within lo hi)
    (hlt : hi < lo + 2147483648) (fuel : Nat) :
    Mirrors base old buf (TcpEngine.mergeLoop fuel e) (b.settle fuel) := by
  induction fuel generalizing e b with
  | zero => exact h
  | succ fuel ih =>
    have hmerge : ∀ x p, p ∈ b.held → Places base x p → e.mergeable x = b.ripe p :=
      fun x p hp hx => h.mergeable hw hlt hx (hw.held p hp)
    rw [TcpEngine.mergeLoop, Buffer.settle]
    rcases Lib.find_forall₂ h.held hmerge with ⟨h1, h2⟩ | ⟨x, p, h1, h2, hmem, hxp, hrest⟩
    · rw [h1, h2]
      exact h
    · rw [h1, h2]
      have hr := (Buffer.find_ripe h2).1
      have hin := hw.held p hmem
      apply ih (h.mergeEntry hrest hw hlt hxp hin hr)
      refine Buffer.Within.take ⟨hw.front, fun q hq => ?_⟩ hin.2
      exact hw.held q ((Buffer.mem_eraseP h2 q).mpr (Or.inr hq))

/-! ## Segment text -/

/-- Taking text touches nothing but what it is delivered to and counted by. -/
structure TextFrame (e f : TcpEngine) : Prop where
  recv : RecvFrame e f
  tm : f.tm = e.tm
  adv : f.adv = e.adv
  hung : f.env.hung = e.env.hung
  log : Logs (fun ev => ∃ data, ev = .deliver data) e f

namespace TextFrame

theorem refl (e : TcpEngine) : TextFrame e e := ⟨.refl e, rfl, rfl, rfl, .none rfl⟩

theorem trans {g : TcpEngine} (h : TextFrame e f) (h' : TextFrame f g) : TextFrame e g :=
  ⟨h.recv.trans h'.recv, h'.tm.trans h.tm, h'.adv.trans h.adv, h'.hung.trans h.hung,
    h.log.trans h'.log⟩

end TextFrame

theorem takeInOrder_text (seg : TcpSegment) (data : List UInt8) :
    TextFrame e (e.takeInOrder seg data) where
  recv := takeInOrder_frame e seg data
  tm := by
    unfold takeInOrder
    dsimp only
    split <;> simp [markSeen, advanceRcvNxt]
  adv := by
    unfold takeInOrder
    dsimp only
    split <;> simp [markSeen, advanceRcvNxt]
  hung := by
    unfold takeInOrder
    dsimp only
    split <;> simp [markSeen, advanceRcvNxt]
  log := takeInOrder_logs (fun data => ⟨data, rfl⟩) seg data

theorem mergeEntry_text (q : List OooEntry) (x : OooEntry) :
    TextFrame e (TcpEngine.mergeEntry { e with buf := { e.buf with ooo := q } } x) where
  recv := mergeEntry_frame e q x
  tm := by
    unfold TcpEngine.mergeEntry
    dsimp only
    split_ifs <;> simp [markSeen, advanceRcvNxt]
  adv := by
    unfold TcpEngine.mergeEntry
    dsimp only
    split_ifs <;> simp [markSeen, advanceRcvNxt]
  hung := by
    unfold TcpEngine.mergeEntry
    dsimp only
    split_ifs <;> simp [markSeen, advanceRcvNxt]
  log := Logs.trans (f := { e with buf := { e.buf with ooo := q } }) (.none rfl)
    (mergeEntry_logs (fun data => ⟨data, rfl⟩) x)

theorem mergeLoop_text (fuel : Nat) : TextFrame e (TcpEngine.mergeLoop fuel e) := by
  induction fuel generalizing e with
  | zero => exact .refl e
  | succ fuel ih =>
    unfold TcpEngine.mergeLoop
    split
    · exact .refl e
    · exact (mergeEntry_text _ _).trans ih

theorem storeOoo_text (seq : Int) (data : List UInt8) (flags : Flags) :
    TextFrame e (e.storeOoo seq data flags) where
  recv := storeOoo_frame e seq data flags
  tm := by
    unfold storeOoo
    split <;> rfl
  adv := by
    unfold storeOoo
    split <;> rfl
  hung := by
    unfold storeOoo
    split <;> rfl
  log := .none (by rw [storeOoo_env])

theorem Mirrors.same (h : Mirrors base old buf e b) (hn : f.tcb.rcvNxt = e.tcb.rcvNxt)
    (ho : f.buf.ooo = e.buf.ooo) (hr : f.buf.recvBuf = e.buf.recvBuf) (hc : f.conf = e.conf)
    (hd : f.delivered = e.delivered) : Mirrors base old buf f b :=
  ⟨hn ▸ h.next, ho ▸ h.held, hd ▸ h.out, by rw [hr, hc]; exact h.recvBuf⟩

/-- In-sequence text, from the front on, is taken. -/
theorem Mirrors.takeInOrder (h : Mirrors base old buf e b) (seg : TcpSegment) {p : Piece UInt8}
    {n : Nat} (hs : b.next < p.stop) (hn : (n : Int) = b.next - p.start) :
    Mirrors base old buf (e.takeInOrder seg (p.data.drop n)) (b.take p) := by
  have hd := h.deliver seg.flags hs hn
  unfold TcpEngine.takeInOrder
  dsimp only
  split
  · exact hd.same rfl rfl rfl rfl rfl
  · exact hd

theorem Mirrors.storeOoo (h : Mirrors base old buf e b) (hw : b.Within lo hi)
    (hlt : hi < lo + 2147483648) (flags : Flags) {p : Piece UInt8}
    (hp : lo ≤ p.start ∧ p.start ≤ hi) :
    Mirrors base old buf (e.storeOoo (add base p.start) p.data flags) (b.hold p) := by
  have hany : (e.buf.ooo.any fun x => x.seq == add base p.start && p.data.length ≤ x.data.length) =
      b.held.any fun q => q.start == p.start && p.data.length ≤ q.data.length := by
    have hheld := h.held
    have hin := hw.held
    generalize e.buf.ooo = xs, b.held = qs at hheld hin
    induction hheld with
    | nil => rfl
    | cons hxq hrest ih =>
      rename_i x q xs qs
      obtain ⟨hseq, hdata⟩ := hxq
      have hq := hin q List.mem_cons_self
      have hle := q.start_le_stop
      have heq : (x.seq == add base p.start) = (q.start == p.start) := by
        rw [hseq, Bool.eq_iff_iff, beq_iff_eq, beq_iff_eq]
        exact add_inj (by omega) (by omega)
      rw [List.any_cons, List.any_cons, ih fun q' hq' => hin q' (List.mem_cons_of_mem _ hq'), heq,
        hdata]
  unfold TcpEngine.storeOoo Buffer.hold
  rw [hany]
  split
  · exact h
  · refine ⟨h.next, ?_, h.out, h.recvBuf⟩
    exact List.rel_append h.held (.cons ⟨rfl, rfl⟩ .nil)

/-- The text that fits the window, by its offset from the base. -/
def fitting (b : Buffer UInt8) (wnd : Nat) (o : Int) (payload : List UInt8) : Piece UInt8 :=
  ⟨o, payload.take (b.next + wnd - o).toNat⟩

theorem fitting_stop_le (b : Buffer UInt8) (wnd : Nat) (o : Int) (payload : List UInt8) :
    (fitting b wnd o payload).stop ≤ o + payload.length := by
  simp only [fitting, Piece.stop, List.length_take]
  omega

/-- A piece that reaches the front is delivered, and the queue merged. -/
theorem Mirrors.inOrder (h : Mirrors base old buf e b) (hw : b.Within lo hi)
    (hlt : hi < lo + 2147483648) (seg : TcpSegment) {p : Piece UInt8} {n : Nat}
    (hp : p.start ≤ b.next) (hs : b.next < p.stop) (hle : p.stop ≤ hi)
    (hn : (n : Int) = b.next - p.start) :
    TextFrame e (e.takeInOrder seg (p.data.drop n)).mergeReassembly ∧
      Mirrors base old buf (e.takeInOrder seg (p.data.drop n)).mergeReassembly (b.offer p) := by
  have ht := h.takeInOrder seg hs hn
  have hlen : (e.takeInOrder seg (p.data.drop n)).buf.ooo.length = b.held.length := by
    rw [ht.held.length_eq, Buffer.take_held]
  refine ⟨(takeInOrder_text seg _).trans (mergeLoop_text _), ?_⟩
  rw [mergeReassembly, hlen, Buffer.offer, if_neg (not_le.mpr hs), if_pos hp]
  exact ht.mergeLoop (hw.take hle) hlt _

/-- Text is ignored when it is old or past the window; else what the window leaves of it is
offered to the buffer. An acknowledgement is scheduled either way. -/
theorem Mirrors.recvText (h : Mirrors base old buf e b) (hw : b.Within lo hi)
    (hlt : hi < lo + 2147483648) {seg : TcpSegment} {o : Int} (hne : seg.payload ≠ [])
    (hseq : seg.seq = add base o) (ho : b.next ≤ o + 2147483648 ∧ o < b.next + 2147483648)
    {space : Int} (hspace : s32 (sub (add e.tcb.rcvNxt e.rcvWnd) (add base (max o b.next))) = space)
    {p : Piece UInt8} (hp : p = ⟨o, seg.payload.take (max o b.next - o + space).toNat⟩)
    (hle : 0 < space → p.stop ≤ hi) :
    (e.recvData seg = e.scheduleAck true ∧ (o + seg.payload.length ≤ b.next ∨ space ≤ 0)) ∨
    ∃ f force, 0 < space ∧ e.recvData seg = f.scheduleAck force ∧ TextFrame e f ∧
      Mirrors base old buf f (b.offer p) := by
  have hfront := hw.front
  have hlen : 0 < seg.payload.length := List.length_pos_iff.mpr hne
  have hstart : p.start = o := by rw [hp]
  have hdata : p.data = seg.payload.take (max o b.next - o + space).toNat := by rw [hp]
  have hstop : p.stop = o + min (max o b.next - o + space).toNat seg.payload.length := by
    rw [Piece.stop, hstart, hdata, List.length_take]
  unfold TcpEngine.recvData
  rw [if_neg hne, hseq, h.next, seqLt_add_add (by omega) (by omega)]
  by_cases hb : o < b.next
  · rw [if_pos (by simpa using hb)]
    rw [max_eq_right (le_of_lt hb)] at hspace hdata hstop
    have hoff : sub (add base b.next) (add base o) = b.next - o :=
      sub_add_add (by omega) (by omega)
    dsimp only
    rw [hoff]
    by_cases hold : (seg.payload.length : Int) ≤ b.next - o
    · rw [if_pos hold]
      exact Or.inl ⟨rfl, Or.inl (by omega)⟩
    · rw [if_neg hold]
      unfold recvTrimmed
      dsimp only
      rw [hspace]
      by_cases hz : space ≤ 0
      · rw [if_pos hz]
        exact Or.inl ⟨rfl, Or.inr hz⟩
      · rw [if_neg hz, if_pos h.next.symm]
        have hdrop : (seg.payload.drop (b.next - o).toNat).take space.toNat =
            p.data.drop (b.next - o).toNat := by
          rw [hdata, List.drop_take]
          congr 1
          omega
        have hin := h.inOrder hw hlt seg (p := p) (n := (b.next - o).toNat) (by omega) (by omega)
          (hle (not_le.mp hz)) (by omega)
        rw [hdrop]
        exact Or.inr ⟨_, _, not_le.mp hz, rfl, hin.1, hin.2⟩
  · rw [if_neg (by simpa using hb)]
    rw [max_eq_left (not_lt.mp hb)] at hspace hdata hstop
    unfold recvTrimmed
    dsimp only
    rw [hspace]
    by_cases hz : space ≤ 0
    · rw [if_pos hz]
      exact Or.inl ⟨rfl, Or.inr hz⟩
    · rw [if_neg hz, h.next]
      apply Or.inr
      have hle := hle (not_le.mp hz)
      have htake : seg.payload.take space.toNat = p.data := by
        rw [hdata]
        congr 1
        omega
      rw [htake]
      by_cases heq : o = b.next
      · rw [if_pos (by rw [heq])]
        have hin := h.inOrder hw hlt seg (p := p) (n := 0) (by omega) (by omega) hle (by omega)
        exact ⟨_, _, not_le.mp hz, rfl, hin.1, hin.2⟩
      · rw [if_neg (by rw [add_inj (by omega) (by omega)]; exact heq), ← hstart]
        have hst := h.storeOoo hw hlt seg.flags (p := p) ⟨by omega, by omega⟩
        refine ⟨_, true, not_le.mp hz, rfl, storeOoo_text _ _ _, ?_⟩
        rw [Buffer.offer, if_neg (by omega), if_neg (by omega)]
        exact hst

/-- Where the text itself ends before the buffer does, what fits the window is offered. -/
theorem Mirrors.recvData (h : Mirrors base old buf e b) (hw : b.Within lo hi)
    (hlt : hi < lo + 2147483648) {seg : TcpSegment} {o : Int} (hne : seg.payload ≠ [])
    (hseq : seg.seq = add base o) (ho : b.next ≤ o + 2147483648 ∧ o < b.next + 2147483648)
    (hwnd : e.rcvWnd < 2147483648) (hend : o + seg.payload.length ≤ hi) :
    (e.recvData seg = e.scheduleAck true ∧
      (o + seg.payload.length ≤ b.next ∨ b.next + e.rcvWnd ≤ max o b.next)) ∨
    ∃ f force, e.recvData seg = f.scheduleAck force ∧ TextFrame e f ∧
      Mirrors base old buf f (b.offer (fitting b e.rcvWnd o seg.payload)) := by
  have hspace : s32 (sub (add e.tcb.rcvNxt e.rcvWnd) (add base (max o b.next))) =
      b.next + e.rcvWnd - max o b.next := by
    rw [h.next, add_add, sub_def]
    simp only [add_def]
    exact s32_eq_of_congr (by omega) (by omega) (by omega)
  have hp : fitting b e.rcvWnd o seg.payload = ⟨o, seg.payload.take
      (max o b.next - o + (b.next + e.rcvWnd - max o b.next)).toNat⟩ := by
    rw [fitting, sub_add_sub_cancel']
  have hle : 0 < b.next + e.rcvWnd - max o b.next →
      (fitting b e.rcvWnd o seg.payload).stop ≤ hi := fun _ =>
    (fitting_stop_le b e.rcvWnd o seg.payload).trans hend
  rcases h.recvText hw hlt hne hseq ho hspace hp hle with ⟨h1, h2⟩ | ⟨f, force, -, h1⟩
  · exact Or.inl ⟨h1, h2.imp_right fun h3 => by omega⟩
  · exact Or.inr ⟨f, force, h1⟩

end TcpEngine

end HdlPlayground.Tcp
