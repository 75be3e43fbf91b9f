import HdlPlayground.Tcp.Arrivals
import HdlPlayground.Tcp.Options
import HdlPlayground.Tcp.PeerFin
import HdlPlayground.Tcp.Probes
import HdlPlayground.Tcp.Reassembly
import HdlPlayground.Tcp.Window

/-!
# Text in any order

The text of one stream arrives in pieces, in any order and any number of times. An open
engine with nothing pending delivers the stream up to the first gap, and consumes the FIN
of the peer once the text before it is complete. The window never falls short of the edge
it first offered, so that no piece before that edge is clipped.
-/
namespace HdlPlayground.Tcp

open Lib (Piece Buffer slice)

namespace TcpEngine

variable {e f : TcpEngine} {W : Nat} {R n m : Int}

/-! ## The window and the edge first offered -/

/-- The edge `R + W` stays within reach of the window at `R + n`: the advertised edge is at
it or past it, or so far behind or ahead that it is not held back. -/
def Reaches (R : Int) (W : Nat) (n : Int) (e : TcpEngine) : Option Int → Prop
  | none => True
  | some right => e.conf.cfg.swsAvoidance = true → sub right (add R W) < 2147483648 ∨
      ((e.edgeStep : Int) ≤ e.lead right ∧ e.lead right ≤ 2147483648 + n)

/-- The numbers of the receive side: RCV.NXT is at `R + n`, and the room goes to `R + W`. -/
structure Ample (R : Int) (W : Nat) (n : Int) (e : TcpEngine) : Prop where
  next : e.tcb.rcvNxt = add R n
  front : 0 ≤ n ∧ n ≤ W
  room : (W : Int) ≤ n + e.room
  small : e.conf.rcvWndMax ≤ 1073741823

theorem Ample.edgeStep (h : Ample R W n e) : e.edgeStep ≤ 536870911 := by
  have := h.small
  unfold TcpEngine.edgeStep
  omega

theorem Ample.le (h : Ample R W n e) : e.room ≤ 1073741823 := by
  have := h.small
  unfold TcpEngine.room
  omega

/-- A held edge within reach is not before `R + W`. -/
theorem Ample.held {right : Int} (h : Ample R W n e) (hr : Reaches R W n e (some right))
    (hh : e.HeldBack right) :
    s32 (sub right e.tcb.rcvNxt) = e.room - e.lead right ∧ W ≤ n + (e.room - e.lead right) := by
  obtain ⟨hs, h0, h1, h2⟩ := hh
  have hstep := h.edgeStep
  have hle := h.le
  have hfront := h.front
  have hroom := h.room
  have hl := lead_def (e := e) right
  rw [h.next, add_def] at hl
  rcases hr hs with hr | ⟨hr, -⟩
  · rw [sub_def, add_def] at hr
    have hw : W ≤ n + (e.room - e.lead right) := by omega
    refine ⟨s32_eq_of_congr ?_ (by omega) (by omega), hw⟩
    rw [sub_def, h.next, add_def]
    omega
  · omega

theorem Ample.wnd (h : Ample R W n e) (hr : Reaches R W n e e.adv.advRight) :
    (W : Int) ≤ n + e.rcvWnd ∧ e.rcvWnd ≤ e.room := by
  have hroom := h.room
  cases ha : e.adv.advRight with
  | none =>
    rw [rcvWnd_none ha]
    omega
  | some right =>
    rw [ha] at hr
    by_cases hh : e.HeldBack right
    · obtain ⟨h1, h2⟩ := h.held hr hh
      have h0 := hh.2.1
      have hfront := h.front
      rw [rcvWnd_held ha hh, h1]
      omega
    · rw [rcvWnd_open ha hh]
      omega

/-- Building a segment keeps the edge within reach. -/
theorem Ample.advertise (h : Ample R W n e) (hr : Reaches R W n e e.adv.advRight) :
    Reaches R W n e e.advertise.adv.advRight := by
  have hroom := h.room
  have hle := h.le
  have hfront := h.front
  cases ha : e.adv.advRight with
  | none =>
    rw [advertise_none ha]
    refine fun _ => Or.inl ?_
    rw [offered, rcvWnd_none ha, h.next, sub_def]
    simp only [add_def]
    omega
  | some right =>
    rw [ha] at hr
    rw [advertise_some ha]
    split
    · next hg =>
      refine fun _ => Or.inl ?_
      by_cases hh : e.HeldBack right
      · obtain ⟨h1, h2⟩ := h.held hr hh
        rw [seqGt_iff, offered, rcvWnd_held ha hh, h1] at hg
        have hl := lead_def (e := e) right
        rw [h.next, add_def] at hl
        rw [h.next] at hg
        simp only [add_def] at hg
        omega
      · rw [offered, rcvWnd_open ha hh, h.next, sub_def]
        simp only [add_def]
        omega
    · exact hr

/-- Delivery keeps it within reach, whether the text goes to the sink or takes room. -/
theorem Reaches.deliver {right : Option Int} (hr : Reaches R W n e right) (hn : n ≤ m)
    (hw : 0 ≤ n ∧ m ≤ 1073741823) (he : e.tcb.rcvNxt = add R n) (hf : f.tcb.rcvNxt = add R m)
    (hs : f.edgeStep = e.edgeStep) (hc : f.conf = e.conf)
    (hroom : n + e.room ≤ m + f.room ∧ m + f.room ≤ m + e.room) : Reaches R W m f right := by
  cases right with
  | none => trivial
  | some right =>
    intro hsws
    rw [hc] at hsws
    rcases hr hsws with hr | ⟨h1, h2⟩
    · exact Or.inl hr
    · apply Or.inr
      have hle := lead_def (e := e) right
      have hlf := lead_def (e := f) right
      rw [he, add_def] at hle
      rw [hf, add_def] at hlf
      rw [hs]
      omega

/-- The edge offered first is within reach from the start. -/
theorem reaches_start (hs : e.conf.rcvWndMax ≤ 1073741823) :
    e.rcvWnd ≤ e.room ∧
      (e.rcvWnd = 0 ∨ Reaches e.tcb.rcvNxt e.rcvWnd 0 e e.adv.advRight) := by
  have hle : e.room ≤ 1073741823 := by
    unfold TcpEngine.room
    omega
  have hstep : e.edgeStep ≤ 536870911 := by
    unfold TcpEngine.edgeStep
    omega
  cases ha : e.adv.advRight with
  | none =>
    rw [rcvWnd_none ha]
    exact ⟨le_refl _, Or.inr trivial⟩
  | some right =>
    have hl := lead_def (e := e) right
    by_cases hh : e.HeldBack right
    · obtain ⟨-, h0, h1, h2⟩ := id hh
      rw [rcvWnd_held ha hh]
      have hs32 : s32 (sub right e.tcb.rcvNxt) = e.room - e.lead right := by
        refine s32_eq_of_congr ?_ (by omega) (by omega)
        rw [sub_def]
        omega
      rw [hs32]
      refine ⟨by omega, ?_⟩
      by_cases hz : (e.room : Int) ≤ e.lead right
      · exact Or.inl (by omega)
      · refine Or.inr fun _ => Or.inl ?_
        rw [sub_def, add_def]
        omega
    · rw [rcvWnd_open ha hh]
      refine ⟨le_refl _, Or.inr fun hsws => ?_⟩
      by_cases hz : sub right (add e.tcb.rcvNxt e.room) < 2147483648
      · exact Or.inl hz
      · right
        rw [sub_def, add_def] at hz
        have hstep' :
            ¬ (0 < e.lead right ∧ e.lead right < 2147483648 ∧ e.lead right < e.edgeStep) :=
          fun hc => hh ⟨hsws, hc⟩
        omega

/-! ## The send side meanwhile -/

/-- No FIN is to be sent, and no more is in flight than half the sequence space. -/
structure Mild (e : TcpEngine) : Prop where
  noFin : e.fin.finPending = false
  mss : 1 ≤ e.tcb.sndMss
  wnd : e.tcb.sndWnd < 65536
  flight : sub e.tcb.sndNxt e.tcb.sndUna ≤ 2147483648
  live : e.env.hung = false

/-- At most the send side has moved. -/
structure Calm (e f : TcpEngine) : Prop where
  frame : SendFrame e f
  advertises : Advertises e f
  state : f.tcb.state = e.tcb.state
  una : f.tcb.sndUna = e.tcb.sndUna
  delivered : f.delivered = e.delivered
  mild : f.Mild

theorem Calm.trans {g : TcpEngine} (h : Calm e f) (h' : Calm f g) : Calm e g where
  frame := h.frame.trans h'.frame
  advertises := h.advertises.trans h.frame h'.advertises
  state := h'.state.trans h.state
  una := h'.una.trans h.una
  delivered := h'.delivered.trans h.delivered
  mild := h'.mild

theorem Mild.sendChunk (h : e.Mild) (hw : 0 < e.usableWindow) : (e.sendChunk e.chunkLen).Mild := by
  have hwnd := h.wnd
  have hfl := h.flight
  have hnxt : (e.sendChunk e.chunkLen).tcb.sndNxt = add e.tcb.sndNxt e.chunkLen := by
    have hlen : e.chunkLen ≤ e.buf.appBuf.length := by
      unfold chunkLen
      omega
    have hseg : ((e.takeChunk e.chunkLen).outgoing (e.takeChunk e.chunkLen).chunkFlags
        (e.buf.appBuf.take e.chunkLen)).segLen = e.chunkLen := by
      simp [Outgoing.segLen, chunkFlags, hlen]
    simp only [sendChunk_tcb, queueChunk, queueAndSend_tcb, takeChunk_tcb]
    rw [Outgoing.endSeq, hseg]
    rfl
  constructor
  · simpa using h.noFin
  · simpa using h.mss
  · simpa using h.wnd
  · have huna : (e.sendChunk e.chunkLen).tcb.sndUna = e.tcb.sndUna := by simp [queueChunk]
    have hnn : 0 ≤ sub e.tcb.sndNxt e.tcb.sndUna := by
      rw [sub_def]
      omega
    have hu : e.usableWindow = e.tcb.sndWnd - sub e.tcb.sndNxt e.tcb.sndUna := by
      rw [usableWindow]
      refine s32_eq_of_congr ?_ (by omega) (by omega)
      simp only [sub_def, add_def]
      omega
    have hle : (e.chunkLen : Int) ≤ e.usableWindow := by
      simp only [chunkLen]
      omega
    rw [hnxt, huna, sub_def, add_def]
    rw [sub_def] at hu hfl
    omega
  · simpa using h.live

theorem SendRun.mild {r : TcpEngine × Bool} (hr : SendRun e r) (h : e.Mild)
    (hl : r.1.env.hung = false) : r.1.Mild := by
  induction hr with
  | empty => exact h
  | closed => exact ⟨by simpa using h.noFin, by simpa using h.mss, by simpa using h.wnd,
      by simpa using h.flight, by simpa using h.live⟩
  | held => exact h
  | hang => cases hl
  | chunk e r _ _ hu _ _ ih => exact ih (h.sendChunk hu) hl

theorem SendRun.una {r : TcpEngine × Bool} (hr : SendRun e r) :
    r.1.tcb.sndUna = e.tcb.sndUna := by
  induction hr with
  | chunk e r _ _ _ _ _ ih =>
    rw [ih]
    simp [queueChunk]
  | _ => simp

theorem tx_bytes (s : TcpSegment) : Event.bytes (.tx s) = [] := rfl

theorem change_bytes (o n : ConnState) : Event.bytes (.stateChange o n) = [] := rfl

/-- Buffered data may go out. -/
theorem sendPending_calm (h : e.Mild) : Calm e e.sendPending := by
  have hdue {g : TcpEngine} (hg : g.fin = e.fin) : g.finPart = g := by
    have hnd : ¬ g.FinDue := fun hd => by
      have := hd.1
      rw [hg, h.noFin] at this
      cases this
    rcases g.finPart_cases with ⟨-, hp⟩ | ⟨hd, -⟩ | ⟨hd, -⟩ | ⟨hd, -⟩
    · exact hp
    · exact absurd hd hnd
    · exact absurd hd hnd
    · exact absurd hd hnd
  have hlive : e.sendPending.env.hung = false := by
    unfold sendPending
    split
    · have hhung := dataLoop_hung e.buf.appBuf.length h.mss (le_refl _)
      have hfin := (dataLoop_run e.buf.appBuf.length e).fin
      rw [h.live] at hhung
      dsimp only
      split
      · rw [hdue hfin]
        exact hhung
      · exact hhung
    · exact h.live
  have hrest : e.sendPending.tcb.state = e.tcb.state ∧ e.sendPending.tcb.sndUna = e.tcb.sndUna ∧
      e.sendPending.Mild := by
    rcases e.sendPending_cases with ⟨-, hp⟩ | ⟨-, hr⟩ | ⟨-, g, hr, hp⟩
    · rw [hp]
      exact ⟨rfl, rfl, h⟩
    · exact ⟨hr.state, hr.una, hr.mild h hlive⟩
    · rw [hdue hr.fin] at hp
      rw [hp] at hlive ⊢
      exact ⟨hr.state, hr.una, hr.mild h hlive⟩
  exact ⟨sendPending_frame, sendPending_advertises, hrest.1, hrest.2.1,
    Logs.delivered (sendPending_logs tx_bytes change_bytes), hrest.2.2⟩

theorem windowUpdate_calm {seg : TcpSegment} (h : e.Mild) (hf : seg.Fits) :
    Calm e (e.windowUpdate seg) := by
  have hm : (e.setSendWindow seg.window seg.seq seg.ack).Mild :=
    ⟨h.noFin, h.mss, hf.window, h.flight, h.live⟩
  have hset : Calm e (e.setSendWindow seg.window seg.seq seg.ack) :=
    ⟨⟨rfl, rfl, rfl, rfl, rfl, rfl⟩, .of_eq rfl, rfl, rfl, rfl, hm⟩
  unfold windowUpdate
  dsimp only
  split_ifs
  · refine hset.trans
      (Calm.trans (f := (e.setSendWindow seg.window seg.seq seg.ack).dropPersistTimer)
      ?_ (sendPending_calm ?_))
    · exact ⟨⟨rfl, rfl, rfl, rfl, rfl, rfl⟩, .of_eq rfl, rfl, rfl, rfl, hm.1, hm.2, hm.3, hm.4,
        hm.5⟩
    · exact ⟨hm.1, hm.2, hm.3, hm.4, hm.5⟩
  · exact hset
  · exact ⟨.refl e, .of_eq rfl, rfl, rfl, rfl, h⟩

theorem sendAck_calm (h : e.Mild) : Calm e e.sendAck where
  frame := by constructor <;> simp
  advertises := .once (sendAck_adv e)
  state := by simp
  una := by simp
  delivered := Logs.delivered (.one (.tx e.ackSegment) (by simp) rfl)
  mild := ⟨by simpa using h.noFin, by simpa using h.mss, by simpa using h.wnd,
    by simpa using h.flight, by simpa using h.live⟩

theorem scheduleAck_calm (force : Bool) (h : e.Mild) : Calm e (e.scheduleAck force) where
  frame := by constructor <;> simp
  advertises := scheduleAck_advertises force
  state := by simp
  una := by simp
  delivered := Logs.delivered (scheduleAck_logs (fun g => tx_bytes g.ackSegment) force)
  mild := ⟨by simpa using h.noFin, by simpa using h.mss, by simpa using h.wnd,
    by simpa using h.flight, by simpa using h.live⟩

theorem enter_calm (h : e.Mild) : Calm e e.enter.heard where
  frame := by constructor <;> simp
  advertises := .of_eq (by simp)
  state := by simp
  una := by simp
  delivered := by simp [TcpEngine.delivered, enter]
  mild := ⟨by simpa using h.noFin, by simpa using h.mss, by simpa using h.wnd,
    by simpa using h.flight, by simpa [enter] using h.live⟩

theorem TextFrame.mild (ht : TextFrame e f) (h : e.Mild) : f.Mild := by
  obtain ⟨r, u, htcb⟩ := ht.recv.tcb
  exact ⟨by rw [ht.recv.fin]; exact h.noFin, by rw [htcb]; exact h.mss, by rw [htcb]; exact h.wnd,
    by rw [htcb]; exact h.flight, ht.hung.trans h.live⟩

/-! ## Taking text -/

theorem SendFrame.reaches {right : Option Int} (h : SendFrame e f) :
    Reaches R W n f right ↔ Reaches R W n e right := by
  have hstep : f.edgeStep = e.edgeStep := by rw [TcpEngine.edgeStep, h.sndMss, h.conf]; rfl
  have hroom : f.room = e.room := by rw [TcpEngine.room, h.conf, h.recvBuf]; rfl
  cases right with
  | none => exact Iff.rfl
  | some right =>
    have hlead : f.lead right = e.lead right := by rw [lead, h.rcvNxt, hroom]; rfl
    rw [Reaches, Reaches, hstep, hlead, h.conf]

variable {o : TcpEngine} {g : Int → UInt8} {edge : Int} {ps : List (Piece UInt8)} {b : Buffer UInt8}

/-- The engine `o` to start with, and the edge that the text goes up to. -/
structure Start (o : TcpEngine) (edge : Int) : Prop where
  small : o.conf.rcvWndMax ≤ 1073741823
  fits : o.rcvWnd ≤ o.room
  edge : 0 ≤ edge ∧ edge ≤ o.rcvWnd

/-- From the engine `o` on, the pieces `ps` of the stream `g` have been taken. -/
structure Taking (o : TcpEngine) (g : Int → UInt8) (edge : Int) (ps : List (Piece UInt8))
    (e : TcpEngine)
    (b : Buffer UInt8) : Prop where
  mild : e.Mild
  state : e.tcb.state = .established
  una : e.tcb.sndUna = o.tcb.sndUna
  conf : e.conf = o.conf
  mss : e.tcb.sndMss = o.tcb.sndMss
  mirrors : Mirrors o.tcb.rcvNxt o.delivered o.buf.recvBuf e b
  stands : b.Stands g 0 (Buffer.coverage ps)
  settled : b.Settled
  within : b.Within (-1073741824) edge
  reach : o.rcvWnd = 0 ∨ Reaches o.tcb.rcvNxt o.rcvWnd b.next e e.adv.advRight

theorem Mirrors.room_eq {old : List UInt8} {base : Int} (h : Mirrors base old o.buf.recvBuf e b)
    (hs : b.Stands g 0 (Buffer.coverage ps)) (hc : e.conf = o.conf) (hle : b.next ≤ o.room) :
    (e.room : Int) = if o.conf.onData then (o.room : Int) else o.room - b.next := by
  have hr := h.recvBuf
  rw [hc] at hr
  have hfront := hs.front
  have hlen : (b.out.length : Int) = b.next := by
    rw [hs.out, Lib.length_slice]
    omega
  unfold TcpEngine.room at hle ⊢
  rw [hc, hr]
  split
  · rfl
  · rw [List.length_append]
    omega

theorem Taking.ample (h : Taking o g edge ps e b) (ho : o.Start edge) :
    Ample o.tcb.rcvNxt o.rcvWnd b.next e := by
  have hfits := ho.fits
  have hedge := ho.edge
  have hfront := h.within.front.2
  have hroom := h.mirrors.room_eq h.stands h.conf (by omega)
  refine ⟨h.mirrors.next, ⟨h.stands.front, by omega⟩, ?_, by rw [h.conf]; exact ho.small⟩
  have := h.stands.front
  rw [hroom]
  split <;> omega

/-- The window has not fallen short of where it went first. -/
theorem Taking.wnd (h : Taking o g edge ps e b) (ho : o.Start edge) :
    (o.rcvWnd : Int) ≤ b.next + e.rcvWnd ∧ e.rcvWnd ≤ e.room := by
  have hample := h.ample ho
  rcases h.reach with hz | hr
  · have := hample.front
    exact ⟨by omega, (reaches_start hample.small).1⟩
  · exact hample.wnd hr

theorem Taking.calm (h : Taking o g edge ps e b) (ho : o.Start edge) (hc : Calm e f) :
    Taking o g edge ps f b where
  mild := hc.mild
  state := hc.state.trans h.state
  una := hc.una.trans h.una
  conf := hc.frame.conf.trans h.conf
  mss := hc.frame.sndMss.trans h.mss
  mirrors := h.mirrors.same hc.frame.rcvNxt hc.frame.ooo hc.frame.recvBuf hc.frame.conf hc.delivered
  stands := h.stands
  settled := h.settled
  within := h.within
  reach := by
    refine h.reach.imp_right fun hr => ?_
    rw [hc.frame.reaches]
    refine hc.advertises (Reaches o.tcb.rcvNxt o.rcvWnd b.next e) (fun k hk hq => ?_) hr
    have hample := h.ample ho
    have hk' : Ample o.tcb.rcvNxt o.rcvWnd b.next k := by
      refine ⟨hk.rcvNxt.trans hample.next, hample.front, ?_, by rw [hk.conf]; exact hample.small⟩
      have hroom : k.room = e.room := by rw [TcpEngine.room, hk.conf, hk.recvBuf]; rfl
      rw [hroom]
      exact hample.room
    rw [← hk.reaches]
    exact hk'.advertise (hk.reaches.mpr hq)

/-- The text of a segment within the edge is taken, or was before. -/
theorem Taking.recvData {seg : TcpSegment} {pos : Int} (h : Taking o g edge ps e b)
    (ho : o.Start edge)
    (hne : seg.payload ≠ []) (hseq : seg.seq = add o.tcb.rcvNxt pos) (hlow : -1073741824 ≤ pos)
    (hhigh : pos + seg.payload.length ≤ edge) (hg : Piece.Agrees g ⟨pos, seg.payload⟩) :
    Taking o g edge (ps ++ [⟨pos, seg.payload⟩]) (e.recvData seg) (b.offer ⟨pos, seg.payload⟩) := by
  have hample := h.ample ho
  have hle := hample.le
  have hsmall := hample.front
  have hroom := hample.room
  have hstop : (⟨pos, seg.payload⟩ : Piece UInt8).stop = pos + seg.payload.length := rfl
  have hofit := ho.fits
  have hedge := ho.edge
  have hoRoom : o.room ≤ 1073741823 := by
    have := ho.small
    unfold TcpEngine.room
    omega
  have hlen : 0 < seg.payload.length := List.length_pos_iff.mpr hne
  have hwnd := h.wnd ho
  have hstands := h.stands.offer hg
  rw [← Buffer.coverage_append] at hstands
  have hw' := h.within.offer (p := ⟨pos, seg.payload⟩) (by rw [hstop]; exact hhigh)
  rcases h.mirrors.recvData h.within (by omega) hne hseq (by omega) (by omega) hhigh with
    ⟨heq, hcase⟩ | ⟨f, force, heq, htext, hm⟩
  · have hoffer : b.offer ⟨pos, seg.payload⟩ = b := if_pos (by rw [hstop]; omega)
    rw [heq]
    rw [hoffer] at hstands ⊢
    exact Taking.calm ⟨h.mild, h.state, h.una, h.conf, h.mss, h.mirrors, hstands, h.settled,
      h.within, h.reach⟩ ho (scheduleAck_calm true h.mild)
  · rw [heq]
    have hfit : fitting b e.rcvWnd pos seg.payload = ⟨pos, seg.payload⟩ := by
      unfold fitting
      rw [List.take_of_length_le (by omega)]
    rw [hfit] at hm
    have hmild := htext.mild h.mild
    obtain ⟨r, u, htcb⟩ := htext.recv.tcb
    have hconf : f.conf = o.conf := htext.recv.conf.trans h.conf
    have hmss : f.tcb.sndMss = o.tcb.sndMss := htext.recv.mss.trans h.mss
    refine Taking.calm ⟨hmild, htext.recv.state.trans h.state, ?_, hconf, hmss, hm, hstands,
      h.settled.offer _, hw', ?_⟩ ho (scheduleAck_calm force hmild)
    · rw [htcb]
      exact h.una
    · refine h.reach.imp_right fun hr => ?_
      rw [htext.adv]
      have hre := h.mirrors.room_eq h.stands h.conf (by omega)
      have hrf := hm.room_eq hstands hconf (le_trans hw'.front.2 (by omega))
      have hgrow : b.next ≤ (b.offer ⟨pos, seg.payload⟩).next := b.next_le_offer _
      have hfr := hw'.front.2
      refine hr.deliver hgrow ⟨h.stands.front, by omega⟩ h.mirrors.next hm.next ?_
        htext.recv.conf ?_
      · rw [TcpEngine.edgeStep, TcpEngine.edgeStep, htext.recv.mss, htext.recv.conf]
      · rw [hre, hrf]
        split <;> omega

/-! ## The FIN -/

/-- The FIN at the end of the text has been seen, and waits for the text before it. -/
def FinWaits (o : TcpEngine) (edge : Int) (seen : Prop) (e : TcpEngine) : Prop :=
  (¬ seen ∧ e.fin.pendingFin = none) ∨ (seen ∧ e.fin.pendingFin = some (add o.tcb.rcvNxt edge))

/-- The FIN has been consumed: all the text is there. -/
structure Finished (o : TcpEngine) (g : Int → UInt8) (edge : Int) (e : TcpEngine) : Prop where
  mild : e.Mild
  state : e.tcb.state = .closeWait
  una : e.tcb.sndUna = o.tcb.sndUna
  conf : e.conf = o.conf
  pending : e.fin.pendingFin = none
  next : e.tcb.rcvNxt = add o.tcb.rcvNxt (edge + 1)
  delivered : e.delivered = o.delivered ++ slice g 0 edge
  recvBuf : e.buf.recvBuf = if o.conf.onData then o.buf.recvBuf else o.buf.recvBuf ++ slice g 0 edge

theorem Taking.processFin (h : Taking o g edge ps e b) (hb : b.next = edge) :
    Finished o g edge e.processFin := by
  have hp : e.processFin = e.consumeFin.sendAck.setState .closeWait := by
    obtain ⟨st, hst, hp⟩ | ⟨hst, -⟩ := processFin_cases (e := e)
    · rw [hp]
      rcases hst with ⟨-, rfl⟩ | ⟨hst, -⟩ | ⟨hst, -⟩
      · rfl
      · rw [h.state] at hst
        cases hst
      · rw [h.state] at hst
        simp at hst
    · rw [h.state] at hst
      cases hst
  have hout : b.out = slice g 0 edge := by rw [h.stands.out, hb]
  have hm := h.mirrors
  constructor
  · rw [hp]
    exact ⟨by simpa using h.mild.noFin, by simpa using h.mild.mss, by simpa using h.mild.wnd,
      by simpa using h.mild.flight, by simpa using h.mild.live⟩
  · rw [hp]
    simp
  · rw [hp]
    simpa using h.una
  · rw [hp]
    simpa using h.conf
  · exact processFin_pendingFin
  · rw [processFin_rcvNxt, hm.next, hb, add_add]
  · rw [← hout, ← hm.out]
    exact Logs.delivered (processFin_logs rfl rfl fun _ => rfl)
  · rw [hp, ← hout, ← h.conf, ← hm.recvBuf]
    simp

theorem Taking.finCheck {seg : TcpSegment} {seen : Prop} (h : Taking o g edge ps e b)
    (ho : o.Start edge) (hw : FinWaits o edge seen e)
    (hfin : seg.fin = true → add seg.seq seg.payload.length = add o.tcb.rcvNxt edge) :
    (b.next < edge ∨ ¬ (seen ∨ seg.fin = true)) ∧
        Taking o g edge ps (e.finCheck seg).checkPendingFin b ∧
        FinWaits o edge (seen ∨ seg.fin = true) (e.finCheck seg).checkPendingFin ∨
      b.next = edge ∧ (seen ∨ seg.fin = true) ∧
        Finished o g edge (e.finCheck seg).checkPendingFin := by
  have hfront := h.within.front.2
  have h0 := h.stands.front
  have hnext := h.mirrors.next
  have hedge := ho.edge
  have hofit := ho.fits
  have hoRoom : o.room ≤ 1073741823 := by
    have := ho.small
    unfold TcpEngine.room
    omega
  unfold TcpEngine.finCheck
  by_cases hf : seg.fin = true
  · rw [if_pos hf]
    dsimp only
    rw [hfin hf]
    by_cases hb : b.next = edge
    · right
      rw [if_pos (by rw [hnext, hb]), checkPendingFin, if_neg (by simp [processFin_pendingFin])]
      exact ⟨hb, Or.inr hf, h.processFin hb⟩
    · left
      have hne : ¬ e.tcb.rcvNxt = add o.tcb.rcvNxt edge := by
        rw [hnext, add_inj (by omega) (by omega)]
        exact hb
      have hgt : seqGt (add o.tcb.rcvNxt edge) e.tcb.rcvNxt = true := by
        rw [hnext, seqGt_add_add (by omega) (by omega)]
        simpa using lt_of_le_of_ne hfront hb
      rw [if_neg hne, if_pos hgt, checkPendingFin,
        if_neg
          (by show ¬ some (add o.tcb.rcvNxt edge) = some e.tcb.rcvNxt; simpa using Ne.symm hne)]
      refine
        ⟨Or.inl (lt_of_le_of_ne hfront hb), ⟨⟨h.mild.noFin, h.mild.mss, h.mild.wnd, h.mild.flight,
        h.mild.live⟩, h.state, h.una, h.conf, h.mss, h.mirrors.same rfl rfl rfl rfl rfl, h.stands,
        h.settled, h.within, h.reach⟩, Or.inr ⟨Or.inr hf, rfl⟩⟩
  · rw [if_neg hf, checkPendingFin]
    rcases hw with ⟨hs, hp⟩ | ⟨hs, hp⟩
    · rw [hp, if_neg (by simp)]
      exact Or.inl ⟨Or.inr (by tauto), h, Or.inl ⟨by tauto, hp⟩⟩
    · rw [hp, hnext]
      by_cases hb : b.next = edge
      · rw [if_pos (by rw [hb])]
        exact Or.inr ⟨hb, Or.inl hs, h.processFin hb⟩
      · have hne : ¬ edge = b.next := Ne.symm hb
        rw [if_neg (by rw [Option.some_inj, add_inj (by omega) (by omega)]; exact hne)]
        exact Or.inl ⟨Or.inl (lt_of_le_of_ne hfront hb), h, Or.inr ⟨Or.inl hs, hp⟩⟩

/-! ## One segment of the stream -/

/-- A segment of the stream, and where it stands relative to RCV.NXT at the start. -/
structure Fragment where
  data : List UInt8
  seg : TcpSegment
  pos : Int

def Fragment.piece (r : Fragment) : Piece UInt8 := ⟨r.pos, r.seg.payload⟩

/-- It belongs to the connection of `o`, acknowledges nothing new, and carries text of the
stream `g` that ends at the edge at most; its FIN is at the edge, inside the window. -/
structure Fragment.Fits (o : TcpEngine) (g : Int → UInt8) (edge : Int) (r : Fragment) : Prop where
  parsed : TcpSegment.parse r.data = .ok r.seg
  addressed : o.Addressed r.seg
  rst : r.seg.rst = false
  syn : r.seg.syn = false
  ackFlag : r.seg.ackFlag = true
  ack : r.seg.ack = o.tcb.sndUna
  text : r.seg.payload ≠ []
  seq : r.seg.seq = add o.tcb.rcvNxt r.pos
  low : -1073741824 ≤ r.pos
  high : r.piece.stop ≤ edge
  agrees : r.piece.Agrees g
  fin : r.seg.fin = true → r.piece.stop = edge ∧ edge < o.rcvWnd

theorem establishedAck_mild {seg : TcpSegment} (h : e.Mild) (hf : seg.Fits)
    (hs : e.tcb.state = .established ∨ e.tcb.state = .closeWait) (ha : seg.ack = e.tcb.sndUna) :
    Calm e (e.windowUpdate seg) ∧ e.establishedAck seg = (e.windowUpdate seg).textAndFin seg := by
  have hfl := h.flight
  have hc := windowUpdate_calm h hf
  rw [sub_def] at hfl
  have hnxt : ¬ seqGt seg.ack e.tcb.sndNxt = true := by
    rw [ha, seqGt_iff]
    omega
  have huna : ¬ seqGt seg.ack e.tcb.sndUna = true := by
    rw [ha, seqGt_self]
    decide
  refine ⟨hc, ?_⟩
  rw [establishedAck, if_neg hnxt, if_neg huna]
  dsimp only
  rw [hc.state]
  rcases hs with hs | hs
  · rw [if_neg (by simp [hs]), if_neg (by simp [hs]), if_neg (by simp [hs])]
  · rw [if_neg (by simp [hs]), if_neg (by simp [hs]), if_neg (by simp [hs])]

/-- Text that is not old, and a FIN at the edge, pass the acceptability test. -/
theorem Taking.acceptable {r : Fragment} (h : Taking o g edge ps e b)
    (hr : r.Fits o g edge) (hw : edge ≤ b.next + e.rcvWnd)
    (hn : b.next < r.piece.stop ∨ r.seg.fin = true)
    (hlt : r.seg.fin = true → edge < b.next + e.rcvWnd)
    (hle : e.rcvWnd ≤ 1073741823) :
    acceptable r.seg.seq r.seg.segLen e.tcb.rcvNxt e.rcvWnd = true := by
  have hlen : 0 < r.seg.payload.length := List.length_pos_iff.mpr hr.text
  have hstop : r.piece.stop = r.pos + r.seg.payload.length := rfl
  have hseglen : r.seg.segLen = r.seg.payload.length + r.seg.fin.toNat := by
    simp [TcpSegment.segLen, hr.syn]
  have hhigh := hr.high
  have hlow := hr.low
  have hfront := h.within.front.2
  have h0 := h.stands.front
  have hlast :
      b.next ≤ r.pos + (r.seg.segLen - 1) ∧ r.pos + (r.seg.segLen - 1) < b.next + e.rcvWnd := by
    rw [hseglen]
    cases hf : r.seg.fin with
    | true =>
      have := hr.fin hf
      have := hlt hf
      simp only [Bool.toNat_true]
      omega
    | false =>
      rw [hf] at hn
      simp only [Bool.toNat_false, reduceCtorEq, or_false] at hn ⊢
      omega
  unfold Tcp.acceptable
  dsimp only
  rw [if_neg (by omega), if_neg (by omega), Bool.or_eq_true]
  right
  rw [hr.seq, h.mirrors.next, add_add, add_add, seqLeq_add_add (by omega) (by omega),
    seqLt_add_add (by omega) (by omega), Bool.and_eq_true, decide_eq_true_eq, decide_eq_true_eq]
  exact hlast

/-- The text so far has been taken: the FIN is still to come, or has been consumed. -/
def Taken (o : TcpEngine) (g : Int → UInt8) (edge : Int) (ps : List (Piece UInt8)) (seen : Prop)
    (e : TcpEngine) (b : Buffer UInt8) : Prop :=
  (b.next < edge ∨ ¬ seen) ∧ Taking o g edge ps e b ∧ FinWaits o edge seen e ∨
    b.next = edge ∧ seen ∧ Finished o g edge e

theorem step_handled {r : Fragment} (hr : r.Fits o g edge) (hc : e.conf = o.conf)
    (hl : (e.enter.heard.handle r.seg).env.hung = false) :
    engineMachine.step e (.segment r.data) = some (e.enter.heard.handle r.seg) := by
  have ha : e.enter.Addressed r.seg := by
    have := hr.addressed
    rw [Addressed] at this ⊢
    rw [enter_conf, hc]
    exact this
  have hseg := onSegment_handle (e := e.enter) hr.parsed ha
  simp only [engineMachine, Enabled, if_true, perform, hseg, hl]
  rfl

theorem Taking.arrives {r : Fragment} {seen : Prop} (h : Taking o g edge ps e b) (ho : o.Start edge)
    (hr : r.Fits o g edge) (hw : FinWaits o edge seen e) (hlt : b.next < edge ∨ ¬ seen) :
    ∃ e', engineMachine.step e (.segment r.data) = some e' ∧
      Taken o g edge (ps ++ [r.piece]) (seen ∨ r.seg.fin = true) e' (b.offer r.piece) := by
  have h1 := h.calm ho (enter_calm h.mild)
  have hfits := TcpSegment.fits_of_parse hr.parsed
  have hwnd := h1.wnd ho
  have hedge := ho.edge
  have hstop : r.piece.stop = r.pos + r.seg.payload.length := rfl
  have hcase : Taken o g edge (ps ++ [r.piece]) (seen ∨ r.seg.fin = true)
      (e.enter.heard.handle r.seg) (b.offer r.piece) ∧
      (e.enter.heard.handle r.seg).env.hung = false := by
    rw [handle_ack (by rw [h1.state]; simp) hr.rst hr.syn hr.ackFlag]
    by_cases hacc : Tcp.acceptable r.seg.seq r.seg.segLen e.enter.heard.tcb.rcvNxt
        e.enter.heard.rcvWnd = true
    · rw [if_pos hacc]
      obtain ⟨hc, heq⟩ := establishedAck_mild h1.mild hfits (Or.inl h1.state)
        (hr.ack.trans h1.una.symm)
      have h2 := h1.calm ho hc
      have h3 := h2.recvData ho hr.text hr.seq hr.low hr.high hr.agrees
      have h4 := h3.calm ho (sendPending_calm h3.mild)
      have hpend : ((e.enter.heard.windowUpdate r.seg).recvData r.seg).sendPending.fin.pendingFin =
          e.fin.pendingFin := by
        rw [sendPending_frame.pendingFin, (recvData_frame _ _).fin, hc.frame.pendingFin]
        simp
      have hseq :
          r.seg.fin = true → add r.seg.seq r.seg.payload.length = add o.tcb.rcvNxt edge := by
        intro hf
        have := (hr.fin hf).1
        rw [hr.seq, add_add]
        congr 1
      have hwaits : FinWaits o edge seen
          ((e.enter.heard.windowUpdate r.seg).recvData r.seg).sendPending := by
        rw [FinWaits, hpend]
        exact hw
      have hfin := h4.finCheck ho hwaits hseq
      rw [heq, textAndFin, if_pos ⟨hr.text, by rw [h2.state]; simp⟩]
      rcases hfin with ⟨ha, hb, hc⟩ | ⟨ha, hb, hc⟩
      · exact ⟨Or.inl ⟨ha, hb, hc⟩, hb.mild.live⟩
      · exact ⟨Or.inr ⟨ha, hb, hc⟩, hc.mild.live⟩
    · rw [if_neg hacc]
      have hroom := (h1.ample ho).le
      have hold : ¬ (b.next < r.piece.stop ∨ r.seg.fin = true) := fun hn =>
        hacc (h1.acceptable hr (by omega) hn (fun hf => by have := (hr.fin hf).2; omega) (by omega))
      have hoffer : b.offer r.piece = b := if_pos (by omega)
      have hstands := h.stands.offer hr.agrees
      rw [← Buffer.coverage_append, hoffer] at hstands
      have hnf : ¬ (seen ∨ r.seg.fin = true) ↔ ¬ seen := by tauto
      have hsa := h1.calm ho (sendAck_calm h1.mild)
      rw [hoffer]
      refine ⟨Or.inl ⟨by rw [hnf]; exact hlt, ⟨hsa.mild, hsa.state, hsa.una, hsa.conf, hsa.mss,
        hsa.mirrors, hstands, hsa.settled, hsa.within, hsa.reach⟩, ?_⟩, hsa.mild.live⟩
      have hpend : e.enter.heard.sendAck.fin.pendingFin = e.fin.pendingFin := by simp
      rw [FinWaits, hpend]
      rcases hw with ⟨hs, hp⟩ | ⟨hs, hp⟩
      · exact Or.inl ⟨hnf.mpr hs, hp⟩
      · exact Or.inr ⟨Or.inl hs, hp⟩
  exact ⟨_, step_handled hr h.conf hcase.2, hcase.1⟩

theorem Finished.calm (h : Finished o g edge e) (hc : Calm e f) : Finished o g edge f where
  mild := hc.mild
  state := hc.state.trans h.state
  una := hc.una.trans h.una
  conf := hc.frame.conf.trans h.conf
  pending := hc.frame.pendingFin.trans h.pending
  next := hc.frame.rcvNxt.trans h.next
  delivered := hc.delivered.trans h.delivered
  recvBuf := hc.frame.recvBuf.trans h.recvBuf

/-- Once the FIN has been consumed, segments of the stream change nothing. -/
theorem Finished.arrives {r : Fragment} (h : Finished o g edge e)
    (hr : r.Fits o g edge) :
    ∃ e', engineMachine.step e (.segment r.data) = some e' ∧ Finished o g edge e' := by
  have h1 := h.calm (enter_calm h.mild)
  have hfits := TcpSegment.fits_of_parse hr.parsed
  have hhandle : Finished o g edge (e.enter.heard.handle r.seg) := by
    rw [handle_ack (by rw [h1.state]; simp) hr.rst hr.syn hr.ackFlag]
    split
    · obtain ⟨hc, heq⟩ := establishedAck_mild h1.mild hfits (Or.inr h1.state)
        (hr.ack.trans h1.una.symm)
      have h2 := h1.calm hc
      have h3 := h2.calm (sendPending_calm h2.mild)
      have hcheck : ∀ k : TcpEngine, k.fin.pendingFin = none → k.checkPendingFin = k := by
        intro k hk
        rw [checkPendingFin, hk, if_neg (by simp)]
      rw [heq, textAndFin, if_neg (by rw [h2.state]; simp), TcpEngine.finCheck]
      by_cases hf : r.seg.fin = true
      · have hstop := (hr.fin hf).1
        have hseq : add r.seg.seq r.seg.payload.length = add o.tcb.rcvNxt edge := by
          rw [hr.seq, add_add]
          congr 1
        have hne : ¬ add o.tcb.rcvNxt (edge + 1) = add o.tcb.rcvNxt edge := by
          rw [add_inj (by omega) (by omega)]
          omega
        have hgt : ¬ seqGt (add o.tcb.rcvNxt edge) (add o.tcb.rcvNxt (edge + 1)) = true := by
          rw [seqGt_add_add (by omega) (by omega), decide_eq_true_eq]
          omega
        rw [if_pos hf]
        dsimp only
        rw [hseq, h3.next, if_neg hne, if_neg hgt, hcheck _ h3.pending]
        exact h3
      · rw [if_neg hf, hcheck _ h3.pending]
        exact h3
    · exact h1.calm (sendAck_calm h1.mild)
  exact ⟨_, step_handled hr h.conf hhandle.mild.live, hhandle⟩

/-! ## All of them -/

/-- The invariant of a run: the buffer stands for the pieces that have arrived. -/
structure Absorbed (o : TcpEngine) (g : Int → UInt8) (edge : Int) (ps : List (Piece UInt8))
    (seen : Prop) (e : TcpEngine) (b : Buffer UInt8) : Prop where
  stands : b.Stands g 0 (Buffer.coverage ps)
  settled : b.Settled
  taken : Taken o g edge ps seen e b

theorem Absorbed.arrives {r : Fragment} {seen : Prop} (h : Absorbed o g edge ps seen e b)
    (ho : o.Start edge) (hr : r.Fits o g edge) :
    ∃ e', engineMachine.step e (.segment r.data) = some e' ∧
      Absorbed o g edge (ps ++ [r.piece]) (seen ∨ r.seg.fin = true) e' (b.offer r.piece) := by
  have hstands := h.stands.offer hr.agrees
  rw [← Buffer.coverage_append] at hstands
  rcases h.taken with ⟨hlt, ht, hw⟩ | ⟨hb, hs, hf⟩
  · obtain ⟨e', hstep, ht'⟩ := ht.arrives ho hr hw hlt
    exact ⟨e', hstep, hstands, h.settled.offer _, ht'⟩
  · obtain ⟨e', hstep, hf'⟩ := hf.arrives hr
    have hoffer : b.offer r.piece = b := if_pos (by rw [hb]; exact hr.high)
    refine ⟨e', hstep, hstands, h.settled.offer _, Or.inr ⟨?_, Or.inl hs, hf'⟩⟩
    rw [hoffer]
    exact hb

theorem Absorbed.run {frags : List Fragment} {seen : Prop} (h : Absorbed o g edge ps seen e b)
    (ho : o.Start edge) (hfr : ∀ r ∈ frags, r.Fits o g edge) :
    ∃ e' b', engineMachine.run e (frags.map fun r => .segment r.data) = some e' ∧
      Absorbed o g edge (ps ++ frags.map Fragment.piece)
        (seen ∨ ∃ r ∈ frags, r.seg.fin = true) e' b' := by
  induction frags generalizing e b ps seen with
  | nil =>
    refine ⟨e, b, rfl, ?_⟩
    simpa using h
  | cons r frags ih =>
    obtain ⟨e1, hstep, h1⟩ := h.arrives ho (hfr r List.mem_cons_self)
    obtain ⟨e', b', hrun, h'⟩ := ih h1 fun q hq => hfr q (List.mem_cons_of_mem _ hq)
    refine ⟨e', b', ?_, ?_⟩
    · rw [List.map_cons, Lib.Machine.run_cons, hstep]
      exact hrun
    · have hseen : (seen ∨ r.seg.fin = true) ∨ (∃ q ∈ frags, q.seg.fin = true) ↔
          seen ∨ ∃ q ∈ r :: frags, q.seg.fin = true := by
        simp [or_assoc]
      rw [List.append_assoc, List.singleton_append] at h'
      exact ⟨h'.stands, h'.settled, (propext hseen) ▸ h'.taken⟩

theorem absorbed_start (hm : o.Mild) (hst : o.tcb.state = .established) (hooo : o.buf.ooo = [])
    (hp : o.fin.pendingFin = none) (hr : o.Ranged) (hs : o.conf.rcvWndMax ≤ 1073741823)
    (hedge : 0 ≤ edge ∧ edge ≤ o.rcvWnd) :
    Absorbed o g edge [] False o ⟨0, [], []⟩ ∧ o.Start edge := by
  have hw := reaches_start hs
  have hstands := Buffer.stands_empty g 0
  have hsettled : (⟨0, [], []⟩ : Buffer UInt8).Settled := fun _ hp => by cases hp
  refine ⟨⟨hstands, hsettled, Or.inl ⟨Or.inr id, ⟨hm, hst, rfl, rfl, rfl, ⟨?_, ?_, ?_, ?_⟩, hstands,
    hsettled, ⟨⟨by show (-1073741824 : Int) ≤ 0; decide, hedge.1⟩, fun _ hp => by cases hp⟩, hw.2⟩,
    Or.inl ⟨id, hp⟩⟩⟩, ⟨hs, hw.1, hedge⟩⟩
  · have := hr.rcvNxt
    show o.tcb.rcvNxt = add o.tcb.rcvNxt 0
    rw [add_def]
    omega
  · rw [hooo]
    exact .nil
  · simp
  · simp

/-- The engine has delivered the stream up to the first gap, and the FIN with it if it is
there. -/
def Reassembled (o : TcpEngine) (g : Int → UInt8) (edge : Int) (frags : List Fragment)
    (e : TcpEngine) : Prop :=
  ∃ n, Buffer.Gap 0 (Buffer.coverage (frags.map Fragment.piece)) n ∧
    e.delivered = o.delivered ++ slice g 0 n ∧
    (e.buf.recvBuf = if o.conf.onData then o.buf.recvBuf else o.buf.recvBuf ++ slice g 0 n) ∧
    ((n = edge ∧ ∃ r ∈ frags, r.seg.fin = true) ∧ e.tcb.state = .closeWait ∧
        e.tcb.rcvNxt = add o.tcb.rcvNxt (n + 1) ∨
      ¬ (n = edge ∧ ∃ r ∈ frags, r.seg.fin = true) ∧ e.tcb.state = .established ∧
        e.tcb.rcvNxt = add o.tcb.rcvNxt n)

theorem Absorbed.reassembled {frags : List Fragment}
    (h : Absorbed o g edge (frags.map Fragment.piece) (∃ r ∈ frags, r.seg.fin = true) e b) :
    Reassembled o g edge frags e := by
  refine ⟨b.next, h.stands.gap h.settled, ?_⟩
  rcases h.taken with ⟨hlt, ht, -⟩ | ⟨hb, hs, hf⟩
  · have hout := ht.stands.out
    refine ⟨by rw [ht.mirrors.out, hout], by rw [ht.mirrors.recvBuf, ht.conf, hout], Or.inr ⟨?_,
      ht.state, ht.mirrors.next⟩⟩
    rintro ⟨hn, hs⟩
    rcases hlt with hlt | hns
    · omega
    · exact hns hs
  · rw [hb]
    exact ⟨hf.delivered, hf.recvBuf, Or.inl ⟨⟨rfl, hs⟩, hf.state, hf.next⟩⟩

/-- The second byte of a stream of two, and the FIN. -/
def secondByte : Fragment where
  data := [0, 80, 3, 232, 0, 0, 3, 234, 0, 0, 0, 101, 80, 17, 0, 0, 0, 0, 0, 0, 8]
  seg :=
    { srcPort := 80, dstPort := 1000, seq := 1002, ack := 101,
      flags := { ack := true, fin := true }, payload := [8] }
  pos := 1

def firstByte : Fragment where
  data := [0, 80, 3, 232, 0, 0, 3, 233, 0, 0, 0, 101, 80, 16, 0, 0, 0, 0, 0, 0, 7]
  seg :=
    { srcPort := 80, dstPort := 1000, seq := 1001, ack := 101, flags := { ack := true },
      payload := [7] }
  pos := 0

end TcpEngine

open TcpEngine in
/-- The segments of a stream that end within the window are reassembled, in any order and
however often each arrives. -/
theorem reassembly_exact (args : EngineArgs) (sched : ManualScheduler Callback) (rand : Nat)
    (as : List Action) (e : TcpEngine) (g : Int → UInt8) (edge : Int) (frags : List Fragment)
    (hm : 1 ≤ args.sndMss) (hs : sched.heap = [])
    (hr : engineMachine.run (init args sched rand) as = some e)
    (hst : e.tcb.state = .established) (hfin : e.fin.finPending = false) (hooo : e.buf.ooo = [])
    (hpend : e.fin.pendingFin = none) (hwnd : e.conf.rcvWndMax ≤ 1073741823)
    (hflight : sub e.tcb.sndNxt e.tcb.sndUna ≤ 2147483648) (hedge : 0 ≤ edge ∧ edge ≤ e.rcvWnd)
    (hfr : ∀ r ∈ frags, r.Fits e g edge) :
    ∃ e', engineMachine.run e (frags.map fun r => .segment r.data) = some e' ∧
      Reassembled e g edge frags e' := by
  have hinv := engineMachine.invariant_run
    (I := fun f => f.Kept ∧ f.Ranged ∧ f.env.hung = false)
    (fun f a f' h hst => ⟨h.1.step hst, ?_, step_hung hst⟩)
    ⟨kept_init args sched rand hs hm, ranged_init args sched rand, rfl⟩ hr
  · obtain ⟨hk, hran, hl⟩ := hinv
    have hmild : e.Mild := ⟨hfin, hk.mss.pos, hran.sndWnd, hflight, hl⟩
    obtain ⟨h0, ho⟩ := absorbed_start (g := g) hmild hst hooo hpend hran hwnd hedge
    obtain ⟨e', b', hrun, h'⟩ := h0.run ho hfr
    rw [List.nil_append, false_or] at h'
    exact ⟨e', hrun, h'.reassembled⟩
  · obtain ⟨conf, psh, hb, -⟩ := begin_eq (e := f) a
    exact (h.1.ready.path hst).preserves (fun _ _ hm => Ranged.move hm)
      (by rw [hb]; exact ⟨h.2.1.rcvNxt, h.2.1.sndWnd⟩)

open TcpEngine in
theorem two_bytes_reassembled :
    ∃ e e', engineMachine.run (init openArgs {} 0) closedHandshake = some e ∧
      engineMachine.run e ([secondByte, firstByte].map fun r => .segment r.data) = some e' ∧
      Reassembled e (fun i => if i = 0 then 7 else 8) 2 [secondByte, firstByte] e' := by
  have h : ((engineMachine.run (init openArgs {} 0) closedHandshake).map fun e =>
      ([e.tcb.sndUna, e.tcb.rcvNxt, e.tcb.sndNxt], e.tcb.state, e.fin,
        [e.buf.ooo.length, e.rcvWnd, e.conf.localPort, e.conf.rcvWndMax])) =
      some ([101, 1001, 101], .established, {}, [0, 64534, 1000, 65535]) := by
    decide +kernel
  obtain ⟨e, he, hv⟩ := Option.map_eq_some_iff.mp h
  simp only [Prod.mk.injEq, List.cons.injEq, and_true] at hv
  obtain ⟨⟨huna, hrcv, hnxt⟩, hst, hfin, hooo, hwnd, hport, hmax⟩ := hv
  have hfits :
      ∀ r ∈ [secondByte, firstByte], Fragment.Fits e (fun i => if i = 0 then 7 else 8) 2 r := by
    intro r hr
    have hw : (2 : Int) < e.rcvWnd := by
      rw [hwnd]
      decide
    rcases List.mem_cons.mp hr with rfl | hr
    · exact ⟨rfl, Or.inr (Or.inr hport.symm), rfl, rfl, rfl, huna.symm, by decide,
        by rw [hrcv]; decide, by decide, by decide, rfl, fun _ => ⟨rfl, hw⟩⟩
    · rw [List.mem_singleton.mp hr]
      exact ⟨rfl, Or.inr (Or.inr hport.symm), rfl, rfl, rfl, huna.symm, by decide,
        by rw [hrcv]; decide, by decide, by decide, rfl, fun hf => by cases hf⟩
  obtain ⟨e', hrun, hre⟩ := reassembly_exact openArgs {} 0 closedHandshake e
    (fun i => if i = 0 then 7 else 8) 2 [secondByte, firstByte] (by decide) rfl he hst
      (by rw [hfin])
    (List.eq_nil_of_length_eq_zero hooo) (by rw [hfin]) (by rw [hmax]; decide)
    (by rw [hnxt, huna]; decide) ⟨by decide, by rw [hwnd]; decide⟩ hfits
  exact ⟨e, e', he, hrun, hre⟩

namespace TcpEngine

variable {e f : TcpEngine}

/-! ## Where reassembly fails -/

/-- The byte 5 at RCV.NXT = 1001, with an acknowledgement of nothing new. -/
def nextByte : Fragment where
  data := [0, 80, 3, 232, 0, 0, 3, 233, 0, 0, 0, 101, 80, 16, 255, 255, 0, 0, 0, 0, 5]
  seg :=
    { srcPort := 80, dstPort := 1000, seq := 1001, ack := 101, flags := { ack := true },
      window := 65535, payload := [5] }
  pos := 0

theorem nextByte_fits (hp : e.conf.localPort = 1000) (hu : e.tcb.sndUna = 101)
    (hn : e.tcb.rcvNxt = 1001) : nextByte.Fits e (fun _ => 5) 1 where
  parsed := by rfl
  addressed := Or.inr (Or.inr hp.symm)
  rst := rfl
  syn := rfl
  ackFlag := rfl
  ack := hu.symm
  text := by decide
  seq := by
    rw [hn]
    decide
  low := by decide
  high := by decide
  agrees := by
    rfl
  fin := by
    intro h
    cases h

/-- Where the byte is not taken, the stream is not reassembled. -/
theorem nextByte_lost (hn : e.tcb.rcvNxt = 1001) (hf : f.tcb.rcvNxt = 1001) :
    ¬ Reassembled e (fun _ => 5) 1 [nextByte] f := by
  rintro ⟨n, hgap, -, -, hcase⟩
  have hone : Buffer.Gap 0 (Buffer.coverage ([nextByte].map Fragment.piece)) 1 := by
    refine ⟨by decide, fun x h0 h1 => ⟨_, List.mem_singleton_self _, h0, h1⟩, ?_⟩
    rintro ⟨p, hp, -, h1⟩
    rw [List.mem_singleton.mp hp] at h1
    exact absurd h1 (by decide)
  have hn1 := hgap.unique hone
  subst hn1
  rcases hcase with ⟨⟨-, r, hr, hfin⟩, -⟩ | ⟨-, -, hnext⟩
  · rw [List.mem_singleton.mp hr] at hfin
    cases hfin
  · rw [hf, hn] at hnext
    exact absurd hnext (by decide)

/-- A run of the engine leads to a state where the segments of a stream are not
reassembled. -/
def Fails (args : EngineArgs) : Prop :=
  ∃ as e g edge frags, engineMachine.run (init args {} 0) as = some e ∧
    e.tcb.state = .established ∧ e.fin.finPending = false ∧ e.buf.ooo = [] ∧
    e.fin.pendingFin = none ∧ 0 ≤ edge ∧ edge ≤ e.rcvWnd ∧ (∀ r ∈ frags, Fragment.Fits e g edge r) ∧
    ¬ ∃ e', engineMachine.run e (frags.map fun r => .segment r.data) = some e' ∧
      Reassembled e g edge frags e'

/-- The byte at RCV.NXT decides: it is lost, or it stops the engine. -/
theorem fails_of_lost {args : EngineArgs} {as : List Action}
    (hr : engineMachine.run (init args {} 0) as = some e) (hst : e.tcb.state = .established)
    (hfin : e.fin.finPending = false) (hooo : e.buf.ooo = []) (hpend : e.fin.pendingFin = none)
    (hw : 1 ≤ e.rcvWnd) (hport : e.conf.localPort = 1000) (hu : e.tcb.sndUna = 101)
    (hn : e.tcb.rcvNxt = 1001)
    (hlost : ∀ f, engineMachine.step e (.segment nextByte.data) = some f → f.tcb.rcvNxt = 1001) :
    Fails args := by
  refine ⟨as, e, fun _ => 5, 1, [nextByte], hr, hst, hfin, hooo, hpend, by decide,
    by exact_mod_cast hw, fun r h => ?_, ?_⟩
  · rw [List.mem_singleton.mp h]
    exact nextByte_fits hport hu hn
  · rintro ⟨f, hrun, hre⟩
    rw [List.map_cons, List.map_nil, Lib.Machine.run_cons, Option.bind_eq_some_iff] at hrun
    obtain ⟨f', hstep, hf⟩ := hrun
    cases hf
    exact nextByte_lost hn (hlost _ hstep) hre

/-- A peer that offers no window at first, with segments of no bytes. -/
def emptyArgs : EngineArgs := { localPort := 1000, remotePort := 80, iss := some 100, sndMss := 0 }

/-- An acknowledgement of what was never sent is answered, and nothing else. -/
theorem ack_ahead_dropped (hst : e.tcb.state = .established) (hport : e.conf.localPort = 1000)
    (hgt : seqGt 101 e.tcb.sndNxt = true)
    (hs : engineMachine.step e (.segment nextByte.data) = some f) :
    f.tcb.rcvNxt = e.tcb.rcvNxt := by
  have hh : e.enter.heard.tcb = e.tcb := by simp
  have hseg : e.enter.onSegment nextByte.data = e.enter.heard.handle nextByte.seg :=
    onSegment_handle rfl (Or.inr (Or.inr hport.symm))
  have hack : e.enter.heard.handle nextByte.seg = e.enter.heard.sendAck := by
    rw [handle_ack (by rw [hh, hst]; simp) rfl rfl rfl, establishedAck,
      if_pos (show seqGt nextByte.seg.ack e.enter.heard.tcb.sndNxt = true by rw [hh]; exact hgt),
      ite_self]
  simp only [engineMachine, Enabled, if_true, perform, hseg, hack] at hs
  split at hs
  · cases hs
  · cases hs
    rw [sendAck_tcb, hh]

/-- A receive window of a little more than a quarter of the sequence space. -/
def wideArgs : EngineArgs :=
  { localPort := 1000, remotePort := 80, iss := some 100, rcvWnd := 1073741826,
    timers := { swsAvoidance := false }, onData := true }

/-- `n` bytes of the constant stream from `pos` on, in one segment under the number `seq`. -/
def bulk (pos seq : Int) (n : Nat) : Fragment :=
  let seg : TcpSegment :=
    { srcPort := 80, dstPort := 1000, seq, ack := 101, flags := { ack := true },
      payload := List.replicate n 5 }
  { data := seg.octets, seg, pos }

/-- All but the last byte of the window. -/
def bulkText : Fragment := bulk 0 1001 1073741825

/-- The same and the last byte, from 2^30 bytes before. -/
def bulkAgain : Fragment := bulk (-1073741824) 3221226473 2147483650

theorem bulk_parsed (pos : Int) {seq : Int} {n : Nat} (h0 : 0 ≤ seq) (h1 : seq < 4294967296) :
    TcpSegment.parse (bulk pos seq n).data = .ok (bulk pos seq n).seg := by
  refine TcpSegment.Tidy.parse_octets ⟨?_, ?_, [], ?_, rfl⟩ ?_ (Nat.zero_le _)
  · intro m hm
    cases hm
  · intro w hw
    cases hw
  · intro o ho
    cases ho
  · have hlt (b : Nat) (hb : b < 65536) : b < 65536 := hb
    constructor
    · exact hlt 80 (by decide)
    · exact hlt 1000 (by decide)
    · exact ⟨h0, h1⟩
    · show (0 : Int) ≤ 101 ∧ (101 : Int) < 4294967296
      decide
    · exact hlt 0 (by decide)
    · exact hlt 0 (by decide)
    · exact hlt 0 (by decide)

theorem bulk_fits {pos seq edge : Int} {n : Nat} (h0 : 0 ≤ seq) (h1 : seq < 4294967296) (hn : 0 < n)
    (hp : e.conf.localPort = 1000) (hu : e.tcb.sndUna = 101)
    (hseq : seq = add e.tcb.rcvNxt pos) (hl : -1073741824 ≤ pos) (hh : pos + n ≤ edge) :
    (bulk pos seq n).Fits e (fun _ => 5) edge where
  parsed := bulk_parsed pos h0 h1
  addressed := Or.inr (Or.inr hp.symm)
  rst := rfl
  syn := rfl
  ackFlag := rfl
  ack := hu.symm
  text := by
    intro h
    have := congrArg List.length h
    simp [bulk] at this
    omega
  seq := hseq
  low := hl
  high := by
    simpa [Fragment.piece, Piece.stop, bulk] using hh
  agrees := by
    simp [Piece.Agrees, Fragment.piece, Piece.stop, bulk, slice]
  fin := fun h => by cases h

/-- An idle connection with a wide window, `n` bytes into the stream of the peer. -/
structure Wide (n : Nat) (e : TcpEngine) : Prop where
  state : e.tcb.state = .established
  una : e.tcb.sndUna = 101
  nxt : e.tcb.sndNxt = 101
  rcvNxt : e.tcb.rcvNxt = add 1001 n
  bufs : e.buf.appBuf = [] ∧ e.buf.recvBuf = [] ∧ e.buf.ooo = []
  fin : e.fin.finPending = false ∧ e.fin.pendingFin = none
  live : e.env.hung = false
  conf : e.conf.cfg.swsAvoidance = false ∧ e.conf.rcvWndMax = 1073741826 ∧
    e.conf.localPort = 1000 ∧ e.conf.onData = true

theorem Wide.rcvWnd {n : Nat} (h : Wide n e) : e.rcvWnd = 1073741826 := by
  rw [TcpEngine.rcvWnd, h.conf.1, h.conf.2.1, h.bufs.2.1]
  rfl

/-- With nothing to send nothing is sent. -/
theorem Wide.sendPending {n : Nat} (h : Wide n e) : e.sendPending = e := by
  have hloop : e.dataLoop e.buf.appBuf.length = (e, true) := by rw [dataLoop, if_pos h.bufs.1]
  rw [TcpEngine.sendPending, if_pos (Or.inl h.state), hloop]
  show e.finPart = e
  rw [finPart, h.fin.1, Bool.false_and, Bool.false_and]
  rfl

theorem Wide.of_eq {n m : Nat} {k : TcpEngine} (h : Wide n k) (htcb : ∃ r w1 w2 wnd, e.tcb =
      { k.tcb with rcvNxt := r, sndWnd := wnd, sndWl1 := w1, sndWl2 := w2 })
      (hr : e.tcb.rcvNxt = add 1001 m)
    (hb : e.buf = k.buf) (hf : e.fin = k.fin) (hl : e.env.hung = k.env.hung)
    (hc : e.conf = k.conf) : Wide m e := by
  obtain ⟨r, w1, w2, wnd, ht⟩ := htcb
  refine ⟨?_, ?_, ?_, hr, ?_, ?_, hl.trans h.live, ?_⟩
  · rw [ht]; exact h.state
  · rw [ht]; exact h.una
  · rw [ht]; exact h.nxt
  · rw [hb]; exact h.bufs
  · rw [hf]; exact h.fin
  · rw [hc]; exact h.conf

/-- A segment of the stream gets as far as its text. -/
theorem Wide.reads {n m : Nat} (h : Wide n e) (pos : Int) {seq : Int} {len : Nat} (h0 : 0 ≤ seq)
    (h1 : seq < 4294967296) (hlen : 0 < len)
    (hacc : acceptable seq len (add 1001 n) 1073741826 = true)
    (hread : ∀ k, Wide n k → Wide m (k.recvData (bulk pos seq len).seg)) :
    ∃ f, engineMachine.step e (.segment (bulk pos seq len).data) = some f ∧ Wide m f := by
  have hseg : e.enter.onSegment (bulk pos seq len).data =
      e.enter.heard.handle (bulk pos seq len).seg :=
    onSegment_handle (bulk_parsed pos h0 h1) (Or.inr (Or.inr h.conf.2.2.1.symm))
  have hk : Wide n e.enter.heard := h.of_eq (by rw [heard_tcb]; exact ⟨_, _, _, _, rfl⟩)
    (by rw [heard_tcb]; exact h.rcvNxt) (by rw [heard_buf]; rfl) (by rw [heard_fin]; rfl)
    (by rw [heard_env]; rfl) (by rw [heard_conf]; rfl)
  generalize e.enter.heard = k at hseg hk
  have hsl : (bulk pos seq len).seg.segLen = len := by
    show (List.replicate len (5 : UInt8)).length + 0 + 0 = len
    simp
  have hhandle : k.handle (bulk pos seq len).seg =
      (k.windowUpdate (bulk pos seq len).seg).textAndFin (bulk pos seq len).seg := by
    have hst : (k.windowUpdate (bulk pos seq len).seg).tcb.state = .established := by
      rcases windowUpdate_shut (e := k) (bulk pos seq len).seg rfl with hw | hw
      · rw [hw]; exact hk.state
      · rw [hw]; exact hk.state
    rw [handle_ack (by rw [hk.state]; simp) rfl rfl rfl, hsl, hk.rcvNxt, hk.rcvWnd]
    apply (if_pos hacc).trans
    rw [establishedAck, hk.nxt, hk.una]
    have hself : ¬ seqGt (bulk pos seq len).seg.ack 101 = true := by
      show ¬ seqGt 101 101 = true
      decide
    rw [if_neg hself, if_neg hself]
    dsimp only
    rw [hst, if_neg (by simp), if_neg (by simp), if_neg (by simp)]
  have hw : Wide n (k.windowUpdate (bulk pos seq len).seg) := by
    rcases windowUpdate_shut (e := k) (bulk pos seq len).seg rfl with hw | hw
    · rw [hw]; exact hk
    · rw [hw]; exact hk.of_eq ⟨_, _, _, _, rfl⟩ hk.rcvNxt rfl rfl rfl rfl
  have hm := hread _ hw
  have htext : (k.windowUpdate (bulk pos seq len).seg).textAndFin (bulk pos seq len).seg =
      (k.windowUpdate (bulk pos seq len).seg).recvData (bulk pos seq len).seg := by
    have hne : (bulk pos seq len).seg.payload ≠ [] := by
      intro hnil
      have := congrArg List.length hnil
      simp [bulk] at this
      omega
    rw [textAndFin, if_pos ⟨hne, by rw [hw.state]; simp⟩]
    rw [hm.sendPending, finCheck, if_neg (by exact Bool.false_ne_true), checkPendingFin, hm.fin.2]
    exact if_neg (by simp)
  refine ⟨_, ?_, hm⟩
  simp only [engineMachine]
  rw [if_pos (show e.Enabled (.segment (bulk pos seq len).data) from trivial), perform, hseg,
    hhandle, htext, hm.live]
  rfl

theorem bulk_text (pos : Int) (seq : Int) {len : Nat} (h : 0 < len) :
    (bulk pos seq len).seg.payload ≠ [] := by
  intro hnil
  have hlen : len = 0 := by simpa [bulk] using congrArg List.length hnil
  omega

/-- Text at RCV.NXT is delivered. -/
theorem Wide.takes {k : TcpEngine} (h : Wide 0 k) (len : Nat) (h0 : 0 < len)
    (hl : len ≤ 1073741826) : Wide len (k.recvData (bulk 0 1001 len).seg) := by
  have hnxt : k.tcb.rcvNxt = 1001 := h.rcvNxt
  have hread : k.recvData (bulk 0 1001 len).seg =
      (k.takeInOrder (bulk 0 1001 len).seg (List.replicate len 5)).mergeReassembly.scheduleAck
        false := by
    have hold : ¬ seqLt (bulk 0 1001 len).seg.seq 1001 = true := by
      show ¬ seqLt 1001 1001 = true
      decide
    have hspace : s32 (sub (add 1001 (1073741826 : Nat)) (bulk 0 1001 len).seg.seq) =
        1073741826 := by
      show s32 (sub (add 1001 (1073741826 : Nat)) 1001) = 1073741826
      decide
    rw [recvData, if_neg (bulk_text 0 1001 h0), hnxt, if_neg hold, recvTrimmed, hnxt, h.rcvWnd,
      hspace, if_neg (by decide)]
    have hall :
        (bulk 0 1001 len).seg.payload.take (Int.toNat 1073741826) = List.replicate len 5 := by
      show (List.replicate len 5).take 1073741826 = _
      rw [List.take_replicate, Nat.min_eq_right hl]
    dsimp only
    rw [hall]
    exact if_pos rfl
  have htook : k.takeInOrder (bulk 0 1001 len).seg (List.replicate len 5) =
      ((k.deliver (List.replicate len 5)).advanceRcvNxt len).markSeen
        (bulk 0 1001 len).seg.flags := by
    rw [takeInOrder, List.length_replicate]
    rfl
  have hmerge : (k.takeInOrder (bulk 0 1001 len).seg (List.replicate len 5)).mergeReassembly =
      k.takeInOrder (bulk 0 1001 len).seg (List.replicate len 5) := by
    rw [mergeReassembly, htook]
    simp [markSeen, advanceRcvNxt, h.bufs.2.2, mergeLoop]
  rw [hread, hmerge, htook]
  refine h.of_eq ?_ ?_ ?_ ?_ ?_ ?_
  · rw [scheduleAck_tcb]
    refine ⟨add 1001 len, k.tcb.sndWl1, k.tcb.sndWl2, k.tcb.sndWnd, ?_⟩
    simp [markSeen, advanceRcvNxt, hnxt]
  · rw [scheduleAck_tcb]
    simp [markSeen, advanceRcvNxt, hnxt]
  · rw [scheduleAck_buf]
    simp [markSeen, advanceRcvNxt, deliver, h.conf.2.2.2]
  · rw [scheduleAck_fin]
    simp [markSeen, advanceRcvNxt]
  · rw [scheduleAck_hung]
    simp [markSeen, advanceRcvNxt]
  · rw [scheduleAck_conf]
    simp [markSeen, advanceRcvNxt]

/-- Text from over 2^31 bytes before RCV.NXT counts as text from after it, past the window. -/
theorem Wide.drops {k : TcpEngine} (h : Wide 1073741825 k) (len : Nat) (h0 : 0 < len) :
    Wide 1073741825 (k.recvData (bulk (-1073741824) 3221226473 len).seg) := by
  have hread : k.recvData (bulk (-1073741824) 3221226473 len).seg = k.scheduleAck true := by
    have hold : ¬ seqLt (bulk (-1073741824) 3221226473 len).seg.seq (add 1001 (1073741825 : Nat)) =
        true := by
      show ¬ seqLt 3221226473 (add 1001 (1073741825 : Nat)) = true
      decide
    have hspace : s32 (sub (add (add 1001 (1073741825 : Nat)) (1073741826 : Nat))
        (bulk (-1073741824) 3221226473 len).seg.seq) ≤ 0 := by
      show s32 (sub (add (add 1001 (1073741825 : Nat)) (1073741826 : Nat)) 3221226473) ≤ 0
      decide
    rw [recvData, if_neg (bulk_text _ _ h0), h.rcvNxt, if_neg hold, recvTrimmed, h.rcvNxt, h.rcvWnd]
    exact if_pos hspace
  rw [hread]
  exact h.of_eq (by rw [scheduleAck_tcb]; exact ⟨_, _, _, _, rfl⟩)
    (by rw [scheduleAck_tcb]; exact h.rcvNxt) (by rw [scheduleAck_buf]) (by rw [scheduleAck_fin])
    (by rw [scheduleAck_hung]) (by rw [scheduleAck_conf])

theorem bulk_stop (pos seq : Int) (len : Nat) : (bulk pos seq len).piece.stop = pos + len := by
  simp [Fragment.piece, Piece.stop, bulk]

/-- The last byte of the window is never delivered. -/
theorem wide_fails : Fails wideArgs := by
  have h : ((engineMachine.run (init wideArgs {} 0) closedHandshake).map fun e =>
      ([e.tcb.sndUna, e.tcb.sndNxt, e.tcb.rcvNxt], e.tcb.state, e.fin, e.buf)) =
      some ([101, 101, 1001], .established, {}, {}) := by
    decide +kernel
  have h' : ((engineMachine.run (init wideArgs {} 0) closedHandshake).map fun e =>
      (e.env.hung, e.conf.cfg.swsAvoidance, e.conf.rcvWndMax, e.conf.localPort, e.conf.onData)) =
      some (false, false, 1073741826, 1000, true) := by
    decide +kernel
  obtain ⟨e, he, hv⟩ := Option.map_eq_some_iff.mp h
  rw [he, Option.map_some, Option.some.injEq] at h'
  simp only [Prod.mk.injEq, List.cons.injEq, and_true] at hv h'
  obtain ⟨⟨huna, hnxt, hrcv⟩, hst, hfin, hbuf⟩ := hv
  obtain ⟨hlive, hconf⟩ := h'
  have h0 : Wide 0 e := ⟨hst, huna, hnxt, hrcv, by rw [hbuf]; exact ⟨rfl, rfl, rfl⟩,
    by rw [hfin]; exact ⟨rfl, rfl⟩, hlive, hconf⟩
  obtain ⟨e1, hs1, h1⟩ := h0.reads 0 (by decide) (by decide) (by decide) (by decide)
    fun k hk => hk.takes 1073741825 (by decide) (by decide)
  obtain ⟨e2, hs2, h2⟩ := h1.reads (-1073741824) (by decide) (by decide) (by decide) (by decide)
    fun k hk => hk.drops 2147483650 (by decide)
  refine ⟨closedHandshake, e, fun _ => 5, 1073741826, [bulkText, bulkAgain], he, hst, h0.fin.1,
    h0.bufs.2.2, h0.fin.2, by decide, by rw [h0.rcvWnd], ?_, ?_⟩
  · intro r hr
    rcases List.mem_cons.mp hr with rfl | hr
    · exact bulk_fits (by decide) (by decide) (by decide) hconf.2.2.1 huna (by rw [hrcv]; decide)
        (by decide) (by decide)
    · rw [List.mem_singleton.mp hr]
      exact bulk_fits (by decide) (by decide) (by decide) hconf.2.2.1 huna (by rw [hrcv]; decide)
        (by decide) (by decide)
  · rintro ⟨f, hrun, n, hgap, -, -, hcase⟩
    have hf : f = e2 := by
      change engineMachine.run e [.segment bulkText.data, .segment bulkAgain.data] = some f at hrun
      rw [bulkText, bulkAgain, Lib.Machine.run_cons, hs1, Option.bind_some, Lib.Machine.run_cons,
        hs2]
        at hrun
      exact (Option.some.inj hrun).symm
    have hall : Buffer.Gap 0 (Buffer.coverage ([bulkText, bulkAgain].map Fragment.piece))
        1073741826 := by
      refine ⟨by decide, fun x hx0 hx1 => ⟨bulkAgain.piece, ?_, ?_, ?_⟩, ?_⟩
      · exact List.mem_cons_of_mem _ List.mem_cons_self
      · show -1073741824 ≤ x
        omega
      · rw [bulkAgain, bulk_stop]
        omega
      · rintro ⟨p, hp, -, hlt⟩
        rcases List.mem_cons.mp hp with rfl | hp
        · rw [bulkText, bulk_stop] at hlt
          omega
        · rw [List.mem_singleton.mp hp, bulkAgain, bulk_stop] at hlt
          omega
    obtain rfl : n = 1073741826 := hgap.unique hall
    rcases hcase with ⟨⟨-, r, hr, hfin⟩, -⟩ | ⟨-, -, hnext⟩
    · rcases List.mem_cons.mp hr with rfl | hr
      · cases hfin
      · rw [List.mem_singleton.mp hr] at hfin
        cases hfin
    · rw [hf, h2.rcvNxt, hrcv] at hnext
      exact absurd hnext (by decide)

end TcpEngine

open TcpEngine in
/-- Reassembly fails with a window of over a quarter of the sequence space, with over half of it
in flight, and with segments of no bytes. -/
theorem reassembly_fails : Fails wideArgs ∧ Fails closedArgs ∧ Fails emptyArgs := by
  refine ⟨wide_fails, ?_, ?_⟩
  · -- a probe for every byte: SND.NXT is over 2^31 past SND.UNA
    obtain ⟨as, e, he, -, hp⟩ := probing_reached 2147483649 (by decide)
    have hwnd : e.rcvWnd = 65535 := by
      rw [rcvWnd, hp.conf.1, hp.conf.2.1, hp.bufs.2]
      rfl
    refine fails_of_lost he hp.state hp.fin.1 hp.bufs.1 hp.fin.2 (by rw [hwnd]; decide)
      hp.conf.2.2 hp.una hp.rcvNxt fun f hf => ?_
    rw [ack_ahead_dropped hp.state hp.conf.2.2 (by rw [hp.nxt]; decide) hf]
    exact hp.rcvNxt
  · -- the window opens with data to send, and the segmentation loop does not end
    have h : ((engineMachine.run (init emptyArgs {} 0)
        (closedHandshake ++ [.send [1] false false none])).map fun e =>
        ([e.tcb.sndUna, e.tcb.rcvNxt], e.tcb.state, e.fin,
          [e.buf.ooo.length, e.rcvWnd, e.conf.localPort])) =
        some ([101, 1001], .established, {}, [0, 65535, 1000]) := by
      decide +kernel
    have hl : ((engineMachine.run (init emptyArgs {} 0)
        (closedHandshake ++ [.send [1] false false none])).bind fun e =>
        (engineMachine.step e (.segment nextByte.data)).map fun f => f.tcb.rcvNxt) = none := by
      decide +kernel
    obtain ⟨e, he, hv⟩ := Option.map_eq_some_iff.mp h
    rw [he, Option.bind_some] at hl
    simp only [Prod.mk.injEq, List.cons.injEq, and_true] at hv
    obtain ⟨⟨huna, hrcv⟩, hst, hfin, hooo, hwnd, hport⟩ := hv
    refine fails_of_lost he hst (by rw [hfin]) (List.eq_nil_of_length_eq_zero hooo) (by rw [hfin])
      (by rw [hwnd]; decide) hport huna hrcv fun f hf => ?_
    rw [hf] at hl
    cases hl

end HdlPlayground.Tcp
