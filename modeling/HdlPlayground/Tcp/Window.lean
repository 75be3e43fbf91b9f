import HdlPlayground.Tcp.SenderSteps
import HdlPlayground.Tcp.Traces

/-!
# The receive window

The room in the receive buffer, and the window that is offered: the room, or less while
the advertised right edge is held back. Building a segment only ever moves the advertised
edge to the right edge of what it offers.
-/
namespace HdlPlayground.Tcp

namespace TcpEngine

variable {a : Action} {e e' f : TcpEngine}

/-- The room left in the receive buffer. -/
def room (e : TcpEngine) : Nat := e.conf.rcvWndMax - e.buf.recvBuf.length

/-- The least by which the advertised edge is to move. -/
def edgeStep (e : TcpEngine) : Nat := min e.tcb.sndMss (max 1 (e.conf.rcvWndMax / 2))

/-- How far the edge that the room allows is past the advertised one. -/
def lead (e : TcpEngine) (right : Int) : Int := sub (add e.tcb.rcvNxt e.room) right

theorem lead_def (right : Int) :
    e.lead right = (e.tcb.rcvNxt + e.room - right) % 4294967296 := by
  simp only [lead, sub_def, add_def]
  omega

/-- The advertised edge is held back: the room would move it by less than a step. -/
def HeldBack (e : TcpEngine) (right : Int) : Prop :=
  e.conf.cfg.swsAvoidance = true ∧ 0 < e.lead right ∧ e.lead right < 2147483648 ∧
    e.lead right < e.edgeStep

theorem seqGt_lead (right : Int) : seqGt (add e.tcb.rcvNxt e.room) right = true ↔
    0 < e.lead right ∧ e.lead right < 2147483648 := by
  rw [seqGt_iff]
  rfl

theorem rcvWnd_none (h : e.adv.advRight = none) : e.rcvWnd = e.room := by
  rw [rcvWnd, h]
  cases e.conf.cfg.swsAvoidance <;> rfl

theorem rcvWnd_held {right : Int} (h : e.adv.advRight = some right) (hh : e.HeldBack right) :
    e.rcvWnd = (s32 (sub right e.tcb.rcvNxt)).toNat := by
  obtain ⟨hs, h0, h1, h2⟩ := hh
  have hgt := (seqGt_lead right).mpr ⟨h0, h1⟩
  rw [rcvWnd, h, hs]
  show (if seqGt (add e.tcb.rcvNxt e.room) right then
    if e.lead right < e.edgeStep then _ else e.room else e.room) = _
  rw [if_pos hgt, if_pos h2]

theorem rcvWnd_open {right : Int} (h : e.adv.advRight = some right) (hh : ¬ e.HeldBack right) :
    e.rcvWnd = e.room := by
  rw [rcvWnd, h]
  cases hs : e.conf.cfg.swsAvoidance with
  | false => rfl
  | true =>
    show (if seqGt (add e.tcb.rcvNxt e.room) right then
      if e.lead right < e.edgeStep then _ else e.room else e.room) = _
    by_cases hgt : seqGt (add e.tcb.rcvNxt e.room) right = true
    · rw [if_pos hgt, if_neg]
      intro hlt
      have h01 := (seqGt_lead right).mp hgt
      exact hh ⟨hs, h01.1, h01.2, hlt⟩
    · rw [if_neg hgt]

/-- The right edge a segment built now offers. -/
def offered (e : TcpEngine) : Int := add e.tcb.rcvNxt e.rcvWnd

theorem advertise_none (h : e.adv.advRight = none) :
    e.advertise.adv.advRight = some e.offered := by
  simp only [advertise, h]
  rfl

theorem advertise_some {right : Int} (h : e.adv.advRight = some right) :
    e.advertise.adv.advRight = some (if seqGt e.offered right then e.offered else right) := by
  simp only [advertise, h]
  by_cases hg : seqGt e.offered right = true
  · rw [if_pos hg]
    exact if_pos hg
  · rw [if_neg hg]
    exact if_neg hg

/-- What building segments does to the advertised edge, while nothing arrives. -/
def Advertises (e f : TcpEngine) : Prop :=
  ∀ Q : Option Int → Prop, (∀ g, SendFrame e g → Q g.adv.advRight → Q g.advertise.adv.advRight) →
    Q e.adv.advRight → Q f.adv.advRight

theorem Advertises.of_eq (h : f.adv.advRight = e.adv.advRight) : Advertises e f :=
  fun Q _ h0 => by rw [h]; exact h0

theorem Advertises.once (h : f.adv = e.advertise.adv) : Advertises e f :=
  fun Q hQ h0 => by rw [h]; exact hQ e (.refl e) h0

theorem Advertises.trans {g : TcpEngine} (h : Advertises e f) (hf : SendFrame e f)
    (h' : Advertises f g) : Advertises e g :=
  fun Q hQ h0 => h' Q (fun k hk => hQ k (hf.trans hk)) (h Q hQ h0)

theorem sendChunk_advertises (n : Nat) : Advertises e (e.sendChunk n) := by
  have htake : SendFrame e (e.takeChunk n) := ⟨rfl, rfl, rfl, rfl, rfl, rfl⟩
  refine Advertises.trans (f := e.takeChunk n) (.of_eq rfl) htake (.once ?_)
  obtain ⟨psh, h⟩ := sendChunk_eq (e := e) n
  rw [h]
  show (e.queueChunk n).adv = _
  rw [queueChunk, queueAndSend_adv]

theorem SendRun.advertises {r : TcpEngine × Bool} (h : SendRun e r) : Advertises e r.1 := by
  induction h with
  | empty => exact .of_eq rfl
  | closed => exact .of_eq (by simp)
  | held => exact .of_eq rfl
  | hang => exact .of_eq rfl
  | chunk e r _ _ _ _ _ ih => exact (sendChunk_advertises _).trans (sendChunk_frame _) ih

theorem sendFin_advertises : Advertises e e.sendFin := by
  obtain ⟨st, h, -⟩ := sendFin_cases (e := e)
  apply Advertises.once
  rw [h, setState_adv]
  show (queueAndSend { e with fin := _ } _ _).adv = _
  rw [queueAndSend_adv]
  rfl

theorem sendPending_advertises : Advertises e e.sendPending := by
  have hfin {g : TcpEngine} : Advertises g g.finPart := by
    rcases g.finPart_cases with ⟨-, h⟩ | ⟨-, -, h⟩ | ⟨-, -, -, h⟩ | ⟨-, -, -, h⟩
    · rw [h]; exact .of_eq rfl
    · rw [h]; exact .of_eq (by simp)
    · rw [h]; exact .of_eq rfl
    · rw [h]; exact sendFin_advertises
  rcases e.sendPending_cases with ⟨-, h⟩ | ⟨-, h⟩ | ⟨-, g, h, hg⟩
  · rw [h]; exact .of_eq rfl
  · exact h.advertises
  · rw [hg]; exact h.advertises.trans h.frame hfin

theorem scheduleAck_advertises (force : Bool) : Advertises e (e.scheduleAck force) := by
  obtain ⟨n, h⟩ | ⟨d, n, -, -, -, h⟩ | ⟨-, -, n, h⟩ := e.scheduleAck_cases force
  · rw [h]
    exact .once (by rw [sendAck_adv]; rfl)
  · rw [h]
    exact .of_eq rfl
  · rw [h]
    exact .of_eq rfl

/-! ## Numbers in range -/

/-- RCV.NXT is a sequence number, and SND.WND fits its field. -/
structure Ranged (e : TcpEngine) : Prop where
  rcvNxt : 0 ≤ e.tcb.rcvNxt ∧ e.tcb.rcvNxt < 4294967296
  sndWnd : e.tcb.sndWnd < 65536

theorem ranged_init (args : EngineArgs) (sched : ManualScheduler Callback) (rand : Nat) :
    (init args sched rand).Ranged :=
  ⟨⟨le_refl (0 : Int), by show (0 : Int) < 4294967296; decide⟩,
    by show (0 : Nat) < 65536; decide⟩

theorem Ranged.of_eq (h : e.Ranged) (hn : e'.tcb.rcvNxt = e.tcb.rcvNxt)
    (hw : e'.tcb.sndWnd = e.tcb.sndWnd) : e'.Ranged := ⟨hn ▸ h.rcvNxt, hw ▸ h.sndWnd⟩

theorem add_range (x n : Int) : 0 ≤ add x n ∧ add x n < 4294967296 := by
  rw [add_def]
  omega

theorem takeSyn_ranged {seg : TcpSegment} (hf : seg.Fits) : (e.takeSyn seg).Ranged := by
  obtain ⟨m, -, -, h⟩ := takeSyn_cases (e := e) seg
  rw [h]
  dsimp only
  split
  · exact ⟨by simpa using add_range seg.seq 1, by simpa using hf.window⟩
  · exact ⟨add_range seg.seq 1, hf.window⟩

theorem Receives.ranged (hr : e.Receives a e') (h : e.Ranged) : e'.Ranged := by
  refine ⟨?_, ?_⟩
  · cases hr with
    | takeInOrder seg off n =>
      unfold TcpEngine.takeInOrder
      dsimp only
      split <;> exact add_range _ _
    | mergeEntry seg x =>
      unfold TcpEngine.mergeEntry
      dsimp only
      split_ifs
      · exact h.rcvNxt
      · exact h.rcvNxt
      · exact add_range _ _
  · obtain ⟨n, u, ht⟩ := hr.frame.tcb
    rw [ht]
    exact h.sndWnd

theorem storeOoo_tcb (seq : Int) (data : List UInt8) (flags : Flags) :
    (e.storeOoo seq data flags).tcb = e.tcb := by
  unfold storeOoo
  split <;> rfl

theorem Ranged.move (hm : Move a e e') (h : e.Ranged) : e'.Ranged := by
  have hclosed {g : TcpEngine} (hg : g.Ranged) (hb : g.Blocked) : g.enterClosed.Ranged :=
    hg.of_eq (by simp) (by rw [enterClosed_tcb hb])
  have hup {g : TcpEngine} (msg : String) (hg : g.Ranged) (hb : g.Blocked) :
      (g.giveUp msg).Ranged :=
    hg.of_eq (by simp) (by rw [giveUp_tcb msg hb])
  cases hm with
  | setUserTimeout t => cases t <;> exact h.of_eq rfl rfl
  | connect ho _ =>
    rw [connect_eq (ho.imp And.left id)]
    exact ⟨by simpa [dialled] using h.rcvNxt, by simp [dialled]⟩
  | startListening =>
    exact h.of_eq (by simp [TcpEngine.startListening]) (by simp [TcpEngine.startListening])
  | acceptSyn seg hc hs _ _ _ =>
    obtain ⟨m, -, -, ht⟩ := acceptSyn_eq (e := e) seg hs
    rw [ht]
    exact ⟨by simpa [listenTaken, listenTcb] using add_range seg.seq 1,
      by simpa [listenTaken, listenTcb] using hc.fits.window⟩
  | setSendWindow seg hc => exact ⟨h.rcvNxt, hc.fits.window⟩
  | synEstablished seg hc => exact (takeSyn_ranged (e := e) hc.fits).of_eq (by simp) (by simp)
  | synReceived seg hc =>
    exact (takeSyn_ranged (e := e) hc.fits).of_eq (by simp [becomeSynReceived])
      (by simp [becomeSynReceived])
  | completeOpen seg hc =>
    exact ⟨by simpa [TcpEngine.openCompleted] using h.rcvNxt,
      by simpa [TcpEngine.openCompleted] using hc.fits.window⟩
  | storeSynData seg =>
    exact h.of_eq (by rw [storeOoo_tcb]) (by rw [storeOoo_tcb])
  | storeOoo seg n => exact h.of_eq (by rw [storeOoo_tcb]) (by rw [storeOoo_tcb])
  | sendChunk => exact h.of_eq (sendChunk_frame _).rcvNxt (by simp)
  | receive _ hr => exact hr.ranged h
  | sendSynAck => exact h.of_eq (by simp [TcpEngine.sendSynAck]) (by simp [TcpEngine.sendSynAck])
  | sendKeepaliveProbe =>
    exact h.of_eq (by simp [TcpEngine.sendKeepaliveProbe]) (by simp [TcpEngine.sendKeepaliveProbe])
  | probe g => exact h.of_eq (by simp [TcpEngine.sendProbe]) (by simp [TcpEngine.sendProbe])
  | probeFin g =>
    obtain ⟨st, ht, -⟩ := sendFin_tcb (e := e.fire g)
    exact h.of_eq (by simp [ht]) (by simp [ht])
  | sendFin =>
    obtain ⟨st, ht, -⟩ := sendFin_tcb (e := e)
    exact h.of_eq (by simp [ht]) (by simp [ht])
  | finAckedTimeWait hs =>
    rw [enterTimeWait_eq (by simp [CanSend, hs])]
    exact h.of_eq (by simp) (by simp)
  | processFin =>
    obtain ⟨st, -, hf⟩ | ⟨-, hf⟩ := processFin_cases (e := e) <;> rw [hf] <;>
      exact ⟨by simpa using add_range _ _, by simpa using h.sndWnd⟩
  | listenAgain hs hp =>
    rw [doReset_listen hs hp]
    exact h.of_eq (by simp [restorePort]) (by simp [restorePort])
  | close _ hb => exact hclosed h hb
  | abort _ hb => exact hclosed (h.of_eq (by simp) (by simp)) (sendRst_blocked hb)
  | giveUp msg _ hb => exact hup msg h hb
  | giveUpRto g c msg _ _ _ _ hb =>
    cases c with
    | true => exact hup msg (h.of_eq (by simp) (by simp)) ((hb.fire g).of_view rfl)
    | false => exact hup msg (h.of_eq (by simp) (by simp)) (hb.fire g)
  | timeWaitExpires g _ _ _ hb => exact hclosed (h.of_eq (by simp) (by simp)) (hb.fire g)
  | _ => exact h.of_eq (by first | rfl | simp) (by first | rfl | simp)

end TcpEngine

end HdlPlayground.Tcp
