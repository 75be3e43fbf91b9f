import HdlPlayground.Tcp.Receiver

/-!
# Stale zero windows

The window a peer was last told, read off the log, and what the engine keeps so that a
peer stopped by a zero window is told when it may go on.
-/
namespace HdlPlayground.Tcp

/-- What an event does to the window last advertised on the connection. A RST advertises
none, and a connection begins with none. -/
def Event.window (w : Option Nat) : Event → Option Nat
  | .tx seg => if seg.rst then w else some seg.window
  | .stateChange old new =>
    if old ∈ [.closed, .listen] ∨ new ∈ [.closed, .listen] then none else w
  | _ => w

def lastWindow (log : List Event) : Option Nat := log.foldl Event.window none

theorem lastWindow_append (log evs : List Event) :
    lastWindow (log ++ evs) = evs.foldl Event.window (lastWindow log) := List.foldl_append

namespace Receiver

variable {a : Action} {v w : Receiver}

theorem aside_window {evs : List Event} (h : ∀ ev ∈ evs, Aside ev) (x : Option Nat) :
    evs.foldl Event.window x = x := by
  induction evs with
  | nil => rfl
  | cons ev evs ih =>
    have hev : Event.window x ev = x := by
      have := h ev List.mem_cons_self
      cases ev <;> first | rfl | cases this
    rw [List.foldl_cons, hev]
    exact ih fun ev' hm => h ev' (List.mem_cons_of_mem _ hm)

/-- Delivering text does not open a closed window. -/
theorem rcvWnd_deliver (hm : v.wndMax < 2147483648) (hs : v.onData = true → v.recvBuf = [])
    (h : v.rcvWnd = 0) (data : List UInt8) : (v.deliver data).rcvWnd = 0 := by
  by_cases hd : v.onData = true
  · have hmax : v.wndMax = 0 := by
      by_contra h0
      have := rcvWnd_pos hm (hs hd) (by omega)
      omega
    apply rcvWnd_of_room
    show v.wndMax - _ = 0
    omega
  · have hbuf : (v.deliver data).recvBuf = v.recvBuf ++ data := if_neg hd
    have hroom : (v.deliver data).room = v.wndMax - (v.recvBuf.length + data.length) := by
      rw [room, hbuf, List.length_append]
      rfl
    by_cases hfull : v.recvBuf.length + data.length ≤ v.wndMax
    · -- the room shrinks as RCV.NXT advances: the edge that it allows stays
      have hv : v.room = v.wndMax - v.recvBuf.length := rfl
      have hl (right : Int) : (v.deliver data).lead right = v.lead right := by
        have hn : (v.deliver data).rcvNxt = add v.rcvNxt data.length := rfl
        simp only [lead, hroom, hn, add_def]
        omega
      have hheld (right : Int) : (v.deliver data).HeldBack right ↔ v.HeldBack right := by
        simp only [HeldBack, hl]
        exact Iff.rfl
      rcases rcvWnd_cases v with ⟨right, hh⟩ | ⟨hh, hw⟩
      · have heq := rcvWnd_held_eq hm hh
        have heq' := rcvWnd_held_eq (v := v.deliver data) hm ((hheld right).mpr hh)
        rw [hl] at heq'
        omega
      · have heq' := rcvWnd_open fun right hr => hh right ((hheld right).mp hr)
        omega
    · exact rcvWnd_of_room (by omega)

/-- What the engine keeps about the window it advertised last: a zero window is still
zero, and the flag that makes RECEIVE announce a new one is set. -/
structure NoStale (v : Receiver) : Prop where
  max : v.wndMax < 2147483648
  sink : v.onData = true → v.recvBuf = []
  opening : v.state ∈ [.closed, .listen, .synSent, .synReceived] → v.recvBuf = []
  zero : lastWindow v.log = some 0 → v.rcvWnd = 0 ∧ v.adv.zeroWinAdvertised = true

/-- A segment built now announces the window as it is. -/
theorem NoStale.built (hm : v.wndMax < 2147483648) {log : List Event} {seg : TcpSegment}
    (hw : seg.window = v.rcvWnd)
    (hz : lastWindow log = some 0 → seg.rst = true →
      v.rcvWnd = 0 ∧ v.adv.zeroWinAdvertised = true)
    (h : lastWindow (log ++ [.tx seg]) = some 0) :
    rcvWnd { v with adv := v.advertised } = 0 ∧ v.advertised.zeroWinAdvertised = true := by
  rw [lastWindow_append] at h
  rw [rcvWnd_advertised hm]
  have h0 : v.rcvWnd = 0 := by
    by_cases hr : seg.rst = true
    · have : lastWindow log = some 0 := by
        simpa only [List.foldl_cons, List.foldl_nil, Event.window, hr, if_true] using h
      exact (hz this hr).1
    · have : some seg.window = some 0 := by
        simpa only [List.foldl_cons, List.foldl_nil, Event.window, hr, Bool.false_eq_true,
          if_false] using h
      rw [← hw]
      exact Option.some.inj this
  refine ⟨h0, ?_⟩
  simp only [advertised, h0, decide_true, Bool.true_or]

/-- On an empty buffer the window is closed only when there is no room at all, whatever
has been advertised. -/
theorem rcvWnd_empty (hm : v.wndMax < 2147483648) (he : v.recvBuf = []) :
    v.rcvWnd = 0 ↔ v.wndMax = 0 := by
  constructor
  · intro hw
    by_contra h0
    have := rcvWnd_pos hm he (by omega)
    omega
  · intro h0
    exact rcvWnd_of_room (by rw [room, h0, Nat.zero_sub])

theorem lastWindow_change {log : List Event} {old new : ConnState}
    (h : lastWindow (log ++ [.stateChange old new]) = some 0) :
    lastWindow log = some 0 ∧ old ∉ [.closed, .listen] ∧ new ∉ [.closed, .listen] := by
  rw [lastWindow_append, List.foldl_cons, List.foldl_nil, Event.window] at h
  split_ifs at h with hb
  exact ⟨h, not_or.mp hb⟩

/-- A connection that is being opened comes from one that is not open. -/
theorem arcs_opening {s t : ConnState} (h : (s, t) ∈ arcs)
    (ht : t ∈ [.closed, .listen, .synSent, .synReceived]) : s ∈ [.closed, .listen] := by
  simp only [arcs, List.mem_cons, Prod.mk.injEq, List.not_mem_nil, or_false] at h
  rcases h with ⟨rfl, rfl⟩ | ⟨rfl, rfl⟩ | ⟨rfl, rfl⟩ | ⟨rfl, rfl⟩ | ⟨rfl, rfl⟩ | ⟨rfl, rfl⟩ |
    ⟨rfl, rfl⟩ | ⟨rfl, rfl⟩ | ⟨rfl, rfl⟩ | ⟨rfl, rfl⟩ | ⟨rfl, rfl⟩ | ⟨rfl, rfl⟩ <;> simp_all

theorem NoStale.deliver (h : v.NoStale) (hs : v.state ∈ TcpEngine.DataStates) (data : List UInt8) :
    (v.deliver data).NoStale := by
  constructor
  · exact h.max
  · intro hd
    show (if v.onData = true then v.recvBuf else _) = []
    rw [if_pos (by exact hd)]
    exact h.sink hd
  · intro ho
    exfalso
    have ho' : v.state ∈ [.closed, .listen, .synSent, .synReceived] := ho
    simp only [List.mem_cons, List.not_mem_nil, or_false] at hs ho'
    rcases hs with hs | hs | hs <;> simp [hs] at ho'
  · intro hz
    have hl : lastWindow (v.log ++ [.deliver data]) = lastWindow v.log := lastWindow_append _ _
    have h0 := h.zero (hl.symm.trans hz)
    exact ⟨rcvWnd_deliver h.max h.sink h0.1 data, h0.2⟩

/-- What a turn keeps, outside RECEIVE. -/
theorem NoStale.turn (ha : ∀ n, a ≠ .receive n) (ht : Turn a v w) (h : v.NoStale) : w.NoStale := by
  cases ht with
  | builds seg hw _ =>
    refine ⟨h.max, h.sink, h.opening, fun hz => ?_⟩
    exact NoStale.built h.max hw (fun hl _ => h.zero hl) hz
  | botches =>
    refine ⟨h.max, h.sink, h.opening, fun hz => ?_⟩
    have h0 := h.zero hz
    refine ⟨(rcvWnd_advertised h.max).trans h0.1, ?_⟩
    show (decide (v.rcvWnd = 0) || _) = true
    rw [h0.1]
    rfl
  | rejects seg hr =>
    refine ⟨h.max, h.sink, h.opening, fun hz => h.zero ?_⟩
    have hl := lastWindow_append v.log [.tx seg]
    simp only [List.foldl_cons, List.foldl_nil, Event.window, hr, if_true] at hl
    exact hl.symm.trans hz
  | notes ev hev =>
    refine ⟨h.max, h.sink, h.opening, fun hz => h.zero ?_⟩
    have hl := lastWindow_append v.log [ev]
    rw [aside_window (by simpa using hev)] at hl
    exact hl.symm.trans hz
  | changes st hst =>
    refine ⟨h.max, h.sink, fun ho => ?_, fun hz => h.zero (lastWindow_change hz).1⟩
    have hs := arcs_opening hst ho
    apply h.opening
    simp only [List.mem_cons, List.not_mem_nil, or_false] at hs ⊢
    exact hs.imp id Or.inl
  | opens seg st m _ _ hst =>
    have he : v.recvBuf = [] := by
      apply h.opening
      rcases hst with ⟨hs, -⟩ | ⟨hs, -⟩ <;> simp [hs]
    refine ⟨h.max, h.sink, fun _ => he, fun hz => ?_⟩
    have h0 := h.zero (lastWindow_change hz).1
    refine ⟨?_, h0.2⟩
    exact rcvWnd_of_room
      (by show v.wndMax - _ = 0; rw [(rcvWnd_empty h.max he).mp h0.1, Nat.zero_sub])
  | ends st hst =>
    refine ⟨h.max, fun _ => rfl, fun _ => rfl, fun hz => ?_⟩
    by_cases hs : v.state = st
    · rw [if_pos hs] at hz
      have hz' : lastWindow v.log = some 0 := by
        rw [← List.append_nil v.log]
        exact hz
      have h0 := h.zero hz'
      have he : v.recvBuf = [] := by
        apply h.opening
        rcases hst with rfl | ⟨h1, rfl⟩
        · simp [hs]
        · simp [h1]
      refine ⟨rcvWnd_of_room ?_, h0.2⟩
      show v.wndMax - _ = 0
      rw [(rcvWnd_empty h.max he).mp h0.1, Nat.zero_sub]
    · rw [if_neg hs] at hz
      exfalso
      apply (lastWindow_change hz).2.2
      rcases hst with rfl | ⟨-, rfl⟩ <;> simp
  | takes seg data _ hs _ _ => exact h.deliver hs data
  | merges seg x _ hs _ =>
    have h' : NoStale { v with ooo := v.ooo.eraseP v.mergeable } :=
      ⟨h.max, h.sink, h.opening, h.zero⟩
    unfold Receiver.mergeEntry
    dsimp only
    split_ifs
    · exact h'
    · exact h'
    · exact h'.deliver hs _
  | stores seg x => exact ⟨h.max, h.sink, h.opening, h.zero⟩
  | storesSyn seg x => exact ⟨h.max, h.sink, h.opening, h.zero⟩
  | consumes evs seg _ hev hw _ hr _ =>
    refine ⟨h.max, h.sink, h.opening, fun hz => ?_⟩
    have hz' : lastWindow ((v.log ++ evs) ++ [.tx seg]) = some 0 := by
      rw [List.append_assoc]
      exact hz
    exact NoStale.built (v := v.pastFin) h.max hw (fun _ hr' => by rw [hr] at hr'; cases hr') hz'
  | drains n hn => exact absurd hn (ha n)
  | reopens n hn => exact absurd hn (ha n)

end Receiver

namespace TcpEngine

variable {a : Action} {e e' : TcpEngine}

/-- A RECEIVE that may open a window it has announced as zero announces it. -/
theorem receive_noStale (n : Nat) (h : e.receiver.NoStale) : (e.receive n).receiver.NoStale := by
  have hdrain : (e.drain n).receiver = { e.receiver with recvBuf := e.buf.recvBuf.drop n } := rfl
  have hbuf (p : Prop) (hp : p → e.buf.recvBuf = []) : p → e.buf.recvBuf.drop n = [] :=
    fun hq => by rw [hp hq, List.drop_nil]
  have hfin (f : TcpEngine) (data : List UInt8) (hf : f.receiver.NoStale) :
      (f.finishReceive data).receiver.NoStale := by
    have hr : (f.finishReceive data).receiver =
        f.receiver.note [.received data f.psh.pushSeen f.psh.urgentSeen] := by
      unfold TcpEngine.finishReceive
      dsimp only
      split <;> rfl
    rw [hr]
    exact hf.turn (a := .close) (by simp) (.notes _ _ True.intro)
  unfold receive
  dsimp only
  split_ifs with h1 h2 h3 h4
  · exact h
  · exact h
  · exact h
  · -- the window is announced as it is now
    apply hfin
    have hack : (e.drain n).reopenWindow.sendAck.receiver =
        { (e.drain n).reopenWindow.receiver with
          adv := (e.drain n).reopenWindow.receiver.advertised }.note
          [.tx (e.drain n).reopenWindow.ackSegment] := by
      simp [receiver, Receiver.note]
      rfl
    rw [hack]
    refine ⟨h.max, hbuf _ h.sink, hbuf _ h.opening, fun hz => ?_⟩
    exact Receiver.NoStale.built (v := (e.drain n).reopenWindow.receiver) h.max rfl
      (fun _ hr => by cases hr) hz
  · -- it is as it was, or it was not announced as zero
    apply hfin
    refine ⟨h.max, hbuf _ h.sink, hbuf _ h.opening, fun hz => ?_⟩
    have h0 := h.zero hz
    refine ⟨?_, h0.2⟩
    by_cases hd : e.buf.recvBuf.take n = []
    · have hsame : e.buf.recvBuf.drop n = e.buf.recvBuf := by
        have := List.take_append_drop n e.buf.recvBuf
        rwa [hd, List.nil_append] at this
      rw [hdrain, hsame]
      exact h0.1
    · have hn : ¬ 0 < (e.drain n).rcvWnd := fun hw => h4 ⟨hd, h0.2, hw⟩
      exact Nat.le_zero.mp (Nat.not_lt.mp hn)

theorem noStale_init (args : EngineArgs) (sched : ManualScheduler Callback) (rand : Nat)
    (hmax : args.rcvWnd < 2147483648) : (init args sched rand).receiver.NoStale :=
  ⟨hmax, fun _ => rfl, fun _ => rfl, fun h => by cases h⟩

/-- An entry point leaves no stale zero window. -/
theorem Ready.noStale (hr : e.Ready) (h : e.receiver.NoStale)
    (hs : engineMachine.step e a = some e') : e'.receiver.NoStale := by
  by_cases ha : ∃ n, a = .receive n
  · obtain ⟨n, rfl⟩ := ha
    have he : e' = e.enter.receive n := by
      simp only [engineMachine] at hs
      split_ifs at hs
      exact (Option.some.inj hs).symm
    rw [he]
    exact receive_noStale (e := e.enter) n h
  · exact (hr.turns hs).preserves (fun v w ht hv => hv.turn (not_exists.mp ha) ht) h

/-- In every run the last window a connection has advertised is zero only while the window
it enforces is zero, and so not once the receive buffer has been drained. -/
theorem zero_window_not_stale (args : EngineArgs) (sched : ManualScheduler Callback) (rand : Nat)
    (as : List Action) (e : TcpEngine) (hmax : args.rcvWnd ≤ 65535)
    (hr : engineMachine.run (init args sched rand) as = some e) :
    (lastWindow e.env.log = some 0 → e.rcvWnd = 0) ∧
      (e.buf.recvBuf = [] → 0 < e.conf.rcvWndMax → lastWindow e.env.log ≠ some 0) := by
  have hinv : e.Ready ∧ e.receiver.NoStale :=
    engineMachine.invariant_run (I := fun f => f.Ready ∧ f.receiver.NoStale)
      (fun s a s' hs hstep => ⟨hs.1.step hstep, hs.1.noStale hs.2 hstep⟩)
      ⟨ready_init args sched rand, noStale_init args sched rand (by omega)⟩ hr
  have hzero (hz : lastWindow e.env.log = some 0) : e.rcvWnd = 0 := (hinv.2.zero hz).1
  refine ⟨hzero, fun he h0 hz => ?_⟩
  have hpos : 0 < e.rcvWnd := Receiver.rcvWnd_pos (v := e.receiver) hinv.2.max he h0
  have := hzero hz
  omega

/-- Two bytes arrive in a buffer of two. -/
def filledRun : List Action :=
  [.activeOpen,
    .segment [0, 80, 3, 232, 0, 0, 3, 232, 0, 0, 0, 101, 80, 18, 255, 255, 0, 0, 0, 0],
    .segment [0, 80, 3, 232, 0, 0, 3, 233, 0, 0, 0, 101, 80, 16, 255, 255, 0, 0, 0, 0, 7, 8]]

def filledArgs : EngineArgs := { localPort := 1000, remotePort := 80, rcvWnd := 2, iss := some 100 }

theorem filled_buffer_closed : ∃ e, engineMachine.run (init filledArgs {} 0) filledRun = some e ∧
    lastWindow e.env.log = some 0 ∧ e.rcvWnd = 0 := by
  have h : ((engineMachine.run (init filledArgs {} 0) filledRun).map fun e =>
      lastWindow e.env.log) = some (some 0) := by decide +kernel
  obtain ⟨e, he, hv⟩ := Option.map_eq_some_iff.mp h
  exact ⟨e, he, hv, (zero_window_not_stale filledArgs {} 0 filledRun e (by decide) he).1 hv⟩

end TcpEngine

end HdlPlayground.Tcp
