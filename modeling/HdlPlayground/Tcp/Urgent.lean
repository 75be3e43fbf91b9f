import HdlPlayground.Tcp.Karn
import HdlPlayground.Tcp.SenderRuns

/-!
# Urgent data

SEND with URGENT notes in SND.UP where the urgent data ends, and the segments that start
before it point there. An observer counts how far the end of the urgent data is ahead of
SND.NXT, and keeps the first transmission of every entry of the retransmission queue. Text
points where it should while urgent data is waiting; afterwards SND.UP stays where it was,
and half of the sequence space away from it the comparison says that it is ahead again.
-/
namespace HdlPlayground.Tcp

namespace TcpEngine

variable {a : Action} {e e' f g : TcpEngine} {seg : TcpSegment} {evs evs' : List Event}

/-- The URG bits of the entries of a queue. -/
def urgBits (q : List Outgoing) : List Bool := q.map fun o => o.flags.urg

/-- The segments with text or a FIN among what has been transmitted. -/
def weighing (segs : List TcpSegment) : List TcpSegment := segs.filter fun seg => seg.Weighs

/-- What the events transmit. -/
def segments (evs : List Event) : List TcpSegment :=
  evs.filterMap fun
    | .tx seg => some seg
    | _ => none

theorem segments_append (evs evs' : List Event) :
    segments (evs ++ evs') = segments evs ++ segments evs' := List.filterMap_append

theorem mem_segments : seg ∈ segments evs ↔ Event.tx seg ∈ evs := by
  rw [segments, List.mem_filterMap]
  constructor
  · rintro ⟨ev, hm, hev⟩
    split at hev
    · obtain rfl := Option.some.inj hev
      exact hm
    · cases hev
  · exact fun h => ⟨_, h, rfl⟩

/-- The URG bits of the segments with text or a FIN that the events transmit. -/
def freshBits (evs : List Event) : List Bool :=
  (weighing (segments evs)).map fun seg => seg.flags.urg

theorem freshBits_append (evs evs' : List Event) :
    freshBits (evs ++ evs') = freshBits evs ++ freshBits evs' := by
  simp [freshBits, weighing, segments_append]

/-- The event transmits no text and no FIN, and nothing urgent. -/
def Wordless (ev : Event) : Prop := ∀ seg, ev = .tx seg → seg.flags.urg = false ∧ ¬ seg.Weighs

theorem Wordless.of_eq (hu : seg.flags.urg = false) (hp : seg.payload = []) (hf : seg.fin = false) :
    Wordless (.tx seg) := by
  rintro s h
  obtain rfl := Event.tx.inj h
  exact ⟨hu, by simp [TcpSegment.Weighs, hp, hf]⟩

theorem wordless_stateChange (o n : ConnState) : Wordless (.stateChange o n) := by
  rintro s h
  cases h

theorem freshBits_wordless (h : ∀ ev ∈ evs, Wordless ev) : freshBits evs = [] := by
  have hw : weighing (segments evs) = [] := by
    rw [weighing, List.filter_eq_nil_iff]
    intro seg hm
    simpa using (h _ (mem_segments.mp hm) seg rfl).2
  rw [freshBits, hw, List.map_nil]

/-- The segment carries text from the buffer and points to SND.UP, if that is ahead of it. -/
structure Voiced (e : TcpEngine) (seg : TcpSegment) : Prop where
  urg : seg.flags.urg = seqLt seg.seq e.tcb.sndUp
  ptr : seg.flags.urg = true → seg.urgentPtr = min 65535 (sub e.tcb.sndUp seg.seq).toNat
  text : seg.payload ≠ []
  place : e.Outside ∨
    ∃ i : Nat, i < e.buf.appBuf.length ∧ (seg.seq - e.tcb.sndNxt - i) % 4294967296 = 0

/-- What an entry point does to the text in the buffer and to the URG bits of the queue. -/
structure Conveys (evs : List Event) (e f : TcpEngine) : Prop where
  log : f.env.log = e.env.log ++ evs
  up : f.tcb.sndUp = e.tcb.sndUp
  text : ∃ n, f.buf.appBuf = e.buf.appBuf.drop n ∧
    (e.Outside ∨ f.buf.appBuf = [] ∨ (f.tcb.sndNxt - e.tcb.sndNxt - n) % 4294967296 = 0)
  bits : (e.Outside ∧ ¬ f.Outside) ∨
    urgBits f.buf.retx <:+ urgBits e.buf.retx ++ freshBits evs

/-- The same of its moves, and what they transmit. -/
structure Follows (a : Action) (evs : List Event) (e f : TcpEngine) : Prop
    extends Conveys evs e f where
  opens : e.Outside → ¬ f.Outside → ¬ a.Closes
  closes : ¬ e.Outside → f.Outside → a.Closes ∧ f.buf.appBuf = [] ∧ f.buf.retx = []
  idle : e.Outside → f.Outside → ∀ ev ∈ evs, Wordless ev
  voice : ∀ seg, .tx seg ∈ evs → seg.flags.urg = false ∧ seg.payload = [] ∨ Voiced e seg

namespace Follows

theorem refl (a : Action) (e : TcpEngine) : Follows a [] e e where
  log := by simp
  up := rfl
  opens h h' := absurd h h'
  closes h h' := absurd h' h
  idle _ _ := by simp
  text := ⟨0, by simp, Or.inr (Or.inr (by omega))⟩
  bits := Or.inr ⟨[], by simp [freshBits, weighing, segments]⟩
  voice := by simp

/-- What went out before the connection was closed is all that goes out. -/
theorem wordless_after (h' : Follows a evs' f g) (hx : a.Closes) (ho : f.Outside) :
    g.Outside ∧ ∀ ev ∈ evs', Wordless ev := by
  have hg : g.Outside := by
    by_contra hn
    exact h'.opens ho hn hx
  exact ⟨hg, h'.idle ho hg⟩

theorem trans (h : Follows a evs e f) (h' : Follows a evs' f g) : Follows a (evs ++ evs') e g where
  log := by rw [h'.log, h.log, List.append_assoc]
  up := h'.up.trans h.up
  opens he hg := by
    by_cases hf : f.Outside
    · exact h'.opens hf hg
    · exact h.opens he hf
  closes he hg := by
    by_cases hf : f.Outside
    · obtain ⟨hx, hb, hq⟩ := h.closes he hf
      obtain ⟨n, hn, -⟩ := h'.text
      have hev := (h'.wordless_after hx hf).2
      refine ⟨hx, by rw [hn, hb, List.drop_nil], ?_⟩
      obtain ⟨-, hout⟩ | hs := h'.bits
      · exact absurd hg hout
      · rw [hq, freshBits_wordless hev] at hs
        simpa [urgBits] using hs
    · exact h'.closes hf hg
  idle he hg := by
    by_cases hf : f.Outside
    · intro ev hm
      exact (List.mem_append.mp hm).elim (h.idle he hf ev) (h'.idle hf hg ev)
    · exact absurd (h'.closes hf hg).1 (h.opens he hf)
  text := by
    obtain ⟨n, hn, hp⟩ := h.text
    obtain ⟨m, hm, hp'⟩ := h'.text
    refine ⟨n + m, by rw [hm, hn, List.drop_drop], ?_⟩
    by_cases he : e.Outside
    · exact Or.inl he
    apply Or.inr
    by_cases hb : f.buf.appBuf = []
    · exact Or.inl (by rw [hm, hb, List.drop_nil])
    have hf : ¬ f.Outside := fun hf => hb (h.closes he hf).2.1
    rcases hp with hp | hp | hp
    · exact absurd hp he
    · exact absurd hp hb
    rcases hp' with hp' | hp' | hp'
    · exact absurd hp' hf
    · exact Or.inl hp'
    · exact Or.inr (by omega)
  bits := by
    by_cases hg : g.Outside
    · apply Or.inr
      by_cases hf : f.Outside
      · obtain ⟨-, hn⟩ | hs := h'.bits
        · exact absurd hg hn
        rw [freshBits_wordless (h'.idle hf hg), List.append_nil] at hs
        rw [freshBits_append, freshBits_wordless (h'.idle hf hg), List.append_nil]
        obtain ⟨-, hn⟩ | hs' := h.bits
        · exact absurd hf hn
        · exact hs.trans hs'
      · rw [(h'.closes hf hg).2.2]
        exact List.nil_suffix
    · by_cases he : e.Outside
      · exact Or.inl ⟨he, hg⟩
      by_cases hf : f.Outside
      · exact absurd (h.closes he hf).1 (h'.opens hf hg)
      obtain ⟨hx, -⟩ | hs := h.bits
      · exact absurd hx he
      obtain ⟨hx, -⟩ | hs' := h'.bits
      · exact absurd hx hf
      refine Or.inr (hs'.trans ?_)
      rw [freshBits_append, ← List.append_assoc]
      exact List.suffix_append_self_iff.mpr hs
  voice := by
    intro seg hm
    rcases List.mem_append.mp hm with hm | hm
    · exact h.voice seg hm
    refine (h'.voice seg hm).imp_right fun hv => ⟨by rw [← h.up]; exact hv.urg,
      by rw [← h.up]; exact hv.ptr, hv.text, ?_⟩
    by_cases he : e.Outside
    · exact Or.inl he
    apply Or.inr
    -- a segment with text leaves no room for the connection to have been closed before it
    have hf : ¬ f.Outside := by
      intro hf
      have hq := (h'.wordless_after (h.closes he hf).1 hf).2 _ hm seg rfl
      exact hq.2 (Or.inl hv.text)
    obtain ⟨i, hi, hseq⟩ := hv.place.resolve_left hf
    obtain ⟨n, hn, hp⟩ := h.text
    rw [hn, List.length_drop] at hi
    have hne : f.buf.appBuf ≠ [] := by
      intro hb
      rw [hn] at hb
      have := congrArg List.length hb
      rw [List.length_drop, List.length_nil] at this
      omega
    have hnxt := (hp.resolve_left he).resolve_left hne
    exact ⟨n + i, by omega, by omega⟩

end Follows

/-! ## The moves -/

theorem Wordless.silent {ev : Event} (h : Wordless ev) (hs : ev = .tx seg) :
    seg.flags.urg = false ∧ seg.payload = [] := by
  obtain ⟨hu, hw⟩ := h seg hs
  exact ⟨hu, by_contra fun hp => hw (Or.inl hp)⟩

/-- The text stays where it is, and nothing of it goes out. -/
theorem Follows.still (hm : Move a e f) (hl : Logs Wordless e f)
    (hu : f.tcb.sndUp = e.tcb.sndUp) (hn : f.tcb.sndNxt = e.tcb.sndNxt)
    (hb : f.buf.appBuf = e.buf.appBuf) (hq : urgBits f.buf.retx <:+ urgBits e.buf.retx)
    (ho : f.Outside → e.Outside) : ∃ evs, Follows a evs e f := by
  obtain ⟨evs, hlog, hev⟩ := hl
  refine ⟨evs, ⟨hlog, hu, ⟨0, by simpa using hb, Or.inr (Or.inr ?_)⟩, Or.inr ?_⟩,
    fun he hf => (hm.control.begins he hf).1, fun he hf => absurd (ho hf) he,
    fun _ _ => hev, fun seg hs => Or.inl ((hev _ hs).silent rfl)⟩
  · rw [hn]
    omega
  · rwa [freshBits_wordless hev, List.append_nil]

/-- Only a queue that is as it was. -/
theorem Follows.same (hm : Move a e f) (hl : Logs Wordless e f) (ht : f.tcb = e.tcb)
    (hb : f.buf.appBuf = e.buf.appBuf) (hq : f.buf.retx = e.buf.retx) :
    ∃ evs, Follows a evs e f :=
  Follows.still hm hl (by rw [ht]) (by rw [ht]) hb (by rw [hq])
    (by rw [Outside, Outside, ht]; exact id)

/-- A connection is opened. -/
theorem Follows.opened (hm : Move a e f) (hl : Logs Wordless e f)
    (hu : f.tcb.sndUp = e.tcb.sndUp) (hb : f.buf.appBuf = e.buf.appBuf)
    (he : e.Outside) (hf : ¬ f.Outside) : ∃ evs, Follows a evs e f := by
  obtain ⟨evs, hlog, hev⟩ := hl
  exact ⟨evs, ⟨hlog, hu, ⟨0, by simpa using hb, Or.inl he⟩, Or.inl ⟨he, hf⟩⟩,
    fun he hf => (hm.control.begins he hf).1, fun hn => absurd he hn,
    fun _ hn => absurd hn hf, fun seg hs => Or.inl ((hev _ hs).silent rfl)⟩

/-- The connection is over. -/
theorem Follows.ended (hx : a.Closes) (hl : Logs Wordless e f)
    (hu : f.tcb.sndUp = e.tcb.sndUp) (hb : f.buf.appBuf = []) (hq : f.buf.retx = [])
    (hf : f.Outside) : ∃ evs, Follows a evs e f := by
  obtain ⟨evs, hlog, hev⟩ := hl
  refine ⟨evs, ⟨hlog, hu, ⟨e.buf.appBuf.length, by simpa using hb, Or.inr (Or.inl hb)⟩,
    Or.inr ?_⟩, fun _ hn => absurd hf hn, fun _ _ => ⟨hx, hb, hq⟩, fun _ _ => hev,
    fun seg hs => Or.inl ((hev _ hs).silent rfl)⟩
  rw [hq]
  exact List.nil_suffix

theorem urgBits_trimRetx (ack : Int) (q : List Outgoing) :
    urgBits (trimRetx ack q) <:+ urgBits q := by
  induction q with
  | nil => exact List.suffix_rfl
  | cons o q ih =>
    have hcut : (o.cut ack).flags.urg = o.flags.urg := by
      unfold Outgoing.cut
      dsimp only
      split_ifs <;> rfl
    unfold trimRetx
    split_ifs
    · exact ih.trans (List.suffix_cons _ _)
    · simp [urgBits, hcut]
    · exact List.suffix_rfl

theorem urgBits_ackHeadSyn (q : List Outgoing) : urgBits (ackHeadSyn q) = urgBits q := by
  cases q with
  | nil => rfl
  | cons o q =>
    by_cases h : o.flags.syn = true
    · rw [ackHeadSyn, if_pos h]
      rfl
    · rw [ackHeadSyn, if_neg h]

/-- A chunk of text goes on the queue as it goes out. -/
theorem sendChunk_follows (hs : e.tcb.state = .established ∨ e.tcb.state = .closeWait)
    (hlen : 0 < e.chunkLen) : ∃ evs, Follows a evs e (e.sendChunk e.chunkLen) := by
  have ho : ¬ e.Outside := by rcases hs with hs | hs <;> simp [Outside, hs]
  have ho' : ¬ (e.sendChunk e.chunkLen).Outside := by
    rcases hs with hs | hs <;> simp [Outside, hs]
  have hle : e.chunkLen ≤ e.buf.appBuf.length := by
    unfold chunkLen
    omega
  have hne : e.buf.appBuf.take e.chunkLen ≠ [] := by
    intro h
    have := congrArg List.length h
    rw [List.length_take, List.length_nil] at this
    omega
  obtain ⟨psh, hp⟩ := sendChunk_eq (e := e) e.chunkLen
  obtain hq | ⟨hm, -⟩ := (e.takeChunk e.chunkLen).queueAndSend_cases
    (e.takeChunk e.chunkLen).chunkFlags (e.buf.appBuf.take e.chunkLen) false
    (e.takeChunk e.chunkLen).urgentPointer
  swap
  · cases hm
  generalize hseg : (e.takeChunk e.chunkLen).segmentFor (e.takeChunk e.chunkLen).tcb.sndNxt
    (e.takeChunk e.chunkLen).chunkFlags (e.buf.appBuf.take e.chunkLen) false
    (e.takeChunk e.chunkLen).urgentPointer = seg at hq
  have hpay : seg.payload = e.buf.appBuf.take e.chunkLen := by rw [← hseg]; rfl
  have hurg : seg.flags.urg = seqLt e.tcb.sndNxt e.tcb.sndUp := by rw [← hseg]; rfl
  have hseq : seg.seq = e.tcb.sndNxt := by rw [← hseg]; rfl
  have hptr : seg.urgentPtr = if seqLt e.tcb.sndNxt e.tcb.sndUp
      then min 65535 (sub e.tcb.sndUp e.tcb.sndNxt).toNat else 0 := by rw [← hseg]; rfl
  have hlog : (e.sendChunk e.chunkLen).env.log = e.env.log ++ [.tx seg] := by
    rw [hp]
    show (e.queueChunk e.chunkLen).env.log = _
    rw [queueChunk, hq]
    simp
  refine ⟨[.tx seg], ⟨hlog, by simp [queueChunk], ⟨e.chunkLen, by simp, Or.inr (Or.inr ?_)⟩,
    Or.inr ?_⟩, fun he _ => absurd he ho, fun _ hf => absurd hf ho', fun he _ => absurd he ho,
    fun s hs => Or.inr ?_⟩
  · obtain ⟨⟨-, -, h, -⟩, -⟩ := sendChunk_sends (e := e) (by
      by_contra hu
      have : e.usableWindow.toNat = 0 := by omega
      unfold chunkLen at hlen
      omega)
    exact h
  · have hw : seg.Weighs := Or.inl (by rw [hpay]; exact hne)
    have hb : freshBits [.tx seg] = [seg.flags.urg] := by
      simp [freshBits, segments, weighing, hw]
    rw [hb, sendChunk_buf, queueChunk, queueAndSend_buf, hurg]
    simp [urgBits, outgoing, chunkFlags, urgentNow]
  · obtain rfl := Event.tx.inj (List.mem_singleton.mp hs)
    refine ⟨by rw [hseq, hurg], fun hu => ?_, by rw [hpay]; exact hne, Or.inr ⟨0, by omega, ?_⟩⟩
    · rw [hurg] at hu
      rw [hptr, if_pos hu, hseq]
    · rw [hseq]
      omega

/-- The FIN leaves an empty buffer. -/
theorem sendFin_follows (ho : ¬ e.Outside) (hd : e.FinDue) : ∃ evs, Follows a evs e e.sendFin := by
  obtain ⟨st, hst, hcase⟩ := sendFin_cases (e := e)
  have ho' : ¬ e.sendFin.Outside := by
    have hs : e.sendFin.tcb.state = st := by rw [hst]; simp
    rw [Outside, hs]
    rcases hcase with ⟨-, rfl⟩ | ⟨-, rfl⟩ | ⟨-, rfl⟩ | ⟨-, rfl⟩
    · simp
    · simp
    · simp
    · exact ho
  have hb : e.sendFin.buf.appBuf = [] := by rw [sendFin_buf]; exact hd.2.2
  obtain hq | ⟨hm, -⟩ := ({ e with fin := { e.fin with finSeq := e.tcb.sndNxt } } :
    TcpEngine).queueAndSend_cases { ack := true, fin := true } [] false 0
  swap
  · cases hm
  generalize hseg : ({ e with fin := { e.fin with finSeq := e.tcb.sndNxt } } :
    TcpEngine).segmentFor e.tcb.sndNxt { ack := true, fin := true } [] false 0 = seg at hq
  have hpay : seg.payload = [] := by rw [← hseg]; rfl
  have hurg : seg.flags.urg = false := by rw [← hseg]; rfl
  have hw : seg.Weighs := Or.inr (by rw [← hseg]; rfl)
  have hlq : e.finQueued.env.log = e.env.log ++ [.tx seg] := by
    rw [finQueued, hq]
    simp
  obtain ⟨evs, hlog, hev⟩ := setState_logs (e := e.finQueued) (P := Wordless) st
    fun _ => wordless_stateChange _ _
  refine ⟨.tx seg :: evs, ⟨by rw [hst, hlog, hlq, List.append_assoc]; rfl, by simp [hst],
    ⟨0, by rw [hb, hd.2.2]; rfl, Or.inr (Or.inl hb)⟩, Or.inr ?_⟩, fun he _ => absurd he ho,
    fun _ hf => absurd hf ho', fun he _ => absurd he ho, fun s hs => Or.inl ?_⟩
  · have hf : freshBits (.tx seg :: evs) = [seg.flags.urg] := by
      rw [← List.singleton_append, freshBits_append, freshBits_wordless hev]
      simp [freshBits, segments, weighing, hw]
    rw [hf, sendFin_buf, hurg]
    simp [urgBits, outgoing]
  · rcases List.mem_cons.mp hs with h | h
    · obtain rfl := Event.tx.inj h
      exact ⟨hurg, hpay⟩
    · exact (hev _ h).silent rfl

end TcpEngine

/-- The actions that neither set SND.UP nor retransmit nor probe. -/
def Action.Plainly (a : Action) : Prop :=
  (∀ data push t, a ≠ .send data push true t) ∧
    ∀ h, a = .expire h → h.cb ≠ .onRto ∧ h.cb ≠ .onPersist

namespace TcpEngine

variable {a : Action} {e e' f g : TcpEngine} {seg : TcpSegment} {evs evs' : List Event}

theorem wordless_segmentFor (seq : Int) {flags : Flags} (m : Bool) (urg : Nat)
    (hu : flags.urg = false) (hf : flags.fin = false) :
    Wordless (.tx (e.segmentFor seq flags [] m urg)) := .of_eq hu rfl hf

theorem urgBits_takeSyn (seg : TcpSegment) :
    urgBits (e.takeSyn seg).buf.retx <:+ urgBits e.buf.retx := by
  obtain ⟨m, -, -, h⟩ := takeSyn_cases (e := e) seg
  rw [h]
  dsimp only
  split
  · simpa using urgBits_trimRetx seg.ack e.buf.retx
  · exact List.suffix_rfl

theorem takeSyn_textual (seg : TcpSegment) : (e.takeSyn seg).tcb.sndUp = e.tcb.sndUp ∧
    (e.takeSyn seg).tcb.sndNxt = e.tcb.sndNxt ∧ (e.takeSyn seg).buf.appBuf = e.buf.appBuf := by
  obtain ⟨m, -, -, h⟩ := takeSyn_cases (e := e) seg
  rw [h]
  dsimp only
  split <;> simp

theorem giveUp_follows (msg : String) (hx : a.Closes) (hb : e.Blocked) :
    ∃ evs, Follows a evs e (e.giveUp msg) := by
  have he : Wordless (.error msg) := fun _ h => by cases h
  refine Follows.ended hx (giveUp_logs msg hb he (wordless_segmentFor _ _ _ rfl rfl)
    fun _ => wordless_stateChange _ _) (by rw [giveUp_tcb msg hb]) (by simp) (by simp)
    (by simp [Outside])

theorem Move.follows (hm : Move a e f) (hp : a.Plainly) (hh : f.env.hung = false) :
    ∃ evs, Follows a evs e f := by
  have hw {o n : ConnState} : Wordless (.stateChange o n) := wordless_stateChange o n
  have hack (g : TcpEngine) : Wordless (.tx g.ackSegment) := .of_eq rfl rfl rfl
  have hm' := hm
  cases hm with
  | setUserTimeout t => cases t <;> exact Follows.same hm' (.none rfl) rfl rfl rfl
  | connect ho =>
    have hs := ho.imp And.left id
    refine Follows.opened hm' ?_ ?_ ?_ (by rcases hs with hs | hs <;> simp [Outside, hs]) ?_
    · rw [connect_eq hs]
      exact Logs.trans (f := e.dialled) (.one _ rfl hw)
        (queueAndSend_logs _ _ _ _ (wordless_segmentFor _ _ _ rfl rfl))
    · rw [connect_eq hs]; simp [dialled]
    · rw [connect_eq hs]; simp [dialled]
    · rw [connect_eq hs]; simp [Outside, dialled]
  | startListening hs =>
    refine Follows.still hm' (Logs.trans (f := { e with fin := { e.fin with passive := true } })
      (.none rfl) (setState_logs _ fun _ => hw)) (by simp [TcpEngine.startListening])
      (by simp [TcpEngine.startListening]) (by simp [TcpEngine.startListening])
      (by simp [TcpEngine.startListening]) fun _ => by simp [Outside, hs]
  | setSndUp _ hu =>
    obtain ⟨data, push, t, rfl⟩ := hu
    exact absurd rfl (hp.1 data push t)
  | finishReceive data =>
    refine Follows.same hm' (.one _ (by rw [finishReceive_env]) ?_) (by simp) (by simp) (by simp)
    rintro s h
    cases h
  | retransmit g o rest _ hcb _ ha => exact absurd hcb (hp.2 g ha).1
  | probe g ha _ hcb => exact absurd hcb (hp.2 g ha).2
  | probeFin g ha _ hcb => exact absurd hcb (hp.2 g ha).2
  | sendAck =>
    exact Follows.same hm' (.one (.tx e.ackSegment) (by simp) (hack e)) (by simp) (by simp)
      (by simp)
  | scheduleAck force =>
    exact Follows.same hm' (scheduleAck_logs hack force) (by simp) (by simp) (by simp)
  | emitRstReply seg seq ack ackFlag =>
    rw [emitRstReply_eq] at hm' ⊢
    exact Follows.same hm' (.one _ rfl (.of_eq rfl rfl rfl)) rfl rfl rfl
  | sendSynAck =>
    exact Follows.same hm' (makeAndTransmit_logs _ _ _ _ _ (wordless_segmentFor _ _ _ rfl rfl))
      (by simp [TcpEngine.sendSynAck]) (by simp [TcpEngine.sendSynAck])
        (by simp [TcpEngine.sendSynAck])
  | sendKeepaliveProbe =>
    refine Follows.same hm' ?_ (by simp [TcpEngine.sendKeepaliveProbe])
      (by simp [TcpEngine.sendKeepaliveProbe]) (by simp [TcpEngine.sendKeepaliveProbe])
    exact Logs.trans (f := e.makeAndTransmit (sub e.tcb.sndUna 1) { ack := true })
      (makeAndTransmit_logs _ _ _ _ _ (wordless_segmentFor _ _ _ rfl rfl)) (.none rfl)
  | signalError msg =>
    refine Follows.same hm' (.one _ rfl ?_) rfl rfl rfl
    rintro s h
    cases h
  | sendChunk hs _ _ _ _ hlen =>
    refine sendChunk_follows hs (hlen.resolve_right ?_)
    simpa using hh
  | sendFin hc hd =>
    refine sendFin_follows ?_ hd
    rcases hc with hs | hs | ⟨hs, -⟩ <;> simp [Outside, hs]
  | processAck seg =>
    exact Follows.still hm' (.none (by simp)) (by simp) (by simp) (by simp)
      (by simpa using urgBits_trimRetx seg.ack e.buf.retx) (by simp [Outside])
  | acceptSyn seg _ hs =>
    obtain ⟨m, -, -, h⟩ := acceptSyn_eq (e := e) seg hs
    rw [h] at hm' ⊢
    exact Follows.opened hm' (Logs.trans (f := e.listenTaken seg m) (.one _ rfl hw)
      (queueAndSend_logs _ _ _ _ (wordless_segmentFor _ _ _ rfl rfl)))
      (by simp [listenTaken, listenTcb]) (by simp [listenTaken]) (by simp [Outside, hs])
      (by simp [Outside, listenTaken, listenTcb])
  | synEstablished seg =>
    obtain ⟨h1, h2, h3⟩ := takeSyn_textual (e := e) seg
    exact Follows.still hm' ((Logs.none (takeSyn_env seg)).trans (setState_logs _ fun _ => hw))
      (by simp [h1])
      (by simp [h2]) (by simp [h3]) (by simpa using urgBits_takeSyn seg) (by simp [Outside])
  | synReceived seg =>
    obtain ⟨h1, h2, h3⟩ := takeSyn_textual (e := e) seg
    refine Follows.still hm'
      ((Logs.none (takeSyn_env seg)).trans ((setState_logs _ fun _ => hw).trans
      (.none rfl))) (by simp [becomeSynReceived, h1]) (by simp [becomeSynReceived, h2])
      (by simp [becomeSynReceived, h3]) ?_ (by simp [Outside, becomeSynReceived])
    have hq : (e.takeSyn seg).becomeSynReceived.buf.retx = ackHeadSyn (e.takeSyn seg).buf.retx := by
      simp [becomeSynReceived]
    rw [hq, urgBits_ackHeadSyn]
    exact urgBits_takeSyn seg
  | storeSynData seg =>
    have hf := storeOoo_frame e (add seg.seq 1) seg.payload { seg.flags with fin := false }
    exact Follows.same hm' (.none (storeOoo_env _ _ _)) (storeOoo_tcb _ _ _) hf.appBuf hf.retx
  | storeOoo seg n =>
    have hf := storeOoo_frame e seg.seq (seg.payload.take n) seg.flags
    exact Follows.same hm' (.none (storeOoo_env _ _ _)) (storeOoo_tcb _ _ _) hf.appBuf hf.retx
  | receive _ hr =>
    obtain ⟨r, u, ht⟩ := hr.frame.tcb
    refine Follows.still hm' (hr.logs.mono ?_) (by rw [ht]) (by rw [ht]) hr.frame.appBuf
      (by rw [hr.frame.retx]) (by rw [Outside, Outside, ht]; exact id)
    rintro ev ⟨data, rfl⟩ s h
    cases h
  | completeOpen seg =>
    refine Follows.still hm' ((Logs.none (by simp)).trans (setState_logs _ fun _ => hw))
      (by simp [openCompleted]) (by simp [openCompleted]) (by simp [openCompleted]) ?_
      (by simp [Outside, openCompleted])
    simpa [openCompleted] using urgBits_trimRetx seg.ack e.buf.retx
  | finAckedWait =>
    exact Follows.still hm' (setState_logs _ fun _ => hw) (by simp) (by simp) (by simp) (by simp)
      (by simp [Outside])
  | finAckedTimeWait hs =>
    rw [enterTimeWait_eq (by simp [CanSend, hs])] at hm' ⊢
    exact Follows.still hm' (Logs.trans (f := e.stopRt.dropPersistTimer) (.none rfl)
      ((setState_logs _ fun _ => hw).trans (.none rfl))) (by simp) (by simp) (by simp) (by simp)
      (by simp [Outside])
  | processFin hs =>
    have hl : Logs Wordless e e.processFin :=
      processFin_logs (fun _ h => by cases h) (hack _) fun _ => hw
    obtain ⟨st, hst, h⟩ | ⟨-, h⟩ := processFin_cases (e := e)
    · rw [h] at hm' hl ⊢
      apply Follows.still hm' hl (by simp) (by simp) (by simp) (by simp)
      rcases hst with ⟨-, rfl⟩ | ⟨-, rfl⟩ | ⟨-, rfl⟩ <;> simp [Outside]
    · rw [h] at hm' hl ⊢
      exact Follows.still hm' hl (by simp) (by simp) (by simp) (by simp) (by simp [Outside])
  | listenAgain hs hpas hr =>
    obtain ⟨seg, hc, hrst, -⟩ := hr
    have hx : a.Closes := hc.closes_iff.mpr (Or.inl hrst)
    rw [doReset_listen hs hpas]
    exact Follows.ended hx ((setState_logs _ fun _ => hw).trans (.none rfl)) (by simp [restorePort])
      (by simp [restorePort]) (by simp [restorePort]) (by simp [restorePort, Outside])
  | close hx hb =>
    exact Follows.ended hx (enterClosed_logs hb fun _ => hw) (by rw [enterClosed_tcb hb]) (by simp)
      (by simp)
      (by simp [Outside])
  | abort hx hb =>
    have hb' := sendRst_blocked hb
    refine Follows.ended hx ((sendRst_logs (wordless_segmentFor _ _ _ rfl rfl)).trans
      (enterClosed_logs hb' fun _ => hw)) (by rw [enterClosed_tcb hb']; simp) (by simp) (by simp)
      (by simp [Outside])
  | giveUp msg hx hb => exact giveUp_follows msg hx hb
  | giveUpRto g c msg hx _ _ _ hb =>
    have hb1 : (if c then (e.fire g).countRto else e.fire g).Blocked := by
      split
      · exact (hb.fire g).of_view rfl
      · exact hb.fire g
    have hf : (if c then (e.fire g).countRto else e.fire g).tcb = e.tcb ∧
        (if c then (e.fire g).countRto else e.fire g).env.log = e.env.log := by
      split <;> simp
    generalize (if c then (e.fire g).countRto else e.fire g) = k at hb1 hf
    have he : Wordless (.error msg) := fun _ h => by cases h
    exact Follows.ended hx (Logs.trans (f := k) (.none hf.2) (giveUp_logs msg hb1 he
      (wordless_segmentFor _ _ _ rfl rfl) fun _ => hw)) (by rw [giveUp_tcb msg hb1, hf.1]) (by simp)
      (by simp) (by simp [Outside])
  | timeWaitExpires g hx _ _ hb =>
    have hb' := hb.fire g
    exact Follows.ended hx
      (Logs.trans (f := e.fire g) (.none (by simp)) (enterClosed_logs hb' fun _ => hw))
      (by rw [enterClosed_tcb hb']; simp) (by simp) (by simp) (by simp [Outside])
  | setSendWindow seg =>
    exact Follows.still hm' (.none (by simp)) (by simp) (by simp) (by simp) (by simp)
      (by simp [Outside])
  | _ =>
    exact Follows.same hm' (.none (by first | rfl | simp)) (by first | rfl | simp)
      (by first | rfl | simp) (by first | rfl | simp)

theorem Path.follows (h : Path a e f) (hp : a.Plainly) (hh : f.env.hung = false) :
    ∃ evs, Follows a evs e f := by
  induction h with
  | refl => exact ⟨[], .refl a e⟩
  | tail _ hm ih =>
    obtain ⟨evs, hf⟩ := ih (Path.hung (.single hm) hh)
    obtain ⟨evs', hf'⟩ := hm.follows hp hh
    exact ⟨evs ++ evs', hf.trans hf'⟩

/-! ## The observer -/

/-- The retransmission timer expires. -/
def Retransmits : Action → Prop
  | .expire h => h.cb = .onRto
  | _ => False

instance : (a : Action) → Decidable (Retransmits a)
  | .expire h => inferInstanceAs (Decidable (h.cb = .onRto))
  | .tick _ | .random _ | .openCall .. | .activeOpen | .passiveOpen | .send .. | .receive _
  | .close | .abort | .segment _ => inferInstanceAs (Decidable False)

/-- A SEND with URGENT is let through. -/
def Urges (e' : TcpEngine) : Action → Prop
  | .send data _ urgent _ => urgent = true ∧ data ≠ [] ∧ e'.env.exc = none
  | _ => False

instance (e' : TcpEngine) : (a : Action) → Decidable (Urges e' a)
  | .send data _ urgent _ =>
    inferInstanceAs (Decidable (urgent = true ∧ data ≠ [] ∧ e'.env.exc = none))
  | .tick _ | .random _ | .openCall .. | .activeOpen | .passiveOpen | .receive _
  | .close | .abort | .segment _ | .expire _ => inferInstanceAs (Decidable False)

end TcpEngine

/-- The number an urgent segment points to. -/
def TcpSegment.urgentEnd (seg : TcpSegment) : Option Int :=
  if seg.flags.urg then some (add seg.seq seg.urgentPtr) else none

/-- How far the end of the urgent data is ahead of SND.NXT, and the first transmission of
each entry of the retransmission queue, if the SYN could be built. -/
structure Urgency where
  ahead : Nat := 0
  firsts : List (Option TcpSegment) := []

namespace Urgency

open TcpEngine

/-- The end of the urgent data once a SEND has moved it to the end of the buffer. -/
def marked (u : Urgency) (e : TcpEngine) (a : Action) (e' : TcpEngine) : Nat :=
  if Urges e' a then (e.begin a).buf.appBuf.length else u.ahead

/-- What goes out for the first time in a step. -/
def fresh (e : TcpEngine) (a : Action) (e' : TcpEngine) : List (Option TcpSegment) :=
  if Retransmits a then []
  else if e.Outside ∧ ¬ e'.Outside then [(transmitted e e').find? fun seg => seg.syn]
  else (weighing (transmitted e e')).map some

/-- What the observer keeps after a step. -/
def next (u : Urgency) (e : TcpEngine) (a : Action) (e' : TcpEngine) : Urgency where
  ahead := if e'.Outside then 0
    else u.marked e a e' - ((e.begin a).buf.appBuf.length - e'.buf.appBuf.length)
  firsts := (u.firsts ++ fresh e a e').drop
    ((u.firsts ++ fresh e a e').length - e'.buf.retx.length)

/-- The segment starts before the end of the urgent data and points there. -/
def Points (u : Urgency) (e : TcpEngine) (a : Action) (e' : TcpEngine) (seg : TcpSegment) : Prop :=
  seg.flags.urg = true → sub seg.seq e.tcb.sndNxt < u.marked e a e' ∧
    (seg.urgentPtr = 65535 ∨ add seg.seq seg.urgentPtr = add e.tcb.sndNxt (u.marked e a e'))

/-- The retransmission of the head points to where its first transmission did, and that is
past its start. -/
def Repeats (u : Urgency) (seg : TcpSegment) : Prop :=
  seg.rst = false →
    (∀ first, u.firsts.head? = some (some first) → seg.urgentEnd = first.urgentEnd) ∧
      (seg.flags.urg = true → 0 < seg.urgentPtr)

/-- Urgent data is signalled where it is. -/
def Faithful (u : Urgency) (e : TcpEngine) (a : Action) (e' : TcpEngine) (seg : TcpSegment) :
    Prop :=
  if Retransmits a then u.Repeats seg else u.Points e a e' seg

/-- No urgent entry is retransmitted, and text goes out while urgent data is waiting, or else
with SND.UP not ahead of it. -/
def Sound (u : Urgency) (e : TcpEngine) (a : Action) (e' : TcpEngine) (seg : TcpSegment) : Prop :=
  if Retransmits a then seg.rst = false → ∀ o ∈ e.buf.retx.head?, o.flags.urg = false
  else Urges e' a ∨ seg.payload = [] ∨ e.Probes a ∨
    (0 < u.ahead ∧ sub seg.seq e.tcb.sndNxt < u.ahead + 2147483648) ∨
      seqLt seg.seq e.tcb.sndUp = false

end Urgency

/-- An engine with the observer of its urgent data. -/
def urgentMachine : Lib.Machine (TcpEngine × Urgency) Action where
  step s a := (engineMachine.step s.1 a).map fun e' => (e', s.2.next s.1 a e')

/-- Every segment that a step transmits is faithful exactly if it is sound. -/
def Signals (s : TcpEngine × Urgency) (a : Action) : Prop :=
  ∀ e', engineMachine.step s.1 a = some e' → ∀ seg ∈ TcpEngine.transmitted s.1 e',
    s.2.Faithful s.1 a e' seg ↔ s.2.Sound s.1 a e' seg

namespace TcpEngine

variable {a b : Action} {e e' f g k : TcpEngine} {seg : TcpSegment} {evs : List Event} {n : Nat}
  {u : Urgency}

/-- The next `n` octets of the buffer end with the urgent data. -/
structure Marks (n : Nat) (e : TcpEngine) : Prop where
  fits : n ≤ e.buf.appBuf.length
  up : 0 < n → ¬ e.Outside ∧ (e.tcb.sndUp - e.tcb.sndNxt - n) % 4294967296 = 0

theorem Marks.conveyed (h : Marks n k) (hc : Conveys evs k e') :
    Marks (if e'.Outside then 0 else n - (k.buf.appBuf.length - e'.buf.appBuf.length)) e' := by
  split
  · exact ⟨Nat.zero_le _, fun hx => absurd hx (by omega)⟩
  · next ho =>
    obtain ⟨m, hm, hp⟩ := hc.text
    have hlen : e'.buf.appBuf.length = k.buf.appBuf.length - m := by rw [hm, List.length_drop]
    have hfit := h.fits
    refine ⟨by omega, fun hpos => ⟨ho, ?_⟩⟩
    obtain ⟨hk, hup⟩ := h.up (by omega)
    have hne : e'.buf.appBuf ≠ [] := by
      intro hb
      rw [hb, List.length_nil] at hlen hpos
      omega
    have hnxt := (hp.resolve_left hk).resolve_left hne
    rw [hc.up]
    omega

/-- Text points where it should while urgent data is waiting, unless it is half the sequence
space past its end, and afterwards if it does not point at all. -/
theorem Voiced.points_iff (hv : Voiced k seg) (hn : Marks n k) :
    (seg.flags.urg = true → sub seg.seq k.tcb.sndNxt < n ∧
      (seg.urgentPtr = 65535 ∨ add seg.seq seg.urgentPtr = add k.tcb.sndNxt n)) ↔
    (0 < n ∧ sub seg.seq k.tcb.sndNxt < n + 2147483648) ∨ seqLt seg.seq k.tcb.sndUp = false := by
  have hd : 0 ≤ sub seg.seq k.tcb.sndNxt := Int.emod_nonneg _ (by decide)
  rw [hv.urg]
  by_cases hlt : seqLt seg.seq k.tcb.sndUp = true
  · have hptr := hv.ptr (by rw [hv.urg]; exact hlt)
    simp only [hlt, true_implies, Bool.true_eq_false, or_false]
    constructor
    · rintro ⟨h1, -⟩
      exact ⟨by omega, by omega⟩
    · rintro ⟨hpos, h1⟩
      obtain ⟨-, hup⟩ := hn.up hpos
      rw [seqLt_iff] at hlt
      rw [sub_def] at h1 hd
      rw [sub_def] at hptr
      rw [sub_def, add_def, add_def]
      refine ⟨?_, ?_⟩
      · omega
      · omega
  · rw [Bool.not_eq_true] at hlt
    simp [hlt]

/-- Text that a SEND with URGENT has just buffered starts before its end. -/
theorem Voiced.points (hv : Voiced k seg) (hk : ¬ k.Outside)
    (hup : k.tcb.sndUp = add k.tcb.sndNxt k.buf.appBuf.length) (hu : seg.flags.urg = true) :
    sub seg.seq k.tcb.sndNxt < k.buf.appBuf.length ∧ (seg.urgentPtr = 65535 ∨
      add seg.seq seg.urgentPtr = add k.tcb.sndNxt k.buf.appBuf.length) := by
  obtain ⟨i, hi, hseq⟩ := hv.place.resolve_left hk
  have hptr := hv.ptr hu
  rw [hup, sub_def, add_def] at hptr
  rw [sub_def, add_def, add_def]
  refine ⟨?_, ?_⟩
  · omega
  · omega

/-- The URG bit of a first transmission. -/
def firstBit (first : Option TcpSegment) : Bool := first.any fun seg => seg.flags.urg

theorem firstBits_drop {l : List (Option TcpSegment)} {q : List Outgoing}
    (h : urgBits q <:+ l.map firstBit) :
    (l.drop (l.length - q.length)).map firstBit = urgBits q := by
  have := List.suffix_iff_eq_drop.mp h
  rw [this, List.map_drop]
  simp [urgBits]

theorem firstBits_weighing (segs : List TcpSegment) :
    ((weighing segs).map some).map firstBit = (weighing segs).map fun seg => seg.flags.urg := by
  rw [List.map_map]
  rfl

theorem transmitted_eq (h : e'.env.log = e.env.log ++ evs) : transmitted e e' = segments evs := by
  rw [transmitted, entered, h, List.drop_left]
  rfl

/-! ## The steps -/

theorem begin_retx (a : Action) : (e.begin a).buf.retx = e.buf.retx := by
  obtain ⟨conf, psh, hb, -⟩ := begin_eq (e := e) a
  rw [hb]

theorem begin_outside (a : Action) : (e.begin a).Outside ↔ e.Outside := by
  rw [Outside, Outside, begin_tcb]

theorem marks_begin (a : Action) (h : Marks n e) : Marks n (e.begin a) := by
  refine ⟨h.fits.trans ?_, fun hp => ?_⟩
  · obtain ⟨conf, psh, hb, -⟩ := begin_eq (e := e) a
    rw [hb]
    simp
  · rw [begin_outside, begin_tcb]
    exact h.up hp

/-- A SEND that raises is like one without URGENT. -/
theorem sendBuffered_plain {data : List UInt8} {urgent : Bool} (hx : e.env.exc = none)
    (h : ¬ (urgent = true ∧ data ≠ [] ∧ (e.sendBuffered data urgent).env.exc = none)) :
    e.sendBuffered data urgent = e.sendBuffered data false := by
  by_cases hu : urgent = true ∧ data ≠ []
  swap
  · have hq (f : TcpEngine) : f.sendQueued data urgent = f.sendQueued data false := by
      have hb : (urgent && !data.isEmpty) = false := by
        cases urgent
        · rfl
        · have hd : data = [] := by_contra fun hd => hu ⟨rfl, hd⟩
          rw [hd]
          rfl
      unfold sendQueued
      rw [hb, Bool.false_and]
    simp only [sendBuffered, hq]
  have hexc : (e.sendBuffered data urgent).env.exc ≠ none := fun hn => h ⟨hu.1, hu.2, hn⟩
  by_cases hs : e.tcb.state = .listen
  swap
  · exact absurd ((sendBuffered_other data urgent hs).trans hx) hexc
  rw [sendBuffered, if_pos hs] at hexc ⊢
  rw [sendBuffered, if_pos hs]
  split
  · rfl
  · next hp =>
    rw [if_neg hp] at hexc
    split
    · rfl
    · next ho =>
      rw [if_neg ho, sendQueued_exc] at hexc
      exact absurd (Option.not_isSome_iff_eq_none.mp ho) hexc

/-- A SEND that sets no urgent pointer. -/
theorem send_unurged {data : List UInt8} {push urgent : Bool} {t : Option ℚ}
    (hs : engineMachine.step e (.send data push urgent t) = some e')
    (hu : ¬ Urges e' (.send data push urgent t)) :
    ∃ b evs, Follows b evs (e.begin (.send data push urgent t)) e' := by
  have hh := step_hung hs
  simp only [engineMachine] at hs
  split_ifs at hs
  obtain rfl := Option.some.inj hs
  by_cases ha : e.AcceptsSend
  swap
  · obtain ⟨msg, h⟩ := send_of_refused (e := e.enter) data push urgent t ha
    simp only [begin, if_neg ha, perform, h]
    exact ⟨.close, Follows.same (.raise _ _) (.none rfl) rfl rfl rfl⟩
  have ha' : e.enter.AcceptsSend := ha
  simp only [begin, if_pos ha, perform, send_of_accepts _ _ _ _ ha'] at hh hu ⊢
  have hx : ((e.enter.setUserTimeout t).bufferData data push).env.exc = none := by cases t <;> rfl
  have hst : ((e.enter.setUserTimeout t).bufferData data push).tcb.state ≠ .closed := by
    intro hc
    have hs : e.tcb.state = .closed := by cases t <;> exact hc
    simp [AcceptsSend, hs] at ha
  generalize (e.enter.setUserTimeout t).bufferData data push = k at hx hst hh hu ⊢
  have hplain : k.sendBuffered data urgent = k.sendBuffered data false :=
    sendBuffered_plain hx fun h => hu h
  rw [hplain] at hh ⊢
  refine ⟨.send data push false t, (sendBuffered_path data false hst ⟨data, push, t, rfl⟩).follows
    ⟨fun _ _ _ h => (by cases h), fun _ h => (by cases h)⟩ hh⟩

/-- What the persist timer sends when it does not probe. -/
theorem persist_follows {h : TimerHandle Callback} (hcb : h.cb = .onPersist)
    (hs : engineMachine.step e (.expire h) = some e') (hp : ¬ e.Probes (.expire h)) :
    ∃ b evs, Follows b evs (e.begin (.expire h)) e' := by
  have hh := step_hung hs
  simp only [engineMachine] at hs
  split_ifs at hs with hen
  obtain rfl := Option.some.inj hs
  have hf : (e.enter.popTimer h).forgetTimer .onPersist = e.enter.fire h := by rw [fire, hcb]
  have hfire : Path .close e.enter (e.enter.fire h) :=
    Path.of_move (.fire _ h hen.1 (Or.inl (by simp [hcb])))
  have hpl : Action.Plainly .close := ⟨fun _ _ _ h => (by cases h), fun _ h => by cases h⟩
  rw [perform, hcb, callback, onPersist, hf] at hh ⊢
  refine ⟨.close, ?_⟩
  show ∃ evs, Follows .close evs e.enter _
  split_ifs at hh ⊢ with hw hb hd
  · exact Path.follows (hfire.trans (sendPending_path _)) hpl hh
  · exfalso
    rw [fire_tcb] at hw
    rw [fire_buf] at hb
    exact hp ⟨hcb, Nat.eq_zero_of_not_pos hw, Or.inl hb⟩
  · exfalso
    rw [fire_tcb] at hw
    rw [fire_buf, not_not] at hb
    rw [fire_fin] at hd
    refine hp ⟨hcb, Nat.eq_zero_of_not_pos hw, Or.inr ⟨?_, ?_, hb⟩⟩
    · simpa [enter] using (Bool.and_eq_true_iff.mp hd).1
    · simpa [enter] using (Bool.and_eq_true_iff.mp hd).2
  · exact hfire.follows hpl hh

theorem step_unurged (hr : e.Ready) (hs : engineMachine.step e a = some e')
    (hret : ¬ Retransmits a) (hp : ¬ e.Probes a) (hu : ¬ Urges e' a) :
    ∃ b evs, Follows b evs (e.begin a) e' := by
  have hh := step_hung hs
  have hpath := hr.path hs
  cases a with
  | send data push urgent t => exact send_unurged hs hu
  | expire h =>
    by_cases hcb : h.cb = .onPersist
    · exact persist_follows hcb hs hp
    · refine ⟨_, hpath.follows ⟨fun _ _ _ h => (by cases h), fun g hg => ?_⟩ hh⟩
      obtain rfl := Action.expire.inj hg
      exact ⟨hret, hcb⟩
  | _ => exact ⟨_, hpath.follows ⟨fun _ _ _ h => (by cases h), fun _ h => (by cases h)⟩ hh⟩

/-- A SEND with URGENT marks everything in the buffer, then sends what it can. -/
theorem send_urged {data : List UInt8} {push urgent : Bool} {t : Option ℚ}
    (hs : engineMachine.step e (.send data push urgent t) = some e')
    (hu : Urges e' (.send data push urgent t)) :
    ∃ k b evs, Follows b evs k e' ∧ ¬ k.Outside ∧
      k.tcb.sndUp = add k.tcb.sndNxt k.buf.appBuf.length ∧
      k.buf.appBuf = (e.begin (.send data push urgent t)).buf.appBuf ∧
      ((¬ e.Outside ∧ k.tcb.sndNxt = e.tcb.sndNxt ∧ k.buf.retx = e.buf.retx ∧
          k.env.log = e.env.log) ∨
        (e.Outside ∧ e' = k ∧ Opened e k ∧ Logs Wordless e k)) := by
  obtain ⟨hurg, hd, hexc⟩ := hu
  obtain rfl := hurg
  have hh := step_hung hs
  simp only [engineMachine] at hs
  split_ifs at hs
  obtain rfl := Option.some.inj hs
  have ha : e.AcceptsSend := by
    by_contra ha
    obtain ⟨msg, h⟩ := send_of_refused (e := e.enter) data push true t ha
    rw [perform, h] at hexc
    cases hexc
  have ha' : e.enter.AcceptsSend := ha
  simp only [begin, if_pos ha, perform, send_of_accepts _ _ _ _ ha'] at hh hexc ⊢
  have hk : ((e.enter.setUserTimeout t).bufferData data push).tcb = e.tcb ∧
      ((e.enter.setUserTimeout t).bufferData data push).buf.retx = e.buf.retx ∧
      ((e.enter.setUserTimeout t).bufferData data push).env.log = e.env.log := by
    cases t <;> exact ⟨rfl, rfl, rfl⟩
  obtain ⟨htcb, hretx, hlog⟩ := hk
  generalize (e.enter.setUserTimeout t).bufferData data push = k at htcb hretx hlog hh hexc ⊢
  have hq (f : TcpEngine) : f.sendQueued data true = if f.tcb.state = .established ∨
      f.tcb.state = .closeWait then f.setSndUp.sendPending else f.setSndUp := by
    have hb : (true && !data.isEmpty) = true := by
      cases data
      · exact absurd rfl hd
      · rfl
    unfold sendQueued
    rw [hb]
    rfl
  by_cases hst : e.tcb.state = .listen
  · have hl : k.tcb.state = .listen := by rw [htcb, hst]
    have hsyn : k.activeOpen.tcb.state = .synSent := by
      rw [activeOpen_eq (Or.inr hl), connect_eq (Or.inr hl)]
      simp [dialled]
    rw [sendBuffered, if_pos hl] at hexc ⊢
    split_ifs at hexc ⊢ with hp ho
    · cases hexc
    · rw [hexc] at ho
      cases ho
    · rw [hq, if_neg (by simp [hsyn])]
      have hop := connect_opened (Or.inr hl)
      have hword : Logs Wordless k k.connect := by
        rw [connect_eq (Or.inr hl)]
        exact Logs.trans (f := k.dialled) (.one _ rfl (wordless_stateChange _ _))
          (queueAndSend_logs _ _ _ _ (wordless_segmentFor _ _ _ rfl rfl))
      rw [activeOpen_eq (Or.inr hl)] at hsyn ⊢
      have hbuf : k.connect.buf.appBuf = k.buf.appBuf := by
        rw [connect_eq (Or.inr hl)]
        simp [dialled]
      refine ⟨k.connect.setSndUp, .close, [], .refl _ _, ?_, rfl, hbuf, Or.inr ⟨?_, rfl, ?_, ?_⟩⟩
      · show k.connect.tcb.state ∉ _
        simp [hsyn]
      · simp [Outside, hst]
      · refine ⟨hop.state, hop.nxt, hop.una, by rw [← hretx]; exact hop.retx, ?_⟩
        exact Logs.trans (.none hlog) hop.log
      · exact Logs.trans (.none hlog) hword
  · have hl : ¬ k.tcb.state = .listen := by rw [htcb]; exact hst
    have hno : ¬ e.Outside := by
      intro ho
      rcases ho.cases with hc | hc
      · simp [AcceptsSend, hc] at ha
      · exact hst hc
    have hno' : ¬ k.setSndUp.Outside := by
      show k.tcb.state ∉ _
      rw [htcb]
      exact hno
    rw [sendBuffered, if_neg hl, hq] at hh ⊢
    have hpl : Action.Plainly .close := ⟨fun _ _ _ h => (by cases h), fun _ h => (by cases h)⟩
    have hpath : Path .close k.setSndUp (if k.tcb.state = .established ∨ k.tcb.state = .closeWait
        then k.setSndUp.sendPending else k.setSndUp) := by
      split
      · exact sendPending_path _
      · exact .refl
    obtain ⟨evs, hf⟩ := Path.follows hpath hpl hh
    exact ⟨k.setSndUp, .close, evs, hf, hno', rfl, rfl,
      Or.inl ⟨hno, by show k.tcb.sndNxt = _; rw [htcb], hretx, hlog⟩⟩

theorem Conveys.frame (h : Conveys evs f g) (ht : f.tcb = e.tcb) (hb : f.buf = e.buf)
    (hl : f.env.log = e.env.log) (ht' : e'.tcb = g.tcb) (hb' : e'.buf = g.buf)
    (hl' : e'.env.log = g.env.log) : Conveys evs e e' := by
  obtain ⟨h1, h2, h3, h4⟩ := h
  refine ⟨by rw [hl', h1, hl], by rw [ht', h2, ht], ?_, ?_⟩
  · rw [ht', hb', Outside, ← ht, ← hb]
    exact h3
  · rw [hb', Outside, Outside, ht', ← ht, ← hb]
    exact h4

theorem sendProbe_conveys (hb : e.buf.appBuf ≠ []) :
    ∃ seg, seg.flags.urg = false ∧ Conveys [.tx seg] e e.sendProbe := by
  obtain hq | ⟨hm, -⟩ := (e.takeChunk 1).queueAndSend_cases { ack := true }
    (e.buf.appBuf.take 1) false 0
  swap
  · cases hm
  generalize hseg : (e.takeChunk 1).segmentFor (e.takeChunk 1).tcb.sndNxt { ack := true }
    (e.buf.appBuf.take 1) false 0 = seg at hq
  have hpay : seg.payload = e.buf.appBuf.take 1 := by rw [← hseg]; rfl
  have hurg : seg.flags.urg = false := by rw [← hseg]; rfl
  have hlen := List.length_pos_iff.mpr hb
  have hl : (e.buf.appBuf.take 1).length = 1 := by rw [List.length_take]; omega
  have hw : seg.Weighs := by
    refine Or.inl fun hx => ?_
    rw [← hpay, hx] at hl
    cases hl
  have hf : freshBits [.tx seg] = [seg.flags.urg] := by
    simp [freshBits, segments, weighing, hw]
  have hp : e.sendProbe = (e.takeChunk 1).queueAndSend { ack := true } (e.buf.appBuf.take 1) := rfl
  refine ⟨seg, hurg, ?_, by simp [hp], ⟨1, by simp [hp], Or.inr (Or.inr ?_)⟩, Or.inr ?_⟩
  · rw [hp, hq]
    simp
  · rw [hp, queueAndSend_tcb]
    show (((e.takeChunk 1).outgoing { ack := true } (e.buf.appBuf.take 1)).endSeq -
      e.tcb.sndNxt - (1 : Nat)) % 4294967296 = 0
    rw [Outgoing.endSeq, Outgoing.segLen, add_def]
    show ((e.tcb.sndNxt + ((e.buf.appBuf.take 1).length + false.toNat + false.toNat : Nat)) %
      4294967296 - e.tcb.sndNxt - (1 : Nat)) % 4294967296 = 0
    rw [hl]
    simp only [Bool.toNat_false]
    omega
  · rw [hf, hp, queueAndSend_buf, hurg]
    simp [urgBits, outgoing]

/-- A probe takes one octet from the buffer, or the FIN. -/
theorem probe_conveys (hc : Coherent e.ctl) {h : TimerHandle Callback}
    (hp : e.Probes (.expire h)) (hs : engineMachine.step e (.expire h) = some e') :
    ∃ evs, Conveys evs (e.begin (.expire h)) e' ∧
      ∀ seg, .tx seg ∈ evs → seg.flags.urg = false := by
  obtain ⟨hcb, hw, hwait⟩ := hp
  simp only [engineMachine] at hs
  split_ifs at hs
  obtain rfl := Option.some.inj hs
  have hf : (e.enter.popTimer h).forgetTimer .onPersist = e.enter.fire h := by rw [fire, hcb]
  rw [perform, hcb, callback, onPersist, hf]
  show ∃ evs, Conveys evs e.enter _ ∧ _
  rw [if_neg (by rw [fire_tcb]; show ¬ 0 < e.tcb.sndWnd; omega)]
  have htcb : (e.enter.fire h).tcb = e.enter.tcb := fire_tcb _
  have hbuf : (e.enter.fire h).buf = e.enter.buf := fire_buf _
  have hfin : (e.enter.fire h).fin = e.enter.fin := fire_fin _
  have hlog : (e.enter.fire h).env.log = e.enter.env.log := by rw [fire_env]
  generalize e.enter.fire h = f at htcb hbuf hfin hlog
  split_ifs with hb hd
  · obtain ⟨seg, hurg, hcon⟩ := sendProbe_conveys hb
    refine ⟨_, hcon.frame htcb hbuf hlog rfl rfl rfl, fun s hs => ?_⟩
    obtain rfl := Event.tx.inj (List.mem_singleton.mp hs)
    exact hurg
  · have hdue : f.FinDue := by simpa [FinDue, not_not.mp hb, and_assoc] using hd
    have ho : ¬ f.Outside := by
      intro ho
      have hst : e.tcb.state = .closed ∨ e.tcb.state = .listen := by
        rw [Outside, htcb] at ho
        simpa [enter] using ho
      have hidle := hc.idle (by rcases hst with h | h <;> simp [ctl, h])
      have h1 := hdue.1
      rw [hfin] at h1
      exact absurd (h1.symm.trans hidle) (by simp)
    obtain ⟨evs, hfol⟩ := sendFin_follows (a := .close) ho hdue
    refine ⟨evs, hfol.toConveys.frame htcb hbuf hlog rfl rfl rfl, fun seg hs => ?_⟩
    rcases hfol.voice seg hs with h | hv
    · exact h.1
    · obtain ⟨i, hi, -⟩ := hv.place.resolve_left ho
      rw [hdue.2.2] at hi
      cases hi
  · exact ⟨[], (Follows.refl .close f).toConveys.frame htcb hbuf hlog rfl rfl rfl, by simp⟩

/-- A retransmission is the head of the queue without its urgent pointer. -/
theorem rto_follows {h : TimerHandle Callback} (hcb : h.cb = .onRto) (hr : e.Ready)
    (hs : engineMachine.step e (.expire h) = some e') :
    (e'.Outside ∧ e'.buf = {} ∨ e'.tcb = e.tcb ∧ e'.buf.appBuf = e.buf.appBuf ∧
        urgBits e'.buf.retx = urgBits e.buf.retx) ∧
      ∀ seg ∈ transmitted e e', seg.rst = true ∧ seg.flags.urg = false ∨
        seg.urgentPtr = 0 ∧ ∃ o ∈ e.buf.retx.head?, seg.flags = o.flags := by
  have hgive {f : TcpEngine} (msg : String)
      (hf : f = e.enter.fire h ∨ f = (e.enter.fire h).countRto)
      (hg : e' = f.giveUp msg) : (e'.Outside ∧ e'.buf = {}) ∧
      ∀ seg ∈ transmitted e e', seg.rst = true ∧ seg.flags.urg = false := by
    have hb : f.Blocked := by
      have hb0 : e.enter.Blocked := hr.drained.blocked.of_view rfl
      have hb1 : (e.enter.fire h).Blocked := hb0.fire h
      rcases hf with rfl | rfl
      · exact hb1
      · exact hb1.of_view rfl
    have hl : f.env.log = e.env.log := by
      rcases hf with rfl | rfl <;> simp [enter]
    have hlogs : Logs (fun ev => ∀ seg, ev = .tx seg → seg.rst = true ∧ seg.flags.urg = false)
        f (f.giveUp msg) := by
      refine giveUp_logs msg hb (fun _ hx => by cases hx) ?_ fun _ _ hx => by cases hx
      rintro seg hx
      obtain rfl := Event.tx.inj hx
      exact ⟨rfl, rfl⟩
    obtain ⟨evs, he, hev⟩ := hlogs
    rw [hg]
    refine ⟨⟨by simp [Outside], by simp⟩, fun seg hm => ?_⟩
    rw [transmitted_eq (he.trans (by rw [hl]))] at hm
    exact hev _ (mem_segments.mp hm) seg rfl
  rcases step_rto hcb hs with ⟨hq, rfl⟩ | ⟨o, rest, hq, ⟨-, hx⟩ | ⟨-, -, hx⟩ | ⟨-, -, rfl⟩⟩
  · refine ⟨Or.inr ⟨by simp [enter], by simp [enter], by simp [enter]⟩, fun seg hm => ?_⟩
    have hl : (e.enter.fire h).env.log = e.env.log ++ [] := by simp [enter]
    rw [transmitted_eq hl] at hm
    cases hm
  · exact ⟨Or.inl (hgive _ (Or.inl rfl) hx).1, fun seg hm =>
      Or.inl ((hgive _ (Or.inl rfl) hx).2 seg hm)⟩
  · exact ⟨Or.inl (hgive _ (Or.inr rfl) hx).1, fun seg hm =>
      Or.inl ((hgive _ (Or.inr rfl) hx).2 seg hm)⟩
  · refine ⟨Or.inr ⟨by simp [enter], by simp [enter], ?_⟩, fun seg hm => Or.inr ?_⟩
    · rw [hq]
      simp [urgBits, resent]
    · have hlogs : Logs (fun ev => ∀ seg, ev = .tx seg → seg.urgentPtr = 0 ∧ seg.flags = o.flags)
          (e.enter.fire h).countRto ((e.enter.fire h).countRto.retransmitHead o rest) := by
        apply retransmitHead_logs o rest
        rintro s hx
        obtain rfl := Event.tx.inj hx
        exact ⟨rfl, rfl⟩
      obtain ⟨evs, he, hev⟩ := hlogs
      have hl : ((e.enter.fire h).countRto.retransmitHead o rest).env.log = e.env.log ++ evs := by
        rw [he]
        simp [enter]
      rw [transmitted_eq hl] at hm
      obtain ⟨h1, h2⟩ := hev _ (mem_segments.mp hm) seg rfl
      exact ⟨h1, o, by simp [hq], h2⟩

/-- The segments that open a connection are not urgent. -/
theorem opened_first (ho : Logs Light e e') (hv : ∀ seg ∈ transmitted e e',
    seg.flags.urg = false ∧ seg.payload = [] ∨ seg.payload ≠ []) :
    firstBit ((transmitted e e').find? fun seg => seg.syn) = false := by
  cases hf : (transmitted e e').find? fun seg => seg.syn with
  | none => rfl
  | some seg =>
    have hm := List.mem_of_find?_eq_some hf
    obtain ⟨evs, hl, hev⟩ := ho
    have hlight := hev _ (mem_segments.mp (transmitted_eq hl ▸ hm)) seg rfl
    rcases hv seg hm with h | h
    · exact h.1
    · exact absurd (Or.inl h) hlight

end TcpEngine

/-- What is so of the observer in every run. -/
structure Attended (s : TcpEngine × Urgency) : Prop where
  ready : s.1.Ready
  marks : TcpEngine.Marks s.2.ahead s.1
  firsts : s.2.firsts.map TcpEngine.firstBit = TcpEngine.urgBits s.1.buf.retx

namespace Attended

open TcpEngine Urgency

variable {a b : Action} {e e' k : TcpEngine} {u : Urgency} {evs : List Event}

theorem next_ahead (h : Attended (e, u)) (hc : Conveys evs (e.begin a) e') (hu : ¬ Urges e' a) :
    Marks (u.next e a e').ahead e' := by
  have := (marks_begin a h.marks).conveyed hc
  rwa [Urgency.next, marked, if_neg hu]

theorem next_firsts {new : List (Option TcpSegment)} (h : Attended (e, u)) (hn : fresh e a e' = new)
    (hs : urgBits e'.buf.retx <:+ urgBits e.buf.retx ++ new.map firstBit) :
    (u.next e a e').firsts.map firstBit = urgBits e'.buf.retx := by
  apply firstBits_drop
  rw [hn, List.map_append, h.firsts]
  exact hs

/-- What has been closed, or has never been open, is not opened by what closes. -/
theorem closes_outside (hr : e.Ready) (hx : a.Closes) (ho : e.Outside)
    (hs : engineMachine.step e a = some e') : e'.Outside :=
  hr.step_preserves (P := Outside) hs ((begin_outside a).mpr ho) fun f g hm hf => by
    by_contra hg
    exact (hm.control.begins hf hg).1 hx

theorem step_opened (hr : e.Ready) (ho : e.Outside) (hn : ¬ e'.Outside) (hp : ¬ e.Probes a)
    (hs : engineMachine.step e a = some e') : Opened e e' := by
  have hst := ho.cases
  cases step_alters hr
    (fun h => by rcases hst with hc | hc <;> rw [h] at hc <;> cases hc) hp hs with
  | quiet _ hq =>
    rcases hq.state with h | h
    · exact absurd (by rw [Outside, h]; exact ho) hn
    · exact absurd h hn
  | opened _ h => exact h
  | crossed h => rcases hst with hc | hc <;> rw [h] at hc <;> cases hc
  | lands seg g h =>
    have hacc := (accepted_some h).1
    rcases hst with hc | hc <;> simp [accepts, hc] at hacc
  | spends _ _ h => rcases hst with hc | hc <;> simp [hc] at h
  | closes _ h => rcases hst with hc | hc <;> rw [h] at hc <;> cases hc

/-- A segment without URG points nowhere. -/
theorem points_of_silent {seg : TcpSegment} (h : seg.flags.urg = false) :
    u.Points e a e' seg := by
  intro hu
  rw [h] at hu
  cases hu

theorem fresh_opening (hret : ¬ Retransmits a) (ho : e.Outside) (hn : ¬ e'.Outside) :
    fresh e a e' = [(transmitted e e').find? fun seg => seg.syn] := by
  rw [fresh, if_neg hret, if_pos ⟨ho, hn⟩]

theorem fresh_inside (hret : ¬ Retransmits a) (ho : ¬ (e.Outside ∧ ¬ e'.Outside)) :
    fresh e a e' = (weighing (transmitted e e')).map some := by
  rw [fresh, if_neg hret, if_neg ho]

theorem firsts_opened (h : Attended (e, u)) (hret : ¬ Retransmits a) (ho : e.Outside)
    (hn : ¬ e'.Outside) (hop : Opened e e') (hv : ∀ seg ∈ transmitted e e',
      seg.flags.urg = false ∧ seg.payload = [] ∨ seg.payload ≠ []) :
    (u.next e a e').firsts.map firstBit = urgBits e'.buf.retx := by
  obtain ⟨o, hq, hurg⟩ := hop.retx
  apply h.next_firsts (fresh_opening hret ho hn)
  rw [List.map_singleton, opened_first hop.log hv, hq]
  simp [urgBits, hurg]

theorem rto (h : Attended (e, u)) {g : TimerHandle Callback} (hcb : g.cb = .onRto)
    (hs : engineMachine.step e (.expire g) = some e') :
    Attended (e', u.next e (.expire g) e') ∧ ∀ seg ∈ transmitted e e',
      u.Faithful e (.expire g) e' seg ↔ u.Sound e (.expire g) e' seg := by
  have hret : Retransmits (.expire g) := hcb
  obtain ⟨hst, htx⟩ := rto_follows hcb h.ready hs
  have hfresh : fresh e (.expire g) e' = [] := by rw [fresh, if_pos hret]
  refine ⟨⟨h.ready.step hs, ?_, ?_⟩, fun seg hm => ?_⟩
  · have hb : (e.begin (.expire g)).buf = e.buf := rfl
    show Marks (if e'.Outside then 0 else u.ahead -
      ((e.begin (.expire g)).buf.appBuf.length - e'.buf.appBuf.length)) e'
    rcases hst with ⟨ho, -⟩ | ⟨ht, ha, -⟩
    · rw [if_pos ho]
      exact ⟨Nat.zero_le _, fun hx => absurd hx (by omega)⟩
    · split
      · exact ⟨Nat.zero_le _, fun hx => absurd hx (by omega)⟩
      · rw [hb, ha, Nat.sub_self, Nat.sub_zero]
        exact ⟨by rw [ha]; exact h.marks.fits, by rw [Outside, ht]; exact h.marks.up⟩
  · apply h.next_firsts hfresh
    rcases hst with ⟨-, hb⟩ | ⟨-, -, hq⟩
    · rw [hb]
      exact List.nil_suffix
    · rw [hq]
      simp
  · rw [Faithful, if_pos hret, Sound, if_pos hret]
    rcases htx seg hm with ⟨hrst, -⟩ | ⟨hptr, o, ho, hfl⟩
    · simp [Urgency.Repeats, hrst]
    · have hhead : u.firsts.head?.map firstBit = some o.flags.urg := by
        have := congrArg List.head? h.firsts
        rw [List.head?_map] at this
        rw [this, urgBits, List.head?_map, Option.mem_def.mp ho]
        rfl
      rw [Urgency.Repeats, hptr]
      constructor
      · intro hrep hrst o' ho'
        obtain rfl : o' = o := Option.some.inj (ho'.symm.trans ho)
        rw [← Bool.not_eq_true, ← hfl]
        intro hu
        exact absurd ((hrep hrst).2 hu) (by omega)
      · intro hso hrst
        have hno := hso hrst o ho
        refine ⟨fun first hfirst => ?_, fun hu => ?_⟩
        · rw [hfirst] at hhead
          have hbit : first.flags.urg = o.flags.urg := Option.some.inj hhead
          rw [TcpSegment.urgentEnd, TcpSegment.urgentEnd, hbit, hfl, hno]
          rfl
        · rw [hfl, hno] at hu
          cases hu

theorem probe (h : Attended (e, u)) (hp : e.Probes a) (hs : engineMachine.step e a = some e') :
    Attended (e', u.next e a e') ∧ ∀ seg ∈ transmitted e e',
      u.Faithful e a e' seg ↔ u.Sound e a e' seg := by
  cases a with
  | expire g =>
    have hret : ¬ Retransmits (.expire g) := by
      intro hx
      have := hp.1.symm.trans hx
      cases this
    obtain ⟨evs, hc, hurg⟩ := probe_conveys h.ready.coherent hp hs
    have hx : Action.Closes (.expire g) := True.intro
    have hno : ¬ (e.Outside ∧ ¬ e'.Outside) :=
      fun ho => ho.2 (closes_outside h.ready hx ho.1 hs)
    have htx : transmitted e e' = segments evs := transmitted_eq hc.log
    refine ⟨⟨h.ready.step hs, h.next_ahead hc id, ?_⟩, fun seg hm => ?_⟩
    · apply h.next_firsts (fresh_inside hret hno)
      rw [firstBits_weighing, htx]
      exact hc.bits.resolve_left hno
    · rw [Faithful, if_neg hret, Sound, if_neg hret]
      rw [htx] at hm
      exact iff_of_true (points_of_silent (hurg seg (mem_segments.mp hm)))
        (Or.inr (Or.inr (Or.inl hp)))
  | _ => exact hp.elim

theorem urged (h : Attended (e, u)) (hu : Urges e' a) (hs : engineMachine.step e a = some e') :
    Attended (e', u.next e a e') ∧ ∀ seg ∈ transmitted e e',
      u.Faithful e a e' seg ↔ u.Sound e a e' seg := by
  cases a with
  | send data push urgent t =>
    have hret : ¬ Retransmits (.send data push urgent t) := id
    obtain ⟨k, b, evs, hf, hk, hup, hbuf, hcase⟩ := send_urged hs hu
    have hmark : u.marked e (.send data push urgent t) e' = k.buf.appBuf.length := by
      rw [marked, if_pos hu, hbuf]
    have hmarks : Marks (u.next e (.send data push urgent t) e').ahead e' := by
      have hm : Marks k.buf.appBuf.length k := by
        refine ⟨le_refl _, fun _ => ⟨hk, ?_⟩⟩
        rw [hup, add_def]
        omega
      have := hm.conveyed hf.toConveys
      rw [Urgency.next, hmark, ← hbuf]
      exact this
    have hsound (seg : TcpSegment) : u.Sound e (.send data push urgent t) e' seg := by
      rw [Sound, if_neg hret]
      exact Or.inl hu
    rcases hcase with ⟨ho, hnxt, hretx, hlog⟩ | ⟨ho, rfl, hop, hword⟩
    · have htx : transmitted e e' = segments evs :=
        transmitted_eq (by rw [hf.log, hlog])
      refine ⟨⟨h.ready.step hs, hmarks, ?_⟩, fun seg hm => ?_⟩
      · apply h.next_firsts (fresh_inside hret fun hx => ho hx.1)
        rw [firstBits_weighing, htx, ← hretx]
        exact hf.bits.resolve_left fun hx => hk hx.1
      · refine iff_of_true ?_ (hsound seg)
        rw [htx] at hm
        rw [Faithful, if_neg hret]
        rcases hf.voice seg (mem_segments.mp hm) with hv | hv
        · exact points_of_silent hv.1
        · intro hurg
          rw [hmark, ← hnxt]
          exact hv.points hk hup hurg
    · obtain ⟨evs', hl, hev⟩ := hword
      have htx : transmitted e e' = segments evs' := transmitted_eq hl
      have hsil : ∀ seg ∈ transmitted e e', seg.flags.urg = false ∧ seg.payload = [] := by
        intro seg hm
        rw [htx] at hm
        exact (hev _ (mem_segments.mp hm)).silent rfl
      refine ⟨⟨h.ready.step hs, hmarks, ?_⟩, fun seg hm => iff_of_true ?_ (hsound seg)⟩
      · exact h.firsts_opened hret ho hk hop fun seg hm => Or.inl (hsil seg hm)
      · rw [Faithful, if_neg hret]
        exact points_of_silent (hsil seg hm).1
  | _ => exact hu.elim

theorem unurged (h : Attended (e, u)) (hret : ¬ Retransmits a) (hp : ¬ e.Probes a)
    (hu : ¬ Urges e' a) (hs : engineMachine.step e a = some e') :
    Attended (e', u.next e a e') ∧ ∀ seg ∈ transmitted e e',
      u.Faithful e a e' seg ↔ u.Sound e a e' seg := by
  obtain ⟨b, evs, hf⟩ := step_unurged h.ready hs hret hp hu
  have htx : transmitted e e' = segments evs :=
    transmitted_eq (by rw [hf.log, begin_log])
  have hvoice : ∀ seg ∈ transmitted e e', seg.flags.urg = false ∧ seg.payload = [] ∨
      Voiced (e.begin a) seg := by
    intro seg hm
    rw [htx] at hm
    exact hf.voice seg (mem_segments.mp hm)
  refine ⟨⟨h.ready.step hs, h.next_ahead hf.toConveys hu, ?_⟩, fun seg hm => ?_⟩
  · by_cases ho : e.Outside ∧ ¬ e'.Outside
    · exact h.firsts_opened hret ho.1 ho.2 (step_opened h.ready ho.1 ho.2 hp hs)
        fun seg hm => (hvoice seg hm).imp_right Voiced.text
    · apply h.next_firsts (fresh_inside hret ho)
      rw [firstBits_weighing, htx, ← begin_retx (e := e) a]
      exact hf.bits.resolve_left fun hx => ho ⟨(begin_outside a).mp hx.1, hx.2⟩
  · rw [Faithful, if_neg hret, Sound, if_neg hret]
    rcases hvoice seg hm with hv | hv
    · exact iff_of_true (points_of_silent hv.1) (Or.inr (Or.inl hv.2))
    · have hiff := hv.points_iff (marks_begin a h.marks)
      rw [begin_tcb] at hiff
      rw [Points, marked, if_neg hu, hiff]
      have ht := hv.text
      tauto

end Attended

theorem attended_init (args : EngineArgs) (sched : ManualScheduler Callback) (rand : Nat) :
    Attended (TcpEngine.init args sched rand, {}) :=
  ⟨TcpEngine.ready_init args sched rand, ⟨Nat.zero_le _, fun h => absurd h (by simp)⟩, rfl⟩

/-- In every run a segment signals the urgent data where it is exactly if it is sound: text
while urgent data is waiting, or with SND.UP not ahead of it, and no urgent retransmission. -/
theorem urgent_faithful_iff (args : EngineArgs) (sched : ManualScheduler Callback) (rand : Nat)
    (as : List Action) :
    urgentMachine.AllSteps Signals (TcpEngine.init args sched rand, {}) as := by
  refine Lib.Machine.AllSteps.of_invariant (C := fun _ _ => True) (I := Attended) ?_
    (attended_init args sched rand) ?_
  · rintro ⟨e, u⟩ a h -
    have hstep : ∀ e', engineMachine.step e a = some e' → Attended (e', u.next e a e') ∧
        ∀ seg ∈ TcpEngine.transmitted e e', u.Faithful e a e' seg ↔ u.Sound e a e' seg := by
      intro e' hs
      by_cases hret : TcpEngine.Retransmits a
      · cases a with
        | expire g => exact h.rto hret hs
        | _ => exact hret.elim
      by_cases hp : e.Probes a
      · exact h.probe hp hs
      by_cases hu : TcpEngine.Urges e' a
      · exact h.urged hu hs
      · exact h.unurged hret hp hu hs
    refine ⟨fun e' hs => (hstep e' hs).2, fun s' hs => ?_⟩
    obtain ⟨e', he, rfl⟩ := Option.map_eq_some_iff.mp hs
    exact (hstep e' he).1
  · exact Lib.Machine.AllSteps.trivial _ _ _

/-- Every segment signals the urgent data where it is. -/
def Announces (s : TcpEngine × Urgency) (a : Action) : Prop :=
  ∀ e', engineMachine.step s.1 a = some e' → ∀ seg ∈ TcpEngine.transmitted s.1 e',
    s.2.Faithful s.1 a e' seg

/-- An active open, answered by a SYN-ACK, with an ISS of three thousand millions. -/
def highStart : TcpEngine :=
  TcpEngine.init { localPort := 1000, remotePort := 80, iss := some 3000000000 } {} 0

def highRun : List Action :=
  [.activeOpen,
    .segment [0, 80, 3, 232, 0, 0, 0, 0, 178, 208, 94, 1, 80, 18, 255, 255, 0, 0, 0, 0]]

/-- The same with an ISS of a hundred; then two octets are sent with URGENT and not acknowledged. -/
def urgentRun : List Action :=
  [.activeOpen,
    .segment [0, 80, 3, 232, 0, 0, 0, 0, 0, 0, 0, 101, 80, 18, 255, 255, 0, 0, 0, 0],
    .send [65, 66] false true none, .tick 1]

/-- The retransmission timer set with the urgent text. -/
def urgentTimer : Action := .expire ⟨1, 1, .onRto, false⟩

/-- The first octet of a connection is urgent though nothing urgent has been sent; and urgent
data that ends at 103 is retransmitted with a pointer to 101, its own start. -/
theorem urgent_misplaced :
    ¬ urgentMachine.AllSteps Announces (highStart, {}) (highRun ++ [.send [65] false false none]) ∧
    ¬ urgentMachine.AllSteps Announces (dialStart, {}) (urgentRun ++ [urgentTimer]) ∧
    ∃ s e' first seg, urgentMachine.run (dialStart, {}) urgentRun = some s ∧
      engineMachine.step s.1 urgentTimer = some e' ∧ s.2.firsts = [some first] ∧
      TcpEngine.transmitted s.1 e' = [seg] ∧ first.urgentEnd = some 103 ∧
      seg.urgentEnd = some 101 := by
  have hnever : ¬ urgentMachine.AllSteps Announces (highStart, {})
      (highRun ++ [.send [65] false false none]) := by
    intro hall
    have h : (urgentMachine.run (highStart, {}) highRun).map (fun s => (s.2.ahead,
        (engineMachine.step s.1 (.send [65] false false none)).map fun e' =>
          (TcpEngine.transmitted s.1 e').map fun seg => seg.flags.urg)) =
        some (0, some [true]) := by
      decide +kernel
    obtain ⟨s, hs, hv⟩ := Option.map_eq_some_iff.mp h
    obtain ⟨hahead, hstep⟩ := Prod.mk.inj hv
    obtain ⟨e', he, htx⟩ := Option.map_eq_some_iff.mp hstep
    obtain ⟨seg, hseg, hurg⟩ := List.map_eq_singleton_iff.mp htx
    have hp : s.2.Points s.1 (.send [65] false false none) e' seg :=
      (hall.suffix hs).1 e' he seg (by rw [hseg]; exact List.mem_singleton_self seg)
    have hlt := (hp hurg).1
    have hm : s.2.marked s.1 (.send [65] false false none) e' = 0 := by
      rw [Urgency.marked, if_neg (fun hu => by cases hu.1), hahead]
    have h0 : 0 ≤ sub seg.seq s.1.tcb.sndNxt := Int.emod_nonneg _ (by decide)
    omega
  have h : (urgentMachine.run (dialStart, {}) urgentRun).map (fun s =>
      (s.2.firsts.map (Option.map TcpSegment.urgentEnd),
        (engineMachine.step s.1 urgentTimer).map fun e' =>
          (TcpEngine.transmitted s.1 e').map fun seg => (seg.rst, seg.urgentEnd))) =
      some ([some (some 103)], some [(false, some 101)]) := by
    decide +kernel
  obtain ⟨s, hs, hv⟩ := Option.map_eq_some_iff.mp h
  obtain ⟨hfirsts, hstep⟩ := Prod.mk.inj hv
  obtain ⟨o, ho, hend⟩ := List.map_eq_singleton_iff.mp hfirsts
  obtain ⟨first, rfl, hfirst⟩ := Option.map_eq_some_iff.mp hend
  obtain ⟨e', he, htx⟩ := Option.map_eq_some_iff.mp hstep
  obtain ⟨seg, hseg, hx⟩ := List.map_eq_singleton_iff.mp htx
  obtain ⟨hrst, hagain⟩ := Prod.mk.inj hx
  refine ⟨hnever, fun hall => ?_, s, e', first, seg, hs, he, ho, hseg, hfirst, hagain⟩
  have hp : s.2.Repeats seg :=
    (hall.suffix hs).1 e' he seg (by rw [hseg]; exact List.mem_singleton_self seg)
  have hsame := (hp hrst).1 first (by rw [ho]; rfl)
  rw [hfirst, hagain] at hsame
  cases hsame

end HdlPlayground.Tcp
