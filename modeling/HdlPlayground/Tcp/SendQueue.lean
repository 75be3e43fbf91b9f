import HdlPlayground.Lib.Stream
import HdlPlayground.Tcp.Effects

/-!
# What a segment occupies in sequence space

A segment stands for a list of units: its SYN, its octets, its FIN, one sequence
number each. `sent` is the stream of a connection in these units. The entries of
the retransmission queue tile an interval of it, and trimming the queue to an
acknowledgement drops the units below it and nothing else.
-/
namespace HdlPlayground.Tcp

open Lib

inductive Sym where
  | syn
  | data (b : UInt8)
  | fin
deriving DecidableEq

/-- The units a flag byte and a payload occupy. -/
def symsOf (flags : Flags) (payload : List UInt8) : List Sym :=
  (if flags.syn then [.syn] else []) ++ payload.map .data ++ (if flags.fin then [.fin] else [])

def Outgoing.syms (o : Outgoing) : List Sym := symsOf o.flags o.payload

def TcpSegment.syms (s : TcpSegment) : List Sym := symsOf s.flags s.payload

theorem length_symsOf (flags : Flags) (payload : List UInt8) :
    (symsOf flags payload).length = payload.length + flags.syn.toNat + flags.fin.toNat := by
  unfold symsOf
  cases flags.syn <;> cases flags.fin <;> simp [Nat.add_comm]

@[simp] theorem Outgoing.length_syms (o : Outgoing) : o.syms.length = o.segLen :=
  length_symsOf o.flags o.payload

@[simp] theorem TcpSegment.length_syms (s : TcpSegment) : s.syms.length = s.segLen :=
  length_symsOf s.flags s.payload

/-- The stream of a connection: the SYN, the octets written, and the FIN once it is out. -/
def sent (w : List UInt8) (fin : Bool) : List Sym :=
  .syn :: (w.map .data ++ if fin then [.fin] else [])

@[simp] theorem length_sent (w : List UInt8) (fin : Bool) :
    (sent w fin).length = w.length + 1 + fin.toNat := by
  cases fin <;> simp [sent]

theorem sent_true (w : List UInt8) : sent w true = sent w false ++ [.fin] := by
  simp [sent]

theorem sent_append (w data : List UInt8) :
    sent (w ++ data) false = sent w false ++ data.map .data := by
  simp [sent]

theorem sent_prefix (w : List UInt8) (fin : Bool) : sent w fin <+: sent w true := by
  cases fin with
  | false =>
    rw [sent_true]
    exact List.prefix_append _ _
  | true => exact List.prefix_rfl

/-- The octets stand one place after the SYN. -/
theorem sent_getElem? (w : List UInt8) (fin : Bool) {i : Nat} (hi : i < w.length) :
    (sent w fin)[i + 1]? = w[i]?.map .data := by
  rw [sent, List.getElem?_cons_succ, List.getElem?_append_left (by simpa using hi),
    List.getElem?_map]

/-! ## Tiles of an interval -/

/-- The entries follow one another from offset `k` on. None is empty, and none is so
long that its two ends compare the wrong way round. -/
def Tiles (x : Int) : Nat → List Outgoing → Prop
  | _, [] => True
  | k, o :: q => o.seq = seqAt x k ∧ 0 < o.segLen ∧ o.segLen < 2147483648 ∧ Tiles x (k + o.segLen) q

/-- The units on the queue. -/
def unacked (q : List Outgoing) : List Sym := q.flatMap Outgoing.syms

@[simp] theorem unacked_nil : unacked [] = [] := rfl

@[simp] theorem unacked_cons (o : Outgoing) (q : List Outgoing) :
    unacked (o :: q) = o.syms ++ unacked q := rfl

theorem unacked_append (p q : List Outgoing) : unacked (p ++ q) = unacked p ++ unacked q := by
  simp [unacked]

variable {x : Int} {k r : Nat} {o o' : Outgoing} {q : List Outgoing}

theorem Tiles.append_singleton (h : Tiles x k q)
    (ho : o.seq = seqAt x (k + (unacked q).length)) (hpos : 0 < o.segLen)
    (hlt : o.segLen < 2147483648) : Tiles x k (q ++ [o]) := by
  induction q generalizing k with
  | nil => exact ⟨by simpa using ho, hpos, hlt, trivial⟩
  | cons p q ih =>
    obtain ⟨hs, hp, hl, ht⟩ := h
    refine ⟨hs, hp, hl, ih ht ?_⟩
    rw [ho, unacked_cons, List.length_append, Outgoing.length_syms, Nat.add_assoc]

/-- A queue that holds no unit is empty. -/
theorem Tiles.eq_nil (h : Tiles x k q) (hu : (unacked q).length = 0) : q = [] := by
  cases q with
  | nil => rfl
  | cons o q =>
    obtain ⟨-, hp, -⟩ := h
    simp at hu
    omega

/-- The head may be replaced by an entry in the same place. -/
theorem Tiles.head (h : Tiles x k (o :: q)) (hs : o'.seq = o.seq) (hl : o'.segLen = o.segLen) :
    Tiles x k (o' :: q) := by
  obtain ⟨h1, h2, h3, h4⟩ := h
  exact ⟨hs.trans h1, hl ▸ h2, hl ▸ h3, hl ▸ h4⟩

theorem Tiles.ackHeadSyn (h : Tiles x k q) : Tiles x k (TcpEngine.ackHeadSyn q) := by
  unfold TcpEngine.ackHeadSyn
  split
  · exact h
  · split
    · exact h.head rfl rfl
    · exact h

@[simp] theorem unacked_ackHeadSyn (q : List Outgoing) :
    unacked (TcpEngine.ackHeadSyn q) = unacked q := by
  unfold TcpEngine.ackHeadSyn
  split
  · rfl
  · split <;> rfl

/-! ## Trimming -/

/-- The part of an entry that an acknowledgement inside it leaves. -/
theorem Outgoing.cut_spec (ho : o.seq = seqAt x k) (hk : k < r) (hr : r < k + o.segLen)
    (hl : o.segLen < 2147483648) :
    (o.cut (seqAt x r)).seq = seqAt x r ∧ (o.cut (seqAt x r)).syms = o.syms.drop (r - k) := by
  obtain ⟨seq, flags, payload, sentTime, retransmitted⟩ := o
  obtain ⟨fin, syn, rst, psh, ack, urg, ece, cwr⟩ := flags
  simp only [segLen] at hr hl ho
  subst ho
  have htrim : sub (seqAt x r) (seqAt x k) = ((r - k : Nat) : Int) :=
    sub_seqAt (by omega) (by omega)
  have hone : (1 : Int) ≤ ((r - k : Nat) : Int) := by omega
  cases syn with
  | false =>
    simp only [Bool.toNat_false, Nat.add_zero] at hr
    have hp : r - k ≤ payload.length := by have := Bool.toNat_le fin; omega
    have hpos : (0 : Int) < ((r - k : Nat) : Int) := by omega
    simp only [cut, htrim, Bool.false_and, Bool.false_eq_true, if_false, hpos, if_true,
      Int.toNat_natCast, true_and]
    cases fin <;>
      simp [Outgoing.syms, symsOf, List.drop_append_of_le_length, hp, ← List.map_drop]
  | true =>
    simp only [Bool.toNat_true] at hr
    have hnext : add (seqAt x k) 1 = seqAt x (k + 1) := add_seqAt x k 1
    simp only [cut, htrim, hnext, Bool.true_and, hone, decide_true, if_true]
    have hp : r - k - 1 ≤ payload.length := by have := Bool.toNat_le fin; omega
    have hsyms : (symsOf ⟨fin, true, rst, psh, ack, urg, ece, cwr⟩ payload).drop (r - k) =
        symsOf ⟨fin, false, rst, psh, ack, urg, ece, cwr⟩ (payload.drop (r - k - 1)) := by
      obtain ⟨j, hj⟩ : ∃ j, r - k = j + 1 := ⟨r - k - 1, by omega⟩
      rw [hj] at hp ⊢
      cases fin <;>
        simp [symsOf, List.drop_append_of_le_length, show j ≤ payload.length by omega]
    by_cases h0 : 0 < ((r - k : Nat) : Int) - 1
    · have htoNat : (((r - k : Nat) : Int) - 1).toNat = r - k - 1 := by omega
      rw [if_pos h0, htoNat]
      exact ⟨rfl, hsyms.symm⟩
    · have hrk : r = k + 1 := by omega
      rw [if_neg h0]
      refine ⟨by rw [hrk], ?_⟩
      have hz : r - k - 1 = 0 := by omega
      have := hsyms.symm
      rwa [hz, List.drop_zero] at this

theorem Outgoing.cut_segLen (h : (o.cut (seqAt x r)).syms = o.syms.drop (r - k)) :
    (o.cut (seqAt x r)).segLen = o.segLen - (r - k) := by
  rw [← length_syms, h, List.length_drop, length_syms]

/-- Trimming to an acknowledgement of `r` units keeps what stands from `r` on. -/
theorem trimRetx_spec (h : Tiles x k q) (hk : k ≤ r) (hlt : r ≤ k + 2147483648)
    (hr : r ≤ k + (unacked q).length) :
    Tiles x r (trimRetx (seqAt x r) q) ∧
      unacked (trimRetx (seqAt x r) q) = (unacked q).drop (r - k) := by
  induction q generalizing k with
  | nil => exact ⟨trivial, by simp [trimRetx]⟩
  | cons o q ih =>
    obtain ⟨ho, hpos, hl, ht⟩ := h
    have hend : o.endSeq = seqAt x (k + o.segLen) := by
      rw [Outgoing.endSeq, ho]
      exact add_seqAt x k o.segLen
    rw [unacked_cons, List.length_append, Outgoing.length_syms] at hr
    rw [trimRetx, hend]
    by_cases hge : k + o.segLen ≤ r
    · rw [if_pos (by rw [seqLeq_seqAt (by omega) (by omega)]; simpa using hge)]
      obtain ⟨h1, h2⟩ := ih ht hge (by omega) (by omega)
      refine ⟨h1, ?_⟩
      have hnil : o.syms.drop (r - k) = [] :=
        List.drop_eq_nil_of_le (by rw [Outgoing.length_syms]; omega)
      have hsub : r - (k + o.segLen) = r - k - o.segLen := by omega
      rw [h2, unacked_cons, List.drop_append, hnil, Outgoing.length_syms, List.nil_append, hsub]
    · rw [if_neg (by rw [seqLeq_seqAt (by omega) (by omega)]; simpa using hge), ho]
      by_cases hlt' : k < r
      · rw [if_pos (by rw [seqLt_seqAt (by omega) (by omega)]; simpa using hlt')]
        obtain ⟨hseq, hsyms⟩ := Outgoing.cut_spec ho hlt' (by omega) hl
        have hlen := Outgoing.cut_segLen hsyms
        refine ⟨⟨hseq, by omega, by omega, ?_⟩, ?_⟩
        · have hnext : r + (o.cut (seqAt x r)).segLen = k + o.segLen := by omega
          rw [hnext]
          exact ht
        · rw [unacked_cons, unacked_cons, hsyms,
            List.drop_append_of_le_length (by rw [Outgoing.length_syms]; omega)]
      · obtain rfl : k = r := by omega
        rw [if_neg (by rw [seqLt_seqAt (by omega) (by omega)]; simp)]
        exact ⟨⟨ho, hpos, hl, ht⟩, by simp⟩

end HdlPlayground.Tcp
