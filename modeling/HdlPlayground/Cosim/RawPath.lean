import Mathlib.Data.List.Induction
import HdlPlayground.Cosim.Item

/-!
# The raw path

`pyhdl_raw_seq_helper` of `pyhdl_raw.sv`: the images that Python hands over are decoded in
`start_item`, and `finish_item` completes the pair. A report does not stop the run, so what
keeps the pairing right is the state alone; a null handle that is dereferenced does stop it.
The object registry and the factory belong to other packages: `Uvm` is what they answer while
a call runs.
-/
namespace HdlPlayground.Cosim

inductive RawItemStateE where
  | idle
  | started
  | failed
deriving DecidableEq, Repr

/-- `m_state.name()`. -/
def RawItemStateE.name : RawItemStateE → String
  | .idle => "RAW_IDLE"
  | .started => "RAW_STARTED"
  | .failed => "RAW_FAILED"

/-- An object of the registry; only a `bytes_item` has a queue of raw bytes. -/
structure UvmObject where
  typeName : String
  raw : Option (List UInt8) := none

/-- An object that the factory has built. One that extends `seq_item_serializable` has a
`from_bytes`, which fills its fields or refuses. -/
structure Built (ι : Type) where
  typeName : String
  fromBytes : Option (List UInt8 → Option ι)
  isSequenceItem : Bool := true

/-- The registry and the factory. -/
structure Uvm (π ι : Type) where
  getObject : π → Option UvmObject
  createObjectByName : String → Option (Built ι)
  streambits : Nat := 4096

/-- `RAW_MAX_IMAGE_BYTES`. -/
def Uvm.rawMaxImageBytes {π ι : Type} (u : Uvm π ι) : Nat := (u.streambits - 32) / 8

/-- An item to be driven: the start that built it, counted from 0, and its fields. -/
structure RawItem (ι : Type) where
  builtBy : Nat
  fields : ι
deriving DecidableEq

/-- What the helper does outside itself: a `uvm_error`, or a call on the proxied sequence. -/
inductive RawEvent (ι : Type) where
  | error (id msg : String)
  | startItem (it : RawItem ι)
  | finishItem (it : RawItem ι)
deriving DecidableEq

structure RawHelper (ι : Type) where
  name : String
  itemType : String
  decoded : Option (RawItem ι) := none
  state : RawItemStateE := .idle
  starts : Nat := 0

/-- A call that Python makes, with the registry and the factory as they then are. -/
inductive RawCall (π ι : Type) where
  | start (u : Uvm π ι) (item : π)
  | finish (item : π)

/-- `%02h`. -/
def hexByte (b : UInt8) : String :=
  String.ofList [Nat.digitChar (b.toNat / 16), Nat.digitChar (b.toNat % 16)]

/-- Short hex preview of an image. -/
def mPreview (b : List UInt8) : String :=
  let s := String.join ((b.take 16).map hexByte)
  if 16 < b.length then s ++ "... (" ++ toString b.length ++ " B total)" else s

namespace RawHelper

variable {π ι : Type}

/-- Why an image is not decoded, or the fields of the item. -/
def decodeImage (h : RawHelper ι) (u : Uvm π ι) (raw : List UInt8) : Except String ι :=
  match u.createObjectByName h.itemType with
  | none =>
    .error ("raw path: UVM factory has no type registered as '" ++ h.itemType ++
      "'. Check the item's `uvm_object_utils registration and that its package is " ++
      "imported/compiled into this binary.")
  | some built =>
    match built.fromBytes with
    | none =>
      .error ("raw path: factory built '" ++ built.typeName ++ "' for requested type '" ++
        h.itemType ++ "', which is not a seq_item_serializable. Either the item does not " ++
        "extend it, or a factory override redirected the type.")
    | some fromBytes =>
      if !built.isSequenceItem then
        .error ("raw path: '" ++ built.typeName ++
          "' is not a uvm_sequence_item and cannot be driven")
      else
        match fromBytes raw with
        | none =>
          .error ("raw path: '" ++ h.itemType ++ "'.from_bytes() rejected a " ++
            toString raw.length ++ " B image: " ++ mPreview raw)
        | some fields => .ok fields

/-- `m_decode`, which reports why it fails. `$cast` of a null handle succeeds, and `raw.raw.size()`
then dereferences it: that is no result, and the end of the run. -/
def mDecode (h : RawHelper ι) (u : Uvm π ι) (item : π) : Option (Except String ι) :=
  match u.getObject item with
  | none => none
  | some itemO =>
    match itemO.raw with
    | none =>
      some (.error ("raw path: Python returned a '" ++ itemO.typeName ++
        "', expected a bytes_item"))
    | some raw =>
      if u.rawMaxImageBytes < raw.length then
        some (.error ("raw path: image of " ++ toString raw.length ++
          " B exceeds RAW_MAX_IMAGE_BYTES=" ++ toString u.rawMaxImageBytes ++
          " (UVM_STREAMBITS=" ++ toString u.streambits ++
          "). Raise `UVM_MAX_STREAMBITS or chunk the transaction; this path does not fragment."))
      else some (h.decodeImage u raw)

def startWhileOpen (s : RawItemStateE) : String :=
  "raw path: start_item() while " ++ s.name ++
    ". Transactions through one proxy must be serialized; check that every SV-blocking call " ++
    "holds sv_lock()."

def finishUnmatched : String := "raw path: finish_item() without a matching start_item()"

/-- The helper afterwards, unless the run has ended, with what has been done. -/
def startItem (h : RawHelper ι) (u : Uvm π ι) (item : π) :
    Option (RawHelper ι) × List (RawEvent ι) :=
  let pairing : List (RawEvent ι) :=
    if h.state ≠ .idle then [.error h.name (startWhileOpen h.state)] else []
  match h.mDecode u item with
  | none => (none, pairing)
  | some (.error msg) =>
    -- the failure is remembered, so that `finish_item` drives nothing
    (some { h with decoded := none, state := .failed, starts := h.starts + 1 },
      pairing ++ [.error h.name msg])
  | some (.ok fields) =>
    let it : RawItem ι := ⟨h.starts, fields⟩
    (some { h with decoded := some it, state := .started, starts := h.starts + 1 },
      pairing ++ [.startItem it])

def finishItem (h : RawHelper ι) (_item : π) : RawHelper ι × List (RawEvent ι) :=
  let events : List (RawEvent ι) :=
    match h.state with
    | .started => h.decoded.toList.map .finishItem
    | .failed => []
    | .idle => [.error h.name finishUnmatched]
  ({ h with decoded := none, state := .idle }, events)

def call (h : RawHelper ι) : RawCall π ι → Option (RawHelper ι) × List (RawEvent ι)
  | .start u item => h.startItem u item
  | .finish item => (some (h.finishItem item).1, (h.finishItem item).2)

/-- The helper after some calls, with what they have done. Once the run has ended there are no
more. -/
def calls (h : RawHelper ι) : List (RawCall π ι) → Option (RawHelper ι) × List (RawEvent ι)
  | [] => (some h, [])
  | c :: cs =>
    match h.call c with
    | (none, events) => (none, events)
    | (some h', events) => ((h'.calls cs).1, events ++ (h'.calls cs).2)

variable {h g g' : RawHelper ι} {u : Uvm π ι} {x : π} {cs ds : List (RawCall π ι)}
  {c : RawCall π ι}

theorem calls_cons_of_some (hc : (h.call c).1 = some g) :
    h.calls (c :: cs) = ((g.calls cs).1, (h.call c).2 ++ (g.calls cs).2) := by
  rw [calls]
  split
  · next heq =>
    rw [heq] at hc
    cases hc
  · next heq =>
    rw [heq] at hc ⊢
    obtain rfl := Option.some.inj hc
    rfl

theorem calls_cons_of_none (hc : (h.call c).1 = none) : h.calls (c :: cs) = h.call c := by
  rw [calls]
  split
  · next heq => exact heq.symm
  · next heq =>
    rw [heq] at hc
    cases hc

theorem calls_singleton (c : RawCall π ι) : h.calls [c] = h.call c := by
  cases hc : (h.call c).1 with
  | none => exact calls_cons_of_none hc
  | some g =>
    rw [calls_cons_of_some hc, calls, List.append_nil, ← hc]

/-- What is called after some calls goes on from where they left. -/
theorem calls_append (hg : (h.calls cs).1 = some g) :
    h.calls (cs ++ ds) = ((g.calls ds).1, (h.calls cs).2 ++ (g.calls ds).2) := by
  induction cs generalizing h with
  | nil =>
    obtain rfl := Option.some.inj hg
    rfl
  | cons c cs ih =>
    cases hc : (h.call c).1 with
    | none =>
      rw [calls_cons_of_none hc, hc] at hg
      cases hg
    | some k =>
      rw [calls_cons_of_some hc] at hg
      rw [List.cons_append, calls_cons_of_some hc, calls_cons_of_some hc, ih hg, List.append_assoc]

/-- The calls before the last have gone through. -/
theorem calls_before (hg : (h.calls (cs ++ ds)).1 = some g) : ∃ k, (h.calls cs).1 = some k := by
  induction cs generalizing h with
  | nil => exact ⟨h, rfl⟩
  | cons c cs ih =>
    cases hc : (h.call c).1 with
    | none =>
      rw [List.cons_append, calls_cons_of_none hc, hc] at hg
      cases hg
    | some k =>
      rw [List.cons_append, calls_cons_of_some hc] at hg
      rw [calls_cons_of_some hc]
      exact ih hg

theorem calls_concat (hg : (h.calls (cs ++ [c])).1 = some g) :
    ∃ k, (h.calls cs).1 = some k ∧ (k.call c).1 = some g := by
  obtain ⟨k, hk⟩ := calls_before hg
  rw [calls_append hk, calls_singleton] at hg
  exact ⟨k, hk, hg⟩

/-- A decoded image: the item is kept, and the proxy arbitrates for it. -/
theorem startItem_ok {fields : ι} (hd : h.mDecode u x = some (.ok fields)) :
    h.startItem u x =
      (some { h with
          decoded := some ⟨h.starts, fields⟩, state := .started, starts := h.starts + 1 },
        (if h.state ≠ .idle then [.error h.name (startWhileOpen h.state)] else []) ++
          [.startItem ⟨h.starts, fields⟩]) := by
  rw [startItem, hd]

theorem startItem_error {msg : String} (hd : h.mDecode u x = some (.error msg)) :
    h.startItem u x =
      (some { h with decoded := none, state := .failed, starts := h.starts + 1 },
        (if h.state ≠ .idle then [.error h.name (startWhileOpen h.state)] else []) ++
          [.error h.name msg]) := by
  rw [startItem, hd]

theorem startItem_null (hd : h.mDecode u x = none) :
    h.startItem u x =
      (none, if h.state ≠ .idle then [.error h.name (startWhileOpen h.state)] else []) := by
  rw [startItem, hd]

/-- Decoding has no result exactly when the registry does not know the object. -/
theorem mDecode_eq_none : h.mDecode u x = none ↔ u.getObject x = none := by
  rw [mDecode]
  split
  · next heq => simp [heq]
  · next heq =>
    rw [heq]
    split
    · simp
    · split_ifs <;> simp

/-- A start ends the run exactly when the registry does not know the object. -/
theorem start_ends_run : (h.startItem u x).1 = none ↔ u.getObject x = none := by
  rw [← mDecode_eq_none (h := h)]
  cases hd : h.mDecode u x with
  | none => simp [startItem_null hd]
  | some r =>
    cases r with
    | error msg => simp [startItem_error hd]
    | ok fields => simp [startItem_ok hd]

/-- The run goes on as long as the registry knows what is started. -/
theorem calls_go_on : (h.calls cs).1.isSome ↔ ∀ u x, .start u x ∈ cs → u.getObject x ≠ none := by
  induction cs generalizing h with
  | nil => simp [calls]
  | cons c cs ih =>
    cases c with
    | finish y =>
      rw [calls_cons_of_some (c := .finish y) rfl, ih]
      simp
    | start u x =>
      cases hc : (h.call (.start u x)).1 with
      | none =>
        rw [calls_cons_of_none hc, hc]
        have hnull := start_ends_run.mp hc
        constructor
        · intro hf
          cases hf
        · exact fun hk => absurd hnull (hk u x List.mem_cons_self)
      | some g =>
        have hknown : u.getObject x ≠ none := fun hn => by
          rw [call, start_ends_run.mpr hn] at hc
          cases hc
        rw [calls_cons_of_some hc, ih]
        constructor
        · intro hk v y hm
          rcases List.mem_cons.mp hm with heq | hm
          · obtain ⟨rfl, rfl⟩ := RawCall.start.inj heq
            exact hknown
          · exact hk v y hm
        · exact fun hk v y hm => hk v y (List.mem_cons_of_mem _ hm)

theorem call_names (hc : (h.call c).1 = some g) : g.name = h.name ∧ g.itemType = h.itemType := by
  cases c with
  | finish y =>
    obtain rfl := Option.some.inj hc
    exact ⟨rfl, rfl⟩
  | start u x =>
    rw [call] at hc
    cases hd : h.mDecode u x with
    | none =>
      rw [startItem_null hd] at hc
      cases hc
    | some r =>
      cases r with
      | error msg =>
        rw [startItem_error hd] at hc
        obtain rfl := Option.some.inj hc
        exact ⟨rfl, rfl⟩
      | ok fields =>
        rw [startItem_ok hd] at hc
        obtain rfl := Option.some.inj hc
        exact ⟨rfl, rfl⟩

theorem calls_names (hg : (h.calls cs).1 = some g) :
    g.name = h.name ∧ g.itemType = h.itemType := by
  induction cs using List.reverseRecOn generalizing g with
  | nil =>
    obtain rfl := Option.some.inj hg
    exact ⟨rfl, rfl⟩
  | append_singleton cs c ih =>
    obtain ⟨k, hk, hc⟩ := calls_concat hg
    exact ⟨(call_names hc).1.trans (ih hk).1, (call_names hc).2.trans (ih hk).2⟩

/-- No transaction is open. -/
def Closed (cs : List (RawCall π ι)) : Prop := cs = [] ∨ ∃ cs' y, cs = cs' ++ [.finish y]

theorem closed_or_open (cs : List (RawCall π ι)) :
    Closed cs ∨ ∃ cs' u x, cs = cs' ++ [.start u x] := by
  induction cs using List.reverseRecOn with
  | nil => exact Or.inl (Or.inl rfl)
  | append_singleton cs c _ =>
    cases c with
    | start u x => exact Or.inr ⟨cs, u, x, rfl⟩
    | finish y => exact Or.inl (Or.inr ⟨cs, y, rfl⟩)

/-- What the helper remembers of the calls so far: the last one, if it was a start. -/
theorem state_closed (hs : h.state = .idle) (hc : Closed cs) (hg : (h.calls cs).1 = some g) :
    g.state = .idle := by
  rcases hc with rfl | ⟨cs', y, rfl⟩
  · obtain rfl := Option.some.inj hg
    exact hs
  · obtain ⟨k, -, hk⟩ := calls_concat hg
    obtain rfl := Option.some.inj hk
    rfl

theorem state_open (hg : (h.startItem u x).1 = some g) : g.state ≠ .idle := by
  cases hd : h.mDecode u x with
  | none =>
    rw [startItem_null hd] at hg
    cases hg
  | some r =>
    cases r with
    | error msg =>
      rw [startItem_error hd] at hg
      obtain rfl := Option.some.inj hg
      exact RawItemStateE.noConfusion
    | ok fields =>
      rw [startItem_ok hd] at hg
      obtain rfl := Option.some.inj hg
      exact RawItemStateE.noConfusion

/-- A start drives nothing by itself. -/
theorem start_drives_nothing (it : RawItem ι) : .finishItem it ∉ (h.startItem u x).2 := by
  intro hm
  cases hd : h.mDecode u x with
  | none =>
    rw [startItem_null hd] at hm
    split_ifs at hm <;> simp at hm
  | some r =>
    cases r with
    | error msg =>
      rw [startItem_error hd] at hm
      split_ifs at hm <;> simp at hm
    | ok fields =>
      rw [startItem_ok hd] at hm
      split_ifs at hm <;> simp at hm

/-- A finish right after a start: the item of that start, or nothing. -/
theorem finish_after_start (hg : (h.startItem u x).1 = some g) (y : π) :
    (∃ fields, h.mDecode u x = some (.ok fields) ∧
      (g.finishItem y).2 = [.finishItem ⟨h.starts, fields⟩]) ∨
    ∃ msg, h.mDecode u x = some (.error msg) ∧ (g.finishItem y).2 = [] := by
  cases hd : h.mDecode u x with
  | none =>
    rw [startItem_null hd] at hg
    cases hg
  | some r =>
    cases r with
    | error msg =>
      rw [startItem_error hd] at hg
      obtain rfl := Option.some.inj hg
      exact Or.inr ⟨msg, rfl, rfl⟩
    | ok fields =>
      rw [startItem_ok hd] at hg
      obtain rfl := Option.some.inj hg
      exact Or.inl ⟨fields, rfl, rfl⟩

/-- Only the finish right after a start drives an item: the one that start decoded. -/
theorem drives (hs : h.state = .idle) (hg : (h.calls cs).1 = some g) {it : RawItem ι}
    (hm : .finishItem it ∈ (g.call c).2) :
    (∃ y, c = .finish y) ∧ (g.call c).2 = [.finishItem it] ∧
      ∃ cs' k u x, cs = cs' ++ [.start u x] ∧ (h.calls cs').1 = some k ∧
        k.mDecode u x = some (.ok it.fields) ∧ .startItem it ∈ (k.call (.start u x)).2 := by
  cases c with
  | start u x => exact absurd hm (start_drives_nothing it)
  | finish y =>
    refine ⟨⟨y, rfl⟩, ?_⟩
    rcases closed_or_open cs with hc | ⟨cs', u, x, rfl⟩
    · have hidle : g.state = .idle := state_closed hs hc hg
      simp [call, finishItem, hidle] at hm
    · obtain ⟨k, hk, hkg⟩ := calls_concat hg
      rw [call] at hm ⊢
      rcases finish_after_start hkg y with ⟨fields, hd, hfin⟩ | ⟨msg, -, hfin⟩
      · rw [hfin, List.mem_singleton, RawEvent.finishItem.injEq] at hm
        subst hm
        refine ⟨hfin, cs', k, u, x, rfl, hk, hd, ?_⟩
        rw [call, startItem_ok hd]
        simp
      · rw [hfin] at hm
        cases hm

/-- A rejected image drives nothing: there are reports and nothing else. -/
theorem rejected {msg : String} (hd : h.mDecode u x = some (.error msg)) :
    ∃ g, (h.startItem u x).1 = some g ∧ ∀ (y : π), ∀ ev ∈ (h.startItem u x).2 ++ (g.finishItem y).2,
      ∃ m, ev = .error h.name m := by
  obtain ⟨g, hg⟩ : ∃ g, (h.startItem u x).1 = some g := by
    rw [startItem_error hd]
    exact ⟨_, rfl⟩
  refine ⟨g, hg, fun y ev hev => ?_⟩
  have hfin : (g.finishItem y).2 = [] := by
    rcases finish_after_start hg y with ⟨fields, hok, -⟩ | ⟨-, -, hfin⟩
    · rw [hd] at hok
      cases hok
    · exact hfin
  rw [hfin, List.append_nil, startItem_error hd] at hev
  split_ifs at hev
  · simp only [List.mem_append, List.mem_singleton] at hev
    rcases hev with rfl | rfl
    · exact ⟨_, rfl⟩
    · exact ⟨_, rfl⟩
  · exact ⟨msg, by simpa using hev⟩

theorem start_reported (hs : h.state ≠ .idle) :
    .error h.name (startWhileOpen h.state) ∈ (h.startItem u x).2 := by
  cases hd : h.mDecode u x with
  | none =>
    rw [startItem_null hd, if_pos hs]
    simp
  | some r =>
    cases r with
    | error msg =>
      rw [startItem_error hd, if_pos hs]
      simp
    | ok fields =>
      rw [startItem_ok hd, if_pos hs]
      simp

/-! ## Pairs -/

/-- The item that a pair drives. -/
def RawEvent.driven : RawEvent ι → Option (RawItem ι)
  | .finishItem it => some it
  | _ => none

/-- A start and the finish after it, for an image, and so on. -/
def pairs (ps : List (Uvm π ι × π × π)) : List (RawCall π ι) :=
  ps.flatMap fun p => [.start p.1 p.2.1, .finish p.2.2]

/-- The images of some pairs that decode, in order. -/
def decodable (h : RawHelper ι) (ps : List (Uvm π ι × π × π)) : List ι :=
  ps.flatMap fun p => ((h.mDecode p.1 p.2.1).bind Except.toOption).toList

/-- The fields of the items driven. -/
def drivenIn (events : List (RawEvent ι)) : List ι :=
  (events.filterMap RawEvent.driven).map RawItem.fields

theorem drivenIn_append (l l' : List (RawEvent ι)) :
    drivenIn (l ++ l') = drivenIn l ++ drivenIn l' := by
  simp [drivenIn]

/-- The helper after a pair. -/
def afterPair (h : RawHelper ι) : RawHelper ι :=
  { h with decoded := none, state := .idle, starts := h.starts + 1 }

/-- Decoding reads nothing of the helper but the name of its item type. -/
theorem mDecode_afterPair (u : Uvm π ι) (x : π) : h.afterPair.mDecode u x = h.mDecode u x := rfl

theorem pairs_singleton_append (p : Uvm π ι × π × π) (ds : List (RawCall π ι)) :
    pairs [p] ++ ds = .start p.1 p.2.1 :: .finish p.2.2 :: ds := rfl

/-- A pair drives its item or has its rejection reported; with nothing to decode the run is
over. -/
theorem calls_pair (hs : h.state = .idle) (p : Uvm π ι × π × π) :
    (p.1.getObject p.2.1 = none ∧ ∀ ds, h.calls (pairs [p] ++ ds) = (none, [])) ∨
    ∃ events, (∀ ds, h.calls (pairs [p] ++ ds) =
        ((h.afterPair.calls ds).1, events ++ (h.afterPair.calls ds).2)) ∧
      drivenIn events = h.decodable [p] ∧
      ∀ id msg, .error id msg ∈ events → h.mDecode p.1 p.2.1 = some (.error msg) := by
  cases hd : h.mDecode p.1 p.2.1 with
  | none =>
    refine Or.inl ⟨mDecode_eq_none.mp hd, fun ds => ?_⟩
    have hcall : h.call (.start p.1 p.2.1) = (none, []) := by
      rw [call, startItem_null hd, if_neg (not_not.mpr hs)]
    have hnone : (h.call (.start p.1 p.2.1)).1 = none := by rw [hcall]
    rw [pairs_singleton_append, calls_cons_of_none hnone, hcall]
  | some r =>
    right
    have hdec : h.decodable [p] = r.toOption.toList := by
      rw [decodable, List.flatMap_singleton, hd]
      rfl
    rw [hdec]
    cases r with
    | error msg =>
      have hcall : h.call (.start p.1 p.2.1) = (some { h with
          decoded := none, state := .failed, starts := h.starts + 1 }, [.error h.name msg]) := by
        rw [call, startItem_error hd, if_neg (not_not.mpr hs), List.nil_append]
      refine ⟨[.error h.name msg], fun ds => ?_, rfl, ?_⟩
      · rw [pairs_singleton_append, calls_cons_of_some (congrArg Prod.fst hcall),
          calls_cons_of_some rfl, hcall]
        rfl
      · intro id m hm
        rw [List.mem_singleton, RawEvent.error.injEq] at hm
        rw [hm.2]
    | ok fields =>
      have hcall : h.call (.start p.1 p.2.1) = (some { h with
          decoded := some ⟨h.starts, fields⟩, state := .started, starts := h.starts + 1 },
          [.startItem ⟨h.starts, fields⟩]) := by
        rw [call, startItem_ok hd, if_neg (not_not.mpr hs), List.nil_append]
      refine ⟨[.startItem ⟨h.starts, fields⟩, .finishItem ⟨h.starts, fields⟩], fun ds => ?_, rfl,
        ?_⟩
      · rw [pairs_singleton_append, calls_cons_of_some (congrArg Prod.fst hcall),
          calls_cons_of_some rfl, hcall]
        rfl
      · intro id m hm
        simp at hm

/-- No image that decodes is started after an object that the registry does not know. -/
def NoneLost (h : RawHelper ι) (ps : List (Uvm π ι × π × π)) : Prop :=
  ps.Pairwise fun p q => p.1.getObject p.2.1 = none →
    ∀ fields, h.mDecode q.1 q.2.1 ≠ some (.ok fields)

theorem decodable_eq_nil {ps : List (Uvm π ι × π × π)} :
    h.decodable ps = [] ↔ ∀ q ∈ ps, ∀ fields, h.mDecode q.1 q.2.1 ≠ some (.ok fields) := by
  rw [decodable, List.flatMap_eq_nil_iff]
  refine forall₂_congr fun q _ => ?_
  cases h.mDecode q.1 q.2.1 with
  | none => simp
  | some r =>
    cases r with
    | error msg => simp [Except.toOption]
    | ok fields => simp [Except.toOption]

theorem decodable_cons (p : Uvm π ι × π × π) (ps : List (Uvm π ι × π × π)) :
    h.decodable (p :: ps) = h.decodable [p] ++ h.decodable ps := by
  simp [decodable]

/-- The items driven by calls in pairs are the decodable images, in order, exactly when none of
these is lost with the run. -/
theorem driven_pairs (hs : h.state = .idle) (ps : List (Uvm π ι × π × π)) :
    drivenIn (h.calls (pairs ps)).2 = h.decodable ps ↔ h.NoneLost ps := by
  induction ps generalizing h with
  | nil => exact iff_of_true rfl List.Pairwise.nil
  | cons p ps ih =>
    have hsplit : pairs (p :: ps) = pairs [p] ++ pairs ps := rfl
    rw [NoneLost, List.pairwise_cons, hsplit]
    rcases calls_pair hs p with ⟨hnull, hcalls⟩ | ⟨events, hcalls, hdriven, -⟩
    · have hnone : h.decodable [p] = [] := by
        rw [decodable, List.flatMap_singleton, mDecode_eq_none.mpr hnull]
        rfl
      rw [hcalls, decodable_cons, hnone, List.nil_append]
      constructor
      · intro hd
        have hlost := decodable_eq_nil.mp hd.symm
        refine ⟨fun q hq _ => hlost q hq, List.pairwise_of_forall_mem_list fun a _ b hb _ => ?_⟩
        exact hlost b hb
      · rintro ⟨hd, -⟩
        exact (decodable_eq_nil.mpr fun q hq => hd q hq hnull).symm
    · have hrest : drivenIn (h.afterPair.calls (pairs ps)).2 = h.decodable ps ↔ h.NoneLost ps :=
        ih (h := h.afterPair) rfl
      rw [hcalls, drivenIn_append, hdriven, decodable_cons p ps, List.append_cancel_left_eq, hrest]
      refine ⟨fun hn => ⟨fun q _ hq => ?_, hn⟩, And.right⟩
      have hnil := hcalls []
      rw [List.append_nil] at hnil
      have hfail : (h.calls (pairs [p])).1 = none := by
        refine Option.not_isSome_iff_eq_none.mp fun hsome => ?_
        exact calls_go_on.mp hsome p.1 p.2.1 List.mem_cons_self hq
      rw [hnil] at hfail
      cases hfail

/-- And the only reports are those of the rejections. -/
theorem reports_pairs (hs : h.state = .idle) (ps : List (Uvm π ι × π × π)) {id msg : String}
    (hm : .error id msg ∈ (h.calls (pairs ps)).2) :
    ∃ p ∈ ps, h.mDecode p.1 p.2.1 = some (.error msg) := by
  induction ps generalizing h with
  | nil => cases hm
  | cons p ps ih =>
    have hsplit : pairs (p :: ps) = pairs [p] ++ pairs ps := rfl
    rw [hsplit] at hm
    rcases calls_pair hs p with ⟨-, hcalls⟩ | ⟨events, hcalls, -, herr⟩
    · rw [hcalls] at hm
      cases hm
    · rw [hcalls] at hm
      rcases List.mem_append.mp hm with hm | hm
      · exact ⟨p, List.mem_cons_self, herr id msg hm⟩
      · obtain ⟨q, hq, hd⟩ := ih (h := h.afterPair) rfl hm
        rw [mDecode_afterPair] at hd
        exact ⟨q, List.mem_cons_of_mem _ hq, hd⟩

end RawHelper

open RawHelper

/-- On any calls: an item is driven only by the finish right after the start that decoded it
and passed it on, and once; a rejected image drives nothing; a start while a transaction is
open and a finish without a start are reported. The run goes on exactly as long as the registry
knows what is started, so calls in pairs drive the decodable images in order exactly when none
of these comes after an object it does not know; the only reports are those of the
rejections. -/
theorem raw_pairing_sound (π ι : Type) (name itemType : String) :
    let fresh : RawHelper ι := { name, itemType }
    (∀ (cs : List (RawCall π ι)) (c : RawCall π ι) (g : RawHelper ι) (it : RawItem ι),
      (fresh.calls cs).1 = some g → .finishItem it ∈ (g.call c).2 →
      (∃ y, c = .finish y) ∧ (g.call c).2 = [.finishItem it] ∧
        ∃ cs' k u x, cs = cs' ++ [.start u x] ∧ (fresh.calls cs').1 = some k ∧
          k.mDecode u x = some (.ok it.fields) ∧ .startItem it ∈ (k.call (.start u x)).2) ∧
    (∀ (cs : List (RawCall π ι)) (g : RawHelper ι) (u : Uvm π ι) (x : π) (msg : String),
      (fresh.calls cs).1 = some g → g.mDecode u x = some (.error msg) →
      ∃ k, (g.call (.start u x)).1 = some k ∧ ∀ (y : π),
        ∀ ev ∈ (g.call (.start u x)).2 ++ (k.call (.finish y)).2, ∃ m, ev = .error name m) ∧
    (∀ (cs : List (RawCall π ι)) (g : RawHelper ι) (u u' : Uvm π ι) (x x' : π),
      (fresh.calls (cs ++ [.start u x])).1 = some g →
      .error name (startWhileOpen g.state) ∈ (g.call (.start u' x')).2) ∧
    (∀ (cs : List (RawCall π ι)) (g : RawHelper ι) (y : π), Closed cs →
      (fresh.calls cs).1 = some g → (g.call (.finish y)).2 = [.error name finishUnmatched]) ∧
    (∀ cs : List (RawCall π ι),
      (fresh.calls cs).1.isSome ↔ ∀ u x, .start u x ∈ cs → u.getObject x ≠ none) ∧
    (∀ ps : List (Uvm π ι × π × π), let events := (fresh.calls (pairs ps)).2
      (drivenIn events = fresh.decodable ps ↔ fresh.NoneLost ps) ∧
        ∀ id msg, .error id msg ∈ events →
          ∃ p ∈ ps, fresh.mDecode p.1 p.2.1 = some (.error msg)) := by
  intro fresh
  refine ⟨fun cs c g it hg hm => drives rfl hg hm, ?_, ?_, ?_, fun cs => calls_go_on, ?_⟩
  · intro cs g u x msg hg hd
    have hname : g.name = name := (calls_names hg).1
    rw [← hname]
    exact rejected hd
  · intro cs g u u' x x' hg
    have hname : g.name = name := (calls_names hg).1
    obtain ⟨k, -, hk⟩ := calls_concat hg
    rw [← hname]
    exact start_reported (state_open hk)
  · intro cs g y hc hg
    have hname : g.name = name := (calls_names hg).1
    have hs : g.state = .idle := state_closed rfl hc hg
    rw [call]
    simp only [finishItem, hs, hname]
  · intro ps events
    exact ⟨driven_pairs rfl ps, fun id msg hm => reports_pairs rfl ps hm⟩

/-- A registry of images, with a factory for the item of the co-simulation. It does not know the
object `none`. -/
def imageRegistry : Uvm (Option (List UInt8)) TcpItem where
  getObject x := x.map fun img => { typeName := "bytes_item", raw := some img }
  createObjectByName n :=
    if n = "tcp_item" then
      some {
        typeName := n
        fromBytes := some fun b =>
          let r := ({} : TcpItem).fromBytes b
          if r.2 then some r.1 else none }
    else none

/-- An image too short, one whose header runs past its end, one whose header is too short. -/
def corruptImages : List (List UInt8) :=
  [[0, 1, 2, 3, 4, 5, 6, 7], List.replicate 12 0 ++ [0xF0] ++ List.replicate 11 0,
    List.replicate 20 0]

def goodItem (b : UInt8) : TcpItem := { seqNum := 5, flags := 0x18, payload := [b] }

/-- A start and the finish after it for each object. -/
def imagePairs (xs : List (Option (List UInt8))) :
    List (Uvm (Option (List UInt8)) TcpItem × Option (List UInt8) × Option (List UInt8)) :=
  xs.map fun x => (imageRegistry, x, x)

/-- Three rejected images, and then two good ones: the two are driven, and the three reported. -/
theorem raw_recovers :
    let ps := imagePairs
      ((corruptImages ++ [(goodItem 7).toBytes, (goodItem 8).toBytes]).map some)
    let fresh : RawHelper TcpItem := { name := "raw_seq", itemType := "tcp_item" }
    let events := (fresh.calls (pairs ps)).2
    drivenIn events = [goodItem 7, goodItem 8] ∧ events.length = 7 ∧
      ∀ id msg, .error id msg ∈ events → ∃ p ∈ ps, fresh.mDecode p.1 p.2.1 = some (.error msg) := by
  intro ps fresh events
  have hpairs := (raw_pairing_sound (Option (List UInt8)) TcpItem "raw_seq" "tcp_item").2.2.2.2.2 ps
  have hnone : fresh.NoneLost ps := by
    apply List.pairwise_of_forall_mem_list
    intro p hp q hq hnull
    simp only [ps, imagePairs, List.map_map, List.mem_map] at hp
    obtain ⟨img, -, rfl⟩ := hp
    cases hnull
  have hdec : fresh.decodable ps = [goodItem 7, goodItem 8] := by decide +kernel
  refine ⟨(hpairs.1.mpr hnone).trans hdec, ?_, hpairs.2⟩
  decide +kernel

/-- An object that the registry does not know is neither decoded nor rejected: the run ends, and
the good image after it is not driven. -/
theorem null_ends_run :
    let ps := imagePairs [none, some (goodItem 7).toBytes]
    let fresh : RawHelper TcpItem := { name := "raw_seq", itemType := "tcp_item" }
    fresh.calls (pairs ps) = (none, []) ∧ fresh.decodable ps = [goodItem 7] ∧
      ¬ drivenIn (fresh.calls (pairs ps)).2 = fresh.decodable ps := by
  intro ps fresh
  have hcalls : fresh.calls (pairs ps) = (none, []) := rfl
  have hdec : fresh.decodable ps = [goodItem 7] := by decide +kernel
  refine ⟨hcalls, hdec, ?_⟩
  rw [hcalls, hdec]
  intro hnil
  cases hnil

end HdlPlayground.Cosim
