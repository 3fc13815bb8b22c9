/-
  The send path of an RPC connection (`connection.cpp`: `build_frame_iovecs`,
  `restore_pending`, `try_send`).

  Frames wait in a queue.  `try_send` takes up to `batchMax` of them, offers what
  is left of each to `writev`, advances `sent_offset` by what the socket took and
  keeps the frames that are not done for the next call.
-/
import CrowDB.Lib.ByteCodec
import CrowDB.Lib.Runs
import CrowDB.Paxos.Roles

namespace CrowDB.Rpc

open Lib List Option

/-! ## Frames -/

def headerSize : ℕ := 14
def batchMax : ℕ := 64

/-- The header of a frame, as it goes over the wire. -/
structure Header where
  magic : UInt16 := 0xCA70
  msgType : UInt16 := 0
  msgSize : UInt32 := 0
  dataSize : UInt32 := 0
  msgOffset : UInt8 := 14
  flags : UInt8 := 0
deriving DecidableEq

/-- The header on the wire. -/
def serializeHeader (h : Header) : Bytes :=
  leBytes 2 h.magic.toNat ++ (leBytes 2 h.msgType.toNat ++ (leBytes 4 h.msgSize.toNat ++
    (leBytes 4 h.dataSize.toNat ++ [h.msgOffset, h.flags])))

theorem length_serializeHeader (h : Header) : (serializeHeader h).length = headerSize := by
  simp [serializeHeader, headerSize]

/-- A frame queued for sending; a missing buffer is a null pointer. -/
structure OutFrame where
  header : Header
  control : Option Bytes
  data : Option Bytes
  sentOffset : ℕ := 0
deriving DecidableEq

variable {f : OutFrame}

namespace OutFrame

/-- The bytes of a buffer that may be missing. -/
def part (buffer : Option Bytes) : Bytes := buffer.getD []

variable (f)

/-- What follows the header. -/
def body : Bytes := part f.control ++ part f.data

/-- The frame on the wire. -/
def bytes : Bytes := serializeHeader f.header ++ f.body

/-- Its length. -/
def frameTotal : ℕ := headerSize + (part f.control).length + (part f.data).length

/-- The slices of the header, and where the rest is resumed. -/
def headerIovec : List Bytes × ℕ :=
  if f.sentOffset < headerSize then ([(serializeHeader f.header).drop f.sentOffset], f.sentOffset)
  else ([], f.sentOffset - headerSize)

/-- The slices with those of the control part, and where the data is resumed. -/
def controlIovec (iovs : List Bytes) (off : ℕ) : List Bytes × ℕ :=
  match f.control with
  | none => (iovs, off)
  | some control =>
    if control.length = 0 then (iovs, off)
    else if off < control.length then (iovs ++ [control.drop off], 0)
    else (iovs, off - control.length)

/-- The slices of the frame that are offered, from its `sent_offset` on. -/
def buildFrameIovecs : List Bytes :=
  let (iovs, off) := f.headerIovec
  let (iovs, off) := f.controlIovec iovs off
  match f.data with
  | none => iovs
  | some data => if data.length ≠ 0 ∧ off < data.length then iovs ++ [data.drop off] else iovs

/-- What is still to be sent. -/
def rest : Bytes := f.bytes.drop f.sentOffset

/-- The offset from which the slices are rebuilt rightly: not inside the header of a
    frame with a body. -/
def Resumable : Prop := f.sentOffset = 0 ∨ headerSize ≤ f.sentOffset ∨ f.body = []

theorem length_bytes : f.bytes.length = f.frameTotal := by
  rw [bytes, body, length_append, length_append, length_serializeHeader, frameTotal, Nat.add_assoc]

theorem length_rest : f.rest.length = f.frameTotal - f.sentOffset := by
  rw [rest, length_drop, length_bytes]

theorem controlIovec_eq (iovs : List Bytes) (off : ℕ) :
    (f.controlIovec iovs off).1.flatten = iovs.flatten ++ (part f.control).drop off ∧
      (f.controlIovec iovs off).2 = off - (part f.control).length := by
  unfold controlIovec part
  cases f.control with
  | none => simp
  | some =>
    dsimp only [getD_some]
    split
    · rename_i h0
      rw [length_eq_zero_iff.mp h0]
      simp
    · split
      · exact ⟨by simp, by dsimp only; omega⟩
      · rename_i hge
        rw [drop_eq_nil_of_le (Nat.le_of_not_lt hge), append_nil]
        exact ⟨rfl, rfl⟩

theorem flatten_buildFrameIovecs : f.buildFrameIovecs.flatten =
    (f.headerIovec.1.flatten ++ (part f.control).drop f.headerIovec.2) ++
      (part f.data).drop (f.headerIovec.2 - (part f.control).length) := by
  obtain ⟨h1, h2⟩ := f.controlIovec_eq f.headerIovec.1 f.headerIovec.2
  unfold buildFrameIovecs
  rw [← h1, ← h2]
  cases f.data with
  | none => simp [part]
  | some data =>
    dsimp only
    split
    · simp [part]
    · have hempty : data.drop (f.controlIovec f.headerIovec.1 f.headerIovec.2).2 = [] := by
        refine drop_eq_nil_of_le ?_
        omega
      simp [part, hempty]

variable {f}

/-- **What is offered for a frame is what is left of it.** -/
theorem flatten_iovecs (h : f.Resumable) : f.buildFrameIovecs.flatten = f.rest := by
  rw [flatten_buildFrameIovecs, headerIovec, rest, bytes, body]
  by_cases hoff : f.sentOffset < headerSize
  · rw [if_pos hoff, flatten_singleton, drop_append_of_le_length
      (by rw [length_serializeHeader]; omega), append_assoc]
    rcases h with h0 | hge | hbody
    · rw [h0]
      simp
    · omega
    · obtain ⟨hc, hd⟩ := append_eq_nil_iff.mp hbody
      simp [hc, hd]
  · have hle : (serializeHeader f.header).length ≤ f.sentOffset := by
      rw [length_serializeHeader]
      omega
    rw [if_neg hoff, flatten_nil, nil_append, drop_append, drop_eq_nil_of_le hle,
      nil_append, length_serializeHeader, drop_append]

end OutFrame

/-! ## The connection -/

/-- The answer of `writev`: the number of bytes taken, or `EAGAIN`. -/
inductive WritevOutcome where
  | taken (n : ℕ)
  | eagain
deriving DecidableEq

/-- `taken` are the bytes the socket took, `queued` the frames that were queued, in order. -/
structure Connection where
  sendQueue : List OutFrame := []
  pending : List OutFrame := []
  inSend : Bool := false
  taken : Bytes := []
  queued : List OutFrame := []
deriving DecidableEq

/-- A step of the caller or of the socket. -/
inductive SendEvent where
  | enqueueSend (f : OutFrame)
  | trySend
  | writev (outcome : WritevOutcome)
deriving DecidableEq

/-- Advance `sent_offset` across the batch by what was written. -/
def advance : List OutFrame → ℕ → List OutFrame
  | [], _ => []
  | f :: fs, remaining =>
    if remaining = 0 then f :: fs
    else if f.frameTotal - f.sentOffset ≤ remaining then
      { f with sentOffset := f.frameTotal % 2 ^ 32 } :: advance fs
        (remaining - (f.frameTotal - f.sentOffset))
    else { f with sentOffset := (f.sentOffset + remaining) % 2 ^ 32 } :: fs

/-- The frames of a batch that are not fully sent; the others are released. -/
def partials (frames : List OutFrame) : List OutFrame :=
  frames.filter fun f => f.sentOffset < f.frameTotal

theorem partials_done (h : ¬ f.sentOffset < f.frameTotal) (fs : List OutFrame) :
    partials (f :: fs) = partials fs :=
  filter_cons_of_neg (by simpa using h)

theorem partials_unsent (h : f.sentOffset < f.frameTotal) (fs : List OutFrame) :
    partials (f :: fs) = f :: partials fs :=
  filter_cons_of_pos (by simpa using h)

theorem partials_eq_self {fs : List OutFrame} (h : ∀ f ∈ fs, f.sentOffset < f.frameTotal) :
    partials fs = fs :=
  filter_eq_self.mpr fun f hf => decide_eq_true (h f hf)

namespace Connection

/-- The frames of a batch: the partial ones of the last call, then new ones. -/
def batch (c : Connection) : List OutFrame :=
  c.pending.take batchMax ++ c.sendQueue.take (batchMax - (c.pending.take batchMax).length)

/-- The queue once the batch was taken from it. -/
def drained (c : Connection) : List OutFrame :=
  c.sendQueue.drop (batchMax - (c.pending.take batchMax).length)

/-- What `writev` is given. -/
def offered (c : Connection) : Bytes := (c.batch.flatMap OutFrame.buildFrameIovecs).flatten

/-- One round of the loop of `try_send`, its exit and the race check behind it. -/
def round (c : Connection) : WritevOutcome → Option Connection
  | outcome =>
    if c.batch = [] then some { c with inSend := false }
    else
      match outcome with
      | .eagain => some { c with pending := c.batch, sendQueue := c.drained, inSend := false }
      | .taken n =>
        -- the socket takes at most what it is offered
        if c.offered.length < n then none
        else
          let frames := advance c.batch n
          let pending := partials frames
          some { c with
            pending := pending
            sendQueue := c.drained
            taken := c.taken ++ c.offered.take n
            -- the loop goes on after a full batch, and when frames came in meanwhile
            inSend := pending.isEmpty &&
              (decide (batchMax ≤ (c.sendQueue.take
                (batchMax - (c.pending.take batchMax).length)).length) ||
                !c.drained.isEmpty) }

/-- One step. -/
def step (c : Connection) : SendEvent → Option Connection
  | .enqueueSend f =>
    if f.sentOffset = 0 then some
      { c with sendQueue := c.sendQueue ++ [f], queued := c.queued ++ [f] }
    else none
  | .trySend => some { c with inSend := true }
  | .writev outcome => if c.inSend then c.round outcome else none

/-- A write of `n` bytes of the batch ends inside the header of a frame with a body. -/
def cutsHeader : List OutFrame → ℕ → Bool
  | [], _ => false
  | f :: fs, n =>
    if f.frameTotal - f.sentOffset ≤ n then cutsHeader fs (n - (f.frameTotal - f.sentOffset))
    else decide (0 < n ∧ f.sentOffset + n < headerSize ∧ f.body ≠ [])

/-- A frame is shorter than four GiB, and no write ends inside the header of a frame
    with a body. -/
def Uncut (c : Connection) : SendEvent → Prop
  | .enqueueSend f => f.frameTotal < 2 ^ 32
  | .trySend => True
  | .writev (.taken n) => cutsHeader c.batch n = false
  | .writev .eagain => True

instance (c : Connection) (e : SendEvent) : Decidable (c.Uncut e) :=
  match e with
  | .enqueueSend _ => inferInstanceAs (Decidable (_ < _))
  | .trySend | .writev .eagain => isTrue trivial
  | .writev (.taken _) => inferInstanceAs (Decidable (_ = _))

/-! ## The invariant -/

/-- A frame that waits: not done, short and resumed at a good place. -/
structure Waits (f : OutFrame) : Prop where
  unsent : f.sentOffset < f.frameTotal
  short : f.frameTotal < 2 ^ 32
  resumable : f.Resumable

/-- What was taken and what is left of the frames that wait is all that was queued. -/
structure Inv (c : Connection) : Prop where
  exact : c.taken ++ (c.pending ++ c.sendQueue).flatMap OutFrame.rest =
    c.queued.flatMap OutFrame.bytes
  waits : ∀ f ∈ c.pending ++ c.sendQueue, Waits f
  pending_le : c.pending.length ≤ batchMax

variable {c : Connection} {c' : Connection}

theorem batch_append_drained (h : c.Inv) : c.batch ++ c.drained = c.pending ++ c.sendQueue := by
  rw [batch, drained, take_of_length_le h.pending_le, append_assoc, take_append_drop]

theorem waits_batch (h : c.Inv) : ∀ f ∈ c.batch, Waits f := by
  intro f hf
  refine h.waits f ?_
  rw [← batch_append_drained h]
  exact mem_append_left _ hf

theorem length_batch_le (c : Connection) : c.batch.length ≤ batchMax := by
  rw [batch, length_append, length_take, length_take]
  omega

/-- **The batch is offered as it is left.** -/
theorem offered_eq (h : c.Inv) : c.offered = c.batch.flatMap OutFrame.rest := by
  have hbatch := waits_batch h
  rw [offered]
  generalize c.batch = frames at hbatch
  induction frames with
  | nil => rfl
  | cons f _ ih =>
    rw [flatMap_cons, flatten_append, flatMap_cons, OutFrame.flatten_iovecs
      (hbatch f (mem_cons_self ..)).resumable,
      ih fun g hg => hbatch g (mem_cons_of_mem _ hg)]

/-- **What a write leaves**: the frames not done hold the bytes not taken, and are resumed at a good
    place. -/
theorem advance_spec {frames : List OutFrame} (hw : ∀ f ∈ frames, Waits f) {n : ℕ}
    (hn : n ≤ (frames.flatMap OutFrame.rest).length) (hcut : cutsHeader frames n = false) :
    (partials (advance frames n)).flatMap OutFrame.rest = (frames.flatMap OutFrame.rest).drop n ∧
      (∀ f ∈ partials (advance frames n), Waits f) ∧
      (advance frames n).length = frames.length := by
  induction frames generalizing n with
  | nil => simp [advance, partials]
  | cons f fs ih =>
    have hf := hw f (mem_cons_self ..)
    have hfs : ∀ g ∈ fs, Waits g := fun g hg => hw g (mem_cons_of_mem _ hg)
    have hkeep : partials (f :: fs) = f :: fs := partials_eq_self fun g hg => (hw g hg).unsent
    have hlen := f.length_rest
    rw [flatMap_cons, length_append] at hn
    rw [advance]
    split
    · rename_i h0
      rw [hkeep, h0, drop_zero]
      exact ⟨rfl, hw, rfl⟩
    · split
      · -- the whole frame was taken
        rename_i h0 hle
        rw [cutsHeader, if_pos hle] at hcut
        obtain ⟨h1, h2, h3⟩ := ih hfs (by omega) hcut
        have hdone : ¬ f.frameTotal % 2 ^ 32 < f.frameTotal := by
          rw [Nat.mod_eq_of_lt hf.short]
          exact lt_irrefl _
        rw [partials_done hdone]
        refine ⟨?_, h2, by rw [length_cons, length_cons, h3]⟩
        have hnil : f.rest.drop n = [] := drop_eq_nil_of_le (by omega)
        rw [h1, flatMap_cons, drop_append, hlen, hnil, nil_append]
      · rename_i h0 hlt
        have hnew : (f.sentOffset + n) % 2 ^ 32 = f.sentOffset + n :=
          Nat.mod_eq_of_lt (lt_trans (by omega) hf.short)
        rw [cutsHeader, if_neg hlt] at hcut
        have hgood : ¬ (0 < n ∧ f.sentOffset + n < headerSize ∧ f.body ≠ []) :=
          of_decide_eq_false hcut
        have hwait : Waits { f with sentOffset := f.sentOffset + n } := by
          refine ⟨show f.sentOffset + n < f.frameTotal by omega, hf.short, ?_⟩
          by_cases hbody : f.body = []
          · exact .inr (.inr hbody)
          · refine .inr (.inl ?_)
            by_contra hin
            exact hgood ⟨by omega, Nat.lt_of_not_le hin, hbody⟩
        rw [hnew, partials_unsent hwait.unsent, partials_eq_self fun g hg => (hfs g hg).unsent]
        refine ⟨?_, ?_, rfl⟩
        · rw [flatMap_cons, flatMap_cons, drop_append_of_le_length (by omega)]
          rw [OutFrame.rest, OutFrame.rest, drop_drop]
          rfl
        · intro g hg
          rcases mem_cons.mp hg with rfl | hg
          · exact hwait
          · exact hfs g hg

/-! ## Steps and runs -/

theorem inv_init : ({} : Connection).Inv := ⟨rfl, by simp, by simp⟩

theorem Inv.enqueueSend (h : c.Inv) (h0 : f.sentOffset = 0) (hshort : f.frameTotal < 2 ^ 32) :
    { c with sendQueue := c.sendQueue ++ [f], queued := c.queued ++ [f] }.Inv := by
  have hrest : f.rest = f.bytes := by rw [OutFrame.rest, h0, drop_zero]
  refine ⟨?_, fun g hg => ?_, h.pending_le⟩
  · show c.taken ++ (c.pending ++ (c.sendQueue ++ [f])).flatMap OutFrame.rest =
      (c.queued ++ [f]).flatMap OutFrame.bytes
    rw [← append_assoc c.pending, flatMap_append, ← append_assoc, h.exact, flatMap_append,
      flatMap_singleton, flatMap_singleton, hrest]
  · have hg' : g ∈ (c.pending ++ c.sendQueue) ++ [f] := by rwa [append_assoc]
    rcases mem_append.mp hg' with hg | hg
    · exact h.waits g hg
    · obtain rfl := mem_singleton.mp hg
      refine ⟨?_, hshort, .inl h0⟩
      rw [h0, OutFrame.frameTotal, headerSize]
      omega

theorem Inv.eagain (h : c.Inv) :
    { c with pending := c.batch, sendQueue := c.drained, inSend := false }.Inv := by
  refine ⟨?_, ?_, length_batch_le c⟩
  · show c.taken ++ (c.batch ++ c.drained).flatMap OutFrame.rest = _
    rw [batch_append_drained h]
    exact h.exact
  · show ∀ f ∈ c.batch ++ c.drained, Waits f
    rw [batch_append_drained h]
    exact h.waits

/-- **A write that ends in no header keeps the stream exact.** -/
theorem Inv.taken (h : c.Inv) {n : ℕ} (hn : n ≤ c.offered.length)
    (hcut : cutsHeader c.batch n = false)
    (inSend : Bool) :
    { c with
      pending := partials (advance c.batch n)
      sendQueue := c.drained
      taken := c.taken ++ c.offered.take n
      inSend := inSend }.Inv := by
  rw [offered_eq h] at hn ⊢
  obtain ⟨h1, h2, h3⟩ := advance_spec (waits_batch h) hn hcut
  refine ⟨?_, fun f hf => ?_, ?_⟩
  · show (c.taken ++ (c.batch.flatMap OutFrame.rest).take n) ++
      (partials (advance c.batch n) ++ c.drained).flatMap OutFrame.rest = _
    rw [flatMap_append, h1, append_assoc, ← append_assoc (List.take ..), take_append_drop,
      ← flatMap_append, batch_append_drained h]
    exact h.exact
  · rcases mem_append.mp hf with hf | hf
    · exact h2 f hf
    · refine h.waits f ?_
      rw [← batch_append_drained h]
      exact mem_append_right _ hf
  · exact ((length_filter_le ..).trans h3.le).trans (length_batch_le c)

theorem Inv.round (h : c.Inv) {outcome : WritevOutcome}
    (hok : c.Uncut (.writev outcome)) (hr : c.round outcome = some c') : c'.Inv := by
  unfold Connection.round at hr
  split at hr
  · cases hr
    exact ⟨h.exact, h.waits, h.pending_le⟩
  · cases outcome with
    | eagain =>
      cases hr
      exact h.eagain
    | taken =>
      dsimp only at hr
      split at hr
      · cases hr
      · rename_i hn
        cases hr
        exact h.taken (Nat.le_of_not_lt hn) hok _

theorem inv_step {e : SendEvent} (h : c.Inv) (hok : c.Uncut e) (hs : c.step e = some c') :
    c'.Inv := by
  cases e with
  | enqueueSend =>
    simp only [step, ite_none_right_eq_some] at hs
    obtain ⟨h0, hs⟩ := hs
    cases hs
    exact h.enqueueSend h0 hok
  | trySend =>
    cases hs
    exact ⟨h.exact, h.waits, h.pending_le⟩
  | writev =>
    simp only [step, ite_none_right_eq_some] at hs
    exact h.round hok hs.2

/-- **The send stream is exact**, if no write ends inside the header of a frame with a body. -/
theorem exact_of_reach {c : Connection} (h : Reach step Uncut {} c) :
    c.taken <+: c.queued.flatMap OutFrame.bytes ∧
      (c.pending = [] → c.sendQueue = [] → c.taken = c.queued.flatMap OutFrame.bytes) := by
  have hinv : c.Inv := h.invariant inv_init inv_step
  refine ⟨⟨_, hinv.exact⟩, fun hp hq => ?_⟩
  have hexact := hinv.exact
  rw [hp, hq] at hexact
  simpa using hexact

/-- A frame with a control part of twenty bytes. -/
def twentyBytes : OutFrame :=
  { header := { msgSize := 20 }, control := some ((List.range 20).map UInt8.ofNat), data := none }

/-- A frame with a control and a data part. -/
def twoParts : OutFrame :=
  { header := { msgSize := 2, dataSize := 3 }, control := some [1, 2], data := some [3, 4, 5] }

/-- Two frames go out in pieces, with an `EAGAIN` in between. -/
theorem exact_in_pieces : ∃ c, Reach step Uncut {} c ∧
    c.queued = [twoParts, twentyBytes] ∧ c.pending = [] ∧ c.sendQueue = [] ∧
    c.taken = [twoParts, twentyBytes].flatMap OutFrame.bytes := by
  obtain ⟨c, hr, hp⟩ : ∃ c, Reach step Uncut {} c ∧
        c.queued = [twoParts, twentyBytes] ∧ c.pending = [] ∧ c.sendQueue = [] :=
    Reach.exists_of_run [.enqueueSend twoParts, .trySend, .writev (.taken 14),
      .enqueueSend twentyBytes, .trySend,
      .writev .eagain, .trySend, .writev (.taken 3), .trySend, .writev (.taken 16), .trySend,
      .writev (.taken 20)] (by decide +kernel)
  obtain ⟨hq, hpend, hsend⟩ := hp
  exact ⟨c, hr, hq, hpend, hsend, hq ▸ (exact_of_reach hr).2 hpend hsend⟩

/-- A write ends inside a header, and the control part is sent from its sixth byte on. -/
theorem skips_bytes : ∃ c, Reach step anyStep {} c ∧
    c.queued = [twentyBytes] ∧ ¬ c.taken <+: [twentyBytes].flatMap OutFrame.bytes := by
  exact Reach.exists_of_run
    [.enqueueSend twentyBytes, .trySend, .writev (.taken 5), .trySend, .writev (.taken 24)]
      (by decide +kernel)

end Connection

end CrowDB.Rpc
