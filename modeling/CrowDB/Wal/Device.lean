/-
  Positioned writes of WAL files (`wal/pipeline_backend.rs`, `wal/block_backend.rs`).

  A file is its list of bytes.  On an unaligned backend a write lands where it is
  asked for; an aligned one widens it to whole I/O units, reading the units first
  when the write covers them only in part, so the file grows to the next unit and
  what lies behind the data is zero.
-/
import CrowDB.Paxos.Roles

namespace CrowDB

open List

/-- `pwrite`: the data at `off`, the file extended by zeros as far as needed. -/
def pwrite (file : Bytes) (off : ℕ) (data : Bytes) : Bytes :=
  let file := file ++ List.replicate (off + data.length - file.length) 0
  file.take off ++ (data ++ file.drop (off + data.length))

/-- `pread` into a buffer: the bytes there are, over the start of the buffer. -/
def pread (file : Bytes) (off : ℕ) (buf : Bytes) : Bytes :=
  let read := (file.drop off).take buf.length
  read ++ buf.drop read.length

/-- The alignment of a backend's I/O; a unit of zero bytes is refused by an assertion. -/
inductive WalBlockAlignment where
  | unaligned
  | aligned (ioUnitBytes : ℕ) (pos : 0 < ioUnitBytes)

/-- How a logical write maps onto physical block I/O. -/
structure WalBlockWritePlan where
  alignedOffset : ℕ
  alignedLen : ℕ
  payloadOffsetWithinAligned : ℕ
  requiresReadModifyWrite : Bool

namespace WalBlockAlignment

/-- `plan_write` for a write whose last unit ends below `2^64`, so that nothing overflows. -/
def planWrite : WalBlockAlignment → ℕ → ℕ → WalBlockWritePlan
  | unaligned, offset, len => ⟨offset, len, 0, false⟩
  | aligned unit _, offset, len =>
    let writeEnd := offset + len
    let alignedOffset := offset / unit * unit
    let alignedEnd := (writeEnd + unit - 1) / unit * unit
    { alignedOffset := alignedOffset
      alignedLen := alignedEnd - alignedOffset
      payloadOffsetWithinAligned := offset - alignedOffset
      requiresReadModifyWrite := decide (offset ≠ alignedOffset ∨ writeEnd ≠ alignedEnd) }

/-- One physical write of `data` at `offset`. -/
def writeBytes (al : WalBlockAlignment) (file : Bytes) (data : Bytes) (offset : ℕ) : Bytes :=
  match al with
  | unaligned => pwrite file offset data
  | aligned .. =>
    let plan := al.planWrite offset data.length
    let buf := List.replicate plan.alignedLen 0
    let buf := if plan.requiresReadModifyWrite then pread file plan.alignedOffset buf else buf
    pwrite file plan.alignedOffset (pwrite buf plan.payloadOffsetWithinAligned data)

/-- A vectored write: the buffers one after another. -/
def writeVectoredAt (al : WalBlockAlignment) : Bytes → List Bytes → ℕ → Bytes
  | file, [], _ => file
  | file, buf :: bufs, off => al.writeVectoredAt (al.writeBytes file buf off) bufs (off + buf.length)

end WalBlockAlignment

/-! ## What a write leaves -/

variable {file content : Bytes} {off : ℕ}

theorem pwrite_eq (h : off ≤ file.length) (data : Bytes) :
    pwrite file off data = file.take off ++ (data ++ file.drop (off + data.length)) := by
  rw [pwrite, take_append_of_le_length h, drop_append]
  simp only [drop_replicate]
  rw [Nat.sub_self, replicate_zero, append_nil]

theorem enclosing_units {unit : ℕ} (hu : 0 < unit) (off len : ℕ) :
    off / unit * unit ≤ off ∧ off + len ≤ (off + len + unit - 1) / unit * unit := by
  refine ⟨Nat.div_mul_le_self off unit, ?_⟩
  have h := Nat.div_add_mod (off + len + unit - 1) unit
  have hm := Nat.mod_lt (off + len + unit - 1) hu
  rw [Nat.mul_comm] at h
  omega

theorem pread_drop_append (file : Bytes) (start len q : ℕ) (hq : q ≤ len) :
    ∃ k, (pread file start (replicate len 0)).drop q ++ file.drop (start + len) =
      file.drop (start + q) ++ replicate k 0 := by
  have hread : ((file.drop start).take len).drop q = (file.drop (start + q)).take (len - q) := by
    rw [drop_take, drop_drop]
  simp only [pread, length_replicate, drop_append, hread, drop_replicate]
  by_cases hlen : file.length ≤ start + len
  · -- the window reaches the end of the file
    have hshort : (file.drop (start + q)).length ≤ len - q := by
      rw [length_drop]; omega
    rw [take_of_length_le hshort, drop_eq_nil_of_le hlen, append_nil]
    exact ⟨_, rfl⟩
  · have hfull : ((file.drop start).take len).length = len := by
      rw [length_take, length_drop]; omega
    have hrest : file.drop (start + len) = (file.drop (start + q)).drop (len - q) := by
      rw [drop_drop]; congr 1; omega
    refine ⟨0, ?_⟩
    rw [hfull, Nat.sub_self, Nat.zero_sub, replicate_zero, append_nil, hrest,
      take_append_drop, append_nil]

theorem pwrite_window {start stop : ℕ} (h : off ≤ file.length) (data : Bytes)
    (hlo : start ≤ off) (hhi : off + data.length ≤ stop) :
    ∃ k, pwrite file start (pwrite (pread file start (replicate (stop - start) 0)) (off - start)
        data) = file.take off ++ (data ++ (file.drop (off + data.length) ++ replicate k 0)) := by
  obtain ⟨k, hk⟩ := pread_drop_append file start (stop - start) (off - start + data.length) (by omega)
  set buf := pread file start (replicate (stop - start) 0) with hbuf
  have hlen : buf.length = stop - start := by
    simp only [hbuf, pread, length_append, length_take, length_drop, length_replicate]
    omega
  have htake : file.take start ++ buf.take (off - start) = file.take off := by
    have hin : off - start ≤ ((file.drop start).take (stop - start)).length := by
      rw [length_take, length_drop]; omega
    have hb : buf.take (off - start) = (file.drop start).take (off - start) := by
      simp only [hbuf, pread, length_replicate]
      rw [take_append_of_le_length hin, take_take, Nat.min_eq_left (by omega)]
    rw [hb, ← take_add, Nat.add_sub_cancel' hlo]
  have hfull : (buf.take (off - start) ++ (data ++ buf.drop (off - start + data.length))).length =
    stop - start := by
    simp only [length_append, length_take, length_drop]; omega
  have hrest : start + (off - start + data.length) = off + data.length := by omega
  rw [hrest] at hk
  refine ⟨k, ?_⟩
  have hoff : off - start ≤ buf.length := by omega
  rw [pwrite_eq hoff, pwrite_eq (by omega), hfull, ← htake, ← hk]
  simp only [append_assoc]

/-- **A write changes the bytes it covers**, and at most adds zeros at the end. -/
theorem WalBlockAlignment.writeBytes_eq (al : WalBlockAlignment)
    (h : off ≤ file.length) (data : Bytes) :
    ∃ k, al.writeBytes file data off =
      file.take off ++ (data ++ (file.drop (off + data.length) ++ replicate k 0)) := by
  cases al with
  | unaligned => exact ⟨0, by simp [writeBytes, pwrite_eq h]⟩
  | aligned unit hu =>
    obtain ⟨hlo, hhi⟩ := enclosing_units hu off data.length
    unfold writeBytes
    dsimp only
    split
    · exact pwrite_window h data hlo hhi
    · -- the write covers whole units, so the buffer is the data
      rename_i hrmw
      have hwhole : ¬ (off ≠ off / unit * unit ∨ off + data.length ≠
        (off + data.length + unit - 1) / unit * unit) := by
        simpa [planWrite] using hrmw
      simp only [not_or, not_not] at hwhole
      obtain ⟨h1, h2⟩ := hwhole
      refine ⟨0, ?_⟩
      simp only [planWrite]
      rw [← h1, ← h2, Nat.sub_self, Nat.add_sub_cancel_left, pwrite_eq (Nat.zero_le _),
        take_zero, nil_append, Nat.zero_add,
        drop_eq_nil_of_le (by rw [length_replicate]), append_nil, pwrite_eq h]
      simp

/-! ## Content at the start of a file -/

/-- The file is this content and zeros. -/
def Padded (content file : Bytes) : Prop := ∃ k, file = content ++ List.replicate k 0

theorem IsPrefix.writeBytes (h : content <+: file) (al : WalBlockAlignment)
    (data : Bytes) : content ++ data <+: al.writeBytes file data content.length := by
  obtain ⟨rest, rfl⟩ := h
  have hle : content.length ≤ (content ++ rest).length := by simp
  obtain ⟨k, hk⟩ := al.writeBytes_eq hle data
  rw [hk, take_left, ← append_assoc]
  exact prefix_append _ _

theorem Padded.writeBytes (h : Padded content file) (al : WalBlockAlignment)
    (data : Bytes) : Padded (content ++ data) (al.writeBytes file data content.length) := by
  obtain ⟨j, rfl⟩ := h
  have hle : content.length ≤ (content ++ replicate j 0).length := by simp
  obtain ⟨k, hk⟩ := al.writeBytes_eq hle data
  refine ⟨j - data.length + k, ?_⟩
  rw [hk, take_left, drop_append, drop_eq_nil_of_le (by omega), nil_append,
    Nat.add_sub_cancel_left, drop_replicate, append_assoc, replicate_append_replicate]

theorem IsPrefix.writeVectoredAt (h : content <+: file)
    (al : WalBlockAlignment) (bufs : List Bytes) :
    content ++ bufs.flatten <+: al.writeVectoredAt file bufs content.length := by
  induction bufs generalizing content file with
  | nil => simpa [WalBlockAlignment.writeVectoredAt] using h
  | cons buf _ ih =>
    have hw := ih (IsPrefix.writeBytes h al buf)
    rwa [length_append, append_assoc] at hw

theorem Padded.writeVectoredAt (h : Padded content file)
    (al : WalBlockAlignment) (bufs : List Bytes) :
    Padded (content ++ bufs.flatten) (al.writeVectoredAt file bufs content.length) := by
  induction bufs generalizing content file with
  | nil => simpa [WalBlockAlignment.writeVectoredAt] using h
  | cons buf _ ih =>
    have hw := ih (h.writeBytes al buf)
    rwa [length_append, append_assoc] at hw

end CrowDB
