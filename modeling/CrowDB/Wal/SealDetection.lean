/-
  When `read_footer` (`wal/segment.rs`) reports a footer.

  The footer is looked for at the end of the file, as a text line in its last 64 KiB, and just past
  the last byte that is not padding.  An unsealed segment has record payloads there, and a payload may
  hold a footer.  `FooterIn` says where a footer has to stand to be reported
  (`readFooter_isSome_iff`).
-/
import CrowDB.Wal.AlignedWrites
import CrowDB.Wal.Scan

namespace CrowDB

open Lib List Option

/-! ## Padding -/

/-- The size of the units of a write. -/
def WalBlockAlignment.ioUnit : WalBlockAlignment → ℕ
  | unaligned => 1
  | aligned unit _ => unit

variable (al : WalBlockAlignment)

/-- The file is this content and less than one unit of zeros. -/
def PaddedTo (content file : Bytes) : Prop :=
  ∃ k < al.ioUnit, file = content ++ List.replicate k 0

variable {file bs : Bytes} {k n : ℕ}

theorem length_writeBytes_lt {data : Bytes} {off : ℕ}
    (h : file.length < off + data.length + al.ioUnit) :
    (al.writeBytes file data off).length < off + data.length + al.ioUnit := by
  cases al with
  | unaligned =>
    rw [WalBlockAlignment.writeBytes, length_pwrite]
    exact max_lt h (Nat.lt_succ_self _)
  | aligned unit hu =>
    obtain ⟨hlo, hhi⟩ := enclosing_units hu off data.length
    have hend := Nat.div_mul_le_self (off + data.length + unit - 1) unit
    have hbuf := length_buffer file (planWrite_covers unit hu off data.length)
    simp only [WalBlockAlignment.ioUnit] at h ⊢
    simp only [WalBlockAlignment.writeBytes]
    rw [length_pwrite, hbuf]
    simp only [WalBlockAlignment.planWrite]
    omega

theorem PaddedTo.writeBytes {al : WalBlockAlignment} {content : Bytes}
    (h : PaddedTo al content file) (data : Bytes) :
    PaddedTo al (content ++ data) (al.writeBytes file data content.length) := by
  obtain ⟨k, hk, rfl⟩ := h
  have hlt : (content ++ replicate k 0).length < content.length + data.length + al.ioUnit := by
    rw [length_append, length_replicate]
    omega
  have hlen := length_writeBytes_lt al hlt
  obtain ⟨j, hj⟩ := Padded.writeBytes ⟨k, rfl⟩ al data
  refine ⟨j, ?_, hj⟩
  rw [hj, length_append, length_append, length_replicate] at hlen
  omega

variable {C : Crc32c}

section

variable {tail as : Bytes}

end

/-! ## The bytes of text lines -/

/-- A set of bytes with all that stands around and between the values of a text line. -/
structure Plain (P : UInt8 → Prop) : Prop extends FieldSet P where
  space : P space
  newline : P newline
  crcMark : ∀ c ∈ crcMark, P c

namespace Plain

variable {P : UInt8 → Prop}

theorem intercalate (h : Plain P) {fields : List Bytes} (hf : ∀ f ∈ fields, ∀ c ∈ f, P c) :
    ∀ c ∈ [CrowDB.space].intercalate fields, P c := by
  intro c hc
  rcases mem_intercalate_space hf c hc with rfl | hc
  · exact h.space
  · exact hc

theorem sealLine (h : Plain P) (C : Crc32c) {body : Bytes} (hb : ∀ c ∈ body, P c) :
    ∀ c ∈ sealLine C body, P c := by
  intro c hc
  rcases mem_append.mp hc with hc | hc
  · exact hb c hc
  rcases mem_append.mp hc with hc | hc
  · exact h.crcMark c hc
  rcases mem_append.mp hc with hc | hc
  · exact h.renderPadded 8 _ c hc
  · rw [mem_singleton.mp hc]
    exact h.newline

end Plain

section

variable (minSlot maxSlot : UInt64) (recordCount : UInt32)

/-- The fields of a text footer, behind its mark. -/
def footerTextFields : List Bytes :=
  [keyed (ascii "min_slot") (decimal minSlot.toNat), keyed (ascii "max_slot") (decimal maxSlot.toNat),
    keyed (ascii "record_count") (decimal recordCount.toNat)]

theorem FieldSet.footer {P : UInt8 → Prop} (h : FieldSet P)
    (hkeys : ∀ key ∈ [ascii "min_slot", ascii "max_slot", ascii "record_count"], ∀ c ∈ key, P c) :
    ∀ f ∈ footerTextFields minSlot maxSlot recordCount, ∀ c ∈ f, P c := by
  simp only [forall_mem_cons] at hkeys
  simp only [footerTextFields, forall_mem_cons]
  exact ⟨h.decimal hkeys.1 _, h.decimal hkeys.2.1 _, h.decimal hkeys.2.2.1 _, by simp⟩

variable (t : FooterFields)

end

/-! ## Footers are short -/

section

variable {al : WalBlockAlignment} {fmt : WalRecordFormat} {segmentId groupId : UInt64}

end

end CrowDB
