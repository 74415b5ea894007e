import NilStore.Core.Payload
import NilStore.Lib.Binary64

/-!
# `NilStore.Core.Mdu0`: the builder of MDU #0

`nil_core/src/builder.rs`, as far as the roots of a slab go. The builder keeps a table of 65536
roots and counts the witness MDUs. The count comes from `max_user_mdus` and the commitments of each
MDU, through a division of floats by the size of an encoded MDU. Products wrap around, as in a
release build.
-/

set_option autoImplicit false

namespace NilStore.Core

open NilStore.Lib

/-- `ROOT_TABLE_START`. The table of the roots is at the beginning of the MDU. -/
def rootTableStart : UInt64 := 0

/-- `ROOT_TABLE_END`: 16 blobs. -/
def rootTableEnd : UInt64 := 2097152

/-- `ROOT_SIZE`. -/
def rootSize : UInt64 := 32

/-- `FILE_TABLE_START`. The file table follows the table of the roots. -/
def fileTableStart : Nat := 2097152

/-- `copy_from_slice` into a buffer, at an offset. The length of the buffer does not change where
there is room. -/
def copyFromSlice (buffer : Bytes) (offset : Nat) (bytes : Bytes) : Bytes :=
  buffer.take offset ++ bytes ++ buffer.drop (offset + bytes.length)

/-- The header of an empty file table, as `FileTableHeader::to_bytes` writes it: magic `NILF`,
version 1, a byte of padding, the record size 64 and the record count 0 in little-endian, and 116
bytes reserved. -/
def emptyFileTableHeader : Bytes :=
  [0x4e, 0x49, 0x4c, 0x46, 1, 0, 64, 0, 0, 0, 0, 0] ++ List.replicate 116 0

/-- `Mdu0Builder`. The source has the header of the file table as a field too. -/
structure Mdu0Builder where
  buffer : Bytes
  witnessMduCount : UInt64
  maxUserMdus : UInt64
  commitmentsPerMdu : UInt64

/-- The commitments that the builder counts for each MDU: 64, if the caller has none. -/
def effectiveCommitments (commitmentsPerMdu : UInt64) : UInt64 :=
  if commitmentsPerMdu = 0 then 64 else commitmentsPerMdu

/-- `(total_commitment_bytes / MDU_SIZE as f64).ceil() as u64`. -/
def witnessMduCountOf (maxUserMdus commitmentsPerMdu : UInt64) : UInt64 :=
  let totalCommitmentBytes := maxUserMdus * effectiveCommitments commitmentsPerMdu * 48
  UInt64.ofNat (ceilDivPow2 (toBinary64 totalCommitmentBytes.toNat) 23)

/-- `Mdu0Builder::new_with_commitments`. All roots are zero, and there is no record. -/
def Mdu0Builder.newWithCommitments (maxUserMdus commitmentsPerMdu : UInt64) : Mdu0Builder where
  buffer := copyFromSlice (List.replicate mduSize 0) fileTableStart emptyFileTableHeader
  witnessMduCount := witnessMduCountOf maxUserMdus commitmentsPerMdu
  maxUserMdus := maxUserMdus
  commitmentsPerMdu := effectiveCommitments commitmentsPerMdu

example : (Mdu0Builder.newWithCommitments 65536 64).witnessMduCount = 24 := by decide +kernel

/-- `Mdu0Builder::set_root`. The sum is computed with 64 bits. -/
def Mdu0Builder.setRoot (b : Mdu0Builder) (index : UInt64) (root : Bytes) :
    Except String Mdu0Builder :=
  let offset := rootTableStart + index * rootSize
  if offset + rootSize > rootTableEnd then .error "root index out of bounds"
  else .ok { b with buffer := copyFromSlice b.buffer offset.toNat root }

end NilStore.Core
