import Mathlib.Data.List.GetD
import Warp.Foundation.Bytes

/-! # The archive header

A header is 256 bytes: the magic bytes, fields of fixed width at fixed positions, and
reserved zeros. A header that passes its own validation is read back from its bytes
as it was written (`Header.fromBytes_toBytes`).
-/

namespace Warp.Format

open Bytes

inductive FormatError where
  | invalidMagic
  | unsupportedVersion (version : UInt32)
  | corrupted (message : String)
  | io (message : String)
  | serialization (message : String)
  | compression (message : String)
  deriving DecidableEq

abbrev ChunkHash := Vector UInt8 32

section Fields

def u64Bytes (value : UInt64) : Bytes := Bytes.leBytes 8 value.toNat

def u32Bytes (value : UInt32) : Bytes := Bytes.leBytes 4 value.toNat

def u64At (bytes : Bytes) (start : ℕ) : UInt64 :=
  UInt64.ofNat (Bytes.leValue (Bytes.slice bytes start (start + 8)))

def u32At (bytes : Bytes) (start : ℕ) : UInt32 :=
  UInt32.ofNat (Bytes.leValue (Bytes.slice bytes start (start + 4)))

def vectorAt (length : ℕ) (bytes : Bytes) (start : ℕ) : Vector UInt8 length :=
  Bytes.toVector length (Bytes.slice bytes start (start + length))

variable (value : UInt64)

@[simp] theorem length_u64Bytes : (u64Bytes value).length = 8 :=
  length_leBytes _ _

@[simp] theorem length_u32Bytes (value : UInt32) : (u32Bytes value).length = 4 :=
  length_leBytes _ _

variable {front : Bytes} {start : ℕ} {length : ℕ}

theorem u64At_append (back : Bytes) :
    u64At (u64Bytes value ++ back) 0 = value := by
  rw [u64At, slice_append_self _ _ (length_u64Bytes value).symm, u64Bytes,
    leValue_leBytes 8 _ value.toNat_lt]
  exact UInt64.ofNat_toNat

theorem u32At_append (value : UInt32) (back : Bytes) :
    u32At (u32Bytes value ++ back) 0 = value := by
  rw [u32At, slice_append_self _ _ (length_u32Bytes value).symm, u32Bytes,
    leValue_leBytes 4 _ value.toNat_lt]
  exact UInt32.ofNat_toNat

theorem vectorAt_append (vector : Vector UInt8 length) (back : Bytes) :
    vectorAt length (vector.toList ++ back) 0 = vector := by
  rw [vectorAt, slice_append_self _ _ (by simp), toVector_toList]

variable (back : Bytes) (skipped : front.length ≤ start)
include skipped

theorem u64At_skip : u64At (front ++ back) start = u64At back (start - front.length) := by
  rw [u64At, slice_append_skip back skipped, Nat.sub_add_comm skipped, u64At]

theorem u32At_skip : u32At (front ++ back) start = u32At back (start - front.length) := by
  rw [u32At, slice_append_skip back skipped, Nat.sub_add_comm skipped, u32At]

theorem vectorAt_skip :
    vectorAt length (front ++ back) start = vectorAt length back (start - front.length) := by
  rw [vectorAt, slice_append_skip back skipped, Nat.sub_add_comm skipped, vectorAt]

theorem getD_skip : (front ++ back).getD start 0 = back.getD (start - front.length) 0 :=
  List.getD_append_right _ _ _ _ skipped

end Fields

inductive Compression where
  | none
  | zstd
  | lz4
  deriving DecidableEq

inductive Encryption where
  | none
  | chaCha20Poly1305
  deriving DecidableEq

def Compression.code : Compression → UInt8
  | .none => 0
  | .zstd => 1
  | .lz4 => 2

def Compression.ofCode (code : UInt8) : Except FormatError Compression :=
  if code = 0 then .ok .none
  else if code = 1 then .ok .zstd
  else if code = 2 then .ok .lz4
  else .error (.corrupted "Invalid compression")

def Encryption.code : Encryption → UInt8
  | .none => 0
  | .chaCha20Poly1305 => 1

def Encryption.ofCode (code : UInt8) : Except FormatError Encryption :=
  if code = 0 then .ok .none
  else if code = 1 then .ok .chaCha20Poly1305
  else .error (.corrupted "Invalid encryption")

@[simp] theorem Compression.ofCode_code (compression : Compression) :
    Compression.ofCode compression.code = .ok compression := by
  cases compression <;> rfl

@[simp] theorem Encryption.ofCode_code (encryption : Encryption) :
    Encryption.ofCode encryption.code = .ok encryption := by
  cases encryption <;> rfl

@[ext]
structure Header where
  magic : Vector UInt8 4
  version : UInt32
  flags : UInt64
  chunkSizeHint : UInt32
  compression : Compression
  encryption : Encryption
  metadataOffset : UInt64
  metadataSize : UInt64
  indexOffset : UInt64
  indexSize : UInt64
  fileTableOffset : UInt64
  fileTableSize : UInt64
  dataOffset : UInt64
  merkleRoot : ChunkHash
  totalChunks : UInt64
  totalFiles : UInt64
  originalSize : UInt64
  compressedSize : UInt64
  salt : Vector UInt8 16

namespace Header

def MAGIC : Vector UInt8 4 := #v[0x57, 0x41, 0x52, 0x50]

def VERSION : UInt32 := 1

def HEADER_SIZE : ℕ := 256

def ENCRYPTED : UInt64 := 1

def new : Header where
  magic := MAGIC
  version := VERSION
  flags := 0
  chunkSizeHint := 4 * 1024 * 1024
  compression := .zstd
  encryption := .none
  metadataOffset := 0
  metadataSize := 0
  indexOffset := 0
  indexSize := 0
  fileTableOffset := 0
  fileTableSize := 0
  dataOffset := 0
  merkleRoot := Vector.replicate 32 0
  totalChunks := 0
  totalFiles := 0
  originalSize := 0
  compressedSize := 0
  salt := Vector.replicate 16 0

def validate (header : Header) : Except FormatError Unit :=
  if header.magic ≠ MAGIC then .error .invalidMagic
  else if header.version > VERSION then .error (.unsupportedVersion header.version)
  else .ok ()

/-- Serialize header to bytes: the fields in the order of their positions, with zeros
where bytes are reserved. -/
def toBytes (header : Header) : Bytes :=
  header.magic.toList ++ (u32Bytes header.version ++ (u64Bytes header.flags ++
  (u32Bytes header.chunkSizeHint ++
  ([header.compression.code, header.encryption.code, 0, 0] ++
  (u64Bytes header.metadataOffset ++ (u64Bytes header.metadataSize ++
  (u64Bytes header.indexOffset ++ (u64Bytes header.indexSize ++
  (u64Bytes header.fileTableOffset ++ (u64Bytes header.fileTableSize ++
  (u64Bytes header.dataOffset ++ (header.merkleRoot.toList ++
  (u64Bytes header.totalChunks ++ (u64Bytes header.totalFiles ++
  (u64Bytes header.originalSize ++ (u64Bytes header.compressedSize ++
  (header.salt.toList ++ List.replicate 96 0)))))))))))))))))

def fromBytes (buf : Bytes) : Except FormatError Header := do
  let compression ← Compression.ofCode (buf.getD 20 0)
  let encryption ← Encryption.ofCode (buf.getD 21 0)
  let header : Header :=
    { magic := vectorAt 4 buf 0
      version := u32At buf 4
      flags := u64At buf 8
      chunkSizeHint := u32At buf 16
      compression
      encryption
      metadataOffset := u64At buf 24
      metadataSize := u64At buf 32
      indexOffset := u64At buf 40
      indexSize := u64At buf 48
      fileTableOffset := u64At buf 56
      fileTableSize := u64At buf 64
      dataOffset := u64At buf 72
      merkleRoot := vectorAt 32 buf 80
      totalChunks := u64At buf 112
      totalFiles := u64At buf 120
      originalSize := u64At buf 128
      compressedSize := u64At buf 136
      salt := vectorAt 16 buf 144 }
  header.validate
  return header

variable (header : Header)

@[simp] theorem length_toBytes : header.toBytes.length = HEADER_SIZE := by
  simp [toBytes, HEADER_SIZE]

theorem fromBytes_toBytes (valid : header.validate = .ok ()) :
    fromBytes header.toBytes = .ok header := by
  unfold fromBytes toBytes
  simp (disch := simp) only [u64At_skip, u32At_skip, vectorAt_skip, getD_skip, u64At_append,
    u32At_append, vectorAt_append, length_u64Bytes, length_u32Bytes, Vector.length_toList,
    List.length_cons, List.length_nil, Nat.reduceAdd, Nat.reduceSub, List.getD_append,
    List.getD_cons_zero, List.getD_cons_succ, Compression.ofCode_code, Encryption.ofCode_code]
  change (header.validate >>= fun _ => pure header) = _
  rw [valid]
  rfl

end Header

end Warp.Format
