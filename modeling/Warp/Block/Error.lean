import Mathlib.Data.Nat.Notation

/-! # Block device errors

The errors of the block device gateway and the codes that a client of the network block
device protocol gets for them.
-/

namespace Warp.Block

inductive IoErrorKind where
  | notFound
  | permissionDenied
  | outOfMemory
  | invalidInput
  | unexpectedEof
  | other (text : String)
deriving DecidableEq

inductive BlockError where
  | io (kind : IoErrorKind)
  | protocol (text : String)
  | volumeNotFound (text : String)
  | poolNotFound (text : String)
  | snapshotNotFound (text : String)
  | outOfSpace
  | invalidOffset (offset size : ℕ)
  | invalidLength (length : ℕ)
  | readOnly
  | volumeBusy (clients : ℕ)
  | snapshotHasChildren
  | invalidState (expected found : String)
  | store (text : String)
  | unsupported (text : String)
deriving DecidableEq

inductive NbdError where
  | ok
  | perm
  | io
  | noMem
  | inval
  | noSpc
  | notSup
  | noSuchDevice
  | rofs
  | shutdown
deriving DecidableEq

def NbdError.code : NbdError → ℕ
  | ok => 0
  | perm => 1
  | io => 5
  | noMem => 12
  | inval => 22
  | noSpc => 28
  | notSup => 95
  | noSuchDevice => 19
  | rofs => 30
  | shutdown => 108

def BlockError.toNbdError : BlockError → NbdError
  | io .notFound => .noSuchDevice
  | io .permissionDenied => .perm
  | io .outOfMemory => .noMem
  | io .invalidInput => .inval
  | io _ => .io
  | volumeNotFound _ => .noSuchDevice
  | outOfSpace => .noSpc
  | invalidOffset _ _ => .inval
  | invalidLength _ => .inval
  | readOnly => .rofs
  | unsupported _ => .notSup
  | _ => .io

/-- The hexadecimal digits of a number, with zeros in front up to a width. -/
def paddedHex (width value : ℕ) : String :=
  let digits := Nat.toDigits 16 value
  String.ofList (List.replicate (width - digits.length) '0' ++ digits)

end Warp.Block
