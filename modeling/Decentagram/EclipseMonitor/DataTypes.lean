/-! # Data types of the eclipse monitor

Fixed-width integers of the source keep their width, `std::array<uint8_t, N>` is a `Vector`, and
`Bytes` is a byte string of any length.
-/

namespace Decentagram.Eth

abbrev Bytes := List UInt8

/-- The text of the exception. -/
abbrev Exception := String

abbrev BlockNumber := UInt64
abbrev Timestamp := UInt64
abbrev Difficulty := UInt64
abbrev TrustedTimestamp := UInt64

abbrev Hash := Vector UInt8 32
abbrev ContractAddr := Vector UInt8 20
abbrev EventTopic := Vector UInt8 32
abbrev SessionID := Vector UInt8 16
abbrev SyncNonce := Vector UInt8 32

instance : LawfulBEq Hash := inferInstanceAs (LawfulBEq (Vector UInt8 32))

structure MonitorConfig where
  checkpointSize : UInt64
  minDiffPercent : UInt8
  maxWaitTime : UInt64
  syncMaxWaitTime : UInt64
deriving DecidableEq, Repr

structure MonitorSecState where
  genesisHash : Bytes
  checkpointIter : UInt64
  checkpointHash : Bytes
  checkpointNum : Bytes
deriving DecidableEq, Repr

inductive Phases where
  | bootstrapI
  | bootstrapII
  | sync
  | runtime
deriving DecidableEq, Repr

/-- The loop of `ParsePrimitiveIntValue`: each byte is shifted to its place and or-ed in. -/
def parseIntLoop : Bytes → UInt64 → UInt64
  | [], result => result
  | value :: rest, result =>
    parseIntLoop rest (result ||| (value.toUInt64 <<< UInt64.ofNat (rest.length * 8)))

/-- `PrimitiveTypeTrait<uint64_t>::FromBytes`. -/
def fromBytes (bytes : Bytes) : Except Exception UInt64 :=
  if bytes.length > 8 then
    .error "The given byte size is larger than the target int type"
  else
    .ok (parseIntLoop bytes 0)

/-- The byte of `value` that the encoder writes with `i` more bytes to come. -/
def byteAt (value : UInt64) (i : Nat) : UInt8 := (value >>> UInt64.ofNat (i * 8)).toUInt8

/-- `PrimitiveTypeTrait<uint64_t>::ToBytes`: big endian, without leading zero bytes. -/
def toBytes (value : UInt64) : Bytes :=
  ((List.range 8).reverse.map (byteAt value)).dropWhile (· = 0)

end Decentagram.Eth
