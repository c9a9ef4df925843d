import Decentagram.EclipseMonitor.DataTypes

namespace Decentagram.Eth

/-- The fields of `Rlp::EthHeader` that the monitor reads. -/
structure RawHeader where
  parentHash : Bytes
  sha3Uncles : Bytes
  receiptsRoot : Bytes
  logsBloom : Bytes
  difficulty : Bytes
  number : Bytes
  timestamp : Bytes
deriving DecidableEq, Repr

/-- The vendored functions a header is built with: `EthHeaderParser().Parse` and `Keccak256`. -/
structure HeaderCodec where
  parse : Bytes → Except Exception RawHeader
  keccak256 : Bytes → Hash

structure HeaderMgr where
  rawHeader : RawHeader
  trustedTime : TrustedTimestamp
  hash : Hash
  blkNum : BlockNumber
  time : Timestamp
  diff : Difficulty
  hasUncle : Bool
deriving DecidableEq, Repr

namespace HeaderMgr

def bloomByteSize : Nat := 256

def emptyUncleHash : Bytes :=
  [0x1D, 0xCC, 0x4D, 0xE8, 0xDE, 0xC7, 0x5D, 0x7A, 0xAB, 0x85,
   0xB5, 0x67, 0xB6, 0xCC, 0xD4, 0x1A, 0xD3, 0x12, 0x45, 0x1B,
   0x94, 0x8A, 0x74, 0x13, 0xF0, 0xA1, 0x42, 0xFD, 0x40, 0xD4,
   0x93, 0x47]

/-- `m_hashObj`, the key under which the look-up maps store a header. -/
def hashObj (header : HeaderMgr) : Bytes := header.hash.toList

/-- The default constructor: an empty header with a bloom of zeros. -/
def init : HeaderMgr where
  rawHeader := {
    parentHash := []
    sha3Uncles := []
    receiptsRoot := []
    logsBloom := List.replicate bloomByteSize 0
    difficulty := []
    number := []
    timestamp := [] }
  trustedTime := 0
  hash := Vector.replicate 32 0
  blkNum := 0
  time := 0
  diff := 0
  hasUncle := false

def setNumber (header : HeaderMgr) (blkNum : BlockNumber) : HeaderMgr :=
  { header with rawHeader := { header.rawHeader with number := toBytes blkNum }, blkNum }

def setTime (header : HeaderMgr) (time : Timestamp) : HeaderMgr :=
  { header with rawHeader := { header.rawHeader with timestamp := toBytes time }, time }

/-- The constructor from a header's binary; the members are initialised in their declared order. -/
def ofBinary (codec : HeaderCodec) (rawBinary : Bytes) (trustedTime : TrustedTimestamp) :
    Except Exception HeaderMgr := do
  let rawHeader ← codec.parse rawBinary
  if rawHeader.logsBloom.length ≠ bloomByteSize then
    .error "Invalid bloom bytes size"
  let blkNum ← fromBytes rawHeader.number
  let time ← fromBytes rawHeader.timestamp
  let diff ← fromBytes rawHeader.difficulty
  return {
    rawHeader
    trustedTime
    hash := codec.keccak256 rawBinary
    blkNum
    time
    diff
    hasUncle := rawHeader.sha3Uncles ≠ emptyUncleHash
  }

end HeaderMgr

end Decentagram.Eth
