import Mathlib.Logic.Function.Basic
import Decentagram.EclipseMonitor.Keccak256
import Decentagram.Lib.MerklePatricia
import Decentagram.SimpleRlp.Writer

/-! # The Patricia trie

Nodes, what they are hashed as, and `Put`.  The keys come from bytes, so a `Nibble` is at most 15.
-/

namespace Decentagram.Eth.Trie

open Decentagram.Lib Decentagram.Lib.Rlp Decentagram.SimpleRlp
open Decentagram.Lib.MerklePatricia (Nibble)

/-! ## Nibbles -/

namespace NibbleHelper

def fromBytes : Bytes → List Nibble
  | [] => []
  | byte :: bytes =>
    Fin.ofNat 16 (byte >>> 4 &&& 0x0F).toNat :: Fin.ofNat 16 (byte &&& 0x0F).toNat :: fromBytes bytes

/-- The number of nibbles is even, as that of `toPrefixed` is. -/
def toBytes : List Nibble → Bytes
  | high :: low :: nibbles => (UInt8.ofNat high <<< 4 ||| UInt8.ofNat low) :: toBytes nibbles
  | _ => []

def toPrefixed (nibbles : List Nibble) (isLeafNode : Bool) : List Nibble :=
  let leafFlag : Nibble := if isLeafNode then 2 else 0
  if nibbles.length % 2 = 1 then (1 + leafFlag) :: nibbles else (0 + leafFlag) :: 0 :: nibbles

/-- The counter has one byte. -/
def prefixMatchedLen : List Nibble → List Nibble → UInt8
  | nibble1 :: nibbles1, nibble2 :: nibbles2 =>
    if nibble1 = nibble2 then prefixMatchedLen nibbles1 nibbles2 + 1 else 0
  | _, _ => 0

end NibbleHelper

/-! ## Nodes -/

/-- `std::unique_ptr<Node>`. -/
inductive Node where
  | null
  | leaf (path : List Nibble) (value : Bytes)
  | branch (nodeHasValue : Bool) (branches : Nibble → Node) (value : Bytes)
  | extension (path : List Nibble) (next : Node)

namespace Node

def isNull : Node → Bool
  | null => true
  | leaf _ _ => false
  | branch _ _ _ => false
  | extension _ _ => false

/-- `BranchNode()`. -/
def newBranch : Node := branch false (fun _ => null) []

def setBranch (node : Node) (nibble : Nibble) (other : Node) : Node :=
  match node with
  | branch nodeHasValue branches value => branch nodeHasValue (Function.update branches nibble other) value
  | node => node

def setValue (node : Node) (otherValue : Bytes) : Node :=
  match node with
  | branch _ branches _ => branch true branches otherValue
  | node => node

def calcHash (serialized : Bytes) : Bytes := (keccak256 serialized).toList

/-- `ToBytes` of `ToPrefixed`. -/
def pathBytes (path : List Nibble) (isLeafNode : Bool) : Bytes :=
  NibbleHelper.toBytes (NibbleHelper.toPrefixed path isLeafNode)

/-- What stands in a node for one below it: its hash unless it is shorter. -/
def embed (raw : Object) : Object :=
  if calcRlpSize raw ≥ 32 then .bytes (calcHash (writeRlp raw)) else raw

/-- `EmptyNodeRaw` for a null pointer. -/
def raw : Node → Object
  | null => .bytes []
  | leaf path value => .list [.bytes (pathBytes path true), .bytes value]
  | branch _ branches value =>
    .list (List.ofFn (fun i =>
      if (branches i).isNull then .bytes [] else embed (raw (branches i))) ++ [.bytes value])
  | extension path next =>
    .list [.bytes (pathBytes path false), embed (raw next)]

end Node

/-! ## Put -/

namespace PatriciaTrie

def putKeyEmptyNode (nibbles : List Nibble) (value : Bytes) : Node := .leaf nibbles value

/-- Replaces the leaf, or splits it at a branch. -/
def putKeyLeafNode (leafPath : List Nibble) (leafValue : Bytes) (nibbles : List Nibble) (value : Bytes) :
    Node :=
  let matched := (NibbleHelper.prefixMatchedLen nibbles leafPath).toNat
  if matched = nibbles.length ∧ matched = leafPath.length then .leaf leafPath value
  else
    let branch := Node.newBranch
    let branch := if matched = leafPath.length then branch.setValue leafValue else branch
    let branch := if matched = nibbles.length then branch.setValue value else branch
    let branch :=
      match leafPath.drop matched with
      | branchNibble :: leafNibbles => branch.setBranch branchNibble (.leaf leafNibbles leafValue)
      | [] => branch
    let branch :=
      match nibbles.drop matched with
      | branchNibble :: leafNibbles => branch.setBranch branchNibble (.leaf leafNibbles value)
      | [] => branch
    if matched > 0 then .extension (leafPath.take matched) branch else branch

/-- Goes on below the extension, by `putKeyNext`, or splits it at a branch.  `nibbles[matched]` may be out
    of range. -/
def putKeyExtensionNode (putKeyNext : List Nibble → Option Node) (path : List Nibble) (next : Node)
    (nibbles : List Nibble) (value : Bytes) : Option Node :=
  let matched := (NibbleHelper.prefixMatchedLen nibbles path).toNat
  if matched < path.length then
    match path.drop matched, nibbles.drop matched with
    | branchNibble :: remaining, nodeBranchNibble :: nodeLeafNibbles =>
      let nextNode := if remaining = [] then next else .extension remaining next
      let branch := Node.newBranch.setBranch branchNibble nextNode
      let branch := branch.setBranch nodeBranchNibble (.leaf nodeLeafNibbles value)
      some (if matched = 0 then branch else .extension (path.take matched) branch)
    | _, _ => none
  else (putKeyNext (nibbles.drop matched)).map (.extension path)

def putKey (value : Bytes) : Node → List Nibble → Option Node
  | .null, nibbles => some (putKeyEmptyNode nibbles value)
  | .leaf path leafValue, nibbles => some (putKeyLeafNode path leafValue nibbles value)
  | .branch _ branches _, [] => some (.branch true branches value)
  | .branch nodeHasValue branches branchValue, branchNibble :: remaining => do
    let branchNode ← putKey value (branches branchNibble) remaining
    some (.branch nodeHasValue (Function.update branches branchNibble branchNode) branchValue)
  | .extension path next, nibbles => putKeyExtensionNode (putKey value next) path next nibbles value

def put (root : Node) (keyRlp value : Bytes) : Option Node :=
  putKey value root (NibbleHelper.fromBytes keyRlp)

/-- A run of `Put`s, each of a key and a value. -/
def putAll (root : Node) : List (Bytes × Bytes) → Option Node
  | [] => some root
  | (keyRlp, value) :: puts => do
    let root ← put root keyRlp value
    putAll root puts

def emptyNodeHash : Bytes :=
  [0x56, 0xe8, 0x1f, 0x17, 0x1b, 0xcc, 0x55, 0xa6, 0xff, 0x83, 0x45, 0xe6, 0x92, 0xc0, 0xf8, 0x6e,
   0x5b, 0x48, 0xe0, 0x1b, 0x99, 0x6c, 0xad, 0xc0, 0x01, 0x62, 0x2f, 0xb5, 0xe3, 0x63, 0xb4, 0x21]

def hash (root : Node) : Bytes :=
  if root.isNull then emptyNodeHash else Node.calcHash (writeRlp root.raw)

end PatriciaTrie

end Decentagram.Eth.Trie
