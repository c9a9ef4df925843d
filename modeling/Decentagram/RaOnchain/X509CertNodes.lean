import Decentagram.Lib.Exec
import Decentagram.RaOnchain.Asn1Decode
import Mathlib.Logic.Function.Basic

/-! # The nodes of a certificate

`X509CertNodes` finds the parts of a certificate, and the loops of `X509Extension` and `X509Name` scan
two kinds of them.  Every step from a node to its next sibling is recorded.  The rounds of a loop are
paid for with gas, so that a loop without end is undone.
-/

namespace Decentagram.RaOnchain

open Decentagram.Lib Asn1Decode BytesUtils

/-- A byte string in memory, whose length is a 64-bit number. -/
structure MemoryBytes where
  data : Bytes
  fits : data.length < 2 ^ 64

structure SiblingStep where
  node : Nat
  next : Nat
deriving DecidableEq, Repr

/-- Why a transaction is undone. -/
inductive Halt where
  | reverted (revert : Revert)
  | outOfGas
deriving DecidableEq, Repr

/-- Code that steps from sibling to sibling. -/
abbrev Reader := Exec Halt (List SiblingStep)

/-- A call of code without steps. -/
def read {α : Type} (result : Except Revert α) : Reader α :=
  Exec.ofExcept (result.mapError Halt.reverted)

/-- `nextSiblingOf`, which is recorded. -/
def siblingOf (certDer : Bytes) (ptr : Nat) : Reader Nat := do
  let next ← read (nextSiblingOf certDer ptr)
  Exec.modify fun steps => steps ++ [{ node := ptr, next }]
  return next

section Rules

variable {α : Type} {log : List SiblingStep} {raises : Halt → List SiblingStep → Prop}

@[simp] theorem sat_read (result : Except Revert α) (returns : α → List SiblingStep → Prop) :
    Exec.Sat (read result) log returns raises ↔ (∀ value, result = .ok value → returns value log) ∧
      ∀ error, result = .error error → raises (.reverted error) log := by
  cases result <;> simp [read, Except.mapError]

@[simp] theorem sat_siblingOf (certDer : Bytes) (ptr : Nat) (returns : Nat → List SiblingStep → Prop) :
    Exec.Sat (siblingOf certDer ptr) log returns raises ↔
      (∀ next, nextSiblingOf certDer ptr = .ok next → returns next (log ++ [{ node := ptr, next }])) ∧
        ∀ error, nextSiblingOf certDer ptr = .error error → raises (.reverted error) log := by
  simp [siblingOf]

end Rules

/-! ## `X509CertNodes` -/

structure CertTbsNodesObj where
  root : Nat
  version : Nat
  serialNode : Nat
  algTypeNode : Nat
  issuerNode : Nat
  validityNode : Nat
  subjectNode : Nat
  pubKeyNode : Nat
  extNode : Nat
deriving DecidableEq, Repr

structure CertNodesObj where
  root : Nat
  tbs : CertTbsNodesObj
  algTypeNode : Nat
  sigNode : Nat
deriving DecidableEq, Repr

/-- The version of a certificate, which stands first in `tbsCertificate`. -/
def loadVersion (certDer : Bytes) (tbsRoot : Nat) : Except Revert (Nat × Nat) := do
  let verNode ← firstChildOf certDer tbsRoot
  require ((← byteAt certDer (NodePtr.ixs verNode)) = 0xa0) "invalid cert ver node"
  let verValNode ← firstChildOf certDer verNode
  let ver ← uintAt certDer verValNode
  require (ver = 2) "cert ver must be 2"
  return (verNode, ver)

def loadTbsNodes (certDer : Bytes) (tbsRoot : Nat) : Reader CertTbsNodesObj := do
  let (verNode, ver) ← read (loadVersion certDer tbsRoot)
  let serialNode ← siblingOf certDer verNode
  let algTypeNode ← siblingOf certDer serialNode
  let issuerNode ← siblingOf certDer algTypeNode
  let validityNode ← siblingOf certDer issuerNode
  let subjectNode ← siblingOf certDer validityNode
  let pubKeyNode ← siblingOf certDer subjectNode
  let extNode ← siblingOf certDer pubKeyNode
  return {
    root := tbsRoot
    version := ver % 2 ^ 8
    serialNode
    algTypeNode
    issuerNode
    validityNode
    subjectNode
    pubKeyNode
    extNode }

def loadCertNodes (certDer : Bytes) : Reader CertNodesObj := do
  let root ← read (Asn1Decode.root certDer)
  let tbsNode ← read (firstChildOf certDer root)
  let tbs ← loadTbsNodes certDer tbsNode
  let algTypeNode ← siblingOf certDer tbs.root
  let sigNode ← siblingOf certDer algTypeNode
  return { root, tbs, algTypeNode, sigNode }

/-- The loop from sibling to sibling that both scanners have. -/
def siblingLoop {σ : Type} (certDer : Bytes) (endNode : Nat) (round : Nat → σ → Reader σ) :
    Nat → Nat → σ → Reader σ
  | 0, _, _ => Exec.throw .outOfGas
  | gas + 1, node, state =>
    if node < endNode then do
      let state ← round node state
      let node ← siblingOf certDer node
      siblingLoop certDer endNode round gas node state
    else return state

/-! ## `X509Extension` -/

structure ExtEntry where
  isParsed : Bool
  extnID : Bytes32
  isCritical : Bool
  extnValue : Bytes
deriving DecidableEq, Repr

/-- The index of the first entry with the ID, or the number of entries. -/
def findIdxOfExtEntry (extnID : Bytes32) (extEntries : List ExtEntry) : Nat :=
  extEntries.findIdx fun entry => entry.extnID = extnID

def extractOneExtension (certDer : Bytes) (extnIDNode : Nat) (extEntry : ExtEntry) :
    Reader ExtEntry := do
  Exec.throwIf extEntry.isParsed (.reverted (.reason "duplicated ext entry"))
  let nextNode ← siblingOf certDer extnIDNode
  if (← read (byteAt certDer (NodePtr.ixs nextNode))) = 0x01 then do
    let isCritical := (← read (byteAt certDer (NodePtr.ixf nextNode))) ≠ 0x00
    let valueNode ← siblingOf certDer nextNode
    let extnValue ← read (bytesAt certDer valueNode)
    return { extEntry with isCritical, extnValue, isParsed := true }
  else do
    let extnValue ← read (bytesAt certDer nextNode)
    return { extEntry with extnValue, isParsed := true }

/-- One extension, if its entry is needed. -/
def extractIfNeeded (certDer : Bytes) (extNode : Nat) (extEntries : List ExtEntry) :
    Reader (List ExtEntry) := do
  let extnIDNode ← read (firstChildOf certDer extNode)
  let extnID ← read (bytes32At certDer extnIDNode)
  match extEntries[findIdxOfExtEntry extnID extEntries]? with
  | some entry => do
    let parsed ← extractOneExtension certDer extnIDNode entry
    return extEntries.set (findIdxOfExtEntry extnID extEntries) parsed
  | none => return extEntries

def extractNeededExtensions (certDer : Bytes) (extNode endNode : Nat) (extEntries : List ExtEntry)
    (gas : Nat) : Reader (List ExtEntry) := do
  let extsNode ← read (firstChildOf certDer extNode)
  let extNode ← read (firstChildOf certDer extsNode)
  siblingLoop certDer endNode (extractIfNeeded certDer) gas extNode extEntries

/-! ## `X509Name` -/

inductive NameField where
  | cn
  | country
  | local
  | state
  | org
  | orgUnit
deriving DecidableEq, Repr

/-- The OID of a field, the highest bytes of the word. -/
def NameField.oid : NameField → Bytes32
  | .cn => 0x550403#256 <<< 232
  | .country => 0x550406#256 <<< 232
  | .local => 0x550407#256 <<< 232
  | .state => 0x550408#256 <<< 232
  | .org => 0x55040A#256 <<< 232
  | .orgUnit => 0x55040B#256 <<< 232

def nameFields : List NameField := [.cn, .country, .local, .state, .org, .orgUnit]

abbrev CertNameObj := NameField → Bytes

/-- One relative distinguished name; `reads` tells which fields are to be read. -/
def loadRelDistName (certDer : Bytes) (reads : NameField → Bool) (relDistNameNode : Nat)
    (name : CertNameObj) : Reader CertNameObj := do
  let oidNode ← read (firstChildOf certDer relDistNameNode)
  let oidNode ← read (firstChildOf certDer oidNode)
  let oid ← read (bytes32At certDer oidNode)
  match nameFields.find? fun field => reads field ∧ oid = field.oid with
  | some field => do
    let valueNode ← siblingOf certDer oidNode
    let value ← read (stringAt certDer valueNode)
    return Function.update name field value
  | none => return name

def loadName (certDer : Bytes) (nameNode endNode : Nat) (reads : NameField → Bool) (name : CertNameObj)
    (gas : Nat) : Reader CertNameObj := do
  Exec.throwIf (¬ nameNode < endNode) (.reverted (.reason "invalid node ptr"))
  let relDistNameNode ← read (firstChildOf certDer nameNode)
  siblingLoop certDer endNode (loadRelDistName certDer reads) gas relDistNameNode name

end Decentagram.RaOnchain
