import Decentagram.RaOnchain.X509CertNodes

/-! # Where the nodes of a certificate lie

Nothing bounds a node by its parent, and the end of a node is computed modulo `2 ^ 80`.  The parts that
are taken from `tbsCertificate` lie inside of it, and the loops go forward, as long as the lengths in the
headers say so.
-/

namespace Decentagram.RaOnchain

open Decentagram.Lib Asn1Decode BytesUtils NodePtr

/-- A scan of the extensions or of a name, on the nodes that the contracts pass. -/
inductive Scan where
  | extensions (extEntries : List ExtEntry)
  | issuerName (reads : NameField → Bool)
  | subjectName (reads : NameField → Bool)

def Scan.run (certDer : Bytes) (nodes : CertNodesObj) (gas : Nat) : Scan → Reader Unit
  | .extensions extEntries => do
    let _ ← extractNeededExtensions certDer nodes.tbs.extNode nodes.algTypeNode extEntries gas
  | .issuerName reads => do
    let _ ← loadName certDer nodes.tbs.issuerNode nodes.tbs.validityNode reads (fun _ => []) gas
  | .subjectName reads => do
    let _ ← loadName certDer nodes.tbs.subjectNode nodes.tbs.pubKeyNode reads (fun _ => []) gas

def runScans (certDer : Bytes) (nodes : CertNodesObj) (gas : Nat) : List Scan → Reader Unit
  | [] => return
  | scan :: scans => do
    scan.run certDer nodes gas
    runScans certDer nodes gas scans

/-- Loads the nodes of a certificate and scans some of them. -/
def inspect (certDer : Bytes) (scans : List Scan) (gas : Nat) : Reader CertNodesObj := do
  let nodes ← loadCertNodes certDer
  runScans certDer nodes gas scans
  return nodes

/-! ## What containment means -/

/-- The nodes below `tbsCertificate` that are recorded. -/
def CertTbsNodesObj.children (tbs : CertTbsNodesObj) : List Nat :=
  [tbs.serialNode, tbs.algTypeNode, tbs.issuerNode, tbs.validityNode, tbs.subjectNode, tbs.pubKeyNode,
    tbs.extNode]

/-- The bytes of the child, from the first to the last one, are bytes of the parent. -/
def Inside (parent child : Nat) : Prop :=
  ixs parent ≤ ixs child ∧ ixs child ≤ ixl child ∧ ixl child ≤ ixl parent

def SiblingStep.Forward (step : SiblingStep) : Prop := ixs step.node < ixs step.next

instance (step : SiblingStep) : Decidable step.Forward :=
  inferInstanceAs (Decidable (_ < _))

instance (parent child : Nat) : Decidable (Inside parent child) :=
  inferInstanceAs (Decidable (_ ∧ _))

/-! ## What the headers say -/

/-- The header declares so great a length that the element ends, modulo `2 ^ 80`, before it begins. -/
def WrapsBack (der : Bytes) (ix : Nat) : Prop :=
  ∃ content length, headerAt der ix = some (content, length) ∧ uint80 (content + length - 1) < ix

/-- Where `count` elements end that follow each other, if none of them wraps back. -/
def elementsEnd (der : Bytes) : Nat → Nat → Option Nat
  | 0, ix => some ix
  | count + 1, ix =>
    (headerAt der ix).bind fun header =>
      if uint80 (header.1 + header.2 - 1) < ix then none
      else elementsEnd der count (uint80 (header.1 + header.2 - 1) + 1)

/-- The eight elements of `tbsCertificate`, from the version to the extensions, end no later than it
    does. -/
def FieldsFit (der : Bytes) : Prop :=
  ∃ root tbs fieldsEnd tbsEnd, headerAt der 0 = some root ∧ headerAt der root.1 = some tbs ∧
    elementsEnd der 8 tbs.1 = some fieldsEnd ∧ elementsEnd der 1 root.1 = some tbsEnd ∧
    fieldsEnd ≤ tbsEnd

variable {der : Bytes}

/-- Whoever is read from a header. -/
def IsNode (der : Bytes) (ptr : Nat) : Prop := ∃ ix content length, PointsTo der ptr ix content length

theorem IsNode.ixs_lt {ptr : Nat} (node : IsNode der ptr) : ixs ptr + 1 < der.length := by
  obtain ⟨ix, content, length, points⟩ := node
  rw [points.ixs]
  exact (headerAt_bounds points.header).1

theorem IsNode.wrapsBack_iff {ptr : Nat} (node : IsNode der ptr) :
    WrapsBack der (ixs ptr) ↔ ixl ptr < ixs ptr := by
  obtain ⟨ix, content, length, points⟩ := node
  rw [points.ixs, points.ixl]
  constructor
  · rintro ⟨content', length', header, wraps⟩
    cases points.header.symm.trans header
    exact wraps
  · exact fun wraps => ⟨content, length, points.header, wraps⟩

theorem nextSiblingOf_eq_ok (small : der.length < 2 ^ 64) {ptr next : Nat}
    (stepped : nextSiblingOf der ptr = .ok next) : IsNode der next ∧ ixs next = ixl ptr + 1 := by
  simp only [nextSiblingOf, bind_eq_ok, add_eq_ok] at stepped
  obtain ⟨_, ⟨-, rfl⟩, stepped⟩ := stepped
  obtain ⟨content, length, points⟩ := pointsTo_of_read small stepped
  exact ⟨⟨_, content, length, points⟩, points.ixs⟩

theorem firstChildOf_eq_ok (small : der.length < 2 ^ 64) {ptr child : Nat}
    (stepped : firstChildOf der ptr = .ok child) : IsNode der child ∧ ixs child = ixf ptr := by
  simp only [firstChildOf, bind_eq_ok, exists_unit] at stepped
  obtain ⟨_, -, -, stepped⟩ := stepped
  obtain ⟨content, length, points⟩ := pointsTo_of_read small stepped
  exact ⟨⟨_, content, length, points⟩, points.ixs⟩

/-! ## Siblings -/

/-- Nodes that follow each other from a position on. -/
def Siblings (der : Bytes) : Nat → List Nat → Prop
  | _, [] => True
  | ix, node :: rest => IsNode der node ∧ ixs node = ix ∧ Siblings der (ixl node + 1) rest

/-- The position behind the last of the nodes. -/
def behind : Nat → List Nat → Nat
  | ix, [] => ix
  | _, node :: rest => behind (ixl node + 1) rest

theorem elementsEnd_eq_some_iff {ix fieldsEnd : Nat} {nodes : List Nat}
    (siblings : Siblings der ix nodes) : elementsEnd der nodes.length ix = some fieldsEnd ↔
      (∀ node ∈ nodes, ixs node ≤ ixl node) ∧ fieldsEnd = behind ix nodes := by
  induction nodes generalizing ix with
  | nil => simp [elementsEnd, behind, eq_comm]
  | cons node rest inductionHypothesis =>
    obtain ⟨⟨_, content, length, points⟩, isStart, siblingsRest⟩ := siblings
    rw [points.ixs] at isStart
    subst isStart
    rw [List.length_cons, elementsEnd, points.header, Option.bind_some, ← points.ixl]
    split
    next wraps =>
      refine iff_of_false (by simp) fun ends => ?_
      have forward := ends.1 node List.mem_cons_self
      rw [points.ixs] at forward
      omega
    next forward =>
      rw [inductionHypothesis siblingsRest, List.forall_mem_cons, points.ixs, behind]
      simp [Nat.not_lt.mp forward]

/-- Nodes that do not wrap back lie between the position and the end. -/
theorem Siblings.bounds {ix : Nat} {nodes : List Nat} (siblings : Siblings der ix nodes)
    (forward : ∀ node ∈ nodes, ixs node ≤ ixl node) :
    ix ≤ behind ix nodes ∧ ∀ node ∈ nodes, ix ≤ ixs node ∧ ixl node < behind ix nodes := by
  induction nodes generalizing ix with
  | nil => exact ⟨Nat.le_refl ix, fun _ member => by cases member⟩
  | cons node rest inductionHypothesis =>
    obtain ⟨-, isStart, siblingsRest⟩ := siblings
    obtain ⟨forwardNode, forwardRest⟩ := List.forall_mem_cons.mp forward
    obtain ⟨beyond, boundsRest⟩ := inductionHypothesis siblingsRest forwardRest
    rw [behind]
    refine ⟨by omega, List.forall_mem_cons.mpr ⟨by omega, fun other member => ?_⟩⟩
    have bounds := boundsRest other member
    omega

/-! ## Loading -/

/-- What `loadCertNodes` found, with the node of the version. -/
structure Loaded (der : Bytes) (nodes : CertNodesObj) (verNode : Nat) : Prop where
  root : Asn1Decode.root der = .ok nodes.root
  tbs : firstChildOf der nodes.root = .ok nodes.tbs.root
  version : firstChildOf der nodes.tbs.root = .ok verNode
  serial : nextSiblingOf der verNode = .ok nodes.tbs.serialNode
  algType : nextSiblingOf der nodes.tbs.serialNode = .ok nodes.tbs.algTypeNode
  issuer : nextSiblingOf der nodes.tbs.algTypeNode = .ok nodes.tbs.issuerNode
  validity : nextSiblingOf der nodes.tbs.issuerNode = .ok nodes.tbs.validityNode
  subject : nextSiblingOf der nodes.tbs.validityNode = .ok nodes.tbs.subjectNode
  pubKey : nextSiblingOf der nodes.tbs.subjectNode = .ok nodes.tbs.pubKeyNode
  ext : nextSiblingOf der nodes.tbs.pubKeyNode = .ok nodes.tbs.extNode

/-- The steps between the fields of `tbsCertificate`, and from it to the signature. -/
def loadingSteps (nodes : CertNodesObj) (verNode : Nat) : List SiblingStep :=
  [⟨verNode, nodes.tbs.serialNode⟩, ⟨nodes.tbs.serialNode, nodes.tbs.algTypeNode⟩,
    ⟨nodes.tbs.algTypeNode, nodes.tbs.issuerNode⟩, ⟨nodes.tbs.issuerNode, nodes.tbs.validityNode⟩,
    ⟨nodes.tbs.validityNode, nodes.tbs.subjectNode⟩, ⟨nodes.tbs.subjectNode, nodes.tbs.pubKeyNode⟩,
    ⟨nodes.tbs.pubKeyNode, nodes.tbs.extNode⟩, ⟨nodes.tbs.root, nodes.algTypeNode⟩,
    ⟨nodes.algTypeNode, nodes.sigNode⟩]

/-- A step that the code has taken leads from a node to its next sibling. -/
def SiblingStep.Taken (der : Bytes) (step : SiblingStep) : Prop :=
  IsNode der step.node ∧ nextSiblingOf der step.node = .ok step.next

theorem SiblingStep.Taken.forward_iff (small : der.length < 2 ^ 64) {step : SiblingStep}
    (taken : step.Taken der) : step.Forward ↔ ¬ WrapsBack der (ixs step.node) := by
  obtain ⟨-, isNext⟩ := nextSiblingOf_eq_ok small taken.2
  rw [taken.1.wrapsBack_iff, SiblingStep.Forward, isNext]
  omega

theorem loadVersion_eq_ok {tbsRoot verNode ver : Nat}
    (loaded : loadVersion der tbsRoot = .ok (verNode, ver)) : firstChildOf der tbsRoot = .ok verNode := by
  simp only [loadVersion, bind_eq_ok, pure_eq_ok, exists_unit] at loaded
  obtain ⟨_, stepped, _, -, -, _, -, _, -, -, isPair⟩ := loaded
  cases isPair
  exact stepped

theorem loadCertNodes_sat (log : List SiblingStep) :
    Exec.Sat (loadCertNodes der) log
      (fun nodes log' => ∃ verNode, Loaded der nodes verNode ∧
        nextSiblingOf der nodes.tbs.root = .ok nodes.algTypeNode ∧
        nextSiblingOf der nodes.algTypeNode = .ok nodes.sigNode ∧
        log' = log ++ loadingSteps nodes verNode)
      (fun error _ => error ≠ .outOfGas) := by
  simp only [loadCertNodes, loadTbsNodes, Exec.sat_bind, sat_read, sat_siblingOf, Exec.sat_pure, ne_eq,
    reduceCtorEq, not_false_eq_true, implies_true, and_true]
  intro root isRoot tbs isTbs version loaded serial isSerial algType isAlgType issuer isIssuer validity
    isValidity subject isSubject pubKey isPubKey ext isExt certAlgType isCertAlgType sig isSig
  have isVersion := loadVersion_eq_ok loaded
  exact ⟨version.1, ⟨isRoot, isTbs, isVersion, isSerial, isAlgType, isIssuer, isValidity, isSubject,
    isPubKey, isExt⟩, isCertAlgType, isSig, by simp [loadingSteps]⟩

namespace Loaded

variable {nodes : CertNodesObj} {verNode : Nat}

theorem siblings (loaded : Loaded der nodes verNode) (small : der.length < 2 ^ 64) :
    Siblings der (ixf nodes.tbs.root) (verNode :: nodes.tbs.children) := by
  obtain ⟨isVersion, versionStart⟩ := firstChildOf_eq_ok small loaded.version
  obtain ⟨isSerial, serialStart⟩ := nextSiblingOf_eq_ok small loaded.serial
  obtain ⟨isAlgType, algTypeStart⟩ := nextSiblingOf_eq_ok small loaded.algType
  obtain ⟨isIssuer, issuerStart⟩ := nextSiblingOf_eq_ok small loaded.issuer
  obtain ⟨isValidity, validityStart⟩ := nextSiblingOf_eq_ok small loaded.validity
  obtain ⟨isSubject, subjectStart⟩ := nextSiblingOf_eq_ok small loaded.subject
  obtain ⟨isPubKey, pubKeyStart⟩ := nextSiblingOf_eq_ok small loaded.pubKey
  obtain ⟨isExt, extStart⟩ := nextSiblingOf_eq_ok small loaded.ext
  exact ⟨isVersion, versionStart, isSerial, serialStart, isAlgType, algTypeStart, isIssuer, issuerStart,
    isValidity, validityStart, isSubject, subjectStart, isPubKey, pubKeyStart, isExt, extStart, trivial⟩

/-- The condition on the headers in terms of the nodes. -/
theorem fieldsFit_iff (loaded : Loaded der nodes verNode) (small : der.length < 2 ^ 64) :
    FieldsFit der ↔ (∀ node ∈ verNode :: nodes.tbs.children, ixs node ≤ ixl node) ∧
      ixs nodes.tbs.root ≤ ixl nodes.tbs.root ∧ ixl nodes.tbs.extNode ≤ ixl nodes.tbs.root := by
  have siblings := loaded.siblings small
  obtain ⟨rootContent, rootLength, root⟩ := pointsTo_of_read small loaded.root
  obtain ⟨isTbs, tbsStart⟩ := firstChildOf_eq_ok small loaded.tbs
  obtain ⟨_, content, length, tbs⟩ := isTbs
  have start : _ = rootContent := (tbs.ixs.symm.trans tbsStart).trans root.ixf
  subst start
  have single : Siblings der (ixs nodes.tbs.root) [nodes.tbs.root] :=
    ⟨⟨_, content, length, tbs⟩, rfl, trivial⟩
  have fields {fieldsEnd : Nat} := @elementsEnd_eq_some_iff der _ fieldsEnd _ siblings
  have whole {tbsEnd : Nat} := @elementsEnd_eq_some_iff der _ tbsEnd _ single
  rw [tbs.ixf] at fields
  rw [tbs.ixs] at whole
  constructor
  · rintro ⟨root', tbs', fieldsEnd, tbsEnd, rootHeader, tbsHeader, fieldsSome, wholeSome, fit⟩
    cases root.header.symm.trans rootHeader
    cases tbs.header.symm.trans tbsHeader
    obtain ⟨forward, rfl⟩ := fields.mp fieldsSome
    obtain ⟨forwardTbs, rfl⟩ := whole.mp wholeSome
    exact ⟨forward, forwardTbs _ List.mem_cons_self, Nat.le_of_succ_le_succ fit⟩
  · rintro ⟨forward, forwardTbs, fit⟩
    refine ⟨_, _, _, _, root.header, tbs.header, fields.mpr ⟨forward, rfl⟩, whole.mpr ⟨?_, rfl⟩,
      Nat.succ_le_succ fit⟩
    intro node member
    rw [List.mem_singleton.mp member]
    exact forwardTbs

/-- All children lie inside once the last one does. -/
theorem inside_of_fieldsFit (loaded : Loaded der nodes verNode) (small : der.length < 2 ^ 64)
    (fit : FieldsFit der) : ∀ child ∈ nodes.tbs.children, Inside nodes.tbs.root child := by
  obtain ⟨forward, -, lastInside⟩ := (loaded.fieldsFit_iff small).mp fit
  obtain ⟨-, bounds⟩ := (loaded.siblings small).bounds forward
  obtain ⟨⟨_, content, length, tbs⟩, -⟩ := firstChildOf_eq_ok small loaded.tbs
  have headerBound := (headerAt_bounds tbs.header).2.1
  intro child member
  obtain ⟨afterStart, beforeEnd⟩ := bounds child (List.mem_cons_of_mem _ member)
  have isLast : behind (ixf nodes.tbs.root) (verNode :: nodes.tbs.children) =
    ixl nodes.tbs.extNode + 1 := rfl
  rw [isLast] at beforeEnd
  rw [tbs.ixf] at afterStart
  refine ⟨?_, forward child (List.mem_cons_of_mem _ member), by omega⟩
  rw [tbs.ixs]
  omega

/-- Containment and progress, in terms of the headers. -/
theorem contained_iff (loaded : Loaded der nodes verNode) (small : der.length < 2 ^ 64)
    {log : List SiblingStep} (taken : ∀ step ∈ log, step.Taken der)
    (recorded : ∀ step ∈ loadingSteps nodes verNode, step ∈ log) :
    ((∀ child ∈ nodes.tbs.children, Inside nodes.tbs.root child) ∧ ∀ step ∈ log, step.Forward) ↔
      FieldsFit der ∧ ∀ step ∈ log, ¬ WrapsBack der (ixs step.node) := by
  have forwardIff : (∀ step ∈ log, step.Forward) ↔ ∀ step ∈ log, ¬ WrapsBack der (ixs step.node) :=
    forall₂_congr fun step member => (taken step member).forward_iff small
  rw [forwardIff, and_congr_left_iff]
  intro noneWraps
  refine ⟨fun inside => ?_, fun fit => loaded.inside_of_fieldsFit small fit⟩
  have forward {step : SiblingStep} (member : step ∈ loadingSteps nodes verNode) :
      ixs step.node ≤ ixl step.node := by
    have isTaken := taken step (recorded step member)
    have noWrap := noneWraps step (recorded step member)
    rw [isTaken.1.wrapsBack_iff] at noWrap
    exact Nat.not_lt.mp noWrap
  refine (loaded.fieldsFit_iff small).mpr ⟨?_, ?_, ?_⟩
  · refine List.forall_mem_cons.mpr ⟨?_, fun child member => (inside child member).2.1⟩
    exact @forward ⟨verNode, nodes.tbs.serialNode⟩ (by simp [loadingSteps])
  · exact @forward ⟨nodes.tbs.root, nodes.algTypeNode⟩ (by simp [loadingSteps])
  · exact (inside nodes.tbs.extNode (by simp [CertTbsNodesObj.children])).2.2

end Loaded

/-! ## Scanning -/

/-- Steps were added to the log, each of them taken. -/
def Grown (der : Bytes) (log log' : List SiblingStep) : Prop :=
  ∃ added, log' = log ++ added ∧ ∀ step ∈ added, step.Taken der

theorem Grown.refl (log : List SiblingStep) : Grown der log log := ⟨[], by simp, by simp⟩

theorem Grown.snoc {log log' : List SiblingStep} {step : SiblingStep} (grown : Grown der log log')
    (taken : step.Taken der) : Grown der log (log' ++ [step]) := by
  obtain ⟨added, rfl, allTaken⟩ := grown
  refine ⟨added ++ [step], List.append_assoc _ _ _, fun other member => ?_⟩
  cases List.mem_append.mp member with
  | inl earlier => exact allTaken other earlier
  | inr last => exact List.mem_singleton.mp last ▸ taken

theorem Grown.trans {log log' log'' : List SiblingStep} (first : Grown der log log')
    (second : Grown der log' log'') : Grown der log log'' := by
  obtain ⟨added, rfl, taken⟩ := first
  obtain ⟨added', rfl, taken'⟩ := second
  refine ⟨added ++ added', List.append_assoc _ _ _, fun step member => ?_⟩
  cases List.mem_append.mp member with
  | inl earlier => exact taken step earlier
  | inr later => exact taken' step later

/-- Code without a loop: its steps are taken, and it has gas enough. -/
def Walks {α : Type} (der : Bytes) (call : Reader α) : Prop :=
  ∀ log, Exec.Sat call log (fun _ log' => Grown der log log')
    fun error log' => error ≠ .outOfGas ∧ Grown der log log'

theorem extractOneExtension_walks (small : der.length < 2 ^ 64) {extnIDNode : Nat}
    (isNode : IsNode der extnIDNode) (extEntry : ExtEntry) :
    Walks der (extractOneExtension der extnIDNode extEntry) := by
  intro log
  have refl := @Grown.refl der log
  simp only [extractOneExtension, Exec.sat_bind, Exec.sat_throwIf, sat_siblingOf, sat_read, Exec.sat_ite,
    Exec.sat_pure, ne_eq, reduceCtorEq, not_false_eq_true, true_and]
  refine ⟨fun _ => refl, fun _ => ⟨fun next isNext => ?_, fun _ _ => refl⟩⟩
  have once : Grown der log (log ++ [⟨extnIDNode, next⟩]) := refl.snoc ⟨isNode, isNext⟩
  have isNextNode := (nextSiblingOf_eq_ok small isNext).1
  refine ⟨fun tag _ => ⟨fun _ => ⟨fun critical _ => ⟨fun value isValue => ?_, fun _ _ => once⟩,
    fun _ _ => once⟩, fun _ => ⟨fun _ _ => once, fun _ _ => once⟩⟩, fun _ _ => once⟩
  have twice : Grown der log (log ++ [⟨extnIDNode, next⟩] ++ [⟨next, value⟩]) :=
    once.snoc ⟨isNextNode, isValue⟩
  exact ⟨fun _ _ => twice, fun _ _ => twice⟩

theorem extractIfNeeded_walks (small : der.length < 2 ^ 64) (extNode : Nat)
    (extEntries : List ExtEntry) : Walks der (extractIfNeeded der extNode extEntries) := by
  intro log
  have refl := @Grown.refl der log
  simp only [extractIfNeeded, Exec.sat_bind, sat_read, ne_eq, reduceCtorEq, not_false_eq_true, true_and]
  refine ⟨fun extnIDNode isChild => ⟨fun extnID _ => ?_, fun _ _ => refl⟩, fun _ _ => refl⟩
  have isNode := (firstChildOf_eq_ok small isChild).1
  cases extEntries[findIdxOfExtEntry extnID extEntries]? with
  | none => exact refl
  | some entry =>
    simp only [Exec.sat_bind, Exec.sat_pure]
    exact extractOneExtension_walks small isNode entry log

theorem loadRelDistName_walks (small : der.length < 2 ^ 64) (reads : NameField → Bool)
    (relDistNameNode : Nat) (name : CertNameObj) :
    Walks der (loadRelDistName der reads relDistNameNode name) := by
  intro log
  have refl := @Grown.refl der log
  simp only [loadRelDistName, Exec.sat_bind, sat_read, ne_eq, reduceCtorEq, not_false_eq_true, true_and]
  refine ⟨fun setNode _ => ⟨fun oidNode isChild => ⟨fun oid _ => ?_, fun _ _ => refl⟩,
    fun _ _ => refl⟩, fun _ _ => refl⟩
  have isNode := (firstChildOf_eq_ok small isChild).1
  cases nameFields.find? fun field => decide (reads field ∧ oid = field.oid) with
  | none => exact refl
  | some field =>
    simp only [Exec.sat_bind, sat_siblingOf, sat_read, Exec.sat_pure, reduceCtorEq, not_false_eq_true,
      true_and]
    refine ⟨fun next isNext => ?_, fun _ _ => refl⟩
    have once : Grown der log (log ++ [⟨oidNode, next⟩]) := refl.snoc ⟨isNode, isNext⟩
    exact ⟨fun _ _ => once, fun _ _ => once⟩

/-- A loop that runs out of gas and only goes forward has not had gas enough for all positions that are
    left. -/
theorem siblingLoop_sat {σ : Type} (small : der.length < 2 ^ 64) (endNode : Nat)
    {round : Nat → σ → Reader σ} (walks : ∀ node state, Walks der (round node state)) (gas : Nat) :
    ∀ node state log, IsNode der node →
      Exec.Sat (siblingLoop der endNode round gas node state) log
        (fun _ log' => Grown der log log')
        (fun error log' => Grown der log log' ∧ (error = .outOfGas →
          (∀ step ∈ log', step.Forward) → gas + ixs node < der.length)) := by
  induction gas with
  | zero =>
    intro node state log isNode
    refine ⟨.refl log, fun _ _ => ?_⟩
    have inside := isNode.ixs_lt
    omega
  | succ gas inductionHypothesis =>
    intro node state log isNode
    rw [siblingLoop]
    split
    · rw [Exec.sat_bind]
      refine (walks node state log).mono (fun state' log' grown => ?_) fun error log' raised =>
        ⟨raised.2, fun isOut => (raised.1 isOut).elim⟩
      rw [Exec.sat_bind, sat_siblingOf]
      refine ⟨fun next isNext => ?_, fun error _ => ⟨grown, by simp⟩⟩
      obtain ⟨isNextNode, start⟩ := nextSiblingOf_eq_ok small isNext
      have stepped : Grown der log (log' ++ [⟨node, next⟩]) := grown.snoc ⟨isNode, isNext⟩
      refine (inductionHypothesis next state' _ isNextNode).mono (fun _ _ later => stepped.trans later)
        fun error log'' raised => ⟨stepped.trans raised.1, fun isOut forward => ?_⟩
      have bound := raised.2 isOut forward
      -- the step that was just taken is in the log
      obtain ⟨added, rfl, -⟩ := raised.1
      have advanced : ixs node < ixs next := forward ⟨node, next⟩ (by simp)
      omega
    · exact .refl log

/-- Code with a loop: its steps are taken, and if it only goes forward it needs no more gas than there are
    positions. -/
def Scans {α : Type} (der : Bytes) (call : Reader α) (gas : Nat) : Prop :=
  ∀ log, Exec.Sat call log (fun _ log' => Grown der log log')
    fun error log' => Grown der log log' ∧
      (error = .outOfGas → (∀ step ∈ log', step.Forward) → gas < der.length)

theorem siblingLoop_scans {σ : Type} (small : der.length < 2 ^ 64) (endNode : Nat)
    {round : Nat → σ → Reader σ} (walks : ∀ node state, Walks der (round node state)) (gas : Nat)
    {node : Nat} (isNode : IsNode der node) (state : σ) :
    Scans der (siblingLoop der endNode round gas node state) gas := fun log =>
  (siblingLoop_sat small endNode walks gas node state log isNode).mono (fun _ _ grown => grown)
    fun _ _ raised => ⟨raised.1, fun isOut forward =>
      Nat.lt_of_le_of_lt (Nat.le_add_right _ _) (raised.2 isOut forward)⟩

theorem extractNeededExtensions_scans (small : der.length < 2 ^ 64) (extNode endNode gas : Nat)
    (extEntries : List ExtEntry) :
    Scans der (extractNeededExtensions der extNode endNode extEntries gas) gas := by
  intro log
  have refl := @Grown.refl der log
  simp only [extractNeededExtensions, Exec.sat_bind, sat_read, reduceCtorEq, false_imp_iff, and_true]
  refine ⟨fun extsNode _ => ⟨fun extNode isChild => ?_, fun _ _ => refl⟩, fun _ _ => refl⟩
  have isNode := (firstChildOf_eq_ok small isChild).1
  exact siblingLoop_scans small _ (extractIfNeeded_walks small) gas isNode _ log

theorem loadName_scans (small : der.length < 2 ^ 64) (nameNode endNode gas : Nat)
    (reads : NameField → Bool) (name : CertNameObj) :
    Scans der (loadName der nameNode endNode reads name gas) gas := by
  intro log
  have refl := @Grown.refl der log
  simp only [loadName, Exec.sat_bind, Exec.sat_throwIf, sat_read, reduceCtorEq, false_imp_iff, and_true]
  refine ⟨fun _ => refl, fun _ => ⟨fun relDistNameNode isChild => ?_, fun _ _ => refl⟩⟩
  have isNode := (firstChildOf_eq_ok small isChild).1
  exact siblingLoop_scans small _ (loadRelDistName_walks small reads) gas isNode _ log

theorem Scan.run_scans (small : der.length < 2 ^ 64) (nodes : CertNodesObj) (gas : Nat) (scan : Scan) :
    Scans der (scan.run der nodes gas) gas := by
  intro log
  cases scan with
  | extensions extEntries =>
    exact (Exec.sat_bind _ _ _).mpr (extractNeededExtensions_scans small _ _ gas extEntries log)
  | issuerName reads => exact (Exec.sat_bind _ _ _).mpr (loadName_scans small _ _ gas reads _ log)
  | subjectName reads => exact (Exec.sat_bind _ _ _).mpr (loadName_scans small _ _ gas reads _ log)

theorem runScans_scans (small : der.length < 2 ^ 64) (nodes : CertNodesObj) (gas : Nat)
    (scans : List Scan) : Scans der (runScans der nodes gas scans) gas := by
  induction scans with
  | nil => exact fun log => .refl log
  | cons scan scans inductionHypothesis =>
    intro log
    rw [runScans, Exec.sat_bind]
    refine (scan.run_scans small nodes gas log).mono (fun _ log' grown => ?_) fun _ _ raised => raised
    exact (inductionHypothesis log').mono (fun _ _ later => grown.trans later) fun _ _ raised =>
      ⟨grown.trans raised.1, raised.2⟩

/-! ## The whole certificate -/

/-- All steps of loading a certificate are taken. -/
theorem Loaded.taken (small : der.length < 2 ^ 64) {nodes : CertNodesObj} {verNode : Nat}
    (loaded : Loaded der nodes verNode)
    (isAlgType : nextSiblingOf der nodes.tbs.root = .ok nodes.algTypeNode)
    (isSig : nextSiblingOf der nodes.algTypeNode = .ok nodes.sigNode) :
    ∀ step ∈ loadingSteps nodes verNode, step.Taken der := by
  have isNode {ptr next : Nat} (stepped : nextSiblingOf der ptr = .ok next) : IsNode der next :=
    (nextSiblingOf_eq_ok small stepped).1
  have isVersion := (firstChildOf_eq_ok small loaded.version).1
  have isTbs := (firstChildOf_eq_ok small loaded.tbs).1
  simp only [loadingSteps, List.forall_mem_cons, List.not_mem_nil, false_imp_iff, implies_true, and_true]
  exact ⟨⟨isVersion, loaded.serial⟩, ⟨isNode loaded.serial, loaded.algType⟩,
    ⟨isNode loaded.algType, loaded.issuer⟩, ⟨isNode loaded.issuer, loaded.validity⟩,
    ⟨isNode loaded.validity, loaded.subject⟩, ⟨isNode loaded.subject, loaded.pubKey⟩,
    ⟨isNode loaded.pubKey, loaded.ext⟩, ⟨isTbs, isAlgType⟩, isNode isAlgType, isSig⟩

theorem inspect_sat (small : der.length < 2 ^ 64) (scans : List Scan) (gas : Nat) :
    Exec.Sat (inspect der scans gas) []
      (fun nodes log => ∃ verNode, Loaded der nodes verNode ∧ (∀ step ∈ log, step.Taken der) ∧
        ∀ step ∈ loadingSteps nodes verNode, step ∈ log)
      (fun error log => error = .outOfGas → (∀ step ∈ log, step.Forward) → gas < der.length) := by
  rw [inspect, Exec.sat_bind]
  refine (loadCertNodes_sat []).mono (fun nodes log loaded => ?_) fun error _ raised isOut =>
    (raised isOut).elim
  obtain ⟨verNode, loaded, isAlgType, isSig, rfl⟩ := loaded
  rw [Exec.sat_bind]
  refine (runScans_scans small nodes gas scans _).mono (fun _ log grown => ?_) fun _ _ raised => raised.2
  obtain ⟨added, rfl, taken⟩ := grown
  refine ⟨verNode, loaded, fun step member => ?_, fun step member => by simp [member]⟩
  cases List.mem_append.mp member with
  | inl loading => exact loaded.taken small isAlgType isSig step (by simpa using loading)
  | inr scanning => exact taken step scanning

/-- For every byte string: where loading and scanning return, the nodes taken from `tbsCertificate` lie
    inside of it and every step to a sibling goes forward, just when its fields end no later than it does
    and no header that is stepped over wraps back; and where the gas does not suffice although there was
    more of it than bytes, some step has not gone forward. -/
theorem certNodes_contained_iff (certDer : MemoryBytes) (scans : List Scan) (gas : Nat) :
    (∀ nodes log, inspect certDer.data scans gas [] = .ok nodes log →
      (((∀ child ∈ nodes.tbs.children, Inside nodes.tbs.root child) ∧ ∀ step ∈ log, step.Forward) ↔
        FieldsFit certDer.data ∧ ∀ step ∈ log, ¬ WrapsBack certDer.data (ixs step.node))) ∧
    ∀ log, inspect certDer.data scans gas [] = .throws .outOfGas log →
      certDer.data.length ≤ gas → ∃ step ∈ log, ¬ step.Forward := by
  have sat := inspect_sat certDer.fits scans gas
  refine ⟨fun nodes log returned => ?_, fun log thrown enough => ?_⟩
  · obtain ⟨verNode, loaded, taken, recorded⟩ := sat.of_ok returned
    exact loaded.contained_iff certDer.fits taken recorded
  · by_contra none
    have forward : ∀ step ∈ log, step.Forward := by
      intro step member
      by_contra notForward
      exact none ⟨step, member, notForward⟩
    exact absurd (sat.of_throws thrown rfl forward) (Nat.not_lt.mpr enough)

/-- A certificate with one extension, whose `tbsCertificate` declares the given length. -/
def certWithTbsLength (tbsLength : UInt8) : MemoryBytes where
  data := [
    0x30, 0x1f,
    0x30, tbsLength,
    0xa0, 0x03, 0x02, 0x01, 0x02,
    0x02, 0x01, 0x00,
    0x30, 0x00, 0x30, 0x00, 0x30, 0x00, 0x30, 0x00, 0x30, 0x00,
    0xa3, 0x06, 0x30, 0x04, 0x30, 0x02, 0x06, 0x00,
    0x30, 0x00, 0x03, 0x01, 0x00]
  fits := by simp

/-- The extension, at position 26, declares `2 ^ 80 - 12` bytes of content from position 38 on. -/
def certWithLoop : MemoryBytes where
  data := [
    0x30, 0x29,
    0x30, 0x24,
    0xa0, 0x03, 0x02, 0x01, 0x02,
    0x02, 0x01, 0x00,
    0x30, 0x00, 0x30, 0x00, 0x30, 0x00, 0x30, 0x00, 0x30, 0x00,
    0xa3, 0x10, 0x30, 0x0e,
    0x30, 0x8a, 0xff, 0xff, 0xff, 0xff, 0xff, 0xff, 0xff, 0xff, 0xff, 0xf4,
    0x06, 0x00,
    0x30, 0x00, 0x03, 0x01, 0x00]
  fits := by simp

theorem inspect_one_extension :
    ∃ nodes log, inspect (certWithTbsLength 26).data [.extensions []] 35 [] = .ok nodes log ∧
      (∀ child ∈ nodes.tbs.children, Inside nodes.tbs.root child) ∧ ∀ step ∈ log, step.Forward :=
  Outcome.returns_iff.mp (by decide +kernel)

theorem certNodes_contained_iff_one_extension :
    ∃ nodes log, inspect (certWithTbsLength 26).data [.extensions []] 35 [] = .ok nodes log ∧
      FieldsFit (certWithTbsLength 26).data ∧
      ∀ step ∈ log, ¬ WrapsBack (certWithTbsLength 26).data (ixs step.node) := by
  obtain ⟨nodes, log, returned, contained⟩ := inspect_one_extension
  have contains := certNodes_contained_iff (certWithTbsLength 26) [.extensions []] 35
  exact ⟨nodes, log, returned, (contains.1 nodes log returned).mp contained⟩

/-- Where `tbsCertificate` ends before the extensions they are read from outside of it; and an extension
    can be its own next sibling. -/
theorem certNodes_not_contained :
    (∃ nodes log, inspect (certWithTbsLength 18).data [.extensions []] 35 [] = .ok nodes log ∧
      ¬ Inside nodes.tbs.root nodes.tbs.extNode) ∧
    ∃ error log, inspect certWithLoop.data [.extensions []] 100 [] = .throws error log ∧
      error = .outOfGas ∧ ¬ ∀ step ∈ log, step.Forward :=
  ⟨Outcome.returns_iff.mp (by decide +kernel), Outcome.throws_iff.mp (by decide +kernel)⟩

end Decentagram.RaOnchain
