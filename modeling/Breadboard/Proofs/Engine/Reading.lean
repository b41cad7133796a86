import Breadboard.Proofs.Engine.Upkeep
import Breadboard.Proofs.Net.Feeding

/-!
# What a step reads

A step of a primitive component reads its declared inputs and what the basis of the node holds, and
writes to declared outputs only. So nodes with one basis whose declared inputs agree drive the same
outputs.
-/

namespace Breadboard

/-- The declarations of lanes declare the lanes. -/
theorem map_id_laneDecls (ports : List String) : (laneDecls ports).map PortDecl.id = ports := by
  refine List.ext_getElem (by simp [laneDecls]) fun place inLeft inRight => ?_
  simp [laneDecls, PortDecl.ofBit]

/-- A merge declares its lanes as inputs. -/
theorem declaredInputs_merge {node : Node Circuit} {lanes : LaneCount} (part : node.part = .merge lanes) :
    node.declaredInputs = mergePorts lanes := by
  rw [Node.declaredInputs, part]
  cases lanes <;> exact map_id_laneDecls _

/-- A split declares its lanes as outputs. -/
theorem declaredOutputs_split {node : Node Circuit} {lanes : LaneCount} (part : node.part = .split lanes) :
    node.declaredOutputs = splitPorts lanes := by
  rw [Node.declaredOutputs, part]
  cases lanes <;> exact map_id_laneDecls _

namespace PortMap

variable {left right : PortMap} {port : String}

/-- Inputs that hold the same at a port hold the same bit there. -/
theorem bitAt_congr (same : left.get? port = right.get? port) : left.bitAt port = right.bitAt port := by
  rw [bitAt, bitAt, same]

/-- Inputs that hold the same at a port hold the same lanes there. -/
theorem lanesAt_congr (same : left.get? port = right.get? port) :
    left.lanesAt port = right.lanesAt port := by
  rw [lanesAt, lanesAt, same]

end PortMap

namespace Node

variable {node other : Node Circuit} {left right : PortMap}

/-- The basis of a node declares the inputs of the node. -/
theorem declaredInputs_basis (node : Node Circuit) : node.basis.declaredInputs = node.declaredInputs := by
  obtain ⟨label, position, part, inputs, outputs⟩ := node
  cases part <;> rfl

/-- Every port that is written to is a declared output. -/
theorem mem_declaredOutputs_of_written {port : String} (member : port ∈ node.written) :
    port ∈ node.declaredOutputs := by
  cases part : node.part with
  | split lanes =>
    rw [declaredOutputs_split part]
    rwa [written, part] at member
  | chip body =>
    rw [written, part] at member
    rw [declaredOutputs, part]
    obtain ⟨⟨decl, pin⟩, zipped, rfl⟩ := List.mem_map.mp member
    exact List.mem_map.mpr ⟨decl, (List.of_mem_zip zipped).1, rfl⟩
  | inputPin width state =>
    rw [written, part] at member
    rw [declaredOutputs, part]
    cases width <;> exact member
  | gate function =>
    rw [written, part] at member
    rw [declaredOutputs, part]
    cases function <;> exact member
  | merge lanes =>
    rw [written, part] at member
    rw [declaredOutputs, part]
    cases lanes <;> exact member
  | resize direction =>
    rw [written, part] at member
    rw [declaredOutputs, part]
    cases direction <;> exact member
  | _ =>
    rw [written, part] at member
    rw [declaredOutputs, part]
    first
      | exact member
      | cases member

/-- What a step writes depends on the declared inputs only. -/
theorem emitted_staged (node : Node Circuit)
    (agree : ∀ port ∈ node.declaredInputs, left.get? port = right.get? port) :
    (node.staged left).emitted = (node.staged right).emitted := by
  cases part : node.part with
  | gate function =>
    have sameOutput : left.gateOutput function = right.gateOutput function := by
      rw [declaredInputs, part] at agree
      cases function with
      | not =>
        have sameIn := PortMap.bitAt_congr (agree "in" (.head _))
        rw [PortMap.gateOutput, PortMap.gateOutput, sameIn]
      | _ =>
        have sameA := PortMap.bitAt_congr (agree "a" (.head _))
        have sameB := PortMap.bitAt_congr (agree "b" (.tail _ (.head _)))
        simp only [PortMap.gateOutput, sameA, sameB]
    simp only [emitted, staged_part, staged_inputs, part, sameOutput]
  | triBuffer =>
    rw [declaredInputs, part] at agree
    have sameIn := PortMap.bitAt_congr (agree "in" (.head _))
    have sameEnable := PortMap.bitAt_congr (agree "en" (.tail _ (.head _)))
    simp only [emitted, staged_part, staged_inputs, part, sameIn, sameEnable]
  | merge lanes =>
    rw [declaredInputs_merge part] at agree
    have sameBits : (mergePorts lanes).map left.bitAt = (mergePorts lanes).map right.bitAt :=
      List.map_congr_left fun port member => PortMap.bitAt_congr (agree port member)
    simp only [emitted, staged_part, staged_inputs, part, PortMap.merged, sameBits]
  | split lanes =>
    rw [declaredInputs, part] at agree
    have sameLanes := PortMap.lanesAt_congr (agree "in" (by cases lanes <;> exact .head _))
    simp only [emitted, staged_part, staged_inputs, part, sameLanes]
  | resize direction =>
    rw [declaredInputs, part] at agree
    cases direction with
    | eightToFour =>
      have sameLanes := PortMap.lanesAt_congr (agree "in" (.head _))
      simp only [emitted, staged_part, staged_inputs, part, sameLanes]
    | fourToEight =>
      have sameHigh := PortMap.lanesAt_congr (agree "high" (.head _))
      have sameLow := PortMap.lanesAt_congr (agree "low" (.tail _ (.head _)))
      simp only [emitted, staged_part, staged_inputs, part, sameHigh, sameLow]
  | _ => simp only [emitted, staged_part, part]

/-- What a step writes and displays is told by the basis of the node and its staged inputs. -/
theorem emitted_basis (node : Node Circuit) :
    (node.basis.staged node.inputs).emitted = node.emitted := by
  obtain ⟨label, position, part, inputs, outputs⟩ := node
  cases part with
  | resize direction => cases direction <;> rfl
  | _ => rfl

/-- Nodes with one basis whose declared inputs agree write the same. -/
theorem emitted_congr (same : node.basis = other.basis)
    (agree : ∀ port ∈ node.declaredInputs, node.inputs.get? port = other.inputs.get? port) :
    node.emitted = other.emitted := by
  rw [← emitted_basis node, ← emitted_basis other, ← same]
  refine emitted_staged _ fun port member => ?_
  rw [declaredInputs_basis] at member
  exact agree port member

/-- Nodes with one basis write to the same ports. -/
theorem written_congr (same : node.basis = other.basis) : node.written = other.written := by
  rw [← written_basis node, same, written_basis]

/-- Nodes with one basis are joints alike. -/
theorem isJoint_congr (same : node.basis = other.basis) : node.isJoint = other.isJoint := by
  have keeps (node : Node Circuit) : node.basis.isJoint = node.isJoint := by
    obtain ⟨label, position, part, inputs, outputs⟩ := node
    cases part <;> rfl
  rw [← keeps node, same, keeps]

/-- Nodes with one basis hold the same signals at ports that nothing writes to. -/
theorem outputs_without_congr (same : node.basis = other.basis) (plain : node.isJoint = false) :
    node.outputs.without node.written = other.outputs.without node.written := by
  have stored : node.stored = other.stored := by rw [← outputs_basis, same, outputs_basis]
  have otherPlain : other.isJoint = false := isJoint_congr same ▸ plain
  rwa [Node.stored, Node.stored, plain, otherPlain, ← written_congr same] at stored

end Node

end Breadboard
