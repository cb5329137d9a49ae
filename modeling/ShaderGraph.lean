import ShaderGraph.Program.Listing
import ShaderGraph.Proofs.Annotations
import ShaderGraph.Proofs.AugmentedAssignment
import ShaderGraph.Proofs.BlockOutputs
import ShaderGraph.Proofs.CallGraph
import ShaderGraph.Proofs.Calls
import ShaderGraph.Proofs.ConstantProperties
import ShaderGraph.Proofs.Containment
import ShaderGraph.Proofs.ControlFlow
import ShaderGraph.Proofs.DataBlocks
import ShaderGraph.Proofs.Declarations
import ShaderGraph.Proofs.Definitions
import ShaderGraph.Proofs.Effects
import ShaderGraph.Proofs.FailedBlocks
import ShaderGraph.Proofs.FailedDeclarations
import ShaderGraph.Proofs.Feeding
import ShaderGraph.Proofs.FloatLiterals
import ShaderGraph.Proofs.FreshNames
import ShaderGraph.Proofs.Masks
import ShaderGraph.Proofs.Mixing
import ShaderGraph.Proofs.Morphing
import ShaderGraph.Proofs.Rejection
import ShaderGraph.Proofs.Sharing
import ShaderGraph.Proofs.Signatures
import ShaderGraph.Proofs.Targets
import ShaderGraph.Proofs.TypedOperations
import ShaderGraph.Proofs.Typing
import ShaderGraph.Proofs.Unambiguity
import ShaderGraph.Proofs.Uniforms.Slots
import ShaderGraph.Proofs.Uniqueness
import ShaderGraph.Proofs.UnlitInterface
import ShaderGraph.Proofs.Writes
import ShaderGraph.Uniforms.Host
