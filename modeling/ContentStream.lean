import ContentStream.Main
import ContentStream.Proofs.Effects
import ContentStream.Proofs.Changes
import ContentStream.Proofs.StateStack
import ContentStream.Proofs.Steps
import ContentStream.Proofs.Execution
import ContentStream.Proofs.Invariants
import ContentStream.Proofs.ExactArithmetic
import ContentStream.Proofs.ResourceTree
import ContentStream.Proofs.FormStack
import ContentStream.Proofs.OperandScope
import ContentStream.Proofs.Visits
import ContentStream.Proofs.FormIdentity
import ContentStream.Proofs.GroupImages
import ContentStream.Proofs.Rectangles
import ContentStream.Proofs.ConstantMask
import ContentStream.Proofs.ScalarLaws
import ContentStream.Proofs.Pixels
import ContentStream.Proofs.SoundStates
import ContentStream.Proofs.ClippedPixels
import ContentStream.Proofs.FadedLayers
import ContentStream.Proofs.AbsorbedMasks
import ContentStream.Proofs.NestedMasks
import ContentStream.Proofs.MaskedElements
import ContentStream.Proofs.Faults
import ContentStream.Proofs.Boundaries
import ContentStream.Proofs.Concatenation
import ContentStream.Proofs.Utf8
import ContentStream.Proofs.Spellings
import ContentStream.Proofs.NestedClips
import ContentStream.Proofs.ClipCoverage
import ContentStream.Proofs.Footprints
import ContentStream.Proofs.InlinedForms
import ContentStream.Proofs.PendingPath
import ContentStream.Proofs.ShownStrings
import ContentStream.Proofs.TextStates
import ContentStream.Proofs.Termination
import ContentStream.Proofs.MaskLimit
import ContentStream.Proofs.Brackets
import ContentStream.Proofs.Encounters
import ContentStream.Proofs.Parameters
import ContentStream.Proofs.Aborts
import ContentStream.Proofs.Outcomes
import ContentStream.Proofs.ParameterRules
import ContentStream.Proofs.ColorCoherence
import ContentStream.Proofs.FiniteParameters
import ContentStream.Proofs.LexerProgress
import ContentStream.Proofs.InlineImages
import ContentStream.Proofs.SignedNumbers
import ContentStream.Proofs.Placement
import ContentStream.Proofs.Signatures
import ContentStream.Proofs.NestedArrays
import ContentStream.Proofs.FillRules
import ContentStream.Proofs.PathBounds
import ContentStream.Proofs.JoinedPaths
import ContentStream.Proofs.Shorthands
import ContentStream.Proofs.TransformedOutlines
import ContentStream.Proofs.Accumulation
import ContentStream.Proofs.JoinedStrings
import ContentStream.Proofs.CompoundOperators
import ContentStream.Proofs.RadialShadings
import ContentStream.Proofs.ColorFunctions
import ContentStream.Proofs.DecodedImages
import ContentStream.Proofs.PatternPaint
import ContentStream.Proofs.ShadingBounds
import ContentStream.Proofs.StrokeCoverage
import ContentStream.Proofs.TransformActions
