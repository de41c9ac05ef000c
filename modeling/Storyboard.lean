import Storyboard.Main
import Storyboard.Rational
import Storyboard.Proofs.Flattening.Level
import Storyboard.Proofs.Checks
import Storyboard.Proofs.Compilation
import Storyboard.Proofs.Exact
import Storyboard.Proofs.Expansion.Following
import Storyboard.Proofs.Expansion.Instance
import Storyboard.Proofs.Expansion.Passage
import Storyboard.Proofs.Flattening.Collision
import Storyboard.Proofs.Flattener
import Storyboard.Proofs.Flattening.Timing
import Storyboard.Proofs.Flattening.Precedence
import Storyboard.Proofs.Namespacing
import Storyboard.Proofs.Backwards
import Storyboard.Proofs.Flattening.Target
import Storyboard.Proofs.Targets
import Storyboard.Proofs.Flattening.Shorthand
import Storyboard.Proofs.Expansion.Cycles
import Storyboard.Proofs.Offsets
import Storyboard.Proofs.Resolved
import Storyboard.Proofs.Strays
import Storyboard.Proofs.Composition.Compiled
import Storyboard.Proofs.Composition.Overrides
import Storyboard.Proofs.Composition.DrawList
import Storyboard.Proofs.Composition.Hierarchy
import Storyboard.Proofs.EffectNotation
import Storyboard.Proofs.Stores.Definitions
import Storyboard.Proofs.Stores.Effects
import Storyboard.Proofs.Rereading.Models
import Storyboard.Proofs.Sampling.Merged
import Storyboard.Proofs.LineBreaks
import Storyboard.Proofs.Easings
import Storyboard.Proofs.Solver
import Storyboard.Proofs.Parameters
import Storyboard.Proofs.Sampling.Segments
import Storyboard.Proofs.TimeTexts
import Storyboard.Proofs.Recording
