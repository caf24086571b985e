import SceneReel.CommandLine.FileTree
import SceneReel.CommandLine.Run
import SceneReel.Decimal.Scientific
import SceneReel.Main
import SceneReel.Trace.Log
import SceneReel.Proofs.Animator.Census
import SceneReel.Proofs.Animator.Kept
import SceneReel.Proofs.Animator.Laps
import SceneReel.Proofs.Animator.Looping
import SceneReel.Proofs.Animator.Tended
import SceneReel.Proofs.Playback.Nesting
import SceneReel.Proofs.Stage.Extent
import SceneReel.Proofs.Stage.Limit
import SceneReel.Proofs.Stage.Nested
import SceneReel.Proofs.Stage.Order
import SceneReel.Proofs.Arena.Operations
import SceneReel.Proofs.Arena.Timelines
import SceneReel.Proofs.Playback.Supported
import SceneReel.Proofs.Document.Supported
import SceneReel.Proofs.Playback.Counted
import SceneReel.Proofs.Stage.Supported
import SceneReel.Proofs.Document.Compile
import SceneReel.Proofs.Playback.Unfolds
import SceneReel.Proofs.Playback.Lineage
import SceneReel.Proofs.Playback.Bracketed
import SceneReel.Proofs.Animator.Answered
import SceneReel.Proofs.Timeline.Stateless
import SceneReel.Proofs.Playback.Foreseen
import SceneReel.Proofs.Descriptor.Respelled
import SceneReel.Proofs.Descriptor.RoundTrip
import SceneReel.Proofs.Arena.Freed
import SceneReel.Proofs.Playback.Outcomes
import SceneReel.Proofs.Playback.Untouched
import SceneReel.Proofs.Animator.Paused
import SceneReel.Proofs.Display.Rearranged
import SceneReel.Proofs.Timeline.Compiled
