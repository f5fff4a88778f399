import Polyrhythm.Level.Reading
import Polyrhythm.Main
import Polyrhythm.Node.Path
import Polyrhythm.Node.Scale
import Polyrhythm.Proofs.Sound.Placement
import Polyrhythm.Sound.Shown
import Polyrhythm.Timing.Natural
import Polyrhythm.Timing.Release
import Polyrhythm.Proofs.Grammar.Nesting
import Polyrhythm.Proofs.Grammar.Reading
import Polyrhythm.Proofs.Grammar.Scope
import Polyrhythm.Proofs.Token.Places
import Polyrhythm.Proofs.Token.Writing
import Polyrhythm.Proofs.Grammar.Blame
import Polyrhythm.Proofs.Timing.Loose
import Polyrhythm.Proofs.Timing.Refusal
import Polyrhythm.Proofs.Timing.Skeleton
import Polyrhythm.Proofs.Grammar.Leading
import Polyrhythm.Proofs.Timing.Transcript
import Polyrhythm.Proofs.Sound.Scaling
import Polyrhythm.Proofs.Grammar.Restriking
import Polyrhythm.Proofs.Midi.Schedule
import Polyrhythm.Proofs.Midi.Closing
import Polyrhythm.Proofs.Command.Output
import Polyrhythm.Proofs.Command.Reporting
import Polyrhythm.Proofs.Grammar.LeadingMarker
import Polyrhythm.Proofs.Grammar.Abreast
import Polyrhythm.Proofs.Sound.Fairness
import Polyrhythm.Proofs.Timing.Fitting
import Polyrhythm.Proofs.Timing.Releasing
import Polyrhythm.Proofs.Grammar.Refused
import Polyrhythm.Proofs.Grammar.HeldBlock
import Polyrhythm.Proofs.Midi.Melody
import Polyrhythm.Proofs.Sound.Units
import Polyrhythm.Proofs.Sound.Rendering
import Polyrhythm.Proofs.Grammar.Spacing
