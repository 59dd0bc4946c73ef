import PenScript.Main
import PenScript.Proofs.Accepted
import PenScript.Proofs.Account
import PenScript.Proofs.Atomicity
import PenScript.Proofs.Border
import PenScript.Proofs.Cancellation
import PenScript.Proofs.Collinear
import PenScript.Proofs.ColorText
import PenScript.Proofs.Constant
import PenScript.Proofs.Course
import PenScript.Proofs.Coverage
import PenScript.Proofs.Crop
import PenScript.Proofs.Deed
import PenScript.Proofs.Drift
import PenScript.Proofs.Enclosure
import PenScript.Proofs.Exactness
import PenScript.Proofs.Filled
import PenScript.Proofs.Findings
import PenScript.Proofs.Flooding
import PenScript.Proofs.Grammar
import PenScript.Proofs.Height
import PenScript.Proofs.Hush
import PenScript.Proofs.Intact
import PenScript.Proofs.Journal
import PenScript.Proofs.Judgement
import PenScript.Proofs.JumpTable
import PenScript.Proofs.Limit
import PenScript.Proofs.LineLocal
import PenScript.Proofs.LineTable
import PenScript.Proofs.Lines
import PenScript.Proofs.Midpoint
import PenScript.Proofs.Pace
import PenScript.Proofs.Painting
import PenScript.Proofs.ParserCompleteness
import PenScript.Proofs.ParserSoundness
import PenScript.Proofs.Pattern
import PenScript.Proofs.Places
import PenScript.Proofs.Plain
import PenScript.Proofs.Plane
import PenScript.Proofs.ProgramCompleteness
import PenScript.Proofs.Range
import PenScript.Proofs.Reading
import PenScript.Proofs.Recovery
import PenScript.Proofs.Rerun
import PenScript.Proofs.Scaling
import PenScript.Proofs.Simulation
import PenScript.Proofs.Soundness
import PenScript.Proofs.Steering
import PenScript.Proofs.Tally
import PenScript.Proofs.Trail
import PenScript.Proofs.Turn
import PenScript.Proofs.Typing
import PenScript.Proofs.Unambiguous
import PenScript.Proofs.Unbounded
import PenScript.Proofs.UpdateStream
import PenScript.Proofs.Writing
