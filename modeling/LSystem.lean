import LSystem.Document
import LSystem.Figure.Sowing
import LSystem.Studio.Operation
import LSystem.Proofs.Dividing
import LSystem.Proofs.Generation
import LSystem.Proofs.Branches
import LSystem.Proofs.InBounds
import LSystem.Proofs.Interleaving
import LSystem.Proofs.Workers
import LSystem.Proofs.Faults
import LSystem.Proofs.Nesting
import LSystem.Figure.Garden
import LSystem.Proofs.Freshness
import LSystem.Proofs.Grid
import LSystem.Proofs.LineEnds
import LSystem.Proofs.LineShape
import LSystem.Proofs.Census
import LSystem.Proofs.Strokes
import LSystem.Proofs.Preparing
import LSystem.Painter.Round
import LSystem.Proofs.Outcomes
import LSystem.Proofs.Alone
import LSystem.Proofs.Tallies
import LSystem.Expansion.Session
import LSystem.Proofs.Holdings
import LSystem.Expansion.Commons
import LSystem.Proofs.Rivals
import LSystem.Proofs.Sharing
import LSystem.Proofs.Effects
import LSystem.Proofs.Coherence
import LSystem.Studio.Procedure
import LSystem.Proofs.Refusals
import LSystem.Proofs.LastStroke
import LSystem.Proofs.Slices
import LSystem.Proofs.Acceptance
import LSystem.Proofs.Letters
import LSystem.Proofs.Draws
import LSystem.Proofs.LastAssignment
import LSystem.Proofs.Sowing
import LSystem.Proofs.Records
