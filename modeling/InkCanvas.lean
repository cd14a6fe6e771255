import InkCanvas.Main
import InkCanvas.Proofs.Eraser
import InkCanvas.Proofs.Session.Edit
import InkCanvas.Proofs.Session.Reachable
import InkCanvas.Proofs.Session.History
import InkCanvas.Proofs.Gesture.Contacts
import InkCanvas.Proofs.Gesture.Turn
import InkCanvas.Proofs.Session.Stranded
import InkCanvas.Proofs.Capture
import InkCanvas.Proofs.Session.Refusal
import InkCanvas.Proofs.Gesture.Palm
import InkCanvas.Proofs.Session.Palm
import InkCanvas.Proofs.Draft
import InkCanvas.Proofs.Curve
import InkCanvas.Proofs.Session.Revision
import InkCanvas.Proofs.Session.Kept
import InkCanvas.Proofs.Session.Commit
import InkCanvas.Proofs.Session.Redraw
import InkCanvas.Proofs.Session.Storage
import InkCanvas.Proofs.Session.Ledger
import InkCanvas.Proofs.Viewport
import InkCanvas.Proofs.Exact
import InkCanvas.Proofs.Session.Layers
import InkCanvas.Proofs.Export
import InkCanvas.Proofs.Seen
import InkCanvas.Proofs.Session.View
import InkCanvas.Proofs.Gesture.Inking
import InkCanvas.Proofs.Session.Drawing
import InkCanvas.Proofs.Session.Ink
import InkCanvas.Proofs.Gesture.Bracket
import InkCanvas.Proofs.Gesture.Pinch
import InkCanvas.Proofs.Gesture.Retract
import InkCanvas.Proofs.Session.Fate
import InkCanvas.Proofs.Session.WellFormed
import InkCanvas.Proofs.Session.Pinch
import InkCanvas.Proofs.Gesture.Makers
import InkCanvas.Proofs.Gesture.Found
import InkCanvas.Proofs.Gesture.Navigation
import InkCanvas.Proofs.Session.Navigation
import InkCanvas.Proofs.Distance
import InkCanvas.Proofs.Session.Movement
import InkCanvas.Proofs.Bounds
import InkCanvas.Proofs.Session.Erasure
import InkCanvas.Proofs.Smooth
import InkCanvas.Proofs.Anchor
import InkCanvas.Proofs.Fit
import InkCanvas.Proofs.Session.OnScreen
import InkCanvas.Proofs.Session.Interruption
import InkCanvas.Proofs.Session.Trimming
import InkCanvas.Proofs.Session.Sweep
import InkCanvas.Proofs.Retelling
import InkCanvas.Proofs.Gesture.Retelling
import InkCanvas.Proofs.Session.Retelling
import InkCanvas.Proofs.Picture
import InkCanvas.Proofs.Session.Independence
import InkCanvas.Proofs.Gesture.ContactLog
import InkCanvas.Proofs.Placement
import InkCanvas.Proofs.Hull
import InkCanvas.Proofs.Script
import InkCanvas.Proofs.Loading
