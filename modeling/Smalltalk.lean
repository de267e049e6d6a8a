import Smalltalk.CommandLine
import Smalltalk.Main
import Smalltalk.Node.Inspect
import Smalltalk.Registry.Summary
import Smalltalk.Proofs.Heap
import Smalltalk.Proofs.Later
import Smalltalk.Proofs.Invariant
import Smalltalk.Proofs.Keeps
import Smalltalk.Proofs.Suits
import Smalltalk.Proofs.Action
import Smalltalk.Proofs.Step
import Smalltalk.Proofs.Change
import Smalltalk.Proofs.Kernel
import Smalltalk.Proofs.Session
import Smalltalk.Proofs.Call
import Smalltalk.Proofs.InProgress
import Smalltalk.Proofs.Return
import Smalltalk.Proofs.Safety
import Smalltalk.Proofs.Bare
import Smalltalk.Proofs.Blind
import Smalltalk.Proofs.Failure
import Smalltalk.Proofs.Moves
import Smalltalk.Proofs.Edit
import Smalltalk.Proofs.Effect
import Smalltalk.Proofs.Asks
import Smalltalk.Proofs.Lexical
import Smalltalk.Proofs.Scope
import Smalltalk.Proofs.Layout
import Smalltalk.Proofs.Calm
import Smalltalk.Proofs.Resolve
import Smalltalk.Proofs.Unplaced
import Smalltalk.Proofs.Filing
import Smalltalk.Proofs.Written
import Smalltalk.Proofs.RoundTrip
import Smalltalk.Proofs.Wrap
import Smalltalk.Proofs.Choice
import Smalltalk.Proofs.Abreast
import Smalltalk.Proofs.Transparent
import Smalltalk.Proofs.Misuse
import Smalltalk.Proofs.Declared
import Smalltalk.Proofs.Grammar
import Smalltalk.Proofs.Reread
import Smalltalk.Proofs.Hierarchy
import Smalltalk.Proofs.Reach
import Smalltalk.Proofs.Confined
import Smalltalk.Proofs.Coincide
import Smalltalk.Proofs.Confines
import Smalltalk.Proofs.Isolation
import Smalltalk.Proofs.Depth
import Smalltalk.Proofs.Growth
import Smalltalk.Proofs.Charter
import Smalltalk.Proofs.Upholds
import Smalltalk.Proofs.Course
import Smalltalk.Proofs.Reached
import Smalltalk.Proofs.Structure
import Smalltalk.Proofs.Range
import Smalltalk.Proofs.Seat
import Smalltalk.Proofs.Aside
import Smalltalk.Proofs.Invocations
import Smalltalk.Proofs.Going
import Smalltalk.Proofs.Equipped
import Smalltalk.Proofs.Yields
import Smalltalk.Proofs.Sends
import Smalltalk.Proofs.Double
import Smalltalk.Proofs.Numbers
import Smalltalk.Proofs.Division
import Smalltalk.Proofs.Dispatch
import Smalltalk.Proofs.Seclusion
import Smalltalk.Proofs.Counting
import Smalltalk.Proofs.Visiting
import Smalltalk.Proofs.Replies
import Smalltalk.Proofs.Equality
import Smalltalk.Proofs.Places
import Smalltalk.Proofs.Loading
import Smalltalk.Proofs.Extension
import Smalltalk.Proofs.Direct
import Smalltalk.Proofs.Looping
import Smalltalk.Proofs.Passing
import Smalltalk.Proofs.Literal
import Smalltalk.Proofs.Instances
import Smalltalk.Proofs.Verdict
import Smalltalk.Proofs.Workspace
import Smalltalk.Proofs.Assignment
import Smalltalk.Proofs.Target
import Smalltalk.Proofs.Printing
import Smalltalk.Proofs.Protocols
