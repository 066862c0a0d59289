import TreeScript.EditScript
import TreeScript.Replay
import TreeScript.Tree.Edit
import TreeScript.Proofs.Arena.Orders
import TreeScript.Proofs.Arena.Frame
import TreeScript.Proofs.Arena.Editing
import TreeScript.Proofs.Arena.Planting
import TreeScript.Proofs.Arena.Matching
import TreeScript.Proofs.Arena.Rooted
import TreeScript.Proofs.Arena.Payload
import TreeScript.Proofs.Tree.Isomorphic
import TreeScript.Proofs.Tree.Renumbering
import TreeScript.Proofs.NodeMap
import TreeScript.Proofs.Results
import TreeScript.Proofs.Replay.References
import TreeScript.Proofs.Replay.Steps
import TreeScript.Proofs.Tree.Built
import TreeScript.Proofs.Tree.ChildLists
import TreeScript.Proofs.Tree.Refinement
import TreeScript.Proofs.Arena.Grafting
import TreeScript.Proofs.Mapping
import TreeScript.Proofs.Mapping.Pairs
import TreeScript.Proofs.Mapping.Greedy
import TreeScript.Proofs.Mapping.Checked
import TreeScript.Proofs.WorkingCopy.Steps
import TreeScript.Proofs.Replay.Lockstep
import TreeScript.Proofs.WorkingCopy.Start
import TreeScript.Proofs.WorkingCopy.Renaming
import TreeScript.Proofs.WorkingCopy.Counterparts
import TreeScript.Proofs.CommonSubsequence
import TreeScript.Proofs.CommonSubsequence.Table
import TreeScript.Proofs.Draft.Siblings
import TreeScript.Proofs.Draft.Aligned
import TreeScript.Proofs.Draft.Incoming
import TreeScript.Proofs.Draft.Arranging
import TreeScript.Proofs.Draft.Visit
import TreeScript.Proofs.Draft.Prune
import TreeScript.Proofs.Draft.Renaming
import TreeScript.Proofs.EditScript.Faithful
import TreeScript.Proofs.Replay.Untouched
import TreeScript.Proofs.Replay.Events
import TreeScript.Proofs.Replay.History
import TreeScript.Proofs.Replay.Integrity
import TreeScript.Proofs.Replay.Rejection
import TreeScript.Proofs.Replay.Effects
import TreeScript.Proofs.Replay.Meaning
import TreeScript.Proofs.Replay.Types
import TreeScript.Proofs.EditScript.Moves
import TreeScript.Proofs.EditScript.Planned
import TreeScript.Proofs.EditScript.Minimal
import TreeScript.Proofs.EditScript.Quiet
import TreeScript.Proofs.EditScript.Renumbering
import TreeScript.Proofs.EditScript.Total
import TreeScript.Proofs.EditScript.Coverage
import TreeScript.Proofs.EditScript.Collapsing
import TreeScript.Proofs.EditScript.Leftovers
import TreeScript.Proofs.EditScript.Orderly
import TreeScript.Proofs.EditScript.Changed
import TreeScript.Proofs.EditScript.QuietReplay
import TreeScript.Proofs.EditScript.Silent
import TreeScript.Proofs.Registry.Lineage
import TreeScript.Proofs.Tree.Comparison
import TreeScript.Proofs.Arena.Correspondence
import TreeScript.Proofs.Tree.Copies
import TreeScript.Proofs.Mapping.Subtrees
import TreeScript.Proofs.EditScript.Survivors
import TreeScript.Proofs.Tree.Addresses
import TreeScript.Proofs.Tree.LevelOrder
import TreeScript.Proofs.NodePath.Grammar
import TreeScript.Proofs.NodePath.Spelling
import TreeScript.Proofs.Tree.Identities
import TreeScript.Proofs.Text.Decoding
import TreeScript.Proofs.Tree.Rendering
import TreeScript.Proofs.Tree.Measures
import TreeScript.Proofs.Text.Actions
