import Spork.Packing.PackSound
import Spork.Packing.Account
import Spork.Packing.Follow
import Spork.Routing.Plan
import Spork.Picking.Partition
import Spork.Barcodes.Label
import Spork.Ledger.StockFold
import Spork.Ledger.Corrections
import Spork.Packages.Rebuilt
import Spork.Packages.Containment
import Spork.Policy.Clamps
import Spork.Acts.Nesting
import Spork.Acts.Replay
import Spork.Receiving.Overage
import Spork.Receiving.Handover
import Spork.Lib.Runs
import Spork.Outbox.Box
import Spork.Outbox.World
import Spork.Outbox.Kept
import Spork.Outbox.Unheard
import Spork.Bench.Planned
import Spork.Outbox.Press
import Spork.Outbox.Landed
import Spork.Outbox.Tabs
import Spork.Outbox.Desk
import Spork.Projections.Dirty
import Spork.Lib.Walk
import Spork.Outbound.Content
import Spork.Outbound.Progress
import Spork.Outbound.Balance
import Spork.Outbound.Cartons
import Spork.Allocating.Claims
import Spork.Allocating.Waiting
import Spork.Packing.Shortcut
import Spork.Packing.Payload
import Spork.Packing.Spared
import Spork.Lib.Halving
import Spork.Packing.FitInto
import Spork.Drag.Board
import Spork.Drag.DropOn
import Spork.Drag.NewBoxes
import Spork.Lib.FirstWins
import Spork.Importing.Picks
import Spork.Importing.AnyOrder
import Spork.Barcodes.Resolve
import Spork.Barcodes.OneSubject
import Spork.Lib.Origin
import Spork.Refile.Log
import Spork.Refile.Cartons
import Spork.Refile.FileAgain
import Spork.Refile.Matching
import Spork.Refile.Copied
import Spork.Refile.MatchedAgain
import Spork.Refile.BringsNew
import Spork.Layout.Grid
import Spork.Layout.TwoSides
import Spork.Layout.Labels
import Spork.Layout.Frames
import Spork.Layout.Draft
import Spork.Layout.Families
import Spork.Lib.Tally
import Spork.Layout.Proposed
import Spork.Layout.Drafted
import Spork.Barcodes.Gtin
import Spork.Picking.NotTwice
import Spork.Importing.Prepack
import Spork.Importing.Stated
import Spork.Layout.Outline
import Spork.Lib.Shortest
import Spork.Lib.Guided
import Spork.Routing.Paths
import Spork.Drag.Units
import Spork.Drag.Holding
import Spork.Bench.PackPlan
import Spork.Lib.Beside
import Spork.Picking.Walk
import Spork.Bench.Explain
import Spork.Lib.Settle
import Spork.Projections.ClassClosure
import Spork.Lib.Words
import Spork.Receiving.Exact
import Spork.Outbox.DeviceStore
import Spork.Changes.Frames
import Spork.Acts.Sealing
import Spork.Lib.Paths
import Spork.Outbox.Writes
import Spork.Outbox.Account
import Spork.Outbox.Parts
import Spork.Outbox.WrittenOnce
import Spork.Drag.Sound
import Spork.Drag.DropSound
import Spork.Drag.Taken
import Spork.Items.Holds
import Spork.Lib.Perspective
import Spork.Items.Cut
import Spork.Layout.Editor
import Spork.Layout.Drawn
import Spork.Layout.Blocks
import Spork.Importing.Stock
import Spork.Importing.StockLoaded
import Spork.Importing.Customers
import Spork.Lib.LastWriter
import Spork.Projections.Amendments
import Spork.Layout.Edit
import Spork.Lib.OneByOne
import Spork.Layout.Renumber
import Spork.Layout.Edited
import Spork.Layout.Removed
import Spork.Layout.Saved
import Spork.Layout.SavedSound
import Spork.Layout.TakenWhole
import Spork.Layout.AsDrawn
import Spork.Layout.DeskUndo
import Spork.Layout.Reshape
import Spork.Accounts.Browser
import Spork.Accounts.ChooseSite
import Spork.Accounts.Credential
import Spork.Accounts.Proofs
