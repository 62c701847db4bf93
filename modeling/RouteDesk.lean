import RouteDesk.LanguageServer
import RouteDesk.Polling
import RouteDesk.Creation.Rehearsal
import RouteDesk.Desk.Script
import RouteDesk.CommandLine.Run
import RouteDesk.Main
import RouteDesk.Proofs.Catalog.Shown
import RouteDesk.Proofs.Creation.Timelines
import RouteDesk.Proofs.Creation.Turns
import RouteDesk.Proofs.Creation.Answers
import RouteDesk.Proofs.Creation.Twins
import RouteDesk.Proofs.Creation.Stages
import RouteDesk.Proofs.FileTree.Spared
import RouteDesk.Proofs.Catalog.Failed
import RouteDesk.Proofs.FileTree.Rewrites
import RouteDesk.Proofs.Catalog.Override
import RouteDesk.Proofs.Wildcard.Escaped
import RouteDesk.Proofs.FileTree.Named
import RouteDesk.Proofs.Inventory.Found
import RouteDesk.Proofs.Creation.Single
import RouteDesk.Proofs.Inventory.Plain
import RouteDesk.Proofs.Desk.Course
import RouteDesk.Proofs.Desk.Journal
import RouteDesk.Proofs.CommandLine.Statuses
import RouteDesk.Proofs.Creation.Settling
import RouteDesk.Proofs.Creation.Collisions
import RouteDesk.Proofs.Creation.Focused
import RouteDesk.Proofs.Catalog.Sections
import RouteDesk.Proofs.Catalog.Undone
import RouteDesk.Proofs.Inventory.Rooted
import RouteDesk.Proofs.Inventory.Scans
import RouteDesk.Proofs.Inventory.Observed
import RouteDesk.Proofs.Inventory.Effects
import RouteDesk.Proofs.Inventory.Watching
import RouteDesk.Proofs.Inventory.Unlost
import RouteDesk.Proofs.Inventory.Ghosts
import RouteDesk.Proofs.Inventory.Lookups
import RouteDesk.Proofs.Inventory.Prompt
import RouteDesk.Proofs.Polling.Course
import RouteDesk.Proofs.Polling.Exact
import RouteDesk.Proofs.Polling.Paced
import RouteDesk.Proofs.Creation.Schedules
import RouteDesk.Proofs.Creation.Arrivals
import RouteDesk.Proofs.Creation.Punctual
import RouteDesk.Proofs.Route.Rules
import RouteDesk.Proofs.Route.Contained
import RouteDesk.Proofs.Inventory.Literal
import RouteDesk.Proofs.Creation.Interview
import RouteDesk.Proofs.Dialogue.Conversation
import RouteDesk.Proofs.Catalog.LastChange
import RouteDesk.Proofs.Catalog.Commented
import RouteDesk.Proofs.Json.Spacing.Remarks
import RouteDesk.Proofs.Catalog.Remarks
import RouteDesk.Proofs.Catalog.Obstacles
