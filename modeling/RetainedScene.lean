import RetainedScene.Main
import RetainedScene.Proofs.Node.Values
import RetainedScene.Proofs.Node.Handles
import RetainedScene.Proofs.Cache.Balance
import RetainedScene.Proofs.DisplayList.Recorded
import RetainedScene.Proofs.DisplayList.References
import RetainedScene.Proofs.DisplayList.Saves
import RetainedScene.Proofs.Scene.Reach
import RetainedScene.Proofs.Scene.Rerouting
import RetainedScene.Proofs.Scene.Tour
import RetainedScene.Proofs.Scene.Checks
import RetainedScene.Proofs.Scene.Settling
import RetainedScene.Proofs.Scene.Projection
import RetainedScene.Proofs.Scene.Intact
import RetainedScene.Proofs.Canvas.Quiet
import RetainedScene.Proofs.Canvas.Stack
import RetainedScene.Proofs.Canvas.Playback
import RetainedScene.Proofs.Canvas.Requests
import RetainedScene.Proofs.Canvas.Rejection
import RetainedScene.Proofs.Walk.Alike
import RetainedScene.Proofs.Walk.Ends
import RetainedScene.Proofs.Walk.Watched
import RetainedScene.Proofs.Walk.Elevated
import RetainedScene.Proofs.Walk.Agenda
import RetainedScene.Proofs.Walk.Kept
import RetainedScene.Proofs.Walk.Order
import RetainedScene.Proofs.Walk.Retention
import RetainedScene.Proofs.Walk.Deferral
import RetainedScene.Proofs.Walk.Descents
import RetainedScene.Proofs.Walk.Census
import RetainedScene.Proofs.Walk.Placement
import RetainedScene.Proofs.Walk.Placed
import RetainedScene.Proofs.World.DrawOrder
import RetainedScene.Proofs.Walk.Course
import RetainedScene.Proofs.Walk.Walkable
import RetainedScene.Proofs.Walk.Recent
import RetainedScene.Proofs.World.SameFrame
import RetainedScene.Proofs.World.Once
import RetainedScene.Proofs.World.Lifetime
import RetainedScene.Proofs.World.Safety
import RetainedScene.Proofs.World.Recent
import RetainedScene.Proofs.World.Placement
import RetainedScene.Proofs.Session.Basic
import RetainedScene.Proofs.Session.Change
import RetainedScene.Proofs.Session.Conservation
import RetainedScene.Proofs.Session.Functors
import RetainedScene.Proofs.Walk.Marks
import RetainedScene.Proofs.Walk.Fading
import RetainedScene.Proofs.World.Fading
import RetainedScene.Proofs.Walk.Drift
import RetainedScene.Proofs.World.Restoring
import RetainedScene.Proofs.Walk.Sorting
import RetainedScene.Proofs.Walk.Agreement
import RetainedScene.Proofs.World.Repeating
import RetainedScene.Proofs.Walk.Clips
import RetainedScene.Proofs.World.Clips
import RetainedScene.Proofs.Walk.Runs
import RetainedScene.Proofs.Walk.Keeping
import RetainedScene.Proofs.Walk.Passes
import RetainedScene.Proofs.World.Elevation
import RetainedScene.Proofs.Number.Unit
import RetainedScene.Proofs.Walk.Properties
import RetainedScene.Proofs.Report.Changes
import RetainedScene.Proofs.DisplayList.Tables
import RetainedScene.Proofs.World.Resolved
import RetainedScene.Proofs.Cache.Entries
import RetainedScene.Proofs.World.Leaving
import RetainedScene.Proofs.World.Refusals
import RetainedScene.Proofs.World.Teardown
import RetainedScene.Proofs.Session.Teardown
import RetainedScene.Proofs.World.Handles
import RetainedScene.Proofs.Walk.Batches
