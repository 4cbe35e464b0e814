import TaskFleet.LocalCommand.Host
import TaskFleet.Main
import TaskFleet.Proofs.Autoscale.GiveUp
import TaskFleet.Proofs.Dispatch.ConfirmationGate
import TaskFleet.Proofs.Dispatch.SlotKeeping
import TaskFleet.Proofs.Store.Exclusion
import TaskFleet.Report
import TaskFleet.Simulation
import TaskFleet.Proofs.Calls
import TaskFleet.Proofs.Dispatch.SlotLeaks
import TaskFleet.Proofs.Autoscale.BusyPods
import TaskFleet.Proofs.Autoscale.ScaleDown
import TaskFleet.Proofs.Dispatch.ClaimHistory
import TaskFleet.Proofs.Dispatch.ClaimSteps
import TaskFleet.Proofs.Dispatch.HandOvers
import TaskFleet.Proofs.Recovery.Sweep
import TaskFleet.Proofs.Dispatch.AdministrativeHold
import TaskFleet.Proofs.Dispatch.UniquePlacement
import TaskFleet.Proofs.Dispatch.ApplyAffinity
import TaskFleet.Proofs.Store.Selection
import TaskFleet.Proofs.Recovery.StartUp
import TaskFleet.Proofs.Capacity.PoolCalls
import TaskFleet.Proofs.Capacity.FreedSlots
import TaskFleet.Proofs.Capacity.BoundSlots
import TaskFleet.Proofs.Capacity.ExclusiveSlots
import TaskFleet.Proofs.Autoscale.Progress
import TaskFleet.Proofs.Dispatch.HeadOfLine
import TaskFleet.Proofs.Dispatch.PersistedSends
import TaskFleet.Proofs.Dispatch.Isolation
import TaskFleet.Proofs.Turns
import TaskFleet.Proofs.Service.QueueDriver
import TaskFleet.Proofs.Recovery.LateSweeps
import TaskFleet.Proofs.Dispatch.LocalRuns
import TaskFleet.Proofs.Capacity.LivePods
import TaskFleet.Proofs.Autoscale.ReplicaCeiling
import TaskFleet.Proofs.Agent.Sends
import TaskFleet.Proofs.Capacity.AgentBindings
import TaskFleet.Proofs.Dispatch.Confirmations
import TaskFleet.Proofs.Autoscale.DesiredPods
import TaskFleet.Proofs.Capacity.Reconciliation
import TaskFleet.Proofs.Capacity.PodOperations
import TaskFleet.Proofs.Autoscale.ScaleReport
import TaskFleet.Proofs.Recovery.DeadClaims
import TaskFleet.Proofs.Dispatch.LocalEndings
import TaskFleet.Proofs.Dispatch.RetryAccounting
import TaskFleet.Proofs.Dispatch.SoloAttempts
import TaskFleet.Proofs.Dispatch.FailedSends
import TaskFleet.Proofs.Dispatch.ScaleUpRequests
import TaskFleet.Proofs.Autoscale.IdlePools
import TaskFleet.Proofs.Queue.EarliestDeadlines
import TaskFleet.Proofs.Queue.RetryDelays
import TaskFleet.Proofs.Autoscale.FreezeWindows
import TaskFleet.Proofs.Autoscale.RestartTrails
import TaskFleet.Proofs.Queue.DelayGrowth
import TaskFleet.Proofs.Queue.ScheduledDelays
import TaskFleet.Proofs.LocalCommand.RowEndings
import TaskFleet.Proofs.Store.StoredRows
import TaskFleet.Proofs.Store.ScanOrder
import TaskFleet.Proofs.LocalCommand.FailureMessages
import TaskFleet.Proofs.Config.RoundTrip
