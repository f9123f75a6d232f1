import AdScheduler.KeyedMap
import AdScheduler.RollUp
import AdScheduler.Runs
import AdScheduler.Resources
import AdScheduler.QueueTree
import AdScheduler.TreeShape
import AdScheduler.Manager
import AdScheduler.Conservation
import AdScheduler.WoundWait
import AdScheduler.EngineCore
import AdScheduler.BindSafety
import AdScheduler.HeadOfLine
import AdScheduler.BookingPaths
import AdScheduler.GangCover
import AdScheduler.RebuildRecompute
import AdScheduler.RecoveryBarrier
import AdScheduler.DonorFloors
import AdScheduler.ReclaimChoice
import AdScheduler.ReclaimOutcome
import AdScheduler.StaleBids
import AdScheduler.TenantFences
import AdScheduler.CriticalSections
import AdScheduler.DeadNodes
import AdScheduler.LedgerCollection
import AdScheduler.NodeTallies
import AdScheduler.ReleasedPods
import AdScheduler.GangLeaves
import AdScheduler.GangTimeouts
import AdScheduler.PermitBarrier
import AdScheduler.SubmitRights
import AdScheduler.TerminalPhases
import AdScheduler.FailedGangs
import AdScheduler.GangCheckpoint
import AdScheduler.QueueDrain
import AdScheduler.Cel
import AdScheduler.DeclaredCaps
import AdScheduler.JointGuarantees
import AdScheduler.NodePreemption
import AdScheduler.QueuePolicy
import AdScheduler.ReclaimNeeded
import AdScheduler.TenantIsolation
import AdScheduler.DisruptionBudgets
import AdScheduler.GangHolds
import AdScheduler.LeafLimits
import AdScheduler.MachineInt
import AdScheduler.OverflowGate
import AdScheduler.QueueForests
import AdScheduler.QueueLookup
import AdScheduler.UnitOrder
import AdScheduler.DeviceCounts
import AdScheduler.QueueSort
import AdScheduler.Coalescing
import AdScheduler.JsonPointer
import AdScheduler.PodAdmission
import AdScheduler.ProvisioningRequests
import AdScheduler.RebuildLoop
import AdScheduler.ReclaimRuns
import AdScheduler.PodTrials
import AdScheduler.WakeUps
import AdScheduler.CelText
import AdScheduler.CountGuards
import AdScheduler.NodeScoring
import AdScheduler.PolicyTexts
import AdScheduler.StatusWrites
