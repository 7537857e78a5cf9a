import Workbay.Review.Proofs.LegacyProofs
import Workbay.Review.Proofs.LegacySourcesProofs
import Workbay.Wave.Proofs.StatusProofs
import Workbay.Wave.Proofs.LifecycleProofs
import Workbay.Ancestry.Proofs.DischargeProofs
import Workbay.Gate.Proofs.ExclusionProofs
import Workbay.Gate.Proofs.TestSelectionProofs
import Workbay.Queue.Proofs.FifoProofs
import Workbay.Events.Proofs.DeliveryProofs
import Workbay.RemoteJobs.Proofs.WakeProofs
import Workbay.Routing.Proofs.ResolveProofs
import Workbay.Leases.Proofs.ExclusionProofs
import Workbay.Completion.Proofs.EvaluateProofs
import Workbay.Completion.Proofs.InboxProofs
import Workbay.Handoff.Proofs.FenceProofs
import Workbay.Completion.Proofs.ContinuityProofs
import Workbay.Guard.Proofs.PorcelainProofs
import Workbay.Guard.Proofs.PatchProofs
import Workbay.Completion.Proofs.ReceiptProofs
import Workbay.Leases.Proofs.CodemapProofs
import Workbay.Breaker.Proofs.RecoveryProofs
import Workbay.Projection.Proofs.RunProofs
import Workbay.Reading.Proofs.PlanProofs
import Workbay.Reading.Proofs.FinalBudgetProofs
import Workbay.Retention.Proofs.AdmissionProofs
import Workbay.Retention.Proofs.EventProofs
import Workbay.Wave.Proofs.AdmissionProofs
import Workbay.Schedule.Proofs.LandingProofs
import Workbay.Wave.Proofs.PathProofs
import Workbay.Wave.Proofs.SelectionProofs
import Workbay.Schedule.Proofs.CriticalProofs
import Workbay.Compiler.Proofs.HoldProofs
import Workbay.Landing.Proofs.CarrierProofs
import Workbay.Coordination.Proofs.MatchProofs
import Workbay.Reading.Proofs.StampProofs
import Workbay.Ancestry.Proofs.ReapOrderProofs
import Workbay.Reservation.Proofs.AdmissionProofs
import Workbay.Compiler.Proofs.PartitionProofs
