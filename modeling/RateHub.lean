import RateHub.Frame
import RateHub.Fleet
import RateHub.Pace
import RateHub.Sync.Occupied
import RateHub.Sync.QueueThreadsProof
import RateHub.Sync.SeqlockProof
import RateHub.Sync.TripleBufferProof
import RateHub.Proof.IngestWakes
import RateHub.Proof.Handoff
import RateHub.Proof.Result
import RateHub.Proof.IngestRefines
import RateHub.Proof.Generations
import RateHub.Proof.StopSignal
import RateHub.Proof.StageOrder
import RateHub.Proof.Watchdog
import RateHub.Proof.Reruns
import RateHub.Proof.FleetExact
import RateHub.Proof.Isolation
import RateHub.Proof.CrcRemainder
import RateHub.Proof.Returns
import RateHub.Proof.Stall
import RateHub.Proof.LiveRows
import RateHub.Proof.Heartbeats
import RateHub.Proof.HoldIdle
import RateHub.Http.Streams
import RateHub.Http.Routing
import RateHub.Http.Telemetry
import RateHub.Http.Fits
import RateHub.Proof.OutputText
import RateHub.Proof.ReplayFile
import RateHub.Proof.Crash
import RateHub.Proof.Dashboard
import RateHub.Proof.RerunRequests
import RateHub.Proof.Family
import RateHub.Proof.EndToEnd
import RateHub.Proof.ExitStatus
import RateHub.Proof.Overruns
import RateHub.Http.RerunClients
