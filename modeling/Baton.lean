/-
# Baton — a model of the baton job queue and proofs about it
-/
import Baton.Check.LeaseModel
import Baton.Log.Damage
import Baton.Log.Refusal
import Baton.Log.TornTail
import Baton.Log.WriterRestart
import Baton.Net.RespChunks
import Baton.Run.BestJob
import Baton.Run.Delivery
import Baton.Run.Fencing
import Baton.Run.Hostile
import Baton.Run.SnapshotSizes
import Baton.Run.Times
import Baton.Sched.WheelSet
import Baton.Sdk.EnqueueOnce
import Baton.Sdk.LedgerRuns
import Baton.Sdk.Worker
import Baton.Server.Gating
import Baton.Server.Wakeup
