import EmbedServer.Client
import EmbedServer.Health.Session
import EmbedServer.Http.Event
import EmbedServer.Main
import EmbedServer.Lifecycle.Tasks
import EmbedServer.Proofs.Call.Insertion
import EmbedServer.Proofs.Health.Writers
import EmbedServer.Proofs.Lifecycle.Close
import EmbedServer.Proofs.Lifecycle.Health
import EmbedServer.Proofs.Lifecycle.Schedule
import EmbedServer.Proofs.Health.Watches
import EmbedServer.Proofs.Json.Record
import EmbedServer.Proofs.Call.Message
import EmbedServer.Proofs.Client
import EmbedServer.Proofs.Call.Samples
import EmbedServer.Lifecycle.Traffic
import EmbedServer.Proofs.Http.Carried
import EmbedServer.Proofs.Lifecycle.Accounts
import EmbedServer.Proofs.Lifecycle.Traffic
import EmbedServer.Proofs.Http.Inquiry
import EmbedServer.Proofs.Http.Credentials
import EmbedServer.Proofs.Http.Surfaces
import EmbedServer.Proofs.Http.Vectors
import EmbedServer.Proofs.Call.Uncancelled
import EmbedServer.Proofs.Call.Timeline
import EmbedServer.Proofs.Http.Overheard
import EmbedServer.Proofs.Lifecycle.Stop
import EmbedServer.Proofs.Cli.Acceptance
import EmbedServer.Http.Scene
import EmbedServer.Http.Framing
import EmbedServer.Lifecycle.Scene
import EmbedServer.Proofs.Http.Streams
import EmbedServer.Proofs.Http.Bodies
import EmbedServer.Proofs.Http.Framing
import EmbedServer.Proofs.Call.Blind
import EmbedServer.Proofs.Lifecycle.Streams
import EmbedServer.Proofs.Backend.Retries
import EmbedServer.Proofs.Backend.Memo
import EmbedServer.Proofs.Lifecycle.Publishing
import EmbedServer.Proofs.Lifecycle.Arrival
import EmbedServer.Proofs.Settings.Respelling
import EmbedServer.Proofs.Settings.Wrapping
import EmbedServer.Proofs.Settings.Overlay
import EmbedServer.Proofs.Settings.Headroom
import EmbedServer.Proofs.Cancellation.OneShot
import EmbedServer.Proofs.Metrics.Exposition
