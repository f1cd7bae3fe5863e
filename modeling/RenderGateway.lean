import RenderGateway.Proofs.Client.Agreement
import RenderGateway.Proofs.Command.ShellWords
import RenderGateway.Proofs.Encoder.Forwarding
import RenderGateway.Proofs.Engine.Routing
import RenderGateway.Proofs.Graph.DrawnText
import RenderGateway.Proofs.Graph.Fades
import RenderGateway.Proofs.Graph.OverlayOptions
import RenderGateway.Proofs.Graph.Tempo
import RenderGateway.Proofs.Graph.TimeText
import RenderGateway.Proofs.Job.Coherence
import RenderGateway.Proofs.Json.ShortNumerals
import RenderGateway.Proofs.Plan.Alignment
import RenderGateway.Proofs.Plan.Assets
import RenderGateway.Proofs.Queue.Claims
import RenderGateway.Proofs.Queue.Fifo
import RenderGateway.Proofs.Queue.Lifecycle
import RenderGateway.Proofs.Queue.Retention
import RenderGateway.Proofs.Queue.Unchanged
import RenderGateway.Proofs.Render.Confinement
import RenderGateway.Proofs.Render.EngineChoice
import RenderGateway.Proofs.Render.Inputs
import RenderGateway.Proofs.Render.LogEntries
import RenderGateway.Proofs.Server.PathLabels
import RenderGateway.Proofs.Store.References
import RenderGateway.Proofs.Transform.Probing
import RenderGateway.Server.Respond
import RenderGateway.Wire
