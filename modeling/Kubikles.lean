import Kubikles.Watch.Proofs.TraceLaw
import Kubikles.Store.Proofs.Coalesced
import Kubikles.Log.Proofs.Order
import Kubikles.Watch.Proofs.Subscribed
import Kubikles.Watch.Proofs.Cursor
import Kubikles.Forward.Proofs.Orphans
import Kubikles.Request.Proofs.Accounting
import Kubikles.Watch.Proofs.Paced
import Kubikles.PodLog.Proofs.Streaming
import Kubikles.PodLog.Proofs.Reconnect
import Kubikles.Ingress.Proofs.Redirects
import Kubikles.Mcp.Proofs.Serve
import Kubikles.Ai.Proofs.Grants
import Kubikles.Ai.Proofs.Authority
import Kubikles.Ai.Proofs.History
import Kubikles.Ai.Proofs.OneEnd
import Kubikles.PodLog.Proofs.MultiLog
import Kubikles.Ai.Proofs.Generations
import Kubikles.Terminal.Proofs.Disconnect
import Kubikles.Deps.Proofs.Connected
import Kubikles.Deps.Proofs.Expand
import Kubikles.Ingress.Proofs.Leftovers
import Kubikles.Listing.Proofs.Paginated
import Kubikles.Kubeconfig.Proofs.Rename
import Kubikles.Kubeconfig.Proofs.Update
import Kubikles.Actions.Proofs.Reviewed
import Kubikles.Server.Proofs.Shutdown
import Kubikles.Switching.Proofs.Crds
import Kubikles.Watch.Proofs.Reconciled
import Kubikles.Ai.Proofs.Unstuck
import Kubikles.Store.Proofs.Scope
import Kubikles.LogView.Proofs.Stream
import Kubikles.LogView.Proofs.Loads
import Kubikles.Forward.Proofs.View
import Kubikles.Ingress.Proofs.Blocks
import Kubikles.PodLog.Proofs.Strip
import Kubikles.Rbac.Proofs.Trace
import Kubikles.Diff.Proofs.Ignored
import Kubikles.Diff.Proofs.Changes
import Kubikles.Files.Proofs.Listing
import Kubikles.Files.Proofs.Commands
import Kubikles.Metrics.Proofs.Requests
import Kubikles.Metrics.Proofs.Nodes
import Kubikles.Switching.Proofs.OneContext
import Kubikles.Issues.Ingresses
import Kubikles.Helm.Proofs.Failures
import Kubikles.Config.Proofs.RoundTrip
import Kubikles.Helm.Proofs.Repos
import Kubikles.Auth.Proofs.ExecAuth
import Kubikles.Metrics.Proofs.History
import Kubikles.LogView.Proofs.Batching
import Kubikles.Helm.Proofs.Oci
import Kubikles.Timeline.Proofs.Flow
import Kubikles.Helm.Proofs.Manifest
import Kubikles.Polling.Budget
import Kubikles.Store.Snapshots
import Kubikles.Listing.Scope
import Kubikles.Terminal.Session
import Kubikles.Theme.Manager
import Kubikles.LogView.Copied
import Kubikles.Table.Selection
import Kubikles.Table.SavedViews
import Kubikles.LogView.Proofs.Highlight
import Kubikles.Table.Proofs.Query
import Kubikles.Issues.CustomRules
import Kubikles.Actions.SetField
import Kubikles.PodLog.BoundedPage
import Kubikles.Watch.Failures
import Kubikles.LogView.Pages
import Kubikles.Ai.Proofs.Composed
import Kubikles.Panel.Tabs
import Kubikles.PodList.Notifications
import Kubikles.Settings.Proofs.Stored
import Kubikles.Switching.Proofs.Paused
