import RegistryFleet.Backend.Call
import RegistryFleet.Backend.Deletion
import RegistryFleet.Backend.Memory
import RegistryFleet.Cluster.Api
import RegistryFleet.Cluster.Form
import RegistryFleet.Cluster.Manifests
import RegistryFleet.Cluster.Object
import RegistryFleet.Cluster.Store
import RegistryFleet.Command.Complaint
import RegistryFleet.Command.Display
import RegistryFleet.Command.Execution
import RegistryFleet.Command.Form
import RegistryFleet.Command.Invocation
import RegistryFleet.Command.Manual
import RegistryFleet.Command.Moment
import RegistryFleet.Command.Words
import RegistryFleet.Copy.Job
import RegistryFleet.Copy.Shell
import RegistryFleet.Copy.Sync
import RegistryFleet.Copy.Tool
import RegistryFleet.Credential.Directory
import RegistryFleet.Credential.Key
import RegistryFleet.Credential.Secret
import RegistryFleet.Credential.Stored
import RegistryFleet.Data
import RegistryFleet.Decimal.Binary64
import RegistryFleet.Fleet.Declaration
import RegistryFleet.Fleet.Error
import RegistryFleet.Fleet.Options
import RegistryFleet.Fleet.Project
import RegistryFleet.Fleet.Registry
import RegistryFleet.Fleet.Snapshot
import RegistryFleet.Json.Node
import RegistryFleet.Json.Typed
import RegistryFleet.Json.Writer
import RegistryFleet.Keyed
import RegistryFleet.Mismatch
import RegistryFleet.Reconcile.Action
import RegistryFleet.Reconcile.Diff
import RegistryFleet.Reconcile.Failure
import RegistryFleet.Reconcile.Interruption
import RegistryFleet.Reconcile.Loop
import RegistryFleet.Reconcile.Report
import RegistryFleet.Reconcile.Run
import RegistryFleet.Reconcile.Schedule
import RegistryFleet.Reconcile.Settings
import RegistryFleet.Reconcile.Unit
import RegistryFleet.Reconcile.Work
import RegistryFleet.Reconcile.World
import RegistryFleet.Storage.Files
import RegistryFleet.Text.Base64
import RegistryFleet.Text.Blank
import RegistryFleet.Text.Cut
import RegistryFleet.Text.Digits
import RegistryFleet.Text.Quoted
import RegistryFleet.Text.Utf8
import RegistryFleet.Text.Visible
import RegistryFleet.Topology.Edge
import RegistryFleet.Topology.Plan
import RegistryFleet.Topology.Trigger
import RegistryFleet.Vendor.Acr
import RegistryFleet.Vendor.Adapter
import RegistryFleet.Vendor.Artifactory
import RegistryFleet.Vendor.Harbor
import RegistryFleet.Web.Connection
import RegistryFleet.Web.Exchange
import RegistryFleet.Web.Host
import RegistryFleet.Web.Peer
import RegistryFleet.Web.Percent
import RegistryFleet.Web.Settings
import RegistryFleet.Web.Url
import RegistryFleet.Yaml.Character
import RegistryFleet.Yaml.Cursor
import RegistryFleet.Yaml.Event
import RegistryFleet.Yaml.Lexeme
import RegistryFleet.Yaml.Node
import RegistryFleet.Yaml.Plain
import RegistryFleet.Yaml.Scalar
import RegistryFleet.Yaml.Token
import RegistryFleet.Yaml.Typed
import RegistryFleet.Yaml.Writer
import RegistryFleet.Main
import RegistryFleet.Proofs.Keyed
import RegistryFleet.Proofs.Backend.Memory
import RegistryFleet.Proofs.Fleet.Snapshot
import RegistryFleet.Proofs.Reconcile.Interleaving
import RegistryFleet.Proofs.Reconcile.Ownership
import RegistryFleet.Proofs.Reconcile.Diff
import RegistryFleet.Proofs.Reconcile.InMemory
import RegistryFleet.Proofs.Reconcile.ProjectPhase
import RegistryFleet.Proofs.Reconcile.MemberPhase
import RegistryFleet.Proofs.Reconcile.Stillness
import RegistryFleet.Proofs.Reconcile.Convergence
import RegistryFleet.Proofs.Reconcile.Report
import RegistryFleet.Proofs.Reconcile.Truthful
import RegistryFleet.Proofs.Storage.Files
import RegistryFleet.Proofs.Copy.Names
import RegistryFleet.Proofs.Copy.Survival
import RegistryFleet.Proofs.Credential.Directory
import RegistryFleet.Proofs.Credential.Robots
import RegistryFleet.Proofs.Credential.Lockstep
import RegistryFleet.Proofs.Reconcile.Course
import RegistryFleet.Proofs.Reconcile.Safekeeping
import RegistryFleet.Proofs.Web.Exchange
import RegistryFleet.Proofs.Web.Connection
import RegistryFleet.Proofs.Vendor.Adapter
import RegistryFleet.Proofs.Vendor.Deletion
import RegistryFleet.Proofs.Reconcile.Handling
import RegistryFleet.Proofs.Reconcile.Cutoff
import RegistryFleet.Proofs.Reconcile.InTurn
import RegistryFleet.Proofs.Reconcile.Determined
import RegistryFleet.Proofs.Reconcile.OrderFree
import RegistryFleet.Proofs.Reconcile.Preview
import RegistryFleet.Proofs.Topology.Plan
import RegistryFleet.Proofs.Copy.Shell
import RegistryFleet.Proofs.Copy.Delivery
import RegistryFleet.Proofs.Text.ReadBack
import RegistryFleet.Proofs.Json.ReadBack
import RegistryFleet.Proofs.Json.Typed
import RegistryFleet.Proofs.Json.Document
import RegistryFleet.Proofs.Json.Place
import RegistryFleet.Proofs.Credential.Config
import RegistryFleet.Proofs.Yaml.Gap
import RegistryFleet.Proofs.Yaml.Quoted
import RegistryFleet.Proofs.Yaml.Plain
import RegistryFleet.Proofs.Yaml.Literal
import RegistryFleet.Proofs.Yaml.Scalar
import RegistryFleet.Proofs.Yaml.Tree
import RegistryFleet.Proofs.Yaml.Lexer
import RegistryFleet.Proofs.Yaml.Block
import RegistryFleet.Proofs.Yaml.Flow
import RegistryFleet.Proofs.Credential.Secret
import RegistryFleet.Proofs.Credential.Register
import RegistryFleet.Proofs.Vendor.Lookup
import RegistryFleet.Proofs.Vendor.Removal
import RegistryFleet.Proofs.Vendor.Permission
import RegistryFleet.Proofs.Vendor.Unbinding
import RegistryFleet.Proofs.Reconcile.Accounting
import RegistryFleet.Proofs.Reconcile.OneBinding
import RegistryFleet.Proofs.Vendor.Membership
import RegistryFleet.Proofs.Web.Percent
import RegistryFleet.Proofs.Web.Segment
import RegistryFleet.Proofs.Vendor.Apart
import RegistryFleet.Proofs.Copy.Script
import RegistryFleet.Proofs.Reconcile.ActionLoop
import RegistryFleet.Proofs.Vendor.Listing
import RegistryFleet.Proofs.Reconcile.Image
import RegistryFleet.Proofs.Copy.Contents
import RegistryFleet.Proofs.Reconcile.Passwords
import RegistryFleet.Proofs.Copy.Passwords
import RegistryFleet.Proofs.Reconcile.Difference
import RegistryFleet.Proofs.Vendor.Pagination
import RegistryFleet.Proofs.Topology.Trigger
import RegistryFleet.Proofs.Copy.Schedule
import RegistryFleet.Proofs.Backend.Deletion
import RegistryFleet.Proofs.Text.ByteOrder
import RegistryFleet.Proofs.Vendor.Catalog
import RegistryFleet.Proofs.Reconcile.Status
import RegistryFleet.Proofs.Copy.Label
import RegistryFleet.Proofs.Fleet.WellFormed
import RegistryFleet.Proofs.Backend.Atomic
import RegistryFleet.Proofs.Copy.Switching
import RegistryFleet.Proofs.Text.Mark
import RegistryFleet.Proofs.Vendor.Robot
import RegistryFleet.Proofs.Web.Host
import RegistryFleet.Proofs.Web.Authority
