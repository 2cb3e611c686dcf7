import SecretStore.Main
import SecretStore.Snapshot
import SecretStore.Proofs.Operations
import SecretStore.Proofs.Unsealing
import SecretStore.Proofs.View
import SecretStore.Proofs.Provisioning.Course
import SecretStore.Proofs.Provisioning.Material
import SecretStore.Proofs.Provisioning.Order
import SecretStore.Proofs.Provisioning.Token
import SecretStore.Proofs.Provisioning.Parts
import SecretStore.Proofs.Provisioning.Report
import SecretStore.Proofs.Provisioning.Verdict
import SecretStore.Proofs.Provisioning.Relevance
import SecretStore.Proofs.MountPoints
import SecretStore.Proofs.Provisioning.Convergence
import SecretStore.Proofs.Json.Scalars
import SecretStore.Proofs.Json.Written
import SecretStore.Proofs.Json.Printed
import SecretStore.Proofs.Json.Records
import SecretStore.Proofs.Output
import SecretStore.Proofs.Provisioning.Secrecy
import SecretStore.Proofs.Provisioning.Authentication
import SecretStore.Proofs.StatusGate
import SecretStore.Proofs.Messages
import SecretStore.Proofs.Redirects
import SecretStore.Proofs.Percent
import SecretStore.Proofs.Addresses
import SecretStore.Proofs.Targets
import SecretStore.Proofs.Config.Merge
import SecretStore.Proofs.Config.Parsed
import SecretStore.Proofs.Config.Variables
import SecretStore.Proofs.Config.Records
import SecretStore.Proofs.Config.Layers
import SecretStore.Proofs.Config.Defaults
import SecretStore.Proofs.Utf8
import SecretStore.Proofs.Preparation
import SecretStore.Proofs.Steps
import SecretStore.Proofs.Config.Values
import SecretStore.Proofs.Config.Overlay
import SecretStore.Proofs.Config.TextSettings
import SecretStore.Proofs.Resuming
import SecretStore.Proofs.MountPaths
import SecretStore.Proofs.Replies
import SecretStore.Proofs.ErrorBodies
import SecretStore.Proofs.HealthChecks
import SecretStore.Proofs.Calls
import SecretStore.Proofs.PolicyPaths
import SecretStore.Proofs.StoreAddresses
import SecretStore.Proofs.Progress
import SecretStore.Proofs.Json.InStep
import SecretStore.Proofs.Quoted
import SecretStore.Proofs.Json.Stray
import SecretStore.Proofs.Disclosure
