import OpenstackBlueprint.Chart.Capabilities
import OpenstackBlueprint.Chart.Compositions
import OpenstackBlueprint.Chart.Data
import OpenstackBlueprint.Chart.Gate
import OpenstackBlueprint.Chart.Install
import OpenstackBlueprint.Chart.Interval
import OpenstackBlueprint.Chart.Nodes
import OpenstackBlueprint.Chart.Selection
import OpenstackBlueprint.Chart.Versions
import OpenstackBlueprint.Emitter.Catalog
import OpenstackBlueprint.Emitter.ClickHouse
import OpenstackBlueprint.Emitter.Health
import OpenstackBlueprint.Emitter.Record
import OpenstackBlueprint.Emitter.Usage
import OpenstackBlueprint.Emitter.Window
import OpenstackBlueprint.Gates.CannotSkip
import OpenstackBlueprint.Gates.ComponentDag
import OpenstackBlueprint.Gates.ComponentGraph
import OpenstackBlueprint.Gates.ConfigFiles
import OpenstackBlueprint.Gates.Provisioning
import OpenstackBlueprint.Gates.ReadinessDeadlock
import OpenstackBlueprint.Gates.SameNode
import OpenstackBlueprint.Generate.ComponentValues
import OpenstackBlueprint.HelmToolkit.DaemonsetOverrides
import OpenstackBlueprint.HelmToolkit.Dependencies
import OpenstackBlueprint.HelmToolkit.DependencyEffects
import OpenstackBlueprint.HelmToolkit.Entrypoint
import OpenstackBlueprint.Keystone.FernetManage
import OpenstackBlueprint.Kit.Base64
import OpenstackBlueprint.Kit.Bfs
import OpenstackBlueprint.Kit.Calendar
import OpenstackBlueprint.Kit.Comm
import OpenstackBlueprint.Kit.Components
import OpenstackBlueprint.Kit.Cron
import OpenstackBlueprint.Kit.Dict
import OpenstackBlueprint.Kit.Encoding
import OpenstackBlueprint.Kit.JsonSchema
import OpenstackBlueprint.Kit.MiniPython
import OpenstackBlueprint.Kit.Nested
import OpenstackBlueprint.Kit.Occ
import OpenstackBlueprint.Kit.Python
import OpenstackBlueprint.Kit.Rbac
import OpenstackBlueprint.Kit.Reach
import OpenstackBlueprint.Kit.Script
import OpenstackBlueprint.Kit.Slots
import OpenstackBlueprint.Kit.TSys
import OpenstackBlueprint.Kit.Tarjan
import OpenstackBlueprint.Kit.Text
import OpenstackBlueprint.Kit.Value
import OpenstackBlueprint.Kit.Waits
import OpenstackBlueprint.Kit.WaysOut
import OpenstackBlueprint.Mariadb.Start
import OpenstackBlueprint.Migrate.Finish
import OpenstackBlueprint.Migrate.Inventory
import OpenstackBlueprint.Migrate.Kube
import OpenstackBlueprint.Migrate.Prepare
import OpenstackBlueprint.Migrate.Trace
import OpenstackBlueprint.Powerdns.ApiKeyInit
import OpenstackBlueprint.Powerdns.DbSync
import OpenstackBlueprint.Revendor.Merge
import OpenstackBlueprint.Theorems.AbacGuard
import OpenstackBlueprint.Theorems.ConfigFileGate
import OpenstackBlueprint.Theorems.CopyCheck
import OpenstackBlueprint.Theorems.CreationOrder
import OpenstackBlueprint.Theorems.CycleWitness
import OpenstackBlueprint.Theorems.DagGate
import OpenstackBlueprint.Theorems.DeadlockGate
import OpenstackBlueprint.Theorems.DependencyWaits
import OpenstackBlueprint.Theorems.EmitVersion
import OpenstackBlueprint.Theorems.EntrypointEnv
import OpenstackBlueprint.Theorems.FernetKeys
import OpenstackBlueprint.Theorems.GaleraBootstrap
import OpenstackBlueprint.Theorems.GaleraReboot
import OpenstackBlueprint.Theorems.HealthEndpoints
import OpenstackBlueprint.Theorems.HealthRows
import OpenstackBlueprint.Theorems.HealthTable
import OpenstackBlueprint.Theorems.MigrateOrder
import OpenstackBlueprint.Theorems.MigrateResume
import OpenstackBlueprint.Theorems.NewestServed
import OpenstackBlueprint.Theorems.NoPrune
import OpenstackBlueprint.Theorems.NodeLabels
import OpenstackBlueprint.Theorems.NodeRead
import OpenstackBlueprint.Theorems.OverrideScheduling
import OpenstackBlueprint.Theorems.PartialOverrides
import OpenstackBlueprint.Theorems.PowerdnsKey
import OpenstackBlueprint.Theorems.PowerdnsSchema
import OpenstackBlueprint.Theorems.ProfileClosure
import OpenstackBlueprint.Theorems.RelaxationMinimal
import OpenstackBlueprint.Theorems.RenderTotal
import OpenstackBlueprint.Theorems.RevendorRuns
import OpenstackBlueprint.Theorems.SameNodeGate
import OpenstackBlueprint.Theorems.SccSearch
import OpenstackBlueprint.Theorems.SelectionClosure
import OpenstackBlueprint.Theorems.SkipGate
import OpenstackBlueprint.Theorems.ThreeWayMerge
import OpenstackBlueprint.Theorems.Tiers
import OpenstackBlueprint.Theorems.UsageRecords
import OpenstackBlueprint.Theorems.Windows
