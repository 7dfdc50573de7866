import FractalD.Machine.ClassicBpf
import FractalD.Machine.Seccomp
import FractalD.Platform.Errno
import FractalD.Platform.SeccompFilters
import FractalD.Machine.ExtendedBpf
import FractalD.Platform.DeviceFilter
import FractalD.Machine.CString
import FractalD.Platform.Accounts
import FractalD.Machine.Result
import FractalD.Platform.Identity
import FractalD.Platform.PrivateUsers
import FractalD.Nss.HostByName
import FractalD.Kernel.FileSystem
import FractalD.Kernel.Install
import FractalD.Kernel.Steps
import FractalD.Kernel.BootEntry
import FractalD.Kernel.Interference
import FractalD.Control.Messages
import FractalD.Machine.OrderedMap
import FractalD.Core.Record
import FractalD.Daemon.Loop
import FractalD.Daemon.Clients
import FractalD.Supervisor.System
import FractalD.Supervisor.Trigger
import FractalD.Supervisor.Service
import FractalD.Supervisor.ServicePoll
import FractalD.Core.Graph
import FractalD.Manager.Registry
import FractalD.Manager.Jobs
import FractalD.Supervisor.StartFailure
import FractalD.Machine.Faults
import FractalD.Manager.Isolation
import FractalD.Manager.Runs
import FractalD.Manager.Survival
import FractalD.Core.Lifecycle
import FractalD.Core.Restarts
import FractalD.Core.Closure
import FractalD.Machine.Precedence
import FractalD.Core.Planning
import FractalD.Core.Shutdown
import FractalD.Core.StartPlan
import FractalD.Manager.Resolution
import FractalD.Config.SyscallFilter
import FractalD.Machine.Logs
import FractalD.Manager.Fates
import FractalD.Manager.Pending
import FractalD.Supervisor.Frame
import FractalD.Supervisor.Settings
import FractalD.Supervisor.Stopping
import FractalD.Manager.StartOrder
import FractalD.Manager.Acceptance
import FractalD.Manager.Naming
import FractalD.Manager.Registration
import FractalD.Manager.Replacement
import FractalD.Supervisor.SettingsPoll
import FractalD.Manager.Standing
import FractalD.Manager.Waiting
import FractalD.Daemon.Reload
import FractalD.Daemon.Idempotence
import FractalD.Daemon.Atomicity
import FractalD.Supervisor.Execution
import FractalD.Supervisor.Coherence
import FractalD.Supervisor.Launching
import FractalD.Supervisor.Standdown
import FractalD.Supervisor.Demands
import FractalD.Supervisor.Polling
import FractalD.Supervisor.Exits
import FractalD.Supervisor.Lifetime
import FractalD.Supervisor.Teardown
import FractalD.Supervisor.Settling
import FractalD.Manager.Repeats
import FractalD.Control.State
import FractalD.Packages.Sync
import FractalD.Packages.Resync
import FractalD.Daemon.Discovery
import FractalD.Daemon.Overlay
import FractalD.Daemon.Loading
import FractalD.Daemon.Reaching
import FractalD.Daemon.Settlement
import FractalD.Machine.Paths
import FractalD.Storage.Fstab
import FractalD.Storage.Services
import FractalD.Daemon.Preparation
import FractalD.Supervisor.Calendar
import FractalD.Supervisor.MissedSchedules
import FractalD.Daemon.Journal
import FractalD.Daemon.Recording
import FractalD.Daemon.Subscribers
import FractalD.Control.Requests
import FractalD.Control.Responses
import FractalD.Control.RoundTrip
import FractalD.Config.Native
import FractalD.Config.Fragments
import FractalD.Machine.Dns
import FractalD.Resolved.Answers
import FractalD.Resolved.AnswerSafety
import FractalD.Resolved.Cache
import FractalD.Resolved.CacheSafety
import FractalD.Manager.RequisiteRestarts
import FractalD.Machine.Descriptors
import FractalD.Platform.Activation
import FractalD.Manager.DynamicUsers
import FractalD.Manager.Reaping
import FractalD.Machine.Delimited
import FractalD.Sysusers.Directives
import FractalD.Sysusers.Accounts
import FractalD.Sysusers.Integrity
import FractalD.Machine.FileTree
import FractalD.Machine.PathWalk
import FractalD.Machine.FileCalls
import FractalD.Machine.FileRemoval
import FractalD.Tmpfiles.Executor
import FractalD.Tmpfiles.Journal
import FractalD.Tmpfiles.Expansion
import FractalD.Tmpfiles.Sparing
import FractalD.Tmpfiles.Aging
import FractalD.Tmpfiles.Wildcards
import FractalD.Tmpfiles.Operands
import FractalD.Tmpfiles.Rooting
import FractalD.Manager.StopOrder
import FractalD.Core.LiveProcess
import FractalD.Core.Cycles
import FractalD.Core.RestartPrevention
import FractalD.Config.ExitStatus
import FractalD.Machine.Windows
import FractalD.Supervisor.StartLimit
import FractalD.Machine.Scan
import FractalD.Machine.Shell
import FractalD.Supervisor.Cgroup
import FractalD.Supervisor.MainPid
import FractalD.Supervisor.ShellScript
import FractalD.Supervisor.RepeatedStop
import FractalD.Supervisor.Parts
import FractalD.Supervisor.Recording
import FractalD.Supervisor.StopSignals
import FractalD.Daemon.DevicePaths
import FractalD.Daemon.SyntheticDevices
import FractalD.Daemon.TransactionTable
import FractalD.Machine.IpRoundTrip
import FractalD.Platform.Headers
import FractalD.Platform.RestrictionFilters
import FractalD.Platform.SystemCallFilter
import FractalD.Resolved.Endpoint
import FractalD.Resolved.Query
import FractalD.Storage.Tables
import FractalD.Sysusers.Quoting
import FractalD.Escape.Names
import FractalD.Escape.Strictness
import FractalD.Machine.AddressSpace
import FractalD.Machine.Globbing
import FractalD.Nss.HostEntry
import FractalD.Resolved.ResponseTtl
import FractalD.Supervisor.Wildcards
import FractalD.Sysctl.Agreement
import FractalD.Sysctl.Narrowness
import FractalD.Sysusers.Allocation
import FractalD.Sysusers.Idempotence
import FractalD.Sysusers.PrimaryGroups
import FractalD.Journal.Following
import FractalD.Supervisor.CalendarFires
import FractalD.Supervisor.CivilDate
import FractalD.Supervisor.Credentials
import FractalD.Supervisor.Directories
import FractalD.Toolbox.Modules
import FractalD.Toolbox.MountOptions
import FractalD.Udev.EventData
import FractalD.Config.Conditions
import FractalD.Storage.Descriptors
import FractalD.Storage.Ordering
import FractalD.Sysctl.Apply
import FractalD.Platform.Confinement
