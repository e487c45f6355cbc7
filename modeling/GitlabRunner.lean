import GitlabRunner.ArtifactDownload
import GitlabRunner.BuildLifecycle
import GitlabRunner.CacheArchiver
import GitlabRunner.CacheDownload
import GitlabRunner.CiYamlParser
import GitlabRunner.ConfigReload
import GitlabRunner.DnsLabels
import GitlabRunner.DockerCleanup
import GitlabRunner.DockerServices
import GitlabRunner.DurationRounding
import GitlabRunner.HealthChecks
import GitlabRunner.HostMounts
import GitlabRunner.JobLogDelivery
import GitlabRunner.JobTraceBounds
import GitlabRunner.JobTraceFinish
import GitlabRunner.JobTraceRetry
import GitlabRunner.KubernetesCleanup
import GitlabRunner.KubernetesOverwrites
import GitlabRunner.KubernetesResources
import GitlabRunner.MachineExecutor
import GitlabRunner.MachineLimit
import GitlabRunner.MachineMaxBuilds
import GitlabRunner.MachineOwnership
import GitlabRunner.MachineScaling
import GitlabRunner.MaskList
import GitlabRunner.RegisterVolumes
import GitlabRunner.RegistryAuth
import GitlabRunner.RequestBackoff
import GitlabRunner.RunnerMetrics
import GitlabRunner.RunnerRegistrations
import GitlabRunner.SecretScrubbing
import GitlabRunner.SessionLookup
import GitlabRunner.ShellScripts
import GitlabRunner.StageProtocol
import GitlabRunner.TemporaryVolumes
import GitlabRunner.TerminalConnections
import GitlabRunner.TerminalWait
import GitlabRunner.TraceLimit
import GitlabRunner.WorkerPool
import GitlabRunner.ZipContainment
import GitlabRunner.ZipMetadata
