import Monosecret.Cache.Ownership
import Monosecret.Providers.OnceMap
import Monosecret.Providers.Isolation
import Monosecret.Providers.FileStore
import Monosecret.Providers.External
import Monosecret.Serve.Lifecycle
import Monosecret.Resolve.Bootstrap
import Monosecret.Executor.ChildEnv
import Monosecret.Rpc.Frame
import Monosecret.Rpc.ServerCallbacks
import Monosecret.Rpc.ServerSlots
import Monosecret.Rpc.SessionCrossing
import Monosecret.IpcResolver.Answers
import Monosecret.Integration.Files
import Monosecret.Integration.GitHelper
import Monosecret.Cache.MaxAge
import Monosecret.Executor.Composed
import Monosecret.Manifest.RefTemplate
import Monosecret.Manifest.Written
import Monosecret.Rpc.ClientCorrelation
import Monosecret.Generate.Accepted
import Monosecret.Codegen.Names
import Monosecret.Providers.ExternalBatch
import Monosecret.Providers.Pulumi
import Monosecret.Providers.DopplerBatch
import Monosecret.Providers.InfisicalBatch
import Monosecret.Providers.Discovered
import Monosecret.Providers.BitwardenVault
import Monosecret.Providers.Dashlane
import Monosecret.Providers.ProtonPassBatch
import Monosecret.Providers.CredentialBroker
import Monosecret.Providers.AacSha256
import Monosecret.Providers.Bws
import Monosecret.Providers.Awssm
import Monosecret.Providers.DiscoveryAgreement
import Monosecret.Generate.Pkcs12
import Monosecret.Executor.Agreement
import Monosecret.Executor.GithubEnv
import Monosecret.Providers.AuthCheckCache
import Monosecret.Audit.RedactUri
import Monosecret.Integration.TargetPath
import Monosecret.IpcResolver.ValidUtf8
import Monosecret.Manifest.Pointers
import Monosecret.Providers.SopsTemplates
import Monosecret.Providers.SeparatedNames
import Monosecret.Providers.TokenBudget
