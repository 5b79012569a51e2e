import WincredLibsecret.EffectProgram
import WincredLibsecret.EffectAction
import WincredLibsecret.TextCodec
import WincredLibsecret.ProtocolModel
import WincredLibsecret.ProtocolTarget
import WincredLibsecret.ProtocolVault
import WincredLibsecret.ProtocolMessage
import WincredLibsecret.CborFormat
import WincredLibsecret.ProtocolCodec
import WincredLibsecret.BrokerBackend
import WincredLibsecret.KeyedRecords
import WincredLibsecret.BrokerService
import WincredLibsecret.BrokerRules
import WincredLibsecret.BrokerInvariant
import WincredLibsecret.BrokerRuns
import WincredLibsecret.BrokerView
import WincredLibsecret.BrokerAtomicity
import WincredLibsecret.BrokerRecovery
import WincredLibsecret.BrokerReplace
import WincredLibsecret.BrokerUpdates
import WincredLibsecret.ProviderSession
import WincredLibsecret.ProviderService
import WincredLibsecret.EffectPool
import WincredLibsecret.ProviderUpdates
import WincredLibsecret.ByteStream
import WincredLibsecret.ProtocolFrame
import WincredLibsecret.ProtocolSizes
import WincredLibsecret.BrokerListing
import WincredLibsecret.EffectRelation
import WincredLibsecret.EffectOutcome
import WincredLibsecret.BrokerIsolation
import WincredLibsecret.KeyDerivation
import WincredLibsecret.ProviderCrypto
import WincredLibsecret.ProviderOwnership
import WincredLibsecret.ProviderDisconnect
import WincredLibsecret.BrokerRetention
import WincredLibsecret.BrokerFootprint
import WincredLibsecret.ProviderSecrets
import WincredLibsecret.ProviderCalls
import WincredLibsecret.ProviderObjects
import WincredLibsecret.ProviderSharing
import WincredLibsecret.BrokerCascade
import WincredLibsecret.BrokerIdeal
import WincredLibsecret.BrokerTidiness
import WincredLibsecret.BrokerReplacement
import WincredLibsecret.ProviderDouble
import WincredLibsecret.ProviderRollback
import WincredLibsecret.ProviderCreation
import WincredLibsecret.DistributionKey
import WincredLibsecret.TextCase
import WincredLibsecret.CredentialManager
import WincredLibsecret.ShellScript
import WincredLibsecret.BootstrapModel
import WincredLibsecret.BootstrapScript
import WincredLibsecret.BootstrapRules
import WincredLibsecret.BootstrapRestore
import WincredLibsecret.BootstrapRelease
import WincredLibsecret.BootstrapRollback
import WincredLibsecret.BootstrapHistory
import WincredLibsecret.ProviderPaths
import WincredLibsecret.TextScan
import WincredLibsecret.CliVersion
import WincredLibsecret.PluginHooks
import WincredLibsecret.TextUtf16
import WincredLibsecret.CliOutput
import WincredLibsecret.WindowsPath
import WincredLibsecret.CliPayload
import WincredLibsecret.SemanticVersion
import WincredLibsecret.ReleaseSelection
import WincredLibsecret.ProviderReplies
import WincredLibsecret.ProviderSearch
import WincredLibsecret.ProviderRequests
import WincredLibsecret.ProtocolWire
import WincredLibsecret.EffectYield
import WincredLibsecret.BrokerAnswers
import WincredLibsecret.BrokerServe
import WincredLibsecret.BrokerCapacity
import WincredLibsecret.EventMachine
import WincredLibsecret.ProviderBridge
import WincredLibsecret.ProviderDelivery
import WincredLibsecret.ProviderProgress
import WincredLibsecret.BrokerLock
import WincredLibsecret.CliCommands
import WincredLibsecret.CliLifecycle
import WincredLibsecret.CliRemoval
