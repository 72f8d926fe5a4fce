import PackageRegistry.Lib.Runs
import PackageRegistry.Lib.WriteOnce
import PackageRegistry.Lib.Double
import PackageRegistry.Lib.DirectoryTree
import PackageRegistry.Lib.Tuples
import PackageRegistry.Lib.Json
import PackageRegistry.Lib.JsonRoundTrip
import PackageRegistry.Lib.JsonNumbers
import PackageRegistry.Lib.JsonCanonical
import PackageRegistry.Promotion.Binding
import PackageRegistry.Registry.Semver
import PackageRegistry.Registry.Precedence
import PackageRegistry.Registry.Url
import PackageRegistry.Registry.Module
import PackageRegistry.Registry.Validate
import PackageRegistry.Store.Publish
import PackageRegistry.Store.Immutability
import PackageRegistry.Store.Agreement
import PackageRegistry.Store.Durability
import PackageRegistry.Lib.Transactions
import PackageRegistry.Lib.Interference
import PackageRegistry.Lib.Table
import PackageRegistry.Auth.Sessions
import PackageRegistry.Auth.Revocation
import PackageRegistry.Lib.StableSort
import PackageRegistry.Registry.Index
import PackageRegistry.Registry.Accepted
import PackageRegistry.Registry.Completeness
import PackageRegistry.Registry.Immutability
import PackageRegistry.Registry.History
import PackageRegistry.Registry.Hosted
import PackageRegistry.Registry.FirstParty
import PackageRegistry.Registry.Channels
import PackageRegistry.Registry.Build
import PackageRegistry.Registry.Baseline
import PackageRegistry.Registry.Ranges
import PackageRegistry.Lib.Hindsight
import PackageRegistry.Auth.Families
import PackageRegistry.Auth.Rotation
import PackageRegistry.Auth.ResetTokens
import PackageRegistry.Auth.RateLimit
import PackageRegistry.Auth.Recency
import PackageRegistry.Browser.AuthPlugin
import PackageRegistry.Browser.Finality
import PackageRegistry.Browser.Versions
import PackageRegistry.Browser.Pages
import PackageRegistry.Api.Representations
import PackageRegistry.Api.Versions
import PackageRegistry.Accounts.Superusers
import PackageRegistry.Accounts.TotpSetup
import PackageRegistry.Accounts.Ceremonies
import PackageRegistry.Accounts.SecondFactors
import PackageRegistry.Accounts.LoginAttempts
import PackageRegistry.Lib.Checks
import PackageRegistry.Lib.JsonEquality
import PackageRegistry.Lib.Packaging
import PackageRegistry.Builder.Tag
import PackageRegistry.Builder.Acceptance
import PackageRegistry.Builder.Rebuild
import PackageRegistry.Deploy.Pruning
import PackageRegistry.Lib.OrderedDict
import PackageRegistry.Auth.MemoryWindows
import PackageRegistry.Registry.Download
import PackageRegistry.Lib.Base64
import PackageRegistry.Lib.JsonCompact
import PackageRegistry.Auth.OAuthFlow
import PackageRegistry.Lib.Raising
import PackageRegistry.Lib.Guards
import PackageRegistry.Lib.FileTree
import PackageRegistry.Lib.FileSteps
import PackageRegistry.Registry.Replacement
import PackageRegistry.Registry.AllOrNothing
import PackageRegistry.Registry.OutputInside
import PackageRegistry.Registry.SourceKept
import PackageRegistry.Database.Tables
import PackageRegistry.Database.Repository
import PackageRegistry.Database.Importing
import PackageRegistry.Database.Promoting
import PackageRegistry.Database.Rules
import PackageRegistry.Database.Modules
import PackageRegistry.Registry.Republished
import PackageRegistry.Store.Publishers
import PackageRegistry.Store.Mirror
import PackageRegistry.Store.Resuming
import PackageRegistry.Database.Histories
import PackageRegistry.Accounts.OneOwner
