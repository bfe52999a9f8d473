import Sherwood.Lib.Outcome
import Sherwood.Lib.Dialogue
import Sherwood.Lib.Table
import Sherwood.Lib.Lts
import Sherwood.Lib.Copies
import Sherwood.Lib.Retention
import Sherwood.Lib.Cursor
import Sherwood.Lib.Utf8
import Sherwood.Lib.Lines
import Sherwood.Lib.HashChain
import Sherwood.Lib.Sha256
import Sherwood.Lib.Broadcast
import Sherwood.Lib.Inventory
import Sherwood.Lib.SharedCell
import Sherwood.Lib.BigEndian
import Sherwood.Lib.Rlp
import Sherwood.Lib.Abi
import Sherwood.Lib.Meter
import Sherwood.Lib.FileWrite
import Sherwood.Decimal
import Sherwood.Json
import Sherwood.Core.Types
import Sherwood.Core.Rfc3339
import Sherwood.Core.Portfolio
import Sherwood.Core.Ledger
import Sherwood.Core.Risk
import Sherwood.Core.Rounding
import Sherwood.Core.Exposure
import Sherwood.Core.Monotone
import Sherwood.Events.Bus
import Sherwood.Execution.OrderParse
import Sherwood.Execution.OrderAliases
import Sherwood.Execution.Hook
import Sherwood.Execution.Paper
import Sherwood.Cli.Runner
import Sherwood.Cli.RunInvariants
import Sherwood.Cli.RoundedRun
import Sherwood.Cli.Overdraft
import Sherwood.Cli.Backtest
import Sherwood.Cli.Tick
import Sherwood.Store.Audit
import Sherwood.Store.Tamper
import Sherwood.Store.Store
import Sherwood.Cli.RunTask
import Sherwood.Cli.RunStore
import Sherwood.Reconcile.Record
import Sherwood.Reconcile.Reconcile
import Sherwood.Reconcile.Parties
import Sherwood.Router.Router
import Sherwood.Signer.Rlp
import Sherwood.Signer.Eip1559
import Sherwood.Chain.Abi
import Sherwood.Dex.AbiDyn
import Sherwood.Dex.V4Swap
import Sherwood.Chain.Decode
import Sherwood.Chain.Hex
import Sherwood.Chain.RoundTrip
import Sherwood.Chain.PoolKey
import Sherwood.Lib.Bisect
import Sherwood.Chain.Rpc
import Sherwood.Chain.Logs
import Sherwood.Chain.Probe
import Sherwood.Chain.PlainToken
import Sherwood.Chain.Amount
import Sherwood.Chain.Price
import Sherwood.Chain.Tokens
import Sherwood.Chain.Univ4
import Sherwood.Server.Auth
import Sherwood.Server.Budget
import Sherwood.Server.Approvals
import Sherwood.Server.System
import Sherwood.Server.Api
import Sherwood.Server.ApiSteps
import Sherwood.Server.ApiServer
import Sherwood.Server.Safety
import Sherwood.Server.KillSwitch
import Sherwood.Server.ApiSafety
import Sherwood.Server.ConfigSync
import Sherwood.Server.Tickets
import Sherwood.Config.Config
import Sherwood.Config.Secrets
import Sherwood.Config.OrderTools
import Sherwood.Cli.Replay
import Sherwood.Wallets.Budget
import Sherwood.Copytrade.Mirror
import Sherwood.Secrets.Vault
import Sherwood.Cli.Restart
import Sherwood.Cli.DailyLoss
import Sherwood.Cli.DexPreview
import Sherwood.Cli.Backup
import Sherwood.Cli.Preflight
import Sherwood.Decision.Ai
import Sherwood.Decision.CallBudget
import Sherwood.Server.EventStream
import Sherwood.Server.ApprovalHistory
import Sherwood.Cli.Drawdown
import Sherwood.Cli.Feed
import Sherwood.Cli.LiveFeed
import Sherwood.Cli.ChainCommands
import Sherwood.Cli.PreviewBounds
import Sherwood.Server.RateLimit
import Sherwood.Wallets.Registry
import Sherwood.Decision.Rule
import Sherwood.Cli.RuleRun
import Sherwood.Cli.Equity
import Sherwood.Events.Subscribers
import Sherwood.Lib.Relay
import Sherwood.Chain.Http
import Sherwood.Chain.Live
import Sherwood.Reconcile.Polling
import Sherwood.Chain.ReadOnly
import Sherwood.Server.Dashboard
import Sherwood.Store.Rows
import Sherwood.Secrets.VaultRuns
import Sherwood.Server.HookBridge
import Sherwood.Server.TokenStart
import Sherwood.Server.ApprovalCards
import Sherwood.Decision.OpenAi
import Sherwood.Dex.Permit2
import Sherwood.Sniper.Screen
import Sherwood.Wallets.Pool
