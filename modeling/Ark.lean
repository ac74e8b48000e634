import Ark.Lib.KeySet
import Ark.Lib.Steps
import Ark.Lib.Effect
import Ark.Lib.Replay
import Ark.Lib.Restart
import Ark.Lib.Commute
import Ark.GovTimelock.Deposits
import Ark.GovTimelock.Order
import Ark.GovTimelock.Execution
import Ark.GovTimelock.Import
import Ark.GovTimelock.RoundTrip
import Ark.GovTimelock.Punctual
import Ark.GovTimelock.Stock
import Ark.GovTimelock.Restart
import Ark.LaunchGuardrail
import Ark.LaunchGuardrail.Accounting
import Ark.LaunchGuardrail.Roles
import Ark.LaunchGuardrail.Tokens
import Ark.LaunchGuardrail.Tvl
import Ark.LaunchGuardrail.Windows
import Ark.LaunchGuardrail.EventLog
import Ark.LaunchGuardrail.Exit
import Ark.Ante
import Ark.Ante.Blocking
import Ark.Ante.ChainIDs
import Ark.DenomMetadata
import Ark.DenomMetadata.Corrections
import Ark.Lib.Python
import Ark.ReleaseGate
import Ark.ReleaseGate.Weakening
import Ark.BlockEvents
import Ark.BlockEvents.Reversible
import Ark.CollectGentx
import Ark.CollectGentx.Certificates
import Ark.CollectGentx.Gate
import Ark.DenomMetadata.Decimals
import Ark.DistrClaim
import Ark.DistrClaim.Claiming
import Ark.DistrClaim.ProbeGas
import Ark.Export
import Ark.Export.Reset
import Ark.Export.Fork
import Ark.Faucet
import Ark.Faucet.DailyCap
import Ark.Faucet.Retry
import Ark.LaunchGuardrail.Views
import Ark.Sanction.Updates
import Ark.Sanction.Restart
import Ark.GovTimelock.Notice
import Ark.Sanction.Governance
import Ark.Lib.Buffer
import Ark.DistrClaim.Abi
import Ark.DistrClaim.Execute
import Ark.DistrClaim.Custody
import Ark.Lib.Pool
import Ark.Queries
import Ark.Queries.Pooling
import Ark.BlockEvents.Recovery
import Ark.ChainID
import Ark.Coins
import Ark.CollectGentx.Reencoding
import Ark.DistrClaim.CallData
import Ark.Faucet.Keys
import Ark.GenAccounts
import Ark.GenAccounts.Adding
import Ark.GenAccounts.Building
import Ark.GovTimelock.Keys
import Ark.Lib.GoJson
import Ark.Lib.GoJson.Decoding
import Ark.ReleaseGate.Coverage
import Ark.UnwrapERC20
import Ark.UnwrapERC20.Outcomes
import Ark.CollectGentx.FirstCome
import Ark.ReleaseGate.Tagging
