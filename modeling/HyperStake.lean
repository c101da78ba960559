import HyperStake.Library.LittleEndian
import HyperStake.Library.FieldReader
import HyperStake.Basic
import HyperStake.Serialize
import HyperStake.Script
import HyperStake.Transaction
import HyperStake.Voting.Proposal
import HyperStake.Voting.Recognition
import HyperStake.Voting.RoundTrip
import HyperStake.Library.Booking
import HyperStake.Library.CheckedVector
import HyperStake.Voting.Manager
import HyperStake.Voting.Admission
import HyperStake.Library.BitField
import HyperStake.Voting.Tally
import HyperStake.Voting.Exclusion
import HyperStake.Voting.Ballot
import HyperStake.Chain.Block
import HyperStake.Chain.Registry
import HyperStake.Chain.ConnectBlock
import HyperStake.Chain.TallyChain
import HyperStake.Chain.Bounds
import HyperStake.Library.CollectLoop
import HyperStake.Library.GreedyLoop
import HyperStake.Chain.Miner
import HyperStake.Chain.BlockIndex
import HyperStake.Chain.DiskIndex
import HyperStake.Chain.LoadIndex
import HyperStake.Chain.Reload
import HyperStake.Chain.Count
import HyperStake.Library.ExceptLoop
import HyperStake.Library.MarkedSum
import HyperStake.Library.Int64Sum
import HyperStake.Wallet.CoinSelection
import HyperStake.Wallet.Selection
import HyperStake.Wallet.SendProposal
import HyperStake.Wallet.Sent
import HyperStake.Wallet.Announcement
import HyperStake.Chain.CheckBlock
import HyperStake.Library.SlotMap
import HyperStake.Library.Ledger
import HyperStake.Library.LedgerIndex
import HyperStake.Chain.TxDB
import HyperStake.Chain.Spending
import HyperStake.Chain.Undoing
import HyperStake.Chain.ActiveChain
import HyperStake.Chain.Values
import HyperStake.Chain.Growth
import HyperStake.Chain.Accounts
import HyperStake.Chain.BlockSums
import HyperStake.Chain.Supply
import HyperStake.Chain.BlockFile
import HyperStake.Library.InverseIndex
import HyperStake.Chain.MemPool
import HyperStake.Library.GroupedIndex
import HyperStake.Library.WorkQueue
import HyperStake.Chain.OrphanTxs
import HyperStake.Library.LinkWalk
import HyperStake.Chain.StakeModifier
import HyperStake.Chain.ProcessBlock
import HyperStake.Chain.OrphanBlocks
import HyperStake.Chain.DuplicateStake
import HyperStake.Chain.Branches
import HyperStake.Chain.SameModifier
import HyperStake.Chain.Kernel
import HyperStake.Chain.Leftover
import HyperStake.Chain.Merkle
import HyperStake.Library.Stopping
import HyperStake.Script.Machine
import HyperStake.Script.EvalScript
import HyperStake.Library.GreedyMatch
import HyperStake.Script.Limits
import HyperStake.Chain.SigOpCount
import HyperStake.Wallet.SelectionRule
import HyperStake.Script.Standard
import HyperStake.Script.Signing
import HyperStake.Library.RetryLoop
import HyperStake.Wallet.CreateTransaction
import HyperStake.Wallet.Created
import HyperStake.Wallet.CreateCoinStake
import HyperStake.Wallet.Staked
import HyperStake.Library.NumberedRecords
import HyperStake.Wallet.MultiSend
import HyperStake.Wallet.MultiSendReload
import HyperStake.Wallet.KeyPool
import HyperStake.Wallet.WalletTx
import HyperStake.Formats
import HyperStake.Library.Decimal
import HyperStake.Wallet.WalletTxFormat
import HyperStake.DataStream
import HyperStake.Library.IndexedPool
import HyperStake.Net.Requests
import HyperStake.Net.AddrMan
import HyperStake.Net.AddrTable
import HyperStake.Net.AddrCalls
import HyperStake.Net.AddrCheck
import HyperStake.Net.AddrRuns
import HyperStake.Net.AddrFormat
import HyperStake.Net.AddrReload
import HyperStake.Wallet.SyncWithWallets
import HyperStake.Wallet.Untouched
import HyperStake.Wallet.FailedSwitch
import HyperStake.Chain.CachedHash
import HyperStake.Net.Alert
import HyperStake.Chain.BlockSignature
import HyperStake.Wallet.CryptoKeyStore
import HyperStake.Library.PrefixCode
import HyperStake.Script.SigHash
import HyperStake.Net.Framing
import HyperStake.Wallet.Confirmation
import HyperStake.Wallet.FixSpentCoins
import HyperStake.Library.Int64Group
import HyperStake.Wallet.Balance
import HyperStake.Library.Claimants
import HyperStake.Wallet.SpentCoins
import HyperStake.Wallet.MultiSendPayment
import HyperStake.Wallet.MultiSendRun
import HyperStake.Chain.KernelSearch
import HyperStake.Net.UrgentAlert
import HyperStake.Chain.ModifierRounds
import HyperStake.Chain.Reconnect
import HyperStake.Chain.TargetRequired
import HyperStake.Library.HighestRun
import HyperStake.Voting.FreeLocation
import HyperStake.Chain.ProposalStatus
import HyperStake.Chain.StatusReport
import HyperStake.Net.GetBlocks
import HyperStake.Library.Median
import HyperStake.Net.TimeOffset
import HyperStake.Chain.ForkPoint
import HyperStake.Chain.ChainLinks
import HyperStake.Chain.FindByHeight
import HyperStake.Net.Locator
import HyperStake.Chain.ExternalFile
import HyperStake.Script.PushRoundTrip
import HyperStake.Library.FirstFit
import HyperStake.Script.Combine
import HyperStake.Script.Templates
import HyperStake.Library.MergedSets
import HyperStake.Wallet.AddressGroupings
import HyperStake.Library.Renumbering
import HyperStake.Wallet.Reorder
import HyperStake.Library.Sampling
import HyperStake.Net.Eviction
import HyperStake.Net.PeersFile
import HyperStake.Net.PeersConsistent
import HyperStake.Text.Money
import HyperStake.Library.Numeral
import HyperStake.Text.Base58
import HyperStake.Library.BitGroups
import HyperStake.Text.BaseCode
import HyperStake.Wallet.Passphrase
import HyperStake.Wallet.RepairReport
import HyperStake.Wallet.UpdateSpent
import HyperStake.Wallet.GroupingsFrame
import HyperStake.Net.SpecialAddress
import HyperStake.Voting.VoteCharset
import HyperStake.Library.WordArray
import HyperStake.Util.BaseUint
import HyperStake.Library.StrideLoop
import HyperStake.Util.LockedPages
import HyperStake.Util.Mruset
import HyperStake.Util.MedianFilter
