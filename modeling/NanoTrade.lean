import NanoTrade.AverageCost
import NanoTrade.Backtest.BacktestSession
import NanoTrade.Backtest.BinanceReplay
import NanoTrade.Backtest.ClosedLoop
import NanoTrade.Backtest.EquityRecorder
import NanoTrade.Backtest.FillProtocol
import NanoTrade.Backtest.FillSimulator
import NanoTrade.Backtest.LobsterFile
import NanoTrade.Backtest.LobsterLifeCycle
import NanoTrade.Backtest.LobsterReplay
import NanoTrade.Backtest.PassiveFills
import NanoTrade.Backtest.Pipeline
import NanoTrade.Backtest.QueuePosition
import NanoTrade.Backtest.QueueSnapshot
import NanoTrade.Backtest.ReplayGaps
import NanoTrade.Backtest.SimulatedOrders
import NanoTrade.Backtest.SimulatedPositions
import NanoTrade.Backtest.SyntheticIds
import NanoTrade.Backtest.TradeSides
import NanoTrade.Drawdown
import NanoTrade.Ends
import NanoTrade.Exchange.Accounts
import NanoTrade.Exchange.Clearing
import NanoTrade.Exchange.ClientTable
import NanoTrade.Exchange.ClientView
import NanoTrade.Exchange.Conservation
import NanoTrade.Exchange.Events
import NanoTrade.Exchange.FIFOSequencer
import NanoTrade.Exchange.Feed
import NanoTrade.Exchange.FreshIds
import NanoTrade.Exchange.Interchange
import NanoTrade.Exchange.InternalQueues
import NanoTrade.Exchange.Invariant
import NanoTrade.Exchange.Ledger
import NanoTrade.Exchange.MEOrderBook
import NanoTrade.Exchange.MarketDataPublisher
import NanoTrade.Exchange.Matching
import NanoTrade.Exchange.Messages
import NanoTrade.Exchange.Numbering
import NanoTrade.Exchange.OrderNumbers
import NanoTrade.Exchange.Ownership
import NanoTrade.Exchange.Reference
import NanoTrade.Exchange.Refinement
import NanoTrade.Exchange.Snapshot
import NanoTrade.Exchange.SnapshotCycle
import NanoTrade.Exchange.SnapshotSynthesizer
import NanoTrade.Exchange.UnorderedMapMEOrderBook
import NanoTrade.Exchange.WellBehaved
import NanoTrade.FromChars
import NanoTrade.LFQueue
import NanoTrade.LatencyStats
import NanoTrade.LevelBook
import NanoTrade.LevelBook.Flat
import NanoTrade.LevelBook.Insertion
import NanoTrade.LevelBook.Levels
import NanoTrade.LevelBook.Lists
import NanoTrade.LevelBook.Pointers
import NanoTrade.LevelBook.Queues
import NanoTrade.LevelBook.Rep
import NanoTrade.LevelBook.ToString
import NanoTrade.Logging
import NanoTrade.Machine
import NanoTrade.MemPool
import NanoTrade.OptMemPool
import NanoTrade.Packed
import NanoTrade.PoolCalls
import NanoTrade.Ranks
import NanoTrade.Ring
import NanoTrade.StdSort
import NanoTrade.Trading.AtRest
import NanoTrade.Trading.BestPrices
import NanoTrade.Trading.Clear
import NanoTrade.Trading.Following
import NanoTrade.Trading.IdSpace
import NanoTrade.Trading.LiveOrders
import NanoTrade.Trading.Lockstep
import NanoTrade.Trading.Market
import NanoTrade.Trading.MarketDataConsumer
import NanoTrade.Trading.MarketDataPath
import NanoTrade.Trading.MarketOrderBook
import NanoTrade.Trading.OrderManager
import NanoTrade.Trading.OrderPhase
import NanoTrade.Trading.PositionKeeper
import NanoTrade.Trading.PositionLimit
import NanoTrade.Trading.PrintedBooks
import NanoTrade.Trading.ProfitAndLoss
import NanoTrade.Trading.RandomAlgo
import NanoTrade.Trading.Recovery
import NanoTrade.Trading.RiskCheck
import NanoTrade.Trading.Separation
import NanoTrade.Trading.Session
import NanoTrade.Trading.SignTests
import NanoTrade.Trading.Strategies
import NanoTrade.Trading.TableIndices
import NanoTrade.Trading.TickerIndependence
import NanoTrade.Trading.TradingFloor
import NanoTrade.Trading.TradingSystem
import NanoTrade.Trading.WholeCycle
import NanoTrade.Transport.Burst
import NanoTrade.Transport.ExactlyOnce
import NanoTrade.Transport.ExchangeProcess
import NanoTrade.Transport.Link
import NanoTrade.Transport.OrderServer
import NanoTrade.Transport.Packets
import NanoTrade.Transport.Serving
import NanoTrade.Transport.TCPSocket
import NanoTrade.Transport.WireRequests
import NanoTrade.Types
import NanoTrade.Unwinding
