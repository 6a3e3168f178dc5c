import MarketMaker.Foundation.Machine
import MarketMaker.Foundation.F64
import MarketMaker.Exchange.Order
import MarketMaker.Oms.Metrics
import MarketMaker.Oms.Risk
import MarketMaker.Oms.System
import MarketMaker.Oms.OrderTable
import MarketMaker.Oms.Integrity
import MarketMaker.Oms.Commutation
import MarketMaker.Oms.Inventory
import MarketMaker.Oms.ForeignOrders
import MarketMaker.Strategy.Inventory
import MarketMaker.Strategy.Ticks
import MarketMaker.Strategy.Submission
import MarketMaker.Strategy.Skew
import MarketMaker.Oms.Quoting
import MarketMaker.Oms.Lifecycle
import MarketMaker.Oms.Sides
import MarketMaker.Oms.Executions
import MarketMaker.Oms.Convergence
import MarketMaker.Oms.Exposure
import MarketMaker.Oms.EntryPrice
import MarketMaker.Oms.CostBasis
import MarketMaker.Exchange.PublicWs
import MarketMaker.Exchange.Deltas
import MarketMaker.Exchange.Gateway
import MarketMaker.Recorder.Horizons
import MarketMaker.Recorder.BookFeed
import MarketMaker.Recorder.Redelivery
import MarketMaker.Recorder.Extraction
import MarketMaker.Recorder.LogLine
import MarketMaker.Offline.Market
import MarketMaker.Offline.Recording
import MarketMaker.Cli.Recording
import MarketMaker.Cli.Submissions
import MarketMaker.Cli.Quotes
import MarketMaker.Cli.Progress
import MarketMaker.Cli.Replay
import MarketMaker.Cli.Restart
import MarketMaker.Cli.Requests
import MarketMaker.Cli.Settling
