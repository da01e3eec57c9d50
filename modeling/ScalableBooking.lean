import ScalableBooking.Lib.FiniteMap
import ScalableBooking.Lib.Clamp
import ScalableBooking.Lib.ReadCommitted
import ScalableBooking.Lib.Steps
import ScalableBooking.Lib.RelyGuarantee
import ScalableBooking.Lib.LockOrder
import ScalableBooking.Lib.TwoRuns
import ScalableBooking.Lib.ExpiringCounter
import ScalableBooking.Lib.Javascript
import ScalableBooking.Lib.Replica
import ScalableBooking.Lib.SlidingWindow
import ScalableBooking.Lib.Hex
import ScalableBooking.Lib.SharedCell
import ScalableBooking.Lib.Ddl
import ScalableBooking.Lib.Alone
import ScalableBooking.Lib.Splice
import ScalableBooking.Lib.JsonText
import ScalableBooking.Lib.JsonWrite
import ScalableBooking.Lib.Runs
import ScalableBooking.Lib.Linearizable
import ScalableBooking.Lib.CasLoop
import ScalableBooking.Lib.ShiftXor
import ScalableBooking.Lib.MapLoop
import ScalableBooking.RouterCore.Types
import ScalableBooking.RouterCore.Scoreboard
import ScalableBooking.RouterCore.Passes
import ScalableBooking.RouterCore.Entering
import ScalableBooking.RouterCore.BoardInvariant
import ScalableBooking.RouterCore.SaferServer
import ScalableBooking.RouterCore.SingleDomain
import ScalableBooking.RouterCore.PoolStep
import ScalableBooking.RouterCore.Moves
import ScalableBooking.RouterCore.DomainCap
import ScalableBooking.RouterCore.Newcomers
import ScalableBooking.RouterCore.MaxShift
import ScalableBooking.RouterCore.ExplorationFloor
import ScalableBooking.RouterCore.Router
import ScalableBooking.RouterCore.Starvation
import ScalableBooking.RouterCore.FairDraw
import ScalableBooking.RouterCore.SafetyOverride
import ScalableBooking.RouterCore.PersistentRun
import ScalableBooking.RouterCore.Persistence
import ScalableBooking.RouterCore.LoadConservative
import ScalableBooking.RouterCore.Writers
import ScalableBooking.RouterCore.Prng
import ScalableBooking.RouterCore.Panics
import ScalableBooking.LbProxy.Headers
import ScalableBooking.LbProxy.Health
import ScalableBooking.LbProxy.Proxy
import ScalableBooking.LbProxy.InFlight
import ScalableBooking.LbProxy.Turn
import ScalableBooking.LbProxy.Dispatch
import ScalableBooking.LbProxy.RoundRobin
import ScalableBooking.LbProxy.Drain
import ScalableBooking.LbProxy.Window
import ScalableBooking.LbProxy.HealthRace
import ScalableBooking.LbProxy.TrackedBody
import ScalableBooking.LbProxy.Outbound
import ScalableBooking.LbProxy.LatencyEma
import ScalableBooking.LbProxy.Config
import ScalableBooking.LbProxy.HealthLoop
import ScalableBooking.Booking.Types
import ScalableBooking.Booking.UseCases
import ScalableBooking.Booking.Ledger
import ScalableBooking.Booking.Transactions
import ScalableBooking.Booking.Deadlock
import ScalableBooking.Booking.Ownership
import ScalableBooking.Booking.Contracts
import ScalableBooking.Booking.Agreement
import ScalableBooking.Booking.Drift
import ScalableBooking.Booking.Outcome
import ScalableBooking.Booking.Conservation
import ScalableBooking.Booking.Linearizable
import ScalableBooking.Booking.Deadline
import ScalableBooking.Booking.World
import ScalableBooking.Booking.HoldExpiry
import ScalableBooking.Booking.BookingStep
import ScalableBooking.Booking.EventOrder
import ScalableBooking.Booking.Lifecycle
import ScalableBooking.Booking.OneWinner
import ScalableBooking.Booking.UpdatedAt
import ScalableBooking.Booking.SeatLedger
import ScalableBooking.Lifecycle.Shutdown
import ScalableBooking.Lifecycle.HttpDrain
import ScalableBooking.Lifecycle.Pod
import ScalableBooking.Database.Migrations
import ScalableBooking.Auth.Password
import ScalableBooking.Auth.Register
import ScalableBooking.Auth.Login
import ScalableBooking.Auth.Sessions
import ScalableBooking.Api.Answers
import ScalableBooking.Connector.Credentials
import ScalableBooking.RateLimit.Limiter
import ScalableBooking.RateLimit.Lifetimes
import ScalableBooking.RateLimit.Recovery
import ScalableBooking.RateLimit.Isolation
import ScalableBooking.Realtime.Broadcaster
import ScalableBooking.Realtime.DebeziumMapper
import ScalableBooking.Realtime.CdcConsumer
import ScalableBooking.Realtime.Grammar
import ScalableBooking.Realtime.Exactness
import ScalableBooking.SeatPicker.Page
import ScalableBooking.SeatPicker.Convergence
import ScalableBooking.SeatPicker.Reserve
import ScalableBooking.SeatPicker.LiveLedger
import ScalableBooking.Frontend.Request
import ScalableBooking.Frontend.Session
