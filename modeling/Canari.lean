import Canari.Lib.Machine
import Canari.Lib.JsMap
import Canari.Lib.Chain
import Canari.Lib.Table
import Canari.Lib.Wire
import Canari.Lib.Cbor
import Canari.Lib.Utf16
import Canari.Mls.Identity
import Canari.Mls.Manager
import Canari.Mls.Welcome
import Canari.Mls.PendingSubmission
import Canari.Mls.SubmissionRuns
import Canari.Mls.StagedAdd
import Canari.Mls.OwedWelcome
import Canari.Mls.DeviceTrust
import Canari.Mls.DevicePins
import Canari.Mls.CommitEvents
import Canari.Mls.DepartureRecord
import Canari.Mls.StateBlob
import Canari.Mls.ProofSplitters
import Canari.Mls.Authorship
import Canari.Mls.SendRatchet
import Canari.Mls.SpentGenerations
import Canari.Mls.PerGroupScheduler
import Canari.Mls.SchedulerOrder
import Canari.Chat.EpochSendBarrier
import Canari.Graine.SessionManager
import Canari.Graine.Run
import Canari.Graine.Departures
import Canari.Graine.AdmissionGate
import Canari.Graine.DepartureCommitter
import Canari.Graine.Statements
import Canari.Graine.IncomingSeeds
import Canari.Graine.SignatureEngine
import Canari.Graine.ExactFrames
import Canari.Graine.VoucherWire
import Canari.Graine.VoucherChains
import Canari.Graine.BundlePages
import Canari.Graine.ChannelSeal
import Canari.Graine.ChannelPage
import Canari.Forms.Audience
import Canari.Forms.ProductGrid
import Canari.Forms.Visibility
import Canari.Forms.PriceMatrix
import Canari.Forms.FillPrice
import Canari.Forms.SeatHold
import Canari.Forms.Submissions
import Canari.Forms.Capacity
import Canari.Forms.PayableRequest
import Canari.Forms.OneAnswer
import Canari.Associations.Refunds
import Canari.Associations.RefundOnce
import Canari.Associations.ProductCheckout
import Canari.Associations.CheckoutBooks
import Canari.Associations.OnePurchase
import Canari.Associations.CotisationTag
import Canari.Associations.TierPricing
import Canari.Associations.TierRuns
import Canari.Chat.MessageReactions
import Canari.Forms.OneBucket
import Canari.Forms.Criteria
import Canari.Forms.CellKeys
import Canari.Forms.GridDefinition
import Canari.Forms.GuestSeat
import Canari.Lib.JsText
import Canari.Chat.HistoryStateKey
import Canari.Mls.LendableLock
import Canari.Mls.StatePersister
import Canari.Lib.Usize
import Canari.Lib.Calls
import Canari.Push.ProtoFields
import Canari.Push.MessageInfo
import Canari.Lib.Buffer
import Canari.Delivery.MlsTls
import Canari.Delivery.MlsWire
import Canari.Delivery.MlsFrameEpoch
import Canari.Delivery.MlsGroupInfo
import Canari.Chat.HistoryManifest
import Canari.Chat.HistoryExchange
import Canari.Lib.Json
import Canari.Lib.Reader
import Canari.Lib.WebText
import Canari.Lib.Worklist
import Canari.Lib.NextFit
import Canari.Lib.ProtoWriter
import Canari.Lib.Draws
import Canari.Chat.Envelope
import Canari.Lib.Contest
import Canari.Chat.EditPrecedence
import Canari.Bookings.WeekPaint
import Canari.Lib.Counting
import Canari.Lib.CountSearch
import Canari.Minesweeper.Board
import Canari.Minesweeper.Deduction
import Canari.Minesweeper.Soundness
import Canari.Minesweeper.Acts
import Canari.Minesweeper.Generation
import Canari.Minesweeper.Moves
import Canari.Minesweeper.Layouts
import Canari.Minesweeper.FirstDig
import Canari.Minesweeper.Games
import Canari.Bookings.Slots
import Canari.Bookings.ClockChanges
import Canari.Bookings.DatesAround
import Canari.Bookings.DayParts
import Canari.Bookings.MidnightJoins
import Canari.Bookings.Openings
import Canari.Bookings.WallTimes
import Canari.Bookings.UnitChains
import Canari.Bookings.Selection
import Canari.Bookings.DayLanes
import Canari.Associations.VariantKey
import Canari.Forms.ConditionChains
import Canari.Forms.GridTotals
import Canari.Forms.MatrixEdits
import Canari.Lib.Fairness
import Canari.Graine.RosterLanes
import Canari.Graine.RosterPass
import Canari.Graine.PagedHistory
import Canari.Graine.HistoryAsks
import Canari.Graine.HistoryFinal
import Canari.Lib.ProtoWire
import Canari.Push.FieldSequences
import Canari.Mls.SchedulerMoves
import Canari.Mls.SchedulerConservation
import Canari.Chat.MessageMerge
import Canari.Chat.PendingMutations
import Canari.Chat.PendingSettlement
import Canari.Chat.MessagePage
import Canari.Lib.LastMatch
import Canari.Chat.ReadState
import Canari.Chat.ReadMarks
import Canari.Mls.SchedulerProgress
import Canari.Lib.ParentForest
import Canari.Mls.EventQueue
import Canari.Mls.PinStore
import Canari.Chat.MessageOrder
import Canari.Gateway.Sessions
import Canari.Mls.Device
import Canari.Mls.SnapshotCache
