import NewNameAuction.ByteMemory
import NewNameAuction.RingBuffer
import NewNameAuction.Packet
import NewNameAuction.SessionRecv
import NewNameAuction.Reassembly
import NewNameAuction.AuctionBook
import NewNameAuction.AuctionPackets
import NewNameAuction.AuctionLogic
import NewNameAuction.AuctionEvents
import NewNameAuction.IndexConsistency
import NewNameAuction.Settlement
import NewNameAuction.BidLedger
import NewNameAuction.BidConservation
import NewNameAuction.SweepPeriod
import NewNameAuction.AccountIdentity
import NewNameAuction.DatabaseRequests
import NewNameAuction.Interleaving
import NewNameAuction.SessionHold
import NewNameAuction.ReceiveSafety
import NewNameAuction.RingFifo
import NewNameAuction.RequestCodec
import NewNameAuction.LockFreeStack
import NewNameAuction.LockFreeQueue
import NewNameAuction.QueueOrder
import NewNameAuction.QueueDelivery
import NewNameAuction.SendPost
import NewNameAuction.SendWakeup
import NewNameAuction.LastPacket
import NewNameAuction.SessionLife
import NewNameAuction.SessionOwner
import NewNameAuction.SessionNumbers
import NewNameAuction.SessionPlaces
import NewNameAuction.SessionLifeCycle
import NewNameAuction.SessionAttended
import NewNameAuction.PacketRefs
import NewNameAuction.PacketStages
import NewNameAuction.PacketHolders
import NewNameAuction.SaleTerms
import NewNameAuction.FrameSize
import NewNameAuction.AccountSlots
import NewNameAuction.NicknameField
import NewNameAuction.PacketBytes
import NewNameAuction.PlayerRecords
import NewNameAuction.PriceIndex
import NewNameAuction.SalesCount
import NewNameAuction.UserSlots
import NewNameAuction.ClosingTime
import NewNameAuction.DatabaseFields
import NewNameAuction.RingDirect
import NewNameAuction.ChainCipher
import NewNameAuction.PacketCipher
import NewNameAuction.SlotEntries
import NewNameAuction.SlotBounds
import NewNameAuction.NicknameChange
import NewNameAuction.BidAcceptance
import NewNameAuction.SlotReports
import NewNameAuction.TailTrim
import NewNameAuction.LifeSpan
import NewNameAuction.Broadcasts
import NewNameAuction.PacketQueue
import NewNameAuction.BucketLoans
import NewNameAuction.SqlLexer
import NewNameAuction.WideText
import NewNameAuction.QuerySafety
import NewNameAuction.StampReuse
import NewNameAuction.WireOrder
import NewNameAuction.NothingSold
import NewNameAuction.ReceiveTurns
import NewNameAuction.PlayerSessions
import NewNameAuction.AuctionStop
import NewNameAuction.NetStop
import NewNameAuction.AuctionHouse
import NewNameAuction.HouseRefinement
import NewNameAuction.RecentLists
import NewNameAuction.ReplyCodec
import NewNameAuction.QueueProgress
import NewNameAuction.PoolProgress
import NewNameAuction.StackProgress
