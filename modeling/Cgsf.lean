import Cgsf.Proof.ASIONet.ClientQueue
import Cgsf.Proof.ASIONet.Connection
import Cgsf.Proof.ASIONet.SendQueue
import Cgsf.Proof.ASIONet.SessionSlots
import Cgsf.Proof.BaseLayer.BigNum
import Cgsf.Proof.BaseLayer.BitIndex
import Cgsf.Proof.BaseLayer.BitInsertion
import Cgsf.Proof.BaseLayer.BitRanges
import Cgsf.Proof.BaseLayer.CompressedLength
import Cgsf.Proof.BaseLayer.CompressedUpdate
import Cgsf.Proof.BaseLayer.GeneralPool
import Cgsf.Proof.BaseLayer.PoolSizes
import Cgsf.Proof.BaseLayer.PoolSpace
import Cgsf.Proof.BaseLayer.SFBitArray
import Cgsf.Proof.BaseLayer.SFList
import Cgsf.Proof.CGSFNet.CommandOrder
import Cgsf.Proof.CGSFNet.IDPool
import Cgsf.Proof.CGSFNet.Lifecycle
import Cgsf.Proof.Casual.Consistency
import Cgsf.Proof.Casual.GameRuns
import Cgsf.Proof.Casual.LoginWorker
import Cgsf.Proof.Casual.Logins
import Cgsf.Proof.DatabaseLayer.Requests
import Cgsf.Proof.Engine.AvroBounds
import Cgsf.Proof.Engine.ChannelDispatch
import Cgsf.Proof.Engine.Clone
import Cgsf.Proof.Engine.ConnectorState
import Cgsf.Proof.Engine.DecodeBounds
import Cgsf.Proof.Engine.Delivery
import Cgsf.Proof.Engine.HTTPDelivery
import Cgsf.Proof.Engine.JsonHonesty
import Cgsf.Proof.Engine.Packet
import Cgsf.Proof.Engine.PacketLifecycle
import Cgsf.Proof.Engine.PacketReads
import Cgsf.Proof.Engine.PacketStream
import Cgsf.Proof.Engine.ProtobufBounds
import Cgsf.Proof.Engine.ProtobufDelivery
import Cgsf.Proof.Engine.ProtobufProgress
import Cgsf.Proof.Engine.RingUse
import Cgsf.Proof.Engine.SFChecksum
import Cgsf.Proof.Engine.Timers
import Cgsf.Proof.MOGame.Memory
import Cgsf.Proof.MOGame.Occupation
import Cgsf.Proof.MOGame.PublicIds
import Cgsf.Proof.MOGame.Surroundings
import Cgsf.Proof.P2P.Amplification
import Cgsf.Proof.P2P.Btree
import Cgsf.Proof.P2P.Confinement
import Cgsf.Proof.P2P.PeerIndex
import Cgsf.Proof.P2P.PeerPaths
import Cgsf.Proof.P2P.PeerTable
import Cgsf.Proof.P2P.RelayDataEx
import Cgsf.Proof.P2P.RelayWork
import Cgsf.Proof.P2P.SDLDatagrams
import Cgsf.Proof.P2P.UdpCommClient
import Cgsf.Proof.PacketEnDeCodeGenerator.BufferSizes
import Cgsf.Proof.PacketEnDeCodeGenerator.CodecAgreement
import Cgsf.Proof.RPC.ObjectGraph
import Cgsf.Proof.RPC.ReplyMatching
import Cgsf.Proof.RPC.Transparency
import Cgsf.Proof.SevenGameServer.SGServer
