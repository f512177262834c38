import LearnUv.Chat.ClientFrames
import LearnUv.Chat.CodecStorage
import LearnUv.Chat.CodecStream
import LearnUv.Chat.EndToEnd
import LearnUv.Chat.Relaying
import LearnUv.Chat.RoundTrip
import LearnUv.Chat.ServerBroadcast
import LearnUv.Chat.ServerFraming
import LearnUv.Chat.Silence
import LearnUv.Chat.StagedSend
import LearnUv.CodecTest.MessageFrames
import LearnUv.Common.BufferFifo
import LearnUv.Echo.Relaying
import LearnUv.Fs.Readers
import LearnUv.Log.Insertions
import LearnUv.Log.Output
import LearnUv.Log.Records
import LearnUv.Log.Timestamp
import LearnUv.MultiThread.ThreadServer
import LearnUv.PingPong.Conservation
import LearnUv.PingPong.Echo
import LearnUv.PingPong.GoCirculation
import LearnUv.PingPong.GoServer
import LearnUv.PingPong.GoStall
import LearnUv.PingPong.Growth
import LearnUv.PingPong.Provenance
import LearnUv.PingPong.Timeout
import LearnUv.Simple.ChargenStats
import LearnUv.Simple.ChargenStream
import LearnUv.Simple.Delivery
import LearnUv.Simple.Isolation
import LearnUv.Simple.Release
import LearnUv.Socks.Accounting
import LearnUv.Socks.Determinacy
import LearnUv.Socks.Handshake
import LearnUv.Socks.Lifetime
import LearnUv.Socks.Stash
