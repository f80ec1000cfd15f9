import Linuxc.PingPong
import Linuxc.PingPongDeadlock
import Linuxc.PingPongTurns
import Linuxc.StructLayout
import Linuxc.RawSocket
import Linuxc.RawSocketMemory
import Linuxc.RawSocketFormat
import Linuxc.BlockHeap
import Linuxc.Uv
import Linuxc.UvRules
import Linuxc.UvClient
import Linuxc.UvClientSteps
import Linuxc.UvClientChain
import Linuxc.UvClientClose
import Linuxc.UvServer
import Linuxc.UvServerSteps
import Linuxc.UvServerHeap
import Linuxc.UvClientBytes
import Linuxc.UvServerBytes
import Linuxc.EchoNet
import Linuxc.EchoBytes
import Linuxc.UvStream
import Linuxc.UvStreamBooks
import Linuxc.UvStreamWrites
import Linuxc.UvStreamRefines
import Linuxc.UvStreamWakes
import Linuxc.PositionHeap
import Linuxc.UvHeap
import Linuxc.UvHeapPositions
import Linuxc.UvTimer
import Linuxc.UvTimerLaws
import Linuxc.UvTimerRounds
import Linuxc.UvThreadpool
import Linuxc.UvThreadpoolBooks
import Linuxc.UvThreadpoolLaws
import Linuxc.UvThreadpoolProgress
import Linuxc.UvAsync
import Linuxc.UvAsyncLaws
import Linuxc.Numerals
import Linuxc.UvInet
import Linuxc.UvInetDotted
import Linuxc.UvInetGrammar
import Linuxc.UvInetScan
import Linuxc.UvInetWritten
