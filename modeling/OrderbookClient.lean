import OrderbookClient.CString
import OrderbookClient.JsonGrammar
import OrderbookClient.JsonReader
import OrderbookClient.Itoa
import OrderbookClient.StringBuffer
import OrderbookClient.Writer
import OrderbookClient.Document
import OrderbookClient.Subscription
import OrderbookClient.Runs
import OrderbookClient.Frame
import OrderbookClient.Hio
import OrderbookClient.Channel
import OrderbookClient.Client
import OrderbookClient.Callbacks
import OrderbookClient.Session
import OrderbookClient.Lifecycle
import OrderbookClient.Refinement
import OrderbookClient.Simulation
import OrderbookClient.Handshake
import OrderbookClient.Delivery
import OrderbookClient.Wire
import OrderbookClient.Peer
import OrderbookClient.Spans
import OrderbookClient.HttpParser
import OrderbookClient.HttpMarks
import OrderbookClient.Http1Parser
import OrderbookClient.HeaderLine
import OrderbookClient.Upgrade
import OrderbookClient.HttpNames
import OrderbookClient.Chunks
import OrderbookClient.Blocks
import OrderbookClient.Sha1
import OrderbookClient.HvSha1
import OrderbookClient.Base64
import OrderbookClient.Wsdef
import OrderbookClient.Waiting
import OrderbookClient.Opening
import OrderbookClient.SortedMap
import OrderbookClient.Url
import OrderbookClient.QueryParams
import OrderbookClient.RequestHead
import OrderbookClient.HttpRequest
import OrderbookClient.Requests
