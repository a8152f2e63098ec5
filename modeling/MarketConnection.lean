import MarketConnection.Foundations.EventLoop
import MarketConnection.Foundations.Composed
import MarketConnection.Foundations.Lists
import MarketConnection.Foundations.Resumption
import MarketConnection.Foundations.Refinement
import MarketConnection.Foundations.Scripts
import MarketConnection.Foundations.SelfDelimiting
import MarketConnection.Foundations.UrlQuery
import MarketConnection.Foundations.Worklist
import MarketConnection.Rest.Types
import MarketConnection.Rest.FromJson
import MarketConnection.Rest.Target
import MarketConnection.Net.GenericRestRequest
import MarketConnection.Net.Dialogue
import MarketConnection.Net.Process
import MarketConnection.Net.IoContext
import MarketConnection.Net.FailStop
import MarketConnection.Net.VerifiedPeer
import MarketConnection.Net.Transcript
import MarketConnection.Net.WebsocketStream
import MarketConnection.Rest.Requests
import MarketConnection.Rest.Blame
import MarketConnection.Rest.KeptApart
import MarketConnection.Rest.Agreement
import MarketConnection.Rest.RunAll
import MarketConnection.Rest.History
import MarketConnection.Rest.Forest
import MarketConnection.Rest.Interleaving
import MarketConnection.Rest.Service
import MarketConnection.Rest.ServiceLaws
import MarketConnection.Rest.Lifetimes
import MarketConnection.Rest.Termination
import MarketConnection.Rest.AnyOrder
import MarketConnection.Jni.Printing
import MarketConnection.Jni.Connect
import MarketConnection.Jni.Delivered
import MarketConnection.Jni.Session
import MarketConnection.Jni.ReadBack
