import Ccgonext.EventOrder
import Ccgonext.Shutdown
import Ccgonext.Callbacks
import Ccgonext.OneClient
import Ccgonext.ShutdownAll
import Ccgonext.Reaper
import Ccgonext.History
import Ccgonext.Updates
import Ccgonext.Conversation
import Ccgonext.Turns
import Ccgonext.Answer
import Ccgonext.SerialLog
import Ccgonext.WebSocket
import Ccgonext.Handover
import Ccgonext.Exits
import Ccgonext.Indexes
import Ccgonext.Permissions
import Ccgonext.Responders
import Ccgonext.Correlation
import Ccgonext.Teardown
import Ccgonext.AgentRequests
import Ccgonext.Policies
import Ccgonext.Permits
import Ccgonext.WebUi
import Ccgonext.TurnCards
import Ccgonext.ReplayFrom
import Ccgonext.TerminalOutput
import Ccgonext.BadLines
import Ccgonext.AgentLines
import Ccgonext.StateEvents
import Ccgonext.Gaps
import Ccgonext.Orphans
import Ccgonext.ToolStatus
import Ccgonext.Appends
import Ccgonext.TerminalSlices
import Ccgonext.Lib.Weighted
import Ccgonext.TerminalWindow
import Ccgonext.AskAgents
import Ccgonext.Origin
import Ccgonext.TerminalExit
import Ccgonext.Lib.Replay
import Ccgonext.Reconnect
import Ccgonext.Dialogue
import Ccgonext.AnswerText
import Ccgonext.BindListener
import Ccgonext.ChildSlot
import Ccgonext.LowerBound
import Ccgonext.Lib.JobObjects
import Ccgonext.Lib.JobViews
import Ccgonext.WindowsJob
import Ccgonext.JobLives
import Ccgonext.Containment
import Ccgonext.ChildStatus
import Ccgonext.HandleSocket
import Ccgonext.Commands
import Ccgonext.ClientGone
import Ccgonext.WireBlocks
import Ccgonext.OneSubscribe
import Ccgonext.WebServer
import Ccgonext.WebHandlers
import Ccgonext.Refusals
import Ccgonext.WebAsks
import Ccgonext.Listings
