import LedgerClient.ClientError
import LedgerClient.Command.Basic
import LedgerClient.Config.Load
import LedgerClient.Connection.Dial
import LedgerClient.Dispatcher.Input
import LedgerClient.Envelope
import LedgerClient.Main
import LedgerClient.Proofs.Dispatcher.Act
import LedgerClient.Response
import LedgerClient.Session.End
import LedgerClient.Session.Watch
import LedgerClient.Session.Dialogue
import LedgerClient.Shell.Client
import LedgerClient.Shell.Monitor
import LedgerClient.Socket.Receiver
import LedgerClient.Socket.Sender
import LedgerClient.Proofs.Dispatcher.Effect
import LedgerClient.Proofs.Dispatcher.Conservation
import LedgerClient.Proofs.Dispatcher.Matter
import LedgerClient.Proofs.Dispatcher.Settlement
import LedgerClient.Proofs.Dispatcher.Independence
import LedgerClient.Proofs.Dispatcher.Refusal
import LedgerClient.Proofs.Link.Basic
import LedgerClient.Proofs.Link.Registration
import LedgerClient.Proofs.Session.Change
import LedgerClient.Proofs.Session.Timeout
import LedgerClient.Proofs.Session.Delivery
import LedgerClient.Proofs.Session.HeldUp
import LedgerClient.Proofs.Link.Conservation
import LedgerClient.Proofs.Session.Reading
import LedgerClient.Proofs.Socket.Farewell
import LedgerClient.Proofs.Socket.Keepalive
import LedgerClient.Proofs.Session.Waiting
import LedgerClient.Proofs.Dispatcher.Closing
import LedgerClient.Proofs.Session.Closing
import LedgerClient.Session.Supervisor
import LedgerClient.Session.Vigil
import LedgerClient.Proofs.Session.Stopping
import LedgerClient.Proofs.Session.Ending
import LedgerClient.Proofs.Session.Vigil
import LedgerClient.Proofs.Session.Numbering
import LedgerClient.Proofs.Json.Completeness
import LedgerClient.Proofs.Json.Readers
import LedgerClient.Proofs.Json.Alongside
import LedgerClient.Proofs.Json.Written
import LedgerClient.Proofs.Session.Views
import LedgerClient.Proofs.Json.Members
import LedgerClient.Proofs.Json.WrittenValue
import LedgerClient.Proofs.Hash
import LedgerClient.Proofs.Json.WrittenRecord
import LedgerClient.Proofs.Command.Request
import LedgerClient.Proofs.Socket.Liveness
import LedgerClient.Proofs.Json.Denotation
import LedgerClient.Proofs.Json.Layout
import LedgerClient.Proofs.Json.Reordering
import LedgerClient.Proofs.Envelope
import LedgerClient.Proofs.Json.Integral
import LedgerClient.Proofs.Json.IntegralValue
import LedgerClient.Proofs.Json.Faithful
import LedgerClient.Proofs.Json.FaithfulRecord
import LedgerClient.Proofs.Response
import LedgerClient.Proofs.Json.Legible
import LedgerClient.Proofs.Stream.Event
import LedgerClient.Session.Launch
import LedgerClient.Proofs.Connection.Settings
import LedgerClient.Proofs.Session.Launch
import LedgerClient.Proofs.Config.Load
import LedgerClient.Proofs.Uri
import LedgerClient.Proofs.Endpoint
import LedgerClient.Proofs.Text.Words
import LedgerClient.Proofs.Json.Spacing
import LedgerClient.Proofs.Json.SpacingValue
import LedgerClient.Proofs.Shell.Request
import LedgerClient.Proofs.Json.Recast
import LedgerClient.Proofs.Command.Flattened
import LedgerClient.Proofs.Session.Returning
import LedgerClient.Proofs.Session.PassThrough
import LedgerClient.Proofs.Config.Usable
import LedgerClient.Proofs.Config.Layers
import LedgerClient.Proofs.Config.Saved
import LedgerClient.Proofs.Config.Streams
import LedgerClient.Proofs.Command.Submission
import LedgerClient.Proofs.Session.Submitting
import LedgerClient.Proofs.Session.Dialogue
import LedgerClient.Proofs.Shell.Conversation
