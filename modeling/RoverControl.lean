import RoverControl.Drivetrain.Step
import RoverControl.Main
import RoverControl.Proofs.Drivetrain.Move
import RoverControl.Proofs.Drivetrain.Unfold
import RoverControl.Proofs.Drivetrain.Accounts
import RoverControl.Proofs.Drivetrain.Order
import RoverControl.Proofs.Service.Unfold
import RoverControl.Proofs.Server.Visit
import RoverControl.Proofs.Bytes
import RoverControl.Proofs.Net.AddressText
import RoverControl.Proofs.Server.Latch
import RoverControl.Proofs.Server.Order
import RoverControl.Proofs.Server.Untrusted
import RoverControl.Proofs.Drivetrain.TrailingStop
import RoverControl.Proofs.Http.Headers
import RoverControl.Proofs.Http.Framing
import RoverControl.Proofs.Http.Grammar
import RoverControl.Proofs.Rate.Uses
import RoverControl.Proofs.Rate.Exact
import RoverControl.Proofs.Rate.Bound
import RoverControl.Proofs.Rate.Session
import RoverControl.Proofs.Rate.Looks
import RoverControl.Proofs.Rate.Waiting
import RoverControl.Proofs.Server.Reading
import RoverControl.Proofs.Config.Validation
import RoverControl.Proofs.Server.Configuration
import RoverControl.Proofs.Json.Members
import RoverControl.Proofs.Config.Faults
import RoverControl.Proofs.Json.Quoted
import RoverControl.Proofs.Json.Grammar
import RoverControl.Proofs.Number.Binary64
import RoverControl.Proofs.Number.Rounding
import RoverControl.Proofs.Number.Shortest
import RoverControl.Proofs.Json.NumberText
import RoverControl.Proofs.Json.RoundTrip
import RoverControl.Proofs.Json.Printable
import RoverControl.Proofs.Http.Response
import RoverControl.Proofs.Drivetrain.Tickets
import RoverControl.Proofs.Server.Halt
import RoverControl.Proofs.Service.Refusal
import RoverControl.Proofs.Service.Gate
import RoverControl.Proofs.Server.Forwarding
import RoverControl.Proofs.Drivetrain.Totals
import RoverControl.Proofs.Drivetrain.Endings
import RoverControl.Proofs.Service.Totals
import RoverControl.Proofs.Service.Keys
import RoverControl.Proofs.Server.Exchange
import RoverControl.Proofs.Server.Totals
import RoverControl.Proofs.Server.Shutdown
import RoverControl.Proofs.Server.Keys
import RoverControl.Proofs.Net.BlockText
import RoverControl.Proofs.Net.Membership
import RoverControl.Proofs.Config.Snapshot
import RoverControl.Proofs.Server.Addresses
import RoverControl.Proofs.Json.Size
import RoverControl.Proofs.Http.Delimited
import RoverControl.Proofs.Server.Bounds
import RoverControl.Proofs.Http.NameOrder
import RoverControl.Proofs.Cli.Options
import RoverControl.Proofs.Cli.Numeral
import RoverControl.Proofs.Drivetrain.Backlog
import RoverControl.Proofs.Hardware.Ultrasonic
import RoverControl.Proofs.Server.Telemetry
import RoverControl.Proofs.Json.Building
