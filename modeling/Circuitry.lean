import Circuitry.Atom
import Circuitry.Block
import Circuitry.Block.Behaviour
import Circuitry.Block.Connect
import Circuitry.Block.Linking
import Circuitry.Block.Member
import Circuitry.Block.Walk
import Circuitry.Command
import Circuitry.Command.Line
import Circuitry.Descriptor
import Circuitry.Design
import Circuitry.Failure
import Circuitry.Generation
import Circuitry.Hdl.Code
import Circuitry.Hdl.Expr
import Circuitry.Hdl.Inspect
import Circuitry.Kind
import Circuitry.Library.Adder
import Circuitry.Library.Blinky
import Circuitry.Library.Clocked
import Circuitry.Library.Fanout
import Circuitry.Library.Stream
import Circuitry.Library.Vendor
import Circuitry.Log
import Circuitry.Main
import Circuitry.Netlist.Builder
import Circuitry.Netlist.Check
import Circuitry.Netlist.Table
import Circuitry.Netlist.Verilog
import Circuitry.Path
import Circuitry.Proofs.Agreement
import Circuitry.Proofs.Assignments
import Circuitry.Proofs.Bytes
import Circuitry.Proofs.Capacity
import Circuitry.Proofs.Catalogue
import Circuitry.Proofs.Closure
import Circuitry.Proofs.Composition
import Circuitry.Proofs.Connection
import Circuitry.Proofs.Consistency
import Circuitry.Proofs.Counting
import Circuitry.Proofs.Declarations
import Circuitry.Proofs.Delivery
import Circuitry.Proofs.Division
import Circuitry.Proofs.Drivers
import Circuitry.Proofs.Duplex
import Circuitry.Proofs.Elements
import Circuitry.Proofs.Enumerations
import Circuitry.Proofs.Events
import Circuitry.Proofs.Execution
import Circuitry.Proofs.Extraction
import Circuitry.Proofs.Findings
import Circuitry.Proofs.Hierarchy
import Circuitry.Proofs.Independence
import Circuitry.Proofs.Latching
import Circuitry.Proofs.Layout
import Circuitry.Proofs.LinkNames
import Circuitry.Proofs.Listing
import Circuitry.Proofs.Literals
import Circuitry.Proofs.Lockstep
import Circuitry.Proofs.Names
import Circuitry.Proofs.Naming
import Circuitry.Proofs.Nesting
import Circuitry.Proofs.Ordinals
import Circuitry.Proofs.Pairing
import Circuitry.Proofs.Parts
import Circuitry.Proofs.Readability
import Circuitry.Proofs.Rearrangement
import Circuitry.Proofs.Records
import Circuitry.Proofs.Resolution
import Circuitry.Proofs.Scheduling
import Circuitry.Proofs.Scopes
import Circuitry.Proofs.Settling
import Circuitry.Proofs.Stability
import Circuitry.Proofs.Stepping
import Circuitry.Proofs.Synchronous
import Circuitry.Proofs.Toggling
import Circuitry.Proofs.TopName
import Circuitry.Proofs.Transfer
import Circuitry.Proofs.Verbatim
import Circuitry.Proofs.Volumes
import Circuitry.Proofs.Walk
import Circuitry.Proofs.Waves
import Circuitry.Proofs.Wiring
import Circuitry.Script
import Circuitry.Settings.Flag
import Circuitry.Settings.Json
import Circuitry.Settings.Load
import Circuitry.Settings.Number
import Circuitry.Settings.Toml
import Circuitry.Settings.Toml.Date
import Circuitry.Settings.Toml.Keys
import Circuitry.Settings.Value
import Circuitry.Simulation.Bench
import Circuitry.Simulation.Drive
import Circuitry.Simulation.State
import Circuitry.Text.Format
import Circuitry.Text.Lines
import Circuitry.Text.Lower
import Circuitry.Text.Printable
import Circuitry.Volume
import Circuitry.Width
