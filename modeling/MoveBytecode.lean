import MoveBytecode.Discard
import MoveBytecode.Ir.Draft
import MoveBytecode.Main
import MoveBytecode.Session
import MoveBytecode.Proofs.Reading.Advance
import MoveBytecode.Proofs.Reading.Body
import MoveBytecode.Proofs.Loading.Readers
import MoveBytecode.Proofs.Loading.Records
import MoveBytecode.Proofs.Loading.Totality
import MoveBytecode.Proofs.Loading.Decode
import MoveBytecode.Proofs.Loading.CodeUnits
import MoveBytecode.Proofs.Loading.Contents
import MoveBytecode.Proofs.Loading.Matching
import MoveBytecode.Proofs.Loading.Reordering
import MoveBytecode.Proofs.Loading.Closure
import MoveBytecode.Proofs.Loading.Views
import MoveBytecode.Proofs.Text
import MoveBytecode.Proofs.Loading.Lookups
import MoveBytecode.Proofs.Loading.Listings
import MoveBytecode.Proofs.Loading.Items
import MoveBytecode.Proofs.Loading.Defects
import MoveBytecode.Proofs.Loading.Signatures
import MoveBytecode.Proofs.Host.Directory
import MoveBytecode.Proofs.Loading.Mapping
import MoveBytecode.Proofs.Loading.Capacity
import MoveBytecode.Proofs.Loading.Publication
import MoveBytecode.Proofs.Loading.Symbols
import MoveBytecode.Proofs.Loading.Payloads
import MoveBytecode.Proofs.Loading.Layout
import MoveBytecode.Proofs.Loading.Image
import MoveBytecode.Proofs.Lift.Stack
import MoveBytecode.Proofs.Lift.Orderly
import MoveBytecode.Proofs.Machine.Bytecode
import MoveBytecode.Proofs.Machine.Form
import MoveBytecode.Proofs.Lift.Lowering
import MoveBytecode.Proofs.Lift.Table
import MoveBytecode.Proofs.Lift.Types
import MoveBytecode.Proofs.Flow.Blocks
import MoveBytecode.Proofs.Flow.Depths
import MoveBytecode.Proofs.Flow.Edges
import MoveBytecode.Proofs.Flow.Slices
import MoveBytecode.Proofs.Flow.Rebasing
import MoveBytecode.Proofs.Flow.Flowcharts
import MoveBytecode.Proofs.Lift.Course
import MoveBytecode.Proofs.Lift.Conversion
import MoveBytecode.Proofs.Lift.Uses
import MoveBytecode.Proofs.Lift.Numbering
import MoveBytecode.Proofs.Lift.Lifting
import MoveBytecode.Proofs.Lift.Workspace
import MoveBytecode.Proofs.Lift.Widths
import MoveBytecode.Proofs.Lift.Faults
import MoveBytecode.Proofs.Lift.Joins
import MoveBytecode.Proofs.Lift.Rows
import MoveBytecode.Proofs.Lift.Roster
import MoveBytecode.Proofs.Lift.Calls
import MoveBytecode.Proofs.Lift.Identity
import MoveBytecode.Proofs.Lift.History
import MoveBytecode.Proofs.Lift.Failures
import MoveBytecode.Proofs.Lift.Lockstep
import MoveBytecode.Proofs.Lift.Endings
import MoveBytecode.Proofs.Lift.Grouping
import MoveBytecode.Proofs.CommandLine
import MoveBytecode.Proofs.Lift.Unfiled
import MoveBytecode.Proofs.Machine.Translation
import MoveBytecode.Proofs.Machine.Simulation
import MoveBytecode.Proofs.Machine.Routine
import MoveBytecode.Proofs.Lift.Kinds
import MoveBytecode.Proofs.Lift.Ranges
import MoveBytecode.Proofs.Lift.Branches
import MoveBytecode.Proofs.Reading.Framing
import MoveBytecode.Proofs.Format.Description
import MoveBytecode.Proofs.Format.Records
import MoveBytecode.Proofs.Format.Filled
import MoveBytecode.Proofs.Format.Bodies
import MoveBytecode.Proofs.Format.Tables
import MoveBytecode.Proofs.Format.Front
import MoveBytecode.Proofs.Format.RoundTrip
import MoveBytecode.Proofs.Reading.Groups
import MoveBytecode.Proofs.Signature.RoundTrip
import MoveBytecode.Proofs.Signature.NormalForm
import MoveBytecode.Proofs.Loading.Locality
import MoveBytecode.Proofs.Loading.Tiling
import MoveBytecode.Proofs.Loading.Scripts
import MoveBytecode.Proofs.Loading.Addresses
import MoveBytecode.Proofs.Loading.Stamps
import MoveBytecode.Proofs.NativeType.Conversions
import MoveBytecode.Proofs.Lift.Refinement
import MoveBytecode.Proofs.Reading.Varints
import MoveBytecode.Proofs.Lift.Operations
import MoveBytecode.Proofs.Lift.Slots
import MoveBytecode.Proofs.Reading.Confinement
