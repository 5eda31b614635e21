import Effectus.Lib.Text
import Effectus.Lib.Keyed
import Effectus.Lib.Utf8
import Effectus.Lib.Sha256
import Effectus.Lib.Float64
import Effectus.Lib.JsonNumber
import Effectus.Lib.Assoc
import Effectus.Lib.Json
import Effectus.Lib.Base64
import Effectus.Go.Platform
import Effectus.Go.Reference
import Effectus.Go.Value
import Effectus.Errors
import Effectus.Outbox.Types
import Effectus.Outbox.Identity
import Effectus.Outbox.Store
import Effectus.Outbox.Completion
import Effectus.Outbox.Closing
import Effectus.Outbox.Run
import Effectus.Outbox.Reads
import Effectus.Outbox.Protocol
import Effectus.Theorems.Outbox.ProtocolInv
import Effectus.Theorems.Outbox.Transitions
import Effectus.Theorems.Outbox.Cores
import Effectus.Theorems.Outbox.Shape
import Effectus.Theorems.Outbox.Settle
import Effectus.Theorems.Outbox.Runs
import Effectus.Theorems.Outbox.Moves
import Effectus.Theorems.Outbox.History
import Effectus.Theorems.Outbox.View
import Effectus.Theorems.Outbox.Advance
import Effectus.Lib.Ranging
import Effectus.Outbox.Walk
import Effectus.Theorems.Outbox.Stopped
import Effectus.Theorems.Outbox.Simulation
import Effectus.Theorems.Outbox.Outcomes
import Effectus.Theorems.Outbox.Serial
import Effectus.Theorems.Outbox.Compensation
import Effectus.Theorems.Outbox.Records
import Effectus.Theorems.Outbox.Uncertainty
import Effectus.Theorems.Outbox.Leases
import Effectus.IR.Artifact
import Effectus.IR.Types
import Effectus.IR.Environment
import Effectus.IR.Value
import Effectus.IR.Check
import Effectus.Lib.Fallible
import Effectus.Theorems.IR.Checked
import Effectus.Lib.Frame
import Effectus.Theorems.IR.Distinct
import Effectus.Runtime.Facts
import Effectus.Runtime.Evaluate
import Effectus.Ledger.Types
import Effectus.Ledger.Memory
import Effectus.Ledger.Run
import Effectus.Ledger.Atomic
import Effectus.Runtime.Generation
import Effectus.Runtime.Arguments
import Effectus.Lib.Threads
import Effectus.Runtime.Fencing
import Effectus.Runtime.World
import Effectus.Theorems.Ledger.Transitions
import Effectus.Theorems.Ledger.Safety
import Effectus.Lib.Table
import Effectus.Postgres.Schema
import Effectus.Postgres.Transaction
import Effectus.Postgres.Prune
import Effectus.Theorems.Postgres.Prune
import Effectus.Theorems.Postgres.Graphs
import Effectus.Theorems.Ledger.Writes
import Effectus.Lib.Wire
import Effectus.IR.Wire
import Effectus.Bundle.Source
import Effectus.Runtime.Build
import Effectus.Runtime.Dispatcher
import Effectus.Runtime.Workflow
import Effectus.Lib.SortBy
import Effectus.Theorems.IR.Environment
import Effectus.Theorems.IR.Recheck
import Effectus.Theorems.Runtime.Clone
import Effectus.Theorems.Runtime.Compensation
import Effectus.Lib.Tar
import Effectus.Lib.Http
import Effectus.Go.Network
import Effectus.Lib.Rfc3339
import Effectus.Invocation.Http
import Effectus.Lib.JsonRead
import Effectus.Lib.JsonSchema
import Effectus.Lib.JsonTyped
import Effectus.Invocation.Descriptor
import Effectus.Bundle.Document
import Effectus.Theorems.Bundle.Documents
import Effectus.Theorems.Bundle.RoundTrip
import Effectus.Theorems.Runtime.Resolver
import Effectus.Lib.Alone
import Effectus.Lib.Owned
import Effectus.Lib.Parsing
import Effectus.Lib.Pointwise
import Effectus.Lib.RunningBound
import Effectus.Lib.Shared
import Effectus.Lib.Unquote
import Effectus.Compiler.Lexer
import Effectus.Compiler.Grammar
import Effectus.Compiler.Frontend
import Effectus.Compiler.Lower
import Effectus.Invocation.Handler
import Effectus.Invocation.Resolver
import Effectus.Runtime.Artifact
import Effectus.Runtime.Admission
import Effectus.Postgres.Outbox
import Effectus.Postgres.Admission
import Effectus.Runtime.Engine
import Effectus.Runtime.Alone
import Effectus.Runtime.Lifetime
import Effectus.Runtime.Ownership
import Effectus.Transport.Adapters
import Effectus.Theorems.Bundle.Strict
import Effectus.Theorems.Compiler.Tokens
import Effectus.Theorems.Compiler.Blocks
import Effectus.Theorems.Compiler.Contracts
import Effectus.Theorems.Compiler.Frontend
import Effectus.Theorems.Compiler.Order
import Effectus.Theorems.Compiler.Scanner
import Effectus.Theorems.Compiler.Predicates
import Effectus.Theorems.Fencing.Tokens
import Effectus.Theorems.Runtime.World
import Effectus.Theorems.Runtime.Dispatcher
import Effectus.Theorems.Fencing.Dispatch
import Effectus.Theorems.Fencing.Safety
import Effectus.Theorems.IR.Assignable
import Effectus.Theorems.IR.FixedPoint
import Effectus.Theorems.Invocation.Redirect
import Effectus.Theorems.Invocation.Confined
import Effectus.Theorems.Outbox.Arguments
import Effectus.Theorems.Invocation.RoundTrip
import Effectus.Theorems.Invocation.Dispatched
import Effectus.Theorems.Invocation.Outcomes
import Effectus.Theorems.Lifetime.Invariant
import Effectus.Theorems.Lifetime.Steps
import Effectus.Theorems.Lifetime.Lifetimes
import Effectus.Theorems.Postgres.Reuse
import Effectus.Theorems.Runtime.Backoff
import Effectus.Theorems.Runtime.Equality
import Effectus.Theorems.Runtime.Ownership
import Effectus.Theorems.Runtime.Recording
import Effectus.Theorems.Transport.Framing
import Effectus.Theorems.Transport.Identities
