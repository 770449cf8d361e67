import Umcm.Order.Acyclic
import Umcm.Order.Blocks
import Umcm.Order.DepthFirst
import Umcm.Order.Kahn
import Umcm.Order.Ranked
import Umcm.Order.Reach
import Umcm.Smt.Term
import Umcm.Axiomatic.Execution
import Umcm.Data.Choice
import Umcm.Data.Dict
import Umcm.Data.Except
import Umcm.Data.Gaps
import Umcm.Data.Sorted
import Umcm.Data.Text
import Umcm.Data.Timeline
import Umcm.Errors
import Umcm.Graph.Relation
import Umcm.Graph.Closure
import Umcm.Graph.Execution
import Umcm.Graph.ProgramOrder
import Umcm.Graph.Footprint
import Umcm.Graph.Rvwmo
import Umcm.Graph.Searches
import Umcm.Graph.Completed
import Umcm.Graph.RvwmoExecution
import Umcm.Graph.RvwmoCheck
import Umcm.Graph.AmoAtomicity
import Umcm.Graph.LoadLoad
import Umcm.Graph.OrderChoice
import Umcm.Graph.Strengthening
import Umcm.Graph.Model
import Umcm.Graph.Builder
import Umcm.Graph.Hints
import Umcm.Graph.Checker
import Umcm.Graph.Candidates
import Umcm.Graph.Coherence
import Umcm.Graph.Enumeration
import Umcm.Graph.EnumerationExact
import Umcm.Graph.Locations
import Umcm.Graph.Rearranged
import Umcm.Graph.SameGraph
import Umcm.Graph.Invariance
import Umcm.Ir.Value
import Umcm.Ir.Sort
import Umcm.Ir.Expression
import Umcm.Ir.Event
import Umcm.Ir.Trace
import Umcm.Ir.State
import Umcm.Ir.Transformation
import Umcm.Ir.Completion
import Umcm.Ir.Constructor
import Umcm.Solver.Evaluator
import Umcm.Solver.Truth
import Umcm.Solver.Monotone
import Umcm.Solver.Meaning
import Umcm.Solver.Problem
import Umcm.Solver.WellBuilt
import Umcm.Solver.Soundness
import Umcm.Solver.Instantiation
import Umcm.Solver.Instances
import Umcm.Solver.State
import Umcm.Solver.StateReference
import Umcm.Solver.Observation
import Umcm.Solver.Firing
import Umcm.Solver.Guarded
import Umcm.Solver.Origin
import Umcm.Solver.Unknowns
import Umcm.Solver.Finite
import Umcm.Solver.FiniteSearch
import Umcm.Solver.FiniteExact
import Umcm.Solver.Response
import Umcm.Solver.Z3
import Umcm.Solver.Encoding
import Umcm.Solver.EncodingExact
import Umcm.Solver.StateEncoding
import Umcm.Solver.StateExact
import Umcm.Solver.StateModels
import Umcm.Solver.Anchors
import Umcm.Solver.Script
import Umcm.Solver.SmtBackend
import Umcm.Solver.Completion
import Umcm.Solver.Completed
import Umcm.Solver.Replay
import Umcm.Solver.Substitution
import Umcm.Search.Program
import Umcm.Search.Engine
import Umcm.Search.CoreOrder
import Umcm.Search.Exhaustion
import Umcm.Search.Configuration
import Umcm.Search.Completeness
import Umcm.Search.Schedules
import Umcm.Search.Realization
import Umcm.Composition.Model
import Umcm.Composition.Template
import Umcm.Composition.Engine
import Umcm.Composition.Encapsulation
import Umcm.Composition.Ownership
import Umcm.Composition.Included
import Umcm.Composition.Sighting
import Umcm.Composition.Guarded
import Umcm.Composition.Flags
import Umcm.Composition.Document
import Umcm.Composition.Rendering
import Umcm.Composition.Repeats
import Umcm.Composition.Copies
import Umcm.Composition.Loading
import Umcm.Composition.Roles
import Umcm.Hierarchy.Model
import Umcm.Hierarchy.Matching
import Umcm.Hierarchy.Abstraction
import Umcm.Hierarchy.Invariance
import Umcm.Hierarchy.Preservation
import Umcm.Hierarchy.Interface
import Umcm.Boom.Vocabulary
import Umcm.Boom.Catalog
import Umcm.Boom.Mmio
import Umcm.Boom.Atomic
import Umcm.Boom.AtomicLock
import Umcm.Boom.AtomicLines
import Umcm.Boom.Reservation
import Umcm.Boom.Rob
import Umcm.Boom.Retirement
import Umcm.Boom.Tlb
import Umcm.Boom.Walks
import Umcm.Boom.Allocator
import Umcm.Boom.Admission
import Umcm.Boom.Allocation
import Umcm.Boom.FileView
import Umcm.Boom.Entries
import Umcm.Boom.Permits
import Umcm.Boom.FileSets
import Umcm.Boom.Decisions
import Umcm.Serialization.Entries
import Umcm.Serialization.Graph
import Umcm.Serialization.Expression
import Umcm.Serialization.Value
import Umcm.Serialization.Abstraction
import Umcm.Serialization.Completion
import Umcm.Coverage.Glob
import Umcm.Coverage.Engine
import Umcm.Coverage.Reachability
import Umcm.Coverage.Verdicts
import Umcm.Xiangshan.Catalog
import Umcm.Xiangshan.Core
import Umcm.Xiangshan.Commit
import Umcm.Xiangshan.Issue
import Umcm.Xiangshan.StoreQueue
