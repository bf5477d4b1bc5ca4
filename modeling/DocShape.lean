import DocShape.Catalog
import DocShape.Config
import DocShape.Description
import DocShape.Event
import DocShape.Json.Basic
import DocShape.Json.Pointer
import DocShape.Json.Printer
import DocShape.Json.Reader
import DocShape.Json.Written
import DocShape.OrderedMap
import DocShape.Outcome
import DocShape.Record
import DocShape.Rule.Basic
import DocShape.Rule.Checks
import DocShape.Rule.Setters
import DocShape.Session
import DocShape.Shape.Basic
import DocShape.Shape.Cache
import DocShape.Shape.Error
import DocShape.Shape.Reader
import DocShape.Text.Blank
import DocShape.Text.Place
import DocShape.Text.Quoted
import DocShape.Validator.Basic
import DocShape.Validator.Builder
import DocShape.Validator.Describe
import DocShape.Validator.Error
import DocShape.Validator.Evaluation
import DocShape.Validator.Validate
import DocShape.Proofs.Json.Members
import DocShape.Proofs.Json.Pointer
import DocShape.Proofs.Session.Caching
import DocShape.Proofs.Session.Describing
import DocShape.Proofs.Session.Entries
import DocShape.Proofs.Session.Handles
import DocShape.Proofs.Session.Histories
import DocShape.Proofs.Session.Isolation
import DocShape.Proofs.Session.Keeping
import DocShape.Proofs.Session.Observers
import DocShape.Proofs.Session.Reading
import DocShape.Proofs.Session.Requests
import DocShape.Proofs.Shape.Completeness
import DocShape.Proofs.Shape.Cursors
import DocShape.Proofs.Shape.Descent
import DocShape.Proofs.Shape.Discipline
import DocShape.Proofs.Shape.Faults
import DocShape.Proofs.Shape.Grammar
import DocShape.Proofs.Shape.Limits
import DocShape.Proofs.Shape.Names
import DocShape.Proofs.Shape.Nesting
import DocShape.Proofs.Shape.Refusals
import DocShape.Proofs.Shape.Relocation
import DocShape.Proofs.Shape.Rests
import DocShape.Proofs.Shape.RoundTrip
import DocShape.Proofs.Shape.Soundness
import DocShape.Proofs.Shape.Steps
import DocShape.Proofs.Shape.Strip
import DocShape.Proofs.Shape.Unambiguous
import DocShape.Proofs.Shape.Viability
import DocShape.Proofs.Shape.Whitespace
import DocShape.Proofs.Text.Trim
import DocShape.Proofs.Validator.Accounts
import DocShape.Proofs.Validator.Agreement
import DocShape.Proofs.Validator.Answers
import DocShape.Proofs.Validator.Changes
import DocShape.Proofs.Validator.Composition
import DocShape.Proofs.Validator.Conformance
import DocShape.Proofs.Validator.Drafts
import DocShape.Proofs.Validator.Dues
import DocShape.Proofs.Validator.FixedPoint
import DocShape.Proofs.Validator.Forms
import DocShape.Proofs.Validator.Gaps
import DocShape.Proofs.Validator.Issues
import DocShape.Proofs.Validator.Journals
import DocShape.Proofs.Validator.Logs
import DocShape.Proofs.Validator.Lookup
import DocShape.Proofs.Validator.Numbering
import DocShape.Proofs.Validator.Outlines
import DocShape.Proofs.Validator.Parallel
import DocShape.Proofs.Validator.Parts
import DocShape.Proofs.Validator.PathTexts
import DocShape.Proofs.Validator.Positions
import DocShape.Proofs.Validator.Pruning
import DocShape.Proofs.Validator.Remarks
import DocShape.Proofs.Validator.Reordering
import DocShape.Proofs.Validator.Repeats
import DocShape.Proofs.Validator.Runs
import DocShape.Proofs.Validator.Schemas
import DocShape.Proofs.Validator.Scope
import DocShape.Proofs.Validator.Setters
import DocShape.Proofs.Validator.Settings
import DocShape.Proofs.Validator.Siblings
import DocShape.Proofs.Validator.Stack
import DocShape.Proofs.Validator.Traces
