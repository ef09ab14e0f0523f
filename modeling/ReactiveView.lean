import ReactiveView.Dictionary
import ReactiveView.Text.Blank
import ReactiveView.Text.Units
import ReactiveView.Text.Quoted
import ReactiveView.Number.Notation
import ReactiveView.Number.Reading
import ReactiveView.Number.Remainder
import ReactiveView.Expression.Parser
import ReactiveView.Expression.Printer
import ReactiveView.Error
import ReactiveView.Template
import ReactiveView.Directive
import ReactiveView.Data.Json
import ReactiveView.Document.Query
import ReactiveView.Reactive.Evaluation
import ReactiveView.Reactive.Compilation
import ReactiveView.Reactive.Program
import ReactiveView.Reactive.Inspection
import ReactiveView.Proofs.Accounting
import ReactiveView.Proofs.Suspending
import ReactiveView.Proofs.Cascades
import ReactiveView.Proofs.Retexting
import ReactiveView.Proofs.Segments
import ReactiveView.Proofs.Printing
import ReactiveView.Proofs.Showing
import ReactiveView.Proofs.Sustaining
import ReactiveView.Proofs.Turns
import ReactiveView.Proofs.Visiting
import ReactiveView.Proofs.WritingBack
import ReactiveView.Proofs.Restoring
import ReactiveView.Proofs.Ingesting
import ReactiveView.Proofs.Observing
import ReactiveView.Proofs.Tiling
import ReactiveView.Proofs.Literals
import ReactiveView.Proofs.Indexing
import ReactiveView.Proofs.Addressing
import ReactiveView.Proofs.Bases
