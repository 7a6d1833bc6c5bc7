import ColumnFlow.Bitmap.Lemmas
import ColumnFlow.Proofs.Bitmap.Refinement
import ColumnFlow.Proofs.Builder.Faithful
import ColumnFlow.Proofs.Builder.Runs
import ColumnFlow.Proofs.Builder.Views
import ColumnFlow.Proofs.Column.AbsentVertices
import ColumnFlow.Proofs.Column.Associativity
import ColumnFlow.Proofs.Column.Coherent
import ColumnFlow.Proofs.Column.Comparable
import ColumnFlow.Proofs.Column.Composition
import ColumnFlow.Proofs.Column.Coverage
import ColumnFlow.Proofs.Column.Distribution
import ColumnFlow.Proofs.Column.Equality
import ColumnFlow.Proofs.Column.Labels
import ColumnFlow.Proofs.Column.Ranking
import ColumnFlow.Proofs.Column.Sorting
import ColumnFlow.Proofs.Context.Map
import ColumnFlow.Proofs.Rows.Ordinal
import ColumnFlow.Proofs.Settings
import ColumnFlow.Proofs.Unfold.Agreement
import ColumnFlow.Proofs.Unfold.Items
import ColumnFlow.Proofs.Value.Day
import ColumnFlow.Rows.Lemmas
