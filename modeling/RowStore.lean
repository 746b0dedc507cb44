import RowStore.Settings.Limits
import RowStore.Proofs.Engine.NewRows
import RowStore.Proofs.Row.Arithmetic
import RowStore.Proofs.Row.Binding
import RowStore.Proofs.Row.Canonical
import RowStore.Proofs.Row.Interchange
import RowStore.Proofs.Run.Collection
import RowStore.Proofs.Run.Direct
import RowStore.Proofs.Run.Leases
import RowStore.Proofs.Run.Linkage
import RowStore.Proofs.Run.Mismatch
import RowStore.Proofs.Run.PageUse
import RowStore.Proofs.Run.Registration
import RowStore.Proofs.Run.Rollback
import RowStore.Proofs.Run.ScanOutcome
import RowStore.Proofs.Schema.Fields
import RowStore.Proofs.Table.Horizon
import RowStore.Proofs.Text.Like
