import TensorVault.Storage.TornTail
import TensorVault.Engine.Savepoints
import TensorVault.Storage.Sessions
import TensorVault.Storage.Regroup
import TensorVault.Storage.Maintenance
import TensorVault.Storage.WriteAhead
import TensorVault.Server.Cursor
import TensorVault.Server.Binding
import TensorVault.Server.Injection
import TensorVault.Server.Transactions
import TensorVault.Server.Isolation
import TensorVault.Engine.UnionAll
import TensorVault.Engine.Copy
import TensorVault.Storage.Restore
import TensorVault.Engine.Distinct
import TensorVault.Engine.TextEquality
import TensorVault.Protocol.Commit
import TensorVault.Txn.Mvcc
import TensorVault.Tpch.HashJoin
import TensorVault.Tpch.Ordering
import TensorVault.Tpch.OrderCounts
import TensorVault.Engine.SystemVersioning
import TensorVault.Storage.SsTable
import TensorVault.Storage.Integrity
import TensorVault.Storage.PoolRefinement
import TensorVault.Kernel.Scan
import TensorVault.Kernel.Leapfrog
