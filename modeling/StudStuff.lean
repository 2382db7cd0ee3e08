import StudStuff.Lib.Heap
import StudStuff.RedBlackTree.Execution
import StudStuff.Lib.OrderedSet
import StudStuff.RedBlackTree.Backward
import StudStuff.RedBlackTree.Balance
import StudStuff.RedBlackTree.Bounds
import StudStuff.RedBlackTree.ComparisonOnly
import StudStuff.RedBlackTree.ConditionalErase
import StudStuff.RedBlackTree.Contents
import StudStuff.RedBlackTree.CopyFailure
import StudStuff.RedBlackTree.Height
import StudStuff.RedBlackTree.InsertFailure
import StudStuff.RedBlackTree.PositionStability
import StudStuff.RedBlackTree.Reachability
import StudStuff.RedBlackTree.Runs
import StudStuff.RedBlackTree.SetRefinement
import StudStuff.RedBlackTree.Sharing
import StudStuff.SharedPtr.Conversions
import StudStuff.SharedPtr.Ownership
import StudStuff.SharedPtr.Reset
import StudStuff.SharedPtr.Safety
import StudStuff.SharedPtr.Leaks
import StudStuff.SharedPtr.Reclamation
import StudStuff.HashTable.InsertFailure
import StudStuff.HashTable.LoadFactor
import StudStuff.HashTable.Amortized
import StudStuff.HashTable.Statistic
import StudStuff.ThreadPool.Shutdown
import StudStuff.ThreadPool.Wakeup
import StudStuff.ThreadPool.Termination
import StudStuff.ThreadPool.ParallelAccumulate
import StudStuff.ThreadPool.AccumulateOnPool
import StudStuff.NetLog.Config
import StudStuff.NetLog.Agreement
import StudStuff.NetLog.Ranges
import StudStuff.NetLog.FailingOutput
import StudStuff.NetLog.Pipeline
import StudStuff.Dbms.Lifecycle
import StudStuff.Dbms.AllOrNothing
import StudStuff.Dbms.Tags
import StudStuff.Dbms.Accessors
import StudStuff.Dbms.Admission
import StudStuff.Dbms.ImportGenerated
import StudStuff.Network.SplitByLines
import StudStuff.Network.SenderClient
import StudStuff.Students.GradeSum
import StudStuff.Students.Batches
import StudStuff.Algos.SumOfSquares
