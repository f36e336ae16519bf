import CTemplate.Cli.Config
import CTemplate.Cli.Progress
import CTemplate.Cli.Resolve
import CTemplate.Containers.Crc32
import CTemplate.Containers.Fnv1a
import CTemplate.Containers.Hash
import CTemplate.Containers.HashMap.Capacity
import CTemplate.Containers.HashMap.Dictionary
import CTemplate.Containers.HashMap.Invariant
import CTemplate.Containers.HashMap.Iteration
import CTemplate.Containers.HashMap.Operations
import CTemplate.Containers.HashMap.Stops
import CTemplate.Containers.HashMap.Table
import CTemplate.Containers.RingBuf
import CTemplate.Containers.Str
import CTemplate.Containers.StrBuf
import CTemplate.Containers.StrSplit
import CTemplate.Containers.Vec
import CTemplate.Containers.VecAgree
import CTemplate.Core.Ctype
import CTemplate.Core.Elements
import CTemplate.Core.Error
import CTemplate.Core.Int
import CTemplate.Core.Memory
import CTemplate.Core.Stdio
import CTemplate.Core.Strtof
import CTemplate.Hpc.BlockingQueue.Delivery
import CTemplate.Hpc.BlockingQueue.System
import CTemplate.Hpc.BlockingQueue.Wakeups
import CTemplate.Hpc.Parallel.Allocation
import CTemplate.Hpc.Parallel.Refinement
import CTemplate.Hpc.Parallel.Runs
import CTemplate.Hpc.Parallel.System
import CTemplate.Hpc.Pipeline.Completion
import CTemplate.Hpc.Pipeline.Delivery
import CTemplate.Hpc.Pipeline.Steps
import CTemplate.Hpc.Pipeline.System
import CTemplate.Hpc.SimdOps
import CTemplate.Hpc.Spsc
import CTemplate.Hpc.SpscCapacity
import CTemplate.Hpc.ThreadPool.Delivery
import CTemplate.Hpc.ThreadPool.Queue
import CTemplate.Hpc.ThreadPool.System
import CTemplate.Hpc.ThreadPool.Wakeups
import CTemplate.Hpc.ThreadPool.Workers
import CTemplate.Library.Alignment
import CTemplate.Library.Backprop
import CTemplate.Library.Bindings
import CTemplate.Library.Buffer
import CTemplate.Library.Chunks
import CTemplate.Library.CondVar
import CTemplate.Library.Conveyor
import CTemplate.Library.DirTree
import CTemplate.Library.Doubling
import CTemplate.Library.Fifo
import CTemplate.Library.FileSystem
import CTemplate.Library.ForkJoin
import CTemplate.Library.Frobenius
import CTemplate.Library.Generator
import CTemplate.Library.Inevitable
import CTemplate.Library.Layers
import CTemplate.Library.Lines
import CTemplate.Library.Linked
import CTemplate.Library.ListSet
import CTemplate.Library.LogSumExp
import CTemplate.Library.Loop
import CTemplate.Library.MovingAverage
import CTemplate.Library.Netpbm
import CTemplate.Library.Probing
import CTemplate.Library.Quadrature
import CTemplate.Library.Raster
import CTemplate.Library.Region
import CTemplate.Library.Rounding
import CTemplate.Library.Route
import CTemplate.Library.Sampling
import CTemplate.Library.Scan
import CTemplate.Library.Scanner
import CTemplate.Library.Shares
import CTemplate.Library.ShiftRegister
import CTemplate.Library.Shuffle
import CTemplate.Library.Slots
import CTemplate.Library.StateMachine
import CTemplate.Library.Welford
import CTemplate.Library.While
import CTemplate.Library.Words
import CTemplate.Library.WorkQueue
import CTemplate.Math.Mat
import CTemplate.Math.Matx
import CTemplate.Math.MatxMul
import CTemplate.Math.MatxOps
import CTemplate.Math.Quat
import CTemplate.Math.Rng
import CTemplate.Math.RngRange
import CTemplate.Math.RngSeed
import CTemplate.Math.Stats
import CTemplate.Math.Vec
import CTemplate.Memory.Arena
import CTemplate.Memory.LeakDetect
import CTemplate.Memory.Pool
import CTemplate.Memory.PoolAligned
import CTemplate.Ml.Activation
import CTemplate.Ml.Adam
import CTemplate.Ml.CsvCells
import CTemplate.Ml.CsvFaithful
import CTemplate.Ml.Dense
import CTemplate.Ml.DenseGradient
import CTemplate.Ml.DensePass
import CTemplate.Ml.LoadCsv
import CTemplate.Ml.Loss
import CTemplate.Ml.Normalize
import CTemplate.Ml.OneHot
import CTemplate.Ml.Shuffle
import CTemplate.Ml.ShufflePairs
import CTemplate.Ml.Training
import CTemplate.Networking.Echo.Completion
import CTemplate.Networking.Echo.Delivery
import CTemplate.Networking.Echo.System
import CTemplate.Networking.EventLoop.Count
import CTemplate.Networking.EventLoop.Dispatch
import CTemplate.Networking.EventLoop.Interest
import CTemplate.Networking.EventLoop.Loop
import CTemplate.Networking.EventLoop.Registry
import CTemplate.Networking.EventLoop.Steps
import CTemplate.Networking.EventLoop.System
import CTemplate.Networking.EventServer.Safety
import CTemplate.Networking.EventServer.System
import CTemplate.Networking.PoolServer.Ledger
import CTemplate.Networking.PoolServer.Places
import CTemplate.Networking.PoolServer.Safety
import CTemplate.Networking.PoolServer.System
import CTemplate.Networking.SendAll
import CTemplate.Networking.Stream
import CTemplate.Rendering.Circle
import CTemplate.Rendering.CircleOverflow
import CTemplate.Rendering.Drawing
import CTemplate.Rendering.Framebuffer
import CTemplate.Rendering.Line
import CTemplate.Rendering.LineOverflow
import CTemplate.Rendering.Overflow
import CTemplate.Rendering.Ppm
import CTemplate.Rendering.Rect
import CTemplate.Rendering.Shapes
import CTemplate.Simulation.Collision
import CTemplate.Simulation.ConfineBox
import CTemplate.Simulation.Numerical.Bisect
import CTemplate.Simulation.Numerical.Rk4
import CTemplate.Simulation.Numerical.Rk4Exact
import CTemplate.Simulation.Numerical.Simpson
import CTemplate.Simulation.Physics
import CTemplate.Systems.Capture
import CTemplate.Systems.FileIo.Atomic
import CTemplate.Systems.FileIo.TwoWriters
import CTemplate.Systems.FileIo.WriteAll
import CTemplate.Systems.Path.Canonical
import CTemplate.Systems.Path.Correct
import CTemplate.Systems.Path.Join
import CTemplate.Systems.Path.LookUp
import CTemplate.Systems.Path.Mkdirs
import CTemplate.Systems.Path.Normalize
import CTemplate.Systems.Path.Reference
import CTemplate.Systems.Path.Rewrite
import CTemplate.Systems.Path.Split
import CTemplate.Systems.Path.Turn
