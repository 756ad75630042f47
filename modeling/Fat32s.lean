import Fat32s.Lib.Prog
import Fat32s.Lib.Couples
import Fat32s.Lib.Commute
import Fat32s.Glo
import Fat32s.Util
import Fat32s.Tree
import Fat32s.Print
import Fat32s.Read
import Fat32s.Fat32
import Fat32s.Rules
import Fat32s.Scan
import Fat32s.Volume
import Fat32s.Chain
import Fat32s.Cursor
import Fat32s.Walk
import Fat32s.Directory
import Fat32s.Resolve
import Fat32s.Cat
import Fat32s.Format
import Fat32s.Ls
import Fat32s.Frame
import Fat32s.Mount
import Fat32s.Image
import Fat32s.FailedMount
import Fat32s.Rollback
import Fat32s.Invariant
import Fat32s.Bounds
import Fat32s.Ends
import Fat32s.Coherence
import Fat32s.Hierarchy
import Fat32s.WorkingDirectory
import Fat32s.Pwd
import Fat32s.EndOfChain
import Fat32s.Geometry
import Fat32s.Paths
import Fat32s.Answers
import Fat32s.Agreement
import Fat32s.Enumeration
import Fat32s.ClusterIds
import Fat32s.SameNames
import Fat32s.Composition
import Fat32s.UpAndDown
import Fat32s.FatUpdate
import Fat32s.TextBuffers
import Fat32s.Steady
import Fat32s.Simulation
import Fat32s.NameBuffers
import Fat32s.LongNames
import Fat32s.Distinct
import Fat32s.FatChain
import Fat32s.EntryAlone
import Fat32s.Termination
import Fat32s.Remount
import Fat32s.Lib.Service
import Fat32s.FileSystem
import Fat32s.Sessions
import Fat32s.Recovery
import Fat32s.Clients
import Fat32s.Shell
import Fat32s.Navigation
import Fat32s.Lib.ArrayStack
import Fat32s.HeldDevice
import Fat32s.Lib.Allocator
import Fat32s.Resources
import Fat32s.StackArray
import Fat32s.Layout
