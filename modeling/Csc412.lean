import Csc412.Lib.Congruential
import Csc412.Process.Random
import Csc412.Process.RandomSound
import Csc412.Process.Allocator
import Csc412.Process.AllocatorSound
import Csc412.Process.SystemSound
import Csc412.Process.GradeSound
import Csc412.Lib.Mask
import Csc412.Lib.Escapes
import Csc412.Lib.Fallible
import Csc412.Lib.Run
import Csc412.Lib.Cyclic
import Csc412.Lib.Files
import Csc412.Lib.CString
import Csc412.Lib.ByteMemory
import Csc412.Memory.CopySound
import Csc412.Bootloader.Disk
import Csc412.Bootloader.DiskSound
import Csc412.Bootloader.Boot
import Csc412.Bootloader.BootSound
import Csc412.Bootloader.KernelSound
import Csc412.Lib.DepthFirst
import Csc412.Bootloader.Partition
import Csc412.Bootloader.PartitionSound
import Csc412.DoubleLink.LinkedList
import Csc412.DoubleLink.LinkedListSound
import Csc412.DoubleLink.SequenceSound
import Csc412.DoubleLink.HeapSound
import Csc412.Inklings.Config
import Csc412.Inklings.Layout
import Csc412.Inklings.LineSound
import Csc412.Inklings.ConfigSound
import Csc412.Inklings.PieceSound
import Csc412.Inklings.CommentSound
import Csc412.Lib.Yaml
import Csc412.Inklings.GoConfig
import Csc412.Inklings.Source
import Csc412.Inklings.QuotedSound
import Csc412.Lib.Utf8
import Csc412.MapReduce.Apps
import Csc412.MapReduce.Coordinator
import Csc412.MapReduce.SplitSound
import Csc412.MapReduce.WordCountSound
import Csc412.MapReduce.IndexerSound
import Csc412.MapReduce.Worker
import Csc412.MapReduce.WorkerSound
import Csc412.Lib.Regexp
import Csc412.MapReduce.Shuffle
import Csc412.MapReduce.ShuffleSound
import Csc412.RoundRobin.Scheduler
import Csc412.RoundRobin.SchedulerSound
import Csc412.RoundRobin.WaitSound
import Csc412.RoundRobin.Threads
import Csc412.RoundRobin.ThreadsSound
import Csc412.Kernel.Paging
import Csc412.Kernel.PagingSound
import Csc412.Kernel.RangeSound
import Csc412.Kernel.PrefixSound
import Csc412.Kernel.UnmapSound
import Csc412.Kernel.Boot
import Csc412.Kernel.Exception
import Csc412.Kernel.TablesSound
import Csc412.Kernel.CheckSound
import Csc412.Kernel.BootSound
import Csc412.Kernel.ExceptionSound
import Csc412.Kernel.Interrupt
import Csc412.Kernel.InterruptSound
import Csc412.Lib.Fields
import Csc412.Kernel.Descriptor
import Csc412.Kernel.DescriptorSound
import Csc412.Kernel.LoadSound
import Csc412.Kernel.AssignSound
import Csc412.Kernel.Keyboard
import Csc412.Kernel.KeyboardSound
import Csc412.Kernel.SegmentSound
import Csc412.Kernel.AllocSound
import Csc412.Kernel.ContextSound
import Csc412.Kernel.ScheduleSound
import Csc412.Lib.Numeral
import Csc412.Lib.Stores
import Csc412.Printer.Format
import Csc412.Printer.ScanSound
import Csc412.Printer.NumberSound
import Csc412.Printer.FormatSound
import Csc412.Printer.Output
import Csc412.Printer.BufferSound
import Csc412.Printer.ConsoleSound
import Csc412.Printer.PlainSound
import Csc412.Kernel.Dump
import Csc412.Kernel.TimelineSound
import Csc412.Kernel.DumpSound
import Csc412.Kernel.Grade
import Csc412.Kernel.GradeSound
import Csc412.Kernel.RunLog
import Csc412.Labrpc.Network
import Csc412.Labrpc.NetworkSound
import Csc412.Labrpc.CountSound
import Csc412.Raft.Config
import Csc412.Raft.ConfigSound
import Csc412.Voting.BallotBox
import Csc412.Voting.BallotBoxSound
import Csc412.Raft.Applier
import Csc412.Raft.ApplierSound
import Csc412.Raft.One
import Csc412.Raft.OneSound
import Csc412.Raft.Partition
import Csc412.Raft.WiringSound
import Csc412.Raft.PartitionSound
import Csc412.Lib.Tiling
import Csc412.MapReduce.JobsSound
import Csc412.Lib.Grouping
import Csc412.MapReduce.Sequential
import Csc412.MapReduce.GroupSound
import Csc412.MapReduce.OrderSound
import Csc412.MapReduce.CrashSound
import Csc412.Lib.Server
import Csc412.RoundRobin.Report
import Csc412.RoundRobin.RealizeSound
import Csc412.RoundRobin.OrderSound
import Csc412.RoundRobin.RangeSound
import Csc412.Lib.Strtok
import Csc412.Stencil.Keyboard
import Csc412.Stencil.KeyboardSound
import Csc412.Shell.Parse
import Csc412.Shell.LoopSound
import Csc412.Shell.ParseSound
import Csc412.Shell.ResultSound
import Csc412.Lib.Marking
import Csc412.Checker.Expect
import Csc412.Checker.NumberSound
import Csc412.Checker.CompareSound
import Csc412.Labgob.CheckSound
