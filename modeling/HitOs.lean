import HitOs.Credentials
import HitOs.AccessChecks
import HitOs.BufferEvictions
import HitOs.BalancedScans
import HitOs.OffsetRuns
import HitOs.FailedForks
import HitOs.AreaChecks
import HitOs.InodeBlocks
import HitOs.Choices
import HitOs.MallocRuns
import HitOs.ExecPages
import HitOs.DemandLoading
import HitOs.ScriptArguments
import HitOs.ExecRoom
import HitOs.Who
import HitOs.TerminalEchoes
import HitOs.TerminalReads
import HitOs.TerminalRoom
import HitOs.TtyWrites
import HitOs.ConsoleScrolls
import HitOs.RequestRuns
import HitOs.RequestQueue
import HitOs.PipeFaults
import HitOs.DescriptorRuns
import HitOs.WaitpidWakeups
import HitOs.Creators
import HitOs.TruncationRaces
import HitOs.DirectoryRuns
import HitOs.CopyOnWrite
import HitOs.WriteAccess
import HitOs.TimerRuns
import HitOs.ZoneRuns
import HitOs.FileRuns
import HitOs.SharedPages
import HitOs.InodeCounts
import HitOs.DeletionRaces
import HitOs.InterruptibleSleep
import HitOs.Kills
import HitOs.DescriptorCopies
import HitOs.HardDiskSectors
import HitOs.ConsoleCursors
import HitOs.RamDisk
import HitOs.SuperBlockMaps
import HitOs.ReadAlarms
import HitOs.BootClock
import HitOs.HashLinks
import HitOs.KeyQueues
import HitOs.SegmentDescriptors
import HitOs.StarArguments
import HitOs.PathRoots
import HitOs.InodeNumbers
