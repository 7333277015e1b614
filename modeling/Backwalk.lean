import Backwalk.Common.Ticket
import Backwalk.Walk.Termination
import Backwalk.Walk.Capacity
import Backwalk.Walk.OnHeap
import Backwalk.DwarfLine.Scans
import Backwalk.DwarfLine.Isolation
import Backwalk.DwarfLine.Skipping
import Backwalk.DwarfLine.Lookup
import Backwalk.DwarfLine.Program
import Backwalk.DwarfLine.EntryFormats
import Backwalk.DwarfLine.LineUnit
import Backwalk.DwarfLine.Progress
import Backwalk.DwarfLine.StaleBytes
import Backwalk.DwarfLine.Sequences
import Backwalk.DwarfLine.LebNumbers
import Backwalk.DwarfLine.FormSizes
import Backwalk.DwarfLine.Paths
import Backwalk.DwarfLine.Terminators
import Backwalk.Windows.LoadAddress
import Backwalk.Windows.SectionNames
import Backwalk.Windows.Extents
import Backwalk.Windows.NearestName
import Backwalk.Windows.Resolve
import Backwalk.Windows.SameFiles
import Backwalk.Windows.Handles
import Backwalk.Elf.Inside
import Backwalk.Elf.Selection
import Backwalk.Elf.LinkedNames
import Backwalk.Elf.Handles
import Backwalk.Elf.LinuxFrames
