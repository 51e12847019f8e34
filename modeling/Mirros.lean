import Mirros.Lib.Run
import Mirros.Lib.Layout
import Mirros.Lib.Lookup
import Mirros.Lib.Tickets
import Mirros.Lib.Rota
import Mirros.Lib.Pieces
import Mirros.Lib.Segment
import Mirros.Lib.Selection
import Mirros.Lib.Chain
import Mirros.Lib.Numeral
import Mirros.Lib.Arm
import Mirros.Core.List
import Mirros.Core.Mm
import Mirros.Core.Boot
import Mirros.Core.Mmu
import Mirros.Core.Slab
import Mirros.Core.Sched
import Mirros.Core.Task
import Mirros.Core.Exec
import Mirros.Core.Pid
import Mirros.Core.Cache
import Mirros.Core.Locks
import Mirros.Core.Syscall
import Mirros.Core.Ramdisk
import Mirros.Core.PageLists
import Mirros.Core.Elf
import Mirros.Core.Memcpy
import Mirros.Core.Printk
import Mirros.Core.Signal
import Mirros.Theory.Pages.Boot
import Mirros.Theory.Pages.Bitmap
import Mirros.Theory.Boot.Layout
import Mirros.Theory.Boot.Translate
import Mirros.Theory.Boot.Table
import Mirros.Theory.Boot.Regions
import Mirros.Theory.Boot.Dma
import Mirros.Theory.Boot.Register
import Mirros.Theory.Boot.Faithful
import Mirros.Theory.Boot.Aligin
import Mirros.Theory.Pages.Search
import Mirros.Theory.Pages.Session
import Mirros.Theory.Pages.Exclusive
import Mirros.Theory.Pages.Zones
import Mirros.Theory.Pages.Accounting
import Mirros.Theory.Pages.Runs
import Mirros.Theory.Pages.Undo
import Mirros.Theory.Pages.Reject
import Mirros.Theory.Slab.Sound
import Mirros.Theory.Slab.Outlive
import Mirros.Theory.Slab.Grows
import Mirros.Theory.Slab.Locks
import Mirros.Theory.Slab.Stale
import Mirros.Theory.Slab.Release
import Mirros.Theory.Sched.Running
import Mirros.Theory.Sched.Priority
import Mirros.Theory.Sched.RoundRobin
import Mirros.Theory.Sched.Reinsert
import Mirros.Theory.Sched.Sleep
import Mirros.Theory.Mutex.Kinds
import Mirros.Theory.Mutex.Wakes
import Mirros.Theory.Mutex.Unlock
import Mirros.Theory.Mutex.Kill
import Mirros.Theory.Mutex.Runs
import Mirros.Theory.Mutex.Result
import Mirros.Theory.Mutex.Adopt
import Mirros.Theory.Mutex.Leave
import Mirros.Theory.Pid.Session
import Mirros.Theory.Syscall.Dispatch
import Mirros.Theory.Task.Words
import Mirros.Theory.Task.Alloc
import Mirros.Theory.Task.Progress
import Mirros.Theory.Task.Fork
import Mirros.Theory.Task.Registers
import Mirros.Theory.Task.Space
import Mirros.Theory.Task.Blind
import Mirros.Theory.Task.Copy
import Mirros.Theory.Task.Visit
import Mirros.Theory.Task.Outside
import Mirros.Theory.Task.Place
import Mirros.Theory.Task.Argv
import Mirros.Theory.Task.Return
import Mirros.Theory.Ramdisk.Generate
import Mirros.Theory.Ramdisk.Image
import Mirros.Theory.Ramdisk.Reader
import Mirros.Theory.Ramdisk.RoundTrip
import Mirros.Theory.Ramdisk.Cursor
import Mirros.Theory.Elf.Sections
import Mirros.Theory.Elf.Parser
import Mirros.Theory.Memcpy.Loops
import Mirros.Theory.Memcpy.Exact
import Mirros.Theory.Printk.Numbers
import Mirros.Theory.Printk.Canonical
import Mirros.Theory.Printk.Format
import Mirros.Theory.Signal.Pids
import Mirros.Theory.Signal.Safe
import Mirros.Theory.Signal.Session
import Mirros.Lib.Torn
import Mirros.Theory.Slab.Filed
import Mirros.Theory.Slab.Carve
import Mirros.Theory.Slab.Index
import Mirros.Theory.Slab.Classes
import Mirros.Theory.Slab.OneList
import Mirros.Theory.Lists.Refine
import Mirros.Core.Entry
import Mirros.Core.Interrupt
import Mirros.Lib.Spaces
import Mirros.Lib.Turns
import Mirros.Theory.Context.Choose
import Mirros.Theory.Context.Exit
import Mirros.Theory.Context.Fresh
import Mirros.Theory.Context.Syscall
import Mirros.Theory.Interrupt.Dispatch
import Mirros.Theory.Slab.Exhaust
import Mirros.Theory.Spaces.Beside
import Mirros.Theory.Spaces.Books
import Mirros.Theory.Spaces.Copies
import Mirros.Theory.Spaces.Ledger
